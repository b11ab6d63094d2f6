/-
  Reshape.Proofs.JsonText: what is written as JSON on one line is read back.

  The text of a value starts and ends with characters that are not blank, has no line end in it, and is read
  as the value whatever follows that does not go on with it. Twice its length is fuel enough.
  - `readString_append`: a string is read up to its closing quote, one character from each escape.
  - `renders_word`, `renders_int`, `renders_float`, `renders_str`: scalars are written as such texts.
  - `renders_list`, `renders_dict`: so are lists and dictionaries, if their parts are.
  - `writeAt_renders`: so is every value made of JSON's own kinds.
  - `Renders.read_eq`: and a whole text of a value is read as the value.
-/

import Reshape.Json.Writer
import Reshape.Proofs.Layout
import Reshape.Proofs.Merging
import Reshape.Proofs.Rounding
import Mathlib.Data.List.Forall2
import Mathlib.Tactic.IntervalCases

namespace Reshape

namespace Json

open Number

/-! ## Strings -/

theorem hexQuad?_append {n : Nat} (hn : n < 0x20) (e : Char) (rest : List Char) :
    hexQuad? (Text.hexadecimal 4 n ++ e :: rest) = some (n, e :: rest) := by
  interval_cases n <;> rfl

variable {opening fuel : Nat} {rest : List Char}

/-- One character is read back from its escape, or from itself. -/
theorem readString_escapeChar (c : Char) (hrest : rest ≠ []) :
    readString opening (fuel + 1) (escapeChar false c ++ rest) =
      (readString opening fuel rest).map fun (ds, rest) => (c :: ds, rest) := by
  unfold escapeChar
  split
  · rename_i hc
    rcases hc with rfl | rfl <;> rfl
  split
  · subst_vars; rfl
  split
  · subst_vars; rfl
  split
  · subst_vars; rfl
  split
  · subst_vars; rfl
  split
  · subst_vars; rfl
  split
  · rename_i hc
    have hlow : c.toNat < 0x20 := by simpa using hc
    obtain ⟨e, rest, rfl⟩ := List.exists_cons_of_ne_nil hrest
    have hunit : unitEscapes c.toNat = '\\' :: 'u' :: Text.hexadecimal 4 c.toNat := by
      rw [unitEscapes, if_pos (by omega), unicodeEscape]
    have hcharacter : character c.toNat = c := by
      rw [character, if_neg (by omega), Char.ofNat_toNat]
    rw [hunit, List.cons_append, List.cons_append, readString]
    rw [if_neg (by decide), if_pos rfl]
    dsimp only
    rw [hexQuad?_append hlow]
    dsimp only
    rw [if_neg (by omega)]
    dsimp only
    rw [hcharacter]
  · rename_i hquote _ _ _ _ _ hplain
    have hlow : ¬ c.toNat < 0x20 := by simpa using hplain
    rw [List.singleton_append, readString.eq_def]
    dsimp only
    rw [if_neg (fun h => hquote (Or.inl h)), if_neg (fun h => hquote (Or.inr h)), if_neg hlow]

theorem escapeChar_ne_nil (c : Char) : escapeChar false c ≠ [] := by
  intro hnil
  have hread := @readString_escapeChar 0 0 ['"'] c (by simp)
  rw [hnil] at hread
  cases hread

/-- No control character stands in an escape. -/
theorem le_of_mem_escapeChar {c d : Char} (hd : d ∈ escapeChar false c) : 0x20 ≤ d.toNat := by
  suffices hall : (escapeChar false c).all (fun d => 0x20 ≤ d.toNat) = true by
    simpa using List.all_eq_true.mp hall d hd
  unfold escapeChar
  split
  · rename_i hc
    rcases hc with rfl | rfl <;> rfl
  iterate 5
    split
    · rfl
  split
  · rename_i hc
    have hlow : c.toNat < 0x20 := by simpa using hc
    generalize c.toNat = n at hlow
    interval_cases n <;> rfl
  · rename_i hplain
    simpa using hplain

theorem readString_append (cs : List Char) (hfuel : (cs.flatMap (escapeChar false)).length < fuel) :
    readString opening fuel (cs.flatMap (escapeChar false) ++ '"' :: rest) = .ok (cs, rest) := by
  obtain ⟨fuel, rfl⟩ : ∃ n, fuel = n + 1 := ⟨fuel - 1, by omega⟩
  induction cs generalizing fuel with
  | nil => rfl
  | cons c cs ih =>
    have hpos := List.length_pos_of_ne_nil (escapeChar_ne_nil c)
    rw [List.flatMap_cons, List.length_append] at hfuel
    obtain ⟨fuel, rfl⟩ : ∃ n, fuel = n + 1 := ⟨fuel - 1, by omega⟩
    rw [List.flatMap_cons, List.append_assoc, readString_escapeChar c (by simp), ih fuel (by omega)]
    rfl

/-! ## Scalars -/

theorem readPlain_word {word : String} {v : Value} (h : (word, v) ∈ wordValues) :
    readPlain (word.toList ++ rest) = .ok (v, rest) := by
  simp only [wordValues, List.mem_cons, Prod.mk.injEq, List.not_mem_nil, or_false] at h
  rcases h with ⟨rfl, rfl⟩ | ⟨rfl, rfl⟩ | ⟨rfl, rfl⟩ | ⟨rfl, rfl⟩ | ⟨rfl, rfl⟩ | ⟨rfl, rfl⟩ <;> rfl

theorem readWord?_eq_none {cs : List Char} (h : ∀ e ∈ wordValues, e.1.toList.isPrefixOf cs = false) :
    readWord? cs = none := by
  rw [readWord?, List.findSome?_eq_none_iff]
  intro e he
  dsimp only
  rw [h e he]
  rfl

theorem beq_digit {c d : Char} (hc : c.isDigit = true) (hd : d.isDigit = false) : (d == c) = false := by
  rw [beq_eq_false_iff_ne]
  rintro rfl
  rw [hd] at hc
  cases hc

/-- The sign of a number, if it has one. -/
def signText (negative : Bool) : List Char := if negative then ['-'] else []

/-- No word starts with a digit, with or without a sign before it. -/
theorem readWord?_digit {c : Char} (hc : c.isDigit = true) (cs : List Char) (negative : Bool) :
    readWord? (signText negative ++ c :: cs) = none := by
  refine readWord?_eq_none fun e he => ?_
  simp only [wordValues, List.mem_cons, List.not_mem_nil, or_false] at he
  cases negative with
  | false => rcases he with rfl | rfl | rfl | rfl | rfl | rfl <;> exact congrArg (· && _) (beq_digit hc rfl)
  | true =>
    rcases he with rfl | rfl | rfl | rfl | rfl | rfl
    iterate 5 rfl
    exact congrArg (· && _) (beq_digit hc rfl)

/-- A number is what it is read as after its sign, if it has one. -/
theorem readPlain_number {negative : Bool} {c : Char} {cs : List Char} (hc : c.isDigit = true) {read : Reads Value}
    (h : readNumber? negative (c :: cs) = some read) :
    readPlain (signText negative ++ c :: cs) = read := by
  unfold readPlain
  rw [readWord?_digit hc]
  dsimp only
  split
  · rename_i heq
    cases negative with
    | false =>
      cases heq
      cases hc
    | true =>
      cases heq
      show (readNumber? true (c :: cs)).getD _ = read
      rw [h]
      rfl
  · rename_i hne
    cases negative with
    | false =>
      rw [signText, if_neg Bool.false_ne_true, List.nil_append, h]
      rfl
    | true => exact absurd rfl (hne _)

/-! ## Values -/

/-- Characters that a value starts with. -/
def firsts : List Char := "\"[\x7bntfNI-0123456789".toList

/-- Characters that a value ends with. -/
def lasts : List Char := "\"]\x7dleNy0123456789".toList

/-- The text starts with one of these. -/
def Starts (cs : List Char) : Prop := ∃ c ∈ firsts, cs.head? = some c

/-- The text is one of this value: it starts and ends with characters that are not blank, has no line end
in it, and is read as the value, whatever follows that does not go on with it. -/
structure Renders (v : Value) (cs : List Char) : Prop where
  first : Starts cs
  last : ∃ c ∈ lasts, cs.getLast? = some c
  unbroken : ∀ e ∈ Text.lineEnds, e ∉ cs
  read : ∀ rest fuel, Closes rest → 2 * cs.length < fuel → readValue fuel (cs ++ rest) = .ok (v, rest)

variable {v : Value} {cs : List Char}

theorem isDigit_mem {c : Char} (hc : c.isDigit = true) : c ∈ firsts ∧ c ∈ lasts := by
  have hlow : 48 ≤ c.toNat ∧ c.toNat ≤ 57 := by
    simpa [Char.isDigit, UInt32.le_iff_toNat_le] using hc
  obtain ⟨n, hn⟩ : ∃ n, c.toNat = n := ⟨_, rfl⟩
  obtain rfl : c = Char.ofNat n := by rw [← hn, Char.ofNat_toNat]
  rw [hn] at hlow
  obtain ⟨hl, hh⟩ := hlow
  clear hc hn
  interval_cases n <;> decide

theorem Starts.head_ne (h : Starts cs) : cs.head? ≠ some '\uFEFF' := by
  obtain ⟨c, hc, hhead⟩ := h
  rw [hhead]
  rintro ⟨⟩
  exact absurd hc (by decide)

/-- A digit opens neither a string nor a list nor an object. -/
theorem notMem_of_isDigit {c : Char} (hc : c.isDigit = true) : c ∉ ['"', '[', '\x7b'] := by
  simp only [List.mem_cons, List.not_mem_nil, or_false]
  rintro (rfl | rfl | rfl) <;> cases hc

theorem readValue_plain {c : Char} (hc : c ∉ ['"', '[', '\x7b']) (cs : List Char) (hfuel : 0 < fuel) :
    readValue fuel (c :: cs) = readPlain (c :: cs) := by
  obtain ⟨fuel, rfl⟩ : ∃ n, fuel = n + 1 := ⟨fuel - 1, by omega⟩
  simp only [List.mem_cons, List.not_mem_nil, or_false, not_or] at hc
  rw [readValue]
  · exact fun _ heq => hc.1 (List.cons.inj heq).1
  · exact fun _ heq => hc.2.1 (List.cons.inj heq).1
  · exact fun _ heq => hc.2.2 (List.cons.inj heq).1

theorem renders_word {word : String} (h : (word, v) ∈ wordValues) : Renders v word.toList := by
  have hends : Starts word.toList ∧ (∃ c ∈ lasts, word.toList.getLast? = some c) ∧
      (∀ e ∈ Text.lineEnds, e ∉ word.toList) ∧ ∃ c cs, word.toList = c :: cs ∧ c ∉ ['"', '[', '\x7b'] := by
    simp only [wordValues, List.mem_cons, Prod.mk.injEq, List.not_mem_nil, or_false] at h
    rcases h with ⟨rfl, -⟩ | ⟨rfl, -⟩ | ⟨rfl, -⟩ | ⟨rfl, -⟩ | ⟨rfl, -⟩ | ⟨rfl, -⟩ <;>
      exact ⟨⟨_, by decide, rfl⟩, ⟨_, by decide, rfl⟩, by simp [Text.lineEnds], _, _, rfl, by decide⟩
  obtain ⟨hfirst, hlast, hunbroken, c, cs, hcs, hc⟩ := hends
  refine ⟨hfirst, hlast, hunbroken, fun rest fuel _ hfuel => ?_⟩
  rw [← readPlain_word h, hcs, List.cons_append, readValue_plain hc _ (by omega)]

/-- A numeral with its sign is a text of the value that it is read as. -/
theorem renders_numeral (n : Numeral) (negative : Bool)
    (h : ∀ rest, Closes rest → readNumber? negative (n.text ++ rest) = some (.ok (v, rest))) :
    Renders v (signText negative ++ n.text) := by
  obtain ⟨c, cs, hcs, hc⟩ := n.exists_head_text
  obtain ⟨d, hlast, hd⟩ := n.exists_last_text
  have hunbroken : ∀ e ∈ Text.lineEnds, e ∉ signText negative ++ n.text := by
    intro e hend he
    obtain ⟨hdigit, hother⟩ : e.isDigit = false ∧ e ∉ ['.', 'e', '+', '-'] := by
      rcases Text.mem_lineEnds.mp hend with rfl | rfl <;> exact ⟨rfl, by decide⟩
    rcases List.mem_append.mp he with he | he
    · cases negative with
      | false => cases he
      | true =>
        obtain rfl := List.mem_singleton.mp he
        exact hother (by decide)
    · rcases n.isDigit_or_mem_of_mem_text he with hdigit' | hmem
      · rw [hdigit] at hdigit'
        cases hdigit'
      · exact hother hmem
  refine ⟨?_, ⟨d, (isDigit_mem hd).2, ?_⟩, hunbroken, fun rest fuel hrest hfuel => ?_⟩
  · cases negative with
    | false => exact ⟨c, (isDigit_mem hc).1, by rw [hcs]; rfl⟩
    | true => exact ⟨'-', by decide, rfl⟩
  · rw [List.getLast?_append, hlast, Option.some_or]
  · have hread := h rest hrest
    rw [hcs] at hread ⊢
    rw [List.append_assoc, ← readPlain_number hc hread]
    cases negative with
    | false => exact readValue_plain (notMem_of_isDigit hc) _ (by omega)
    | true => exact readValue_plain (by decide) _ (by omega)

theorem renders_int (n : Int) (hshort : (natText n.natAbs).length ≤ digitLimit) : Renders (.int n) (Number.intText n) := by
  have htext : Number.intText n = signText (decide (n < 0)) ++ (Numeral.ofNat n.natAbs).text := by
    rw [Numeral.text_ofNat, Number.intText]
    by_cases hn : n < 0 <;> simp [signText, hn]
  have hvalue : applySign (decide (n < 0)) n.natAbs = n := by
    by_cases hn : n < 0
    · simp only [applySign, hn, decide_true, if_true]
      omega
    · simp only [applySign, hn, decide_false, Bool.false_eq_true, if_false]
      omega
  rw [htext]
  refine renders_numeral _ _ fun rest hrest => ?_
  rw [Numeral.text_ofNat, Numeral.readNumber?_whole _ hshort hrest, hvalue]

theorem renders_float (x : Double) : Renders (.float x) (floatText x) := by
  cases x with
  | nan => exact @renders_word _ "NaN" (by simp [wordValues])
  | infinite negative =>
    cases negative with
    | false => exact @renders_word _ "Infinity" (by simp [wordValues])
    | true => exact @renders_word _ "-Infinity" (by simp [wordValues])
  | finite negative rank =>
    obtain ⟨n, htext, hbroken, hvalue⟩ := Double.exists_numeral rank.isLt
    have hfloat : floatText (.finite negative rank) = signText negative ++ n.text := by
      rw [htext]
      cases negative <;> rfl
    rw [hfloat]
    refine renders_numeral n negative fun rest hrest => ?_
    rw [n.readNumber?_broken negative hbroken hrest, hvalue]

theorem renders_str (s : String) : Renders (.str s) (stringText false s.toList) := by
  have hunbroken : ∀ e ∈ Text.lineEnds, e ∉ stringText false s.toList := by
    intro e hend hmem
    have he : e.toNat < 0x20 := by
      rcases Text.mem_lineEnds.mp hend with rfl | rfl <;> decide
    simp only [stringText, List.mem_append, List.mem_cons, List.mem_flatMap, List.not_mem_nil, or_false] at hmem
    rcases hmem with (rfl | ⟨c, -, hc⟩) | rfl
    · exact absurd he (by decide)
    · exact absurd he (Nat.not_lt.mpr (le_of_mem_escapeChar hc))
    · exact absurd he (by decide)
  refine ⟨⟨'"', by decide, rfl⟩, ⟨'"', by decide, ?_⟩, hunbroken, fun rest fuel _ hfuel => ?_⟩
  · rw [stringText, List.getLast?_append]
    rfl
  · obtain ⟨fuel, rfl⟩ : ∃ n, fuel = n + 1 := ⟨fuel - 1, by omega⟩
    rw [stringText, List.cons_append, List.cons_append, List.append_assoc, List.singleton_append, readValue,
      readString_append _ (by rw [List.length_append]; omega)]
    simp [Except.map]

/-! ## Lists and dictionaries -/

theorem bracketed_oneLine (depth : Nat) (opening closing : Char) (ts : List (List Char)) :
    bracketed oneLine depth opening closing ts = opening :: (Text.joined [',', ' '] ts ++ [closing]) := by
  rw [bracketed]
  split
  · rename_i h
    rw [h]
    rfl
  · simp [oneLine, lineBreak, Text.flatten_intersperse]

/-- Brackets and commas close a value. -/
theorem closes_cons {c : Char} (hc : c ∈ [',', ']', '\x7d']) (rest : List Char) : Closes (c :: rest) := by
  rintro _ ⟨⟩
  simp only [List.mem_cons, List.not_mem_nil, or_false] at hc
  rcases hc with rfl | rfl | rfl <;> decide

theorem skipSpace_append (h : Starts cs) (rest : List Char) :
    skipSpace (cs ++ rest) = cs ++ rest := by
  obtain ⟨c, hc, hhead⟩ := h
  have hspace : isSpace c = false := by
    have hall : firsts.all (fun c => !isSpace c) = true := rfl
    simpa using List.all_eq_true.mp hall c hc
  exact Text.dropWhile_eq_self (by simpa [hhead] using hspace)

theorem readItems_last {t : List Char} (ht : Renders v t) (hfuel : 2 * t.length < fuel) :
    readItems (fuel + 1) (t ++ ']' :: rest) = .ok ([v], rest) := by
  rw [readItems, ht.read _ _ (closes_cons (by simp) _) hfuel]
  rfl

theorem readItems_more {t : List Char} (ht : Renders v t) (hfuel : 2 * t.length < fuel) :
    readItems (fuel + 1) (t ++ ',' :: cs) =
      (readItems fuel (skipSpace cs)).map fun (vs, rest) => (v :: vs, rest) := by
  rw [readItems, ht.read _ _ (closes_cons (by simp) _) hfuel]
  rfl

theorem first_joined {sep t : List Char} (ht : Starts t) (ts : List (List Char)) :
    Starts (Text.joined sep (t :: ts)) := by
  obtain ⟨c, hc, hhead⟩ := ht
  refine ⟨c, hc, ?_⟩
  cases ts with
  | nil => exact hhead
  | cons u ts => rw [Text.joined_cons (by simp), List.append_assoc, List.head?_append, hhead, Option.some_or]

theorem readItems_joined {vs : List Value} {ts : List (List Char)} (h : List.Forall₂ Renders vs ts) (hne : vs ≠ [])
    (hfuel : 2 * (Text.joined [',', ' '] ts).length + 2 ≤ fuel) :
    readItems fuel (Text.joined [',', ' '] ts ++ ']' :: rest) = .ok (vs, rest) := by
  induction h generalizing fuel with
  | nil => exact absurd rfl hne
  | @cons v t vs ts ht hts ih =>
    obtain ⟨fuel, rfl⟩ : ∃ n, fuel = n + 1 := ⟨fuel - 1, by omega⟩
    cases hts with
    | nil =>
      have hsingle : Text.joined [',', ' '] [t] = t := rfl
      rw [hsingle] at hfuel ⊢
      exact readItems_last ht (by omega)
    | @cons w u vs ts hu hts =>
      rw [Text.joined_cons (by simp)] at hfuel ⊢
      simp only [List.length_append, List.length_cons, List.length_nil] at hfuel
      have hskip : skipSpace (' ' :: (Text.joined [',', ' '] (u :: ts) ++ ']' :: rest)) =
          Text.joined [',', ' '] (u :: ts) ++ ']' :: rest :=
        skipSpace_append (first_joined hu.first ts) _
      rw [List.append_assoc, List.append_assoc, List.cons_append, List.singleton_append, readItems_more ht (by omega),
        hskip, ih (by simp) (by omega)]
      rfl

/-- A member of a dictionary, with the text of its value. -/
def memberText (name : String) (t : List Char) : List Char := stringText false name.toList ++ ':' :: ' ' :: t

/-- The text is one of this member. -/
def RendersMember (m : String × Value) (cs : List Char) : Prop := ∃ t, Renders m.2 t ∧ cs = memberText m.1 t

namespace RendersMember

variable {m : String × Value} (h : RendersMember m cs)
include h

theorem first : Starts cs := by
  obtain ⟨t, -, rfl⟩ := h
  exact ⟨'"', by decide, rfl⟩

theorem unbroken : ∀ e ∈ Text.lineEnds, e ∉ cs := by
  obtain ⟨t, ht, rfl⟩ := h
  intro e hend hmem
  have hother : e ∉ [':', ' '] := by
    rcases Text.mem_lineEnds.mp hend with rfl | rfl <;> decide
  simp only [memberText, List.mem_append, List.mem_cons] at hmem
  rcases hmem with hname | rfl | rfl | hvalue
  · exact (renders_str m.1).unbroken e hend hname
  · exact hother (by decide)
  · exact hother (by decide)
  · exact ht.unbroken e hend hvalue

end RendersMember

variable {name : String} {t : List Char}

theorem skipSpace_render (ht : Renders v t) (rest : List Char) : skipSpace (' ' :: (t ++ rest)) = t ++ rest :=
  skipSpace_append ht.first rest

theorem memberText_append (name : String) (t tail : List Char) :
    memberText name t ++ tail = '"' :: (name.toList.flatMap (escapeChar false) ++ '"' :: ':' :: ' ' :: (t ++ tail)) := by
  simp [memberText, stringText]

theorem readMembers_last (ht : Renders v t) (hfuel : 2 * t.length < fuel) :
    readMembers (fuel + 1) (memberText name t ++ '\x7d' :: rest) = .ok ([(.str name, v)], rest) := by
  have hcolon : ∀ cs, skipSpace (':' :: cs) = ':' :: cs := fun _ => rfl
  rw [memberText_append, readMembers, readString_append _ (by rw [List.length_append]; omega)]
  simp only [bind, Except.bind, hcolon, skipSpace_render ht]
  rw [ht.read _ _ (closes_cons (by simp) _) hfuel, String.ofList_toList]
  rfl

theorem readMembers_more (ht : Renders v t) (hfuel : 2 * t.length < fuel) :
    readMembers (fuel + 1) (memberText name t ++ ',' :: cs) =
      (readMembers fuel (skipSpace cs)).map fun (ms, rest) => ((.str name, v) :: ms, rest) := by
  have hcolon : ∀ cs, skipSpace (':' :: cs) = ':' :: cs := fun _ => rfl
  rw [memberText_append, readMembers, readString_append _ (by rw [List.length_append]; omega)]
  simp only [bind, Except.bind, hcolon, skipSpace_render ht]
  rw [ht.read _ _ (closes_cons (by simp) _) hfuel, String.ofList_toList]
  rfl

theorem readMembers_joined {ms : List (String × Value)} {ts : List (List Char)} (h : List.Forall₂ RendersMember ms ts)
    (hne : ms ≠ []) (hfuel : 2 * (Text.joined [',', ' '] ts).length + 2 ≤ fuel) :
    readMembers fuel (Text.joined [',', ' '] ts ++ '\x7d' :: rest) = .ok (ms.map fun m => (.str m.1, m.2), rest) := by
  induction h generalizing fuel with
  | nil => exact absurd rfl hne
  | @cons m text ms ts hm hms ih =>
    obtain ⟨t, ht, rfl⟩ := hm
    have hlength : t.length < (memberText m.1 t).length := by
      simp only [memberText, List.length_append, List.length_cons]
      omega
    obtain ⟨fuel, rfl⟩ : ∃ n, fuel = n + 1 := ⟨fuel - 1, by omega⟩
    cases hms with
    | nil =>
      have hsingle : Text.joined [',', ' '] [memberText m.1 t] = memberText m.1 t := rfl
      rw [hsingle] at hfuel ⊢
      exact readMembers_last ht (by omega)
    | @cons m' text' ms ts hm' hms =>
      rw [Text.joined_cons (by simp)] at hfuel ⊢
      simp only [List.length_append, List.length_cons, List.length_nil] at hfuel
      have hskip : skipSpace (' ' :: (Text.joined [',', ' '] (text' :: ts) ++ '\x7d' :: rest)) =
          Text.joined [',', ' '] (text' :: ts) ++ '\x7d' :: rest :=
        skipSpace_append (first_joined hm'.first ts) _
      rw [List.append_assoc, List.append_assoc, List.cons_append, List.singleton_append, readMembers_more ht (by omega),
        hskip, ih (by simp) (by omega)]
      rfl

theorem getLast?_bracketed (opening closing : Char) (ts : List (List Char)) :
    (opening :: (Text.joined [',', ' '] ts ++ [closing])).getLast? = some closing := by
  rw [← List.cons_append, List.getLast?_concat]

/-- With commas between them and brackets around them, texts on one line make a text on one line. -/
theorem unbroken_bracketed {opening closing : Char} (hopening : opening ∉ Text.lineEnds) (hclosing : closing ∉ Text.lineEnds)
    {ts : List (List Char)} (hts : ∀ t ∈ ts, ∀ e ∈ Text.lineEnds, e ∉ t) :
    ∀ e ∈ Text.lineEnds, e ∉ opening :: (Text.joined [',', ' '] ts ++ [closing]) := by
  intro e hend hmem
  rcases List.mem_cons.mp hmem with rfl | hmem
  · exact hopening hend
  rcases List.mem_append.mp hmem with hmem | hmem
  · rcases Text.mem_of_mem_joined hmem with hsep | ⟨t, ht, hmem⟩
    · have hdisjoint : e ∉ Text.lineEnds := by
        simp only [List.mem_cons, List.not_mem_nil, or_false] at hsep
        rcases hsep with rfl | rfl <;> decide
      exact hdisjoint hend
    · exact hts t ht e hend hmem
  · obtain rfl := List.mem_singleton.mp hmem
    exact hclosing hend

theorem forall_of_forall₂ {α β : Type} {R : α → β → Prop} {P : β → Prop} (hR : ∀ a b, R a b → P b) {as : List α}
    {bs : List β} (h : List.Forall₂ R as bs) : ∀ b ∈ bs, P b := by
  induction h with
  | nil => nofun
  | cons hab _ ih => exact List.forall_mem_cons.mpr ⟨hR _ _ hab, ih⟩

theorem readValue_list (h : Starts cs) :
    readValue (fuel + 1) ('[' :: (cs ++ rest)) =
      (readItems fuel (cs ++ rest)).map fun (vs, rest) => (.list vs, rest) := by
  rw [readValue, skipSpace_append h]
  obtain ⟨c, hc, hhead⟩ := h
  obtain ⟨cs, rfl⟩ := List.head?_eq_some_iff.mp hhead
  split
  · rename_i heq
    obtain rfl := (List.cons.inj heq).1
    exact absurd hc (by decide)
  · rfl

theorem readValue_dict (h : Starts cs) :
    readValue (fuel + 1) ('\x7b' :: (cs ++ rest)) =
      (readMembers fuel (cs ++ rest)).map fun (ms, rest) => (.dict (Entries.ofList ms), rest) := by
  rw [readValue, skipSpace_append h]
  obtain ⟨c, hc, hhead⟩ := h
  obtain ⟨cs, rfl⟩ := List.head?_eq_some_iff.mp hhead
  split
  · rename_i heq
    obtain rfl := (List.cons.inj heq).1
    exact absurd hc (by decide)
  · rfl

theorem renders_list {vs : List Value} {ts : List (List Char)} (h : List.Forall₂ Renders vs ts) :
    Renders (.list vs) ('[' :: (Text.joined [',', ' '] ts ++ [']'])) := by
  have hunbroken : ∀ e ∈ Text.lineEnds, e ∉ '[' :: (Text.joined [',', ' '] ts ++ [']']) :=
    unbroken_bracketed (by decide) (by decide) (forall_of_forall₂ (fun _ _ ht => ht.unbroken) h)
  refine ⟨⟨'[', by decide, rfl⟩, ⟨']', by decide, getLast?_bracketed ..⟩, hunbroken, fun rest fuel _ hfuel => ?_⟩
  obtain ⟨fuel, rfl⟩ : ∃ n, fuel = n + 1 := ⟨fuel - 1, by omega⟩
  cases h with
  | nil => rfl
  | @cons v t vs ts ht hts =>
    simp only [List.length_append, List.length_cons, List.length_nil] at hfuel
    rw [List.cons_append, List.append_assoc, List.singleton_append, readValue_list (first_joined ht.first ts),
      readItems_joined (.cons ht hts) (by simp) (by omega)]
    rfl

/-- Entries that stand under the names of members are those members. -/
theorem eq_map_of_named {es : List (Key × Value)} {ms : List (String × Value)}
    (h : List.Forall₂ (Entries.Named Eq) es ms) : es = ms.map fun m => (Key.str m.1, m.2) := by
  induction h with
  | nil => rfl
  | @cons e m es ms hem _ ih => rw [List.map_cons, ← ih, ← hem.1, ← hem.2]

/-- A table of texts as keys, all different, is read as itself. -/
theorem ofList_of_names_nodup {ms : List (String × Value)} (hnodup : (Entries.keys ms).Nodup) :
    Entries.ofList (ms.map fun m => (Key.str m.1, m.2)) = ms.map fun m => (Key.str m.1, m.2) := by
  have hnamed : List.Forall₂ (Entries.Named Eq) (ms.map fun m => (Key.str m.1, m.2)) ms := by
    rw [List.forall₂_map_left_iff]
    exact List.forall₂_same.mpr fun m _ => ⟨rfl, rfl⟩
  rw [eq_map_of_named (Entries.forall₂_ofList hnamed), Entries.ofList_of_nodup hnodup]

theorem renders_dict {ms : List (String × Value)} {ts : List (List Char)} (hnodup : (Entries.keys ms).Nodup)
    (h : List.Forall₂ RendersMember ms ts) :
    Renders (.dict (ms.map fun m => (.str m.1, m.2))) ('\x7b' :: (Text.joined [',', ' '] ts ++ ['\x7d'])) := by
  have hunbroken : ∀ e ∈ Text.lineEnds, e ∉ '\x7b' :: (Text.joined [',', ' '] ts ++ ['\x7d']) :=
    unbroken_bracketed (by decide) (by decide) (forall_of_forall₂ (fun _ _ ht => ht.unbroken) h)
  refine ⟨⟨'\x7b', by decide, rfl⟩, ⟨'\x7d', by decide, getLast?_bracketed ..⟩, hunbroken, fun rest fuel _ hfuel => ?_⟩
  obtain ⟨fuel, rfl⟩ : ∃ n, fuel = n + 1 := ⟨fuel - 1, by omega⟩
  cases h with
  | nil => rfl
  | @cons m t ms ts ht hts =>
    simp only [List.length_append, List.length_cons, List.length_nil] at hfuel
    rw [List.cons_append, List.append_assoc, List.singleton_append, readValue_dict (first_joined ht.first ts),
      readMembers_joined (.cons ht hts) (by simp) (by omega)]
    exact congrArg (fun es => Except.ok (Value.dict es, rest)) (ofList_of_names_nodup hnodup)

/-! ## Records -/

end Json

/-- The value is made of nothing but null, truth values, integers of at most `digitLimit` digits, floats,
texts, lists, and dictionaries whose keys are texts. -/
inductive Value.IsJson : Value → Prop where
  | null : IsJson .null
  | bool (b : Bool) : IsJson (.bool b)
  | int {n : Int} : (Number.natText n.natAbs).length ≤ digitLimit → IsJson (.int n)
  | float (x : Double) : IsJson (.float x)
  | str (s : String) : IsJson (.str s)
  | list {items : List Value} : (∀ v ∈ items, IsJson v) → IsJson (.list items)
  | dict {members : List (String × Value)} : (Entries.keys members).Nodup → (∀ m ∈ members, IsJson m.2) →
      IsJson (.dict (members.map fun m => (.str m.1, m.2)))

namespace Json

theorem writeItems_renders {items : List Value} {depth : Nat}
    (h : ∀ v ∈ items, ∃ cs, writeAt oneLine depth v = .ok cs ∧ Renders v cs) :
    ∃ ts, writeItems oneLine depth items = .ok ts ∧ List.Forall₂ Renders items ts := by
  induction items with
  | nil => exact ⟨[], rfl, .nil⟩
  | cons v items ih =>
    obtain ⟨⟨t, hwrite, ht⟩, hitems⟩ := List.forall_mem_cons.mp h
    obtain ⟨ts, hwrites, hts⟩ := ih hitems
    exact ⟨t :: ts, by rw [writeItems, hwrite, hwrites]; rfl, .cons ht hts⟩

theorem writeMembers_renders {members : List (String × Value)} {depth : Nat}
    (h : ∀ m ∈ members, ∃ cs, writeAt oneLine depth m.2 = .ok cs ∧ Renders m.2 cs) :
    ∃ ts, writeMembers oneLine depth (members.map fun m => (.str m.1, m.2)) = .ok ts ∧
      List.Forall₂ RendersMember members ts := by
  induction members with
  | nil => exact ⟨[], rfl, .nil⟩
  | cons m members ih =>
    obtain ⟨⟨t, hwrite, ht⟩, hmembers⟩ := List.forall_mem_cons.mp h
    obtain ⟨ts, hwrites, hts⟩ := ih hmembers
    exact ⟨memberText m.1 t :: ts, by rw [List.map_cons, writeMembers, hwrite, hwrites]; rfl, .cons ⟨t, ht, rfl⟩ hts⟩

/-- What is made of JSON's own kinds of values can be written, as one of its texts. -/
theorem writeAt_renders {v : Value} (h : v.IsJson) (depth : Nat) :
    ∃ cs, writeAt oneLine depth v = .ok cs ∧ Renders v cs := by
  induction h generalizing depth with
  | null => exact ⟨_, rfl, @renders_word _ "null" (by simp [wordValues])⟩
  | bool b =>
    cases b with
    | false => exact ⟨_, rfl, @renders_word _ "false" (by simp [wordValues])⟩
    | true => exact ⟨_, rfl, @renders_word _ "true" (by simp [wordValues])⟩
  | int hshort =>
    refine ⟨_, ?_, renders_int _ hshort⟩
    rw [writeAt, scalarText, intText, Number.intText?, if_pos hshort]
  | float x => exact ⟨_, rfl, renders_float x⟩
  | str s => exact ⟨_, rfl, renders_str s⟩
  | list _ ih =>
    obtain ⟨ts, hwrite, hts⟩ := writeItems_renders fun v hv => ih v hv (depth + 1)
    refine ⟨_, ?_, renders_list hts⟩
    rw [writeAt, hwrite, ← bracketed_oneLine depth]
    rfl
  | dict hnodup _ ih =>
    obtain ⟨ts, hwrite, hts⟩ := writeMembers_renders fun m hm => ih m hm (depth + 1)
    refine ⟨_, ?_, renders_dict hnodup hts⟩
    rw [writeAt, hwrite, ← bracketed_oneLine depth]
    rfl

/-- A text of a value is read as it. -/
theorem Renders.read_eq (h : Renders v cs) : Json.read cs = .ok v := by
  have hread := h.read [] (2 * cs.length + 2) closes_nil (by omega)
  have hskip := skipSpace_append h.first []
  rw [List.append_nil] at hread hskip
  rw [Json.read, readText, if_neg h.first.head_ne, hskip, hread]
  rfl

/-- What is written on one line is read back. -/
theorem read_of_write {cs : List Char} (h : v.IsJson) (hwrite : write oneLine v = .ok cs) : read cs = .ok v := by
  obtain ⟨cs', hwrite', hrenders⟩ := writeAt_renders h 0
  cases hwrite.symm.trans hwrite'
  exact hrenders.read_eq

theorem isBlank_of_mem : (∀ c ∈ firsts, Text.isBlank c = false) ∧ ∀ c ∈ lasts, Text.isBlank c = false := by
  have hblank : (firsts ++ lasts).all (fun c => !Text.isBlank c) = true := rfl
  simpa using hblank

theorem isBlank_of_isDigit {c : Char} (hc : c.isDigit = true) : Text.isBlank c = false :=
  isBlank_of_mem.1 c (isDigit_mem hc).1

/-- A text of a value is a line that is not blank. -/
theorem Renders.solid (h : Renders v cs) : Text.Solid cs := by
  obtain ⟨c, hc, hfirst⟩ := h.first
  obtain ⟨d, hd, hlast⟩ := h.last
  obtain ⟨hfirsts, hlasts⟩ := isBlank_of_mem
  refine ⟨?_, fun e he => ?_, fun e he => ?_, h.unbroken⟩
  · rintro rfl
    cases hfirst
  · obtain rfl : c = e := Option.some.inj (hfirst.symm.trans he)
    exact hfirsts c hc
  · obtain rfl : d = e := Option.some.inj (hlast.symm.trans he)
    exact hlasts d hd

end Json

end Reshape
