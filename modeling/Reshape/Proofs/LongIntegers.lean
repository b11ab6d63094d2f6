/-
  Reshape.Proofs.LongIntegers: an integer is refused for digits that stand in the text.

  What is left when a part of a text has been read is an end of that text, so that the digits of whatever is
  read next stand in it too. Reading is bounded by fuel, and the fuel is what the proof goes by.
  - `within_string`, `within_number`, `within_plain`: strings, numbers and words.
  - `within_value`: values, with the items and members that they open.
  - `overlong_of_read`: a text that is refused for an integer of too many digits has all of them together.
  - `read_digits`: digits that are too many for an integer are refused for it.
-/

import Reshape.Proofs.JsonValues

namespace Reshape

namespace Json

open Number

/-- So many digits stand together in the text, and no integer can have as many. -/
structure Overlong (n : Nat) (cs : List Char) : Prop where
  tooMany : digitLimit < n
  digits : ∃ ds, ds <:+: cs ∧ Digits ds ∧ ds.length = n

/-- Reading ended within the text: what is left is an end of it, or the digits of an integer that is refused
stand in it. -/
inductive Within {α : Type} (cs : List Char) : Reads α → Prop where
  | ok {a : α} {rest : List Char} : rest <:+ cs → Within cs (.ok (a, rest))
  | malformed (defect : Defect) (left : Nat) : Within cs (.error (.at defect left))
  | tooLong {n : Nat} : Overlong n cs → Within cs (.error (.integerTooLong n))

variable {α β : Type} {r : Reads α} {cs text rest : List Char} {n fuel : Nat}

theorem Overlong.of_isInfix (h : Overlong n cs) (hcs : cs <:+: text) : Overlong n text := by
  obtain ⟨ds, hds, hdigits⟩ := h.digits
  exact ⟨h.tooMany, ds, hds.trans hcs, hdigits⟩

theorem Within.of_suffix (h : Within cs r) (hcs : cs <:+ text) : Within text r := by
  cases h with
  | ok hrest => exact .ok (hrest.trans hcs)
  | malformed defect left => exact .malformed defect left
  | tooLong hlong => exact .tooLong (hlong.of_isInfix hcs.isInfix)

theorem Within.map (h : Within cs r) (f : α → β) : Within cs (r.map fun (a, rest) => (f a, rest)) := by
  cases h with
  | ok hrest => exact .ok hrest
  | malformed defect left => exact .malformed defect left
  | tooLong hlong => exact .tooLong hlong

theorem Within.bind {f : α × List Char → Except Stop (β × List Char)} (h : Within cs r)
    (hf : ∀ a rest, rest <:+ cs → Within cs (f (a, rest))) : Within cs (@bind (Except Stop) _ _ _ r f) := by
  cases h with
  | ok hrest => exact hf _ _ hrest
  | malformed defect left => exact .malformed defect left
  | tooLong hlong => exact .tooLong hlong

theorem skipSpace_suffix (h : rest <:+ cs) : skipSpace rest <:+ cs := (List.dropWhile_suffix _).trans h

theorem suffix_of_skipSpace {c : Char} {after : List Char} (h : rest <:+ cs) (heq : skipSpace rest = c :: after) :
    after <:+ cs := by
  have hspace := skipSpace_suffix h
  rw [heq] at hspace
  exact (List.suffix_cons _ _).trans hspace

/-! ## Strings -/

theorem hexQuad?_suffix (h : hexQuad? cs = some (n, rest)) : rest <:+ cs := by
  unfold hexQuad? at h
  split at h
  · obtain ⟨ds, -, heq⟩ := Option.bind_eq_some_iff.mp h
    cases heq
    exact ⟨[_, _, _, _], rfl⟩
  · cases h

theorem lowSurrogate?_suffix (h : lowSurrogate? cs = some (n, rest)) : rest <:+ cs := by
  unfold lowSurrogate? at h
  split at h
  · rename_i cs
    obtain ⟨⟨m, rest'⟩, hquad, heq⟩ := Option.bind_eq_some_iff.mp h
    dsimp only at heq
    split at heq
    · cases heq
      exact (hexQuad?_suffix hquad).trans ⟨['\\', 'u'], rfl⟩
    · cases heq
  · cases h

theorem Within.more {r : Reads (List Char)} (h : Within cs r) (d : Char) :
    Within cs (r.map fun (ds, rest) => (d :: ds, rest)) := h.map (d :: ·)

theorem within_string (opening : Nat) (cs : List Char) : Within cs (readString opening fuel cs) := by
  induction fuel generalizing cs with
  | zero => exact .malformed _ _
  | succ fuel ih =>
    have hmore : ∀ {rest}, rest <:+ cs → Within cs (readString opening fuel rest) :=
      fun hrest => (ih _).of_suffix hrest
    cases cs with
    | nil => exact .malformed _ _
    | cons c cs =>
      rw [readString.eq_def]
      dsimp only
      split
      · exact .ok (List.suffix_cons _ _)
      split
      · split
        · exact .malformed _ _
        · rename_i digits
          split
          · exact .malformed _ _
          · rename_i n rest hquad
            have hrest : rest <:+ c :: 'u' :: digits := (hexQuad?_suffix hquad).trans ⟨[c, 'u'], rfl⟩
            split
            · rename_i m rest' hlow
              split at hlow
              · exact (hmore ((lowSurrogate?_suffix hlow).trans hrest)).more _
              · cases hlow
            · exact (hmore hrest).more _
        · split
          · exact (hmore ⟨[_, _], rfl⟩).more _
          · exact .malformed _ _
      split
      · exact .malformed _ _
      · exact (hmore (List.suffix_cons _ _)).more _

/-! ## Numbers and words -/

theorem takeWhole_append_eq (cs : List Char) : (takeWhole cs).1 ++ (takeWhole cs).2 = cs := by
  unfold takeWhole
  split
  · rfl
  · exact List.takeWhile_append_dropWhile

theorem asciiDigits_suffix (cs : List Char) : (Double.asciiDigits cs).2 <:+ cs := List.dropWhile_suffix _

theorem takeFraction_suffix (cs : List Char) : (takeFraction cs).2 <:+ cs := by
  unfold takeFraction
  split
  · rename_i rest
    split
    · exact List.suffix_refl _
    · exact (asciiDigits_suffix rest).trans (List.suffix_cons _ _)
  · exact List.suffix_refl _

theorem readExponent_suffix {e : Int} (h : Double.readExponent cs = some (e, rest)) : rest <:+ cs := by
  unfold Double.readExponent at h
  split at h
  · rename_i c body
    split at h
    · have hbody : (signed body).2 <:+ c :: body := by
        unfold signed
        split
        · exact ⟨[c, '-'], rfl⟩
        · exact ⟨[c, '+'], rfl⟩
        · exact List.suffix_cons _ _
      generalize signed body = taken at h hbody
      have hrest := (asciiDigits_suffix taken.2).trans hbody
      dsimp only at h
      split at h
      · cases h
      · rename_i heq
        rw [heq] at hrest
        cases h
        exact hrest
    · cases h
  · cases h

theorem takeExponent_suffix (cs : List Char) : (takeExponent cs).2 <:+ cs := by
  unfold takeExponent
  split
  · rename_i hread
    exact readExponent_suffix hread
  · exact List.suffix_refl _

theorem within_number (negative : Bool) {number : Reads Value} (h : readNumber? negative cs = some number) :
    Within cs number := by
  have hdigits := digits_takeWhole cs
  have hwhole := takeWhole_append_eq cs
  unfold readNumber? at h
  generalize takeWhole cs = taken at h hdigits hwhole
  obtain ⟨whole, rest⟩ := taken
  have hleft : (takeExponent (takeFraction rest).2).2 <:+ cs := by
    have hrest : rest <:+ cs := ⟨whole, hwhole⟩
    exact (takeExponent_suffix _).trans ((takeFraction_suffix _).trans hrest)
  dsimp only at h hdigits hwhole
  split at h
  · cases h
  split at h
  · split at h
    · rename_i hlong
      cases h
      exact .tooLong ⟨hlong, whole, ⟨[], rest, hwhole⟩, hdigits, rfl⟩
    · cases h
      exact .ok hleft
  · cases h
    exact .ok hleft

theorem readWord?_suffix {v : Value} (h : readWord? cs = some (v, rest)) : rest <:+ cs := by
  obtain ⟨⟨word, w⟩, -, hword⟩ := List.exists_of_findSome?_eq_some h
  dsimp only at hword
  split at hword
  · cases hword
    exact List.drop_suffix _ _
  · cases hword

theorem within_plain (cs : List Char) : Within cs (readPlain cs) := by
  unfold readPlain
  split
  · rename_i hword
    exact .ok (readWord?_suffix hword)
  · dsimp only
    split
    · rename_i rest _
      cases hnumber : readNumber? true rest with
      | none => exact .malformed _ _
      | some number => exact (within_number true hnumber).of_suffix (List.suffix_cons _ _)
    · cases hnumber : readNumber? false cs with
      | none => exact .malformed _ _
      | some number => exact within_number false hnumber

/-! ## Values -/

/-- One step of reading a value. -/
theorem within_value_succ (hitems : ∀ cs, Within cs (readItems fuel cs))
    (hmembers : ∀ cs, Within cs (readMembers fuel cs)) (cs : List Char) : Within cs (readValue (fuel + 1) cs) := by
  unfold readValue
  split
  · exact ((within_string _ _).of_suffix (List.suffix_cons _ _)).map fun s => Value.str (String.ofList s)
  · rename_i rest
    have hrest := List.suffix_cons '[' rest
    split
    · exact .ok (suffix_of_skipSpace hrest ‹_›)
    · exact ((hitems _).of_suffix (skipSpace_suffix hrest)).map Value.list
  · rename_i rest
    have hrest := List.suffix_cons '\x7b' rest
    split
    · exact .ok (suffix_of_skipSpace hrest ‹_›)
    · exact ((hmembers _).of_suffix (skipSpace_suffix hrest)).map fun ms => Value.dict (Entries.ofList ms)
  · exact within_plain _

/-- One step of reading the items of a list. -/
theorem within_items_succ (hvalue : ∀ cs, Within cs (readValue fuel cs)) (hitems : ∀ cs, Within cs (readItems fuel cs))
    (cs : List Char) : Within cs (readItems (fuel + 1) cs) := by
  rw [readItems]
  refine (hvalue cs).bind fun v rest hrest => ?_
  dsimp only
  split
  · exact .ok (suffix_of_skipSpace hrest ‹_›)
  · have hafter := skipSpace_suffix (suffix_of_skipSpace hrest ‹_›)
    exact ((hitems _).of_suffix hafter).bind fun vs rest hrest => .ok hrest
  · exact .malformed _ _

/-- One step of reading the members of an object. -/
theorem within_members_succ (hvalue : ∀ cs, Within cs (readValue fuel cs))
    (hmembers : ∀ cs, Within cs (readMembers fuel cs)) (cs : List Char) : Within cs (readMembers (fuel + 1) cs) := by
  unfold readMembers
  split
  · refine ((within_string _ _).of_suffix (List.suffix_cons _ _)).bind fun name rest hrest => ?_
    dsimp only
    split
    · have hafter := skipSpace_suffix (suffix_of_skipSpace hrest ‹_›)
      refine ((hvalue _).of_suffix hafter).bind fun v rest hrest => ?_
      dsimp only
      split
      · exact .ok (suffix_of_skipSpace hrest ‹_›)
      · have hafter := skipSpace_suffix (suffix_of_skipSpace hrest ‹_›)
        exact ((hmembers _).of_suffix hafter).bind fun ms rest hrest => .ok hrest
      · exact .malformed _ _
    · exact .malformed _ _
  · exact .malformed _ _

theorem within_value (fuel : Nat) : (∀ cs, Within cs (readValue fuel cs)) ∧ (∀ cs, Within cs (readItems fuel cs)) ∧
    ∀ cs, Within cs (readMembers fuel cs) := by
  induction fuel with
  | zero => exact ⟨fun cs => .malformed _ _, fun cs => .malformed _ _, fun cs => .malformed _ _⟩
  | succ fuel ih =>
    obtain ⟨hvalue, hitems, hmembers⟩ := ih
    exact ⟨within_value_succ hitems hmembers, within_items_succ hvalue hitems, within_members_succ hvalue hmembers⟩

/-! ## Texts -/

/-- A text is refused for an integer of too many digits only if it has one. -/
theorem overlong_of_read (h : read cs = .error (.integerTooLong n)) : Overlong n cs := by
  have htext : readText cs = .error (.integerTooLong n) := by
    unfold read at h
    split at h
    · cases h
    · cases h
    · rename_i heq
      cases h
      exact heq
  unfold readText at htext
  split at htext
  · cases htext
  · have hvalue := ((within_value (2 * cs.length + 2)).1 (skipSpace cs)).of_suffix (skipSpace_suffix (List.suffix_refl cs))
    split at htext
    · rename_i hread
      rw [hread] at hvalue
      cases htext
      cases hvalue with
      | tooLong hlong => exact hlong
    · split at htext <;> cases htext

/-- Digits alone are the text of an integer, and refused if there are too many of them. -/
theorem read_digits (h : Whole cs) (hlong : digitLimit < cs.length) : read cs = .error (.integerTooLong cs.length) := by
  obtain ⟨c, ds, rfl⟩ := List.exists_cons_of_ne_nil h.ne_nil
  have hc : c.isDigit = true := h.digits c (List.mem_cons_self ..)
  have hstarts : Starts (c :: ds) := ⟨c, (isDigit_mem hc).1, rfl⟩
  have hskip := skipSpace_append hstarts []
  have hnumber := Numeral.readNumber?_digits false h closes_nil
  rw [List.append_nil] at hskip hnumber
  rw [if_pos hlong] at hnumber
  have hplain : readPlain (c :: ds) = .error (.integerTooLong (c :: ds).length) :=
    @readPlain_number false c ds hc _ hnumber
  rw [read, readText, if_neg hstarts.head_ne, hskip, readValue_plain (notMem_of_isDigit hc) _ (by omega), hplain]

end Json

end Reshape
