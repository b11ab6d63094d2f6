/-
  Reshape.Proofs.Numerals: decimal numerals are read as they are written.

  A numeral is made of digits, maybe a point with digits after it, and maybe an exponent. Reading one
  takes up all of it, if no character comes after it that a numeral could go on with.
  - `decimalValue_natText`: the digits of a number have its value.
  - `natText_of_pos`: those of a number that is not nought start with another digit than nought.
  - `exists_noughts`: digits are those of the number that they write, maybe with noughts before them.
  - `readNumber?_digits`, `readNumber?_broken`: what is read of a numeral, without and with a point or
    exponent.
-/

import Mathlib.Algebra.Group.Nat.Defs
import Reshape.Json.Reader

namespace Reshape

namespace Number

/-! ## Digits -/

/-- The text is made of ASCII digits. -/
def Digits (ds : List Char) : Prop := ∀ c ∈ ds, c.isDigit = true

variable {ds es : List Char}

theorem digits_nil : Digits [] := nofun

theorem digits_cons {c : Char} : Digits (c :: ds) ↔ c.isDigit = true ∧ Digits ds := List.forall_mem_cons

theorem digits_append : Digits (ds ++ es) ↔ Digits ds ∧ Digits es := List.forall_mem_append

theorem digits_replicate (n : Nat) : Digits (List.replicate n '0') := by
  intro c hc
  rw [(List.mem_replicate.mp hc).2]
  rfl

theorem digits_natText (n : Nat) : Digits (natText n) := fun _ => Nat.isDigit_of_mem_toDigits (by decide) (by decide)

theorem decimalValue_eq (h : Digits ds) : decimalValue ds = Nat.ofDigitChars 10 ds 0 := by
  suffices hfrom : ∀ n, (ds.filterMap Text.asciiDigit?).foldl (fun n d => n * 10 + d) n = Nat.ofDigitChars 10 ds n from
    hfrom 0
  induction ds with
  | nil => exact fun _ => rfl
  | cons c ds ih =>
    obtain ⟨hc, hds⟩ := digits_cons.mp h
    intro n
    have hdigit : Text.asciiDigit? c = some (c.toNat - 0x30) := if_pos hc
    rw [List.filterMap_cons_some hdigit, List.foldl_cons, ih hds, Nat.ofDigitChars_cons, Nat.mul_comm]
    rfl

theorem decimalValue_append (hds : Digits ds) (hes : Digits es) :
    decimalValue (ds ++ es) = decimalValue ds * 10 ^ es.length + decimalValue es := by
  rw [decimalValue_eq (digits_append.mpr ⟨hds, hes⟩), decimalValue_eq hds, decimalValue_eq hes,
    Nat.ofDigitChars_append, Nat.ofDigitChars_eq_ofDigitChars_zero, Nat.mul_comm]

theorem decimalValue_replicate (n : Nat) : decimalValue (List.replicate n '0') = 0 := by
  rw [decimalValue_eq (digits_replicate n), Nat.ofDigitChars_replicate_zero, Nat.mul_zero]

theorem decimalValue_natText (n : Nat) : decimalValue (natText n) = n := by
  rw [decimalValue_eq (digits_natText n)]
  exact Nat.ofDigitChars_ten_toDigits

theorem natText_ne_nil (n : Nat) : natText n ≠ [] := Nat.toDigits_ne_nil

theorem natText_of_pos {n : Nat} (hn : 0 < n) : ∃ c cs, natText n = c :: cs ∧ c ≠ '0' := by
  induction n using Nat.strongRecOn with
  | ind n ih =>
    unfold natText at *
    rw [Nat.toDigits_eq_if (by decide)]
    split
    · exact ⟨_, [], rfl, by simpa using Nat.ne_of_gt hn⟩
    · obtain ⟨c, cs, hcs, hc⟩ := ih (n / 10) (by omega) (by omega)
      exact ⟨c, _, by rw [hcs, List.cons_append], hc⟩

theorem digitChar_of_isDigit {c : Char} (h : c.isDigit = true) :
    Nat.digitChar (c.toNat - 48) = c ∧ c.toNat - 48 < 10 := by
  have hbounds : 48 ≤ c.toNat ∧ c.toNat ≤ 57 := by
    simpa [Char.isDigit, UInt32.le_iff_toNat_le] using h
  have hlt : c.toNat - 48 < 10 := by omega
  refine ⟨Char.toNat_inj.mp ?_, hlt⟩
  rw [Nat.toNat_digitChar_of_lt_ten hlt]
  omega

/-- After the digits of a number that is not nought, further digits are those of a greater number. -/
theorem natText_append (h : Digits ds) {n : Nat} (hn : 0 < n) :
    natText n ++ ds = natText (Nat.ofDigitChars 10 ds n) := by
  induction ds generalizing n with
  | nil => simp
  | cons c ds ih =>
    obtain ⟨hc, hds⟩ := digits_cons.mp h
    obtain ⟨hchar, hlt⟩ := digitChar_of_isDigit hc
    have hnext : natText n ++ [c] = natText (10 * n + (c.toNat - 48)) := by
      have happend := Nat.toDigits_append_toDigits (b := 10) (by decide) hn hlt
      rwa [Nat.toDigits_of_lt_base hlt, hchar] at happend
    rw [Nat.ofDigitChars_cons, ← ih hds (by omega)]
    show natText n ++ c :: ds = natText (10 * n + (c.toNat - 48)) ++ ds
    rw [← hnext, List.append_assoc, List.singleton_append]

/-- Digits write the number that is their value, maybe with noughts before it. -/
theorem exists_noughts (h : Digits ds) (hne : ds ≠ []) :
    ∃ noughts, ds = List.replicate noughts '0' ++ natText (decimalValue ds) := by
  rw [decimalValue_eq h]
  induction ds with
  | nil => exact absurd rfl hne
  | cons c ds ih =>
    obtain ⟨hc, hds⟩ := digits_cons.mp h
    obtain ⟨hchar, hlt⟩ := digitChar_of_isDigit hc
    by_cases hzero : c = '0'
    · subst hzero
      by_cases hlast : ds = []
      · subst hlast
        exact ⟨0, rfl⟩
      · obtain ⟨noughts, hrest⟩ := ih hds hlast
        have hvalue : Nat.ofDigitChars 10 ('0' :: ds) 0 = Nat.ofDigitChars 10 ds 0 := by simp [Nat.ofDigitChars_cons]
        refine ⟨noughts + 1, ?_⟩
        rw [hvalue, List.replicate_succ, List.cons_append, ← hrest]
    · refine ⟨0, ?_⟩
      have hpos : 0 < c.toNat - 48 := by
        refine Nat.pos_of_ne_zero fun h0 => ?_
        rw [h0] at hchar
        exact hzero hchar.symm
      have hfirst : natText (c.toNat - 48) = [c] := by
        rw [natText, Nat.toDigits_of_lt_base hlt, hchar]
      have hwhole := natText_append hds hpos
      rw [hfirst] at hwhole
      rw [Nat.ofDigitChars_cons]
      simpa using hwhole

end Number

namespace Json

open Number

/-! ## Parts of a numeral -/

variable {ds rest : List Char}

/-- No character comes next that a numeral could go on with. -/
def Closes (rest : List Char) : Prop :=
  ∀ c, rest.head? = some c → c.isDigit = false ∧ c ≠ '.' ∧ c ≠ 'e' ∧ c ≠ 'E'

theorem closes_nil : Closes [] := nofun

/-- The point and the digits after it, if there are any. -/
def fractionText (ds : List Char) : List Char := if ds = [] then [] else '.' :: ds

/-- An exponent, if there is one: its sign, `true` for minus, and its digits. -/
def exponentText : Option (Bool × List Char) → List Char
  | none => []
  | some (negative, ds) => 'e' :: (if negative then '-' else '+') :: ds

def exponentValue? (exponent : Option (Bool × List Char)) : Option Int :=
  exponent.map fun e => applySign e.1 (decimalValue e.2)

theorem asciiDigits_append (hds : Digits ds) (hrest : ∀ c, rest.head? = some c → c.isDigit = false) :
    Double.asciiDigits (ds ++ rest) = (ds, rest) := by
  have hstops : rest.takeWhile Char.isDigit = [] ∧ rest.dropWhile Char.isDigit = rest := by
    cases rest with
    | nil => exact ⟨rfl, rfl⟩
    | cons c rest =>
      have hc := hrest c rfl
      simp [List.takeWhile, List.dropWhile, hc]
  rw [Double.asciiDigits, List.takeWhile_append_of_pos hds, List.dropWhile_append_of_pos hds, hstops.1, hstops.2,
    List.append_nil]

theorem takeFraction_append (hds : Digits ds) (hdigit : ∀ c, rest.head? = some c → c.isDigit = false)
    (hpoint : rest.head? ≠ some '.') : takeFraction (fractionText ds ++ rest) = (ds, rest) := by
  unfold fractionText
  split
  · rename_i h
    subst h
    rw [List.nil_append]
    unfold takeFraction
    split
    · simp at hpoint
    · rfl
  · rename_i hne
    rw [List.cons_append, takeFraction, asciiDigits_append hds hdigit]
    split
    · rename_i h
      cases h
      exact absurd rfl hne
    · rfl

theorem takeExponent_append {exponent : Option (Bool × List Char)}
    (hdigits : ∀ e ∈ exponent, Digits e.2 ∧ e.2 ≠ []) (hrest : Closes rest) :
    takeExponent (exponentText exponent ++ rest) = (exponentValue? exponent, rest) := by
  cases exponent with
  | none =>
    have hnone : Double.readExponent rest = none := by
      cases rest with
      | nil => rfl
      | cons c rest =>
        obtain ⟨-, -, he, hE⟩ := hrest c rfl
        simp [Double.readExponent, he, hE]
    rw [exponentText, List.nil_append, takeExponent, hnone]
    rfl
  | some e =>
    obtain ⟨negative, ds⟩ := e
    obtain ⟨hds, hne⟩ := hdigits _ rfl
    have hsigned : signed ((if negative then '-' else '+') :: (ds ++ rest)) = (negative, ds ++ rest) := by
      cases negative <;> rfl
    have hread : Double.readExponent (exponentText (some (negative, ds)) ++ rest) =
        some (applySign negative (decimalValue ds), rest) := by
      rw [exponentText, List.cons_append, List.cons_append, Double.readExponent, if_pos (Or.inl rfl), hsigned]
      dsimp only
      rw [asciiDigits_append hds fun c hc => (hrest c hc).1]
      split
      · rename_i h
        cases h
        exact absurd rfl hne
      · rename_i h
        cases h
        rfl
    rw [takeExponent, hread]
    rfl

/-! ## Numerals -/

/-- Digits that can stand before the point: at least one, and nought only alone. -/
structure Whole (ds : List Char) : Prop where
  digits : Digits ds
  ne_nil : ds ≠ []
  nought : ∀ cs, ds = '0' :: cs → cs = []

theorem whole_natText (n : Nat) : Whole (natText n) := by
  refine ⟨digits_natText n, natText_ne_nil n, fun cs hcs => ?_⟩
  rcases Nat.eq_zero_or_pos n with rfl | hn
  · exact (List.cons.inj hcs).2.symm
  · obtain ⟨c, cs', hn', hc⟩ := natText_of_pos hn
    rw [hn'] at hcs
    exact absurd (List.cons.inj hcs).1 hc

theorem whole_nought : Whole ['0'] := whole_natText 0

theorem takeWhole_append (h : Whole ds) (hrest : ∀ c, rest.head? = some c → c.isDigit = false) :
    takeWhole (ds ++ rest) = (ds, rest) := by
  unfold takeWhole
  split
  · rename_i rest' heq
    cases ds with
    | nil => exact absurd rfl h.ne_nil
    | cons c cs =>
      cases heq
      rw [h.nought cs rfl]
      rfl
  · exact asciiDigits_append h.digits hrest

structure Numeral where
  whole : List Char
  fraction : List Char
  exponent : Option (Bool × List Char)
  isWhole : Whole whole
  digits_fraction : Digits fraction
  digits_exponent : ∀ e ∈ exponent, Digits e.2 ∧ e.2 ≠ []

namespace Numeral

def text (n : Numeral) : List Char := n.whole ++ (fractionText n.fraction ++ exponentText n.exponent)

/-- The whole number that the digits make, without the point. -/
def significand (n : Numeral) : Nat := decimalValue (n.whole ++ n.fraction)

/-- The power of ten that the significand is to be multiplied with. -/
def power (n : Numeral) : Int := (exponentValue? n.exponent).getD 0 - n.fraction.length

/-- Whether there is a point or an exponent. -/
def IsBroken (n : Numeral) : Prop := n.fraction ≠ [] ∨ n.exponent ≠ none

def ofNat (n : Nat) : Numeral := ⟨natText n, [], none, whole_natText n, digits_nil, nofun⟩

theorem text_ofNat (n : Nat) : (ofNat n).text = natText n := List.append_nil _

variable (n : Numeral)

theorem exists_head_text : ∃ c cs, n.text = c :: cs ∧ c.isDigit = true := by
  obtain ⟨c, cs, hcs⟩ := List.exists_cons_of_ne_nil n.isWhole.ne_nil
  refine ⟨c, _, by rw [text, hcs, List.cons_append], n.isWhole.digits c ?_⟩
  rw [hcs]
  exact List.mem_cons_self ..

/-- A numeral ends in digits. -/
theorem exists_text_eq : ∃ front ds, n.text = front ++ ds ∧ Digits ds ∧ ds ≠ [] := by
  unfold text
  cases he : n.exponent with
  | some e =>
    obtain ⟨negative, ds⟩ := e
    obtain ⟨hds, hne⟩ := n.digits_exponent _ he
    exact ⟨n.whole ++ (fractionText n.fraction ++ ['e', if negative then '-' else '+']), ds,
      by simp [exponentText], hds, hne⟩
  | none =>
    by_cases hf : n.fraction = []
    · exact ⟨[], n.whole, by simp [hf, fractionText, exponentText], n.isWhole.digits, n.isWhole.ne_nil⟩
    · exact ⟨n.whole ++ ['.'], n.fraction, by simp [hf, fractionText, exponentText], n.digits_fraction, hf⟩

theorem exists_last_text : ∃ c, n.text.getLast? = some c ∧ c.isDigit = true := by
  obtain ⟨front, ds, htext, hds, hne⟩ := n.exists_text_eq
  refine ⟨ds.getLast hne, ?_, hds _ (List.getLast_mem hne)⟩
  rw [htext, List.getLast?_append, List.getLast?_eq_some_getLast hne, Option.some_or]

theorem isDigit_or_mem_of_mem_text {c : Char} (hc : c ∈ n.text) : c.isDigit = true ∨ c ∈ ['.', 'e', '+', '-'] := by
  have hexponent := n.digits_exponent
  unfold text fractionText at hc
  rcases List.mem_append.mp hc with hc | hc
  · exact Or.inl (n.isWhole.digits c hc)
  rcases List.mem_append.mp hc with hc | hc
  · split at hc
    · cases hc
    · rcases List.mem_cons.mp hc with rfl | hc
      · exact Or.inr (by decide)
      · exact Or.inl (n.digits_fraction c hc)
  · cases he : n.exponent with
    | none =>
      rw [he] at hc
      cases hc
    | some e =>
      rw [he] at hc
      obtain ⟨negative, ds⟩ := e
      rcases List.mem_cons.mp hc with rfl | hc
      · exact Or.inr (by decide)
      rcases List.mem_cons.mp hc with rfl | hc
      · cases negative <;> exact Or.inr (by decide)
      · exact Or.inl ((hexponent _ he).1 c hc)

/-- No digit comes right after the digits before the point, or those after it. -/
theorem isDigit_head_tail (hrest : Closes rest) :
    (∀ c, (fractionText n.fraction ++ (exponentText n.exponent ++ rest)).head? = some c → c.isDigit = false) ∧
      ∀ c, (exponentText n.exponent ++ rest).head? = some c → c.isDigit = false ∧ c ≠ '.' := by
  have htail : ∀ c, (exponentText n.exponent ++ rest).head? = some c → c.isDigit = false ∧ c ≠ '.' := by
    intro c hc
    cases he : n.exponent with
    | none =>
      rw [he] at hc
      exact ⟨(hrest c hc).1, (hrest c hc).2.1⟩
    | some e =>
      rw [he] at hc
      cases hc
      decide
  refine ⟨fun c hc => ?_, htail⟩
  unfold fractionText at hc
  split at hc
  · exact (htail c hc).1
  · cases hc
    rfl

theorem takeFraction_tail (hrest : Closes rest) :
    takeFraction (fractionText n.fraction ++ (exponentText n.exponent ++ rest)) =
      (n.fraction, exponentText n.exponent ++ rest) := by
  have htail := (n.isDigit_head_tail hrest).2
  exact takeFraction_append n.digits_fraction (fun c hc => (htail c hc).1) fun hc => (htail '.' hc).2 rfl

variable (negative : Bool)

/-- Digits alone are read as an integer, if there are not too many of them. -/
theorem readNumber?_digits (h : Whole ds) (hrest : Closes rest) : readNumber? negative (ds ++ rest) =
    some (if digitLimit < ds.length then .error (.integerTooLong ds.length)
      else .ok (.int (applySign negative (decimalValue ds)), rest)) := by
  have htail : ∀ c, rest.head? = some c → c.isDigit = false := fun c hc => (hrest c hc).1
  have hfraction : takeFraction rest = ([], rest) := (ofNat 0).takeFraction_tail hrest
  have hexponent : takeExponent (exponentText none ++ rest) = (exponentValue? none, rest) :=
    takeExponent_append nofun hrest
  unfold readNumber?
  rw [takeWhole_append h htail]
  dsimp only
  rw [if_neg h.ne_nil, hfraction, show takeExponent rest = (none, rest) from hexponent]
  dsimp only
  split <;> rfl

/-- An integer is what its digits make. -/
theorem readNumber?_whole {m : Nat} (hshort : (natText m).length ≤ digitLimit) (hrest : Closes rest) :
    readNumber? negative (natText m ++ rest) = some (.ok (.int (applySign negative m), rest)) := by
  rw [readNumber?_digits negative (whole_natText m) hrest, if_neg (Nat.not_lt.mpr hshort), decimalValue_natText]

/-- With a point or an exponent it is a float, the one nearest to the decimal. -/
theorem readNumber?_broken (h : n.IsBroken) (hrest : Closes rest) :
    readNumber? negative (n.text ++ rest) =
      some (.ok (.float (Double.ofDecimal negative n.significand n.power), rest)) := by
  have hhead := (n.isDigit_head_tail hrest).1
  rw [text, List.append_assoc, List.append_assoc]
  unfold readNumber?
  rw [takeWhole_append n.isWhole hhead]
  dsimp only
  rw [if_neg n.isWhole.ne_nil, n.takeFraction_tail hrest, takeExponent_append n.digits_exponent hrest]
  dsimp only
  split
  · rename_i hf he
    rcases h with hne | hne
    · exact absurd hf hne
    · cases hexponent : n.exponent with
      | none => exact absurd hexponent hne
      | some e =>
        rw [hexponent] at he
        cases he
  · rfl

end Numeral

end Json

end Reshape
