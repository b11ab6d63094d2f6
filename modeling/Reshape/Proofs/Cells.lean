/-
  Reshape.Proofs.Cells: how a leaf is shown in its column.

  What a table keeps of a leaf, and what is written of that, show the leaf as its text. There are two
  exceptions: the integers of a column of numbers with a gap or a float among them may be written as floats,
  and are if they fit into 64 bits, and the text of a moment is up to the library.
  - `Value.eq_of_text?_eq_nil`: only the empty text is written as nothing.
  - `Value.text?_eq_none`: only a value in which an integer of too many digits stands has no text.
  - `Keeps.shows`: what is written of a leaf.
  - `Shows.eq_nil`: what an empty cell can be.
  - `Shows.not_holdsOverlong`, `Keeps.holdsOverlong`: a leaf is written unless such an integer stands in it.
-/

import Reshape.Proofs.Descriptions
import Reshape.Proofs.Rounding
import Reshape.Proofs.TableLaws

namespace Reshape

/-! ## Texts that are not empty -/

theorem Double.text_ne_nil (x : Double) : x.text ≠ [] := by
  cases x with
  | nan => simp [text]
  | infinite negative => cases negative <;> simp [text]
  | finite negative rank =>
    obtain ⟨n, hn, -⟩ := exists_numeral rank.isLt
    obtain ⟨c, cs, hc, -⟩ := n.exists_head_text
    have hmagnitude : magnitudeText rank = c :: cs := hn ▸ hc
    cases negative <;> simp [text, hmagnitude]

theorem Double.ofInt_ne_nan (n : Int) : ofInt n ≠ .nan := by
  unfold ofInt ofRatio ofRank
  split <;> nofun

theorem Number.intText?_ne_nil (n : Int) : intText? n ≠ some [] := by
  intro h
  unfold intText? at h
  split at h
  · have htext : intText n = [] := Option.some.inj h
    unfold intText at htext
    split at htext
    · cases htext
    · exact natText_ne_nil _ htext
  · cases h

theorem Date.text_ne_nil (d : Date) : d.text ≠ [] := by simp [text]

theorem Moment.textTo_ne_nil (precision : Precision) (m : Moment) : m.textTo precision ≠ [] := by
  simp [textTo, Date.text_ne_nil]

theorem Scalar.literal?_ne_nil (s : Scalar) : s.literal? ≠ some [] := by
  cases s with
  | null => decide
  | bool b => cases b <;> decide
  | int n => exact Number.intText?_ne_nil n
  | float x => simp [literal?, Double.text_ne_nil]
  | str s => simp [literal?, Text.quotedChars]
  | date d => exact fun h => List.append_ne_nil_of_right_ne_nil _ (List.cons_ne_nil _ _) (Option.some.inj h)
  | moment m => exact fun h => List.append_ne_nil_of_right_ne_nil _ (List.cons_ne_nil _ _) (Option.some.inj h)
  | bytes bs => simp [literal?, Text.quotedBytes]

theorem tupleText_ne_nil (items : List (List Char)) : tupleText items ≠ [] := by
  unfold tupleText
  split <;> simp

theorem setText_ne_nil (items : List (List Char)) : setText items ≠ [] := by
  unfold setText
  split
  · decide
  · simp

theorem Value.literal?_ne_nil (v : Value) : v.literal? ≠ some [] := by
  induction v using Value.inductionOn with
  | scalar s => exact s.literal?_ne_nil
  | seq form items _ =>
    cases form with
    | list => simp [literal?, listText]
    | tuple => simp [literal?, tupleText_ne_nil]
  | dict entries _ => simp [literal?]
  | set items => simp [literal?, setText_ne_nil]
  | cyclic web cell view ih => exact ih
  | again shape =>
    cases shape with
    | seq form => cases form <;> decide
    | dict => decide

/-- Only the empty text is written as nothing. -/
theorem Value.eq_of_text?_eq_nil {v : Value} (h : v.text? = some []) : v = .str "" := by
  cases v with
  | scalar s =>
    cases s with
    | str s => rw [String.toList_eq_nil_iff.mp (Option.some.inj h)]
    | date d => exact absurd (Option.some.inj h) d.text_ne_nil
    | moment m =>
      have hmoment : m.text = [] := Option.some.inj h
      exact absurd (List.append_eq_nil_iff.mp hmoment).1 (Moment.textTo_ne_nil _ m)
    | null => exact absurd h (Scalar.literal?_ne_nil .null)
    | bool b => exact absurd h (Scalar.literal?_ne_nil (.bool b))
    | int n => exact absurd h (Scalar.literal?_ne_nil (.int n))
    | float x => exact absurd h (Scalar.literal?_ne_nil (.float x))
    | bytes bs => exact absurd h (Scalar.literal?_ne_nil (.bytes bs))
  | seq form items => exact absurd h (literal?_ne_nil _)
  | dict entries => exact absurd h (literal?_ne_nil _)
  | set items => exact absurd h (literal?_ne_nil _)
  | cyclic web cell view => exact absurd h (literal?_ne_nil _)
  | again shape => exact absurd h (literal?_ne_nil _)

/-! ## Values without a text -/

/-- An integer of more digits than are written stands in the value. -/
inductive Value.HoldsOverlong : Value → Prop where
  | int {n : Int} : digitLimit < (Number.natText n.natAbs).length → HoldsOverlong (.int n)
  | item {form : Form} {items : List Value} {v : Value} : v ∈ items → HoldsOverlong v → HoldsOverlong (.seq form items)
  | key {entries : List (Key × Value)} {e : Key × Value} : e ∈ entries → e.1.isWritable = false →
      HoldsOverlong (.dict entries)
  | entry {entries : List (Key × Value)} {e : Key × Value} : e ∈ entries → HoldsOverlong e.2 →
      HoldsOverlong (.dict entries)
  | member {items : List Key} {k : Key} : k ∈ items → k.isWritable = false → HoldsOverlong (.set items)
  | cyclic {web : Web} {cell : Nat} {view : Value} : HoldsOverlong view → HoldsOverlong (.cyclic web cell view)

theorem Number.intText?_eq_none {n : Int} : intText? n = none ↔ digitLimit < (natText n.natAbs).length := by
  simp [intText?]

theorem Scalar.literal?_eq_none {s : Scalar} :
    s.literal? = none ↔ ∃ n, s = .int n ∧ digitLimit < (Number.natText n.natAbs).length := by
  cases s with
  | int n => simp [literal?, Number.intText?_eq_none]
  | _ => exact ⟨nofun, nofun⟩

theorem Key.areWritable_eq_false {ks : List Key} : Key.areWritable ks = false ↔ ∃ k ∈ ks, k.isWritable = false := by
  induction ks with
  | nil => simp [areWritable]
  | cons k ks ih => rw [areWritable, Bool.and_eq_false_iff, ih, List.exists_mem_cons_iff]

mutual
theorem Key.literal?_eq_none : ∀ k : Key, k.literal? = none ↔ k.isWritable = false
  | .scalar s => by
    cases s with
    | int n => simp [literal?, Scalar.literal?, Number.intText?_eq_none, isWritable]
    | _ => exact ⟨nofun, nofun⟩
  | .tuple items => by rw [literal?, isWritable, Option.map_eq_none_iff, Key.literals?_eq_none items]
theorem Key.literals?_eq_none : ∀ ks : List Key, Key.literals? ks = none ↔ Key.areWritable ks = false
  | [] => by simp [literals?, areWritable]
  | k :: ks => by
    rw [literals?, areWritable, Bool.and_eq_false_iff, ← Key.literal?_eq_none k, ← Key.literals?_eq_none ks]
    cases k.literal? <;> cases Key.literals? ks <;> simp
end

theorem Value.literals?_eq_none {vs : List Value} : Value.literals? vs = none ↔ ∃ v ∈ vs, v.literal? = none := by
  induction vs with
  | nil => simp [literals?]
  | cons v vs ih =>
    rw [literals?, List.exists_mem_cons_iff, ← ih]
    cases v.literal? <;> cases Value.literals? vs <;> simp

theorem Value.entryLiterals?_eq_none {es : List (Key × Value)} :
    Value.entryLiterals? es = none ↔ ∃ e ∈ es, e.1.literal? = none ∨ e.2.literal? = none := by
  induction es with
  | nil => simp [entryLiterals?]
  | cons e es ih =>
    obtain ⟨k, v⟩ := e
    rw [entryLiterals?, List.exists_mem_cons_iff, ← ih]
    cases k.literal? <;> cases v.literal? <;> cases Value.entryLiterals? es <;> simp

theorem Value.literal?_eq_none (v : Value) : v.literal? = none ↔ v.HoldsOverlong := by
  induction v using Value.inductionOn with
  | scalar s =>
    rw [literal?, Scalar.literal?_eq_none]
    constructor
    · rintro ⟨n, rfl, hn⟩
      exact .int hn
    · rintro ⟨hn⟩
      exact ⟨_, rfl, hn⟩
  | seq form items ih =>
    rw [literal?, Option.map_eq_none_iff, literals?_eq_none]
    constructor
    · rintro ⟨v, hv, hnone⟩
      exact .item hv ((ih v hv).mp hnone)
    · intro h
      cases h with
      | item hv hlong => exact ⟨_, hv, (ih _ hv).mpr hlong⟩
  | dict entries ih =>
    rw [literal?, Option.map_eq_none_iff, entryLiterals?_eq_none]
    constructor
    · rintro ⟨e, he, hnone | hnone⟩
      · exact .key he ((Key.literal?_eq_none _).mp hnone)
      · exact .entry he ((ih e he).mp hnone)
    · intro h
      cases h with
      | key he hlong => exact ⟨_, he, .inl ((Key.literal?_eq_none _).mpr hlong)⟩
      | entry he hlong => exact ⟨_, he, .inr ((ih _ he).mpr hlong)⟩
  | set items =>
    rw [literal?, Option.map_eq_none_iff, Key.literals?_eq_none, Key.areWritable_eq_false]
    constructor
    · rintro ⟨k, hk, hlong⟩
      exact .member hk hlong
    · intro h
      cases h with
      | member hk hlong => exact ⟨_, hk, hlong⟩
  | cyclic web cell view ih =>
    rw [literal?, ih]
    constructor
    · exact .cyclic
    · rintro ⟨hlong⟩
      assumption
  | again shape =>
    constructor
    · nofun
    · nofun

/-- A value has a text, unless an integer of too many digits stands in it. -/
theorem Value.text?_eq_none (v : Value) : v.text? = none ↔ v.HoldsOverlong := by
  rw [← literal?_eq_none]
  cases v with
  | scalar s =>
    cases s with
    | str _ | date _ | moment _ => exact ⟨nofun, nofun⟩
    | _ => rfl
  | _ => rfl

namespace Table

variable {column : List (Option Value)} {cell : Option Value} {v : Value} {cs : List Char}

/-! ## Cells -/

theorem isGap_iff : isGap cell = true ↔ cell = none ∨ cell = some .null ∨ cell = some (.float .nan) := by
  unfold isGap
  split
  · simp
  · simp
  · simp
  · rename_i hnone hnull hnan
    simp only [Bool.false_eq_true, false_iff, not_or]
    exact ⟨hnone, hnull, hnan⟩

theorem integer?_eq_some {n : Int} : integer? cell = some n ↔ cell = some (.int n) := by
  unfold integer?
  split
  · simp
  · rename_i hcell
    simp only [reduceCtorEq, false_iff]
    exact hcell n

theorem not_gap_ofInt (n : Int) : isGap (some (.float (Double.ofInt n))) = false := by
  cases h : Double.ofInt n with
  | nan => exact absurd h (Double.ofInt_ne_nan n)
  | infinite negative => rfl
  | finite negative rank => rfl

/-- In decimal a number has no more digits than in binary. -/
theorem length_natText_le {n k : Nat} (h : n.log2 < k) : (Number.natText n).length ≤ k := by
  have hk : k ≠ 0 := Nat.ne_zero_of_lt h
  refine (Nat.length_toDigits_le_iff (by decide) (Nat.pos_of_ne_zero hk)).mpr ?_
  exact Nat.lt_log2_self.trans_le ((Nat.pow_le_pow_right (by decide) h).trans (Nat.pow_le_pow_left (by decide) k))

/-- How a cell of a column is written. -/
inductive Shows (column : List (Option Value)) : Option Value → List Char → Prop where
  | gap {cell : Option Value} : isGap cell = true → Shows column cell []
  | float {n : Int} : IsMixed column → n.natAbs.log2 < floatDigits → Shows column (some (.int n)) (Double.ofInt n).text
  | moment {m : Moment} {cs : List Char} : cs ≠ [] → Shows column (some (.scalar (.moment m))) cs
  | text {v : Value} {cs : List Char} : isGap (some v) = false → (IsFloats column → integer? (some v) = none) →
      (∀ m, v ≠ .scalar (.moment m)) → v.text? = some cs → Shows column (some v) cs

/-- What is written of what is kept of a cell shows the cell. -/
theorem Keeps.shows (hkeeps : Keeps column cell v) (hfield : IsField v cs) : Shows column cell cs := by
  cases hkeeps with
  | gap hcell hv =>
    cases hfield with
    | gap _ => exact .gap hcell
    | moment _ => cases hv
    | text hno _ _ => exact absurd hv (by simp [hno])
  | @float n hmixed hrange =>
    cases hfield with
    | gap hv => exact absurd hv (by simp [not_gap_ofInt])
    | text _ _ htext =>
      obtain rfl : (Double.ofInt n).text = cs := Option.some.inj htext
      exact .float hmixed hrange
  | value hno hint =>
    cases hfield with
    | gap hv => exact absurd hv (by simp [hno])
    | moment hcs => exact .moment hcs
    | text _ hmoment htext => exact .text hno hint hmoment htext

/-- What an empty cell can be. -/
theorem Shows.eq_nil (h : Shows column cell []) :
    cell = none ∨ cell = some .null ∨ cell = some (.float .nan) ∨ cell = some (.str "") := by
  generalize hcs : ([] : List Char) = cs at h
  cases h with
  | gap hgap => exact (isGap_iff.mp hgap).imp_right fun h => h.imp_right .inl
  | float _ _ => exact absurd hcs.symm (Double.text_ne_nil _)
  | moment hne => exact absurd hcs.symm hne
  | text _ _ _ htext =>
    rw [← hcs] at htext
    rw [Value.eq_of_text?_eq_nil htext]
    exact .inr (.inr (.inr rfl))

/-- A leaf that is shown has no integer of too many digits in it. -/
theorem Shows.not_holdsOverlong {v : Value} (h : Shows column (some v) cs) : ¬ v.HoldsOverlong := by
  rw [← Value.text?_eq_none]
  cases h with
  | gap hgap =>
    rcases isGap_iff.mp hgap with h | h | h <;> cases h <;> nofun
  | @float n _ hrange =>
    intro hnone
    have hlong : digitLimit < (Number.natText n.natAbs).length := Number.intText?_eq_none.mp hnone
    exact absurd (hlong.trans_le (length_natText_le hrange)) (by decide)
  | moment _ => nofun
  | text _ _ _ htext => simp [htext]

/-- Only what is kept of a leaf with an integer of too many digits cannot be written. -/
theorem Keeps.holdsOverlong (h : Keeps column cell v) (hnone : v.text? = none) :
    cell = some v ∧ v.HoldsOverlong := by
  cases h with
  | gap _ hv =>
    rcases isGap_iff.mp hv with hv | hv | hv <;> cases hv <;> cases hnone
  | float _ _ => cases hnone
  | value _ _ => exact ⟨rfl, (Value.text?_eq_none _).mp hnone⟩

end Table

end Reshape
