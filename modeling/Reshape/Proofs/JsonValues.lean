/-
  Reshape.Proofs.JsonValues: what can be read from a JSON text.

  Reading is bounded by fuel, and the fuel is what the proof goes by: one step of a value, of the items
  of a list or of the members of an object reads its parts with less of it.
  - `isJson_of_read`: whatever the text is, what is read from it is made of what JSON has.
  - `IsJson.isFinite`, `IsJson.keysWritable`: such a value does not hold itself, and its keys can be
    written.
-/

import Reshape.Proofs.Descriptions
import Reshape.Proofs.JsonText

namespace Reshape

namespace Json

open Number

variable {α β : Type} {P : α → Prop} {Q : β → Prop} {r : Reads α} {cs : List Char} {fuel : Nat}

/-- If something is read, it has the property. -/
def Yields (P : α → Prop) (r : Reads α) : Prop := ∀ a rest, r = .ok (a, rest) → P a

theorem Yields.error (stop : Stop) : Yields P (.error stop) := nofun

theorem Yields.ok {a : α} (ha : P a) (rest : List Char) : Yields P (.ok (a, rest)) := by
  intro a' rest' h
  cases h
  exact ha

theorem Yields.map {f : α → β} (h : Yields P r) (hf : ∀ a, P a → Q (f a)) :
    Yields Q (r.map fun (a, rest) => (f a, rest)) := by
  cases r with
  | error stop => exact .error stop
  | ok a => exact .ok (hf _ (h _ _ rfl)) _

theorem Yields.bind {r : Except Stop (α × List Char)} {f : α × List Char → Except Stop (β × List Char)}
    (h : Yields P r) (hf : ∀ a rest, P a → Yields Q (f (a, rest))) : Yields Q (@bind (Except Stop) _ _ _ r f) := by
  cases r with
  | error stop => exact .error stop
  | ok a => exact hf _ _ (h _ _ rfl)

/-! ## Numbers and words -/

theorem digits_takeWhole (cs : List Char) : Digits (takeWhole cs).1 := by
  unfold takeWhole
  split
  · exact digits_replicate 1
  · exact fun c hc => List.mem_takeWhile_imp hc

theorem length_natText_le {ds : List Char} (h : Digits ds) (hne : ds ≠ []) :
    (natText (decimalValue ds)).length ≤ ds.length := by
  obtain ⟨noughts, hds⟩ := exists_noughts h hne
  have hlength := congrArg List.length hds
  rw [List.length_append] at hlength
  omega

theorem natAbs_applySign (negative : Bool) (n : Nat) : (applySign negative n).natAbs = n := by
  unfold applySign
  split <;> simp

/-- An integer that is read has no more digits than are written. -/
theorem isJson_of_readNumber (negative : Bool) {number : Reads Value} (h : readNumber? negative cs = some number) :
    Yields Value.IsJson number := by
  have hdigits := digits_takeWhole cs
  unfold readNumber? at h
  generalize takeWhole cs = taken at h hdigits
  obtain ⟨whole, rest⟩ := taken
  dsimp only at h hdigits
  split at h
  · cases h
  · rename_i hne
    split at h
    · split at h
      · cases h
        exact .error _
      · rename_i hshort
        cases h
        refine .ok (.int ?_) _
        rw [natAbs_applySign]
        have := length_natText_le hdigits hne
        omega
    · cases h
      exact .ok (.float _) _

theorem isJson_of_readWord {read : Value × List Char} (h : readWord? cs = some read) : read.1.IsJson := by
  obtain ⟨⟨word, v⟩, hmem, hv⟩ := List.exists_of_findSome?_eq_some h
  dsimp only at hv
  split at hv
  · cases hv
    simp only [wordValues, List.mem_cons, Prod.mk.injEq, List.not_mem_nil, or_false] at hmem
    rcases hmem with h | h | h | h | h | h <;> rw [h.2] <;> constructor
  · cases hv

theorem isJson_of_readPlain (cs : List Char) : Yields Value.IsJson (readPlain cs) := by
  unfold readPlain
  split
  · rename_i hword
    exact .ok (isJson_of_readWord hword) _
  · dsimp only
    split <;> cases hnumber : readNumber? _ _ with
    | none => exact .error _
    | some number => exact isJson_of_readNumber _ hnumber

/-! ## Values -/

/-- Members under texts, with values of JSON. -/
def AreMembers (members : List (Key × Value)) : Prop :=
  ∃ named, List.Forall₂ (Entries.Named fun v w => v = w ∧ v.IsJson) members named

/-- Of members with one name the last counts, and it is one of them. -/
theorem AreMembers.isJson {members : List (Key × Value)} (h : AreMembers members) :
    (Value.dict (Entries.ofList members)).IsJson := by
  obtain ⟨named, hnamed⟩ := h
  have htable := Entries.forall₂_ofList hnamed
  rw [eq_map_of_named (htable.imp fun _ _ hem => ⟨hem.1, hem.2.1⟩)]
  exact .dict (Entries.nodup_keys_ofList named) (forall_of_forall₂ (fun _ _ hem => hem.2.1 ▸ hem.2.2) htable)

/-- One step of reading a value. -/
theorem isJson_of_readValue_succ (hitems : ∀ cs, Yields (∀ v ∈ ·, v.IsJson) (readItems fuel cs))
    (hmembers : ∀ cs, Yields AreMembers (readMembers fuel cs)) (cs : List Char) :
    Yields Value.IsJson (readValue (fuel + 1) cs) := by
  unfold readValue
  split
  · exact Yields.map (P := fun _ => True) (fun _ _ _ => trivial) fun s _ => Value.IsJson.str _
  · split
    · exact .ok (.list (by simp)) _
    · exact (hitems _).map fun _ => Value.IsJson.list
  · split
    · exact .ok (@Value.IsJson.dict [] .nil (by simp)) _
    · exact (hmembers _).map fun _ => AreMembers.isJson
  · exact isJson_of_readPlain _

/-- One step of reading the items of a list. -/
theorem isJson_of_readItems_succ (hvalue : ∀ cs, Yields Value.IsJson (readValue fuel cs))
    (hitems : ∀ cs, Yields (∀ v ∈ ·, v.IsJson) (readItems fuel cs)) (cs : List Char) :
    Yields (∀ v ∈ ·, v.IsJson) (readItems (fuel + 1) cs) := by
  rw [readItems]
  refine (hvalue cs).bind fun v rest hv => ?_
  dsimp only
  split
  · exact .ok (List.forall_mem_singleton.mpr hv) _
  · exact (hitems _).bind fun vs rest hvs => .ok (List.forall_mem_cons.mpr ⟨hv, hvs⟩) _
  · exact .error _

/-- One step of reading the members of an object. -/
theorem areMembers_of_readMembers_succ (hvalue : ∀ cs, Yields Value.IsJson (readValue fuel cs))
    (hmembers : ∀ cs, Yields AreMembers (readMembers fuel cs)) (cs : List Char) :
    Yields AreMembers (readMembers (fuel + 1) cs) := by
  unfold readMembers
  split
  · refine Yields.bind (P := fun _ => True) (fun _ _ _ => trivial) fun name rest _ => ?_
    dsimp only
    split
    · refine (hvalue _).bind fun v rest hv => ?_
      dsimp only
      split
      · exact .ok ⟨[(_, v)], .cons ⟨rfl, rfl, hv⟩ .nil⟩ _
      · refine (hmembers _).bind fun ms rest hms => .ok ?_ _
        obtain ⟨named, hnamed⟩ := hms
        exact ⟨(_, v) :: named, .cons ⟨rfl, rfl, hv⟩ hnamed⟩
      · exact .error _
    · exact .error _
  · exact .error _

theorem yields_json (fuel : Nat) : (∀ cs, Yields Value.IsJson (readValue fuel cs)) ∧
    (∀ cs, Yields (∀ v ∈ ·, v.IsJson) (readItems fuel cs)) ∧ ∀ cs, Yields AreMembers (readMembers fuel cs) := by
  induction fuel with
  | zero => exact ⟨fun cs => .error _, fun cs => .error _, fun cs => .error _⟩
  | succ fuel ih =>
    obtain ⟨hvalue, hitems, hmembers⟩ := ih
    exact ⟨isJson_of_readValue_succ hitems hmembers, isJson_of_readItems_succ hvalue hitems,
      areMembers_of_readMembers_succ hvalue hmembers⟩

/-- Whatever is read from a text is made of what JSON has. -/
theorem isJson_of_read {v : Value} (h : read cs = .ok v) : v.IsJson := by
  have htext : readText cs = .ok v := by
    unfold read at h
    split at h
    · rename_i heq
      cases h
      exact heq
    · cases h
    · cases h
  unfold readText at htext
  split at htext
  · cases htext
  · split at htext
    · cases htext
    · rename_i hread
      split at htext
      · cases htext
        exact (yields_json _).1 _ _ _ hread
      · cases htext

end Json

/-! ## What such values are like -/

namespace Value

variable {v : Value}

theorem IsJson.isFinite (h : v.IsJson) : v.isFinite = true := by
  induction h with
  | list _ ih => exact isFiniteItems_iff.mpr ih
  | dict _ _ ih =>
    refine isFiniteEntries_iff.mpr fun e he => ?_
    obtain ⟨m, hm, rfl⟩ := List.mem_map.mp he
    exact ih m hm
  | _ => rfl

theorem IsJson.items {items : List Value} (h : v.IsJson) (hitems : v.contents = .list items) :
    ∀ w ∈ items, w.IsJson := by
  rw [contents_of_isFinite h.isFinite] at hitems
  subst hitems
  cases h with
  | list h => exact h

theorem IsJson.keysWritable (h : v.IsJson) : v.KeysWritable := by
  induction h with
  | list _ ih => exact .seq ih
  | dict _ _ ih =>
    refine keysWritable_dict.mpr fun e he => ?_
    obtain ⟨m, hm, rfl⟩ := List.mem_map.mp he
    exact ⟨rfl, ih m hm⟩
  | _ => exact .scalar

end Value

end Reshape
