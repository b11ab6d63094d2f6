/-
  Reshape.Proofs.Parts: what a path can take from the data.

  The parts of a value are the value, its items or the values of its entries, and the parts of
  those. A finite value, in which no container comes again inside itself, is higher than any of
  its parts.
  - `Holds.height_lt`: one step into a finite value loses height.
  - `Cursor.step_cases`, `Cursor.walk_keeps`: where one step leads, and what a whole walk keeps.
  - `Context.Within.extract`: from scopes that are parts of the data a path takes a part of the data.
  - `Context.Within.extract_error`: a path fails only where a segment is an index of too many digits
    and a sequence is there.
  - `Context.descends`: a path that neither climbs nor goes to the root leads strictly down.
-/

import Mathlib.Logic.Relation
import Reshape.Scope

namespace Reshape

open Relation

namespace Value

/-- `w` is an item of `v`, or the value of one of its entries. -/
def Holds (v w : Value) : Prop :=
  (∃ form items, v.contents = .seq form items ∧ w ∈ items) ∨
    ∃ entries k, v.contents = .dict entries ∧ (k, w) ∈ entries

def IsPart (w v : Value) : Prop := ReflTransGen Holds v w

/-! ## Finite values -/

mutual
/-- Whether no container comes again inside itself. -/
def isFinite : Value → Bool
  | .scalar _ | .set _ => true
  | .cyclic _ _ _ | .again _ => false
  | .seq _ items => isFiniteItems items
  | .dict entries => isFiniteEntries entries
def isFiniteItems : List Value → Bool
  | [] => true
  | v :: vs => v.isFinite && isFiniteItems vs
def isFiniteEntries : List (Key × Value) → Bool
  | [] => true
  | (_, v) :: es => v.isFinite && isFiniteEntries es
end

mutual
/-- How many steps one can go down, an empty container allowing none. -/
def height : Value → Nat
  | .seq _ items => heightOfItems items
  | .dict entries => heightOfEntries entries
  | _ => 0
def heightOfItems : List Value → Nat
  | [] => 0
  | v :: vs => max (v.height + 1) (heightOfItems vs)
def heightOfEntries : List (Key × Value) → Nat
  | [] => 0
  | (_, v) :: es => max (v.height + 1) (heightOfEntries es)
end

theorem isFiniteItems_iff {items : List Value} :
    isFiniteItems items = true ↔ ∀ v ∈ items, v.isFinite = true := by
  induction items with
  | nil => simp [isFiniteItems]
  | cons v items ih => simp [isFiniteItems, ih]

theorem isFiniteEntries_iff {entries : List (Key × Value)} :
    isFiniteEntries entries = true ↔ ∀ e ∈ entries, e.2.isFinite = true := by
  induction entries with
  | nil => simp [isFiniteEntries]
  | cons e entries ih => simp only [isFiniteEntries, Bool.and_eq_true, ih, List.forall_mem_cons]

theorem height_lt_of_mem {v : Value} {items : List Value} (h : v ∈ items) :
    v.height < heightOfItems items := by
  induction items with
  | nil => cases h
  | cons w items ih =>
    rw [heightOfItems]
    rcases List.mem_cons.mp h with rfl | h
    · omega
    · have := ih h
      omega

theorem height_lt_of_mem_entries {k : Key} {v : Value} {entries : List (Key × Value)}
    (h : (k, v) ∈ entries) : v.height < heightOfEntries entries := by
  induction entries with
  | nil => cases h
  | cons e entries ih =>
    obtain ⟨j, w⟩ := e
    rw [heightOfEntries]
    rcases List.mem_cons.mp h with h | h
    · cases h
      omega
    · have := ih h
      omega

theorem contents_of_isFinite {v : Value} (h : v.isFinite = true) : v.contents = v := by
  refine contents_of_not_cyclic ?_
  rintro web cell view rfl
  simp [isFinite] at h

theorem Holds.isFinite {v w : Value} (h : v.Holds w) (hv : v.isFinite = true) : w.isFinite = true := by
  have hc := contents_of_isFinite hv
  rcases h with ⟨form, items, he, hmem⟩ | ⟨entries, k, he, hmem⟩
  · rw [← hc, he, Value.isFinite, isFiniteItems_iff] at hv
    exact hv w hmem
  · rw [← hc, he, Value.isFinite, isFiniteEntries_iff] at hv
    exact hv _ hmem

theorem Holds.height_lt {v w : Value} (h : v.Holds w) (hv : v.isFinite = true) : w.height < v.height := by
  have hc := contents_of_isFinite hv
  rcases h with ⟨form, items, he, hmem⟩ | ⟨entries, k, he, hmem⟩
  · rw [← hc, he]
    exact height_lt_of_mem hmem
  · rw [← hc, he]
    exact height_lt_of_mem_entries hmem

theorem IsPart.isFinite {v w : Value} (h : w.IsPart v) (hv : v.isFinite = true) : w.isFinite = true := by
  induction h with
  | refl => exact hv
  | tail _ hstep ih => exact hstep.isFinite ih

theorem IsPart.height_le {v w : Value} (h : w.IsPart v) (hv : v.isFinite = true) : w.height ≤ v.height := by
  induction h with
  | refl => exact Nat.le_refl _
  | tail hpart hstep ih =>
    have := hstep.height_lt (IsPart.isFinite hpart hv)
    omega

theorem height_lt_of_transGen {v w : Value} (h : TransGen Holds v w) (hv : v.isFinite = true) :
    w.height < v.height := by
  obtain ⟨u, hvu, huw⟩ := TransGen.head'_iff.mp h
  have := hvu.height_lt hv
  have := IsPart.height_le huw (hvu.isFinite hv)
  omega

/-! ## One segment -/

/-- A segment made of more ASCII digits than an index can have, where a sequence is. -/
def RefusesIndex (v : Value) (segment : String) (fault : IndexFault) : Prop :=
  (∃ form items, v.contents = .seq form items) ∧ segment.toList.all Char.isDigit = true ∧
    digitLimit < segment.toList.length ∧ fault = ⟨segment.toList.length⟩

theorem holds_of_part {v w : Value} {segment : String} (h : v.part segment = .ok (some w)) : v.Holds w := by
  unfold part at h
  split at h
  · rename_i entries hc
    obtain ⟨k, hk⟩ := Entries.exists_mem_of_lookup (Except.ok.inj h)
    exact Or.inr ⟨entries, k, hc, hk⟩
  · rename_i form items hc
    split at h
    · exact Or.inl ⟨form, items, hc, List.mem_of_getElem? (Except.ok.inj h)⟩
    · cases h
    · cases h
  · cases h

theorem refusesIndex_of_part {v : Value} {segment : String} {fault : IndexFault}
    (h : v.part segment = .error fault) : v.RefusesIndex segment fault := by
  unfold part at h
  split at h
  · cases h
  · rename_i form items hc
    split at h
    · cases h
    · rename_i fault' hi
      cases h
      unfold index? at hi
      dsimp only at hi
      split at hi
      · rename_i hdigits
        split at hi
        · rename_i hlong
          cases hi
          exact ⟨⟨form, items, hc⟩, hdigits.2, hlong, rfl⟩
        · cases hi
      · cases hi
    · cases h
  · cases h

end Value

/-! ## Paths -/

/-- All scopes of a context are parts of the data. -/
def Context.Within (data : Value) (c : Context) : Prop := ∀ v ∈ c.scopes, v.IsPart data

theorem Context.within_top (data : Value) : (Context.top data).Within data := by
  intro v hv
  rw [List.mem_singleton.mp hv]
  exact .refl

theorem Context.Within.enter {data : Value} {c : Context} (h : c.Within data) {v : Value}
    (hv : v.IsPart data) : (c.enter v).Within data := by
  intro w hw
  rcases List.mem_cons.mp hw with rfl | hw
  · exact hv
  · exact h w hw

theorem Context.root_mem_scopes (c : Context) : c.root ∈ c.scopes := by
  obtain ⟨scope, enclosing⟩ := c
  unfold root scopes
  rcases List.eq_nil_or_concat enclosing with rfl | ⟨outer, v, rfl⟩ <;> simp

namespace Cursor

/-- What a path can go on from is in the data. -/
def Within (data : Value) : Cursor → Prop
  | .context c => c.Within data
  | .data v => v.IsPart data

theorem Within.value {data : Value} {cursor : Cursor} (h : cursor.Within data) :
    cursor.value.IsPart data := by
  cases cursor with
  | context c => exact h c.scope (List.mem_cons_self ..)
  | data v => exact h

theorem Within.up {data : Value} {cursor cursor' : Cursor} (h : cursor.Within data)
    (hup : cursor.up = some cursor') : cursor'.Within data := by
  unfold Cursor.up at hup
  split at hup
  · cases hup
    exact fun v hv => h v (List.mem_cons_of_mem _ hv)
  · cases hup

/-- A segment that is none of the two special ones leads one step down. -/
theorem holds_of_step {root : Value} {cursor cursor' : Cursor} {segment : String}
    (hr : segment ≠ rootSegment) (hp : segment ≠ parentSegment)
    (hstep : cursor.step root segment = .ok (some cursor')) :
    ∃ w, cursor' = .data w ∧ cursor.value.Holds w := by
  rw [Cursor.step, if_neg hr, if_neg hp] at hstep
  cases hpart : cursor.value.part segment with
  | error fault => rw [hpart] at hstep; cases hstep
  | ok found =>
    cases found with
    | none => rw [hpart] at hstep; cases hstep
    | some w =>
      rw [hpart] at hstep
      cases hstep
      exact ⟨w, rfl, Value.holds_of_part hpart⟩

/-- A step goes to the root, up, or down into what is there. -/
theorem step_cases {root : Value} {cursor cursor' : Cursor} {segment : String}
    (hstep : cursor.step root segment = .ok (some cursor')) :
    cursor' = .context (Context.top root) ∨ cursor.up = some cursor' ∨ ∃ w, cursor' = .data w ∧ cursor.value.Holds w := by
  by_cases hr : segment = rootSegment
  · rw [Cursor.step, if_pos hr] at hstep
    cases hstep
    exact Or.inl rfl
  by_cases hp : segment = parentSegment
  · rw [Cursor.step, if_neg hr, if_pos hp] at hstep
    exact Or.inr (Or.inl (Except.ok.inj hstep))
  · exact Or.inr (Or.inr (holds_of_step hr hp hstep))

theorem Within.step {data root : Value} {cursor cursor' : Cursor} {segment : String}
    (hroot : root.IsPart data) (h : cursor.Within data)
    (hstep : cursor.step root segment = .ok (some cursor')) : cursor'.Within data := by
  rcases step_cases hstep with rfl | hup | ⟨w, rfl, hw⟩
  · intro v hv
    rw [List.mem_singleton.mp hv]
    exact hroot
  · exact h.up hup
  · exact h.value.tail hw

theorem refusesIndex_of_step {root : Value} {cursor : Cursor} {segment : String} {fault : IndexFault}
    (hstep : cursor.step root segment = .error fault) : cursor.value.RefusesIndex segment fault := by
  unfold Cursor.step at hstep
  split at hstep
  · cases hstep
  · split at hstep
    · cases hstep
    · cases hp : cursor.value.part segment with
      | error fault' =>
        rw [hp] at hstep
        cases hstep
        exact Value.refusesIndex_of_part hp
      | ok found => rw [hp] at hstep; cases hstep

/-- What every step keeps, a walk keeps. -/
theorem walk_keeps {P : Cursor → Prop} {root : Value} {path : List String} {cursor cursor' : Cursor}
    (hstep : ∀ {cursor cursor' : Cursor} {segment : String}, P cursor →
      cursor.step root segment = .ok (some cursor') → P cursor')
    (h : P cursor) (hwalk : cursor.walk root path = .ok (some cursor')) : P cursor' := by
  induction path generalizing cursor with
  | nil =>
    cases hwalk
    exact h
  | cons segment path ih =>
    rw [Cursor.walk] at hwalk
    split at hwalk
    · cases hwalk
    · cases hwalk
    · rename_i hfirst
      exact ih (hstep h hfirst) hwalk

theorem Within.walk {data root : Value} {cursor cursor' : Cursor} {path : List String}
    (hroot : root.IsPart data) (h : cursor.Within data)
    (hwalk : cursor.walk root path = .ok (some cursor')) : cursor'.Within data :=
  walk_keeps (fun h hstep => h.step hroot hstep) h hwalk

theorem Within.walk_error {data root : Value} {cursor : Cursor} {path : List String} {fault : IndexFault}
    (hroot : root.IsPart data) (h : cursor.Within data) (hwalk : cursor.walk root path = .error fault) :
    ∃ segment ∈ path, ∃ v : Value, v.IsPart data ∧ v.RefusesIndex segment fault := by
  induction path generalizing cursor with
  | nil => cases hwalk
  | cons segment path ih =>
    rw [Cursor.walk] at hwalk
    split at hwalk
    · rename_i hstep
      cases hwalk
      exact ⟨segment, by simp, cursor.value, h.value, refusesIndex_of_step hstep⟩
    · cases hwalk
    · rename_i hstep
      obtain ⟨s, hs, hv⟩ := ih (h.step hroot hstep) hwalk
      exact ⟨s, List.mem_cons_of_mem _ hs, hv⟩

/-- Without climbing and going to the root, every segment leads one step down. -/
theorem descends {root : Value} {cursor cursor' : Cursor} {path : List String}
    (hr : rootSegment ∉ path) (hp : parentSegment ∉ path)
    (hwalk : cursor.walk root path = .ok (some cursor')) :
    ReflTransGen Value.Holds cursor.value cursor'.value ∧
      (path ≠ [] → TransGen Value.Holds cursor.value cursor'.value) := by
  induction path generalizing cursor with
  | nil =>
    cases hwalk
    exact ⟨.refl, fun h => absurd rfl h⟩
  | cons segment path ih =>
    simp only [List.mem_cons, not_or] at hr hp
    rw [Cursor.walk] at hwalk
    split at hwalk
    · cases hwalk
    · cases hwalk
    · rename_i next hstep
      obtain ⟨w, rfl, hw⟩ := holds_of_step (Ne.symm hr.1) (Ne.symm hp.1) hstep
      have hdown := TransGen.head' hw (ih hr.2 hp.2 hwalk).1
      exact ⟨hdown.to_reflTransGen, fun _ => hdown⟩

end Cursor

namespace Context

theorem exists_walk_of_extract {c : Context} {path : List String} {v : Value}
    (h : c.extract path = .ok (some v)) :
    ∃ cursor, Cursor.walk c.root (.context c) path = .ok (some cursor) ∧ cursor.value = v := by
  unfold extract at h
  cases hw : Cursor.walk c.root (.context c) path with
  | error fault => rw [hw] at h; cases h
  | ok found =>
    cases found with
    | none => rw [hw] at h; cases h
    | some cursor =>
      rw [hw] at h
      cases h
      exact ⟨cursor, rfl, rfl⟩

theorem Within.extract {data : Value} {c : Context} (h : c.Within data) {path : List String} {v : Value}
    (hv : c.extract path = .ok (some v)) : v.IsPart data := by
  have hc : Cursor.Within data (.context c) := h
  obtain ⟨cursor, hwalk, rfl⟩ := exists_walk_of_extract hv
  exact (hc.walk (h _ c.root_mem_scopes) hwalk).value

theorem Within.extract_error {data : Value} {c : Context} (h : c.Within data) {path : List String}
    {fault : IndexFault} (hf : c.extract path = .error fault) :
    ∃ segment ∈ path, ∃ v : Value, v.IsPart data ∧ v.RefusesIndex segment fault := by
  have hc : Cursor.Within data (.context c) := h
  unfold Context.extract at hf
  cases hw : Cursor.walk c.root (.context c) path with
  | error fault' =>
    rw [hw] at hf
    cases hf
    exact hc.walk_error (h _ c.root_mem_scopes) hw
  | ok found => rw [hw] at hf; cases hf

theorem descends {c : Context} {path : List String} {v : Value} (hne : path ≠ [])
    (hr : rootSegment ∉ path) (hp : parentSegment ∉ path) (hv : c.extract path = .ok (some v)) :
    TransGen Value.Holds c.scope v := by
  obtain ⟨cursor, hwalk, rfl⟩ := exists_walk_of_extract hv
  exact (Cursor.descends hr hp hwalk).2 hne

end Context

end Reshape
