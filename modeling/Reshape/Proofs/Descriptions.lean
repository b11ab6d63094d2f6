/-
  Reshape.Proofs.Descriptions: what a description says.

  The leaves of a description are what stands in it where no list, tuple or dictionary goes on. It has
  the rules that its leaves write. Without the entries that a later key with the same text replaces
  it is pruned.
  - `hasRule_seq`, `hasRule_dict`: the rules of a description are those of its parts.
  - `Key.exists_string`: a key that holds no integer of too many digits can be written.
  - `Value.KeysWritable.contents`: if all keys in a value can be written, so can those in its parts,
    also where a container comes again.
-/

import Mathlib.Logic.Relation
import Reshape.Proofs.RuleText
import Reshape.Value.Web

namespace Reshape

open Relation

/-! ## Leaves -/

namespace Value

mutual
def leaves : Value → List Value
  | .seq _ items => leavesOfItems items
  | .dict entries => leavesOfEntries entries
  | .cyclic _ _ view => view.leaves
  | v => [v]
def leavesOfItems : List Value → List Value
  | [] => []
  | v :: vs => v.leaves ++ leavesOfItems vs
def leavesOfEntries : List (Key × Value) → List Value
  | [] => []
  | (_, v) :: es => v.leaves ++ leavesOfEntries es
end

mutual
/-- The description without the entries whose key has the text of a later key beside it. -/
def pruned : Value → Value
  | .seq form items => .seq form (prunedItems items)
  | .dict entries => .dict (prunedEntries entries)
  | .cyclic web cell view => .cyclic web cell view.pruned
  | v => v
def prunedItems : List Value → List Value
  | [] => []
  | v :: vs => v.pruned :: prunedItems vs
def prunedEntries : List (Key × Value) → List (Key × Value)
  | [] => []
  | (k, v) :: es =>
    if es.any fun e => e.1.string? = k.string? then prunedEntries es else (k, v.pruned) :: prunedEntries es
end

/-- A leaf that is a rule text for these nested mappings and converters. -/
def IsRule (names : List String) (known : String → Bool) (leaf : Value) : Prop :=
  ∃ text, leaf = .str text ∧ Rule.IsRuleText names known text

/-- One of the leaves writes the rule. -/
def HasRule (v : Value) (r : Rule) : Prop := ∃ text, .str text ∈ v.leaves ∧ r.WrittenAs text

theorem mem_leavesOfItems {leaf : Value} {items : List Value} :
    leaf ∈ leavesOfItems items ↔ ∃ v ∈ items, leaf ∈ v.leaves := by
  induction items with
  | nil => simp [leavesOfItems]
  | cons v items ih => simp [leavesOfItems, ih]

theorem mem_leavesOfEntries {leaf : Value} {entries : List (Key × Value)} :
    leaf ∈ leavesOfEntries entries ↔ ∃ e ∈ entries, leaf ∈ e.2.leaves := by
  induction entries with
  | nil => simp [leavesOfEntries]
  | cons e entries ih => simp [leavesOfEntries, ih]

theorem hasRule_seq {form : Form} {items : List Value} {r : Rule} :
    (Value.seq form items).HasRule r ↔ ∃ v ∈ items, v.HasRule r := by
  simp only [HasRule, leaves, mem_leavesOfItems]
  constructor
  · intro h
    obtain ⟨text, ⟨v, hv, hleaf⟩, hr⟩ := h
    exact ⟨v, hv, text, hleaf, hr⟩
  · intro h
    obtain ⟨v, hv, text, hleaf, hr⟩ := h
    exact ⟨text, ⟨v, hv, hleaf⟩, hr⟩

theorem hasRule_dict {entries : List (Key × Value)} {r : Rule} :
    (Value.dict entries).HasRule r ↔ ∃ e ∈ entries, e.2.HasRule r := by
  simp only [HasRule, leaves, mem_leavesOfEntries]
  constructor
  · intro h
    obtain ⟨text, ⟨e, he, hleaf⟩, hr⟩ := h
    exact ⟨e, he, text, hleaf, hr⟩
  · intro h
    obtain ⟨e, he, text, hleaf, hr⟩ := h
    exact ⟨text, ⟨e, he, hleaf⟩, hr⟩

theorem mem_prunedItems {w : Value} {items : List Value} :
    w ∈ prunedItems items ↔ ∃ v ∈ items, v.pruned = w := by
  induction items with
  | nil => simp [prunedItems]
  | cons v items ih => simp [prunedItems, ih, eq_comm]

end Value

/-! ## Keys that can be written -/

mutual
/-- Whether a key is no integer of too many digits, and holds none. -/
def Key.isWritable : Key → Bool
  | .scalar (.int n) => (Number.natText n.natAbs).length ≤ digitLimit
  | .scalar _ => true
  | .tuple items => Key.areWritable items
def Key.areWritable : List Key → Bool
  | [] => true
  | k :: ks => k.isWritable && Key.areWritable ks
end

mutual
theorem Key.literal?_isSome : ∀ {k : Key}, k.isWritable = true → k.literal?.isSome = true
  | .scalar s, h => by
    cases s with
    | int n =>
      rw [isWritable, decide_eq_true_eq] at h
      simp [literal?, Scalar.literal?, Number.intText?, h]
    | _ => rfl
  | .tuple items, h => by
    rw [isWritable] at h
    rw [literal?, Option.isSome_map]
    exact Key.literals?_isSome h
theorem Key.literals?_isSome : ∀ {ks : List Key}, Key.areWritable ks = true → (Key.literals? ks).isSome = true
  | [], _ => rfl
  | k :: ks, h => by
    rw [areWritable, Bool.and_eq_true] at h
    obtain ⟨t, ht⟩ := Option.isSome_iff_exists.mp (Key.literal?_isSome h.1)
    obtain ⟨ts, hts⟩ := Option.isSome_iff_exists.mp (Key.literals?_isSome h.2)
    simp [literals?, ht, hts]
end

theorem Key.exists_string {k : Key} (h : k.isWritable = true) : ∃ name, k.string? = some name := by
  have hlit := Key.literal?_isSome h
  have htext : k.text?.isSome = true := by
    cases k with
    | scalar s => cases s <;> first | rfl | exact hlit
    | tuple items => exact hlit
  obtain ⟨cs, hcs⟩ := Option.isSome_iff_exists.mp htext
  exact ⟨String.ofList cs, by rw [string?, hcs]; rfl⟩

/-- The numbers of the parts of a cell. -/
def Web.partsOf (web : Web) (n : Nat) : List Nat :=
  match web[n]? with
  | some (.seq _ items) => items
  | some (.dict entries) => entries.map Prod.snd
  | _ => []

def Web.keysOf (web : Web) (n : Nat) : List Key :=
  match web[n]? with
  | some (.dict entries) => Entries.keys entries
  | _ => []

/-- All keys of the cells that a cell leads to can be written. -/
def Web.KeysWritable (web : Web) (n : Nat) : Prop :=
  ∀ m, ReflTransGen (fun n m => m ∈ web.partsOf n) n m → ∀ k ∈ web.keysOf m, k.isWritable = true

/-- All keys of the dictionaries in a value can be written. -/
inductive Value.KeysWritable : Value → Prop where
  | scalar {s : Scalar} : KeysWritable (.scalar s)
  | seq {form : Form} {items : List Value} : (∀ v ∈ items, KeysWritable v) → KeysWritable (.seq form items)
  | dict {entries : List (Key × Value)} : (∀ e ∈ entries, e.1.isWritable = true) →
      (∀ e ∈ entries, KeysWritable e.2) → KeysWritable (.dict entries)
  | set {items : List Key} : KeysWritable (.set items)
  | cyclic {web : Web} {cell : Nat} {view : Value} : web.KeysWritable cell → KeysWritable view →
      KeysWritable (.cyclic web cell view)
  | again {shape : Shape} : KeysWritable (.again shape)

theorem Value.keysWritable_scalar (s : Scalar) : (Value.scalar s).KeysWritable := .scalar

theorem Value.keysWritable_seq {form : Form} {items : List Value} :
    (Value.seq form items).KeysWritable ↔ ∀ v ∈ items, v.KeysWritable := by
  constructor
  · intro h
    cases h with
    | seq hitems => exact hitems
  · exact .seq

theorem Value.keysWritable_dict {entries : List (Key × Value)} :
    (Value.dict entries).KeysWritable ↔ ∀ e ∈ entries, e.1.isWritable = true ∧ e.2.KeysWritable := by
  constructor
  · intro h
    cases h with
    | dict hkeys hvalues => exact fun e he => ⟨hkeys e he, hvalues e he⟩
  · intro h
    exact .dict (fun e he => (h e he).1) fun e he => (h e he).2

namespace Web

theorem KeysWritable.part {web : Web} {n m : Nat} (h : web.KeysWritable n) (hm : m ∈ web.partsOf n) :
    web.KeysWritable m := fun _ hk => h _ (.head hm hk)

theorem KeysWritable.viewWithin {web : Web} (depth : Nat) (around : List Nat) {n : Nat}
    (h : web.KeysWritable n) : (web.viewWithin depth around n).KeysWritable := by
  induction depth generalizing around n with
  | zero => exact .scalar
  | succ depth ih =>
    rw [Web.viewWithin]
    split
    · exact .scalar
    · exact .scalar
    · exact .set
    · rename_i form items hcell
      split
      · exact .again
      · refine .seq fun v hv => ?_
        obtain ⟨m, hm, rfl⟩ := List.mem_map.mp hv
        exact ih _ (h.part (by rw [partsOf, hcell]; exact hm))
    · rename_i entries hcell
      split
      · exact .again
      · refine .dict (fun e he => ?_) fun e he => ?_
        · obtain ⟨⟨k, m⟩, hm, rfl⟩ := List.mem_map.mp he
          exact h n .refl k (by rw [keysOf, hcell]; exact Entries.mem_keys.mpr ⟨m, hm⟩)
        · obtain ⟨⟨k, m⟩, hm, rfl⟩ := List.mem_map.mp he
          exact ih _ (h.part (by rw [partsOf, hcell]; exact List.mem_map_of_mem hm))

theorem KeysWritable.value {web : Web} {n : Nat} (h : web.KeysWritable n) : (web.value n).KeysWritable := by
  unfold Web.value
  dsimp only
  split
  · exact .cyclic h (h.viewWithin _ _)
  · exact h.viewWithin _ _

end Web

theorem Value.KeysWritable.contents {v : Value} (h : v.KeysWritable) : v.contents.KeysWritable := by
  cases h with
  | cyclic hweb hview =>
    rename_i web cell view
    rw [Value.contents, Web.contents]
    split
    · exact .scalar
    · exact .scalar
    · exact .set
    · rename_i form items hcell
      refine .seq fun v hv => ?_
      obtain ⟨m, hm, rfl⟩ := List.mem_map.mp hv
      exact (hweb.part (by rw [Web.partsOf, hcell]; exact hm)).value
    · rename_i entries hcell
      refine .dict (fun e he => ?_) fun e he => ?_
      · obtain ⟨⟨k, m⟩, hm, rfl⟩ := List.mem_map.mp he
        exact hweb cell .refl k (by rw [Web.keysOf, hcell]; exact Entries.mem_keys.mpr ⟨m, hm⟩)
      · obtain ⟨⟨k, m⟩, hm, rfl⟩ := List.mem_map.mp he
        exact (hweb.part (by rw [Web.partsOf, hcell]; exact List.mem_map_of_mem hm)).value
  | scalar => exact .scalar
  | seq hitems => exact .seq hitems
  | dict hkeys hvalues => exact .dict hkeys hvalues
  | set => exact .set
  | again => exact .again

end Reshape
