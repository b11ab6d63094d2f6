/-
  Reshape.Tree: compiled mappings, rules arranged in lists and dictionaries.

  A tree has the shape of the values it produces. `Tree.rules` are its rules from left to right,
  and `Tree.toValue` is the tree as data, each rule as its text.
  - `Tree.inductionOn`: induction over trees by their parts.
  - `Tree.mem_rulesOfItems`, `Tree.mem_rulesOfEntries`: the rules of a tree are those of its parts.
-/

import Reshape.Rule

namespace Reshape

inductive Tree where
  | leaf (rule : Rule)
  | list (items : List Tree)
  | dict (entries : List (String × Tree))
  deriving Repr, Inhabited

/-- Nested mappings by name, in the order of their declaration. -/
abbrev Nested := List (String × Tree)

mutual
def Tree.rules : Tree → List Rule
  | .leaf rule => [rule]
  | .list items => Tree.rulesOfItems items
  | .dict entries => Tree.rulesOfEntries entries
def Tree.rulesOfItems : List Tree → List Rule
  | [] => []
  | t :: ts => t.rules ++ Tree.rulesOfItems ts
def Tree.rulesOfEntries : List (String × Tree) → List Rule
  | [] => []
  | (_, t) :: es => t.rules ++ Tree.rulesOfEntries es
end

mutual
def Tree.toValue : Tree → Value
  | .leaf rule => .str rule.text
  | .list items => .list (Tree.itemsToValues items)
  | .dict entries => .dict (Tree.entriesToValues entries)
def Tree.itemsToValues : List Tree → List Value
  | [] => []
  | t :: ts => t.toValue :: Tree.itemsToValues ts
def Tree.entriesToValues : List (String × Tree) → List (Key × Value)
  | [] => []
  | (k, t) :: es => (.str k, t.toValue) :: Tree.entriesToValues es
end

/-- The names of the nested mappings that a tree's rules target, from left to right. -/
def Tree.references (t : Tree) : List String := (t.rules.filter Rule.isNested).map Rule.target

/-- Induction over trees, with the hypothesis for every part of a list or dictionary. -/
@[elab_as_elim]
theorem Tree.inductionOn {motive : Tree → Prop} (t : Tree) (leaf : ∀ rule, motive (.leaf rule))
    (list : ∀ items, (∀ t ∈ items, motive t) → motive (.list items))
    (dict : ∀ entries, (∀ e ∈ entries, motive e.2) → motive (.dict entries)) : motive t := by
  refine @Tree.rec motive (fun items => ∀ t ∈ items, motive t) (fun entries => ∀ e ∈ entries, motive e.2)
    (fun e => motive e.2) leaf list dict ?_ ?_ ?_ ?_ ?_ t
  · simp
  · intro t ts ht hts
    simpa using ⟨ht, hts⟩
  · simp
  · intro e es he hes
    simpa using ⟨he, by simpa using hes⟩
  · intro k t ht
    exact ht

theorem Tree.mem_rulesOfItems {r : Rule} {items : List Tree} :
    r ∈ Tree.rulesOfItems items ↔ ∃ t ∈ items, r ∈ t.rules := by
  induction items with
  | nil => simp [rulesOfItems]
  | cons t items ih => simp [rulesOfItems, ih]

theorem Tree.mem_rulesOfEntries {r : Rule} {entries : List (String × Tree)} :
    r ∈ Tree.rulesOfEntries entries ↔ ∃ e ∈ entries, r ∈ e.2.rules := by
  induction entries with
  | nil => simp [rulesOfEntries]
  | cons e entries ih => simp [rulesOfEntries, ih]

theorem Tree.mem_references {t : Tree} {n : String} :
    n ∈ t.references ↔ ∃ r ∈ t.rules, r.isNested = true ∧ r.target = n := by
  simp [references, and_assoc]

end Reshape
