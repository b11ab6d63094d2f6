/-
  Reshape.References: which nested mappings refer to which.

  `reachable` lists the nested mappings that a tree can lead to, in the order in which they are
  found: the tree found last is searched first.

  A rule that targets a nested mapping and takes no part of the data, because its path only climbs
  to enclosing scopes and the root, leads from one nested mapping to another on the same data. A
  cycle of such rules would never end. `findCycle?` searches depth first for one. Array rules are
  no part of it: what they need is a sequence, and its elements are new data.
-/

import Reshape.Tree

namespace Reshape

def rootSegment : String := "$root"

def parentSegment : String := "$parent"

namespace References

/-! ## What can be reached -/

/-- How many names are not among those seen. -/
def unseen (names seen : List String) : Nat := (names.filter fun n => n ∉ seen).length

theorem unseen_snoc_lt {names seen : List String} {name : String} (hn : name ∈ names)
    (hs : name ∉ seen) : unseen names (seen ++ [name]) < unseen names seen := by
  have hf : names.filter (fun n => n ∉ seen ++ [name]) =
      (names.filter fun n => n ∉ seen).filter fun n => n ≠ name := by
    rw [List.filter_filter]
    refine List.filter_congr fun n _ => ?_
    simp [and_comm]
  unfold unseen
  rw [hf, List.length_filter_lt_length_iff_exists]
  exact ⟨name, by simpa [hn] using hs, by simp⟩

/-- Adds the names that are not found yet, and their trees, the newest first. The first undefined
name is reported. -/
def discover (nested : Nested) (found : List String) (pending : List Tree) :
    List String → Except String (List String × List Tree)
  | [] => .ok (found, pending)
  | name :: names =>
    if name ∈ found then discover nested found pending names
    else match nested.lookup name with
      | none => .error name
      | some t => discover nested (found ++ [name]) (t :: pending) names

/-- A name that is discovered is seen from then on, and its tree is pending. -/
theorem discover_measure {nested : Nested} {found found' : List String} {pending pending' : List Tree}
    {names : List String} (h : discover nested found pending names = .ok (found', pending')) :
    unseen (Entries.keys nested) found' + pending'.length ≤
      unseen (Entries.keys nested) found + pending.length := by
  induction names generalizing found pending with
  | nil =>
    simp only [discover, Except.ok.injEq, Prod.mk.injEq] at h
    obtain ⟨rfl, rfl⟩ := h
    exact Nat.le_refl _
  | cons name names ih =>
    rw [discover] at h
    split at h
    · exact ih h
    · rename_i hnew
      split at h
      · cases h
      · rename_i t ht
        have hlt := unseen_snoc_lt (Entries.mem_keys_of_lookup ht) hnew
        have := ih h
        simp only [List.length_cons] at this
        omega

/-- Searches the pending trees, the newest first, and those of the names it finds. -/
def explore (nested : Nested) (found : List String) (pending : List Tree) :
    Except String (List String) :=
  match pending with
  | [] => .ok found
  | t :: pending => match _ : discover nested found pending t.references with
    | .ok (found', pending') => explore nested found' pending'
    | .error name => .error name
termination_by unseen (Entries.keys nested) found + pending.length
decreasing_by
  have := discover_measure ‹_›
  simp only [List.length_cons]
  omega

/-- The nested mappings that evaluating `properties` can enter, in the order in which they are
found; an undefined name that it could enter is reported instead. -/
def reachable (properties : Tree) (nested : Nested) : Except String (List String) :=
  explore nested [] [properties]

/-! ## Cycles that consume nothing -/

/-- Whether a path only climbs: to enclosing scopes first, and then to the root. Once at the root
there is no scope to climb to. -/
def climbsOnly (path : List String) : Bool :=
  (path.dropWhile (· = parentSegment)).all (· = rootSegment)

/-- Whether a rule leads to another nested mapping on a scope that is already open. -/
def isDirect (r : Rule) : Bool := r.isNested && !r.isArray && climbsOnly r.path

def directTargets (t : Tree) : List String := (t.rules.filter isDirect).map Rule.target

/-- The direct references of each nested mapping. -/
def directEdges (nested : Nested) : List (String × List String) :=
  nested.map fun (name, t) => (name, directTargets t)

mutual
/-- Visits a name with the names above it on `path`, nearest last, and the names already finished.
Gives the finished names, or a cycle as an error. -/
def visit (edges : List (String × List String)) (path finished : List String) (name : String) :
    Except (List String) (List String) :=
  if _ : name ∈ path then .error (path.drop (path.idxOf name) ++ [name])
  else if name ∈ finished then .ok finished
  else match _ : edges.lookup name with
    | none => .ok (finished ++ [name])
    | some targets => match visitAll edges (path ++ [name]) finished targets with
      | .ok finished => .ok (finished ++ [name])
      | .error cycle => .error cycle
-- A path holds no name twice, so that it gets longer only as long as there are other names.
termination_by (unseen (Entries.keys edges) path, 0)
decreasing_by exact Prod.Lex.left _ _ (unseen_snoc_lt (Entries.mem_keys_of_lookup ‹_›) ‹_›)
/-- Visits names one after another; stops at the first cycle. -/
def visitAll (edges : List (String × List String)) (path finished : List String) :
    List String → Except (List String) (List String)
  | [] => .ok finished
  | name :: names => match visit edges path finished name with
    | .ok finished => visitAll edges path finished names
    | .error cycle => .error cycle
termination_by names => (unseen (Entries.keys edges) path, names.length + 1)
decreasing_by all_goals exact Prod.Lex.right _ (by simp)
end

/-- Where a search starts: at the names that are given, or else at every nested mapping. -/
def startNames (nested : Nested) : Option (List String) → List String
  | some names => names
  | none => Entries.keys nested

/-- A chain of nested mappings that leads back to its start by direct references only, if one can
be reached from a start by such references. -/
def findCycle? (nested : Nested) (start : Option (List String)) : Option (List String) :=
  match visitAll (directEdges nested) [] [] (startNames nested start) with
  | .ok _ => none
  | .error cycle => some cycle

end References

end Reshape
