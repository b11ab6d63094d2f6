/-
  Reshape.Proofs.Inlining: what a nested mapping does, done in the place from where it is entered.

  A rule that enters a nested mapping under a path can be replaced by the tree of the mapping, if every
  path in the tree is taken on from there: it follows the path of the rule, or it starts by climbing to
  where the rule stands, and then the climb is left out.
  - `Context.extract_enter`: a path in the context of a nested mapping leads to the same as the path
    that is taken on, in the context around it.
  - `observed_enterNested_congr`: nested mappings that never climb do the same in contexts with one
    scope and one root, whatever is between the two.
  - `inlining_preserves`: in every context the rule ends if and only if the tree does, and what shows
    of them is the same.
-/

import Reshape.Proofs.Faults

namespace Reshape

open Relation References

/-! ## Paths in the context of a nested mapping -/

namespace Cursor

variable {root : Value} {cursor cursor' : Cursor}

theorem walk_append {path : List String} (h : cursor.walk root path = .ok (some cursor')) (path' : List String) :
    cursor.walk root (path ++ path') = cursor'.walk root path' := by
  induction path generalizing cursor with
  | nil =>
    cases h
    rfl
  | cons segment path ih =>
    rw [walk] at h
    split at h
    · cases h
    · cases h
    · rename_i next hstep
      rw [List.cons_append, walk, hstep]
      exact ih h

/-- Only where a step climbs it matters whether a cursor is at a context or at data. -/
theorem step_congr (hvalue : cursor.value = cursor'.value) {segment : String} (hne : segment ≠ parentSegment) :
    cursor.step root segment = cursor'.step root segment := by
  unfold step
  rw [if_neg hne, if_neg hne, hvalue]

theorem walk_congr (hvalue : cursor.value = cursor'.value) {path : List String}
    (hhead : path.head? ≠ some parentSegment) :
    (cursor.walk root path).map (fun found => found.map value) =
      (cursor'.walk root path).map fun found => found.map value := by
  cases path with
  | nil =>
    show Except.ok (some cursor.value) = .ok (some cursor'.value)
    rw [hvalue]
  | cons segment path =>
    have hne : segment ≠ parentSegment := fun h => hhead (h ▸ rfl)
    rw [walk, walk, step_congr hvalue hne]

end Cursor

/-- The path that leads from outside to where `path` leads from inside a nested mapping that is entered
under the first path. -/
def takenOn (outer : List String) : List String → List String
  | [] => outer
  | segment :: path => if segment = parentSegment then path else outer ++ segment :: path

namespace Context

/-- The contexts are in the same scope, below the same input document. -/
structure Agrees (c c' : Context) : Prop where
  scope : c.scope = c'.scope
  root : c.root = c'.root

variable {c c' : Context}

@[simp] theorem root_enter (v : Value) : (c.enter v).root = c.root := by
  unfold root enter
  rw [List.getLastD_cons]

theorem Agrees.enter (h : c.Agrees c') (v : Value) : (c.enter v).Agrees (c'.enter v) := by
  refine ⟨rfl, ?_⟩
  rw [root_enter, root_enter, h.root]

theorem Agrees.extract (h : c.Agrees c') {path : List String} (hhead : path.head? ≠ some parentSegment) :
    c.extract path = c'.extract path := by
  have hvalue : (Cursor.context c).value = (Cursor.context c').value := h.scope
  unfold Context.extract
  rw [h.root, Cursor.walk_congr hvalue hhead]

/-- Inside a nested mapping a path leads to what the path taken on leads to outside. -/
theorem extract_enter {outer : List String} {v : Value} (h : c.extract outer = .ok (some v))
    (path : List String) : (c.enter v).extract path = c.extract (takenOn outer path) := by
  obtain ⟨cursor, hwalk, hvalue⟩ := exists_walk_of_extract h
  have hscope : (Cursor.context (c.enter v)).value = cursor.value := hvalue.symm
  have hfollow : path.head? ≠ some parentSegment →
      (c.enter v).extract path = c.extract (outer ++ path) := by
    intro hhead
    unfold extract
    rw [root_enter, Cursor.walk_append hwalk, Cursor.walk_congr hscope hhead]
  cases path with
  | nil => rw [takenOn, hfollow (by simp), List.append_nil]
  | cons segment path =>
    by_cases hp : segment = parentSegment
    · -- climbing out of what was entered leads back to `c` itself, whatever the path there was
      subst hp
      rw [takenOn, if_pos rfl]
      unfold extract
      rw [root_enter]
      rfl
    · rw [takenOn, if_neg hp]
      exact hfollow fun hhead => hp (Option.some.inj hhead)

end Context

/-! ## What shows of a run -/

def Event.isEntry : Event → Bool
  | .entered _ _ => true
  | _ => false

/-- What shows of a run from outside: how it ends, and what was asked of converters. -/
def Run.observed (r : Run α) : Run α := ⟨r.events.filter fun event => !event.isEntry, r.outcome⟩

theorem observed_after_entered (r : Run α) (name : String) (c : Context) :
    (r.after (.entered name c)).observed = r.observed := by
  simp [Run.after, Run.observed, Event.isEntry]

theorem observed_bind {α β : Type} (r : Run α) (f : α → Run β) :
    (r >>= f).observed = r.observed >>= fun a => (f a).observed := by
  obtain ⟨events, outcome⟩ := r
  cases outcome with
  | error fault => rfl
  | ok a =>
    show Run.mk ((events ++ (f a).events).filter _) _ = Run.mk (_ ++ _) _
    rw [List.filter_append]
    rfl

theorem sequential_observed : Sequential fun _ r r' => r.observed = r'.observed := by
  refine ⟨fun _ => rfl, ?_⟩
  intro α β r r' f f' hr hf
  rw [observed_bind, observed_bind, hr, funext hf]

/-! ## Nested mappings that never climb -/

/-- No path that is read from this nested mapping on climbs to an enclosing scope. -/
def ClimbFree (nested : Nested) (name : String) : Prop :=
  ∀ n, ReflTransGen (Refers nested) name n → ∀ t, nested.lookup n = some t → ∀ r ∈ t.rules, parentSegment ∉ r.path

section
variable {registry : Registry} {nested : Nested} {c c' : Context} {depth : Nat}

theorem ClimbFree.next {name : String} (h : ClimbFree nested name) {t : Tree} (ht : nested.lookup name = some t)
    {r : Rule} (hr : r ∈ t.rules) (hn : r.isNested = true) : ClimbFree nested r.target := by
  have hrefers : Refers nested name r.target := ⟨t, ht, Tree.mem_references.mpr ⟨r, hr, hn, rfl⟩⟩
  exact fun n hn => h n (.head hrefers hn)

/-- What a converter makes of a value has nothing to do with the context. -/
theorem observed_resolve_congr {enter enter' : String → Context → Run Value} {target : String} {w : Value}
    (henter : isNestedName target = true →
      (enter target (c.enter w)).observed = (enter' target (c'.enter w)).observed) :
    (resolve registry enter c target w).observed = (resolve registry enter' c' target w).observed := by
  by_cases hn : isNestedName target = true
  · rw [resolve, resolve, if_pos hn, if_pos hn]
    exact henter hn
  · rw [resolve, resolve, if_neg hn, if_neg hn]

/-- Nested mappings that never climb do the same in contexts that agree. -/
theorem observed_enterNested_congr {name : String} (hfree : ClimbFree nested name) (h : c.Agrees c') :
    (enterNested registry nested depth name c).observed = (enterNested registry nested depth name c').observed := by
  -- what a rule enters is entered in new contexts, which agree again
  induction depth generalizing name c c' with
  | zero => rw [enterNested, enterNested]
  | succ depth ih =>
    rw [enterNested, enterNested]
    cases ht : nested.lookup name with
    | none => rfl
    | some t =>
      have hrules : ∀ r ∈ t.rules, (r.evaluate registry (enterNested registry nested depth) c).observed =
          ((id r).evaluate registry (enterNested registry nested depth) c').observed := by
        intro r hr
        have hclimb : parentSegment ∉ r.path := hfree name .refl t ht r hr
        have hextract : c.extract r.path = c'.extract r.path :=
          h.extract fun hhead => hclimb (List.mem_of_head? hhead)
        refine sequential_observed.evaluateRule_of_extract _ _ _ _ hextract rfl (fun _ _ => rfl) fun w _ => ?_
        exact observed_resolve_congr fun hn => ih (hfree.next ht hr hn) (h.enter w)
      have htree := sequential_observed.evaluate_mapRules _ _ _ _ hrules
      rw [Tree.mapRules_id] at htree
      exact (observed_after_entered ..).trans (htree.trans (observed_after_entered ..).symm)

end

/-! ## Inlining -/

/-- The rule as it is to be from outside a nested mapping that is entered under this path. -/
def Rule.takenOn (outer : List String) (r : Rule) : Rule := { r with path := Reshape.takenOn outer r.path }

/-- The tree in the place of a rule that enters it under this path. -/
def Tree.inlined (outer : List String) (t : Tree) : Tree := t.mapRules (Rule.takenOn outer)

/-- Without a limit to its depth the evaluation ends, and this is its run. -/
def Tree.Ends (registry : Registry) (nested : Nested) (c : Context) (t : Tree) (run : Run Value) : Prop :=
  ∃ depth, t.evaluate registry (enterNested registry nested depth) c = run ∧ run.outcome ≠ .error .tooDeep

section
variable {registry : Registry} {nested : Nested} {c : Context} {depth : Nat}

theorem observed_inlined {outer : List String} {v : Value} (hv : c.extract outer = .ok (some v)) {t : Tree}
    (hfree : ∀ r ∈ t.rules, r.isNested = true → ClimbFree nested r.target) :
    (t.evaluate registry (enterNested registry nested depth) (c.enter v)).observed =
      ((t.inlined outer).evaluate registry (enterNested registry nested depth) c).observed := by
  refine sequential_observed.evaluate_mapRules _ _ _ _ fun r hr => ?_
  have hextract : (c.enter v).extract r.path = c.extract (r.takenOn outer).path := Context.extract_enter hv r.path
  refine sequential_observed.evaluateRule_of_extract _ _ _ _ hextract rfl (fun _ _ => rfl) fun w _ => ?_
  refine observed_resolve_congr fun hn => observed_enterNested_congr (hfree r hr hn) ?_
  exact ⟨rfl, by simp⟩

/-- A rule that is no array rule resolves what it takes. -/
theorem evaluate_of_extract {enter : String → Context → Run Value} {path : List String} {target : String} {v : Value}
    (hv : c.extract path = .ok (some v)) (hne : v ≠ .null) :
    Rule.evaluate registry enter c ⟨path, target, false⟩ = resolve registry enter c target v :=
  (evaluateRule_of_value hv hne).trans (if_neg Bool.false_ne_true)

/-- Entering takes one more of the depth than the inlined tree. -/
theorem observed_entering {outer : List String} {name : String} {t : Tree} {v : Value}
    (hname : isNestedName name = true) (ht : nested.lookup name = some t) (hv : c.extract outer = .ok (some v))
    (hne : v ≠ .null) (hfree : ∀ r ∈ t.rules, r.isNested = true → ClimbFree nested r.target) :
    ((Tree.leaf ⟨outer, name, false⟩).evaluate registry (enterNested registry nested (depth + 1)) c).observed =
      ((t.inlined outer).evaluate registry (enterNested registry nested depth) c).observed := by
  rw [Tree.evaluate, evaluate_of_extract hv hne, resolve, if_pos hname, enterNested, ht]
  exact (observed_after_entered ..).trans (observed_inlined hv hfree)

/-- A rule that enters a nested mapping does what the tree of the mapping does in its place, every path
taken on: one ends if and only if the other does, in the same way, and asks the same of converters. It
is enough that the nested mappings that the tree enters never climb. -/
theorem inlining_preserves {outer : List String} {name : String} {t : Tree} {v : Value}
    (hname : isNestedName name = true) (ht : nested.lookup name = some t) (hv : c.extract outer = .ok (some v))
    (hne : v ≠ .null) (hfree : ∀ r ∈ t.rules, r.isNested = true → ClimbFree nested r.target) (shown : Run Value) :
    (∃ run, (Tree.leaf ⟨outer, name, false⟩).Ends registry nested c run ∧ run.observed = shown) ↔
      ∃ run, (t.inlined outer).Ends registry nested c run ∧ run.observed = shown := by
  have hsame : ∀ depth,
      ((Tree.leaf ⟨outer, name, false⟩).evaluate registry (enterNested registry nested (depth + 1)) c).observed =
        ((t.inlined outer).evaluate registry (enterNested registry nested depth) c).observed :=
    fun _ => observed_entering hname ht hv hne hfree
  constructor
  · rintro ⟨_, ⟨depth, rfl, hdeep⟩, rfl⟩
    cases depth with
    | zero =>
      refine absurd ?_ hdeep
      rw [Tree.evaluate, evaluate_of_extract hv hne, resolve, if_pos hname, enterNested, ht]
      rfl
    | succ depth =>
      have houtcome := congrArg Run.outcome (hsame depth)
      exact ⟨_, ⟨depth, rfl, fun h => hdeep (houtcome.trans h)⟩, (hsame depth).symm⟩
  · rintro ⟨_, ⟨depth, rfl, hdeep⟩, rfl⟩
    have houtcome := congrArg Run.outcome (hsame depth)
    exact ⟨_, ⟨depth + 1, rfl, fun h => hdeep (houtcome.symm.trans h)⟩, hsame depth⟩

end

/-- A record with its own number, one of the scope from where it is entered, and others that take theirs
from the input document. -/
def recordTree : Tree :=
  .dict [("n", .leaf ⟨["n"], "int", false⟩), ("k", .leaf ⟨["$parent", "k"], "int", false⟩),
    ("s", .leaf ⟨["s"], "$s", true⟩)]

def recordNested : Nested := [("$r", recordTree), ("$s", .leaf ⟨["$root", "k"], "int", false⟩)]

def recordValue : Value := .dict [(.str "n", .int 2), (.str "s", .list [.null, .int 0])]

/-- One level below an input document that holds the record. -/
def recordContext : Context :=
  (Context.top (.dict [(.str "k", .int 1), (.str "r", recordValue)])).enter (.dict [(.str "k", .int 5)])

def recordShown : Run Value :=
  ⟨[.called "int" (.int 2), .called "int" (.int 5), .called "int" (.int 1), .called "int" (.int 1)],
    .ok (.dict [(.str "n", .int 2), (.str "k", .int 5), (.str "s", .list [.int 1, .int 1])])⟩

theorem climbFree_of_no_references {nested : Nested} {name : String} {t : Tree} (ht : nested.lookup name = some t)
    (href : t.references = []) (hfree : ∀ r ∈ t.rules, parentSegment ∉ r.path) : ClimbFree nested name := by
  intro n hn u hu
  rcases ReflTransGen.cases_head hn with rfl | ⟨m, ⟨t', ht', hm⟩, -⟩
  · cases ht.symm.trans hu
    exact hfree
  · cases ht.symm.trans ht'
    rw [href] at hm
    cases hm

theorem a_record_is_inlined : recordContext.extract ["$parent", "r"] = .ok (some recordValue) ∧
    (∀ r ∈ recordTree.rules, r.isNested = true → ClimbFree recordNested r.target) ∧
    (∃ run, (Tree.leaf ⟨["$parent", "r"], "$r", false⟩).Ends Transformation.integers recordNested recordContext run ∧
      run.observed = recordShown) ∧
    ∃ run, (recordTree.inlined ["$parent", "r"]).Ends Transformation.integers recordNested recordContext run ∧
      run.observed = recordShown := by
  have hname : isNestedName "$r" = true := by decide
  have hextract : recordContext.extract ["$parent", "r"] = .ok (some recordValue) := by rfl
  have hfree : ∀ r ∈ recordTree.rules, r.isNested = true → ClimbFree recordNested r.target := by
    intro r hr hn
    obtain rfl | rfl | rfl : r = ⟨["n"], "int", false⟩ ∨ r = ⟨["$parent", "k"], "int", false⟩ ∨
        r = ⟨["s"], "$s", true⟩ := by simpa [recordTree, Tree.rules, Tree.rulesOfEntries] using hr
    · cases hn
    · cases hn
    · refine climbFree_of_no_references (t := .leaf ⟨["$root", "k"], "int", false⟩) rfl rfl fun r hr => ?_
      rw [List.mem_singleton.mp hr]
      decide
  have hshown : ((Tree.leaf ⟨["$parent", "r"], "$r", false⟩).evaluate Transformation.integers
      (enterNested Transformation.integers recordNested 2) recordContext).observed = recordShown := by rfl
  have hdeep : recordShown.outcome ≠ .error .tooDeep := by
    intro h
    cases h
  have hne : recordValue ≠ .null := by
    intro h
    cases h
  rw [← hshown] at hdeep
  have hentering : ∃ run, (Tree.leaf ⟨["$parent", "r"], "$r", false⟩).Ends Transformation.integers recordNested
      recordContext run ∧ run.observed = recordShown := ⟨_, ⟨2, rfl, hdeep⟩, hshown⟩
  have hinlined := (inlining_preserves hname rfl hextract hne hfree recordShown).mp hentering
  exact ⟨hextract, hfree, hentering, hinlined⟩

end Reshape
