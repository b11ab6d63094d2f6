/-
  Reshape.Proofs.Runs: what holds of a run because it holds of its steps.

  A relation between runs that sequencing keeps is kept by evaluating a tree. It relates the
  evaluations of a tree with two ways of entering nested mappings if it relates those of its rules, and
  those of a rule if it relates resolving every value that the rule yields. The two may be in different
  contexts and with different registries, with different rules in the same places.
  - `evaluateRule_of_value`, `evaluateRule_of_nothing`, `evaluateRule_of_refused`: what a rule makes of what
    its path leads to.
  - `Sequential.evaluate_mapRules`, `Sequential.evaluateRule_of_extract`: from rules to trees, and from
    what is taken to rules.
  - `Invariant.runWithin`: a property of events and faults holds of a run if an invariant of the
    places where nested mappings are entered carries it from one place to the next.
  - `continues_runWithin`: more depth changes nothing in a run that does not come to its limit, so
    that a transformation has one run at most that ends.
-/

import Reshape.Evaluation
import Reshape.Proofs.Parts

namespace Reshape

/-- The values that a rule resolves in a context. -/
def Rule.Yields (c : Context) (r : Rule) (w : Value) : Prop :=
  ∃ v, c.extract r.path = .ok (some v) ∧
    (r.isArray = false ∧ w = v ∨
      r.isArray = true ∧ ∃ form items, v.contents = .seq form items ∧ w ∈ items)

theorem Rule.Yields.isPart {data : Value} {c : Context} {r : Rule} {w : Value} (h : r.Yields c w)
    (hc : c.Within data) : w.IsPart data := by
  obtain ⟨v, hv, ⟨-, rfl⟩ | ⟨-, form, items, hitems, hw⟩⟩ := h
  · exact hc.extract hv
  · exact (hc.extract hv).tail (Or.inl ⟨form, items, hitems, hw⟩)

/-- A path that does not climb takes what is resolved out of the scope. -/
theorem Rule.Yields.descends {c : Context} {r : Rule} {w : Value} (h : r.Yields c w) (hne : r.path ≠ [])
    (hroot : rootSegment ∉ r.path) (hparent : parentSegment ∉ r.path) :
    Relation.TransGen Value.Holds c.scope w := by
  obtain ⟨v, hv, ⟨-, rfl⟩ | ⟨-, form, items, hitems, hw⟩⟩ := h
  · exact Context.descends hne hroot hparent hv
  · exact (Context.descends hne hroot hparent hv).tail (Or.inl ⟨form, items, hitems, hw⟩)

/-- What a rule makes of a value that is there and not null. -/
theorem evaluateRule_of_value {registry : Registry} {enter : String → Context → Run Value} {c : Context} {r : Rule}
    {v : Value} (hv : c.extract r.path = .ok (some v)) (hnull : v ≠ .null) :
    r.evaluate registry enter c = if r.isArray then
        match v.contents with
        | .seq _ items => Run.forEach (resolve registry enter c r.target) items >>= fun values => pure (.list values)
        | _ => pure (.list [])
      else resolve registry enter c r.target v := by
  unfold Rule.evaluate
  rw [hv]
  dsimp only
  split
  · rename_i h
    cases h
  · rename_i h
    cases h
  · rename_i h
    cases h
    exact absurd rfl hnull
  · rename_i h
    cases h
    rfl

/-- A rule makes nothing of a null, or where nothing is found. -/
theorem evaluateRule_of_nothing {registry : Registry} {enter : String → Context → Run Value} {c : Context} {r : Rule}
    {found : Option Value} (hfound : c.extract r.path = .ok found) (hnull : found.getD .null = .null) :
    r.evaluate registry enter c = pure (if r.isArray then .list [] else .null) := by
  unfold Rule.evaluate
  rw [hfound]
  cases found with
  | none => rfl
  | some v => rw [show v = .null from hnull]

theorem evaluateRule_of_refused {registry : Registry} {enter : String → Context → Run Value} {c : Context} {r : Rule}
    {fault : IndexFault} (h : c.extract r.path = .error fault) :
    r.evaluate registry enter c = Run.fail (.indexTooLong fault.digits) := by
  unfold Rule.evaluate
  rw [h]

theorem exists_value {found : Option Value} (h : found.getD .null ≠ .null) : ∃ v, found = some v ∧ v ≠ .null := by
  cases found with
  | none => exact absurd rfl h
  | some v => exact ⟨v, rfl, h⟩

/-- Items are evaluated one after another. -/
theorem Tree.evaluateItems_eq_forEach (registry : Registry) (enter : String → Context → Run Value) (c : Context)
    (ts : List Tree) : Tree.evaluateItems registry enter c ts = Run.forEach (Tree.evaluate registry enter c) ts := by
  induction ts with
  | nil => rfl
  | cons t ts ih => rw [Tree.evaluateItems, Run.forEach, ih]

/-! ## Other rules in the places of a tree -/

mutual
/-- The tree with what `g` gives for them in the places of its rules. -/
def Tree.mapRules (g : Rule → Rule) : Tree → Tree
  | .leaf rule => .leaf (g rule)
  | .list items => .list (Tree.mapItems g items)
  | .dict entries => .dict (Tree.mapEntries g entries)
def Tree.mapItems (g : Rule → Rule) : List Tree → List Tree
  | [] => []
  | t :: ts => t.mapRules g :: Tree.mapItems g ts
def Tree.mapEntries (g : Rule → Rule) : List (String × Tree) → List (String × Tree)
  | [] => []
  | (k, t) :: es => (k, t.mapRules g) :: Tree.mapEntries g es
end

theorem Tree.mapItems_eq_self {g : Rule → Rule} {items : List Tree} (h : ∀ t ∈ items, t.mapRules g = t) :
    Tree.mapItems g items = items := by
  induction items with
  | nil => rfl
  | cons t items ih =>
    obtain ⟨ht, hitems⟩ := List.forall_mem_cons.mp h
    rw [Tree.mapItems, ht, ih hitems]

theorem Tree.mapEntries_eq_self {g : Rule → Rule} {entries : List (String × Tree)}
    (h : ∀ e ∈ entries, e.2.mapRules g = e.2) : Tree.mapEntries g entries = entries := by
  induction entries with
  | nil => rfl
  | cons e entries ih =>
    obtain ⟨he, hentries⟩ := List.forall_mem_cons.mp h
    rw [Tree.mapEntries, he, ih hentries]

@[simp] theorem Tree.mapRules_id (t : Tree) : t.mapRules id = t := by
  induction t using Tree.inductionOn with
  | leaf rule => rfl
  | list items ih => rw [Tree.mapRules, Tree.mapItems_eq_self ih]
  | dict entries ih => rw [Tree.mapRules, Tree.mapEntries_eq_self ih]

/-! ## Relations that sequencing keeps -/

structure Sequential (R : (α : Type) → Run α → Run α → Prop) : Prop where
  value : ∀ {α : Type} (a : α), R α (pure a) (pure a)
  next : ∀ {α β : Type} {r r' : Run α} {f f' : α → Run β},
    R α r r' → (∀ a, R β (f a) (f' a)) → R β (r >>= f) (r' >>= f')

namespace Sequential

variable {R : (α : Type) → Run α → Run α → Prop} {c c' : Context}

theorem forEach (hR : Sequential R) {α β : Type} {f f' : α → Run β} {as : List α}
    (h : ∀ a ∈ as, R β (f a) (f' a)) : R (List β) (Run.forEach f as) (Run.forEach f' as) := by
  induction as with
  | nil => exact hR.value []
  | cons a as ih =>
    obtain ⟨ha, has⟩ := List.forall_mem_cons.mp h
    exact hR.next ha fun b => hR.next (ih has) fun bs => hR.value (b :: bs)

section
variable (registry registry' : Registry) (enter enter' : String → Context → Run Value)

theorem evaluateItems (hR : Sequential R) {g : Rule → Rule} {items : List Tree}
    (h : ∀ t ∈ items, R Value (t.evaluate registry enter c) ((t.mapRules g).evaluate registry' enter' c')) :
    R (List Value) (Tree.evaluateItems registry enter c items)
      (Tree.evaluateItems registry' enter' c' (Tree.mapItems g items)) := by
  induction items with
  | nil => exact hR.value []
  | cons t items ih =>
    obtain ⟨ht, hitems⟩ := List.forall_mem_cons.mp h
    exact hR.next ht fun v => hR.next (ih hitems) fun vs => hR.value (v :: vs)

theorem evaluateEntries (hR : Sequential R) {g : Rule → Rule} {entries : List (String × Tree)}
    (h : ∀ e ∈ entries, R Value (e.2.evaluate registry enter c) ((e.2.mapRules g).evaluate registry' enter' c')) :
    R (List (Key × Value)) (Tree.evaluateEntries registry enter c entries)
      (Tree.evaluateEntries registry' enter' c' (Tree.mapEntries g entries)) := by
  induction entries with
  | nil => exact hR.value []
  | cons e entries ih =>
    obtain ⟨he, hentries⟩ := List.forall_mem_cons.mp h
    exact hR.next he fun v => hR.next (ih hentries) fun vs => hR.value ((Key.str e.1, v) :: vs)

/-- A tree is related to a tree of its shape, if the rules in the same places are. -/
theorem evaluate_mapRules (hR : Sequential R) {g : Rule → Rule} {t : Tree}
    (h : ∀ r ∈ t.rules, R Value (r.evaluate registry enter c) ((g r).evaluate registry' enter' c')) :
    R Value (t.evaluate registry enter c) ((t.mapRules g).evaluate registry' enter' c') := by
  induction t using Tree.inductionOn with
  | leaf rule => exact h rule (by simp [Tree.rules])
  | list items ih =>
    have hitems : ∀ t ∈ items, R Value (t.evaluate registry enter c) ((t.mapRules g).evaluate registry' enter' c') :=
      fun t ht => ih t ht fun r hr => h r (Tree.mem_rulesOfItems.mpr ⟨t, ht, hr⟩)
    exact hR.next (hR.evaluateItems registry registry' enter enter' hitems) fun vs => hR.value (Value.list vs)
  | dict entries ih =>
    have hentries : ∀ e ∈ entries,
        R Value (e.2.evaluate registry enter c) ((e.2.mapRules g).evaluate registry' enter' c') :=
      fun e he => ih e he fun r hr => h r (Tree.mem_rulesOfEntries.mpr ⟨e, he, hr⟩)
    exact hR.next (hR.evaluateEntries registry registry' enter enter' hentries) fun vs => hR.value (Value.dict vs)

theorem evaluate (hR : Sequential R) {t : Tree}
    (h : ∀ r ∈ t.rules, R Value (r.evaluate registry enter c) (r.evaluate registry' enter' c)) :
    R Value (t.evaluate registry enter c) (t.evaluate registry' enter' c) := by
  have hid := hR.evaluate_mapRules registry registry' enter enter' (g := id) h
  rwa [Tree.mapRules_id] at hid

/-- Rules are related if their paths lead to the same, and resolving it is related. -/
theorem evaluateRule_of_extract (hR : Sequential R) {r r' : Rule}
    (hextract : c.extract r.path = c'.extract r'.path) (harray : r.isArray = r'.isArray)
    (hfail : ∀ fault, c.extract r.path = .error fault →
      R Value (Run.fail (.indexTooLong fault.digits)) (Run.fail (.indexTooLong fault.digits)))
    (hyields : ∀ w, r.Yields c w →
      R Value (resolve registry enter c r.target w) (resolve registry' enter' c' r'.target w)) :
    R Value (r.evaluate registry enter c) (r'.evaluate registry' enter' c') := by
  unfold Rule.evaluate
  rw [← hextract, ← harray]
  dsimp only
  split
  · rename_i fault hx
    exact hfail fault hx
  · exact hR.value _
  · exact hR.value _
  · rename_i v _ hx
    cases ha : r.isArray with
    | false => exact hyields v ⟨v, hx, Or.inl ⟨ha, rfl⟩⟩
    | true =>
      simp only [if_true]
      split
      · rename_i form items hc
        refine hR.next (hR.forEach fun w hw => hyields w ?_) fun vs => hR.value (Value.list vs)
        exact ⟨v, hx, Or.inr ⟨ha, form, items, hc, hw⟩⟩
      · exact hR.value _

theorem evaluateRule (hR : Sequential R) {r : Rule}
    (hfail : ∀ fault, c.extract r.path = .error fault →
      R Value (Run.fail (.indexTooLong fault.digits)) (Run.fail (.indexTooLong fault.digits)))
    (hyields : ∀ w, r.Yields c w →
      R Value (resolve registry enter c r.target w) (resolve registry' enter' c r.target w)) :
    R Value (r.evaluate registry enter c) (r.evaluate registry' enter' c) :=
  hR.evaluateRule_of_extract registry registry' enter enter' rfl rfl hfail hyields

end

end Sequential

/-! ## Properties of events and faults -/

def Run.fault? (r : Run α) : Option EvaluationFault :=
  match r.outcome with
  | .error fault => some fault
  | .ok _ => none

/-- The property holds of what happened in the run and of the fault that ended it, if one did. -/
def Run.Satisfies (P : List Event → Option EvaluationFault → Prop) (r : Run α) : Prop := P r.events r.fault?

structure Composes (P : List Event → Option EvaluationFault → Prop) : Prop where
  nil : P [] none
  append : ∀ {events events' fault?}, P events none → P events' fault? → P (events ++ events') fault?

theorem Composes.sequential {P : List Event → Option EvaluationFault → Prop} (hP : Composes P) :
    Sequential fun _ r _ => r.Satisfies P := by
  refine ⟨fun _ => hP.nil, ?_⟩
  intro α β r r' f f' hr hf
  obtain ⟨events, outcome⟩ := r
  cases outcome with
  | error fault => exact hr
  | ok a => exact hP.append hr (hf a)

/-- A rule does what `P` allows, and every nested mapping that it enters is entered where `J` holds. -/
structure Rule.Fits (J : Nat → String → Context → Prop) (P : List Event → Option EvaluationFault → Prop)
    (depth : Nat) (c : Context) (r : Rule) : Prop where
  fails : ∀ fault, c.extract r.path = .error fault → P [] (some (.indexTooLong fault.digits))
  enters : r.isNested = true → ∀ w, r.Yields c w → J depth r.target (c.enter w)

/-- `J depth name c` is to hold wherever the nested mapping `name` is entered in `c` with so much
depth left. It allows what `P` needs, and holds again at every entry that follows. -/
structure Invariant (registry : Registry) (nested : Nested) (J : Nat → String → Context → Prop)
    (P : List Event → Option EvaluationFault → Prop) : Prop where
  composes : Composes P
  called : ∀ name v, P [.called name v] none
  refused : ∀ name f v cause, registry.find? name = some f → f v = .error cause →
    P [.called name v] (some (.conversion cause))
  missing : ∀ name v, P [.missing name v] none
  entered : ∀ depth name c, J depth name c → P [.entered name c] none
  defined : ∀ depth name c, J depth name c → ∃ t, nested.lookup name = some t
  tooDeep : ∀ name c, J 0 name c → P [] (some .tooDeep)
  rules : ∀ depth name c t, J (depth + 1) name c → nested.lookup name = some t →
    ∀ r ∈ t.rules, r.Fits J P depth c

namespace Invariant

variable {registry : Registry} {nested : Nested} {J : Nat → String → Context → Prop}
  {P : List Event → Option EvaluationFault → Prop} {depth : Nat} {c : Context}

theorem resolve (h : Invariant registry nested J P) {enter : String → Context → Run Value} {target : String}
    {w : Value} (henter : isNestedName target = true → (enter target (c.enter w)).Satisfies P) :
    (resolve registry enter c target w).Satisfies P := by
  unfold Reshape.resolve
  split
  · rename_i hn
    exact henter hn
  · split
    · exact h.missing target w
    · rename_i f hf
      cases hv : f w with
      | ok v => exact h.called target w
      | error cause => exact h.refused target f w cause hf hv

theorem evaluate (h : Invariant registry nested J P) {enter : String → Context → Run Value}
    (henter : ∀ name c, J depth name c → (enter name c).Satisfies P) {t : Tree}
    (hrules : ∀ r ∈ t.rules, r.Fits J P depth c) : (t.evaluate registry enter c).Satisfies P := by
  have hR := h.composes.sequential
  refine hR.evaluate registry registry enter enter fun r hr => ?_
  refine hR.evaluateRule registry registry enter enter (hrules r hr).fails fun w hw => ?_
  exact h.resolve fun hn => henter _ _ ((hrules r hr).enters hn w hw)

/-- One entry after another: the depth that is left is what the induction is on. -/
theorem enterNested (h : Invariant registry nested J P) {name : String} (hJ : J depth name c) :
    (enterNested registry nested depth name c).Satisfies P := by
  induction depth generalizing name c with
  | zero =>
    obtain ⟨t, ht⟩ := h.defined 0 name c hJ
    rw [Reshape.enterNested, ht]
    exact h.tooDeep name c hJ
  | succ depth ih =>
    obtain ⟨t, ht⟩ := h.defined (depth + 1) name c hJ
    rw [Reshape.enterNested, ht]
    exact h.composes.append (h.entered _ name c hJ)
      (h.evaluate (fun _ _ => ih) (h.rules depth name c t hJ ht))

theorem runWithin {t : Transformation} (h : Invariant registry t.nested J P) {data : Value}
    (hrules : ∀ r ∈ t.properties.rules, r.Fits J P depth (Context.top data)) :
    (t.runWithin depth registry data).Satisfies P :=
  h.evaluate (fun _ _ => h.enterNested) hrules

end Invariant

/-! ## More depth -/

/-- `r'` is the same run as `r`, unless `r` came to the limit of its depth. -/
def Run.Continues (r r' : Run α) : Prop := r.outcome = .error .tooDeep ∨ r' = r

theorem sequential_continues : Sequential fun _ r r' => r.Continues r' := by
  refine ⟨fun _ => Or.inr rfl, ?_⟩
  intro α β r r' f f' hr hf
  obtain ⟨events, outcome⟩ := r
  rcases hr with hdeep | rfl
  · cases hdeep
    exact Or.inl rfl
  · cases outcome with
    | error fault => exact Or.inr rfl
    | ok a =>
      rcases hf a with hdeep | heq
      · exact Or.inl hdeep
      · refine Or.inr ?_
        show Run.bind _ _ = Run.bind _ _
        simp only [Run.bind, heq]

theorem continues_evaluate {registry : Registry} {enter enter' : String → Context → Run Value}
    (henter : ∀ name c, (enter name c).Continues (enter' name c)) (c : Context) (t : Tree) :
    (t.evaluate registry enter c).Continues (t.evaluate registry enter' c) := by
  refine sequential_continues.evaluate registry registry enter enter' fun r _ => ?_
  refine sequential_continues.evaluateRule registry registry enter enter' (fun _ _ => Or.inr rfl) fun w _ => ?_
  unfold resolve
  split
  · exact henter _ _
  · exact Or.inr rfl

theorem continues_enterNested (registry : Registry) (nested : Nested) {depth depth' : Nat}
    (h : depth ≤ depth') (name : String) (c : Context) :
    (enterNested registry nested depth name c).Continues (enterNested registry nested depth' name c) := by
  induction depth generalizing depth' name c with
  | zero =>
    cases hl : nested.lookup name with
    | none =>
      refine Or.inr ?_
      rw [enterNested, enterNested, hl]
    | some t =>
      refine Or.inl ?_
      rw [enterNested, hl]
      rfl
  | succ depth ih =>
    obtain ⟨depth', rfl⟩ : ∃ k, depth' = k + 1 := ⟨depth' - 1, by omega⟩
    cases hl : nested.lookup name with
    | none =>
      refine Or.inr ?_
      rw [enterNested, enterNested, hl]
    | some t =>
      rw [enterNested, enterNested, hl]
      rcases continues_evaluate (ih (Nat.le_of_succ_le_succ h)) c t with hdeep | heq
      · exact Or.inl hdeep
      · exact Or.inr (by simp only [heq])

theorem continues_runWithin (t : Transformation) (registry : Registry) (data : Value) {depth depth' : Nat}
    (h : depth ≤ depth') : (t.runWithin depth registry data).Continues (t.runWithin depth' registry data) :=
  continues_evaluate (continues_enterNested registry t.nested h) _ _

/-- Without a limit to its depth the run ends, and this is what happens in it: to some depth it is the
same without coming to the limit. -/
def Transformation.Ends (t : Transformation) (registry : Registry) (data : Value) (run : Run Value) : Prop :=
  ∃ depth, t.runWithin depth registry data = run ∧ run.outcome ≠ .error .tooDeep

theorem Transformation.Ends.runWithin_eq {t : Transformation} {registry : Registry} {data : Value} {depth : Nat}
    (h : (t.runWithin depth registry data).outcome ≠ .error .tooDeep) {depth' : Nat} (hle : depth ≤ depth') :
    t.runWithin depth' registry data = t.runWithin depth registry data :=
  (continues_runWithin t registry data hle).resolve_left h

theorem Transformation.Ends.unique {t : Transformation} {registry : Registry} {data : Value}
    {run run' : Run Value} (h : t.Ends registry data run) (h' : t.Ends registry data run') : run = run' := by
  obtain ⟨depth, rfl, hd⟩ := h
  obtain ⟨depth', rfl, hd'⟩ := h'
  rw [← runWithin_eq hd (Nat.le_max_left depth depth'), ← runWithin_eq hd' (Nat.le_max_right depth depth')]

end Reshape
