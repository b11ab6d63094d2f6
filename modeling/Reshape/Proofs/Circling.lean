/-
  Reshape.Proofs.Circling: a cycle that is reported has no end.

  A direct rule climbs, and a climb ends at a scope that is open already. Entering a nested mapping opens
  one scope more, which is the one that the climb has ended at. So where no open scope is null and no rule
  of the cycle climbs higher than there are scopes, this holds again after every entry, and every direct
  rule of the cycle enters the next nested mapping, to any depth.
  - `Context.extract_of_climbs`: a climb that is not too high leads to an open scope.
  - `Context.Open`: the invariant, kept by `Open.enter`.
  - `Entered`: nested mappings entered one after another along a chain.
  - `Tree.rules_ok`: a tree has a value only if each of its rules has one.
  - `circles_without_end`: all of it, for the cycles that the search reports.
-/

import Reshape.Proofs.Agreement
import Reshape.Proofs.Cycles
import Reshape.Proofs.PathForms

namespace Reshape

open References

/-! ## Climbing to an open scope -/

theorem Cursor.walk_parents (root : Value) (path : List String) {c : Context} {a : Nat}
    (h : a ≤ c.enclosing.length) : ∃ c' : Context, c'.scope ∈ c.scopes ∧
      walk root (.context c) (List.replicate a parentSegment ++ path) = walk root (.context c') path := by
  induction a generalizing c with
  | zero => exact ⟨c, List.mem_cons_self, rfl⟩
  | succ a ih =>
    obtain ⟨scope, enclosing⟩ := c
    cases enclosing with
    | nil => exact absurd h (Nat.not_succ_le_zero a)
    | cons outer enclosing =>
      obtain ⟨c', hscope, hwalk⟩ := ih (c := ⟨outer, enclosing⟩) (Nat.le_of_succ_le_succ h)
      refine ⟨c', List.mem_cons_of_mem _ hscope, ?_⟩
      rw [List.replicate_succ, List.cons_append, walk, step_parent]
      exact hwalk

theorem Cursor.walk_roots (root : Value) (b : Nat) (c : Context) : ∃ c' : Context,
    (c'.scope = c.scope ∨ c'.scope = root) ∧
      walk root (.context c) (List.replicate b rootSegment) = .ok (some (.context c')) := by
  induction b generalizing c with
  | zero => exact ⟨c, Or.inl rfl, rfl⟩
  | succ b ih =>
    obtain ⟨c', hscope, hwalk⟩ := ih (Context.top root)
    refine ⟨c', Or.inr (hscope.elim id id), ?_⟩
    rw [List.replicate_succ, walk, step_root]
    exact hwalk

namespace Context

/-- A path that only climbs leads to an open scope, if there are as many scopes around as it climbs. -/
theorem extract_of_climbs {c : Context} {path : List String} (h : Climbs path)
    (hhigh : path.count parentSegment ≤ c.enclosing.length) : ∃ v ∈ c.scopes, c.extract path = .ok (some v) := by
  obtain ⟨a, b, rfl⟩ := h
  have hne : rootSegment ≠ parentSegment := by decide
  have ha : a ≤ c.enclosing.length := by simpa [List.count_replicate, hne] using hhigh
  obtain ⟨up, hup, hclimb⟩ := Cursor.walk_parents c.root (List.replicate b rootSegment) ha
  obtain ⟨last, hlast, hroots⟩ := Cursor.walk_roots c.root b up
  refine ⟨last.scope, ?_, ?_⟩
  · rcases hlast with hlast | hlast
    · rwa [hlast]
    · rw [hlast]
      exact c.root_mem_scopes
  · unfold extract
    rw [hclimb, hroots]
    rfl

/-- There are `k` scopes around this one at least, and no open scope is null. -/
structure Open (k : Nat) (c : Context) : Prop where
  deep : k ≤ c.enclosing.length
  scopes : ∀ v ∈ c.scopes, v ≠ .null

theorem Open.enter {k : Nat} {c : Context} (h : c.Open k) {v : Value} (hv : v ≠ .null) : (c.enter v).Open k :=
  ⟨Nat.le_succ_of_le h.deep, List.forall_mem_cons.mpr ⟨hv, h.scopes⟩⟩

end Context

/-! ## Chains of nested mappings -/

namespace References

/-- `m` stands right after `n` in the chain. -/
def Follows (chain : List String) (n m : String) : Prop := (n, m) ∈ chain.zip chain.tail

/-- The rules that lead from `n` to `m` directly. -/
def directRules (nested : Nested) (n m : String) : List Rule :=
  ((nested.lookup n).toList.flatMap Tree.rules).filter fun r => isDirect r && r.target == m

/-- How many scopes a rule climbs that leads from one name of the chain to the next, at most. -/
def highestClimb (nested : Nested) (chain : List String) : Nat :=
  let rules := (chain.zip chain.tail).flatMap fun (n, m) => directRules nested n m
  (rules.map fun r => r.path.count parentSegment).max?.getD 0

variable {nested : Nested} {chain : List String} {n m : String}

theorem mem_directRules {r : Rule} : r ∈ directRules nested n m ↔
    ∃ t, nested.lookup n = some t ∧ r ∈ t.rules ∧ r.isNested = true ∧ r.isArray = false ∧ Climbs r.path ∧ r.target = m := by
  simp only [directRules, List.mem_filter, List.mem_flatMap, Option.mem_toList, isDirect, Bool.and_eq_true,
    Bool.not_eq_true', climbsOnly_iff, beq_iff_eq]
  constructor
  · intro h
    obtain ⟨⟨t, ht, hr⟩, ⟨⟨hnested, harray⟩, hclimbs⟩, htarget⟩ := h
    exact ⟨t, ht, hr, hnested, harray, hclimbs, htarget⟩
  · intro h
    obtain ⟨t, ht, hr, hnested, harray, hclimbs, htarget⟩ := h
    exact ⟨⟨t, ht, hr⟩, ⟨⟨hnested, harray⟩, hclimbs⟩, htarget⟩

theorem exists_directRule (h : Direct nested n m) : ∃ r, r ∈ directRules nested n m := by
  obtain ⟨t, ht, r, hr⟩ := h
  exact ⟨r, mem_directRules.mpr ⟨t, ht, hr⟩⟩

theorem le_highestClimb (h : Follows chain n m) {r : Rule} (hr : r ∈ directRules nested n m) :
    r.path.count parentSegment ≤ highestClimb nested chain :=
  List.le_max?_getD_of_mem (List.mem_map.mpr ⟨r, List.mem_flatMap.mpr ⟨(n, m), h, hr⟩, rfl⟩)

theorem Follows.mem_right (h : Follows chain n m) : m ∈ chain := List.mem_of_mem_tail (List.of_mem_zip h).2

theorem Follows.rel {R : String → String → Prop} (h : Follows chain n m) (hchain : chain.IsChain R) : R n m := by
  induction chain with
  | nil => cases h
  | cons a chain ih =>
    cases chain with
    | nil => cases h
    | cons b chain =>
      obtain ⟨hab, hchain⟩ := List.isChain_cons_cons.mp hchain
      rcases List.mem_cons.mp h with heq | h
      · cases heq
        exact hab
      · exact ih h hchain

/-- Before the last name of a chain every name has one that follows. -/
theorem exists_follows_of_mem_dropLast (h : n ∈ chain.dropLast) : ∃ m, Follows chain n m := by
  induction chain with
  | nil => cases h
  | cons a chain ih =>
    cases chain with
    | nil => cases h
    | cons b chain =>
      rcases List.mem_cons.mp h with rfl | h
      · exact ⟨b, List.mem_cons_self⟩
      · exact (ih h).imp fun m hm => List.mem_cons_of_mem _ hm

/-- In a cycle the last name is the first again. -/
theorem IsCycle.exists_follows {R : String → String → Prop} (h : IsCycle R chain) (hn : n ∈ chain) :
    ∃ m, Follows chain n m := by
  obtain ⟨h2, hclosed, -, -⟩ := h
  match chain, h2 with
  | a :: b :: rest, _ =>
    refine exists_follows_of_mem_dropLast ?_
    rcases List.mem_append.mp (List.dropLast_append_getLast? _ hclosed.symm ▸ hn) with hn | hn
    · exact hn
    · cases List.mem_singleton.mp hn
      exact List.mem_cons_self

/-- A reported chain goes on from each of its names, by direct rules. -/
theorem exists_next {start : Option (List String)} (hc : findCycle? nested start = some chain) (hn : n ∈ chain) :
    ∃ m, Follows chain n m ∧ ∃ r, r ∈ directRules nested n m := by
  have hcycle := ((findCycle?_exact nested start).2.1 chain hc).1
  obtain ⟨m, hm⟩ := hcycle.exists_follows hn
  exact ⟨m, hm, exists_directRule (hm.rel hcycle.chain)⟩

/-- Nested mappings are entered one after another along the chain, `k` of them, the first one by a rule of `n`
in the context `c`, and the last one is `m` in the context `c'`. Each time it is a direct rule that enters it,
and the value that the rule takes from the context is there and not null. -/
inductive Entered (nested : Nested) (chain : List String) (n : String) (c : Context) :
    Nat → String → Context → Prop where
  | start : Entered nested chain n c 0 n c
  | next {k : Nat} {m m' : String} {c' : Context} {r : Rule} {v : Value} : Entered nested chain n c k m c' →
      Follows chain m m' → r ∈ directRules nested m m' → c'.extract r.path = .ok (some v) → v ≠ .null →
      Entered nested chain n c (k + 1) m' (c'.enter v)

variable {c : Context}

/-- What no entry changes. -/
theorem Entered.kept {high k : Nat} {c' : Context} (h : Entered nested chain n c k m c') (hn : n ∈ chain)
    (hopen : c.Open high) : m ∈ chain ∧ c'.Open high := by
  induction h with
  | start => exact ⟨hn, hopen⟩
  | next _ hfollows _ _ hnull ih => exact ⟨hfollows.mem_right, ih.2.enter hnull⟩

theorem extract_of_directRule (hopen : c.Open (highestClimb nested chain)) (hfollows : Follows chain n m) {r : Rule}
    (hr : r ∈ directRules nested n m) : ∃ v, c.extract r.path = .ok (some v) ∧ v ≠ .null := by
  have hhigh := (le_highestClimb hfollows hr).trans hopen.deep
  obtain ⟨-, -, -, -, -, hclimbs, -⟩ := mem_directRules.mp hr
  obtain ⟨v, hv, hextract⟩ := c.extract_of_climbs hclimbs hhigh
  exact ⟨v, hextract, hopen.scopes v hv⟩

end References

/-! ## No value -/

theorem Tree.rules_ok {registry : Registry} {enter : String → Context → Run Value} {c : Context} {t : Tree} {v : Value}
    (h : (t.evaluate registry enter c).outcome = .ok v) {r : Rule} (hr : r ∈ t.rules) :
    ∃ w, (r.evaluate registry enter c).outcome = .ok w := by
  induction t using Tree.inductionOn generalizing v with
  | leaf rule =>
    cases List.mem_singleton.mp hr
    exact ⟨v, h⟩
  | list items ih =>
    obtain ⟨vs, hvs, -⟩ := Run.outcome_bind_eq_ok_iff.mp h
    obtain ⟨t, ht, hr⟩ := Tree.mem_rulesOfItems.mp hr
    obtain ⟨w, -, hw⟩ := exists_of_mem_left (Tree.evaluateItems_eq_ok_iff.mp hvs) ht
    exact ih t ht hw hr
  | dict entries ih =>
    obtain ⟨rs, hrs, -⟩ := Run.outcome_bind_eq_ok_iff.mp h
    obtain ⟨e, he, hr⟩ := Tree.mem_rulesOfEntries.mp hr
    obtain ⟨p, -, -, hp⟩ := exists_of_mem_left (Tree.evaluateEntries_eq_ok_iff.mp hrs) he
    exact ih e he hp hr

namespace References

variable {nested : Nested} {chain : List String}

theorem evaluate_of_directRule {registry : Registry} {enter : String → Context → Run Value} {c : Context} {n m : String}
    {r : Rule} (hr : r ∈ directRules nested n m) {v : Value} (hv : c.extract r.path = .ok (some v)) (hnull : v ≠ .null) :
    r.evaluate registry enter c = enter m (c.enter v) := by
  obtain ⟨-, -, -, hnested, harray, -, rfl⟩ := mem_directRules.mp hr
  rw [evaluateRule_of_value hv hnull, harray]
  exact Tree.resolve_of_isNested hnested v

variable {start : Option (List String)} {registry : Registry} {n : String} {c : Context}

/-- If entering the names of the cycle gives no value, then neither does evaluating the tree of one. -/
theorem evaluate_not_ok (hc : findCycle? nested start = some chain) {enter : String → Context → Run Value}
    (henter : ∀ m ∈ chain, ∀ c : Context, c.Open (highestClimb nested chain) → ∀ v, (enter m c).outcome ≠ .ok v)
    (hn : n ∈ chain) (hopen : c.Open (highestClimb nested chain)) {t : Tree} (ht : nested.lookup n = some t) (v : Value) :
    (t.evaluate registry enter c).outcome ≠ .ok v := by
  intro hok
  obtain ⟨m, hfollows, r, hr⟩ := exists_next hc hn
  obtain ⟨u, hu, hnull⟩ := extract_of_directRule hopen hfollows hr
  obtain ⟨t', ht', hrule, -⟩ := mem_directRules.mp hr
  cases ht.symm.trans ht'
  obtain ⟨w, hw⟩ := Tree.rules_ok hok hrule
  rw [evaluate_of_directRule hr hu hnull] at hw
  exact henter m hfollows.mem_right _ (hopen.enter hnull) w hw

theorem enterNested_not_ok (hc : findCycle? nested start = some chain) {depth : Nat} (hn : n ∈ chain)
    (hopen : c.Open (highestClimb nested chain)) (v : Value) :
    (enterNested registry nested depth n c).outcome ≠ .ok v := by
  induction depth generalizing n c v with
  | zero =>
    rw [enterNested]
    intro h
    split at h <;> cases h
  | succ depth ih =>
    rw [enterNested]
    split
    · intro h
      cases h
    · rename_i t ht
      exact evaluate_not_ok hc (fun m hm c hopen => ih hm hopen) hn hopen ht v

/-- A cycle that is reported does not end. From a context in which no open scope is null and with as many
scopes around as the rules of the cycle climb, nested mappings can be entered along the cycle as often as
one likes. Wherever that leads to, the cycle goes on from there, and every rule by which it does takes a
value that is not null and evaluates to the next nested mapping in the context of that value. So the tree
that the cycle starts with has no value in that context. -/
theorem circles_without_end (hc : findCycle? nested start = some chain)
    (hdeep : highestClimb nested chain ≤ c.enclosing.length) (hscopes : ∀ v ∈ c.scopes, v ≠ .null) :
    ∃ first t, chain.head? = some first ∧ nested.lookup first = some t ∧
      (∀ k, ∃ m c', Entered nested chain first c k m c') ∧
      (∀ k m c', Entered nested chain first c k m c' →
        ∃ m', Follows chain m m' ∧ (∃ r, r ∈ directRules nested m m') ∧
          ∀ m' r, Follows chain m m' → r ∈ directRules nested m m' → ∃ v, c'.extract r.path = .ok (some v) ∧ v ≠ .null ∧
            (∀ registry enter, r.evaluate registry enter c' = enter m' (c'.enter v)) ∧
            Entered nested chain first c (k + 1) m' (c'.enter v)) ∧
      ∀ registry depth v, (t.evaluate registry (enterNested registry nested depth) c).outcome ≠ .ok v := by
  obtain ⟨-, -, -, first, hfirst, -⟩ := (findCycle?_exact nested start).2.1 chain hc
  have hmem : first ∈ chain := List.mem_of_head? hfirst
  have hopen : c.Open (highestClimb nested chain) := ⟨hdeep, hscopes⟩
  obtain ⟨_, -, r, hr⟩ := exists_next hc hmem
  obtain ⟨t, ht, -⟩ := mem_directRules.mp hr
  have hgoes : ∀ k m c', Entered nested chain first c k m c' → ∀ m' r, Follows chain m m' →
      r ∈ directRules nested m m' → ∃ v, c'.extract r.path = .ok (some v) ∧ v ≠ .null ∧
        (∀ registry enter, r.evaluate registry enter c' = enter m' (c'.enter v)) ∧
        Entered nested chain first c (k + 1) m' (c'.enter v) := by
    intro k m c' hentered m' r hfollows hr
    obtain ⟨v, hv, hnull⟩ := extract_of_directRule (hentered.kept hmem hopen).2 hfollows hr
    exact ⟨v, hv, hnull, fun _ _ => evaluate_of_directRule hr hv hnull, hentered.next hfollows hr hv hnull⟩
  refine ⟨first, t, hfirst, ht, fun k => ?_, fun k m c' hentered => ?_, fun registry depth v => ?_⟩
  · induction k with
    | zero => exact ⟨first, c, .start⟩
    | succ k ih =>
      obtain ⟨m, c', hentered⟩ := ih
      obtain ⟨m', hfollows, r, hr⟩ := exists_next hc (hentered.kept hmem hopen).1
      obtain ⟨v, -, -, -, hnext⟩ := hgoes k m c' hentered m' r hfollows hr
      exact ⟨m', c'.enter v, hnext⟩
  · obtain ⟨m', hfollows, hrule⟩ := exists_next hc (hentered.kept hmem hopen).1
    exact ⟨m', hfollows, hrule, hgoes k m c' hentered⟩
  · exact evaluate_not_ok hc (fun m hm c hopen => enterNested_not_ok hc hm hopen) hmem hopen ht v

/-- Two nested mappings that lead to each other, over the enclosing scope of the enclosing scope and over the
input document. -/
def seesaw : Nested :=
  [("$up", .dict [("x", .leaf ⟨["x"], "int", false⟩), ("over", .leaf ⟨["$parent", "$parent", "$root"], "$down", false⟩)]),
    ("$down", .list [.leaf ⟨["$parent"], "$up", false⟩])]

def seesawContext : Context := ((Context.top (.str "data")).enter (.int 1)).enter (.int 2)

theorem findCycle?_seesaw : findCycle? seesaw none = some ["$up", "$down", "$up"] := by
  have hup : (directEdges seesaw).lookup "$up" = some ["$down"] := rfl
  have hdown : (directEdges seesaw).lookup "$down" = some ["$up"] := rfl
  have hback : visitAll (directEdges seesaw) ["$up", "$down"] [] ["$up"] = .error ["$up", "$down", "$up"] := by
    rw [visitAll, visit, dif_pos (by decide)]
    rfl
  have hbelow : visitAll (directEdges seesaw) ["$up"] [] ["$down"] = .error ["$up", "$down", "$up"] := by
    rw [visitAll, visit_of_targets (by decide) List.not_mem_nil hdown, List.singleton_append, hback]
    rfl
  have hvisit : visitAll (directEdges seesaw) [] [] ["$up", "$down"] = .error ["$up", "$down", "$up"] := by
    rw [visitAll, visit_of_targets List.not_mem_nil List.not_mem_nil hup, List.nil_append, hbelow]
    rfl
  have hstart : startNames seesaw none = ["$up", "$down"] := rfl
  rw [findCycle?, hstart, hvisit]

theorem a_seesaw_has_no_end : findCycle? seesaw none = some ["$up", "$down", "$up"] ∧
    highestClimb seesaw ["$up", "$down", "$up"] = 2 ∧
    ∃ t, seesaw.lookup "$up" = some t ∧
      (∀ k, ∃ m c, Entered seesaw ["$up", "$down", "$up"] "$up" seesawContext k m c) ∧
      ∀ registry depth v, (t.evaluate registry (enterNested registry seesaw depth) seesawContext).outcome ≠ .ok v := by
  have hhigh : highestClimb seesaw ["$up", "$down", "$up"] = 2 := by rfl
  have hscopes : ∀ v ∈ seesawContext.scopes, v ≠ .null := by
    simp [seesawContext, Context.scopes, Context.enter, Context.top]
  obtain ⟨first, t, hfirst, ht, hentered, -, hno⟩ :=
    circles_without_end findCycle?_seesaw (hhigh.le.trans (by decide)) hscopes
  cases hfirst
  exact ⟨findCycle?_seesaw, hhigh, t, ht, hentered, hno⟩

end References

end Reshape
