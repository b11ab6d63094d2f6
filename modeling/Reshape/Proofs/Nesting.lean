/-
  Reshape.Proofs.Nesting: how many nested mappings can be open inside each other.

  Rules may jump back up to an enclosing scope or the root as long as they leave for good: from where
  they lead nothing leads back. Among nested mappings that lead back to each other every rule must go
  down into the data. Then each entry loses something: a nested mapping that cannot come again, or
  height of the scope.
  - `potential_lt`: the number of entries that are still possible gets smaller with every entry.
  - `bounded_invariant`: so it bounds the depth that is left and the number of nested mappings open.
  - `nesting_bounded`: the evaluation of every finite input ends, with at most as many nested mappings
    open as there are reachable names times the height of the input and one.
-/

import Mathlib.Data.Set.Card
import Reshape.Proofs.Acceptance
import Reshape.Proofs.Runs

namespace Reshape

open Relation References

namespace Transformation

/-- The nested mappings that the properties can lead to. -/
def reach (t : Transformation) : Set String := {n | Reaches t.properties t.nested n}

/-- A rule of a reachable nested mapping that leads to one from which there is a way back goes down
into the data only. -/
def Descending (t : Transformation) : Prop :=
  ∀ n ∈ t.reach, ∀ u, t.nested.lookup n = some u → ∀ r ∈ u.rules, r.isNested = true →
    ReflTransGen (Refers t.nested) r.target n → rootSegment ∉ r.path ∧ parentSegment ∉ r.path

noncomputable def nestingBound (t : Transformation) (data : Value) : Nat :=
  t.reach.ncard * (data.height + 1)

/-- The nested mappings that `n` leads to without a way back. -/
def beyond (t : Transformation) (n : String) : Set String :=
  {m ∈ t.reach | ReflTransGen (Refers t.nested) n m ∧ ¬ ReflTransGen (Refers t.nested) m n}

/-- How many nested mappings can be open from `n` on, this one included, if it is entered in a scope. -/
noncomputable def potential (t : Transformation) (data : Value) (n : String) (scope : Value) : Nat :=
  (t.beyond n).ncard * (data.height + 1) + scope.height + 1

variable {t : Transformation} {data : Value}

/-! ## What an entry loses -/

theorem Linked.finite_reach (h : t.Linked) : t.reach.Finite := by
  obtain ⟨names, hnames⟩ := reachable_isOk fun _ => h.defined
  have hexact := reachable_exact t.properties t.nested
  rw [hnames] at hexact
  obtain ⟨-, hmem, -⟩ := hexact
  exact (List.finite_toSet names).subset fun n hn => (hmem n).mpr hn

theorem beyond_eq {n m : String} (hnm : Refers t.nested n m) (hback : ReflTransGen (Refers t.nested) m n) :
    t.beyond m = t.beyond n := by
  have hforth : ReflTransGen (Refers t.nested) n m := .single hnm
  ext k
  constructor
  · intro h
    obtain ⟨hk, hmk, hkm⟩ := h
    exact ⟨hk, hforth.trans hmk, fun hkn => hkm (hkn.trans hforth)⟩
  · intro h
    obtain ⟨hk, hnk, hkn⟩ := h
    exact ⟨hk, hback.trans hnk, fun hkm => hkn (hkm.trans hback)⟩

theorem ncard_beyond_lt (h : t.Linked) {n m : String} (hn : n ∈ t.reach) (hnm : Refers t.nested n m)
    (hback : ¬ ReflTransGen (Refers t.nested) m n) : (t.beyond m).ncard < (t.beyond n).ncard := by
  have hforth : ReflTransGen (Refers t.nested) n m := .single hnm
  refine Set.ncard_lt_ncard ⟨fun k hk => ?_, fun hsub => ?_⟩ (h.finite_reach.subset fun k hk => hk.1)
  · obtain ⟨hk, hmk, -⟩ := hk
    exact ⟨hk, hforth.trans hmk, fun hkn => hback (hmk.trans hkn)⟩
  · have hm : m ∈ t.beyond m := hsub ⟨Reaches.next hn hnm, hforth, hback⟩
    exact hm.2.2 .refl

theorem ncard_beyond_lt_reach (h : t.Linked) {n : String} (hn : n ∈ t.reach) :
    (t.beyond n).ncard < t.reach.ncard := by
  refine Set.ncard_lt_ncard ⟨fun k hk => hk.1, fun hsub => ?_⟩ h.finite_reach
  exact (hsub hn).2.2 .refl

/-- One name less makes up for any scope in the data. -/
theorem potential_le_mul {n : String} {scope : Value} {count : Nat} (hcount : (t.beyond n).ncard < count)
    (hscope : scope.height ≤ data.height) : t.potential data n scope ≤ count * (data.height + 1) := by
  have hmul := Nat.mul_le_mul_right (data.height + 1) (Nat.succ_le_of_lt hcount)
  rw [Nat.succ_mul] at hmul
  unfold potential
  omega

theorem potential_le (h : t.Linked) {n : String} {scope : Value} (hn : n ∈ t.reach)
    (hscope : scope.height ≤ data.height) : t.potential data n scope ≤ t.nestingBound data :=
  potential_le_mul (ncard_beyond_lt_reach h hn) hscope

/-- A rule that leads somewhere without a way back loses a name; any other one goes down. -/
theorem potential_lt (h : t.Linked) (hd : t.Descending) (hfinite : data.isFinite = true) {n : String}
    {u : Tree} {r : Rule} {c : Context} {w : Value} (hn : n ∈ t.reach) (hl : t.nested.lookup n = some u)
    (hr : r ∈ u.rules) (hnested : r.isNested = true) (hc : c.Within data) (hw : r.Yields c w) :
    t.potential data r.target w < t.potential data n c.scope := by
  have hrefers : Refers t.nested n r.target := ⟨u, hl, Tree.mem_references.mpr ⟨r, hr, hnested, rfl⟩⟩
  have hscope : c.scope.IsPart data := hc c.scope (List.mem_cons_self ..)
  -- Back and forth `beyond` is the same, so that only the height can get smaller.
  by_cases hback : ReflTransGen (Refers t.nested) r.target n
  · obtain ⟨hroot, hparent⟩ := hd n hn u hl r hr hnested hback
    have hdown := hw.descends (h.nested n u hl r hr).1 hroot hparent
    have hheight := Value.height_lt_of_transGen hdown (hscope.isFinite hfinite)
    unfold potential
    rw [beyond_eq hrefers hback]
    omega
  · have hmul := potential_le_mul (ncard_beyond_lt h hn hrefers hback) ((hw.isPart hc).height_le hfinite)
    unfold potential at hmul ⊢
    omega

/-! ## The invariant -/

/-- Where a nested mapping is entered, the depth that is left is enough, and together with those open
around it no more can come to be open than the bound allows. -/
structure Bounded (t : Transformation) (data : Value) (depth : Nat) (name : String) (c : Context) : Prop where
  reached : name ∈ t.reach
  within : c.Within data
  left : t.potential data name c.scope ≤ depth
  opened : c.enclosing.length + t.potential data name c.scope ≤ t.nestingBound data + 1

/-- Not too deep, and never more nested mappings open than the bound. -/
def Shallow (t : Transformation) (data : Value) (events : List Event) (fault? : Option EvaluationFault) : Prop :=
  fault? ≠ some .tooDeep ∧ ∀ name c, .entered name c ∈ events → c.enclosing.length ≤ t.nestingBound data

theorem composes_shallow : Composes (t.Shallow data) := by
  refine ⟨⟨nofun, nofun⟩, ?_⟩
  intro events events' fault? h hx
  obtain ⟨-, hevents⟩ := h
  obtain ⟨hfault, hevents'⟩ := hx
  refine ⟨hfault, fun name c hmem => ?_⟩
  rcases List.mem_append.mp hmem with hmem | hmem
  · exact hevents name c hmem
  · exact hevents' name c hmem

theorem Bounded.enter (h : t.Linked) (hd : t.Descending) (hfinite : data.isFinite = true) {depth : Nat}
    {name : String} {c : Context} {u : Tree} {r : Rule} {w : Value} (hJ : t.Bounded data (depth + 1) name c)
    (hl : t.nested.lookup name = some u) (hr : r ∈ u.rules) (hnested : r.isNested = true) (hw : r.Yields c w) :
    t.Bounded data depth r.target (c.enter w) := by
  have hlt := potential_lt h hd hfinite hJ.reached hl hr hnested hJ.within hw
  have hleft := hJ.left
  have hopened := hJ.opened
  refine ⟨?_, hJ.within.enter (hw.isPart hJ.within), ?_, ?_⟩
  · exact Reaches.next hJ.reached ⟨u, hl, Tree.mem_references.mpr ⟨r, hr, hnested, rfl⟩⟩
  · show t.potential data r.target w ≤ depth
    omega
  · show c.enclosing.length + 1 + t.potential data r.target w ≤ t.nestingBound data + 1
    omega

theorem bounded_invariant (h : t.Linked) (hd : t.Descending) (hfinite : data.isFinite = true)
    (registry : Registry) : Invariant registry t.nested (t.Bounded data) (t.Shallow data) where
  composes := composes_shallow
  called := fun _ _ => ⟨nofun, by simp⟩
  refused := fun _ _ _ _ _ _ => ⟨by simp, by simp⟩
  missing := fun _ _ => ⟨nofun, by simp⟩
  entered := by
    intro depth name c hJ
    refine ⟨nofun, fun name' c' hmem => ?_⟩
    cases List.mem_singleton.mp hmem
    have hopened := hJ.opened
    unfold potential at hopened
    omega
  defined := fun _ _ _ hJ => h.defined hJ.reached
  tooDeep := by
    intro name c hJ
    have hleft := hJ.left
    unfold potential at hleft
    omega
  rules := fun _ _ _ _ hJ hl _ hr =>
    ⟨fun _ _ => ⟨by simp, nofun⟩, fun hnested _ hw => hJ.enter h hd hfinite hl hr hnested hw⟩

/-- A first nested mapping is entered with all of the bound left. -/
theorem bounded_top (h : t.Linked) (hfinite : data.isFinite = true) {depth : Nat}
    (hdepth : t.nestingBound data ≤ depth) {r : Rule} (hr : r ∈ t.properties.rules) (hnested : r.isNested = true)
    {w : Value} (hw : r.Yields (Context.top data) w) :
    t.Bounded data depth r.target ((Context.top data).enter w) := by
  have hwithin := Context.within_top data
  have hreached : r.target ∈ t.reach := ⟨r.target, Tree.mem_references.mpr ⟨r, hr, hnested, rfl⟩, .refl⟩
  have hle := potential_le h hreached ((hw.isPart hwithin).height_le hfinite)
  refine ⟨hreached, hwithin.enter (hw.isPart hwithin), hle.trans hdepth, ?_⟩
  show 0 + 1 + t.potential data r.target w ≤ t.nestingBound data + 1
  omega

/-- If every way back goes down into the data, the evaluation of a finite input ends. To any depth from the
bound on the run is the same, and no more nested mappings are ever open than the bound. -/
theorem nesting_bounded {known : String → Bool} {document : Value} (hc : compile known document = .ok t)
    (hd : t.Descending) (hfinite : data.isFinite = true) (registry : Registry) :
    ∃ run, t.Ends registry data run ∧
      (∀ depth, t.nestingBound data ≤ depth → t.runWithin depth registry data = run) ∧
      ∀ name c, .entered name c ∈ run.events → c.enclosing.length ≤ t.nestingBound data := by
  have hlinked := linked_of_compile hc
  have hrun : (t.runWithin (t.nestingBound data) registry data).Satisfies (t.Shallow data) := by
    refine (bounded_invariant hlinked hd hfinite registry).runWithin fun r hr => ?_
    refine ⟨fun _ _ => ⟨by simp, nofun⟩, fun hnested w hw => ?_⟩
    exact bounded_top hlinked hfinite (Nat.le_refl _) hr hnested hw
  obtain ⟨hdeep, hevents⟩ := hrun
  have hends : (t.runWithin (t.nestingBound data) registry data).outcome ≠ .error .tooDeep := by
    intro hfault
    exact hdeep (by rw [Run.fault?, hfault])
  exact ⟨_, ⟨t.nestingBound data, rfl, hends⟩, fun depth hdepth => Ends.runWithin_eq hends hdepth, hevents⟩

theorem treeTransformation_descending : treeTransformation.Descending := by
  intro n _ u hl r hr _ _
  obtain ⟨k, hk⟩ := Entries.exists_mem_of_lookup hl
  cases List.mem_singleton.mp hk
  have hpath : r.path = ["name"] ∨ r.path = ["subs"] := by
    simp only [Tree.rules, Tree.rulesOfEntries, List.append_nil, List.singleton_append, List.mem_cons,
      List.not_mem_nil, or_false] at hr
    rcases hr with rfl | rfl <;> simp
  rcases hpath with hpath | hpath <;> rw [hpath] <;> decide

/-- A tree of two nodes. -/
def treeData : Value :=
  .dict [(.str "tree", .dict [(.str "name", .str "a"), (.str "subs", .list [.dict [(.str "name", .str "b")]])])]

theorem a_tree_is_read_to_its_end : treeTransformation.Descending ∧ treeData.isFinite = true ∧
    ∃ run, treeTransformation.Ends Registry.empty treeData run ∧
      ∀ name c, .entered name c ∈ run.events → c.enclosing.length ≤ treeTransformation.nestingBound treeData := by
  have hd := treeTransformation_descending
  have hfinite : treeData.isFinite = true := by decide
  obtain ⟨run, hends, -, hopen⟩ := nesting_bounded compile_treeDocument hd hfinite Registry.empty
  exact ⟨hd, hfinite, run, hends, hopen⟩

end Transformation

end Reshape
