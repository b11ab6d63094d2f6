/-
  Reshape.Proofs.Linking: from a description to linked mappings.

  A description has a mapping and nested mappings by name. It is acceptable if the names are those
  of nested mappings, every leaf is a rule text for these names and the known converters, and no
  chain of nested mappings that can be reached leads back to its start by direct references.
  - `named_explained`: what compiling the nested mappings says of the description.
  - `Named.hasLoop_iff`: the compiled mappings have a loop if and only if the pruned description has.
  - `link_explained`: compiled mappings are linked if and only if they have no loop.
  - `link_of_indirect`, `link_of_flat`: where there is none at a glance.
  - `linked_of_named`: the rules of linked mappings lead to nested mappings that are there.
-/

import Reshape.Proofs.Compilation
import Reshape.Proofs.Cycles
import Reshape.Proofs.Reachability
import Reshape.Transformation

namespace Reshape

open Relation References

/-! ## Descriptions -/

/-- What is described: the properties, and nested mappings under their keys. -/
structure Description where
  properties : Value
  nested : List (Key × Value)

namespace Description

def names (d : Description) : List String := d.nested.filterMap fun e => e.1.string?

/-- The keys, as texts, are names of nested mappings. -/
def WellNamed (d : Description) : Prop :=
  ∀ e ∈ d.nested, ∃ name, e.1.string? = some name ∧ isNestedName name = true ∧ name ≠ "$"

def leaves (d : Description) : List Value := d.properties.leaves ++ Value.leavesOfEntries d.nested

def pruned (d : Description) : Description := ⟨d.properties.pruned, Value.prunedEntries d.nested⟩

/-- The rule stands in the nested mapping `n`. -/
def HasRule (d : Description) (n : String) (r : Rule) : Prop :=
  ∃ e ∈ d.nested, e.1.string? = some n ∧ e.2.HasRule r

def Refers (d : Description) (n m : String) : Prop :=
  ∃ r, d.HasRule n r ∧ r.isNested = true ∧ r.target = m

/-- A rule of `n`, no array rule, leads to `m` by climbing only. -/
def Direct (d : Description) (n m : String) : Prop :=
  ∃ r, d.HasRule n r ∧ r.isNested = true ∧ r.isArray = false ∧ Climbs r.path ∧ r.target = m

def Reaches (d : Description) (n : String) : Prop :=
  ∃ r, d.properties.HasRule r ∧ r.isNested = true ∧ ReflTransGen d.Refers r.target n

/-- Direct references lead back to where they start, through nested mappings that can be reached. -/
def HasLoop (d : Description) : Prop :=
  ∃ n, TransGen (fun n m => d.Reaches n ∧ d.Reaches m ∧ d.Direct n m) n n

/-- The description is in order, where `counted` are the rules that count for loops. -/
structure Acceptable (known : String → Bool) (d counted : Description) : Prop where
  named : d.WellNamed
  rules : ∀ leaf ∈ d.leaves, leaf.IsRule d.names known
  ends : ¬ counted.HasLoop

end Description

/-! ## Nested mappings -/

/-- The nested mappings have been made from those that are described. -/
structure Named (known : String → Bool) (d : Description) (nested : Nested) : Prop where
  named : d.WellNamed
  leaves : ∀ leaf ∈ Value.leavesOfEntries d.nested, leaf.IsRule d.names known
  names : ∀ n, n ∈ Entries.keys nested ↔ n ∈ d.names
  rules : ∀ n r, (∃ t, nested.lookup n = some t ∧ r ∈ t.rules) ↔ d.pruned.HasRule n r
  targets : ∀ n t, nested.lookup n = some t → ∀ r ∈ t.rules,
    r.path ≠ [] ∧ Rule.TargetKnown (Entries.keys nested) known r.target

namespace Transformation

theorem nestedNames_explained (entries : List (Key × Value)) :
    match nestedNames entries with
    | .ok names => names = entries.filterMap (fun e => e.1.string?) ∧
        ∀ e ∈ entries, ∃ name ∈ names, e.1.string? = some name
    | .error _ => ∃ e ∈ entries, e.1.isWritable = false := by
  induction entries with
  | nil => simp [nestedNames]
  | cons e entries ih =>
    obtain ⟨k, v⟩ := e
    rw [nestedNames, keyName]
    cases hk : k.string? with
    | none =>
      refine ⟨(k, v), by simp, ?_⟩
      rw [Bool.eq_false_iff]
      intro hw
      obtain ⟨name, hname⟩ := Key.exists_string hw
      rw [hk] at hname
      cases hname
    | some name =>
      simp only [bind, Except.bind, pure, Except.pure]
      cases hn : nestedNames entries with
      | error fault =>
        rw [hn] at ih
        obtain ⟨e, he, hw⟩ := ih
        exact ⟨e, List.mem_cons_of_mem _ he, hw⟩
      | ok names =>
        rw [hn] at ih
        obtain ⟨heq, hall⟩ := ih
        refine ⟨by simp [hk, heq], fun e he => ?_⟩
        rcases List.mem_cons.mp he with rfl | he
        · exact ⟨name, by simp, hk⟩
        · obtain ⟨m, hm, hem⟩ := hall e he
          exact ⟨m, List.mem_cons_of_mem _ hm, hem⟩

theorem isValidNestedName_iff {name : String} :
    isValidNestedName name = true ↔ isNestedName name = true ∧ name ≠ "$" := by
  simp [isValidNestedName]

/-- The table of the trees has the names, rules and targets that are described. -/
theorem named_of_forall₂ {known : String → Bool} {d : Description} {ts : List (String × Tree)}
    (hnamed : d.WellNamed)
    (h : List.Forall₂ (FaithfulEntry d.names known) d.nested ts) :
    Named known d (Entries.ofList ts) := by
  have hnodup := Entries.nodup_keys_ofList ts
  have hnames : ∀ n, n ∈ Entries.keys (Entries.ofList ts) ↔ n ∈ d.names := by
    intro n
    rw [Entries.mem_keys, Description.names, List.mem_filterMap]
    simp only [Entries.mem_ofList, ← Entries.mem_keys, Entries.mem_keys_latest]
    constructor
    · intro hn
      obtain ⟨t, ht⟩ := Entries.mem_keys.mp hn
      obtain ⟨e, he, hname, -⟩ := exists_of_mem_right h ht
      exact ⟨e, he, hname⟩
    · intro hx
      obtain ⟨e, he, hname⟩ := hx
      obtain ⟨p, hp, hname', -⟩ := exists_of_mem_left h he
      rw [hname] at hname'
      cases hname'
      exact Entries.mem_keys.mpr ⟨p.2, hp⟩
  refine ⟨hnamed, fun leaf hleaf => ?_, hnames, fun n r => ?_, fun n t hl r hr => ?_⟩
  · obtain ⟨e, he, hleaf⟩ := Value.mem_leavesOfEntries.mp hleaf
    obtain ⟨p, -, -, hfaithful⟩ := exists_of_mem_left h he
    exact hfaithful.leaves leaf hleaf
  · have hlatest := forall₂_latest h
    simp only [Entries.lookup_eq_some_iff hnodup, Entries.mem_ofList]
    constructor
    · intro hx
      obtain ⟨t, ht, hr⟩ := hx
      obtain ⟨e, he, hname, hrules⟩ := exists_of_mem_right hlatest ht
      exact ⟨e, he, hname, (hrules r).mp hr⟩
    · intro hx
      obtain ⟨e, he, hname, hr⟩ := hx
      obtain ⟨p, hp, hname', hrules⟩ := exists_of_mem_left hlatest he
      rw [hname] at hname'
      cases hname'
      exact ⟨p.2, hp, (hrules r).mpr hr⟩
  · rw [Entries.lookup_eq_some_iff hnodup, Entries.mem_ofList] at hl
    obtain ⟨e, -, -, hfaithful⟩ := exists_of_mem_right h (Entries.mem_of_mem_latest hl)
    obtain ⟨hpath, htarget⟩ := hfaithful.targets r hr
    exact ⟨hpath, (Rule.targetKnown_congr hnames).mpr htarget⟩

theorem named_explained (known : String → Bool) (d : Description) :
    match compileNamed known d.nested with
    | .ok nested => Named known d nested
    | .error fault => (∀ e ∈ d.nested, e.1.isWritable = true) → (∀ e ∈ d.nested, e.2.KeysWritable) →
        (∀ counted, ¬ d.Acceptable known counted) ∧
          (fault.isDefect = true ∨ fault = .endless ∧ ∃ e ∈ d.nested, e.2.isFinite = false) := by
  have hnames := nestedNames_explained d.nested
  unfold compileNamed
  cases hn : nestedNames d.nested with
  | error fault =>
    rw [hn] at hnames
    obtain ⟨e, he, hw⟩ := hnames
    intro hkeys
    rw [hkeys e he] at hw
    cases hw
  | ok names =>
    rw [hn] at hnames
    obtain ⟨heq, hall⟩ := hnames
    simp only [bind, Except.bind, pure, Except.pure]
    cases hf : names.find? (!isValidNestedName ·) with
    | some name =>
      intro _ _
      refine ⟨fun counted hacc => ?_, Or.inl rfl⟩
      have hbad := List.find?_some hf
      have hmem := List.mem_of_find?_eq_some hf
      rw [heq, List.mem_filterMap] at hmem
      obtain ⟨e, he, hname⟩ := hmem
      obtain ⟨name', hname', hvalid⟩ := hacc.named e he
      rw [hname] at hname'
      cases hname'
      simp [isValidNestedName_iff.mpr hvalid] at hbad
    | none =>
      have hvalid : ∀ n ∈ names, isNestedName n = true ∧ n ≠ "$" := by
        intro n hmem
        have := List.find?_eq_none.mp hf n hmem
        exact isValidNestedName_iff.mp (by simpa using this)
      have hentries : EntriesExplained names known d.nested _ :=
        compileEntries_explained (fun e _ place => compile_explained e.2 place) [.key "nested"]
      cases hc : Tree.compileEntries names known [.key "nested"] d.nested with
      | ok ts =>
        rw [hc] at hentries
        rw [heq] at hentries
        refine named_of_forall₂ (fun e he => ?_) hentries
        obtain ⟨name, hmem, hname⟩ := hall e he
        exact ⟨name, hname, hvalid name hmem⟩
      | error fault =>
        rw [hc] at hentries
        intro hkeys hvalues
        obtain ⟨e, he, ⟨leaf, hleaf, hrule⟩, hdefect⟩ := hentries hkeys hvalues
        refine ⟨fun counted hacc => hrule ?_, hdefect.imp_right fun ⟨hfault, hfinite⟩ => ⟨hfault, e, he, hfinite⟩⟩
        rw [heq]
        exact hacc.rules leaf (List.mem_append_right _ (Value.mem_leavesOfEntries.mpr ⟨e, he, hleaf⟩))

end Transformation

/-! ## Graphs of trees and of descriptions -/

namespace References

variable {properties : Tree} {nested : Nested} {n m : String}

theorem Direct.refers (h : Direct nested n m) : Refers nested n m := by
  obtain ⟨t, hl, r, hr, hn, -, -, hm⟩ := h
  exact ⟨t, hl, Tree.mem_references.mpr ⟨r, hr, hn, hm⟩⟩

theorem Reaches.of_direct (h : Reaches properties nested n) (hnm : ReflTransGen (Direct nested) n m) :
    Reaches properties nested m := by
  induction hnm with
  | refl => exact h
  | tail _ hkm ih => exact ih.next hkm.refers

/-- A reachable nested mapping leads back to itself by direct references. -/
def HasLoop (properties : Tree) (nested : Nested) : Prop :=
  ∃ n, Reaches properties nested n ∧ TransGen (Direct nested) n n

end References

section
variable {known : String → Bool} {d : Description} {properties : Tree} {nested : Nested}

theorem Named.exists_rule (h : Named known d nested) {Q : Rule → Prop} {n : String} :
    (∃ t, nested.lookup n = some t ∧ ∃ r ∈ t.rules, Q r) ↔ ∃ r, d.pruned.HasRule n r ∧ Q r := by
  constructor
  · intro hx
    obtain ⟨t, hl, r, hr, hq⟩ := hx
    exact ⟨r, (h.rules n r).mp ⟨t, hl, hr⟩, hq⟩
  · intro hx
    obtain ⟨r, hr, hq⟩ := hx
    obtain ⟨t, hl, hr⟩ := (h.rules n r).mpr hr
    exact ⟨t, hl, r, hr, hq⟩

theorem Named.isRule_iff (h : Named known d nested) {leaf : Value} :
    leaf.IsRule (Entries.keys nested) known ↔ leaf.IsRule d.names known := by
  simp only [Value.IsRule, Rule.isRuleText_congr h.names]

theorem Named.refers_eq (h : Named known d nested) : References.Refers nested = d.pruned.Refers := by
  funext n m
  simp only [References.Refers, Tree.mem_references, Description.Refers, h.exists_rule]

theorem Named.direct_eq (h : Named known d nested) : References.Direct nested = d.pruned.Direct := by
  funext n m
  simp only [References.Direct, Description.Direct, h.exists_rule]

theorem Named.reaches_iff (h : Named known d nested)
    (hp : ∀ r, r ∈ properties.rules ↔ d.pruned.properties.HasRule r) {n : String} :
    References.Reaches properties nested n ↔ d.pruned.Reaches n := by
  unfold References.Reaches Description.Reaches
  rw [h.refers_eq]
  constructor
  · intro hx
    obtain ⟨m, hm, hmn⟩ := hx
    obtain ⟨r, hr, hn, rfl⟩ := Tree.mem_references.mp hm
    exact ⟨r, (hp r).mp hr, hn, hmn⟩
  · intro hx
    obtain ⟨r, hr, hn, hrn⟩ := hx
    exact ⟨r.target, Tree.mem_references.mpr ⟨r, (hp r).mpr hr, hn, rfl⟩, hrn⟩

/-- What can be reached stays within reach, so that a loop needs one name that can be. -/
theorem Named.hasLoop_iff (h : Named known d nested)
    (hp : ∀ r, r ∈ properties.rules ↔ d.pruned.properties.HasRule r) :
    References.HasLoop properties nested ↔ d.pruned.HasLoop := by
  unfold References.HasLoop Description.HasLoop
  simp only [← h.direct_eq, ← h.reaches_iff hp]
  constructor
  · intro hx
    obtain ⟨n, hn, hloop⟩ := hx
    have hall : ∀ m, TransGen (References.Direct nested) n m →
        TransGen (fun n m => References.Reaches properties nested n ∧ References.Reaches properties nested m ∧
          References.Direct nested n m) n m := by
      intro m hm
      induction hm with
      | single hm => exact .single ⟨hn, hn.of_direct (.single hm), hm⟩
      | tail hk hm ih =>
        have hk := hn.of_direct hk.to_reflTransGen
        exact ih.tail ⟨hk, hk.of_direct (.single hm), hm⟩
    exact ⟨n, hall n hloop⟩
  · intro hx
    obtain ⟨n, hloop⟩ := hx
    obtain ⟨m, ⟨hn, -⟩, -⟩ := TransGen.head'_iff.mp hloop
    exact ⟨n, hn, hloop.lift id fun _ _ h => h.2.2⟩

end

/-! ## Linking -/

namespace Transformation

theorem link_explained {properties : Tree} {nested : Nested}
    (h : ∀ n, Reaches properties nested n → ∃ t, nested.lookup n = some t) :
    match link properties nested with
    | .ok t => t = ⟨properties, nested⟩ ∧ ¬ References.HasLoop properties nested
    | .error fault => References.HasLoop properties nested ∧ fault.isDefect = true := by
  obtain ⟨names, hnames⟩ := reachable_isOk h
  have hexact := reachable_exact properties nested
  rw [hnames] at hexact
  obtain ⟨-, hmem, -⟩ := hexact
  have hcycle := explained_findCycle? nested (some names)
  unfold link
  rw [hnames]
  dsimp only
  cases hf : findCycle? nested (some names) with
  | none =>
    rw [hf] at hcycle
    refine ⟨rfl, ?_⟩
    intro hx
    obtain ⟨n, hn, hloop⟩ := hx
    exact hcycle n ((hmem n).mpr hn) n .refl hloop
  | some cycle =>
    rw [hf] at hcycle
    obtain ⟨hcycle, s, hs, n, hhead, hsn⟩ := hcycle
    exact ⟨⟨n, ((hmem s).mp hs).of_direct hsn, hcycle.transGen hhead⟩, rfl⟩

/-- Where all references lead somewhere and none of them is direct, there is no loop to be found. -/
theorem link_of_indirect (t : Transformation)
    (hdefined : ∀ n ∈ t.properties.references ++ t.nested.flatMap fun e => e.2.references,
      (t.nested.lookup n).isSome = true)
    (hindirect : ∀ e ∈ directEdges t.nested, e.2 = []) : link t.properties t.nested = .ok t := by
  have hreached : ∀ n, Reaches t.properties t.nested n → ∃ u, t.nested.lookup n = some u := by
    intro n hn
    obtain ⟨m, hm, hmn⟩ := hn
    refine Option.isSome_iff_exists.mp ?_
    induction hmn with
    | refl => exact hdefined m (List.mem_append_left _ hm)
    | tail _ hkn =>
      obtain ⟨u, hl, hn⟩ := hkn
      obtain ⟨k, hk⟩ := Entries.exists_mem_of_lookup hl
      exact hdefined _ (List.mem_append_right _ (List.mem_flatMap.mpr ⟨_, hk, hn⟩))
  obtain ⟨names, hnames⟩ := reachable_isOk hreached
  rw [link, hnames]
  dsimp only
  rw [findCycle?_of_indirect hindirect]

/-- Properties that refer to no nested mapping are linked with any. -/
theorem link_of_flat (t : Transformation) (h : t.properties.references = []) :
    link t.properties t.nested = .ok t := by
  have hnone : discover t.nested [] [] t.properties.references = .ok ([], []) := by
    rw [h]
    rfl
  have hreach : reachable t.properties t.nested = .ok [] := by rw [reachable, explore_of_ok hnone, explore_nil]
  have hcycle : findCycle? t.nested (some []) = none := by rw [findCycle?, startNames, visitAll]
  rw [link, hreach]
  dsimp only
  rw [hcycle]

/-- The rules of a transformation take some segment, and lead to nested mappings that are there. -/
structure Linked (t : Transformation) : Prop where
  properties : ∀ r ∈ t.properties.rules,
    r.path ≠ [] ∧ (r.isNested = true → ∃ u, t.nested.lookup r.target = some u)
  nested : ∀ n u, t.nested.lookup n = some u → ∀ r ∈ u.rules,
    r.path ≠ [] ∧ (r.isNested = true → ∃ w, t.nested.lookup r.target = some w)

theorem Linked.defined {t : Transformation} (h : t.Linked) {n : String}
    (hn : Reaches t.properties t.nested n) : ∃ u, t.nested.lookup n = some u := by
  obtain ⟨m, hm, hmn⟩ := hn
  induction hmn with
  | refl =>
    obtain ⟨r, hr, hnested, rfl⟩ := Tree.mem_references.mp hm
    exact (h.properties r hr).2 hnested
  | tail _ hkn =>
    obtain ⟨u, hl, hn⟩ := hkn
    obtain ⟨r, hr, hnested, rfl⟩ := Tree.mem_references.mp hn
    exact (h.nested _ u hl r hr).2 hnested

theorem linked_of_named {known : String → Bool} {d : Description} {properties : Tree} {nested : Nested}
    (hnamed : Named known d nested)
    (hproperties : Faithful (Entries.keys nested) known d.properties properties) :
    Linked ⟨properties, nested⟩ := by
  have hthere : ∀ r : Rule, Rule.TargetKnown (Entries.keys nested) known r.target →
      r.isNested = true → ∃ u, nested.lookup r.target = some u := by
    intro r hr hn
    have hn : isNestedName r.target = true := hn
    rw [Rule.TargetKnown, if_pos hn, Entries.mem_keys] at hr
    obtain ⟨u, hu⟩ := hr
    exact Entries.exists_lookup_of_mem hu
  refine ⟨fun r hr => ?_, fun n u hl r hr => ?_⟩
  · exact (hproperties.targets r hr).imp_right (hthere r)
  · exact (hnamed.targets n u hl r hr).imp_right (hthere r)

end Transformation

end Reshape
