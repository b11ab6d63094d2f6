/-
  Reshape.Proofs.Cycles: the search for cycles is exact.

  The search walks a graph of names depth first. It keeps the names above the one it visits on a
  path and, over all starts, the names it has finished with.
  - `visitAll_explained`: a visit that gives finished names has found no cycle, and none can be
    reached from any name that is finished; one that gives a cycle has followed edges to it, and
    the part of the path that it reports is closed by the last edge.
  - `edge_directEdges`: the edges that are searched are the direct references, rules that are no
    array rules and whose path climbs by `$parent`s and then goes to the root by `$root`s.
  - `findCycle?_exact`: the answer is none if and only if no cycle of direct references can be
    reached from a start, and a reported chain is such a cycle. So the order of the starts and
    of the nested mappings is no matter.
-/

import Mathlib.Data.List.Chain
import Mathlib.Data.List.TakeWhile
import Reshape.References

namespace Reshape.References

open Relation

/-! ## Cycles in a graph of names -/

/-- A chain with at least one step that ends where it starts and passes no other name twice. -/
structure IsCycle (R : String → String → Prop) (names : List String) : Prop where
  two_le : 2 ≤ names.length
  closed : names.head? = names.getLast?
  distinct : names.dropLast.Nodup
  chain : names.IsChain R

/-- No cycle can be reached from a name. -/
def Safe (R : String → String → Prop) (n : String) : Prop :=
  ∀ m, ReflTransGen R n m → ¬ TransGen R m m

theorem safe_of_forall {R : String → String → Prop} {n : String} (h : ∀ m, R n m → Safe R m) :
    Safe R n := by
  intro m hnm hmm
  rcases hnm.cases_head with rfl | ⟨k, hnk, hkm⟩
  · obtain ⟨k, hnk, hkn⟩ := TransGen.head'_iff.mp hmm
    exact h k hnk n hkn hmm
  · exact h k hnk m hkm hmm

theorem transGen_of_isChain {R : String → String → Prop} {n m : String} {names : List String}
    (hne : names ≠ []) (h : (n :: names).IsChain R) (hm : (n :: names).getLast? = some m) :
    TransGen R n m := by
  induction names generalizing n with
  | nil => exact absurd rfl hne
  | cons k names ih =>
    obtain ⟨hnk, hk⟩ := List.isChain_cons_cons.mp h
    rw [List.getLast?_cons_cons] at hm
    by_cases e : names = []
    · subst e
      cases hm
      exact .single hnk
    · exact .head hnk (ih e hk hm)

theorem reflTransGen_of_isChain {R : String → String → Prop} {n m : String} {names : List String}
    (h : (n :: names).IsChain R) (hm : m ∈ n :: names) : ReflTransGen R n m := by
  induction names generalizing n with
  | nil =>
    cases List.mem_singleton.mp hm
    exact .refl
  | cons k names ih =>
    obtain ⟨hnk, hk⟩ := List.isChain_cons_cons.mp h
    rcases List.mem_cons.mp hm with rfl | hm
    · exact .refl
    · exact .head hnk (ih hk hm)

theorem IsCycle.transGen {R : String → String → Prop} {names : List String} {n : String}
    (h : IsCycle R names) (hn : names.head? = some n) : TransGen R n n := by
  obtain ⟨h2, hclosed, -, hchain⟩ := h
  match names, h2 with
  | a :: b :: rest, _ =>
    cases hn
    exact transGen_of_isChain (by simp) hchain hclosed.symm

/-- A path that is about to come back to one of its names holds a cycle, from that name on. -/
theorem isCycle_of_mem {R : String → String → Prop} {path : List String} {name : String}
    (hmem : name ∈ path) (hnodup : path.Nodup) (hchain : (path ++ [name]).IsChain R) :
    IsCycle R (path.drop (path.idxOf name) ++ [name]) ∧
      (path.drop (path.idxOf name) ++ [name]).head? = some name := by
  obtain ⟨before, after, rfl, hbefore⟩ := List.eq_append_cons_of_mem hmem
  have hdrop : (before ++ name :: after).drop ((before ++ name :: after).idxOf name) = name :: after := by
    rw [List.idxOf_append_of_notMem hbefore]
    simp
  rw [hdrop]
  refine ⟨⟨by simp, ?_, ?_, ?_⟩, rfl⟩
  · rw [List.getLast?_append]
    rfl
  · rw [List.dropLast_concat]
    exact (List.nodup_append.mp hnodup).2.1
  · rw [List.append_assoc] at hchain
    exact hchain.right_of_append

/-! ## What a visit finds -/

variable {edges : List (String × List String)}

/-- `m` stands among the targets of `n`. -/
def Edge (edges : List (String × List String)) (n m : String) : Prop :=
  ∃ targets, edges.lookup n = some targets ∧ m ∈ targets

/-- What the result of visiting `names` below `path` says: no cycle can be reached from the names
that are finished, given that this holds of those that were finished before; or what is reported
is a cycle that can be reached from one of the names, given that the path has led to them. -/
def Explained (edges : List (String × List String)) (path finished names : List String) :
    Except (List String) (List String) → Prop
  | .ok finished' => (∀ n ∈ finished, Safe (Edge edges) n) →
      (∀ n ∈ finished, n ∈ finished') ∧ (∀ n ∈ names, n ∈ finished') ∧
        ∀ n ∈ finished', Safe (Edge edges) n
  | .error cycle => path.Nodup → (∀ n ∈ names, (path ++ [n]).IsChain (Edge edges)) →
      IsCycle (Edge edges) cycle ∧
        ∃ n ∈ names, ∃ m, cycle.head? = some m ∧ ReflTransGen (Edge edges) n m

theorem explained_of_mem_path {path : List String} (finished : List String) {name : String}
    (h : name ∈ path) :
    Explained edges path finished [name] (.error (path.drop (path.idxOf name) ++ [name])) := by
  intro hnodup hchain
  obtain ⟨hcycle, hhead⟩ := isCycle_of_mem h hnodup (hchain name (by simp))
  exact ⟨hcycle, name, by simp, name, hhead, .refl⟩

theorem explained_of_mem_finished (path : List String) {finished : List String} {name : String}
    (h : name ∈ finished) : Explained edges path finished [name] (.ok finished) := by
  intro hsafe
  exact ⟨fun _ => id, by simpa using h, hsafe⟩

/-- A name is finished after its targets. -/
theorem explained_finish {path finished finished' : List String} {name : String} {targets : List String}
    (ht : ∀ m, Edge edges name m → m ∈ targets)
    (h : Explained edges (path ++ [name]) finished targets (.ok finished')) :
    Explained edges path finished [name] (.ok (finished' ++ [name])) := by
  intro hsafe
  obtain ⟨hold, hnew, hsafe'⟩ := h hsafe
  refine ⟨fun n hn => List.mem_append_left _ (hold n hn), by simp, fun n hn => ?_⟩
  rcases List.mem_append.mp hn with hn | hn
  · exact hsafe' n hn
  · rw [List.mem_singleton] at hn
    subst hn
    exact safe_of_forall fun m hm => hsafe' m (hnew m (ht m hm))

/-- A cycle found below a name is one that can be reached from it. -/
theorem explained_below {path finished cycle : List String} {name : String} {targets : List String}
    (hp : name ∉ path) (ht : ∀ m ∈ targets, Edge edges name m)
    (h : Explained edges (path ++ [name]) finished targets (.error cycle)) :
    Explained edges path finished [name] (.error cycle) := by
  intro hnodup hchain
  have hnodup' : (path ++ [name]).Nodup := by
    rw [List.nodup_append]
    refine ⟨hnodup, by simp, fun n hn m hm => ?_⟩
    rw [List.mem_singleton] at hm
    subst hm
    exact fun e => hp (e ▸ hn)
  have hchain' : ∀ m ∈ targets, (path ++ [name] ++ [m]).IsChain (Edge edges) := by
    intro m hm
    rw [List.isChain_append]
    refine ⟨hchain name (by simp), by simp, fun a ha b hb => ?_⟩
    simp only [List.getLast?_concat, Option.mem_some_iff] at ha
    simp only [List.head?_cons, Option.mem_some_iff] at hb
    subst ha hb
    exact ht _ hm
  obtain ⟨hcycle, n, hn, m, hm, hnm⟩ := h hnodup' hchain'
  exact ⟨hcycle, name, by simp, m, hm, .head (ht n hn) hnm⟩

theorem explained_next {path finished finished' names : List String} {name : String}
    {result : Except (List String) (List String)}
    (hname : Explained edges path finished [name] (.ok finished'))
    (hnames : Explained edges path finished' names result) :
    Explained edges path finished (name :: names) result := by
  cases result with
  | ok finished'' =>
    intro hsafe
    obtain ⟨hold, hnew, hsafe'⟩ := hname hsafe
    obtain ⟨hold', hnew', hsafe''⟩ := hnames hsafe'
    refine ⟨fun n hn => hold' n (hold n hn), fun n hn => ?_, hsafe''⟩
    rcases List.mem_cons.mp hn with rfl | hn
    · exact hold' n (hnew n (by simp))
    · exact hnew' n hn
  | error cycle =>
    intro hnodup hchain
    obtain ⟨hcycle, n, hn, hreach⟩ := hnames hnodup fun n hn => hchain n (List.mem_cons_of_mem _ hn)
    exact ⟨hcycle, n, List.mem_cons_of_mem _ hn, hreach⟩

theorem explained_stop {path finished cycle names : List String} {name : String}
    (hname : Explained edges path finished [name] (.error cycle)) :
    Explained edges path finished (name :: names) (.error cycle) := by
  intro hnodup hchain
  obtain ⟨hcycle, n, hn, hreach⟩ := hname hnodup fun n hn => hchain n (by simp_all)
  exact ⟨hcycle, n, by simp_all, hreach⟩

/-- A name without targets is finished at once. -/
theorem visit_of_undefined {path finished : List String} {name : String} (hp : name ∉ path) (hf : name ∉ finished)
    (hl : edges.lookup name = none) : visit edges path finished name = .ok (finished ++ [name]) := by
  rw [visit, dif_neg hp, if_neg hf]
  split
  · rfl
  · rename_i h; rw [hl] at h; cases h

/-- A name is finished when its targets are, unless one of them leads to a cycle. -/
theorem visit_of_targets {path finished targets : List String} {name : String} (hp : name ∉ path)
    (hf : name ∉ finished) (hl : edges.lookup name = some targets) :
    visit edges path finished name = (visitAll edges (path ++ [name]) finished targets).map (· ++ [name]) := by
  rw [visit, dif_neg hp, if_neg hf]
  split
  · rename_i h; rw [hl] at h; cases h
  · rename_i h; rw [hl] at h; cases h
    cases visitAll edges (path ++ [name]) finished targets <;> rfl

/-- One case for each way in which a visit goes on: back on the path, finished before, without
targets, after its targets, and out of a cycle below it. -/
theorem visitAll_explained (path finished names : List String) :
    Explained edges path finished names (visitAll edges path finished names) := by
  refine (visit.mutual_induct edges
    (fun path finished name => Explained edges path finished [name] (visit edges path finished name))
    (fun path finished names => Explained edges path finished names (visitAll edges path finished names))
    ?back ?before ?undefined ?finish ?below ?nil ?next ?stop).2 path finished names
  case back =>
    intro path finished name hp
    rw [visit, dif_pos hp]
    exact explained_of_mem_path finished hp
  case before =>
    intro path finished name hp hf
    rw [visit, dif_neg hp, if_pos hf]
    exact explained_of_mem_finished path hf
  case undefined =>
    intro path finished name hp hf hl
    rw [visit_of_undefined hp hf hl]
    have hnone : ∀ m, Edge edges name m → m ∈ [] := by
      intro m hx
      obtain ⟨targets, ht, -⟩ := hx
      rw [hl] at ht
      cases ht
    exact explained_finish hnone fun hsafe => ⟨fun _ => id, by simp, hsafe⟩
  case finish =>
    intro path finished name hp hf targets hl finished' hall ih
    rw [visit_of_targets hp hf hl, hall]
    rw [hall] at ih
    refine explained_finish ?_ ih
    intro m hx
    obtain ⟨targets', ht, hm⟩ := hx
    rw [hl] at ht
    cases ht
    exact hm
  case below =>
    intro path finished name hp hf targets hl cycle hall ih
    rw [visit_of_targets hp hf hl, hall]
    rw [hall] at ih
    exact explained_below hp (fun m hm => ⟨targets, hl, hm⟩) ih
  case nil =>
    intro path finished
    rw [visitAll]
    exact fun hsafe => ⟨fun _ => id, by simp, hsafe⟩
  case next =>
    intro path finished name names finished' hv hname hnames
    rw [visitAll, hv]
    rw [hv] at hname
    exact explained_next hname hnames
  case stop =>
    intro path finished name names cycle hv hname
    rw [visitAll, hv]
    rw [hv] at hname
    exact explained_stop hname

/-! ## Direct references -/

/-- A path of `$parent`s followed by `$root`s, possibly none of either. -/
def Climbs (path : List String) : Prop :=
  ∃ a b, path = List.replicate a parentSegment ++ List.replicate b rootSegment

/-- The nested mapping `n` has a rule, no array rule, that leads to `m` by climbing only. -/
def Direct (nested : Nested) (n m : String) : Prop :=
  ∃ t, nested.lookup n = some t ∧
    ∃ r ∈ t.rules, r.isNested = true ∧ r.isArray = false ∧ Climbs r.path ∧ r.target = m

theorem climbsOnly_iff (path : List String) : climbsOnly path = true ↔ Climbs path := by
  constructor
  · intro h
    refine ⟨(path.takeWhile (· = parentSegment)).length, (path.dropWhile (· = parentSegment)).length, ?_⟩
    have hp : path.takeWhile (· = parentSegment) =
        List.replicate (path.takeWhile (· = parentSegment)).length parentSegment :=
      List.eq_replicate_iff.mpr ⟨rfl, fun s hs => by simpa using List.mem_takeWhile_imp hs⟩
    have hr : path.dropWhile (· = parentSegment) =
        List.replicate (path.dropWhile (· = parentSegment)).length rootSegment :=
      List.eq_replicate_iff.mpr ⟨rfl, fun s hs => by simpa using List.all_eq_true.mp h s hs⟩
    rw [← hp, ← hr, List.takeWhile_append_dropWhile]
  · intro hx
    obtain ⟨a, b, rfl⟩ := hx
    have hne : rootSegment ≠ parentSegment := by decide
    have hdrop : (List.replicate b rootSegment).dropWhile (· = parentSegment) =
        List.replicate b rootSegment := by
      cases b <;> simp [List.replicate_succ, hne]
    unfold climbsOnly
    rw [List.dropWhile_append_of_pos (by simp), hdrop]
    simp

theorem mem_directTargets (t : Tree) (m : String) : m ∈ directTargets t ↔
    ∃ r ∈ t.rules, r.isNested = true ∧ r.isArray = false ∧ Climbs r.path ∧ r.target = m := by
  simp only [directTargets, List.mem_map, List.mem_filter, isDirect, Bool.and_eq_true,
    Bool.not_eq_true', climbsOnly_iff, and_assoc]

theorem lookup_directEdges (nested : Nested) (n : String) :
    (directEdges nested).lookup n = (nested.lookup n).map directTargets := by
  induction nested with
  | nil => rfl
  | cons e nested ih =>
    obtain ⟨name, t⟩ := e
    simp only [directEdges, List.map_cons, List.lookup_cons]
    split
    · rfl
    · exact ih

/-- What is searched are the direct references. -/
theorem edge_directEdges (nested : Nested) : Edge (directEdges nested) = Direct nested := by
  funext n m
  simp only [Edge, Direct, lookup_directEdges, Option.map_eq_some_iff, exists_exists_and_eq_and,
    mem_directTargets]

theorem explained_findCycle? (nested : Nested) (start : Option (List String)) :
    match findCycle? nested start with
    | none => ∀ s ∈ startNames nested start, Safe (Direct nested) s
    | some cycle => IsCycle (Direct nested) cycle ∧
        ∃ s ∈ startNames nested start, ∃ n, cycle.head? = some n ∧ ReflTransGen (Direct nested) s n := by
  have h : Explained (directEdges nested) [] [] (startNames nested start) _ := visitAll_explained _ _ _
  unfold findCycle?
  cases hv : visitAll (directEdges nested) [] [] (startNames nested start) with
  | ok finished =>
    rw [hv] at h
    obtain ⟨-, hfinished, hsafe⟩ := h (by simp)
    rw [edge_directEdges] at hsafe
    exact fun s hs => hsafe s (hfinished s hs)
  | error cycle =>
    rw [hv] at h
    have := h List.nodup_nil (by simp)
    rwa [edge_directEdges] at this

theorem findCycle?_eq_none_iff (nested : Nested) (start : Option (List String)) :
    findCycle? nested start = none ↔ ∀ s ∈ startNames nested start, Safe (Direct nested) s := by
  have h := explained_findCycle? nested start
  cases hf : findCycle? nested start with
  | none =>
    rw [hf] at h
    exact ⟨fun _ => h, fun _ => rfl⟩
  | some cycle =>
    rw [hf] at h
    obtain ⟨hcycle, s, hs, n, hn, hsn⟩ := h
    exact ⟨nofun, fun hsafe => absurd (hcycle.transGen hn) (hsafe s hs n hsn)⟩

/-- Nothing leads back to its start where nothing is referred to directly. -/
theorem findCycle?_of_indirect {nested : Nested} (h : ∀ e ∈ directEdges nested, e.2 = [])
    (start : Option (List String)) : findCycle? nested start = none := by
  have hno : ∀ n m, ¬ Direct nested n m := by
    intro n m hnm
    rw [← edge_directEdges] at hnm
    obtain ⟨targets, hl, hm⟩ := hnm
    obtain ⟨k, hk⟩ := Entries.exists_mem_of_lookup hl
    obtain rfl : targets = [] := h _ hk
    cases hm
  refine (findCycle?_eq_none_iff nested start).mpr fun s _ m _ hmm => ?_
  obtain ⟨n, hmn, -⟩ := TransGen.head'_iff.mp hmm
  exact hno m n hmn

theorem direct_perm {nested nested' : Nested} (hp : nested.Perm nested')
    (hnodup : (Entries.keys nested).Nodup) : Direct nested = Direct nested' := by
  funext n m
  simp only [Direct, Entries.lookup_perm hp hnodup]

/-- The search is exact. It reports nothing if and only if no cycle of direct references can be
reached from a start by direct references, and otherwise such a cycle: whether it does depends on
neither the order nor the repetition of the starts, nor on the order of the nested mappings. -/
theorem findCycle?_exact (nested : Nested) (start : Option (List String)) :
    (findCycle? nested start = none ↔
      ¬ ∃ s ∈ startNames nested start, ∃ n, ReflTransGen (Direct nested) s n ∧ TransGen (Direct nested) n n) ∧
    (∀ cycle, findCycle? nested start = some cycle → IsCycle (Direct nested) cycle ∧
      ∃ s ∈ startNames nested start, ∃ n, cycle.head? = some n ∧ ReflTransGen (Direct nested) s n) ∧
    (∀ nested' start', (Entries.keys nested).Nodup → nested.Perm nested' →
      (∀ n, n ∈ startNames nested start ↔ n ∈ startNames nested' start') →
      (findCycle? nested start = none ↔ findCycle? nested' start' = none)) := by
  refine ⟨?_, ?_, ?_⟩
  · rw [findCycle?_eq_none_iff]
    constructor
    · intro hsafe hx
      obtain ⟨s, hs, n, hsn, hnn⟩ := hx
      exact hsafe s hs n hsn hnn
    · intro hno s hs n hsn hnn
      exact hno ⟨s, hs, n, hsn, hnn⟩
  · intro cycle hc
    have h := explained_findCycle? nested start
    rwa [hc] at h
  · intro nested' start' hnodup hp hstart
    rw [findCycle?_eq_none_iff, findCycle?_eq_none_iff, direct_perm hp hnodup]
    exact forall_congr' fun s => by rw [hstart s]

end Reshape.References
