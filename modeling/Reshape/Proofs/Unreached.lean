/-
  Reshape.Proofs.Unreached: nested mappings that cannot be reached are no matter.

  What evaluating `properties` can lead to is found name after name, each referred to by `properties` or by
  a nested mapping that was found before it. Nothing else is ever looked at, neither by the search for
  cycles nor by an evaluation, so that other nested mappings can be put in the place of those that are not
  reached, or be left out or added.
  - `inTurn_explore`: in which order names are found.
  - `SameReached`: two tables that agree on what can be reached from `properties`.
  - `reachable_congr`, `findCycle?_congr`, `link_congr`: the searches take the same way in both.
  - `runWithin_congr`: so does an evaluation.
  - `Description.ReadAs`: what is read from a description, before its mappings are linked.
  - `only_reached_counts`: all of it, for compiled mappings and for documents.
-/

import Reshape.Proofs.Faults
import Reshape.Proofs.Rendering

namespace Reshape

open Relation

/-! ## The order of discovery -/

namespace References

variable {properties : Tree} {nested nested' : Nested}

/-- The names come one after another, each referred to by `properties` or by one before it. -/
inductive InTurn (properties : Tree) (nested : Nested) : List String → Prop where
  | nil : InTurn properties nested []
  | snoc {names : List String} {n : String} : InTurn properties nested names →
      (n ∈ properties.references ∨ ∃ m ∈ names, Refers nested m n) → InTurn properties nested (names ++ [n])

/-- The tree is `properties`, or that of a name that is found. -/
def IsSource (properties : Tree) (nested : Nested) (found : List String) (t : Tree) : Prop :=
  t = properties ∨ ∃ m ∈ found, nested.lookup m = some t

theorem IsSource.mono {found found' : List String} (hsub : ∀ n ∈ found, n ∈ found') {t : Tree}
    (h : IsSource properties nested found t) : IsSource properties nested found' t :=
  h.imp_right fun ⟨m, hm, hl⟩ => ⟨m, hsub m hm, hl⟩

theorem IsSource.refers {found : List String} {t : Tree} (h : IsSource properties nested found t) {n : String}
    (hn : n ∈ t.references) : n ∈ properties.references ∨ ∃ m ∈ found, Refers nested m n := by
  rcases h with rfl | ⟨m, hm, hl⟩
  · exact Or.inl hn
  · exact Or.inr ⟨m, hm, t, hl, hn⟩

theorem inTurn_discover {found found' : List String} {pending pending' : List Tree} {names : List String}
    (hd : discover nested found pending names = .ok (found', pending')) (hturn : InTurn properties nested found)
    (hpending : ∀ t ∈ pending, IsSource properties nested found t)
    (hnames : ∀ n ∈ names, n ∈ properties.references ∨ ∃ m ∈ found, Refers nested m n) :
    InTurn properties nested found' ∧ ∀ t ∈ pending', IsSource properties nested found' t := by
  induction names generalizing found pending with
  | nil =>
    cases hd
    exact ⟨hturn, hpending⟩
  | cons name names ih =>
    obtain ⟨hname, hnames⟩ := List.forall_mem_cons.mp hnames
    rw [discover] at hd
    split at hd
    · exact ih hd hturn hpending hnames
    · split at hd
      · cases hd
      · rename_i t hl
        have hsub : ∀ n ∈ found, n ∈ found ++ [name] := fun n hn => List.mem_append_left _ hn
        refine ih hd (hturn.snoc hname) (fun u hu => ?_) fun n hn => ?_
        · rcases List.mem_cons.mp hu with rfl | hu
          · exact Or.inr ⟨name, by simp, hl⟩
          · exact (hpending u hu).mono hsub
        · rcases hnames n hn with hn | ⟨m, hm, hmn⟩
          · exact Or.inl hn
          · exact Or.inr ⟨m, hsub m hm, hmn⟩

theorem inTurn_explore {found names : List String} {pending : List Tree}
    (h : explore nested found pending = .ok names) (hturn : InTurn properties nested found)
    (hpending : ∀ t ∈ pending, IsSource properties nested found t) : InTurn properties nested names := by
  induction found, pending using explore.induct nested with
  | case1 found =>
    rw [explore] at h
    cases h
    exact hturn
  | case2 found t pending found' pending' hd ih =>
    rw [explore_of_ok hd] at h
    obtain ⟨ht, hrest⟩ := List.forall_mem_cons.mp hpending
    obtain ⟨hturn', hpending'⟩ := inTurn_discover hd hturn hrest fun n hn => ht.refers hn
    exact ih h hturn' hpending'
  | case3 found t pending name hd =>
    rw [explore_of_error hd] at h
    cases h

theorem inTurn_reachable {names : List String} (h : reachable properties nested = .ok names) :
    InTurn properties nested names := by
  refine inTurn_explore h .nil fun t ht => ?_
  exact Or.inl (List.mem_singleton.mp ht)

/-! ## Tables that agree on what can be reached -/

/-- What can be reached from `properties` in `nested` stands in `nested'` as well, and is the same. -/
def SameReached (properties : Tree) (nested nested' : Nested) : Prop :=
  ∀ n, Reaches properties nested n → nested'.lookup n = nested.lookup n

theorem discover_congr (found : List String) (pending : List Tree) {names : List String}
    (h : ∀ n ∈ names, nested'.lookup n = nested.lookup n) :
    discover nested' found pending names = discover nested found pending names := by
  induction names generalizing found pending with
  | nil => rfl
  | cons name names ih =>
    obtain ⟨hname, hnames⟩ := List.forall_mem_cons.mp h
    rw [discover, discover, hname]
    simp only [ih _ _ hnames]

theorem explore_congr {found : List String} {pending : List Tree} (h : SameReached properties nested nested')
    (hs : Searching properties nested found pending) :
    explore nested' found pending = explore nested found pending := by
  induction found, pending using explore.induct nested with
  | case1 found => rw [explore, explore]
  | case2 found t pending found' pending' hd ih =>
    have hd' := discover_congr found pending
      fun n hn => h n (hs.pendingReached t (by simp) n hn)
    rw [explore_of_ok hd, explore_of_ok (hd'.trans hd)]
    exact ih (searching_round hs (discover_ok hd))
  | case3 found t pending name hd =>
    have hd' := discover_congr found pending
      fun n hn => h n (hs.pendingReached t (by simp) n hn)
    rw [explore_of_error hd, explore_of_error (hd'.trans hd)]

theorem reachable_congr (h : SameReached properties nested nested') :
    reachable properties nested' = reachable properties nested := explore_congr h searching_init

/-! ## The search for cycles -/

variable {edges edges' : List (String × List String)}

/-- A visit goes along the edges only. -/
theorem visitAll_congr {path finished names : List String}
    (h : ∀ n ∈ names, ∀ m, ReflTransGen (Edge edges) n m → edges'.lookup m = edges.lookup m) :
    visitAll edges' path finished names = visitAll edges path finished names := by
  refine (visit.mutual_induct edges
    (fun path finished name => (∀ m, ReflTransGen (Edge edges) name m → edges'.lookup m = edges.lookup m) →
      visit edges' path finished name = visit edges path finished name)
    (fun path finished names => (∀ n ∈ names, ∀ m, ReflTransGen (Edge edges) n m → edges'.lookup m = edges.lookup m) →
      visitAll edges' path finished names = visitAll edges path finished names)
    ?back ?before ?undefined ?finish ?below ?nil ?next ?stop).2 path finished names h
  case back =>
    intro path finished name hp _
    rw [visit, visit, dif_pos hp, dif_pos hp]
  case before =>
    intro path finished name hp hf _
    rw [visit, visit, dif_neg hp, dif_neg hp, if_pos hf, if_pos hf]
  case undefined =>
    intro path finished name hp hf hl h
    rw [visit_of_undefined hp hf hl, visit_of_undefined hp hf ((h name .refl).trans hl)]
  case finish =>
    intro path finished name hp hf targets hl _ _ ih h
    rw [visit_of_targets hp hf hl, visit_of_targets hp hf ((h name .refl).trans hl),
      ih fun n hn m hnm => h m (.head ⟨targets, hl, hn⟩ hnm)]
  case below =>
    intro path finished name hp hf targets hl _ _ ih h
    rw [visit_of_targets hp hf hl, visit_of_targets hp hf ((h name .refl).trans hl),
      ih fun n hn m hnm => h m (.head ⟨targets, hl, hn⟩ hnm)]
  case nil =>
    intro path finished _
    rw [visitAll, visitAll]
  case next =>
    intro path finished name names finished' hv hname hnames h
    obtain ⟨h, hrest⟩ := List.forall_mem_cons.mp h
    rw [visitAll, visitAll, hname h, hv]
    exact hnames hrest
  case stop =>
    intro path finished name names cycle hv hname h
    rw [visitAll, visitAll, hname (List.forall_mem_cons.mp h).1, hv]

/-- From what can be reached the search finds the same cycle, or none. -/
theorem findCycle?_congr (h : SameReached properties nested nested') {names : List String}
    (hnames : ∀ n ∈ names, Reaches properties nested n) :
    findCycle? nested' (some names) = findCycle? nested (some names) := by
  have hvisit : visitAll (directEdges nested') [] [] names = visitAll (directEdges nested) [] [] names := by
    refine visitAll_congr fun n hn m hnm => ?_
    rw [edge_directEdges] at hnm
    rw [lookup_directEdges, lookup_directEdges, h m ((hnames n hn).of_direct hnm)]
  unfold findCycle? startNames
  rw [hvisit]

end References

open References

/-! ## Evaluation -/

section
variable {properties : Tree} {nested nested' : Nested}

theorem sequential_eq : Sequential fun _ r r' => r = r' := by
  refine ⟨fun _ => rfl, ?_⟩
  intro α β r r' f f' hr hf
  rw [hr, funext hf]

/-- Resolving goes by the name of the nested mapping only. -/
theorem resolve_congr {registry : Registry} {enter enter' : String → Context → Run Value} {c : Context} {r : Rule}
    (h : r.isNested = true → ∀ c, enter' r.target c = enter r.target c) (w : Value) :
    resolve registry enter' c r.target w = resolve registry enter c r.target w := by
  unfold resolve
  split
  · rename_i hn
    exact h hn _
  · rfl

theorem evaluate_congr (registry : Registry) {enter enter' : String → Context → Run Value} {t : Tree}
    (h : ∀ n ∈ t.references, ∀ c, enter' n c = enter n c) (c : Context) :
    t.evaluate registry enter' c = t.evaluate registry enter c := by
  refine sequential_eq.evaluate registry registry enter' enter fun r hr => ?_
  refine sequential_eq.evaluateRule registry registry enter' enter (fun _ _ => rfl) fun w _ => ?_
  exact resolve_congr (fun hn => h r.target (Tree.mem_references.mpr ⟨r, hr, hn, rfl⟩)) w

/-- One entry after another: each leads to what can be reached again. -/
theorem enterNested_congr (h : SameReached properties nested nested') (registry : Registry) (depth : Nat) {n : String}
    (hn : Reaches properties nested n) (c : Context) :
    enterNested registry nested' depth n c = enterNested registry nested depth n c := by
  induction depth generalizing n c with
  | zero => rw [enterNested, enterNested, h n hn]
  | succ depth ih =>
    rw [enterNested, enterNested, h n hn]
    cases hl : nested.lookup n with
    | none => rfl
    | some t =>
      have htree := evaluate_congr registry (t := t) (fun m hm => ih (hn.next ⟨t, hl, hm⟩)) c
      simp only [htree]

theorem runWithin_congr (h : SameReached properties nested nested') (depth : Nat) (registry : Registry) (data : Value) :
    Transformation.runWithin depth ⟨properties, nested'⟩ registry data =
      Transformation.runWithin depth ⟨properties, nested⟩ registry data :=
  evaluate_congr registry (fun n hn => enterNested_congr h registry depth ⟨n, hn, .refl⟩) _

end

/-! ## Documents -/

theorem Rule.TargetKnown.of_subset {names names' : List String} {known : String → Bool} {target : String}
    (hsub : ∀ n ∈ names, n ∈ names') (h : TargetKnown names known target) : TargetKnown names' known target := by
  unfold TargetKnown at h ⊢
  split at h
  · rename_i hn
    rw [if_pos hn]
    exact hsub _ h
  · rename_i hn
    rwa [if_neg hn]

/-- Which nested names are known decides whether a tree is read, and not which one. -/
theorem Tree.ReadFrom.unique {names names' : List String} {known : String → Bool} {v : Value} {t t' : Tree}
    (h : t.ReadFrom names known v) (h' : t'.ReadFrom names' known v) : t = t' := by
  have hall : t.ReadFrom (names ++ names') known v :=
    h.mono fun _ => Rule.TargetKnown.of_subset fun _ hn => List.mem_append_left _ hn
  have hall' : t'.ReadFrom (names ++ names') known v :=
    h'.mono fun _ => Rule.TargetKnown.of_subset fun _ hn => List.mem_append_right _ hn
  have hc := (Tree.compile_eq_ok_iff v [] t).mpr hall
  rw [(Tree.compile_eq_ok_iff v [] t').mpr hall'] at hc
  exact (Except.ok.inj hc).symm

theorem eq_of_forall₂_readFrom {names names' : List String} {known : String → Bool} {vs : List Value}
    {ts ts' : List Tree} (h : List.Forall₂ (fun v t => t.ReadFrom names known v) vs ts)
    (h' : List.Forall₂ (fun v t => t.ReadFrom names' known v) vs ts') : ts = ts' := by
  induction h generalizing ts' with
  | nil =>
    cases h'
    rfl
  | cons ht _ ih =>
    cases h' with
    | cons ht' hts' => rw [ht.unique ht', ih hts']

/-- Of entries and trees side by side, those under one name are side by side. -/
theorem forall₂_under {R : Value → Tree → Prop} {entries : List (Key × Value)} {ts : List (String × Tree)}
    (hnames : KeyNames entries ts) (h : List.Forall₂ (fun e p => R e.2 p.2) entries ts) (n : String) :
    List.Forall₂ R ((entries.filter fun e => e.1.string? = some n).map Prod.snd)
      ((ts.filter fun p => p.1 == n).map Prod.snd) := by
  induction h with
  | nil => exact .nil
  | @cons e p entries ts hep _ ih =>
    cases hnames with
    | cons hname hnames =>
      have hrest := ih hnames
      by_cases hn : p.1 = n
      · rw [List.filter_cons_of_pos (by simp [hname, hn]), List.filter_cons_of_pos (by simp [hn])]
        exact .cons hep hrest
      · rwa [List.filter_cons_of_neg (by simp [hname, hn]), List.filter_cons_of_neg (by simp [hn])]

namespace Description

variable {known : String → Bool} {d d' : Description} {t t' : Transformation}

/-- What stands under the keys with this text, one after another. -/
def under (d : Description) (n : String) : List Value :=
  (d.nested.filter fun e => e.1.string? = some n).map Prod.snd

/-- Every name of a nested mapping and every rule is in order, and these trees are read. -/
structure ReadAs (known : String → Bool) (d : Description) (t : Transformation) : Prop where
  nested : Transformation.compileNamed known d.nested = .ok t.nested
  properties : t.properties.ReadFrom (Entries.keys t.nested) known d.properties

theorem ReadAs.lookup_eq (h : d.ReadAs known t) (h' : d'.ReadAs known t') {n : String} (hn : d.under n = d'.under n) :
    t'.nested.lookup n = t.nested.lookup n := by
  obtain ⟨ts, hts, hnested⟩ := Transformation.compileNamed_eq_ok_iff.mp h.nested
  obtain ⟨ts', hts', hnested'⟩ := Transformation.compileNamed_eq_ok_iff.mp h'.nested
  have hunder := forall₂_under hts.names hts.trees n
  have hunder' := forall₂_under hts'.names hts'.trees n
  have hsame : d.under n = d'.under n := hn
  unfold under at hsame
  rw [← hsame] at hunder'
  rw [hnested, hnested', Entries.lookup_ofList, Entries.lookup_ofList, ← List.getLast?_map, ← List.getLast?_map,
    eq_of_forall₂_readFrom hunder hunder']

theorem ReadAs.properties_eq (h : d.ReadAs known t) (h' : d'.ReadAs known t') (hp : d.properties = d'.properties) :
    t'.properties = t.properties := by
  have hread := h.properties
  rw [hp] at hread
  exact h'.properties.unique hread

end Description

namespace Transformation

variable {known : String → Bool} {properties : Tree} {nested nested' : Nested}

theorem compile_of_readAs {document : Value} {d : Description} {t : Transformation} (hd : document.Describes d)
    (h : d.ReadAs known t) : compile known document = link t.properties t.nested := by
  rw [compile_of_describes known hd, h.nested]
  simp only [bind, Except.bind]
  rw [(Tree.compile_eq_ok_iff d.properties [.key "properties"] t.properties).mpr h.properties]

/-- Mappings that agree on what can be reached are linked alike, or fail with the same cycle. -/
theorem link_congr (h : SameReached properties nested nested') :
    link properties nested' = (link properties nested).map fun t => { t with nested := nested' } := by
  have hexact := reachable_exact properties nested
  unfold link
  rw [reachable_congr h]
  cases hr : reachable properties nested with
  | error name => rfl
  | ok names =>
    rw [hr] at hexact
    obtain ⟨-, hmem, -⟩ := hexact
    dsimp only
    rw [findCycle?_congr h fun n hn => (hmem n).mp hn]
    cases findCycle? nested (some names) <;> rfl

theorem link_eq_error_iff (h : SameReached properties nested nested') {fault : CompileFault} :
    link properties nested' = .error fault ↔ link properties nested = .error fault := by
  rw [link_congr h]
  cases link properties nested <;> simp [Except.map]

theorem link_eq_ok_iff (h : SameReached properties nested nested') :
    link properties nested' = .ok ⟨properties, nested'⟩ ↔ link properties nested = .ok ⟨properties, nested⟩ := by
  rw [link_congr h]
  cases hl : link properties nested with
  | error fault => simp [Except.map]
  | ok t => simp [Except.map, eq_of_link hl]

/-- The search finds what can be reached, one after another, or a name that can be reached and is not
there. Nested mappings that cannot be reached are no matter to it, nor to the search for cycles and to
evaluation; and a document in which others stand in their place, all of them in order, is accepted or
refused as before and does the same. -/
theorem only_reached_counts (properties : Tree) (nested : Nested) :
    ((∀ n, Reaches properties nested n → n ∈ Entries.keys nested) →
      ∃ names, reachable properties nested = .ok names ∧ names.Nodup ∧
        (∀ n, n ∈ names ↔ Reaches properties nested n) ∧ InTurn properties nested names) ∧
    (∀ n, Reaches properties nested n → n ∉ Entries.keys nested →
      ∃ m, reachable properties nested = .error m ∧ Reaches properties nested m ∧ m ∉ Entries.keys nested) ∧
    (∀ nested', SameReached properties nested nested' →
      reachable properties nested' = reachable properties nested ∧
      (∀ names, reachable properties nested = .ok names →
        findCycle? nested' (some names) = findCycle? nested (some names)) ∧
      ∀ depth registry data,
        runWithin depth ⟨properties, nested'⟩ registry data = runWithin depth ⟨properties, nested⟩ registry data) ∧
    ∀ known document document' d d' t', document.Describes d → document'.Describes d' →
      d.properties = d'.properties → d.ReadAs known ⟨properties, nested⟩ → d'.ReadAs known t' →
      (∀ n, Reaches properties nested n → d.under n = d'.under n) →
      (∀ fault, compile known document' = .error fault ↔ compile known document = .error fault) ∧
      (compile known document' = .ok t' ↔ compile known document = .ok ⟨properties, nested⟩) ∧
      ∀ depth registry data,
        runWithin depth t' registry data = runWithin depth ⟨properties, nested⟩ registry data := by
  have hexact := reachable_exact properties nested
  refine ⟨fun hall => ?_, fun n hn hno => ?_, fun nested' h => ⟨reachable_congr h, fun names hnames => ?_, ?_⟩, ?_⟩
  · obtain ⟨names, hnames⟩ := reachable_isOk fun n hn => Entries.exists_lookup_of_mem_keys (hall n hn)
    rw [hnames] at hexact
    obtain ⟨hnodup, hmem, -⟩ := hexact
    exact ⟨names, hnames, hnodup, hmem, inTurn_reachable hnames⟩
  · cases hr : reachable properties nested with
    | ok names =>
      rw [hr] at hexact
      obtain ⟨-, hmem, hdefined⟩ := hexact
      obtain ⟨t, ht⟩ := hdefined n ((hmem n).mpr hn)
      exact absurd (Entries.mem_keys_of_lookup ht) hno
    | error m =>
      rw [hr] at hexact
      refine ⟨m, rfl, hexact.1, fun hm => ?_⟩
      obtain ⟨t, ht⟩ := Entries.exists_lookup_of_mem_keys hm
      rw [hexact.2] at ht
      cases ht
  · rw [hnames] at hexact
    exact findCycle?_congr h fun n hn => (hexact.2.1 n).mp hn
  · exact fun depth registry data => runWithin_congr h depth registry data
  · intro known document document' d d' t' hd hd' hp hread hread' hunder
    have hproperties := hread.properties_eq hread' hp
    have hsame : SameReached properties nested t'.nested := fun n hn => hread.lookup_eq hread' (hunder n hn)
    obtain ⟨properties', nested'⟩ := t'
    cases hproperties
    rw [compile_of_readAs hd hread, compile_of_readAs hd' hread']
    exact ⟨fun _ => link_eq_error_iff hsame, link_eq_ok_iff hsame,
      fun depth registry data => runWithin_congr hsame depth registry data⟩

/-- A nested mapping that nothing refers to, and that leads back to itself on the same data. -/
def idle : Description :=
  ⟨.str "a:$x", [(.str "$x", .str "b:int"), (.str "$y", .str "$parent:$y")]⟩

/-- Another one in its place, and one more before it. -/
def busy : Description :=
  ⟨.str "a:$x", [(.str "$w", .str "c:$x"), (.str "$x", .str "b:int"), (.str "$y", .list [.str "d:$w[]"])]⟩

def idleTransformation : Transformation :=
  ⟨.leaf ⟨["a"], "$x", false⟩, [("$x", .leaf ⟨["b"], "int", false⟩), ("$y", .leaf ⟨["$parent"], "$y", false⟩)]⟩

def busyTransformation : Transformation :=
  ⟨.leaf ⟨["a"], "$x", false⟩, [("$w", .leaf ⟨["c"], "$x", false⟩), ("$x", .leaf ⟨["b"], "int", false⟩),
    ("$y", .list [.leaf ⟨["d"], "$w", true⟩])]⟩

theorem idle_readAs : idle.ReadAs integers.has idleTransformation :=
  ⟨rfl, (Tree.compile_eq_ok_iff _ [] _).mp rfl⟩

theorem busy_readAs : busy.ReadAs integers.has busyTransformation :=
  ⟨rfl, (Tree.compile_eq_ok_iff _ [] _).mp rfl⟩

theorem reachable_idle : reachable idleTransformation.properties idleTransformation.nested = .ok ["$x"] := by
  have hfound : discover idleTransformation.nested [] [] idleTransformation.properties.references =
      .ok (["$x"], [.leaf ⟨["b"], "int", false⟩]) := rfl
  have hnone : discover idleTransformation.nested ["$x"] [] (Tree.leaf ⟨["b"], "int", false⟩).references =
      .ok (["$x"], []) := rfl
  rw [reachable, explore_of_ok hfound, explore_of_ok hnone, explore_nil]

theorem compile_idle : compile integers.has idle.document = .ok idleTransformation := by
  have htargets : (directEdges idleTransformation.nested).lookup "$x" = some [] := rfl
  have hcycle : findCycle? idleTransformation.nested (some ["$x"]) = none := by
    rw [findCycle?, startNames, visitAll, visit_of_targets List.not_mem_nil List.not_mem_nil htargets, visitAll]
    dsimp only [Except.map]
    rw [visitAll]
  have hlink : link idleTransformation.properties idleTransformation.nested = .ok idleTransformation := by
    rw [link, reachable_idle]
    dsimp only
    rw [hcycle]
  exact hlink

theorem under_eq_of_reaches {n : String}
    (hn : Reaches idleTransformation.properties idleTransformation.nested n) : idle.under n = busy.under n := by
  have hexact := reachable_exact idleTransformation.properties idleTransformation.nested
  rw [reachable_idle] at hexact
  cases List.mem_singleton.mp ((hexact.2.1 n).mpr hn)
  rfl

theorem an_unreached_loop_is_no_matter : compile integers.has idle.document = .ok idleTransformation ∧
    compile integers.has busy.document = .ok busyTransformation ∧ ∀ depth registry data,
      busyTransformation.runWithin depth registry data = idleTransformation.runWithin depth registry data := by
  have hidle : idle.properties ≠ .null := by simp [idle]
  have hbusy : busy.properties ≠ .null := by simp [busy]
  obtain ⟨-, -, -, hdocuments⟩ := only_reached_counts idleTransformation.properties idleTransformation.nested
  obtain ⟨-, hok, hruns⟩ := hdocuments integers.has _ _ idle busy busyTransformation
    (Description.describes_document hidle) (Description.describes_document hbusy) rfl idle_readAs busy_readAs
    fun _ hn => under_eq_of_reaches hn
  exact ⟨compile_idle, hok.mpr compile_idle, hruns⟩

end Transformation

end Reshape
