/-
  Reshape.Proofs.Reordering: the order in which a document declares things is no matter.

  The entries of the nested mappings, and of every dictionary that the document describes, can stand in
  any order. The search for what can be reached and the search for cycles then go other ways, but what
  they look for is no matter of order, and neither is what the compiled mapping gives.
  - `Tree.ReadFrom.reordered`: of a description in another order the same tree is read in another order.
  - `References.hasLoop_of_reordered`: trees in another order reach the same and have the same loops.
  - `compile_reordered`: a document in another order compiles, to the same in another order.
  - `order_is_no_matter`: it succeeds on the same inputs, with results that are alike.
-/

import Reshape.Proofs.Agreement
import Mathlib.Tactic.FinCases

namespace Reshape

open References

/-! ## Descriptions in another order -/

/-- The same value, but for the order of the entries of its dictionaries. -/
inductive Value.Reordered : Value → Value → Prop where
  | same (v : Value) : Reordered v v
  | seq {form : Form} {items items' : List Value} : List.Forall₂ Reordered items items' →
      Reordered (.seq form items) (.seq form items')
  | dict {entries between entries' : List (Key × Value)} : Entries.keys entries = Entries.keys between →
      List.Forall₂ (fun e e' => Reordered e.2 e'.2) entries between → between.Perm entries' →
      Reordered (.dict entries) (.dict entries')

/-- The same is described, with nested mappings and the entries of dictionaries in another order. -/
structure Description.Reordered (d d' : Description) : Prop where
  properties : d.properties.Reordered d'.properties
  nested : (Value.dict d.nested).Reordered (.dict d'.nested)

/-! ## What is read -/

namespace Tree

variable {names : List String} {known : String → Bool}

/-- From the description in any other order something is read, and it is the tree in another order. -/
def ReadInAnyOrder (names : List String) (known : String → Bool) (v : Value) (t : Tree) : Prop :=
  v.TextKeyed → ∀ v', v.Reordered v' → ∃ t', t'.ReadFrom names known v' ∧ t.Reordered t'

theorem exists_items_reordered {items items' : List Value} {ts : List Tree}
    (h : List.Forall₂ (ReadInAnyOrder names known) items ts) (hkeys : ∀ v ∈ items, v.TextKeyed)
    (hitems : List.Forall₂ Value.Reordered items items') :
    ∃ ts', List.Forall₂ (ReadFrom names known) items' ts' ∧ List.Forall₂ Tree.Reordered ts ts' := by
  induction h generalizing items' with
  | nil =>
    cases hitems
    exact ⟨[], .nil, .nil⟩
  | cons hv _ ih =>
    obtain ⟨hkey, hkeys⟩ := List.forall_mem_cons.mp hkeys
    cases hitems with
    | cons hre hitems =>
      obtain ⟨t', hread, ht⟩ := hv hkey _ hre
      obtain ⟨ts', hreads, hts⟩ := ih hkeys hitems
      exact ⟨t' :: ts', .cons hread hreads, .cons ht hts⟩

/-- Side by side, each entry under its own name. -/
theorem exists_entries_reordered {entries between : List (Key × Value)} {ts : List (String × Tree)}
    (h : List.Forall₂ (fun e p => ReadInAnyOrder names known e.2 p.2) entries ts)
    (hnames : KeyNames entries ts) (hvalues : ∀ e ∈ entries, e.2.TextKeyed)
    (hkeys : Entries.keys entries = Entries.keys between)
    (hentries : List.Forall₂ (fun e e' => e.2.Reordered e'.2) entries between) :
    ∃ ts', List.Forall₂ (fun e p => e.1.string? = some p.1 ∧ p.2.ReadFrom names known e.2) between ts' ∧
      Entries.keys ts = Entries.keys ts' ∧ List.Forall₂ (fun p p' => p.2.Reordered p'.2) ts ts' := by
  induction h generalizing between with
  | nil =>
    cases hentries
    exact ⟨[], .nil, rfl, .nil⟩
  | @cons e p entries ts hv _ ih =>
    obtain ⟨hvalue, hvalues⟩ := List.forall_mem_cons.mp hvalues
    cases hnames with
    | cons hname hnames =>
      cases hentries with
      | @cons _ e' _ between hre hentries =>
        obtain ⟨hkey, hrest⟩ := List.cons.inj hkeys
        obtain ⟨t', hread, ht⟩ := hv hvalue _ hre
        obtain ⟨ts', hreads, hsame, hts⟩ := ih hnames hvalues hrest hentries
        refine ⟨(p.1, t') :: ts', .cons ⟨hkey ▸ hname, hread⟩ hreads, ?_, .cons ht hts⟩
        rw [Entries.keys_cons, Entries.keys_cons, hsame]

/-- A description with texts as keys is read in any order. Its tables lose no tree to a later key. -/
theorem ReadFrom.reordered {v : Value} {t : Tree} (h : t.ReadFrom names known v) :
    ReadInAnyOrder names known v t := by
  refine h.inductionOn ?rule ?seq ?dict ?cyclic
  case rule =>
    intro text r hr _ v' hre
    cases hre
    exact ⟨_, .rule hr, .leaf r⟩
  case seq =>
    intro form items ts hts ih hkeys v' hre
    cases hre with
    | same => exact ⟨_, .seq hts, .refl _⟩
    | seq hitems =>
      cases hkeys with
      | seq hkeys =>
        obtain ⟨ts', hreads, hts'⟩ := exists_items_reordered ih hkeys hitems
        exact ⟨_, .seq hreads, .list hts'⟩
  case dict =>
    intro entries ts hnames hts ih hkeys v' hre
    cases hre with
    | same => exact ⟨_, .dict hnames hts, .refl _⟩
    | @dict _ between entries' hsame hentries hperm =>
      have hnodup : (Entries.keys ts).Nodup := by
        cases hkeys with
        | dict _ htexts hnodup => exact keys_of_keyNames hnames htexts ▸ hnodup
      have hvalues : ∀ e ∈ entries, e.2.TextKeyed := by
        cases hkeys with
        | dict _ _ _ hvalues => exact hvalues
      obtain ⟨middle, hreads, hkeys', htrees⟩ := exists_entries_reordered ih hnames hvalues hsame hentries
      obtain ⟨ts', hreads', hperm'⟩ := List.perm_comp_forall₂ hperm.symm hreads
      have hmiddle : (Entries.keys middle).Nodup := hkeys' ▸ hnodup
      have hnodup' : (Entries.keys ts').Nodup := (hperm'.map Prod.fst).nodup_iff.mpr hmiddle
      refine ⟨.dict (Entries.ofList ts'), .dict (hreads'.imp fun _ _ h => h.1) (hreads'.imp fun _ _ h => h.2), ?_⟩
      rw [Entries.ofList_of_nodup hnodup, Entries.ofList_of_nodup hnodup']
      exact .dict hkeys' htrees hperm'.symm
  case cyclic =>
    intro web cell view t ih hkeys v' hre
    cases hre with
    | same =>
      cases hkeys with
      | cyclic hkeys =>
        obtain ⟨t', hread, ht⟩ := ih hkeys view (.same view)
        exact ⟨t', .cyclic hread, ht⟩

theorem Reordered.mem_keys {ts ts' : List (String × Tree)} (h : (Tree.dict ts).Reordered (.dict ts')) (n : String) :
    n ∈ Entries.keys ts ↔ n ∈ Entries.keys ts' := by
  cases h with
  | dict hkeys _ hperm =>
    rw [hkeys]
    exact (hperm.map Prod.fst).mem_iff

end Tree

/-! ## What can be reached, and loops -/

namespace References

variable {properties properties' : Tree} {nested nested' : Nested}

/-- Under a name stands a rule with a property, in both orders or in none. -/
theorem exists_rule_of_reordered (h : (Tree.dict nested).Reordered (.dict nested'))
    (hnodup : (Entries.keys nested).Nodup) (n : String) (Q : Rule → Prop) :
    (∃ t, nested.lookup n = some t ∧ ∃ r ∈ t.rules, Q r) ↔ ∃ t, nested'.lookup n = some t ∧ ∃ r ∈ t.rules, Q r := by
  rcases h.lookup hnodup n with ⟨u, u', hu, hu', hre⟩ | ⟨hu, hu'⟩
  · simp only [hu, hu', Option.some.injEq, exists_eq_left', hre.mem_rules]
  · simp only [hu, hu', reduceCtorEq, false_and, exists_false]

theorem refers_of_reordered (h : (Tree.dict nested).Reordered (.dict nested')) (hnodup : (Entries.keys nested).Nodup) :
    Refers nested = Refers nested' := by
  funext n m
  simp only [Refers, Tree.mem_references, exists_rule_of_reordered h hnodup]

theorem direct_of_reordered (h : (Tree.dict nested).Reordered (.dict nested')) (hnodup : (Entries.keys nested).Nodup) :
    Direct nested = Direct nested' := by
  funext n m
  simp only [Direct, exists_rule_of_reordered h hnodup]

theorem reaches_of_reordered (hp : properties.Reordered properties')
    (h : (Tree.dict nested).Reordered (.dict nested')) (hnodup : (Entries.keys nested).Nodup) :
    Reaches properties nested = Reaches properties' nested' := by
  funext n
  simp only [Reaches, Tree.mem_references, hp.mem_rules, refers_of_reordered h hnodup]

theorem hasLoop_of_reordered (hp : properties.Reordered properties')
    (h : (Tree.dict nested).Reordered (.dict nested')) (hnodup : (Entries.keys nested).Nodup) :
    HasLoop properties nested ↔ HasLoop properties' nested' := by
  unfold HasLoop
  rw [reaches_of_reordered hp h hnodup, direct_of_reordered h hnodup]

end References

/-! ## Documents -/

namespace Transformation

variable {known : String → Bool} {document document' : Value} {d d' : Description} {t : Transformation}

theorem nodup_of_compileNamed {entries : List (Key × Value)} {nested : Nested}
    (h : compileNamed known entries = .ok nested) : (Entries.keys nested).Nodup := by
  obtain ⟨ts, -, rfl⟩ := compileNamed_eq_ok_iff.mp h
  exact Entries.nodup_keys_ofList ts

theorem mem_keys_ofList {ts : List (String × Tree)} {n : String} :
    n ∈ Entries.keys (Entries.ofList ts) ↔ n ∈ Entries.keys ts := by
  have hlatest : n ∈ Entries.keys (Entries.ofList ts) ↔ n ∈ Entries.keys (Entries.latest ts) := by
    simp only [Entries.mem_keys, Entries.mem_ofList]
  exact hlatest.trans Entries.mem_keys_latest

theorem compileNamed_reordered {entries entries' : List (Key × Value)} {nested : Nested}
    (h : compileNamed known entries = .ok nested) (hkeys : (Value.dict entries).TextKeyed)
    (hre : (Value.dict entries).Reordered (.dict entries')) :
    ∃ nested', compileNamed known entries' = .ok nested' ∧ (Tree.dict nested).Reordered (.dict nested') := by
  obtain ⟨ts, hts, rfl⟩ := compileNamed_eq_ok_iff.mp h
  obtain ⟨t', hread, htree⟩ := (Tree.ReadFrom.dict hts.names hts.trees).reordered hkeys _ hre
  cases hread with
  | @dict _ ts' hnames htrees =>
    have hmem : ∀ n, n ∈ Entries.keys ts ↔ n ∈ Entries.keys ts' := by
      intro n
      rw [← mem_keys_ofList, htree.mem_keys, mem_keys_ofList]
    refine ⟨_, compileNamed_eq_ok_iff.mpr ⟨ts', ⟨hnames, fun p hp => ?_, ?_⟩, rfl⟩, htree⟩
    · obtain ⟨u, hu⟩ := Entries.mem_keys.mp ((hmem p.1).mpr (Entries.mem_keys.mpr ⟨p.2, hp⟩))
      exact hts.valid (p.1, u) hu
    · exact htrees.imp fun _ _ hp => hp.mono fun _ => (Rule.targetKnown_congr hmem).mp

/-- Mappings that are linked are linked in any other order. -/
theorem link_reordered (hlinked : t.Linked) (hlink : link t.properties t.nested = .ok t)
    (hnodup : (Entries.keys t.nested).Nodup) {t' : Transformation} (hre : t.Reordered t') :
    link t'.properties t'.nested = .ok t' := by
  have hreaches := reaches_of_reordered hre.properties hre.nested hnodup
  have hdefined : ∀ n, Reaches t'.properties t'.nested n → ∃ u, t'.nested.lookup n = some u := by
    intro n hn
    obtain ⟨u, hu⟩ := hlinked.defined (hreaches ▸ hn)
    rcases hre.nested.lookup hnodup n with ⟨_, u', -, hu', -⟩ | ⟨hnone, -⟩
    · exact ⟨u', hu'⟩
    · cases hu.symm.trans hnone
  have hwhole := link_explained fun n => hlinked.defined
  have hexplained := link_explained hdefined
  rw [hlink] at hwhole
  cases hl : link t'.properties t'.nested with
  | ok u =>
    rw [hl] at hexplained
    rw [hexplained.1]
  | error fault =>
    rw [hl] at hexplained
    exact absurd ((hasLoop_of_reordered hre.properties hre.nested hnodup).mpr hexplained.1) hwhole.2

/-- A document in another order compiles, to the same transformation in another order. -/
theorem compile_reordered (hc : compile known document = .ok t) (hd : document.Describes d) (hkeys : d.TextKeyed)
    (hd' : document'.Describes d') (hre : d.Reordered d') :
    ∃ t', compile known document' = .ok t' ∧ t.Reordered t' ∧ (Entries.keys t.nested).Nodup := by
  obtain ⟨d₀, hd₀, hnested, hproperties, hlink⟩ := compile_eq_ok_iff.mp hc
  cases Description.eq_of_describes hd₀ hd
  have hnodup := nodup_of_compileNamed hnested
  obtain ⟨nested', hnested', hren⟩ := compileNamed_reordered hnested hkeys.2 hre.nested
  obtain ⟨properties', hread, hrep⟩ := hproperties.reordered hkeys.1 _ hre.properties
  have hread' : properties'.ReadFrom (Entries.keys nested') known d'.properties :=
    hread.mono fun _ => (Rule.targetKnown_congr hren.mem_keys).mp
  let t' : Transformation := ⟨properties', nested'⟩
  have ht' : t.Reordered t' := ⟨hrep, hren⟩
  exact ⟨t', compile_eq_ok_iff.mpr ⟨d', hd', hnested', hread', link_reordered (linked_of_compile hc) hlink hnodup ht'⟩,
    ht', hnodup⟩

/-- Without a limit to its depth the transformation ends with this value. -/
def Gives (t : Transformation) (registry : Registry) (data v : Value) : Prop :=
  ∃ run, t.Ends registry data run ∧ run.outcome = .ok v

theorem gives_iff {registry : Registry} {data v : Value} :
    t.Gives registry data v ↔ ∃ depth, (t.runWithin depth registry data).outcome = .ok v := by
  constructor
  · rintro ⟨_, ⟨depth, rfl, -⟩, hv⟩
    exact ⟨depth, hv⟩
  · rintro ⟨depth, hv⟩
    refine ⟨_, ⟨depth, rfl, ?_⟩, hv⟩
    rw [hv]
    exact nofun

/-- A document with texts as keys compiles in any other order of its nested mappings and of the entries
of its dictionaries. It then succeeds on the same inputs, whatever is registered, and the results are
the same but for the order of entries in the dictionaries that the mapping makes. -/
theorem order_is_no_matter (hc : compile known document = .ok t) (hd : document.Describes d) (hkeys : d.TextKeyed)
    (hd' : document'.Describes d') (hre : d.Reordered d') :
    ∃ t', compile known document' = .ok t' ∧ ∀ registry data,
      (∀ v, t.Gives registry data v → ∃ v', t'.Gives registry data v' ∧ t.properties.Alike t.nested v v') ∧
        ∀ v', t'.Gives registry data v' → ∃ v, t.Gives registry data v ∧ t.properties.Alike t.nested v v' := by
  obtain ⟨t', hc', ht, hnodup⟩ := compile_reordered hc hd hkeys hd' hre
  refine ⟨t', hc', fun registry data => ⟨fun v hv => ?_, fun v' hv' => ?_⟩⟩
  · obtain ⟨depth, hv⟩ := gives_iff.mp hv
    obtain ⟨v', hv', halike⟩ := (ht.agree hnodup depth registry data).forth v hv
    exact ⟨v', gives_iff.mpr ⟨depth, hv'⟩, halike⟩
  · obtain ⟨depth, hv'⟩ := gives_iff.mp hv'
    obtain ⟨v, hv, halike⟩ := (ht.agree hnodup depth registry data).back v' hv'
    exact ⟨v, gives_iff.mpr ⟨depth, hv⟩, halike⟩

/-- Two nested mappings under a dictionary in a list. -/
def ordered : Description :=
  ⟨.list [.dict [(.str "a", .str "x:$m"), (.str "b", .str "y:int")]],
    [(.str "$m", .dict [(.str "c", .str "u:int"), (.str "d", .str "v:$n[]")]), (.str "$n", .str "w:int")]⟩

/-- The same, with every dictionary and the nested mappings the other way round. -/
def turned : Description :=
  ⟨.list [.dict [(.str "b", .str "y:int"), (.str "a", .str "x:$m")]],
    [(.str "$n", .str "w:int"), (.str "$m", .dict [(.str "d", .str "v:$n[]"), (.str "c", .str "u:int")])]⟩

def orderedTransformation : Transformation :=
  ⟨.list [.dict [("a", .leaf ⟨["x"], "$m", false⟩), ("b", .leaf ⟨["y"], "int", false⟩)]],
    [("$m", .dict [("c", .leaf ⟨["u"], "int", false⟩), ("d", .leaf ⟨["v"], "$n", true⟩)]),
      ("$n", .leaf ⟨["w"], "int", false⟩)]⟩

theorem ordered_textKeyed : ordered.TextKeyed := by
  constructor
  · refine .seq fun v hv => ?_
    cases List.mem_singleton.mp hv
    refine .dict ["a", "b"] rfl (by decide) fun e he => ?_
    fin_cases he <;> exact .scalar
  · refine .dict ["$m", "$n"] rfl (by decide) fun e he => ?_
    fin_cases he
    · refine .dict ["c", "d"] rfl (by decide) fun e he => ?_
      fin_cases he <;> exact .scalar
    · exact .scalar

theorem turn {k k' : Key} {v v' w w' : Value} (h : v.Reordered w) (h' : v'.Reordered w') :
    (Value.dict [(k, v), (k', v')]).Reordered (.dict [(k', w'), (k, w)]) :=
  @Value.Reordered.dict _ [(k, w), (k', w')] _ rfl (.cons h (.cons h' .nil)) (.swap ..)

theorem ordered_reordered : ordered.Reordered turned :=
  ⟨.seq (.cons (turn (.same _) (.same _)) .nil), turn (turn (.same _) (.same _)) (.same _)⟩

def orderedData : Value :=
  .dict [(.str "x", .dict [(.str "u", .int 1), (.str "v", .list [.dict [(.str "w", .int 2)]])]), (.str "y", .int 3)]

def orderedResult : Value :=
  .list [.dict [(.str "a", .dict [(.str "c", .int 1), (.str "d", .list [.int 2])]), (.str "b", .int 3)]]

theorem the_other_way_round_gives_the_same : compile integers.has ordered.document = .ok orderedTransformation ∧
    orderedTransformation.Gives integers orderedData orderedResult ∧
    ∃ t', compile integers.has turned.document = .ok t' ∧ ∃ v', t'.Gives integers orderedData v' ∧
      orderedTransformation.properties.Alike orderedTransformation.nested orderedResult v' := by
  have hcompile : compile integers.has ordered.document = .ok orderedTransformation :=
    link_of_indirect orderedTransformation (by decide) (by decide)
  have hgives : orderedTransformation.Gives integers orderedData orderedResult := gives_iff.mpr ⟨2, by rfl⟩
  have hne : ordered.properties ≠ .null := by simp [ordered]
  have hne' : turned.properties ≠ .null := by simp [turned]
  obtain ⟨t', ht', hsame⟩ := order_is_no_matter hcompile (Description.describes_document hne) ordered_textKeyed
    (Description.describes_document hne') ordered_reordered
  exact ⟨hcompile, hgives, t', ht', (hsame integers orderedData).1 orderedResult hgives⟩

end Transformation

end Reshape
