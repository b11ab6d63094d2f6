/-
  Reshape.Proofs.Rulewise: a transformation does what its rules do one by one.

  The result has the shape of the description, with every rule replaced by what comes of the rule
  alone: of a document with this one rule and the same nested mappings. The rules are gone through from
  left to right, and the first that fails ends all.
  - `Run.Collects`: a run that goes through texts, up to the first that fails.
  - `Tree.ReadFrom.collects`: evaluating a tree goes through the texts of what it was read from.
  - `compile_oneRule`: every rule of a document that compiles makes a document that compiles.
  - `transform_rulewise`: the run of a transformation is put together from the runs of its rules.
-/

import Mathlib.Tactic.FinCases
import Reshape.Proofs.Faults
import Reshape.Proofs.Rendering

namespace Reshape

open References

/-! ## Runs that go through texts -/

namespace Run

variable {α β : Type}

theorem bind_of_ok {r : Run α} {a : α} (h : r.outcome = .ok a) (k : α → Run β) :
    r >>= k = ⟨r.events ++ (k a).events, (k a).outcome⟩ := by
  show Run.bind r k = _
  rw [Run.bind, h]

theorem bind_of_error {r : Run α} {fault : EvaluationFault} (h : r.outcome = .error fault) (k : α → Run β) :
    r >>= k = ⟨r.events, .error fault⟩ := by
  show Run.bind r k = _
  rw [Run.bind, h]

/-- The value that a run ends with, and null if it fails. -/
def value (r : Run Value) : Value :=
  match r.outcome with
  | .ok v => v
  | .error _ => .null

def Gives (r : Run Value) : Prop := r.outcome = .ok r.value

/-- All that happens in the runs of the texts. -/
def eventsOf (runs : String → Run Value) (texts : List String) : List Event :=
  texts.flatMap fun text => (runs text).events

/-- The run `r` goes through the texts from left to right, and has gone through the second list of them.
If all runs of texts give a value it ends with `a`. Otherwise it ends with the first that fails, and
nothing happens after that. -/
inductive Collects (runs : String → Run Value) (a : α) (r : Run α) : List String → List String → Prop where
  | all {texts : List String} : (∀ text ∈ texts, (runs text).Gives) → r = ⟨eventsOf runs texts, .ok a⟩ →
      Collects runs a r texts texts
  | first (before : List String) (text : String) (after : List String) {fault : EvaluationFault} :
      (∀ earlier ∈ before, (runs earlier).Gives) → (runs text).outcome = .error fault →
      r = ⟨eventsOf runs (before ++ [text]), .error fault⟩ →
      Collects runs a r (before ++ text :: after) (before ++ [text])

variable {runs : String → Run Value}

theorem collects_pure (a : α) : Collects runs a (pure a) [] [] := .all (by simp) rfl

theorem collects_text (text : String) : Collects runs (runs text).value (runs text) [text] [text] := by
  cases h : (runs text).outcome with
  | ok v =>
    have hgives : (runs text).Gives := by rw [Gives, value, h]
    refine .all (by simpa using hgives) ?_
    rw [← hgives, eventsOf, List.flatMap_singleton]
  | error fault =>
    refine .first [] text [] (by simp) h ?_
    rw [← h, List.nil_append, eventsOf, List.flatMap_singleton]

theorem Collects.next {xs gone ys : List String} {a : α} {b : β} {r : Run α} {k : α → Run β}
    (h : Collects runs a r xs gone) (hk : ∃ gone, Collects runs b (k a) ys gone) :
    ∃ gone, Collects runs b (r >>= k) (xs ++ ys) gone := by
  -- the second part is gone into only if the first has no fault
  cases h with
  | all hxs hr =>
    rw [bind_of_ok (by rw [hr]), hr]
    obtain ⟨gone, hk⟩ := hk
    cases hk with
    | all hys hka =>
      refine ⟨_, .all (fun text htext => ?_) ?_⟩
      · exact (List.mem_append.mp htext).elim (hxs text) (hys text)
      · rw [hka, eventsOf, eventsOf, eventsOf, List.flatMap_append]
    | first before text after hbefore hfault hka =>
      rw [← List.append_assoc]
      refine ⟨_, .first (xs ++ before) text after (fun earlier he => ?_) hfault ?_⟩
      · exact (List.mem_append.mp he).elim (hxs earlier) (hbefore earlier)
      · rw [hka]
        simp only [eventsOf, List.flatMap_append, List.append_assoc]
  | first before text after hbefore hfault hr =>
    rw [List.append_assoc, List.cons_append]
    refine ⟨_, .first before text (after ++ ys) hbefore hfault ?_⟩
    rw [bind_of_error (by rw [hr]), hr]

theorem Collects.map {xs gone : List String} {a : α} {b : β} {r : Run α} {k : α → Run β}
    (h : Collects runs a r xs gone) (hk : k a = pure b) : ∃ gone, Collects runs b (r >>= k) xs gone := by
  have hnext := h.next ⟨[], hk ▸ collects_pure b⟩
  rwa [List.append_nil] at hnext

/-- What has been gone through is the first part of the texts. -/
theorem Collects.isPrefix {xs gone : List String} {a : α} {r : Run α} (h : Collects runs a r xs gone) :
    gone <+: xs := by
  cases h with
  | all => exact List.prefix_rfl
  | first before text after => exact ⟨after, by simp⟩

/-- A fault that does not end the whole ends no run that has been gone through. -/
theorem Collects.outcome_ne {xs gone : List String} {a : α} {r : Run α} (h : Collects runs a r xs gone)
    {fault : EvaluationFault} (hne : r.outcome ≠ .error fault) {text : String} (htext : text ∈ gone) :
    (runs text).outcome ≠ .error fault := by
  have hgives : ∀ text, (runs text).Gives → (runs text).outcome ≠ .error fault := by
    intro text hg he
    cases hg.symm.trans he
  cases h with
  | all hall => exact hgives text (hall text htext)
  | first before last after hbefore hfault hr =>
    rcases List.mem_append.mp htext with htext | htext
    · exact hgives text (hbefore text htext)
    · rw [List.mem_singleton.mp htext, hfault]
      intro he
      exact hne (by rw [hr, Except.error.inj he])

end Run

/-! ## Trees -/

namespace Value

def ruleText? : Value → Option String
  | .str text => some text
  | _ => none

/-- The rule texts of a description, from left to right. -/
def texts (v : Value) : List String := v.leaves.filterMap ruleText?

theorem mem_texts {v : Value} {text : String} : text ∈ v.texts ↔ .str text ∈ v.leaves := by
  rw [texts, List.mem_filterMap]
  constructor
  · rintro ⟨leaf, hleaf, htext⟩
    unfold ruleText? at htext
    split at htext
    · cases htext
      exact hleaf
    · cases htext
  · exact fun h => ⟨_, h, rfl⟩

theorem mem_texts_seq {form : Form} {items : List Value} {text : String} :
    text ∈ (Value.seq form items).texts ↔ ∃ v ∈ items, text ∈ v.texts := by
  simp only [mem_texts, leaves, mem_leavesOfItems]

theorem mem_texts_dict {entries : List (Key × Value)} {text : String} :
    text ∈ (Value.dict entries).texts ↔ ∃ e ∈ entries, text ∈ e.2.texts := by
  simp only [mem_texts, leaves, mem_leavesOfEntries]

end Value

namespace Tree

open Run

section
variable {names : List String} {known : String → Bool} {registry : Registry}
  {enter : String → Context → Run Value} {c : Context} {runs : String → Run Value}

/-- Evaluating the tree goes through the texts of the description, if their runs are those of the rules
they write. -/
def Mirrors (names : List String) (known : String → Bool) (registry : Registry)
    (enter : String → Context → Run Value) (c : Context) (runs : String → Run Value) (v : Value) (t : Tree) : Prop :=
  v.TextKeyed →
    (∀ text ∈ v.texts, ∀ r, Rule.parse names known text = .ok r → runs text = r.evaluate registry enter c) →
    ∃ gone, Collects runs (v.filled fun text => (runs text).value) (t.evaluate registry enter c) v.texts gone

theorem collects_items {items : List Value} {ts : List Tree}
    (h : List.Forall₂ (Mirrors names known registry enter c runs) items ts) (hkeys : ∀ v ∈ items, v.TextKeyed)
    (hruns : ∀ v ∈ items, ∀ text ∈ v.texts, ∀ r, Rule.parse names known text = .ok r →
      runs text = r.evaluate registry enter c) :
    ∃ gone, Collects runs (Value.filledItems (fun text => (runs text).value) items)
      (Tree.evaluateItems registry enter c ts) ((Value.leavesOfItems items).filterMap Value.ruleText?) gone := by
  induction h with
  | nil => exact ⟨[], collects_pure []⟩
  | cons hv _ ih =>
    obtain ⟨hkey, hkeys⟩ := List.forall_mem_cons.mp hkeys
    obtain ⟨hrun, hruns⟩ := List.forall_mem_cons.mp hruns
    obtain ⟨gone, hfirst⟩ := hv hkey hrun
    obtain ⟨gone', hrest⟩ := ih hkeys hruns
    rw [Value.leavesOfItems, List.filterMap_append]
    exact hfirst.next (hrest.map rfl)

theorem collects_entries {entries : List (Key × Value)} {ts : List (String × Tree)}
    (h : List.Forall₂ (fun e p => Mirrors names known registry enter c runs e.2 p.2) entries ts)
    (hnames : List.Forall₂ (fun e p => e.1 = .str p.1) entries ts) (hkeys : ∀ e ∈ entries, e.2.TextKeyed)
    (hruns : ∀ e ∈ entries, ∀ text ∈ e.2.texts, ∀ r, Rule.parse names known text = .ok r →
      runs text = r.evaluate registry enter c) :
    ∃ gone, Collects runs (Value.filledEntries (fun text => (runs text).value) entries)
      (Tree.evaluateEntries registry enter c ts) ((Value.leavesOfEntries entries).filterMap Value.ruleText?) gone := by
  induction h with
  | nil => exact ⟨[], collects_pure []⟩
  | @cons e p _ _ hv _ ih =>
    obtain ⟨hkey, hkeys⟩ := List.forall_mem_cons.mp hkeys
    obtain ⟨hrun, hruns⟩ := List.forall_mem_cons.mp hruns
    obtain ⟨gone, hfirst⟩ := hv hkey hrun
    cases hnames with
    | cons hname hnames =>
      obtain ⟨gone', hrest⟩ := ih hnames hkeys hruns
      obtain ⟨k, v⟩ := e
      cases hname
      rw [Value.leavesOfEntries, List.filterMap_append]
      exact hfirst.next (hrest.map rfl)

/-- Evaluating a tree goes through the texts that it was read from, and puts what comes of them in their
places. -/
theorem ReadFrom.collects {v : Value} {t : Tree} (h : t.ReadFrom names known v) :
    Mirrors names known registry enter c runs v t := by
  refine h.inductionOn ?rule ?seq ?dict ?cyclic
  case rule =>
    intro text r hr _ hruns
    rw [Tree.evaluate, ← hruns text (List.mem_singleton_self text) r hr]
    exact ⟨_, collects_text text⟩
  case seq =>
    intro form items ts _ ih hkeys hruns
    cases hkeys with
    | seq hkeys =>
      obtain ⟨gone, hitems⟩ := collects_items ih hkeys fun v hv text htext =>
        hruns text (Value.mem_texts_seq.mpr ⟨v, hv, htext⟩)
      exact hitems.map rfl
  case dict =>
    intro entries ts hnames _ ih hkeys hruns
    rw [ofList_of_keyNames hnames hkeys]
    cases hkeys with
    | dict _ htexts _ hvalues =>
      obtain ⟨gone, hentries⟩ := collects_entries ih (textKeys_of_keyNames hnames htexts) hvalues
        fun e he text htext => hruns text (Value.mem_texts_dict.mpr ⟨e, he, htext⟩)
      exact hentries.map rfl
  case cyclic =>
    intro web cell view t ih hkeys hruns
    cases hkeys with
    | cyclic hkeys => exact ih hkeys hruns

end

/-- If all keys are texts, every rule text of the description is read as a rule of the tree. -/
theorem ReadFrom.exists_rule {names : List String} {known : String → Bool} {v : Value} {t : Tree}
    (h : t.ReadFrom names known v) (hkeys : v.TextKeyed) {text : String} (htext : text ∈ v.texts) :
    ∃ r ∈ t.rules, Rule.parse names known text = .ok r := by
  revert hkeys htext
  refine h.inductionOn (motive := fun v t => v.TextKeyed → text ∈ v.texts →
    ∃ r ∈ t.rules, Rule.parse names known text = .ok r) ?rule ?seq ?dict ?cyclic
  case rule =>
    intro text' r hr _ htext
    cases List.mem_singleton.mp htext
    exact ⟨r, List.mem_singleton_self r, hr⟩
  case seq =>
    intro form items ts _ ih hkeys htext
    cases hkeys with
    | seq hkeys =>
      obtain ⟨v, hv, htext⟩ := Value.mem_texts_seq.mp htext
      obtain ⟨t, ht, hrule⟩ := exists_of_mem_left ih hv
      obtain ⟨r, hr, hparse⟩ := hrule (hkeys v hv) htext
      exact ⟨r, Tree.mem_rulesOfItems.mpr ⟨t, ht, hr⟩, hparse⟩
  case dict =>
    intro entries ts hnames _ ih hkeys htext
    rw [ofList_of_keyNames hnames hkeys]
    cases hkeys with
    | dict _ _ _ hvalues =>
      obtain ⟨e, he, htext⟩ := Value.mem_texts_dict.mp htext
      obtain ⟨p, hp, hrule⟩ := exists_of_mem_left ih he
      obtain ⟨r, hr, hparse⟩ := hrule (hvalues e he) htext
      exact ⟨r, Tree.mem_rulesOfEntries.mpr ⟨p, hp, hr⟩, hparse⟩
  case cyclic =>
    intro web cell view t ih hkeys htext
    cases hkeys with
    | cyclic hkeys => exact ih hkeys htext

end Tree

/-! ## Documents with one rule -/

namespace Value

/-- What stands under `nested` in a document. -/
def nestedSection (document : Value) : Value :=
  match document.contents with
  | .dict entries => (entries.lookup (.str "nested")).getD .null
  | _ => .null

/-- The document with this rule only, and the same nested mappings. -/
def oneRule (document : Value) (text : String) : Value :=
  .dict [(.str "properties", .str text), (.str "nested", document.nestedSection)]

theorem Describes.oneRule {document : Value} {d : Description} (h : document.Describes d) (text : String) :
    (document.oneRule text).Describes ⟨.str text, d.nested⟩ := by
  obtain ⟨entries, hc, -, -, hn⟩ := h
  have hsection : document.nestedSection = (entries.lookup (.str "nested")).getD .null := by
    rw [nestedSection, hc]
  have hne : Value.str text ≠ .null := by simp
  rw [← hsection] at hn
  exact ⟨_, rfl, rfl, hne, hn⟩

end Value

namespace Transformation

variable {known : String → Bool} {document : Value} {d : Description} {t : Transformation}

/-- Fewer rules reach less, so that mappings that are linked are also linked from some of the rules. -/
theorem link_part (hlinked : t.Linked) (hlink : link t.properties t.nested = .ok t) {part : Tree}
    (hpart : ∀ r ∈ part.rules, r ∈ t.properties.rules) : link part t.nested = .ok ⟨part, t.nested⟩ := by
  have hreach : ∀ n, Reaches part t.nested n → Reaches t.properties t.nested n := by
    rintro n ⟨m, hm, hmn⟩
    obtain ⟨r, hr, hm⟩ := Tree.mem_references.mp hm
    exact ⟨m, Tree.mem_references.mpr ⟨r, hpart r hr, hm⟩, hmn⟩
  have hwhole := link_explained fun n => hlinked.defined
  have hexplained := link_explained fun n hn => hlinked.defined (hreach n hn)
  rw [hlink] at hwhole
  cases hp : link part t.nested with
  | ok u =>
    rw [hp] at hexplained
    rw [hexplained.1]
  | error fault =>
    rw [hp] at hexplained
    obtain ⟨⟨n, hn, hloop⟩, -⟩ := hexplained
    exact absurd ⟨n, hreach n hn, hloop⟩ hwhole.2

/-- Every rule text of a document that compiles makes a document that compiles: to this rule, and the
same nested mappings. -/
theorem compile_oneRule (hc : compile known document = .ok t) (hd : document.Describes d)
    (hkeys : d.properties.TextKeyed) {text : String} (htext : text ∈ d.properties.texts) :
    ∃ r, Rule.parse (Entries.keys t.nested) known text = .ok r ∧
      compile known (document.oneRule text) = .ok ⟨.leaf r, t.nested⟩ := by
  obtain ⟨d', hd', hnested, hproperties, hlink⟩ := compile_eq_ok_iff.mp hc
  cases Description.eq_of_describes hd' hd
  obtain ⟨r, hr, hparse⟩ := hproperties.exists_rule hkeys htext
  have hpart : link (.leaf r) t.nested = .ok ⟨.leaf r, t.nested⟩ := by
    refine link_part (linked_of_compile hc) hlink fun r' hr' => ?_
    rwa [List.mem_singleton.mp hr']
  exact ⟨r, hparse, compile_eq_ok_iff.mpr ⟨_, hd.oneRule text, hnested, .rule hparse, hpart⟩⟩

/-- The document with this rule only compiles, and this is the run that it ends with. -/
def RuleEnds (known : String → Bool) (document : Value) (registry : Registry) (data : Value) (text : String)
    (run : Run Value) : Prop :=
  ∃ part, compile known (document.oneRule text) = .ok part ∧ part.Ends registry data run

/-- Where the description has texts as keys, a transformation does what its rules do one by one. Every
leaf of the description is a rule text, and the document with this rule only compiles. The run of the
transformation, if it ends, goes through the runs of these documents: it ends with the description in
which every rule is replaced by what comes of it alone, or with the fault of the first rule that has
one, after which nothing happens. -/
theorem transform_rulewise (hc : compile known document = .ok t) (hd : document.Describes d)
    (hkeys : d.properties.TextKeyed) :
    (∀ leaf ∈ d.properties.leaves, ∃ text, leaf = .str text ∧ ∃ part, compile known (document.oneRule text) = .ok part) ∧
      ∀ registry data run, t.Ends registry data run → ∃ runs gone,
        run.Collects runs (d.properties.filled fun text => (runs text).value) d.properties.texts gone ∧
          ∀ text ∈ gone, RuleEnds known document registry data text (runs text) := by
  have hone : ∀ text ∈ d.properties.texts, ∃ part, compile known (document.oneRule text) = .ok part ∧
      ∃ r, Rule.parse (Entries.keys t.nested) known text = .ok r ∧ part = ⟨.leaf r, t.nested⟩ := by
    intro text htext
    obtain ⟨r, hparse, hcompile⟩ := compile_oneRule hc hd hkeys htext
    exact ⟨_, hcompile, r, hparse, rfl⟩
  constructor
  · intro leaf hleaf
    have hdescribed := compile_described known hd
    rw [hc] at hdescribed
    obtain ⟨text, rfl, -⟩ := hdescribed.2.rules leaf (List.mem_append_left _ hleaf)
    obtain ⟨part, hpart, -⟩ := hone text (Value.mem_texts.mpr hleaf)
    exact ⟨text, rfl, part, hpart⟩
  · rintro registry data run ⟨depth, rfl, hdeep⟩
    have : Nonempty Transformation := ⟨t⟩
    choose! part hpart hrule using hone
    obtain ⟨d', hd', -, hproperties, -⟩ := compile_eq_ok_iff.mp hc
    cases Description.eq_of_describes hd' hd
    let runs : String → Run Value := fun text => (part text).runWithin depth registry data
    have hruns : ∀ text ∈ d.properties.texts, ∀ r, Rule.parse (Entries.keys t.nested) known text = .ok r →
        runs text = r.evaluate registry (enterNested registry t.nested depth) (Context.top data) := by
      intro text htext r hr
      obtain ⟨r', hr', hpart'⟩ := hrule text htext
      cases hr'.symm.trans hr
      simp only [runs, hpart']
      rfl
    obtain ⟨gone, hgone⟩ := hproperties.collects hkeys hruns
    -- the depth that the whole needs is enough for every part
    refine ⟨runs, gone, hgone, fun text htext => ?_⟩
    exact ⟨part text, hpart text (hgone.isPrefix.subset htext), depth, rfl, hgone.outcome_ne hdeep htext⟩

/-- A tuple of three rules, the second of which fails. -/
def triple : Description := ⟨.tuple [.str "a:int", .str "b:int", .str "c:int"], []⟩

def tripleTransformation : Transformation :=
  ⟨.list [.leaf ⟨["a"], "int", false⟩, .leaf ⟨["b"], "int", false⟩, .leaf ⟨["c"], "int", false⟩], []⟩

def tripleData : Value := .dict [(.str "a", .int 1), (.str "b", .str "x"), (.str "c", .int 3)]

def tripleRun : Run Value :=
  ⟨[.called "int" (.int 1), .called "int" (.str "x")], .error (.conversion (.integerText "x"))⟩

theorem a_triple_ends_at_the_second : compile integers.has triple.document = .ok tripleTransformation ∧
    tripleTransformation.Ends integers tripleData tripleRun ∧
    ∃ runs gone, tripleRun.Collects runs (triple.properties.filled fun text => (runs text).value)
        ["a:int", "b:int", "c:int"] gone ∧
      ∀ text ∈ gone, RuleEnds integers.has triple.document integers tripleData text (runs text) := by
  have hcompile : compile integers.has triple.document = .ok tripleTransformation :=
    link_of_flat tripleTransformation rfl
  have hends : tripleTransformation.Ends integers tripleData tripleRun := by
    refine ⟨0, by rfl, ?_⟩
    intro h
    cases h
  have hkeys : triple.properties.TextKeyed := by
    refine .seq fun v hv => ?_
    fin_cases hv <;> exact .scalar
  have hne : triple.properties ≠ .null := by
    intro h
    cases h
  have hrulewise := transform_rulewise hcompile (Description.describes_document hne) hkeys
  exact ⟨hcompile, hends, hrulewise.2 integers tripleData tripleRun hends⟩

end Transformation

end Reshape
