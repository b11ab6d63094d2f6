/-
  Reshape.Proofs.Rendering: compiled transformations as documents.

  The summary of a transformation is a document again: every rule is written as its text, every tree in
  its shape. Reading it gives the transformation back, also where keys of the first document became
  texts or were replaced. If all keys were texts, nothing is lost but the difference of tuples from lists.
  - `compile_summary`: a summary compiles to the transformation that it summarizes.
  - `Tree.ReadFrom.toValue_eq`: a tree as data is the description it was read from, tuples as lists.
  - `summary_faithful`: both, for every document that compiles.
-/

import Reshape.Proofs.Reading

namespace Reshape

/-! ## Descriptions with texts as keys -/

namespace Value

/-- All keys of the dictionaries in a value are texts, no two of one dictionary the same. -/
inductive TextKeyed : Value → Prop where
  | scalar {s : Scalar} : TextKeyed (.scalar s)
  | seq {form : Form} {items : List Value} : (∀ v ∈ items, TextKeyed v) → TextKeyed (.seq form items)
  | dict {entries : List (Key × Value)} (names : List String) : Entries.keys entries = names.map Key.str →
      names.Nodup → (∀ e ∈ entries, TextKeyed e.2) → TextKeyed (.dict entries)
  | set {items : List Key} : TextKeyed (.set items)
  | cyclic {web : Web} {cell : Nat} {view : Value} : TextKeyed view → TextKeyed (.cyclic web cell view)
  | again {shape : Shape} : TextKeyed (.again shape)

mutual
/-- The value with every text replaced by what is given for it, and a list in place of every tuple. -/
def filled (f : String → Value) : Value → Value
  | .scalar (.str text) => f text
  | .seq _ items => .list (filledItems f items)
  | .dict entries => .dict (filledEntries f entries)
  | .cyclic _ _ view => view.filled f
  | v => v
def filledItems (f : String → Value) : List Value → List Value
  | [] => []
  | v :: vs => v.filled f :: filledItems f vs
def filledEntries (f : String → Value) : List (Key × Value) → List (Key × Value)
  | [] => []
  | (k, v) :: es => (k, v.filled f) :: filledEntries f es
end

/-- The value with nothing but lists for tuples. -/
def listed (v : Value) : Value := v.filled .str

end Value

namespace Description

def TextKeyed (d : Description) : Prop := d.properties.TextKeyed ∧ (Value.dict d.nested).TextKeyed

def listed (d : Description) : Description := ⟨d.properties.listed, Value.filledEntries .str d.nested⟩

/-- The document that describes this and holds nothing else. -/
def document (d : Description) : Value :=
  .dict [(.str "properties", d.properties), (.str "nested", .dict d.nested)]

theorem eq_of_describes {document : Value} {d d' : Description} (h : document.Describes d)
    (h' : document.Describes d') : d = d' := by
  obtain ⟨entries, hc, hp, -, hn⟩ := h
  obtain ⟨entries', hc', hp', -, hn'⟩ := h'
  cases hc.symm.trans hc'
  have hproperties : d.properties = d'.properties := Option.some.inj (hp.symm.trans hp')
  have hnested : d.nested = d'.nested := by
    rcases hn with ⟨hn, hd⟩ | hn <;> rcases hn' with ⟨hn', hd'⟩ | hn'
    · rw [hd, hd']
    · cases hn.symm.trans hn'
    · cases hn.symm.trans hn'
    · exact Value.dict.inj (hn.symm.trans hn')
  cases d
  cases d'
  cases hproperties
  cases hnested
  rfl

theorem describes_document {d : Description} (h : d.properties ≠ .null) : d.document.Describes d :=
  ⟨_, rfl, rfl, h, Or.inr rfl⟩

end Description

/-! ## Trees as data -/

theorem keys_of_keyNames {entries : List (Key × Value)} {ts : List (String × Tree)} (h : KeyNames entries ts)
    {names : List String} (hkeys : Entries.keys entries = names.map Key.str) : Entries.keys ts = names := by
  induction h generalizing names with
  | nil => simpa using hkeys.symm
  | cons hname _ ih =>
    obtain ⟨name, rest, rfl, hkey, hrest⟩ := List.map_eq_cons_iff.mp hkeys.symm
    rw [← hkey, Key.string?_str] at hname
    rw [Entries.keys_cons, ih hrest.symm, ← Option.some.inj hname]

/-- Keys that are texts are the names of the trees. -/
theorem textKeys_of_keyNames {entries : List (Key × Value)} {ts : List (String × Tree)} (h : KeyNames entries ts)
    {names : List String} (hkeys : Entries.keys entries = names.map Key.str) :
    List.Forall₂ (fun e p => e.1 = .str p.1) entries ts := by
  have hmap : Entries.keys entries = (Entries.keys ts).map Key.str := by rw [keys_of_keyNames h hkeys, hkeys]
  rw [Entries.keys, Entries.keys, List.map_map, ← List.forall₂_eq_eq_eq, List.forall₂_map_left_iff,
    List.forall₂_map_right_iff] at hmap
  exact hmap

/-- Texts as keys name the table of trees, and no tree is replaced. -/
theorem ofList_of_keyNames {entries : List (Key × Value)} {ts : List (String × Tree)} (h : KeyNames entries ts)
    (hkeys : (Value.dict entries).TextKeyed) : Entries.ofList ts = ts := by
  cases hkeys with
  | dict _ hnames hnodup _ => exact Entries.ofList_of_nodup (keys_of_keyNames h hnames ▸ hnodup)

namespace Tree

variable {names : List String} {known : String → Bool}

theorem itemsToValues_eq {items : List Value} {ts : List Tree}
    (h : List.Forall₂ (fun v t => v.TextKeyed → t.toValue = v.listed) items ts)
    (hkeys : ∀ v ∈ items, v.TextKeyed) : Tree.itemsToValues ts = Value.filledItems .str items := by
  induction h with
  | nil => rfl
  | cons hv _ ih =>
    obtain ⟨hkey, hkeys⟩ := List.forall_mem_cons.mp hkeys
    rw [Tree.itemsToValues, Value.filledItems, hv hkey, ih hkeys, Value.listed]

theorem entriesToValues_eq {entries : List (Key × Value)} {ts : List (String × Tree)}
    (h : List.Forall₂ (fun e p => e.2.TextKeyed → p.2.toValue = e.2.listed) entries ts)
    (hnames : List.Forall₂ (fun e p => e.1 = .str p.1) entries ts) (hvalues : ∀ e ∈ entries, e.2.TextKeyed) :
    Tree.entriesToValues ts = Value.filledEntries .str entries := by
  induction h with
  | nil => rfl
  | cons hv _ ih =>
    obtain ⟨hvalue, hvalues⟩ := List.forall_mem_cons.mp hvalues
    cases hnames with
    | cons hname hnames =>
      rw [Tree.entriesToValues, Value.filledEntries, hv hvalue, ih hnames hvalues, hname, Value.listed]

/-- A tree as data is what it was read from, if all keys there are texts. -/
theorem ReadFrom.toValue_eq {v : Value} {t : Tree} (h : t.ReadFrom names known v) (hkeys : v.TextKeyed) :
    t.toValue = v.listed := by
  revert hkeys
  refine h.inductionOn (motive := fun v t => v.TextKeyed → t.toValue = v.listed) ?rule ?seq ?dict ?cyclic
  case rule =>
    intro text r hr _
    rw [Tree.toValue, ← (Rule.writtenAs_of_parse hr).1.text_eq, Value.listed, Value.filled]
  case seq =>
    intro form items ts _ ih hkeys
    cases hkeys with
    | seq hkeys => rw [Tree.toValue, Value.listed, Value.filled, itemsToValues_eq ih hkeys]
  case dict =>
    intro entries ts hnames _ ih hkeys
    rw [Tree.toValue, Value.listed, Value.filled, ofList_of_keyNames hnames hkeys]
    cases hkeys with
    | dict _ htexts _ hvalues => rw [entriesToValues_eq ih (textKeys_of_keyNames hnames htexts) hvalues]
  case cyclic =>
    intro web cell view t ih hkeys
    cases hkeys with
    | cyclic hkeys => exact ih hkeys

theorem toValue_ne_null (t : Tree) : t.toValue ≠ .null := by
  cases t <;> simp [Tree.toValue]

end Tree

namespace Transformation

variable {known : String → Bool}

theorem entriesToValues_of_compileNamed {entries : List (Key × Value)} {nested : Nested}
    (h : compileNamed known entries = .ok nested) (hkeys : (Value.dict entries).TextKeyed) :
    Tree.entriesToValues nested = Value.filledEntries .str entries := by
  obtain ⟨ts, hts, rfl⟩ := compileNamed_eq_ok_iff.mp h
  rw [ofList_of_keyNames hts.names hkeys]
  cases hkeys with
  | dict _ htexts _ hvalues =>
    have htrees := hts.trees.imp fun _ _ hp => hp.toValue_eq
    exact Tree.entriesToValues_eq htrees (textKeys_of_keyNames hts.names htexts) hvalues

/-- A summary compiles to what it summarizes. -/
theorem compile_summary {document : Value} {t : Transformation} (h : compile known document = .ok t) :
    compile known t.summary = .ok t := by
  obtain ⟨d, -, hnested, hproperties, hlink⟩ := compile_eq_ok_iff.mp h
  let d' : Description := ⟨t.properties.toValue, Tree.entriesToValues t.nested⟩
  have hd' : t.summary.Describes d' := Description.describes_document (d := d') t.properties.toValue_ne_null
  exact compile_eq_ok_iff.mpr ⟨d', hd', compileNamed_entriesToValues hnested, hproperties.toValue, hlink⟩

/-- The summary of a compiled document compiles to the same transformation, so that its own summary is
the same again. If all keys in what the document describes are texts, the summary is the document that
describes the same with lists for tuples: no rule has changed. -/
theorem summary_faithful {document : Value} {t : Transformation} (h : compile known document = .ok t) :
    compile known t.summary = .ok t ∧
      ∃ d, document.Describes d ∧ (d.TextKeyed → t.summary = d.listed.document) := by
  refine ⟨compile_summary h, ?_⟩
  obtain ⟨d, hd, hnested, hproperties, -⟩ := compile_eq_ok_iff.mp h
  refine ⟨d, hd, fun hkeys => ?_⟩
  rw [summary, hproperties.toValue_eq hkeys.1, entriesToValues_of_compileNamed hnested hkeys.2]
  rfl

/-- A tuple with a rule whose target ends in `[]` itself. -/
def rows : Description := ⟨.tuple [.str "r.0:$a[][]"], [(.str "$a[]", .str ".x:str")]⟩

def rowsTransformation : Transformation :=
  ⟨.list [.leaf ⟨["r", "0"], "$a[]", true⟩], [("$a[]", .leaf ⟨["", "x"], "str", false⟩)]⟩

theorem rows_are_summarized : compile (· == "str") rows.document = .ok rowsTransformation ∧
    compile (· == "str") rowsTransformation.summary = .ok rowsTransformation ∧
    rowsTransformation.summary = rows.listed.document := by
  have hcompile : compile (· == "str") rows.document = .ok rowsTransformation :=
    link_of_indirect rowsTransformation (by decide) (by decide)
  have hkeys : rows.TextKeyed := by
    refine ⟨.seq fun v hv => ?_, .dict ["$a[]"] rfl (by simp) fun e he => ?_⟩
    · cases List.mem_singleton.mp hv
      exact .scalar
    · cases List.mem_singleton.mp he
      exact .scalar
  obtain ⟨hsummary, d, hd, hlisted⟩ := summary_faithful hcompile
  have hne : rows.properties ≠ .null := by
    intro h
    cases h
  cases Description.eq_of_describes hd (Description.describes_document hne)
  exact ⟨hcompile, hsummary, hlisted hkeys⟩

end Transformation

end Reshape
