/-
  Reshape.Proofs.Merging: which rules of a description are in its tree.

  Keys become texts, and of two entries of a dictionary whose keys have one text the tree has one: in
  the place of the first, with what stands under the last. The merged description has the entries that
  are left. Its rules are those of the tree, from left to right.
  - `Tree.ReadFrom.texts_merged`: a tree has the rule texts of the merged description.
  - `Tree.ReadFrom.texts_of_apart`: if no two keys of a dictionary have one text, it has all.
  - `compile_keeps_rules`: so it is for the properties and the nested mappings of a document.
  - `a_rule_is_lost`: without that condition a rule can be lost.
-/

import Reshape.Proofs.Rulewise

namespace Reshape

/-! ## Merged descriptions -/

/-- The text of a key as a key; a key that cannot be written stays what it is. -/
def Key.named (k : Key) : Key :=
  match k.string? with
  | some name => .str name
  | none => k

namespace Value

mutual
/-- The description with texts for keys: of entries whose keys have one text the first gives the place
and the last the value. -/
def merged : Value → Value
  | .seq form items => .seq form (mergedItems items)
  | .dict entries => .dict (Entries.ofList (mergedEntries entries))
  | .cyclic web cell view => .cyclic web cell view.merged
  | v => v
def mergedItems : List Value → List Value
  | [] => []
  | v :: vs => v.merged :: mergedItems vs
def mergedEntries : List (Key × Value) → List (Key × Value)
  | [] => []
  | (k, v) :: es => (k.named, v.merged) :: mergedEntries es
end

/-- No two keys of one dictionary in the value have one text. -/
inductive NamesApart : Value → Prop where
  | scalar {s : Scalar} : NamesApart (.scalar s)
  | seq {form : Form} {items : List Value} : (∀ v ∈ items, NamesApart v) → NamesApart (.seq form items)
  | dict {entries : List (Key × Value)} : entries.Pairwise (fun e e' => e.1.string? ≠ e'.1.string?) →
      (∀ e ∈ entries, NamesApart e.2) → NamesApart (.dict entries)
  | set {items : List Key} : NamesApart (.set items)
  | cyclic {web : Web} {cell : Nat} {view : Value} : NamesApart view → NamesApart (.cyclic web cell view)
  | again {shape : Shape} : NamesApart (.again shape)

theorem texts_seq (form : Form) (items : List Value) : (Value.seq form items).texts = items.flatMap texts := by
  show (leavesOfItems items).filterMap ruleText? = _
  induction items with
  | nil => rfl
  | cons v items ih => rw [leavesOfItems, List.filterMap_append, ih, List.flatMap_cons, texts]

theorem texts_dict (entries : List (Key × Value)) :
    (Value.dict entries).texts = entries.flatMap fun e => e.2.texts := by
  show (leavesOfEntries entries).filterMap ruleText? = _
  induction entries with
  | nil => rfl
  | cons e entries ih => rw [leavesOfEntries, List.filterMap_append, ih, List.flatMap_cons, texts]

end Value

namespace Description

def merged (d : Description) : Description :=
  ⟨d.properties.merged, Entries.ofList (Value.mergedEntries d.nested)⟩

def NamesApart (d : Description) : Prop := d.properties.NamesApart ∧ (Value.dict d.nested).NamesApart

end Description

/-! ## Tables -/

namespace Entries

/-- The entries have the same names, and their values are related. -/
def Named {α β : Type} (R : α → β → Prop) (e : Key × α) (p : String × β) : Prop := e.1 = .str p.1 ∧ R e.2 p.2

variable {α β : Type} {R : α → β → Prop} {es : List (Key × α)} {ts : List (String × β)}

theorem forall₂_put {name : String} {a : α} {b : β} (hab : R a b) (h : List.Forall₂ (Named R) es ts) :
    List.Forall₂ (Named R) (put (.str name) a es) (put name b ts) := by
  induction h with
  | nil => exact .cons ⟨rfl, hab⟩ .nil
  | @cons e p es ts hep hes ih =>
    obtain ⟨k, a'⟩ := e
    obtain ⟨name', b'⟩ := p
    obtain ⟨rfl, hab'⟩ := hep
    rw [put, put, Key.same_str]
    by_cases hname : name' = name
    · simpa [hname] using ⟨⟨rfl, hab⟩, hes⟩
    · simpa [hname] using ⟨⟨rfl, hab'⟩, ih⟩

/-- Tables of pairs with the same names have the same names, and the values that stay are related. -/
theorem forall₂_ofList (h : List.Forall₂ (Named R) es ts) : List.Forall₂ (Named R) (ofList es) (ofList ts) := by
  suffices hall : ∀ {es' ts'}, List.Forall₂ (Named R) es' ts' →
      List.Forall₂ (Named R) (putAll es' es) (putAll ts' ts) from hall .nil
  induction h with
  | nil => exact fun h' => h'
  | @cons e p es ts hep hes ih =>
    obtain ⟨k, a⟩ := e
    obtain ⟨rfl, hab⟩ := hep
    exact fun h' => ih (forall₂_put hab h')

end Entries

/-! ## Trees -/

/-- The texts of a tree's rules, from left to right. -/
def Tree.texts (t : Tree) : List String := t.rules.map Rule.text

namespace Tree

variable {names : List String} {known : String → Bool}

theorem texts_list (items : List Tree) : (Tree.list items).texts = items.flatMap texts := by
  show (rulesOfItems items).map Rule.text = _
  induction items with
  | nil => rfl
  | cons t items ih => rw [rulesOfItems, List.map_append, ih, List.flatMap_cons, texts]

theorem texts_dict (entries : List (String × Tree)) : (Tree.dict entries).texts = entries.flatMap fun e => e.2.texts := by
  show (rulesOfEntries entries).map Rule.text = _
  induction entries with
  | nil => rfl
  | cons e entries ih => rw [rulesOfEntries, List.map_append, ih, List.flatMap_cons, texts]

theorem texts_leaf_of_parse {text : String} {r : Rule} (h : Rule.parse names known text = .ok r) :
    (Tree.leaf r).texts = (Value.str text).texts := by
  show [r.text] = [text]
  rw [(Rule.writtenAs_of_parse h).1.text_eq]

theorem flatMap_eq_of_forall₂ {α β : Type} {f : α → List String} {g : β → List String} {as : List α} {bs : List β}
    (h : List.Forall₂ (fun a b => g b = f a) as bs) : bs.flatMap g = as.flatMap f := by
  induction h with
  | nil => rfl
  | cons hab _ ih => rw [List.flatMap_cons, List.flatMap_cons, hab, ih]

theorem forall₂_mergedItems {items : List Value} {ts : List Tree}
    (h : List.Forall₂ (fun v t => t.texts = v.merged.texts) items ts) :
    List.Forall₂ (fun v t => t.texts = v.texts) (Value.mergedItems items) ts := by
  induction h with
  | nil => exact .nil
  | cons hv _ ih => exact .cons hv ih

theorem forall₂_mergedEntries {entries : List (Key × Value)} {ts : List (String × Tree)} (hnames : KeyNames entries ts)
    (h : List.Forall₂ (fun e p => p.2.texts = e.2.merged.texts) entries ts) :
    List.Forall₂ (Entries.Named fun v t => t.texts = v.texts) (Value.mergedEntries entries) ts := by
  induction h with
  | nil => exact .nil
  | @cons e p _ _ hv _ ih =>
    cases hnames with
    | cons hname hnames =>
      refine .cons ⟨?_, hv⟩ (ih hnames)
      show e.1.named = _
      rw [Key.named, hname]

/-- Texts that are all different as names of keys are all different as names of trees. -/
theorem nodup_of_keyNames {entries : List (Key × Value)} {ts : List (String × Tree)} (hnames : KeyNames entries ts)
    (h : entries.Pairwise fun e e' => e.1.string? ≠ e'.1.string?) : (Entries.keys ts).Nodup := by
  induction hnames with
  | nil => exact List.nodup_nil
  | @cons e p entries ts hname hnames ih =>
    obtain ⟨hfirst, h⟩ := List.pairwise_cons.mp h
    rw [Entries.keys_cons, List.nodup_cons]
    refine ⟨fun hmem => ?_, ih h⟩
    obtain ⟨t, ht⟩ := Entries.mem_keys.mp hmem
    obtain ⟨e', he', hname'⟩ := exists_of_mem_right hnames ht
    exact hfirst e' he' (hname.trans hname'.symm)

/-- A tree has the rule texts of the merged description, in their order. -/
theorem ReadFrom.texts_merged {v : Value} {t : Tree} (h : t.ReadFrom names known v) : t.texts = v.merged.texts := by
  refine h.inductionOn ?rule ?seq ?dict ?cyclic
  case rule => exact fun _ _ hr => texts_leaf_of_parse hr
  case seq =>
    intro form items ts _ ih
    rw [texts_list, Value.merged, Value.texts_seq]
    exact flatMap_eq_of_forall₂ (forall₂_mergedItems ih)
  case dict =>
    intro entries ts hnames _ ih
    rw [texts_dict, Value.merged, Value.texts_dict]
    have hkept := Entries.forall₂_ofList (forall₂_mergedEntries hnames ih)
    exact flatMap_eq_of_forall₂ (hkept.imp fun _ _ hep => hep.2)
  case cyclic => exact fun _ _ _ _ ih => ih

/-- If no two keys have one text, the tree has all rule texts of the description. -/
theorem ReadFrom.texts_of_apart {v : Value} {t : Tree} (h : t.ReadFrom names known v) (hapart : v.NamesApart) :
    t.texts = v.texts := by
  revert hapart
  refine h.inductionOn (motive := fun v t => v.NamesApart → t.texts = v.texts) ?rule ?seq ?dict ?cyclic
  case rule => exact fun _ _ hr _ => texts_leaf_of_parse hr
  case seq =>
    intro form items ts _ ih hapart
    cases hapart with
    | seq hitems =>
      rw [texts_list, Value.texts_seq]
      exact flatMap_eq_of_forall₂ (((List.forall₂_and_left items ts).mpr ⟨hitems, ih⟩).imp fun _ _ h => h.2 h.1)
  case dict =>
    intro entries ts hnames _ ih hapart
    cases hapart with
    | dict hkeys hvalues =>
      rw [Entries.ofList_of_nodup (nodup_of_keyNames hnames hkeys), texts_dict, Value.texts_dict]
      exact flatMap_eq_of_forall₂ (((List.forall₂_and_left entries ts).mpr ⟨hvalues, ih⟩).imp fun _ _ h => h.2 h.1)
  case cyclic =>
    intro web cell view t ih hapart
    cases hapart with
    | cyclic hapart => exact ih hapart

end Tree

/-! ## Documents -/

namespace Transformation

/-- The trees have the rule texts of the description: the properties theirs, and under every name the
nested mapping that has it. -/
structure Keeps (t : Transformation) (d : Description) : Prop where
  properties : t.properties.texts = d.properties.texts
  nested : List.Forall₂ (fun e p => e.1.string? = some p.1 ∧ p.2.texts = e.2.texts) d.nested t.nested

variable {known : String → Bool} {document : Value} {t : Transformation}

/-- A compiled document has the rules that are left when the entries of its dictionaries are merged
under the texts of their keys: as many, in the same order, with the same texts. If no two keys of a
dictionary have one text these are all rules there are, whatever the keys are. -/
theorem compile_keeps_rules (hc : compile known document = .ok t) :
    ∃ d, document.Describes d ∧ t.Keeps d.merged ∧ (d.NamesApart → t.Keeps d) := by
  obtain ⟨d, hd, hnested, hproperties, -⟩ := compile_eq_ok_iff.mp hc
  obtain ⟨ts, hts, hofList⟩ := compileNamed_eq_ok_iff.mp hnested
  refine ⟨d, hd, ⟨hproperties.texts_merged, ?_⟩, fun ⟨hpart, hdict⟩ => ⟨hproperties.texts_of_apart hpart, ?_⟩⟩
  · have hmerged := Tree.forall₂_mergedEntries hts.names (hts.trees.imp fun _ _ h => h.texts_merged)
    rw [hofList]
    refine (Entries.forall₂_ofList hmerged).imp fun e p hep => ⟨?_, hep.2⟩
    rw [hep.1, Key.string?_str]
  · cases hdict with
    | dict hkeys hvalues =>
      rw [hofList, Entries.ofList_of_nodup (Tree.nodup_of_keyNames hts.names hkeys)]
      have htrees := (List.forall₂_and_left d.nested ts).mpr ⟨hvalues, hts.trees⟩
      exact hts.names.mp (fun _ _ hname h => ⟨hname, h.2.texts_of_apart h.1⟩) htrees

/-- A rule under the key 1, and one under the text of that key. -/
def clashing : Description :=
  ⟨.dict [(.scalar (.int 1), .str "a:str"), (.scalar .null, .str "b:str"), (.str "1", .str "c:str")], []⟩

def clashingTransformation : Transformation :=
  ⟨.dict [("1", .leaf ⟨["c"], "str", false⟩), ("None", .leaf ⟨["b"], "str", false⟩)], []⟩

theorem a_rule_is_lost : ¬ ∀ (known : String → Bool) (document : Value) (t : Transformation),
    compile known document = .ok t → ∀ d, document.Describes d → t.Keeps d := by
  intro h
  have hcompile : compile (· == "str") clashing.document = .ok clashingTransformation :=
    link_of_flat clashingTransformation rfl
  have hne : clashing.properties ≠ .null := by
    intro h
    cases h
  have hkeeps := h _ _ _ hcompile _ (Description.describes_document hne)
  have htexts : ["c:str", "b:str"] = ["a:str", "b:str", "c:str"] := hkeeps.properties
  simp at htexts

/-- Keys of four kinds, none with the text of another. -/
def mixed : Description :=
  ⟨.dict [(.scalar (.int 1), .str "a:str"), (.scalar (.bool false), .tuple [.str "b:$n", .str "c:str[]"]),
    (.scalar .null, .dict [(.str "1", .str "d:str")])], [(.str "$n", .list [.str "e:str"])]⟩

def mixedTransformation : Transformation :=
  ⟨.dict [("1", .leaf ⟨["a"], "str", false⟩),
    ("False", .list [.leaf ⟨["b"], "$n", false⟩, .leaf ⟨["c"], "str", true⟩]),
    ("None", .dict [("1", .leaf ⟨["d"], "str", false⟩)])], [("$n", .list [.leaf ⟨["e"], "str", false⟩])]⟩

theorem mixed_keeps_its_rules : compile (· == "str") mixed.document = .ok mixedTransformation ∧
    mixed.NamesApart ∧ mixedTransformation.Keeps mixed := by
  have hcompile : compile (· == "str") mixed.document = .ok mixedTransformation :=
    link_of_indirect mixedTransformation (by decide) (by decide)
  have hne : mixed.properties ≠ .null := by
    intro h
    cases h
  have hrule : ∀ text : String, (Value.str text).NamesApart := fun _ => .scalar
  have hapart : mixed.NamesApart := by
    refine ⟨.dict (by decide) ?_, .dict (List.pairwise_singleton ..) ?_⟩
    · intro e he
      fin_cases he
      · exact hrule _
      · exact .seq (by simp [hrule])
      · exact .dict (by simp) (by simp [hrule])
    · intro e he
      fin_cases he
      exact .seq (by simp [hrule])
  obtain ⟨d, hd, -, hkeeps⟩ := compile_keeps_rules hcompile
  cases Description.eq_of_describes hd (Description.describes_document hne)
  exact ⟨hcompile, hapart, hkeeps hapart⟩

end Transformation

end Reshape
