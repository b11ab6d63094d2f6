/-
  Reshape.Proofs.Acceptance: which documents compile.

  A document compiles if what it describes is acceptable. The rules that make up the chains of nested
  mappings are those of the pruned description: of two keys of a dictionary with one text, only what
  stands under the last is compiled.
  - `compile_described`: what compiling says of a document, stage by stage.
  - `linked_of_compile`: what is compiled is linked.
  - `compile_iff`: a document compiles if and only if it describes something acceptable, and otherwise
    the fault is a defect of the document, unless the document holds itself.
  - `a_replaced_rule_is_not_followed`: rules that a later key replaces do not count.
-/

import Reshape.Proofs.Linking

namespace Reshape

open References

/-! ## Documents -/

/-- The document is a dictionary with `properties` that are not null, and `nested` that are a
dictionary, null or not there. -/
def Value.Describes (document : Value) (d : Description) : Prop :=
  ∃ entries, document.contents = .dict entries ∧
    entries.lookup (.str "properties") = some d.properties ∧ d.properties ≠ .null ∧
    (((entries.lookup (.str "nested")).getD .null).contents = .null ∧ d.nested = [] ∨
      ((entries.lookup (.str "nested")).getD .null).contents = .dict d.nested)

theorem Value.KeysWritable.of_holds {v w : Value} (h : v.KeysWritable) (hw : v.Holds w) : w.KeysWritable := by
  have hcontents := h.contents
  rcases hw with ⟨form, items, hc, hmem⟩ | ⟨entries, k, hc, hmem⟩
  · rw [hc] at hcontents
    cases hcontents with
    | seq hitems => exact hitems w hmem
  · rw [hc] at hcontents
    cases hcontents with
    | dict _ hvalues => exact hvalues _ hmem

/-- What is described is held by the document. -/
theorem Value.Describes.holds {document : Value} {d : Description} (h : document.Describes d) :
    document.Holds d.properties ∧
      (d.nested = [] ∨ ∃ v, document.Holds v ∧ v.contents = .dict d.nested) := by
  obtain ⟨entries, hc, hp, -, hn⟩ := h
  constructor
  · obtain ⟨k, hk⟩ := Entries.exists_mem_of_lookup hp
    exact Or.inr ⟨entries, k, hc, hk⟩
  · rcases hn with ⟨-, hn⟩ | hn
    · exact Or.inl hn
    · refine Or.inr ?_
      cases hl : entries.lookup (.str "nested") with
      | none =>
        rw [hl] at hn
        cases hn
      | some v =>
        rw [hl] at hn
        obtain ⟨k, hk⟩ := Entries.exists_mem_of_lookup hl
        exact ⟨v, Or.inr ⟨entries, k, hc, hk⟩, hn⟩

theorem Value.Describes.keysWritable {document : Value} {d : Description} (h : document.Describes d)
    (hkeys : document.KeysWritable) : d.properties.KeysWritable ∧
      (∀ e ∈ d.nested, e.1.isWritable = true) ∧ ∀ e ∈ d.nested, e.2.KeysWritable := by
  obtain ⟨hp, hn⟩ := h.holds
  refine ⟨hkeys.of_holds hp, ?_⟩
  rcases hn with hn | ⟨v, hv, hc⟩
  · simp [hn]
  · have hcontents := (hkeys.of_holds hv).contents
    rw [hc] at hcontents
    cases hcontents with
    | dict hk hvalues => exact ⟨hk, hvalues⟩

theorem Value.Describes.isFinite {document : Value} {d : Description} (h : document.Describes d)
    (hfinite : document.isFinite = true) :
    d.properties.isFinite = true ∧ ∀ e ∈ d.nested, e.2.isFinite = true := by
  obtain ⟨hp, hn⟩ := h.holds
  refine ⟨hp.isFinite hfinite, ?_⟩
  rcases hn with hn | ⟨v, hv, hc⟩
  · simp [hn]
  · intro e he
    exact Value.Holds.isFinite (Or.inr ⟨d.nested, e.1, hc, he⟩) (hv.isFinite hfinite)

/-- If a described part holds itself, so does something in the document. -/
theorem Value.Describes.defect {document : Value} {d : Description} {fault : CompileFault}
    (h : document.Describes d) (hfault : fault.isDefect = true ∨ fault = .endless ∧
      (d.properties.isFinite = false ∨ ∃ e ∈ d.nested, e.2.isFinite = false)) :
    fault.isDefect = true ∨ fault = .endless ∧ document.isFinite = false := by
  refine hfault.imp_right fun ⟨hfault, hpart⟩ => ⟨hfault, ?_⟩
  rw [Bool.eq_false_iff]
  intro hfinite
  obtain ⟨hp, hn⟩ := h.isFinite hfinite
  rcases hpart with hpart | ⟨e, he, hpart⟩
  · rw [hp] at hpart
    cases hpart
  · rw [hn e he] at hpart
    cases hpart

namespace Transformation

theorem compile_of_describes {document : Value} {d : Description} (known : String → Bool)
    (h : document.Describes d) : compile known document = (do
      let nested ← compileNamed known d.nested
      let properties ← Tree.compile (Entries.keys nested) known [.key "properties"] d.properties
      link properties nested) := by
  obtain ⟨entries, hc, hp, hne, hn⟩ := h
  have hnested : compileNested known ((entries.lookup (.str "nested")).getD .null) =
      compileNamed known d.nested := by
    unfold compileNested
    rcases hn with ⟨hn, hd⟩ | hn
    · rw [hn, hd]
      rfl
    · rw [hn]
  unfold compile
  rw [hc]
  dsimp only
  rw [hp, hnested]
  split
  · rename_i heq
    exact absurd heq hne
  · rfl

/-- What is wrong with the outer shape of a document. -/
inductive OuterDefect (document : Value) : CompileFault → Prop where
  | documentKind : (∀ entries, document.contents ≠ .dict entries) → OuterDefect document (.documentKind document.kind)
  | propertiesMissing {entries : List (Key × Value)} : document.contents = .dict entries →
      (entries.lookup (.str "properties")).getD .null = .null → OuterDefect document .propertiesMissing
  | nestedKind {entries : List (Key × Value)} {v : Value} : document.contents = .dict entries →
      (entries.lookup (.str "properties")).getD .null ≠ .null → entries.lookup (.str "nested") = some v →
      v.contents ≠ .null → (∀ es, v.contents ≠ .dict es) → OuterDefect document (.nestedKind v.kind)

theorem compileNested_of_other {v : Value} (known : String → Bool) (hnull : v.contents ≠ .null)
    (hdict : ∀ es, v.contents ≠ .dict es) : compileNested known v = .error (.nestedKind v.kind) := by
  unfold compileNested
  split
  · rename_i heq
    exact absurd heq hnull
  · rename_i es heq
    exact absurd heq (hdict es)
  · rfl

theorem compile_of_outerDefect {document : Value} {fault : CompileFault} (known : String → Bool)
    (h : OuterDefect document fault) : compile known document = .error fault := by
  unfold compile
  cases h with
  | documentKind hno =>
    split
    · rename_i entries hc
      exact absurd hc (hno entries)
    · rfl
  | propertiesMissing hc hp =>
    rw [hc]
    dsimp only
    rw [hp]
  | nestedKind hc hp hl hnull hdict =>
    rw [hc]
    dsimp only
    rw [hl]
    split
    · rename_i heq
      exact absurd heq hp
    · have hnested := compileNested_of_other known hnull hdict
      rw [Option.getD_some, hnested]
      rfl

/-- A document of another shape than a description has is wrong in one of these ways. -/
theorem exists_outerDefect {document : Value} (h : ∀ d, ¬ document.Describes d) :
    ∃ fault, OuterDefect document fault := by
  by_cases hc : ∃ entries, document.contents = .dict entries
  · obtain ⟨entries, hc⟩ := hc
    cases hp : entries.lookup (.str "properties") with
    | none => exact ⟨_, .propertiesMissing hc (by rw [hp]; rfl)⟩
    | some spec =>
      by_cases hspec : spec = .null
      · exact ⟨_, .propertiesMissing hc (by rw [hp]; exact hspec)⟩
      · cases hl : entries.lookup (.str "nested") with
        | none => exact absurd ⟨entries, hc, hp, hspec, Or.inl ⟨by rw [hl]; rfl, rfl⟩⟩ (h ⟨spec, []⟩)
        | some v =>
          refine ⟨_, .nestedKind hc (by rwa [hp]) hl (fun hv => ?_) fun es hv => ?_⟩
          · exact h ⟨spec, []⟩ ⟨entries, hc, hp, hspec, Or.inl ⟨by rwa [hl], rfl⟩⟩
          · exact h ⟨spec, es⟩ ⟨entries, hc, hp, hspec, Or.inr (by rwa [hl])⟩
  · exact ⟨_, .documentKind (not_exists.mp hc)⟩

theorem compile_of_not_describes {document : Value} (known : String → Bool)
    (h : ∀ d, ¬ document.Describes d) :
    ∃ fault, compile known document = .error fault ∧ fault.isDefect = true := by
  obtain ⟨fault, hfault⟩ := exists_outerDefect h
  refine ⟨fault, compile_of_outerDefect known hfault, ?_⟩
  cases hfault <;> rfl

/-- Stage by stage: nested mappings, properties, loops. -/
theorem compile_described {document : Value} {d : Description} (known : String → Bool)
    (h : document.Describes d) :
    match compile known document with
    | .ok t => t.Linked ∧ d.Acceptable known d.pruned
    | .error fault => document.KeysWritable → ¬ d.Acceptable known d.pruned ∧
        (fault.isDefect = true ∨ fault = .endless ∧ document.isFinite = false) := by
  have hnamed := named_explained known d
  rw [compile_of_describes known h]
  cases hcn : compileNamed known d.nested with
  | error fault =>
    rw [hcn] at hnamed
    intro hkeys
    obtain ⟨-, hk, hvalues⟩ := h.keysWritable hkeys
    obtain ⟨hnot, hfault⟩ := hnamed hk hvalues
    exact ⟨hnot _, h.defect (hfault.imp_right fun ⟨hfault, he⟩ => ⟨hfault, Or.inr he⟩)⟩
  | ok nested =>
    rw [hcn] at hnamed
    simp only [bind, Except.bind]
    have hproperties : Explained (Entries.keys nested) known d.properties _ :=
      compile_explained d.properties [.key "properties"]
    cases hcp : Tree.compile (Entries.keys nested) known [.key "properties"] d.properties with
    | error fault =>
      rw [hcp] at hproperties
      intro hkeys
      obtain ⟨⟨leaf, hleaf, hrule⟩, hfault⟩ := hproperties (h.keysWritable hkeys).1
      refine ⟨fun hacc => hrule ?_, h.defect (hfault.imp_right fun ⟨hfault, he⟩ => ⟨hfault, Or.inl he⟩)⟩
      exact hnamed.isRule_iff.mpr (hacc.rules leaf (List.mem_append_left _ hleaf))
    | ok properties =>
      rw [hcp] at hproperties
      have hlinked := linked_of_named hnamed hproperties
      have hloop := hnamed.hasLoop_iff hproperties.rules
      have hlink := link_explained (fun n => hlinked.defined)
      dsimp only
      cases hcl : link properties nested with
      | error fault =>
        rw [hcl] at hlink
        intro _
        exact ⟨fun hacc => hacc.ends (hloop.mp hlink.1), Or.inl hlink.2⟩
      | ok t =>
        rw [hcl] at hlink
        obtain ⟨rfl, hends⟩ := hlink
        refine ⟨hlinked, hnamed.named, fun leaf hleaf => ?_, fun hl => hends (hloop.mpr hl)⟩
        rcases List.mem_append.mp hleaf with hleaf | hleaf
        · exact hnamed.isRule_iff.mp (hproperties.leaves leaf hleaf)
        · exact hnamed.leaves leaf hleaf

theorem describes_of_compile {known : String → Bool} {document : Value} {t : Transformation}
    (h : compile known document = .ok t) : ∃ d, document.Describes d := by
  by_contra hno
  obtain ⟨fault, hfault, -⟩ := compile_of_not_describes known (not_exists.mp hno)
  rw [h] at hfault
  cases hfault

theorem linked_of_compile {known : String → Bool} {document : Value} {t : Transformation}
    (h : compile known document = .ok t) : t.Linked := by
  obtain ⟨d, hd⟩ := describes_of_compile h
  have hdescribed := compile_described known hd
  rw [h] at hdescribed
  exact hdescribed.1

/-- A document compiles if and only if it describes something acceptable. If it does not, the fault
is a defect of the document, unless the document holds itself. -/
theorem compile_iff {known : String → Bool} {document : Value} (hkeys : document.KeysWritable) :
    ((∃ t, compile known document = .ok t) ↔ ∃ d, document.Describes d ∧ d.Acceptable known d.pruned) ∧
      ∀ fault, compile known document = .error fault →
        fault.isDefect = true ∨ fault = .endless ∧ document.isFinite = false := by
  refine ⟨⟨?_, ?_⟩, ?_⟩
  · intro h
    obtain ⟨t, ht⟩ := h
    obtain ⟨d, hd⟩ := describes_of_compile ht
    have hdescribed := compile_described known hd
    rw [ht] at hdescribed
    exact ⟨d, hd, hdescribed.2⟩
  · intro h
    obtain ⟨d, hd, hacc⟩ := h
    have hdescribed := compile_described known hd
    cases hc : compile known document with
    | ok t => exact ⟨t, rfl⟩
    | error fault =>
      rw [hc] at hdescribed
      exact absurd hacc (hdescribed hkeys).1
  · intro fault hfault
    by_cases hd : ∃ d, document.Describes d
    · obtain ⟨d, hd⟩ := hd
      have hdescribed := compile_described known hd
      rw [hfault] at hdescribed
      exact (hdescribed hkeys).2
    · obtain ⟨fault', hfault', hdefect⟩ := compile_of_not_describes known (not_exists.mp hd)
      rw [hfault] at hfault'
      cases hfault'
      exact Or.inl hdefect

/-- A tree whose nodes are read by one nested mapping, at any depth. -/
def treeDocument : Value :=
  .dict [(.str "properties", .str "tree:$n"),
    (.str "nested", .dict [(.str "$n", .dict [(.str "name", .str "name:str"), (.str "subs", .str "subs:$n[]")])])]

def treeTransformation : Transformation :=
  ⟨.leaf ⟨["tree"], "$n", false⟩,
    [("$n", .dict [("name", .leaf ⟨["name"], "str", false⟩), ("subs", .leaf ⟨["subs"], "$n", true⟩)])]⟩

theorem compile_treeDocument : compile (· == "str") treeDocument = .ok treeTransformation :=
  link_of_indirect treeTransformation (by decide) (by decide)

theorem treeDocument_is_acceptable : treeDocument.KeysWritable ∧
    ∃ d, treeDocument.Describes d ∧ d.Acceptable (· == "str") d.pruned := by
  have hkeys : treeDocument.KeysWritable := by
    simp [treeDocument, Value.keysWritable_dict, Value.keysWritable_scalar, Key.isWritable]
  exact ⟨hkeys, (compile_iff hkeys).1.mp ⟨_, compile_treeDocument⟩⟩

/-- A list that is its own item is read without an end. -/
example : compile (fun _ => true) (.dict [(.str "properties", Web.value #[.seq .list [0]] 0)]) =
    .error .endless := by rfl

/-- The only rule that leads to `$x` is replaced by the one under the next key, which has the same
text. -/
def replaced : Description :=
  ⟨.dict [(.scalar (.int 1), .str "a:$x"), (.str "1", .str "b:any")], [(.str "$x", .str "$parent:$x")]⟩

def replacedDocument : Value :=
  .dict [(.str "properties", replaced.properties), (.str "nested", .dict replaced.nested)]

def replacedTransformation : Transformation :=
  ⟨.dict [("1", .leaf ⟨["b"], "any", false⟩)], [("$x", .leaf ⟨["$parent"], "$x", false⟩)]⟩

theorem replaced_hasLoop : replaced.HasLoop := by
  have hreplaced : Rule.parse ["$x"] (fun _ => true) "a:$x" = .ok ⟨["a"], "$x", false⟩ := by rfl
  have hparent : Rule.parse ["$x"] (fun _ => true) "$parent:$x" = .ok ⟨["$parent"], "$x", false⟩ := by rfl
  have hreach : replaced.Reaches "$x" :=
    ⟨_, ⟨"a:$x", by simp [replaced, Value.leaves, Value.leavesOfEntries], (Rule.writtenAs_of_parse hreplaced).1⟩,
      rfl, .refl⟩
  have hdirect : replaced.Direct "$x" "$x" :=
    ⟨_, ⟨_, List.mem_singleton_self _, rfl, "$parent:$x", List.mem_singleton_self _,
      (Rule.writtenAs_of_parse hparent).1⟩, rfl, rfl, ⟨1, 0, rfl⟩, rfl⟩
  exact ⟨"$x", .single ⟨hreach, hreach, hdirect⟩⟩

/-- If all rules counted, the loop would be a defect. -/
theorem a_replaced_rule_is_not_followed :
    ¬ ∀ (known : String → Bool) (document : Value), document.KeysWritable →
      ((∃ t, compile known document = .ok t) ↔ ∃ d, document.Describes d ∧ d.Acceptable known d) := by
  intro h
  have hkeys : replacedDocument.KeysWritable := by
    simp [replacedDocument, replaced, Value.keysWritable_dict, Value.keysWritable_scalar, Key.isWritable]
    decide
  have hcompile : compile (fun _ => true) replacedDocument = .ok replacedTransformation :=
    link_of_flat replacedTransformation rfl
  obtain ⟨⟨properties, nested⟩, ⟨entries, hc, hp, -, hn⟩, hacc⟩ := (h _ _ hkeys).mp ⟨_, hcompile⟩
  cases hc
  cases hp
  have hnested : nested = replaced.nested := by
    rcases hn with ⟨hn, -⟩ | hn
    · cases hn
    · cases hn
      rfl
  subst hnested
  exact hacc.ends replaced_hasLoop

end Transformation

end Reshape
