/-
  Reshape.Proofs.Compilation: what comes of reading a description.

  A description is read if every leaf is a rule text, and then the rules of its tree are those of the
  pruned description. If it is not read, there is a leaf that is no rule text, and the fault is a
  defect of the description, unless the description holds itself.
  - `compile_explained`: what a tree or a fault says of the description it was made from.
  - `compileEntries_explained`: the same for the entries of a dictionary.
  - `forall₂_latest`: the entries that pruning leaves are those whose trees stay in the table.
-/

import Mathlib.Data.List.Forall2
import Reshape.Proofs.Descriptions
import Reshape.Proofs.Parts
import Reshape.Tree.Compile

namespace Reshape

theorem exists_of_mem_left {α β : Type} {R : α → β → Prop} {as : List α} {bs : List β}
    (h : List.Forall₂ R as bs) {a : α} (ha : a ∈ as) : ∃ b ∈ bs, R a b := by
  induction h with
  | nil => cases ha
  | cons hab _ ih =>
    rcases List.mem_cons.mp ha with rfl | ha
    · exact ⟨_, by simp, hab⟩
    · obtain ⟨b, hb, h⟩ := ih ha
      exact ⟨b, List.mem_cons_of_mem _ hb, h⟩

theorem exists_of_mem_right {α β : Type} {R : α → β → Prop} {as : List α} {bs : List β}
    (h : List.Forall₂ R as bs) {b : β} (hb : b ∈ bs) : ∃ a ∈ as, R a b :=
  exists_of_mem_left (R := flip R) h.flip hb

/-- The tree has been made from the description. -/
structure Faithful (names : List String) (known : String → Bool) (v : Value) (t : Tree) : Prop where
  leaves : ∀ leaf ∈ v.leaves, leaf.IsRule names known
  rules : ∀ r, r ∈ t.rules ↔ v.pruned.HasRule r
  targets : ∀ r ∈ t.rules, r.path ≠ [] ∧ Rule.TargetKnown names known r.target

structure FaithfulEntry (names : List String) (known : String → Bool) (e : Key × Value) (p : String × Tree) :
    Prop where
  name : e.1.string? = some p.1
  tree : Faithful names known e.2 p.2

/-- The fault is due to a leaf of the description, and is a defect unless the description holds
itself. -/
structure Blames (names : List String) (known : String → Bool) (v : Value) (fault : CompileFault) : Prop where
  leaf : ∃ leaf ∈ v.leaves, ¬ leaf.IsRule names known
  defect : fault.isDefect = true ∨ fault = .endless ∧ v.isFinite = false

def Explained (names : List String) (known : String → Bool) (v : Value) : Except CompileFault Tree → Prop
  | .ok t => Faithful names known v t
  | .error fault => v.KeysWritable → Blames names known v fault

def ItemsExplained (names : List String) (known : String → Bool) (items : List Value) :
    Except CompileFault (List Tree) → Prop
  | .ok ts => List.Forall₂ (Faithful names known) items ts
  | .error fault => (∀ v ∈ items, v.KeysWritable) → ∃ v ∈ items, Blames names known v fault

def EntriesExplained (names : List String) (known : String → Bool) (entries : List (Key × Value)) :
    Except CompileFault (List (String × Tree)) → Prop
  | .ok ts => List.Forall₂ (FaithfulEntry names known) entries ts
  | .error fault => (∀ e ∈ entries, e.1.isWritable = true) → (∀ e ∈ entries, e.2.KeysWritable) →
      ∃ e ∈ entries, Blames names known e.2 fault

variable {names : List String} {known : String → Bool}

/-! ## Items and entries -/

theorem compileItems_explained {items : List Value}
    (h : ∀ v ∈ items, ∀ place, Explained names known v (Tree.compile names known place v)) (place : Location)
    (i : Nat) : ItemsExplained names known items (Tree.compileItems names known place i items) := by
  induction items generalizing i with
  | nil => exact .nil
  | cons v items ih =>
    obtain ⟨hv, hitems⟩ := List.forall_mem_cons.mp h
    have hv := hv (place ++ [.index i])
    have hitems := ih hitems (i + 1)
    rw [Tree.compileItems]
    cases hc : Tree.compile names known (place ++ [.index i]) v with
    | error fault =>
      rw [hc] at hv
      intro hkeys
      exact ⟨v, by simp, hv (hkeys v (by simp))⟩
    | ok t =>
      rw [hc] at hv
      cases hcs : Tree.compileItems names known place (i + 1) items with
      | error fault =>
        rw [hcs] at hitems
        intro hkeys
        obtain ⟨w, hw, hblame⟩ := hitems fun w hw => hkeys w (List.mem_cons_of_mem _ hw)
        exact ⟨w, List.mem_cons_of_mem _ hw, hblame⟩
      | ok ts =>
        rw [hcs] at hitems
        exact .cons hv hitems

theorem compileEntries_explained {entries : List (Key × Value)}
    (h : ∀ e ∈ entries, ∀ place, Explained names known e.2 (Tree.compile names known place e.2))
    (place : Location) : EntriesExplained names known entries (Tree.compileEntries names known place entries) := by
  induction entries with
  | nil => exact .nil
  | cons e entries ih =>
    obtain ⟨k, v⟩ := e
    obtain ⟨hv, hentries⟩ := List.forall_mem_cons.mp h
    have hentries := ih hentries
    rw [Tree.compileEntries, keyName]
    cases hk : k.string? with
    | none =>
      intro hkeys
      obtain ⟨name, hname⟩ := Key.exists_string (hkeys (k, v) (by simp))
      rw [hk] at hname
      cases hname
    | some name =>
      have hv := hv (place ++ [.key name])
      dsimp only at hv
      simp only [bind, Except.bind]
      cases hc : Tree.compile names known (place ++ [.key name]) v with
      | error fault =>
        rw [hc] at hv
        intro _ hvalues
        exact ⟨(k, v), by simp, hv (hvalues (k, v) (by simp))⟩
      | ok t =>
        rw [hc] at hv
        cases hcs : Tree.compileEntries names known place entries with
        | error fault =>
          rw [hcs] at hentries
          intro hkeys hvalues
          obtain ⟨e, he, hblame⟩ := hentries (fun e he => hkeys e (List.mem_cons_of_mem _ he))
            fun e he => hvalues e (List.mem_cons_of_mem _ he)
          exact ⟨e, List.mem_cons_of_mem _ he, hblame⟩
        | ok ts =>
          rw [hcs] at hentries
          exact .cons ⟨hk, hv⟩ hentries

/-! ## Entries that are replaced -/

/-- The trees under the names that are not replaced are those of the entries that pruning leaves. -/
theorem forall₂_latest {entries : List (Key × Value)} {ts : List (String × Tree)}
    (h : List.Forall₂ (FaithfulEntry names known) entries ts) :
    List.Forall₂ (fun e p => e.1.string? = some p.1 ∧ ∀ r, r ∈ p.2.rules ↔ e.2.HasRule r)
      (Value.prunedEntries entries) (Entries.latest ts) := by
  induction h with
  | nil => exact .nil
  | @cons e p entries ts hep hrest ih =>
    obtain ⟨k, v⟩ := e
    obtain ⟨name, t⟩ := p
    obtain ⟨hk, hfaithful⟩ := hep
    dsimp only at hk
    have hagain : (entries.any fun e => e.1.string? = k.string?) = (Entries.keys ts).contains name := by
      rw [hk, Bool.eq_iff_iff]
      simp only [List.any_eq_true, decide_eq_true_eq, List.contains_eq_mem, Entries.mem_keys]
      constructor
      · intro hx
        obtain ⟨e, he, hename⟩ := hx
        obtain ⟨p, hp, hpname, -⟩ := exists_of_mem_left hrest he
        rw [hename] at hpname
        cases hpname
        exact ⟨p.2, hp⟩
      · intro hx
        obtain ⟨u, hu⟩ := hx
        obtain ⟨e, he, hename, -⟩ := exists_of_mem_right hrest hu
        exact ⟨e, he, hename⟩
    rw [Value.prunedEntries, Entries.latest, hagain]
    cases (Entries.keys ts).contains name with
    | true => exact ih
    | false => exact .cons ⟨hk, hfaithful.rules⟩ ih

/-- The rules of a table of trees are those that pruning leaves. -/
theorem mem_rulesOfEntries_ofList {entries : List (Key × Value)} {ts : List (String × Tree)}
    (h : List.Forall₂ (FaithfulEntry names known) entries ts) (r : Rule) :
    r ∈ Tree.rulesOfEntries (Entries.ofList ts) ↔ (Value.dict (Value.prunedEntries entries)).HasRule r := by
  have hlatest := forall₂_latest h
  rw [Tree.mem_rulesOfEntries, Value.hasRule_dict]
  constructor
  · intro hx
    obtain ⟨p, hp, hr⟩ := hx
    obtain ⟨e, he, -, hrules⟩ := exists_of_mem_right hlatest (Entries.mem_ofList.mp hp)
    exact ⟨e, he, (hrules r).mp hr⟩
  · intro hx
    obtain ⟨e, he, hr⟩ := hx
    obtain ⟨p, hp, -, hrules⟩ := exists_of_mem_left hlatest he
    exact ⟨p, Entries.mem_ofList.mpr hp, (hrules r).mpr hr⟩

/-! ## Descriptions -/

theorem blames_of_leaf {v : Value} {fault : CompileFault} (hv : v.leaves = [v]) (hrule : ¬ v.IsRule names known)
    (hfault : fault.isDefect = true ∨ fault = .endless ∧ v.isFinite = false) : Blames names known v fault :=
  ⟨⟨v, by simp [hv], hrule⟩, hfault⟩

theorem Blames.of_part {v w : Value} {fault : CompileFault} (h : Blames names known w fault)
    (hleaves : ∀ leaf ∈ w.leaves, leaf ∈ v.leaves) (hfinite : v.isFinite = true → w.isFinite = true) :
    Blames names known v fault := by
  obtain ⟨⟨leaf, hleaf, hrule⟩, hdefect⟩ := h
  refine ⟨⟨leaf, hleaves leaf hleaf, hrule⟩, hdefect.imp_right fun ⟨hfault, hw⟩ => ⟨hfault, ?_⟩⟩
  rw [Bool.eq_false_iff]
  intro hv
  rw [hfinite hv] at hw
  cases hw

theorem not_isRule {v : Value} (hv : ∀ text, v ≠ .str text) : ¬ v.IsRule names known := by
  intro h
  obtain ⟨text, rfl, -⟩ := h
  exact hv text rfl

theorem compile_str_explained (text : String) (place : Location) :
    Explained names known (.str text) (Tree.compile names known place (.str text)) := by
  rw [Tree.compile]
  cases hp : Rule.parse names known text with
  | ok rule =>
    obtain ⟨hwritten, htarget⟩ := Rule.writtenAs_of_parse hp
    refine ⟨fun leaf hleaf => ?_, fun r => ?_, fun r hr => ?_⟩
    · exact ⟨text, List.mem_singleton.mp hleaf, Rule.exists_parse_iff.mp ⟨rule, hp⟩⟩
    · constructor
      · intro hr
        rw [List.mem_singleton.mp hr]
        exact ⟨text, List.mem_singleton.mpr rfl, hwritten⟩
      · intro h
        obtain ⟨text', htext, hr⟩ := h
        cases List.mem_singleton.mp htext
        rw [hr.unique hwritten]
        exact List.mem_singleton.mpr rfl
    · rw [List.mem_singleton.mp hr]
      exact ⟨hwritten.path_ne.1, htarget⟩
  | error fault =>
    intro _
    refine blames_of_leaf rfl ?_ (Or.inl rfl)
    intro h
    obtain ⟨text', heq, hrule⟩ := h
    cases heq
    obtain ⟨r, hr⟩ := Rule.exists_parse_iff.mpr hrule
    rw [hp] at hr
    cases hr

theorem compile_scalar_explained (s : Scalar) (place : Location) :
    Explained names known (.scalar s) (Tree.compile names known place (.scalar s)) := by
  by_cases hs : ∃ text, s = .str text
  · obtain ⟨text, rfl⟩ := hs
    exact compile_str_explained text place
  · have hc : Tree.compile names known place (.scalar s) = .error (.unsupported place s.kind) := by
      rw [Tree.compile]
      rintro text rfl
      exact hs ⟨text, rfl⟩
    rw [hc]
    exact fun _ => blames_of_leaf rfl (not_isRule fun text h => hs ⟨text, by cases h; rfl⟩) (Or.inl rfl)

theorem faithful_seq {form : Form} {items : List Value} {ts : List Tree}
    (h : List.Forall₂ (Faithful names known) items ts) : Faithful names known (.seq form items) (.list ts) := by
  refine ⟨fun leaf hleaf => ?_, fun r => ?_, fun r hr => ?_⟩
  · obtain ⟨v, hv, hleaf⟩ := Value.mem_leavesOfItems.mp hleaf
    obtain ⟨t, -, hfaithful⟩ := exists_of_mem_left h hv
    exact hfaithful.leaves leaf hleaf
  · rw [Value.pruned, Value.hasRule_seq, Tree.rules, Tree.mem_rulesOfItems]
    constructor
    · intro hx
      obtain ⟨t, ht, hr⟩ := hx
      obtain ⟨v, hv, hfaithful⟩ := exists_of_mem_right h ht
      exact ⟨v.pruned, Value.mem_prunedItems.mpr ⟨v, hv, rfl⟩, (hfaithful.rules r).mp hr⟩
    · intro hx
      obtain ⟨w, hw, hr⟩ := hx
      obtain ⟨v, hv, rfl⟩ := Value.mem_prunedItems.mp hw
      obtain ⟨t, ht, hfaithful⟩ := exists_of_mem_left h hv
      exact ⟨t, ht, (hfaithful.rules r).mpr hr⟩
  · obtain ⟨t, ht, hr⟩ := Tree.mem_rulesOfItems.mp hr
    obtain ⟨v, -, hfaithful⟩ := exists_of_mem_right h ht
    exact hfaithful.targets r hr

theorem faithful_dict {entries : List (Key × Value)} {ts : List (String × Tree)}
    (h : List.Forall₂ (FaithfulEntry names known) entries ts) :
    Faithful names known (.dict entries) (.dict (Entries.ofList ts)) := by
  refine ⟨fun leaf hleaf => ?_, fun r => ?_, fun r hr => ?_⟩
  · obtain ⟨e, he, hleaf⟩ := Value.mem_leavesOfEntries.mp hleaf
    obtain ⟨p, -, -, hfaithful⟩ := exists_of_mem_left h he
    exact hfaithful.leaves leaf hleaf
  · rw [Value.pruned, Tree.rules]
    exact mem_rulesOfEntries_ofList h r
  · obtain ⟨p, hp, hr⟩ := Tree.mem_rulesOfEntries.mp hr
    have hp := Entries.mem_of_mem_latest (Entries.mem_ofList.mp hp)
    obtain ⟨e, -, -, hfaithful⟩ := exists_of_mem_right h hp
    exact hfaithful.targets r hr

theorem blames_seq {form : Form} {items : List Value} {fault : CompileFault}
    (h : ItemsExplained names known items (.error fault)) (hkeys : (Value.seq form items).KeysWritable) :
    Blames names known (.seq form items) fault := by
  cases hkeys with
  | seq hkeys =>
    obtain ⟨v, hv, hblame⟩ := h hkeys
    refine hblame.of_part (fun leaf hleaf => Value.mem_leavesOfItems.mpr ⟨v, hv, hleaf⟩) fun hfinite => ?_
    exact Value.isFiniteItems_iff.mp hfinite v hv

theorem blames_dict {entries : List (Key × Value)} {fault : CompileFault}
    (h : EntriesExplained names known entries (.error fault)) (hkeys : (Value.dict entries).KeysWritable) :
    Blames names known (.dict entries) fault := by
  cases hkeys with
  | dict hkeys hvalues =>
    obtain ⟨e, he, hblame⟩ := h hkeys hvalues
    refine hblame.of_part (fun leaf hleaf => Value.mem_leavesOfEntries.mpr ⟨e, he, hleaf⟩) fun hfinite => ?_
    exact Value.isFiniteEntries_iff.mp hfinite e he

/-- By the parts of the description, whatever its place. -/
theorem compile_explained (v : Value) (place : Location) :
    Explained names known v (Tree.compile names known place v) := by
  induction v using Value.inductionOn generalizing place with
  | scalar s => exact compile_scalar_explained s place
  | seq form items ih =>
    have hitems := compileItems_explained ih place 0
    rw [Tree.compile]
    cases hc : Tree.compileItems names known place 0 items with
    | ok ts =>
      rw [hc] at hitems
      exact faithful_seq hitems
    | error fault =>
      rw [hc] at hitems
      exact blames_seq hitems
  | dict entries ih =>
    have hentries := compileEntries_explained ih place
    rw [Tree.compile]
    cases hc : Tree.compileEntries names known place entries with
    | ok ts =>
      rw [hc] at hentries
      exact faithful_dict hentries
    | error fault =>
      rw [hc] at hentries
      exact blames_dict hentries
  | set items => exact fun _ => blames_of_leaf rfl (not_isRule nofun) (Or.inl rfl)
  | cyclic web cell view ih =>
    -- The view has the same leaves, and no value that holds itself is finite.
    have hview := ih place
    rw [Tree.compile]
    cases hc : Tree.compile names known place view with
    | ok t =>
      rw [hc] at hview
      exact ⟨hview.leaves, hview.rules, hview.targets⟩
    | error fault =>
      rw [hc] at hview
      intro hkeys
      cases hkeys with
      | cyclic _ hkeys => exact (hview hkeys).of_part (fun _ => id) nofun
  | again shape => exact fun _ => blames_of_leaf rfl (not_isRule nofun) (Or.inr ⟨rfl, rfl⟩)

end Reshape
