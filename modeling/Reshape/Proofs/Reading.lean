/-
  Reshape.Proofs.Reading: what is read, as a relation between descriptions and trees.

  A tree is read from a description if it has its shape: a rule where a rule text stands, a list where
  a sequence is, and a table under the texts of the keys where a dictionary is. Neither the place in
  the document counts nor anything about the known converters but which of them the rules name.
  - `Tree.compile_eq_ok_iff`, `compileNamed_eq_ok_iff`, `compile_eq_ok_iff`: compiling gives exactly
    what is read from a description, from nested mappings and from a document.
  - `Tree.ReadFrom.mono`: what is read stays readable when more targets are known.
  - `Tree.ReadFrom.toValue`: a tree that was read is read again from itself as data.
  - `compile_mono`: with more converters a document compiles to the same transformation.
-/

import Reshape.Proofs.Acceptance

namespace Reshape

/-! ## Steps that can fail -/

theorem bind_eq_ok_iff {ε α β : Type} {x : Except ε α} {f : α → Except ε β} {b : β} :
    x >>= f = .ok b ↔ ∃ a, x = .ok a ∧ f a = .ok b := by
  cases x <;> simp [bind, Except.bind]

theorem bind_eq_error_iff {ε α β : Type} {x : Except ε α} {f : α → Except ε β} {e : ε} :
    x >>= f = .error e ↔ x = .error e ∨ ∃ a, x = .ok a ∧ f a = .error e := by
  cases x <;> simp [bind, Except.bind]

theorem map_eq_ok_iff {ε α β : Type} {x : Except ε α} {f : α → β} {b : β} :
    x.map f = .ok b ↔ ∃ a, x = .ok a ∧ f a = b := by
  cases x <;> simp [Except.map]

theorem map_eq_error_iff {ε α β : Type} {x : Except ε α} {f : α → β} {e : ε} : x.map f = .error e ↔ x = .error e := by
  cases x <;> simp [Except.map]

theorem keyName_eq_ok_iff {k : Key} {name : String} : keyName k = .ok name ↔ k.string? = some name := by
  unfold keyName
  cases k.string? <;> simp

@[simp] theorem Key.string?_str (s : String) : (Key.str s).string? = some s := by
  simp [Key.string?, Key.text?, Scalar.text?]

theorem Rule.TargetKnown.mono {names : List String} {known known' : String → Bool}
    (hknown : ∀ n, known n = true → known' n = true) {target : String} (h : TargetKnown names known target) :
    TargetKnown names known' target := by
  unfold TargetKnown at h ⊢
  split at h
  · rename_i hn
    rwa [if_pos hn]
  · rename_i hn
    rw [if_neg hn]
    exact hknown _ h

/-! ## Trees -/

/-- The names are the texts of the keys, one after another. -/
def KeyNames (entries : List (Key × Value)) (ts : List (String × Tree)) : Prop :=
  List.Forall₂ (fun e p => e.1.string? = some p.1) entries ts

/-- The tree is read from the description, with these nested names and known converters. -/
inductive Tree.ReadFrom (names : List String) (known : String → Bool) : Value → Tree → Prop where
  | rule {text : String} {r : Rule} : Rule.parse names known text = .ok r →
      ReadFrom names known (.str text) (.leaf r)
  | seq {form : Form} {items : List Value} {ts : List Tree} : List.Forall₂ (ReadFrom names known) items ts →
      ReadFrom names known (.seq form items) (.list ts)
  | dict {entries : List (Key × Value)} {ts : List (String × Tree)} : KeyNames entries ts →
      List.Forall₂ (fun e p => ReadFrom names known e.2 p.2) entries ts →
      ReadFrom names known (.dict entries) (.dict (Entries.ofList ts))
  | cyclic {web : Web} {cell : Nat} {view : Value} {t : Tree} : ReadFrom names known view t →
      ReadFrom names known (.cyclic web cell view) t

namespace Tree

variable {names names' : List String} {known known' : String → Bool}

/-- Induction over what is read, with the hypothesis for every part beside its reading. -/
@[elab_as_elim]
theorem ReadFrom.inductionOn {motive : Value → Tree → Prop} {v : Value} {t : Tree}
    (h : t.ReadFrom names known v)
    (rule : ∀ text r, Rule.parse names known text = .ok r → motive (.str text) (.leaf r))
    (seq : ∀ form items ts, List.Forall₂ (ReadFrom names known) items ts → List.Forall₂ motive items ts →
      motive (.seq form items) (.list ts))
    (dict : ∀ entries ts, KeyNames entries ts →
      List.Forall₂ (fun e p => ReadFrom names known e.2 p.2) entries ts →
      List.Forall₂ (fun e p => motive e.2 p.2) entries ts → motive (.dict entries) (.dict (Entries.ofList ts)))
    (cyclic : ∀ web cell view t, motive view t → motive (.cyclic web cell view) t) : motive v t := by
  refine @ReadFrom.rec names known (fun v t _ => motive v t) (fun items ts _ => List.Forall₂ motive items ts)
    (fun entries ts _ => List.Forall₂ (fun e p => motive e.2 p.2) entries ts) ?_ ?_ ?_ ?_ ?_ ?_ ?_ ?_ v t h
  · intro text r hr
    exact rule text r hr
  · intro form items ts hts ih
    exact seq form items ts hts ih
  · intro entries ts hnames hts ih
    exact dict entries ts hnames hts ih
  · intro web cell view t _ ih
    exact cyclic web cell view t ih
  · exact .nil
  · intro v t items ts _ _ hv hts
    exact .cons hv hts
  · exact .nil
  · intro e p entries ts _ _ he hts
    exact .cons he hts

theorem compileItems_eq_ok_iff {items : List Value}
    (h : ∀ v ∈ items, ∀ place t, Tree.compile names known place v = .ok t ↔ t.ReadFrom names known v)
    (place : Location) (i : Nat) (ts : List Tree) :
    Tree.compileItems names known place i items = .ok ts ↔ List.Forall₂ (ReadFrom names known) items ts := by
  induction items generalizing i ts with
  | nil =>
    rw [Tree.compileItems, List.forall₂_nil_left_iff]
    exact ⟨fun h => (Except.ok.inj h).symm, fun h => h ▸ rfl⟩
  | cons v items ih =>
    obtain ⟨hv, hitems⟩ := List.forall_mem_cons.mp h
    simp only [Tree.compileItems, bind_eq_ok_iff, hv, ih hitems, List.forall₂_cons_left_iff]
    constructor
    · rintro ⟨t, ht, us, hus, hts⟩
      cases hts
      exact ⟨t, us, ht, hus, rfl⟩
    · rintro ⟨t, us, ht, hus, rfl⟩
      exact ⟨t, ht, us, hus, rfl⟩

theorem compileEntries_eq_ok_iff {entries : List (Key × Value)}
    (h : ∀ e ∈ entries, ∀ place t, Tree.compile names known place e.2 = .ok t ↔ t.ReadFrom names known e.2)
    (place : Location) (ts : List (String × Tree)) :
    Tree.compileEntries names known place entries = .ok ts ↔
      KeyNames entries ts ∧ List.Forall₂ (fun e p => p.2.ReadFrom names known e.2) entries ts := by
  unfold KeyNames
  induction entries generalizing ts with
  | nil =>
    rw [Tree.compileEntries, List.forall₂_nil_left_iff, List.forall₂_nil_left_iff, and_self]
    exact ⟨fun h => (Except.ok.inj h).symm, fun h => h ▸ rfl⟩
  | cons e entries ih =>
    obtain ⟨k, v⟩ := e
    obtain ⟨hv, hentries⟩ := List.forall_mem_cons.mp h
    simp only [Tree.compileEntries, bind_eq_ok_iff, keyName_eq_ok_iff, hv, ih hentries]
    constructor
    · rintro ⟨name, hname, t, ht, us, ⟨hnames, hus⟩, hts⟩
      cases hts
      exact ⟨.cons hname hnames, .cons ht hus⟩
    · rintro ⟨hnames, hts⟩
      cases hts with
      | @cons _ p _ us ht hus =>
        cases hnames with
        | cons hname hnames => exact ⟨p.1, hname, p.2, ht, us, ⟨hnames, hus⟩, rfl⟩

/-- Compiling gives what is read, whatever the place. -/
theorem compile_eq_ok_iff (v : Value) (place : Location) (t : Tree) :
    Tree.compile names known place v = .ok t ↔ t.ReadFrom names known v := by
  induction v using Value.inductionOn generalizing place t with
  | scalar s =>
    cases s with
    | str text =>
      rw [Tree.compile]
      constructor
      · intro h
        cases hp : Rule.parse names known text with
        | ok r =>
          rw [hp] at h
          cases h
          exact .rule hp
        | error fault =>
          rw [hp] at h
          cases h
      · intro h
        cases h with
        | rule hp => rw [hp]
    | _ => constructor <;> intro h <;> cases h
  | seq form items ih =>
    rw [Tree.compile, map_eq_ok_iff]
    simp only [compileItems_eq_ok_iff ih]
    constructor
    · rintro ⟨ts, hts, rfl⟩
      exact .seq hts
    · intro h
      cases h with
      | seq hts => exact ⟨_, hts, rfl⟩
  | dict entries ih =>
    rw [Tree.compile, map_eq_ok_iff]
    simp only [compileEntries_eq_ok_iff ih]
    constructor
    · rintro ⟨ts, ⟨hnames, hts⟩, rfl⟩
      exact .dict hnames hts
    · intro h
      cases h with
      | dict hnames hts => exact ⟨_, ⟨hnames, hts⟩, rfl⟩
  | set items => constructor <;> intro h <;> cases h
  | cyclic web cell view ih =>
    rw [Tree.compile, ih]
    constructor
    · exact .cyclic
    · intro h
      cases h with
      | cyclic h => exact h
  | again shape => constructor <;> intro h <;> cases h

/-- What is read stays readable, and is the same, when more targets are known. -/
theorem ReadFrom.mono (hknown : ∀ target, Rule.TargetKnown names known target → Rule.TargetKnown names' known' target)
    {v : Value} {t : Tree} (h : t.ReadFrom names known v) : t.ReadFrom names' known' v := by
  refine h.inductionOn ?rule ?seq ?dict ?cyclic
  case rule =>
    intro text r hr
    obtain ⟨hwritten, htarget⟩ := Rule.writtenAs_of_parse hr
    exact .rule (Rule.parse_of_writtenAs hwritten (hknown _ htarget))
  case seq => exact fun _ _ _ _ ih => .seq ih
  case dict => exact fun _ _ hnames _ ih => .dict hnames ih
  case cyclic => exact fun _ _ _ _ ih => .cyclic ih

/-! ### Trees as data -/

theorem forall₂_itemsToValues {R : Value → Tree → Prop} {ts : List Tree} (h : ∀ t ∈ ts, R t.toValue t) :
    List.Forall₂ R (Tree.itemsToValues ts) ts := by
  induction ts with
  | nil => exact .nil
  | cons t ts ih =>
    obtain ⟨ht, hts⟩ := List.forall_mem_cons.mp h
    exact .cons ht (ih hts)

theorem forall₂_entriesToValues {R : Key × Value → String × Tree → Prop} {ts : List (String × Tree)}
    (h : ∀ p ∈ ts, R (.str p.1, p.2.toValue) p) : List.Forall₂ R (Tree.entriesToValues ts) ts := by
  induction ts with
  | nil => exact .nil
  | cons p ts ih =>
    obtain ⟨hp, hts⟩ := List.forall_mem_cons.mp h
    exact .cons hp (ih hts)

theorem keyNames_entriesToValues (ts : List (String × Tree)) : KeyNames (Tree.entriesToValues ts) ts :=
  forall₂_entriesToValues fun p _ => Key.string?_str p.1

/-- A tree that was read is read again from itself as data: each rule from its own text, each table
from its entries. -/
theorem ReadFrom.toValue {v : Value} {t : Tree} (h : t.ReadFrom names known v) :
    t.ReadFrom names known t.toValue := by
  refine h.inductionOn (motive := fun _ t => t.ReadFrom names known t.toValue) ?rule ?seq ?dict ?cyclic
  case rule =>
    intro text r hr
    rw [Tree.toValue, ← (Rule.writtenAs_of_parse hr).1.text_eq]
    exact .rule hr
  case seq =>
    intro form items ts _ ih
    refine .seq (forall₂_itemsToValues fun t ht => ?_)
    obtain ⟨v, -, hv⟩ := exists_of_mem_right ih ht
    exact hv
  case dict =>
    intro entries ts _ _ ih
    have htrees : ∀ p ∈ Entries.ofList ts, p.2.ReadFrom names known p.2.toValue := by
      intro p hp
      obtain ⟨e, -, he⟩ := exists_of_mem_right ih (Entries.mem_of_mem_latest (Entries.mem_ofList.mp hp))
      exact he
    have hread := ReadFrom.dict (keyNames_entriesToValues (Entries.ofList ts)) (forall₂_entriesToValues htrees)
    rwa [Entries.ofList_of_nodup (Entries.nodup_keys_ofList ts)] at hread
  case cyclic => exact fun _ _ _ _ ih => ih

end Tree

/-! ## Nested mappings -/

namespace Transformation

/-- The trees are read from the nested mappings that are described, each under a name of its own
kind. -/
structure NestedFrom (known : String → Bool) (entries : List (Key × Value)) (ts : List (String × Tree)) :
    Prop where
  names : KeyNames entries ts
  valid : ∀ p ∈ ts, isValidNestedName p.1 = true
  trees : List.Forall₂ (fun e p => p.2.ReadFrom (Entries.keys ts) known e.2) entries ts

theorem nestedNames_eq_ok_iff (entries : List (Key × Value)) (names : List String) :
    nestedNames entries = .ok names ↔ List.Forall₂ (fun e name => e.1.string? = some name) entries names := by
  induction entries generalizing names with
  | nil =>
    rw [nestedNames, List.forall₂_nil_left_iff]
    exact ⟨fun h => (Except.ok.inj h).symm, fun h => h ▸ rfl⟩
  | cons e entries ih =>
    simp only [nestedNames, bind_eq_ok_iff, keyName_eq_ok_iff, ih, List.forall₂_cons_left_iff]
    constructor
    · rintro ⟨name, hname, rest, hrest, hnames⟩
      cases hnames
      exact ⟨name, rest, hname, hrest, rfl⟩
    · rintro ⟨name, rest, hname, hrest, rfl⟩
      exact ⟨name, hname, rest, hrest, rfl⟩

theorem compileNamed_eq_ok_iff {known : String → Bool} {entries : List (Key × Value)} {nested : Nested} :
    compileNamed known entries = .ok nested ↔ ∃ ts, NestedFrom known entries ts ∧ nested = Entries.ofList ts := by
  have hentries : ∀ names ts, Tree.compileEntries names known [.key "nested"] entries = .ok ts ↔
      KeyNames entries ts ∧ List.Forall₂ (fun e p => p.2.ReadFrom names known e.2) entries ts :=
    fun _ ts => Tree.compileEntries_eq_ok_iff (fun e _ place t => Tree.compile_eq_ok_iff e.2 place t) _ ts
  have hnames : ∀ ts, KeyNames entries ts ↔ nestedNames entries = .ok (Entries.keys ts) := by
    intro ts
    rw [nestedNames_eq_ok_iff, Entries.keys, List.forall₂_map_right_iff]
    rfl
  unfold compileNamed
  rw [bind_eq_ok_iff]
  constructor
  · rintro ⟨names, hread, h⟩
    split at h
    · cases h
    · rename_i hvalid
      obtain ⟨ts, hts, hnested⟩ := bind_eq_ok_iff.mp h
      obtain ⟨hkeys, htrees⟩ := (hentries names ts).mp hts
      cases hread.symm.trans ((hnames ts).mp hkeys)
      refine ⟨ts, ⟨hkeys, fun p hp => ?_, htrees⟩, (Except.ok.inj hnested).symm⟩
      have := List.find?_eq_none.mp hvalid p.1 (Entries.mem_keys.mpr ⟨p.2, hp⟩)
      simpa using this
  · rintro ⟨ts, hts, rfl⟩
    refine ⟨Entries.keys ts, (hnames ts).mp hts.names, ?_⟩
    have hvalid : (Entries.keys ts).find? (!isValidNestedName ·) = none := by
      rw [List.find?_eq_none]
      intro name hname
      obtain ⟨u, hu⟩ := Entries.mem_keys.mp hname
      simpa using hts.valid _ hu
    rw [hvalid]
    exact bind_eq_ok_iff.mpr ⟨ts, (hentries _ ts).mpr ⟨hts.names, hts.trees⟩, rfl⟩

theorem compileNamed_mono {known known' : String → Bool} (hknown : ∀ n, known n = true → known' n = true)
    {entries : List (Key × Value)} {nested : Nested} (h : compileNamed known entries = .ok nested) :
    compileNamed known' entries = .ok nested := by
  obtain ⟨ts, hts, rfl⟩ := compileNamed_eq_ok_iff.mp h
  refine compileNamed_eq_ok_iff.mpr ⟨ts, ⟨hts.names, hts.valid, hts.trees.imp fun _ _ hp => ?_⟩, rfl⟩
  exact hp.mono fun _ => Rule.TargetKnown.mono hknown

/-- Compiled nested mappings are compiled again from themselves as data. -/
theorem compileNamed_entriesToValues {known : String → Bool} {entries : List (Key × Value)} {nested : Nested}
    (h : compileNamed known entries = .ok nested) :
    compileNamed known (Tree.entriesToValues nested) = .ok nested := by
  obtain ⟨ts, hts, rfl⟩ := compileNamed_eq_ok_iff.mp h
  have hkept : ∀ p ∈ Entries.ofList ts, p ∈ ts := fun p hp => Entries.mem_of_mem_latest (Entries.mem_ofList.mp hp)
  have hkeys : ∀ n, n ∈ Entries.keys ts ↔ n ∈ Entries.keys (Entries.ofList ts) := by
    intro n
    rw [← Entries.mem_keys_latest]
    simp only [Entries.mem_keys, Entries.mem_ofList]
  refine compileNamed_eq_ok_iff.mpr ⟨Entries.ofList ts, ⟨Tree.keyNames_entriesToValues _, ?_, ?_⟩, ?_⟩
  · exact fun p hp => hts.valid p (hkept p hp)
  · refine Tree.forall₂_entriesToValues fun p hp => ?_
    obtain ⟨e, -, he⟩ := exists_of_mem_right hts.trees (hkept p hp)
    exact he.toValue.mono fun _ => (Rule.targetKnown_congr hkeys).mp
  · exact (Entries.ofList_of_nodup (Entries.nodup_keys_ofList ts)).symm

/-! ## Documents -/

theorem eq_of_link {properties : Tree} {nested : Nested} {t : Transformation} (h : link properties nested = .ok t) :
    t = ⟨properties, nested⟩ := by
  unfold link at h
  split at h
  · cases h
  · split at h <;> cases h
    rfl

/-- Compiling a document gives what is read from its description, if that is linked. -/
theorem compile_eq_ok_iff {known : String → Bool} {document : Value} {t : Transformation} :
    compile known document = .ok t ↔ ∃ d, document.Describes d ∧ compileNamed known d.nested = .ok t.nested ∧
      t.properties.ReadFrom (Entries.keys t.nested) known d.properties ∧ link t.properties t.nested = .ok t := by
  constructor
  · intro h
    obtain ⟨d, hd⟩ := describes_of_compile h
    rw [compile_of_describes known hd] at h
    obtain ⟨nested, hnested, h⟩ := bind_eq_ok_iff.mp h
    obtain ⟨properties, hproperties, hlink⟩ := bind_eq_ok_iff.mp h
    cases eq_of_link hlink
    exact ⟨d, hd, hnested, (Tree.compile_eq_ok_iff ..).mp hproperties, hlink⟩
  · rintro ⟨d, hd, hnested, hproperties, hlink⟩
    rw [compile_of_describes known hd]
    exact bind_eq_ok_iff.mpr ⟨_, hnested, bind_eq_ok_iff.mpr ⟨_, (Tree.compile_eq_ok_iff ..).mpr hproperties, hlink⟩⟩

/-- With more converters a document compiles to the same transformation. -/
theorem compile_mono {known known' : String → Bool} (hknown : ∀ n, known n = true → known' n = true)
    {document : Value} {t : Transformation} (h : compile known document = .ok t) :
    compile known' document = .ok t := by
  obtain ⟨d, hd, hnested, hproperties, hlink⟩ := compile_eq_ok_iff.mp h
  exact compile_eq_ok_iff.mpr
    ⟨d, hd, compileNamed_mono hknown hnested, hproperties.mono fun _ => Rule.TargetKnown.mono hknown, hlink⟩

end Transformation

end Reshape
