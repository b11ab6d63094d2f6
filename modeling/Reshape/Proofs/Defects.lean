/-
  Reshape.Proofs.Defects: which defect of a document is reported.

  Of all defects that a document has, the first is reported. First comes its outer shape, then the names of
  the nested mappings, then the leaves of the nested mappings and of the properties, each in the order of
  their positions, and a cycle comes last. A position counts the items and entries that are gone by at every
  step down, and positions are compared from left to right.
  - `Rule.parse_eq_error_iff`: why a text is no rule.
  - `Value.LeafAt`: a leaf with its position and its location. Two entries whose keys have one text have one
    location, but two positions.
  - `Tree.compile_eq_error_iff`: compiling a description fails with the fault of its first defective leaf.
  - `compileNamed_eq_error_iff`, `link_eq_cycle`: the stages before and after.
  - `first_defect_is_reported`: all stages together, and how a location is written in a message.
-/

import Reshape.Proofs.Reading

namespace Reshape

open Relation References

/-! ## Texts that are no rules -/

namespace Rule

open Text

/-- The text holds one colon and something before it. -/
structure Splits (text path target : String) : Prop where
  text_eq : text = path ++ ":" ++ target
  before : ':' ∉ path.toList
  after : ':' ∉ target.toList
  path_ne : path ≠ ""

/-- The name in a target, without one `[]` if it ends so. -/
def Names (target name : String) : Prop :=
  target = name ++ "[]" ∨ target = name ∧ ¬ ['[', ']'] <:+ name.toList

/-- What is wrong with a text as a rule for these nested mappings and converters. -/
inductive Fails (names : List String) (known : String → Bool) (text : String) : RuleFault → Prop where
  | malformed : (∀ path target, ¬ Splits text path target) → Fails names known text .malformed
  | undefinedNested {path target name : String} : Splits text path target → Names target name →
      isNestedName name = true → name ∉ names → Fails names known text (.undefinedNested name)
  | undefinedConverter {path target name : String} : Splits text path target → Names target name →
      isNestedName name = false → known name = false → Fails names known text (.undefinedConverter name)

theorem splits_iff {text path target : String} :
    Splits text path target ↔ splitAt ':' text = [path, target] ∧ path ≠ "" := by
  rw [splitAt_eq_iff]
  constructor
  · intro h
    obtain ⟨rfl, hpath, htarget, hne⟩ := h
    exact ⟨⟨by simp, by simpa using ⟨hpath, htarget⟩, by simp [joined]⟩, hne⟩
  · intro h
    obtain ⟨⟨-, hcolons, htext⟩, hne⟩ := h
    refine ⟨?_, hcolons path (by simp), hcolons target (by simp), hne⟩
    rw [← String.toList_inj, htext]
    simp [joined]

theorem names_iff {target name : String} :
    Names target name ↔ ∃ isArray, arraySuffix target.toList = (name.toList, isArray) := by
  unfold Names
  constructor
  · intro h
    rcases h with rfl | ⟨rfl, hscalar⟩
    · exact ⟨true, arraySuffix_eq_iff.mpr ⟨by simp [suffix], by simp⟩⟩
    · exact ⟨false, arraySuffix_eq_iff.mpr ⟨by simp [suffix], fun _ => hscalar⟩⟩
  · intro h
    obtain ⟨isArray, h⟩ := h
    obtain ⟨htarget, hscalar⟩ := arraySuffix_eq_iff.mp h
    cases isArray with
    | true => exact Or.inl (by rw [← String.toList_inj, htarget]; simp [suffix])
    | false => exact Or.inr ⟨by rw [← String.toList_inj, htarget]; simp [suffix], hscalar rfl⟩

/-- What reading makes of a text with one colon. -/
theorem parse_of_splits (names : List String) (known : String → Bool) {text path target name : String}
    (h : Splits text path target) (hname : Names target name) : ∃ isArray, parse names known text =
      if isNestedName name then
        if name ∈ names then .ok ⟨splitAt '.' path, name, isArray⟩ else .error (.undefinedNested name)
      else if known name then .ok ⟨splitAt '.' path, name, isArray⟩ else .error (.undefinedConverter name) := by
  obtain ⟨hsplit, hne⟩ := splits_iff.mp h
  obtain ⟨isArray, hsuffix⟩ := names_iff.mp hname
  refine ⟨isArray, ?_⟩
  unfold parse
  simp only [hsplit, if_neg hne, hsuffix, String.ofList_toList]

theorem exists_names (target : String) : ∃ name, Names target name := by
  refine ⟨String.ofList (arraySuffix target.toList).1, names_iff.mpr ⟨(arraySuffix target.toList).2, ?_⟩⟩
  rw [String.toList_ofList]

theorem parse_eq_error_iff {names : List String} {known : String → Bool} {text : String} {fault : RuleFault} :
    parse names known text = .error fault ↔ Fails names known text fault := by
  by_cases hs : ∃ path target, Splits text path target
  · obtain ⟨path, target, hs⟩ := hs
    constructor
    · intro h
      obtain ⟨name, hname⟩ := exists_names target
      obtain ⟨isArray, hparse⟩ := parse_of_splits names known hs hname
      rw [hparse] at h
      by_cases hn : isNestedName name = true
      · rw [if_pos hn] at h
        split at h
        · cases h
        · rename_i hmem
          cases h
          exact .undefinedNested hs hname hn hmem
      · rw [if_neg hn] at h
        split at h
        · cases h
        · rename_i hk
          cases h
          exact .undefinedConverter hs hname (by simpa using hn) (by simpa using hk)
    · intro h
      cases h with
      | malformed hno => exact absurd hs (hno path target)
      | undefinedNested hs hname hn hmem =>
        obtain ⟨isArray, hparse⟩ := parse_of_splits names known hs hname
        rw [hparse, if_pos hn, if_neg hmem]
      | undefinedConverter hs hname hn hk =>
        obtain ⟨isArray, hparse⟩ := parse_of_splits names known hs hname
        simp [hparse, hn, hk]
  · simp only [not_exists] at hs
    have hparse : parse names known text = .error .malformed := by
      unfold parse
      split
      · rename_i path target hsplit
        by_cases hne : path = ""
        · rw [if_pos hne]
        · exact absurd (splits_iff.mpr ⟨hsplit, hne⟩) (hs path target)
      · rfl
    constructor
    · intro h
      cases hparse.symm.trans h
      exact .malformed hs
    · intro h
      cases h with
      | malformed => exact hparse
      | undefinedNested h => exact absurd h (hs _ _)
      | undefinedConverter h => exact absurd h (hs _ _)

theorem Fails.congr {names names' : List String} (h : ∀ n, n ∈ names ↔ n ∈ names') {known : String → Bool}
    {text : String} {fault : RuleFault} (hf : Fails names known text fault) : Fails names' known text fault := by
  cases hf with
  | malformed hno => exact .malformed hno
  | undefinedNested hs hname hn hmem => exact .undefinedNested hs hname hn fun hin => hmem ((h _).mpr hin)
  | undefinedConverter hs hname hn hk => exact .undefinedConverter hs hname hn hk

end Rule

/-! ## The first defective leaf -/

namespace Value

/-- Whether nothing goes on here. -/
def isLeaf : Value → Bool
  | .seq _ _ | .dict _ | .cyclic _ _ _ => false
  | _ => true

/-- The leaf stands in the value. Its position tells how many items or entries are gone by at every step
down to it, and its location names the steps. -/
inductive LeafAt : Value → List Nat → Location → Value → Prop where
  | here {leaf : Value} : leaf.isLeaf = true → LeafAt leaf [] [] leaf
  | item {form : Form} {items : List Value} {i : Nat} {v : Value} {position : List Nat} {location : Location}
      {leaf : Value} : items[i]? = some v → LeafAt v position location leaf →
      LeafAt (.seq form items) (i :: position) (.index i :: location) leaf
  | entry {entries : List (Key × Value)} {i : Nat} {e : Key × Value} {name : String} {position : List Nat}
      {location : Location} {leaf : Value} : entries[i]? = some e → e.1.string? = some name →
      LeafAt e.2 position location leaf → LeafAt (.dict entries) (i :: position) (.key name :: location) leaf
  | cyclic {web : Web} {cell : Nat} {view : Value} {position : List Nat} {location : Location} {leaf : Value} :
      LeafAt view position location leaf → LeafAt (.cyclic web cell view) position location leaf

/-- What is wrong with a leaf at this place. -/
inductive LeafFault (names : List String) (known : String → Bool) (place : Location) :
    Value → CompileFault → Prop where
  /-- A container comes again in itself, which is read without an end. -/
  | endless (shape : Shape) : LeafFault names known place (.again shape) .endless
  | unsupported {leaf : Value} : (∀ text, leaf ≠ .str text) → (∀ shape, leaf ≠ .again shape) →
      LeafFault names known place leaf (.unsupported place leaf.kind)
  | rule {text : String} {fault : RuleFault} : Rule.Fails names known text fault →
      LeafFault names known place (.str text) (.rule place text fault)

/-- The fault is that of the first leaf of the value, by position, that is no rule text. -/
def FirstFault (names : List String) (known : String → Bool) (place : Location) (v : Value) (fault : CompileFault) :
    Prop :=
  ∃ position location leaf, v.LeafAt position location leaf ∧
    LeafFault names known (place ++ location) leaf fault ∧
    ∀ position' location' leaf', v.LeafAt position' location' leaf' → position' < position →
      leaf'.IsRule names known

variable {names names' : List String} {known : String → Bool} {place : Location}

theorem LeafAt.mem_leaves {v : Value} {position : List Nat} {location : Location} {leaf : Value}
    (h : v.LeafAt position location leaf) : leaf ∈ v.leaves := by
  induction h with
  | @here leaf hleaf =>
    cases leaf <;> first | exact List.mem_singleton_self _ | cases hleaf
  | item hi _ ih => exact mem_leavesOfItems.mpr ⟨_, List.mem_of_getElem? hi, ih⟩
  | entry hi _ _ ih => exact mem_leavesOfEntries.mpr ⟨_, List.mem_of_getElem? hi, ih⟩
  | cyclic _ ih => exact ih

theorem LeafFault.not_isRule {leaf : Value} {fault : CompileFault} (h : LeafFault names known place leaf fault) :
    ¬ leaf.IsRule names known := by
  cases h with
  | endless shape => exact Reshape.not_isRule (by simp)
  | unsupported htext => exact Reshape.not_isRule htext
  | @rule text fault hf =>
    rintro ⟨text', heq, hrule⟩
    cases heq
    obtain ⟨r, hr⟩ := Rule.exists_parse_iff.mpr hrule
    cases hr.symm.trans (Rule.parse_eq_error_iff.mpr hf)

theorem LeafFault.congr (h : ∀ n, n ∈ names ↔ n ∈ names') {leaf : Value} {fault : CompileFault}
    (hf : LeafFault names known place leaf fault) : LeafFault names' known place leaf fault := by
  cases hf with
  | endless shape => exact .endless shape
  | unsupported htext hagain => exact .unsupported htext hagain
  | rule hf => exact .rule (hf.congr h)

theorem FirstFault.congr (h : ∀ n, n ∈ names ↔ n ∈ names') {v : Value} {fault : CompileFault}
    (hf : v.FirstFault names known place fault) : v.FirstFault names' known place fault := by
  obtain ⟨position, location, leaf, hat, hfault, hbefore⟩ := hf
  refine ⟨position, location, leaf, hat, hfault.congr h, fun position' location' leaf' hat' hlt => ?_⟩
  obtain ⟨text, rfl, hrule⟩ := hbefore position' location' leaf' hat' hlt
  exact ⟨text, rfl, (Rule.isRuleText_congr h).mp hrule⟩

/-- A position leads to one leaf, by one location. -/
theorem LeafAt.unique {v : Value} {position : List Nat} {location location' : Location} {leaf leaf' : Value}
    (h : v.LeafAt position location leaf) (h' : v.LeafAt position location' leaf') :
    location = location' ∧ leaf = leaf' := by
  induction h generalizing location' leaf' with
  | here hleaf =>
    cases h' with
    | here => exact ⟨rfl, rfl⟩
    | cyclic => cases hleaf
  | item hi _ ih =>
    cases h' with
    | item hi' h' =>
      cases hi.symm.trans hi'
      obtain ⟨rfl, rfl⟩ := ih h'
      exact ⟨rfl, rfl⟩
  | entry hi hname _ ih =>
    cases h' with
    | entry hi' hname' h' =>
      cases hi.symm.trans hi'
      cases hname.symm.trans hname'
      obtain ⟨rfl, rfl⟩ := ih h'
      exact ⟨rfl, rfl⟩
  | cyclic _ ih =>
    cases h' with
    | here h => cases h
    | cyclic h' => exact ih h'

theorem LeafFault.unique {leaf : Value} {fault fault' : CompileFault} (h : LeafFault names known place leaf fault)
    (h' : LeafFault names known place leaf fault') : fault = fault' := by
  cases h with
  | endless shape =>
    cases h' with
    | endless => rfl
    | unsupported _ hagain => exact absurd rfl (hagain shape)
  | unsupported htext hagain =>
    cases h' with
    | endless shape => exact absurd rfl (hagain shape)
    | unsupported => rfl
    | rule => exact absurd rfl (htext _)
  | rule hf =>
    cases h' with
    | unsupported htext => exact absurd rfl (htext _)
    | rule hf' =>
      have hparse := Rule.parse_eq_error_iff.mpr hf
      cases hparse.symm.trans (Rule.parse_eq_error_iff.mpr hf')
      rfl

theorem FirstFault.unique {v : Value} {fault fault' : CompileFault}
    (h : v.FirstFault names known place fault) (h' : v.FirstFault names known place fault') : fault = fault' := by
  obtain ⟨position, location, leaf, hat, hfault, hfirst⟩ := h
  obtain ⟨position', location', leaf', hat', hfault', hfirst'⟩ := h'
  rcases lt_trichotomy position position' with hlt | rfl | hlt
  · exact absurd (hfirst' _ _ _ hat hlt) hfault.not_isRule
  · obtain ⟨rfl, rfl⟩ := hat.unique hat'
    exact hfault.unique hfault'
  · exact absurd (hfirst _ _ _ hat' hlt) hfault'.not_isRule

/-- The first fault of an item is that of the whole sequence, if there is none in the items before it. -/
theorem FirstFault.item {form : Form} {items : List Value} {j : Nat} {v : Value} {fault : CompileFault}
    (hj : items[j]? = some v) (h : v.FirstFault names known (place ++ [.index j]) fault)
    (hbefore : ∀ (j' : Nat) w, items[j']? = some w → j' < j → ∀ leaf ∈ w.leaves, leaf.IsRule names known) :
    (Value.seq form items).FirstFault names known place fault := by
  obtain ⟨position, location, leaf, hat, hfault, hfirst⟩ := h
  refine ⟨j :: position, .index j :: location, leaf, .item hj hat, ?_, ?_⟩
  · rwa [List.append_cons]
  · intro position' location' leaf' hat' hlt
    cases hat' with
    | here h => cases h
    | item hj' hat' =>
      rcases List.cons_lt_cons_iff.mp hlt with hpart | ⟨rfl, hpart⟩
      · exact hbefore _ _ hj' hpart _ hat'.mem_leaves
      · cases hj.symm.trans hj'
        exact hfirst _ _ _ hat' hpart

theorem FirstFault.entry {entries : List (Key × Value)} {j : Nat} {e : Key × Value} {name : String}
    {fault : CompileFault} (hj : entries[j]? = some e) (hname : e.1.string? = some name)
    (h : e.2.FirstFault names known (place ++ [.key name]) fault)
    (hbefore : ∀ (j' : Nat) (e' : Key × Value), entries[j']? = some e' → j' < j →
      ∀ leaf ∈ e'.2.leaves, leaf.IsRule names known) : (Value.dict entries).FirstFault names known place fault := by
  obtain ⟨position, location, leaf, hat, hfault, hfirst⟩ := h
  refine ⟨j :: position, .key name :: location, leaf, .entry hj hname hat, ?_, ?_⟩
  · rwa [List.append_cons]
  · intro position' location' leaf' hat' hlt
    cases hat' with
    | here h => cases h
    | entry hj' _ hat' =>
      rcases List.cons_lt_cons_iff.mp hlt with hpart | ⟨rfl, hpart⟩
      · exact hbefore _ _ hj' hpart _ hat'.mem_leaves
      · cases hj.symm.trans hj'
        exact hfirst _ _ _ hat' hpart

theorem FirstFault.exists_leaf {v : Value} {fault : CompileFault} (h : v.FirstFault names known place fault) :
    ∃ leaf ∈ v.leaves, ¬ leaf.IsRule names known := by
  obtain ⟨_, _, leaf, hat, hfault, -⟩ := h
  exact ⟨leaf, hat.mem_leaves, hfault.not_isRule⟩

end Value

namespace Tree

open Value

variable {names : List String} {known : String → Bool}

theorem compile_leaf {leaf : Value} (hleaf : leaf.isLeaf = true) (place : Location) (fault : CompileFault) :
    Tree.compile names known place leaf = .error fault ↔ LeafFault names known place leaf fault := by
  have hother : (∀ text, leaf ≠ .str text) → (∀ shape, leaf ≠ .again shape) →
      Tree.compile names known place leaf = .error (.unsupported place leaf.kind) →
      (Tree.compile names known place leaf = .error fault ↔ LeafFault names known place leaf fault) := by
    intro htext hagain hc
    rw [hc]
    constructor
    · intro h
      cases h
      exact .unsupported htext hagain
    · intro h
      cases h with
      | endless shape => exact absurd rfl (hagain shape)
      | unsupported => rfl
      | rule => exact absurd rfl (htext _)
  cases leaf with
  | scalar s =>
    cases s with
    | str text =>
      rw [Tree.compile]
      constructor
      · intro h
        split at h
        · cases h
        · rename_i hparse
          cases h
          exact .rule (Rule.parse_eq_error_iff.mp hparse)
      · intro h
        cases h with
        | unsupported htext => exact absurd rfl (htext text)
        | rule hf => rw [Rule.parse_eq_error_iff.mpr hf]
    | _ => exact hother (by simp) (by simp) rfl
  | set items => exact hother (by simp) (by simp) rfl
  | again shape =>
    constructor
    · intro h
      cases h
      exact .endless shape
    · intro h
      cases h with
      | endless => rfl
      | unsupported _ hagain => exact absurd rfl (hagain shape)
  | _ => cases hleaf

/-- A leaf of what is compiled is a rule text. -/
theorem isRule_of_compile {v : Value} {place : Location} {t : Tree} (h : Tree.compile names known place v = .ok t)
    {leaf : Value} (hleaf : leaf ∈ v.leaves) : leaf.IsRule names known := by
  have hexplained : Explained names known v _ := compile_explained v place
  rw [h] at hexplained
  exact hexplained.leaves leaf hleaf

/-- The items before the one that fails are compiled. -/
theorem compileItems_eq_error {items : List Value} {place : Location} {i : Nat} {fault : CompileFault}
    (h : Tree.compileItems names known place i items = .error fault) :
    ∃ j v, items[j]? = some v ∧ Tree.compile names known (place ++ [.index (i + j)]) v = .error fault ∧
      ∀ j' w, items[j']? = some w → j' < j → ∃ place t, Tree.compile names known place w = .ok t := by
  induction items generalizing i with
  | nil => cases h
  | cons v items ih =>
    rw [Tree.compileItems] at h
    rcases bind_eq_error_iff.mp h with h | ⟨t, ht, h⟩
    · exact ⟨0, v, rfl, h, fun _ _ _ hlt => absurd hlt (Nat.not_lt_zero _)⟩
    · rcases bind_eq_error_iff.mp h with h | ⟨ts, -, h⟩
      · obtain ⟨j, w, hj, hw, hbefore⟩ := ih h
        refine ⟨j + 1, w, hj, ?_, fun j' w' hj' hlt => ?_⟩
        · rwa [Nat.add_right_comm] at hw
        · cases j' with
          | zero =>
            cases hj'
            exact ⟨_, t, ht⟩
          | succ j' => exact hbefore j' w' hj' (Nat.lt_of_succ_lt_succ hlt)
      · cases h

theorem compileEntries_eq_error {entries : List (Key × Value)} {place : Location} {fault : CompileFault}
    (hkeys : ∀ e ∈ entries, e.1.isWritable = true)
    (h : Tree.compileEntries names known place entries = .error fault) :
    ∃ (j : Nat) (e : Key × Value) (name : String), entries[j]? = some e ∧ e.1.string? = some name ∧
      Tree.compile names known (place ++ [.key name]) e.2 = .error fault ∧
      ∀ (j' : Nat) (e' : Key × Value), entries[j']? = some e' → j' < j →
        ∃ place t, Tree.compile names known place e'.2 = .ok t := by
  induction entries with
  | nil => cases h
  | cons e entries ih =>
    obtain ⟨hkey, hkeys⟩ := List.forall_mem_cons.mp hkeys
    obtain ⟨name, hname⟩ := Key.exists_string hkey
    have hstep : keyName e.1 = .ok name := keyName_eq_ok_iff.mpr hname
    rw [Tree.compileEntries, hstep] at h
    rcases bind_eq_error_iff (x := Tree.compile names known (place ++ [.key name]) e.2).mp h with h | ⟨t, ht, h⟩
    · exact ⟨0, e, name, rfl, hname, h, fun _ _ _ hlt => absurd hlt (Nat.not_lt_zero _)⟩
    · rcases bind_eq_error_iff.mp h with h | ⟨ts, -, h⟩
      · obtain ⟨j, e', name', hj, hname', he', hbefore⟩ := ih hkeys h
        refine ⟨j + 1, e', name', hj, hname', he', fun j' w' hj' hlt => ?_⟩
        cases j' with
        | zero =>
          cases hj'
          exact ⟨_, t, ht⟩
        | succ j' => exact hbefore j' w' hj' (Nat.lt_of_succ_lt_succ hlt)
      · cases h

theorem firstFault_of_leaf {leaf : Value} (hleaf : leaf.isLeaf = true) {place : Location} {fault : CompileFault}
    (h : Tree.compile names known place leaf = .error fault) : leaf.FirstFault names known place fault := by
  refine ⟨[], [], leaf, .here hleaf, ?_, fun _ _ _ _ hlt => absurd hlt (List.not_lt_nil _)⟩
  rw [List.append_nil]
  exact (compile_leaf hleaf place fault).mp h

/-- By the parts of the description. What comes before the part that fails is compiled, so that its leaves
are rule texts, and so are those before the leaf that fails in that part. -/
theorem firstFault_of_compile {v : Value} (hkeys : v.KeysWritable) {place : Location} {fault : CompileFault}
    (h : Tree.compile names known place v = .error fault) : v.FirstFault names known place fault := by
  induction v using Value.inductionOn generalizing place with
  | scalar s => exact firstFault_of_leaf rfl h
  | set items => exact firstFault_of_leaf rfl h
  | again shape => exact firstFault_of_leaf rfl h
  | seq form items ih =>
    cases hkeys with
    | seq hkeys =>
      rw [Tree.compile, map_eq_error_iff] at h
      obtain ⟨j, v, hj, hv, hbefore⟩ := compileItems_eq_error h
      rw [Nat.zero_add] at hv
      have hmem := List.mem_of_getElem? hj
      refine .item hj (ih v hmem (hkeys v hmem) hv) fun j' w hj' hlt => ?_
      obtain ⟨place', t, ht⟩ := hbefore j' w hj' hlt
      exact fun leaf => isRule_of_compile ht
  | dict entries ih =>
    cases hkeys with
    | dict hkeys hvalues =>
      rw [Tree.compile, map_eq_error_iff] at h
      obtain ⟨j, e, name, hj, hname, he, hbefore⟩ := compileEntries_eq_error hkeys h
      have hmem := List.mem_of_getElem? hj
      refine .entry hj hname (ih e hmem (hvalues e hmem) he) fun j' e' hj' hlt => ?_
      obtain ⟨place', t, ht⟩ := hbefore j' e' hj' hlt
      exact fun leaf => isRule_of_compile ht
  | cyclic web cell view ih =>
    cases hkeys with
    | cyclic _ hkeys =>
      obtain ⟨position, location, leaf, hat, hfault, hfirst⟩ := ih hkeys h
      refine ⟨position, location, leaf, .cyclic hat, hfault, fun position' location' leaf' hat' hlt => ?_⟩
      cases hat' with
      | here h => cases h
      | cyclic hat' => exact hfirst _ _ _ hat' hlt

/-- Compiling a description fails with the fault of the first leaf that is no rule text. -/
theorem compile_eq_error_iff {v : Value} (hkeys : v.KeysWritable) {place : Location} {fault : CompileFault} :
    Tree.compile names known place v = .error fault ↔ v.FirstFault names known place fault := by
  refine ⟨firstFault_of_compile hkeys, fun h => ?_⟩
  cases hc : Tree.compile names known place v with
  | ok t =>
    obtain ⟨leaf, hleaf, hno⟩ := h.exists_leaf
    exact absurd (isRule_of_compile hc hleaf) hno
  | error fault' => rw [h.unique (firstFault_of_compile hkeys hc)]

end Tree

/-! ## The stages -/

namespace Transformation

variable {known : String → Bool} {d : Description} {properties : Tree} {nested : Nested} {fault : CompileFault}

/-- The first of the names that is none of a nested mapping. -/
def FirstInvalid (names : List String) (name : String) : Prop :=
  ∃ before after, names = before ++ name :: after ∧ isValidNestedName name = false ∧
    ∀ n ∈ before, isValidNestedName n = true

theorem nestedNames_eq_names (hkeys : ∀ e ∈ d.nested, e.1.isWritable = true) :
    nestedNames d.nested = .ok d.names := by
  have hnames := nestedNames_explained d.nested
  cases hn : nestedNames d.nested with
  | error fault =>
    rw [hn] at hnames
    obtain ⟨e, he, hw⟩ := hnames
    rw [hkeys e he] at hw
    cases hw
  | ok names =>
    rw [hn] at hnames
    rw [hnames.1]
    rfl

theorem find?_eq_some_iff_firstInvalid {names : List String} {name : String} :
    names.find? (!isValidNestedName ·) = some name ↔ FirstInvalid names name := by
  unfold FirstInvalid
  rw [List.find?_eq_some_iff_append]
  constructor
  · intro h
    obtain ⟨hname, before, after, hnames, hbefore⟩ := h
    exact ⟨before, after, hnames, by simpa using hname, by simpa using hbefore⟩
  · intro h
    obtain ⟨before, after, hnames, hname, hbefore⟩ := h
    exact ⟨by simpa using hname, before, after, hnames, by simpa using hbefore⟩

theorem find?_eq_none_iff_wellNamed (hkeys : ∀ e ∈ d.nested, e.1.isWritable = true) :
    d.names.find? (!isValidNestedName ·) = none ↔ d.WellNamed := by
  rw [List.find?_eq_none]
  constructor
  · intro h e he
    obtain ⟨name, hname⟩ := Key.exists_string (hkeys e he)
    have := h name (List.mem_filterMap.mpr ⟨e, he, hname⟩)
    exact ⟨name, hname, isValidNestedName_iff.mp (by simpa using this)⟩
  · intro h n hn
    obtain ⟨e, he, hname⟩ := List.mem_filterMap.mp hn
    obtain ⟨name, hname', hvalid⟩ := h e he
    cases hname.symm.trans hname'
    simpa using isValidNestedName_iff.mpr hvalid

/-- Nested mappings fail with the first of their names that is invalid, or with their first leaf that is no
rule text. -/
theorem compileNamed_eq_error_iff (hkeys : ∀ e ∈ d.nested, e.1.isWritable = true)
    (hvalues : ∀ e ∈ d.nested, e.2.KeysWritable) : compileNamed known d.nested = .error fault ↔
      (∃ name, fault = .nestedName name ∧ FirstInvalid d.names name) ∨
      d.WellNamed ∧ (Value.dict d.nested).FirstFault d.names known [.key "nested"] fault := by
  unfold compileNamed
  rw [nestedNames_eq_names hkeys, ← find?_eq_none_iff_wellNamed hkeys, ← Tree.compile_eq_error_iff (.dict hkeys hvalues),
    Tree.compile, map_eq_error_iff]
  simp only [← find?_eq_some_iff_firstInvalid, bind, Except.bind, pure, Except.pure]
  cases hf : d.names.find? (!isValidNestedName ·) with
  | some name => simp [eq_comm]
  | none =>
    cases Tree.compileEntries d.names known [.key "nested"] d.nested <;> simp

/-- What linking fails with is a cycle that can be reached. -/
theorem link_eq_error (hdefined : ∀ n, Reaches properties nested n → ∃ t, nested.lookup n = some t)
    (h : link properties nested = .error fault) : ∃ names, fault = .cycle names ∧
      IsCycle (References.Direct nested) names ∧ ∀ n ∈ names, References.Reaches properties nested n := by
  obtain ⟨names, hnames⟩ := reachable_isOk hdefined
  have hexact := reachable_exact properties nested
  rw [hnames] at hexact
  obtain ⟨-, hmem, -⟩ := hexact
  unfold link at h
  rw [hnames] at h
  dsimp only at h
  split at h
  · rename_i cycle hf
    cases h
    have hcycle := explained_findCycle? nested (some names)
    rw [hf] at hcycle
    obtain ⟨hcycle, s, hs, n, hhead, hsn⟩ := hcycle
    refine ⟨cycle, rfl, hcycle, fun m hm => ((hmem s).mp hs).of_direct (hsn.trans ?_)⟩
    obtain ⟨rest, rfl⟩ := List.head?_eq_some_iff.mp hhead
    exact reflTransGen_of_isChain hcycle.chain hm
  · cases h

theorem link_of_cycle (hdefined : ∀ n, Reaches properties nested n → ∃ t, nested.lookup n = some t)
    {names : List String} (hcycle : IsCycle (References.Direct nested) names)
    (hreach : ∀ n ∈ names, References.Reaches properties nested n) :
    ∃ names', link properties nested = .error (.cycle names') := by
  have hexplained := link_explained hdefined
  cases hl : link properties nested with
  | ok t =>
    rw [hl] at hexplained
    have h2 := hcycle.two_le
    match names, h2 with
    | n :: m :: rest, _ =>
      exact absurd ⟨n, hreach n List.mem_cons_self, hcycle.transGen rfl⟩ hexplained.2
  | error fault =>
    obtain ⟨names', rfl, -⟩ := link_eq_error hdefined hl
    exact ⟨names', rfl⟩

/-- The first defect of a document. -/
inductive FirstDefect (known : String → Bool) (document : Value) : CompileFault → Prop where
  | outer {fault : CompileFault} : OuterDefect document fault → FirstDefect known document fault
  | nestedName {d : Description} {name : String} : document.Describes d → FirstInvalid d.names name →
      FirstDefect known document (.nestedName name)
  /-- The nested mappings stand in a dictionary, in the order of its entries. -/
  | nested {d : Description} {fault : CompileFault} : document.Describes d → d.WellNamed →
      (Value.dict d.nested).FirstFault d.names known [.key "nested"] fault → FirstDefect known document fault
  | properties {d : Description} {fault : CompileFault} : document.Describes d → d.WellNamed →
      (∀ leaf ∈ Value.leavesOfEntries d.nested, leaf.IsRule d.names known) →
      d.properties.FirstFault d.names known [.key "properties"] fault → FirstDefect known document fault
  /-- All leaves are rule texts, and nested mappings that can be reached lead back to the first of them. -/
  | cycle {d : Description} {names : List String} : document.Describes d → d.WellNamed →
      (∀ leaf ∈ d.leaves, leaf.IsRule d.names known) → IsCycle d.pruned.Direct names →
      (∀ n ∈ names, d.pruned.Reaches n) → FirstDefect known document (.cycle names)

/-- Nested mappings without a defect are compiled. -/
theorem exists_named (hkeys : ∀ e ∈ d.nested, e.1.isWritable = true) (hvalues : ∀ e ∈ d.nested, e.2.KeysWritable)
    (hnamed : d.WellNamed) (hleaves : ∀ leaf ∈ Value.leavesOfEntries d.nested, leaf.IsRule d.names known) :
    ∃ nested, compileNamed known d.nested = .ok nested ∧ Named known d nested := by
  have hexplained := named_explained known d
  cases hc : compileNamed known d.nested with
  | ok nested =>
    rw [hc] at hexplained
    exact ⟨nested, rfl, hexplained⟩
  | error fault =>
    rcases (compileNamed_eq_error_iff hkeys hvalues).mp hc with ⟨name, -, hinvalid⟩ | ⟨-, hfirst⟩
    · rw [← find?_eq_some_iff_firstInvalid, (find?_eq_none_iff_wellNamed hkeys).mpr hnamed] at hinvalid
      cases hinvalid
    · obtain ⟨leaf, hleaf, hno⟩ := hfirst.exists_leaf
      exact absurd (hleaves leaf hleaf) hno

/-- What is compiled fails with its first defect. -/
theorem firstDefect_of_compile {document : Value} (hkeys : document.KeysWritable)
    (h : compile known document = .error fault) : FirstDefect known document fault := by
  by_cases hd : ∃ d, document.Describes d
  · obtain ⟨d, hd⟩ := hd
    obtain ⟨hproperties, hnestedKeys, hnestedValues⟩ := hd.keysWritable hkeys
    rw [compile_of_describes known hd] at h
    rcases bind_eq_error_iff.mp h with h | ⟨nested, hnested, h⟩
    · rcases (compileNamed_eq_error_iff hnestedKeys hnestedValues).mp h with ⟨name, rfl, hname⟩ | ⟨hnamed, hfirst⟩
      · exact .nestedName hd hname
      · exact .nested hd hnamed hfirst
    · have hnamed := named_explained known d
      rw [hnested] at hnamed
      rcases bind_eq_error_iff.mp h with h | ⟨properties, hc, h⟩
      · refine .properties hd hnamed.named hnamed.leaves ?_
        exact ((Tree.compile_eq_error_iff hproperties).mp h).congr hnamed.names
      · have hexplained : Explained (Entries.keys nested) known d.properties _ :=
          compile_explained d.properties [.key "properties"]
        rw [hc] at hexplained
        have hlinked := linked_of_named hnamed hexplained
        obtain ⟨names, rfl, hcycle, hreach⟩ := link_eq_error (fun n => hlinked.defined) h
        rw [hnamed.direct_eq] at hcycle
        refine .cycle hd hnamed.named (fun leaf hleaf => ?_) hcycle fun n hn => ?_
        · rcases List.mem_append.mp hleaf with hleaf | hleaf
          · exact hnamed.isRule_iff.mp (hexplained.leaves leaf hleaf)
          · exact hnamed.leaves leaf hleaf
        · exact (hnamed.reaches_iff hexplained.rules).mp (hreach n hn)
  · obtain ⟨fault', hfault'⟩ := exists_outerDefect (not_exists.mp hd)
    cases h.symm.trans (compile_of_outerDefect known hfault')
    exact .outer hfault'

/-- A document with a first defect fails with it, or with another cycle if it is a cycle. -/
theorem compile_of_firstDefect {document : Value} (hkeys : document.KeysWritable)
    (h : FirstDefect known document fault) : compile known document = .error fault ∨
      ∃ names names', fault = .cycle names ∧ compile known document = .error (.cycle names') := by
  cases h with
  | outer h => exact Or.inl (compile_of_outerDefect known h)
  | nestedName hd hname =>
    obtain ⟨-, hnestedKeys, hnestedValues⟩ := hd.keysWritable hkeys
    rw [compile_of_describes known hd]
    refine Or.inl (bind_eq_error_iff.mpr (Or.inl ?_))
    exact (compileNamed_eq_error_iff hnestedKeys hnestedValues).mpr (Or.inl ⟨_, rfl, hname⟩)
  | nested hd hnamed hfirst =>
    obtain ⟨-, hnestedKeys, hnestedValues⟩ := hd.keysWritable hkeys
    rw [compile_of_describes known hd]
    refine Or.inl (bind_eq_error_iff.mpr (Or.inl ?_))
    exact (compileNamed_eq_error_iff hnestedKeys hnestedValues).mpr (Or.inr ⟨hnamed, hfirst⟩)
  | properties hd hwell hleaves hfirst =>
    obtain ⟨hproperties, hnestedKeys, hnestedValues⟩ := hd.keysWritable hkeys
    obtain ⟨nested, hnested, hnamed⟩ := exists_named hnestedKeys hnestedValues hwell hleaves
    rw [compile_of_describes known hd]
    refine Or.inl (bind_eq_error_iff.mpr (Or.inr ⟨nested, hnested, bind_eq_error_iff.mpr (Or.inl ?_)⟩))
    exact (Tree.compile_eq_error_iff hproperties).mpr (hfirst.congr fun n => (hnamed.names n).symm)
  | @cycle d names hd hwell hleaves hcycle hreach =>
    obtain ⟨hproperties, hnestedKeys, hnestedValues⟩ := hd.keysWritable hkeys
    obtain ⟨nested, hnested, hnamed⟩ := exists_named hnestedKeys hnestedValues hwell fun leaf hleaf =>
      hleaves leaf (List.mem_append_right _ hleaf)
    have hexplained : Explained (Entries.keys nested) known d.properties _ :=
      compile_explained d.properties [.key "properties"]
    rw [compile_of_describes known hd]
    refine Or.inr ⟨names, ?_⟩
    cases hc : Tree.compile (Entries.keys nested) known [.key "properties"] d.properties with
    | error fault =>
      obtain ⟨leaf, hleaf, hno⟩ := ((Tree.compile_eq_error_iff hproperties).mp hc).exists_leaf
      exact absurd (hnamed.isRule_iff.mpr (hleaves leaf (List.mem_append_left _ hleaf))) hno
    | ok properties =>
      rw [hc] at hexplained
      have hlinked := linked_of_named hnamed hexplained
      rw [← hnamed.direct_eq] at hcycle
      obtain ⟨names', hlink⟩ := link_of_cycle (fun n => hlinked.defined) hcycle fun n hn =>
        (hnamed.reaches_iff hexplained.rules).mpr (hreach n hn)
      refine ⟨names', rfl, ?_⟩
      exact bind_eq_error_iff.mpr (Or.inr ⟨nested, hnested, bind_eq_error_iff.mpr (Or.inr ⟨properties, hc, hlink⟩)⟩)

end Transformation

/-! ## Messages -/

/-- A location gets longer by one step. -/
def Location.extend (text : String) : Step → String
  | .key name => text ++ "." ++ name
  | .index i => text ++ "[" ++ String.ofList (Number.natText i) ++ "]"

theorem Location.append_tailText (text : String) (location : Location) :
    text ++ tailText location = location.foldl extend text := by
  induction location generalizing text with
  | nil => rw [tailText, String.append_empty, List.foldl_nil]
  | cons step location ih =>
    rw [List.foldl_cons, ← ih]
    cases step <;> simp only [tailText, extend, String.append_assoc]

theorem Location.text_key (part : String) (location : Location) :
    Location.text (.key part :: location) = location.foldl extend part := append_tailText part location

/-- The fault's message has this beginning, then the location, then this end. -/
def CompileFault.Tells (fault : CompileFault) (start : String) (part : String) (location : Location) (rest : String) :
    Prop :=
  fault.message = start ++ " at " ++ location.foldl Location.extend part ++ ": " ++ rest

theorem CompileFault.tells_unsupported (part : String) (location : Location) (kind : String) :
    (CompileFault.unsupported (.key part :: location) kind).Tells "Unsupported mapping value" part location
      (kind ++ " (expected rule string, list or mapping)") := by
  have hstart : "Unsupported mapping value at " = "Unsupported mapping value" ++ " at " := by decide
  unfold Tells CompileFault.message
  dsimp only [toString]
  rw [hstart, Location.text_key]
  simp only [String.append_assoc]

theorem CompileFault.tells_rule {part : String} (hpart : part ≠ "") (location : Location) (text name : String) :
    (CompileFault.rule (.key part :: location) text .malformed).Tells "Malformed mapping rule" part location
        (Text.quoted text) ∧
      (CompileFault.rule (.key part :: location) text (.undefinedNested name)).Tells "Undefined nested mapping" part
        location name ∧
      (CompileFault.rule (.key part :: location) text (.undefinedConverter name)).Tells "Undefined datatype" part
        location (Text.quoted name) := by
  have hplace : Location.text (.key part :: location) ≠ "" := by
    intro h
    rw [Location.text, ← String.toList_inj, String.toList_append] at h
    exact hpart (String.toList_eq_nil_iff.mp (List.append_eq_nil_iff.mp h).1)
  refine ⟨?_, ?_, ?_⟩ <;>
  · unfold Tells CompileFault.message RuleFault.message
    dsimp only [toString]
    rw [if_neg hplace, Location.text_key]
    simp only [String.append_assoc]

namespace Transformation

/-- The defect that is reported is the first. What a document fails with is its first defect, and a document
that has a first defect fails with it; of several cycles any can be the one that is reported. And a message
about a leaf gives its location, every step from `properties` or `nested` on: a key after a dot, and an index
in brackets. -/
theorem first_defect_is_reported (known : String → Bool) {document : Value} (hkeys : document.KeysWritable) :
    (∀ fault, compile known document = .error fault → FirstDefect known document fault) ∧
    (∀ fault, FirstDefect known document fault → compile known document = .error fault ∨
      ∃ names names', fault = .cycle names ∧ compile known document = .error (.cycle names')) ∧
    ∀ part ∈ ["properties", "nested"], ∀ location kind text name,
      (CompileFault.unsupported (.key part :: location) kind).Tells "Unsupported mapping value" part location
        (kind ++ " (expected rule string, list or mapping)") ∧
      (CompileFault.rule (.key part :: location) text .malformed).Tells "Malformed mapping rule" part location
        (Text.quoted text) ∧
      (CompileFault.rule (.key part :: location) text (.undefinedNested name)).Tells "Undefined nested mapping" part
        location name ∧
      (CompileFault.rule (.key part :: location) text (.undefinedConverter name)).Tells "Undefined datatype" part
        location (Text.quoted name) := by
  refine ⟨fun fault => firstDefect_of_compile hkeys, fun fault => compile_of_firstDefect hkeys, ?_⟩
  intro part hpart location kind text name
  have hne : part ≠ "" := by
    rintro rfl
    exact absurd hpart (by decide)
  exact ⟨CompileFault.tells_unsupported part location kind, CompileFault.tells_rule hne location text name⟩

/-- Two keys with one text, and a defect under each of them: what stands under the first is not compiled, but
it is read. -/
def twice : Value :=
  .dict [(.str "properties", .dict [(.str "a", .str "x:int"),
      (.str "", .list [.tuple [], .dict [(.scalar (.int 1), .str "y:$q[]"), (.str "1", .int 5)]])]),
    (.str "nested", .dict [(.str "$n", .str "z:int")])]

def twiceFault : CompileFault :=
  .rule [.key "properties", .key "", .index 1, .key "1"] "y:$q[]" (.undefinedNested "$q")

theorem the_first_of_two_is_reported : twice.KeysWritable ∧
    compile (· == "int") twice = .error twiceFault ∧ FirstDefect (· == "int") twice twiceFault ∧
    twiceFault.Tells "Undefined nested mapping" "properties" [.key "", .index 1, .key "1"] "$q" ∧
    [Step.key "", .index 1, .key "1"].foldl Location.extend "properties" = "properties.[1].1" := by
  have hkeys : twice.KeysWritable := by
    simp [twice, Value.keysWritable_dict, Value.keysWritable_seq, Value.keysWritable_scalar, Key.isWritable]
    decide
  have hc : compile (· == "int") twice = .error twiceFault := by rfl
  obtain ⟨hfirst, -, hmessage⟩ := first_defect_is_reported (· == "int") hkeys
  exact ⟨hkeys, hc, hfirst _ hc, (hmessage "properties" (by simp) _ "" "y:$q[]" "$q").2.2.1, by decide⟩

end Transformation

end Reshape
