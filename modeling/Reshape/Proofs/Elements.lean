/-
  Reshape.Proofs.Elements: what an array rule does to one element of its sequence.

  An array rule makes of every element what a rule does that takes it by its index, in the same context.
  The two differ for an element that is null: the array rule resolves it like any other, and the rule with
  the index gives null. They differ too for an index that is too long to be read.
  - `Context.extract_snoc`: one more segment, which is none of the two special ones, takes a part.
  - `Value.part_indexSegment`: the digits of an index are read back as that index.
  - `elements_go_by_index`: the elements of the list, one by one, and the empty list for all that is no
    sequence.
-/

import Reshape.Proofs.Agreement
import Reshape.Proofs.Inlining
import Reshape.Proofs.PathForms

namespace Reshape

/-! ## Indices as segments -/

/-- The segment that writes an index in decimal digits. -/
def indexSegment (i : Nat) : String := String.ofList (Number.natText i)

theorem spells_indexSegment (i : Nat) : Spells (indexSegment i) i := ⟨0, by simp [indexSegment]⟩

/-- No segment with a special meaning is an index. -/
theorem indexSegment_ne {segment : String} (h : segment.toList.head? = some '$') (i : Nat) :
    indexSegment i ≠ segment := by
  rintro rfl
  have hdigit := (spells_iff.mp (spells_indexSegment i)).2.1 '$' (List.mem_of_mem_head? h)
  cases hdigit

namespace Value

variable {v : Value} {form : Form} {items : List Value} {i : Nat}

/-- The digits of an index are read back as that index. -/
theorem part_indexSegment (hitems : v.contents = .seq form items) (hshort : IsShort (indexSegment i)) :
    v.part (indexSegment i) = .ok items[i]? := by
  obtain ⟨found, hpart, htakes⟩ := takes_iff hshort v
  rw [hpart]
  refine congrArg Except.ok (Option.ext fun w => (htakes w).trans ((takes_seq hitems).trans ?_))
  constructor
  · rintro ⟨j, hj, hw⟩
    rwa [(spells_indexSegment i).unique hj]
  · exact fun hw => ⟨i, spells_indexSegment i, hw⟩

theorem part_of_not_isShort {segment : String} (hitems : v.contents = .seq form items) (hlong : ¬ IsShort segment) :
    v.part segment = .error ⟨segment.toList.length⟩ := by
  unfold IsShort at hlong
  rw [Classical.not_imp, not_le] at hlong
  have hne : segment.toList ≠ [] := List.ne_nil_of_length_pos (Nat.zero_lt_of_lt hlong.2)
  have hindex : index? segment = some (.error ⟨segment.toList.length⟩) := by
    unfold index?
    dsimp only
    rw [if_pos ⟨hne, hlong.1⟩, if_pos hlong.2]
  unfold part
  rw [hitems]
  dsimp only
  rw [hindex]

end Value

/-- After a path that leads to a value one more segment takes a part of that value. -/
theorem Context.extract_snoc {c : Context} {path : List String} {v : Value} (hv : c.extract path = .ok (some v))
    {segment : String} (hr : segment ≠ rootSegment) (hp : segment ≠ parentSegment) :
    c.extract (path ++ [segment]) = v.part segment := by
  obtain ⟨cursor, hwalk, hvalue⟩ := exists_walk_of_extract hv
  unfold extract
  rw [Cursor.walk_append hwalk, Cursor.walk, Cursor.step, if_neg hr, if_neg hp, hvalue]
  cases v.part segment with
  | error fault => rfl
  | ok found => cases found <;> rfl

/-! ## What a target makes of a value -/

section
variable (registry : Registry) (nested : Nested) (c : Context)

/-- Without a limit to its depth the evaluation ends with this value. -/
def Tree.Gives (t : Tree) (v : Value) : Prop := ∃ run, t.Ends registry nested c run ∧ run.outcome = .ok v

/-- What a target by itself makes of a value: the nested mapping, with the value as its scope, or the
converter. -/
inductive Makes : String → Value → Value → Prop where
  | nested {name : String} {t : Tree} {w v : Value} : isNestedName name = true → nested.lookup name = some t →
      t.Gives registry nested (c.enter w) v → Makes name w v
  | converter {name : String} {f : Converter} {w v : Value} : isNestedName name = false →
      registry.find? name = some f → f w = .ok v → Makes name w v
  | missing {name : String} {w : Value} : isNestedName name = false → registry.find? name = none → Makes name w .null

end

variable {registry : Registry} {nested : Nested} {c : Context} {depth : Nat}

theorem gives_of_outcome (depth : Nat) {t : Tree} {v : Value}
    (h : (t.evaluate registry (enterNested registry nested depth) c).outcome = .ok v) : t.Gives registry nested c v := by
  refine ⟨_, ⟨depth, rfl, fun hdeep => ?_⟩, h⟩
  cases h.symm.trans hdeep

/-- A tree gives one value only. -/
theorem Tree.Gives.unique {t : Tree} {v v' : Value} (h : t.Gives registry nested c v) (h' : t.Gives registry nested c v') :
    v = v' := by
  obtain ⟨_, ⟨depth, rfl, hdeep⟩, hv⟩ := h
  obtain ⟨_, ⟨depth', rfl, hdeep'⟩, hv'⟩ := h'
  have hmore : ∀ {d}, (t.evaluate registry (enterNested registry nested d) c).outcome ≠ .error .tooDeep → ∀ {d'}, d ≤ d' →
      t.evaluate registry (enterNested registry nested d') c = t.evaluate registry (enterNested registry nested d) c :=
    fun hd _ hle => (continues_evaluate (continues_enterNested registry nested hle) c t).resolve_left hd
  rw [← hmore hdeep (Nat.le_max_left depth depth'), hmore hdeep' (Nat.le_max_right depth depth')] at hv
  exact Except.ok.inj (hv.symm.trans hv')

theorem makes_of_resolve {target : String} {w v : Value}
    (h : (resolve registry (enterNested registry nested depth) c target w).outcome = .ok v) :
    Makes registry nested c target w v := by
  unfold resolve at h
  by_cases hn : isNestedName target = true
  · rw [if_pos hn] at h
    cases hl : nested.lookup target with
    | none =>
      rw [enterNested, hl] at h
      cases h
    | some t =>
      cases depth with
      | zero =>
        rw [enterNested, hl] at h
        cases h
      | succ depth =>
        rw [enterNested, hl] at h
        exact .nested hn hl (gives_of_outcome depth h)
  · rw [if_neg hn] at h
    have hn' : isNestedName target = false := by simpa using hn
    cases hf : registry.find? target with
    | none =>
      rw [hf] at h
      cases h
      exact .missing hn' hf
    | some f =>
      rw [hf] at h
      cases hw : f w with
      | error cause =>
        simp only [hw] at h
        cases h
      | ok u =>
        simp only [hw] at h
        cases h
        exact .converter hn' hf hw

/-! ## Rules -/

/-- The rule for one element of what the path leads to. -/
def elementRule (path : List String) (target : String) (i : Nat) : Rule := ⟨path ++ [indexSegment i], target, false⟩

variable {path : List String} {target : String} {v : Value} {form : Form} {items : List Value}

theorem ne_null_of_contents (hitems : v.contents = .seq form items) : v ≠ .null := by
  rintro rfl
  cases hitems

/-- The values of an array rule are those of resolving the elements. -/
theorem exists_of_array_rule (hv : c.extract path = .ok (some v)) (hitems : v.contents = .seq form items) {result : Value}
    {enter : String → Context → Run Value}
    (h : ((⟨path, target, true⟩ : Rule).evaluate registry enter c).outcome = .ok result) :
    ∃ values, result = .list values ∧
      List.Forall₂ (fun item value => (resolve registry enter c target item).outcome = .ok value) items values := by
  rw [evaluateRule_of_value hv (ne_null_of_contents hitems), if_pos rfl, hitems] at h
  obtain ⟨values, hvalues, hresult⟩ := Run.outcome_bind_eq_ok_iff.mp h
  cases hresult
  exact ⟨values, rfl, Run.forEach_eq_ok_iff.mp hvalues⟩

/-- What is no sequence, or not there at all, gives the empty list, and nothing happens. -/
theorem evaluate_array_of_no_seq {found : Option Value} (hfound : c.extract path = .ok found)
    (hno : ∀ v, found = some v → ∀ form items, v.contents ≠ .seq form items) (enter : String → Context → Run Value) :
    (⟨path, target, true⟩ : Rule).evaluate registry enter c = ⟨[], .ok (.list [])⟩ := by
  by_cases hnothing : found.getD .null = .null
  · rw [evaluateRule_of_nothing hfound hnothing]
    rfl
  obtain ⟨v, rfl, hnull⟩ := exists_value hnothing
  rw [evaluateRule_of_value hfound hnull, if_pos rfl]
  split
  · rename_i form items hitems
    exact absurd hitems (hno v rfl form items)
  · rfl

section
variable {i : Nat} {item : Value} {enter : String → Context → Run Value}

theorem extract_item (hv : c.extract path = .ok (some v)) (hitems : v.contents = .seq form items)
    (hshort : IsShort (indexSegment i)) (hitem : items[i]? = some item) :
    c.extract (path ++ [indexSegment i]) = .ok (some item) := by
  rw [Context.extract_snoc hv (indexSegment_ne rfl i) (indexSegment_ne rfl i), Value.part_indexSegment hitems hshort, hitem]

theorem evaluate_index_of_null (hv : c.extract path = .ok (some v)) (hitems : v.contents = .seq form items)
    (hshort : IsShort (indexSegment i)) (hitem : items[i]? = some .null) :
    (elementRule path target i).evaluate registry enter c = pure .null :=
  evaluateRule_of_nothing (r := elementRule path target i) (extract_item hv hitems hshort hitem) rfl

theorem evaluate_index_of_long (hv : c.extract path = .ok (some v)) (hitems : v.contents = .seq form items)
    (hlong : ¬ IsShort (indexSegment i)) :
    (elementRule path target i).evaluate registry enter c =
      Run.fail (.indexTooLong (indexSegment i).toList.length) := by
  have hpart := Context.extract_snoc hv (indexSegment_ne rfl i) (indexSegment_ne rfl i)
  rw [Value.part_of_not_isShort hitems hlong] at hpart
  exact evaluateRule_of_refused hpart

theorem gives_elementRule (hv : c.extract path = .ok (some v)) (hitems : v.contents = .seq form items)
    (hshort : IsShort (indexSegment i)) (hitem : items[i]? = some item) {value : Value}
    (hvalue : (resolve registry (enterNested registry nested depth) c target item).outcome = .ok value) :
    (item ≠ .null → (Tree.leaf (elementRule path target i)).Gives registry nested c value) ∧
      (item = .null → (Tree.leaf (elementRule path target i)).Gives registry nested c .null) := by
  constructor
  · intro hnull
    refine gives_of_outcome depth ?_
    rw [Tree.evaluate, elementRule, evaluate_of_extract (extract_item hv hitems hshort hitem) hnull]
    exact hvalue
  · rintro rfl
    refine gives_of_outcome 0 ?_
    rw [Tree.evaluate, evaluate_index_of_null hv hitems hshort hitem]
    rfl

end

/-- An array rule makes a list of what the target makes of each element. That is what the rule for this element
by its index gives, and nothing else, unless the element is null, which by its index gives null, or the index is
too long to be read. What is no sequence gives the empty list, and no converter is called. -/
theorem elements_go_by_index (registry : Registry) (nested : Nested) (c : Context) (path : List String)
    (target : String) :
    (∀ v form items result, c.extract path = .ok (some v) → v.contents = .seq form items →
      (Tree.leaf ⟨path, target, true⟩).Gives registry nested c result →
      ∃ values, result = .list values ∧ values.length = items.length ∧
        ∀ i item value, items[i]? = some item → values[i]? = some value →
          Makes registry nested c target item value ∧
          (IsShort (indexSegment i) →
            (item ≠ .null → ∀ u, (Tree.leaf (elementRule path target i)).Gives registry nested c u ↔ u = value) ∧
            (item = .null → ∀ u, (Tree.leaf (elementRule path target i)).Gives registry nested c u ↔ u = .null)) ∧
          (¬ IsShort (indexSegment i) → (Tree.leaf (elementRule path target i)).Ends registry nested c
            (Run.fail (.indexTooLong (indexSegment i).toList.length)))) ∧
    ∀ found, c.extract path = .ok found → (∀ v, found = some v → ∀ form items, v.contents ≠ .seq form items) →
      ∀ enter, (⟨path, target, true⟩ : Rule).evaluate registry enter c = ⟨[], .ok (.list [])⟩ := by
  refine ⟨?_, fun found hfound hno enter => evaluate_array_of_no_seq hfound hno enter⟩
  rintro v form items result hv hitems ⟨_, ⟨depth, rfl, -⟩, hresult⟩
  obtain ⟨values, rfl, hvalues⟩ := exists_of_array_rule hv hitems hresult
  refine ⟨values, rfl, hvalues.length_eq.symm, fun i item value hitem hvalue => ?_⟩
  have hresolve : (resolve registry (enterNested registry nested depth) c target item).outcome = .ok value := by
    obtain ⟨hi, rfl⟩ := List.getElem?_eq_some_iff.mp hitem
    obtain ⟨hi', rfl⟩ := List.getElem?_eq_some_iff.mp hvalue
    exact hvalues.get hi hi'
  refine ⟨makes_of_resolve hresolve, fun hshort => ?_, fun hlong => ⟨0, evaluate_index_of_long hv hitems hlong, nofun⟩⟩
  obtain ⟨hsame, hnull⟩ := gives_elementRule hv hitems hshort hitem hresolve
  have hiff : ∀ {w}, (Tree.leaf (elementRule path target i)).Gives registry nested c w →
      ∀ u, (Tree.leaf (elementRule path target i)).Gives registry nested c u ↔ u = w :=
    fun hw u => ⟨fun hu => hu.unique hw, fun heq => heq ▸ hw⟩
  exact ⟨fun hne => hiff (hsame hne), fun hitem => hiff (hnull hitem)⟩

/-- Numbers of a row, and one of the input document. -/
def ledgerNested : Nested :=
  [("$r", .dict [("n", .leaf ⟨["n"], "int", false⟩), ("k", .leaf ⟨["$root", "k"], "int", false⟩)])]

def ledgerRows : List Value := [.dict [(.str "n", .int 2)], .null]

/-- One level below an input document with two rows, one of them null. -/
def ledger : Context := (Context.top (.dict [(.str "k", .int 7), (.str "rows", .list ledgerRows)])).enter (.str "rows")

def ledgerRow (n : Value) : Value := .dict [(.str "n", n), (.str "k", .int 7)]

/-- The row that is null is a row without a number to the array rule, and null by its index. -/
theorem ledger_rows_go_by_index :
    ledger.extract ["$parent", "rows"] = .ok (some (.list ledgerRows)) ∧
    (Tree.leaf ⟨["$parent", "rows"], "$r", true⟩).Gives Transformation.integers ledgerNested ledger
      (.list [ledgerRow (.int 2), ledgerRow .null]) ∧
    (Tree.leaf (elementRule ["$parent", "rows"] "$r" 0)).Gives Transformation.integers ledgerNested ledger
      (ledgerRow (.int 2)) ∧
    (Tree.leaf (elementRule ["$parent", "rows"] "$r" 1)).Gives Transformation.integers ledgerNested ledger .null ∧
    Makes Transformation.integers ledgerNested ledger "$r" .null (ledgerRow .null) ∧
    ledger.extract [] = .ok (some (.str "rows")) ∧
    (⟨[], "$r", true⟩ : Rule).evaluate Transformation.integers (enterNested Transformation.integers ledgerNested 1) ledger =
      ⟨[], .ok (.list [])⟩ := by
  have hextract : ledger.extract ["$parent", "rows"] = .ok (some (.list ledgerRows)) := by rfl
  have houtcome : ((Tree.leaf ⟨["$parent", "rows"], "$r", true⟩).evaluate Transformation.integers
      (enterNested Transformation.integers ledgerNested 1) ledger).outcome =
      .ok (.list [ledgerRow (.int 2), ledgerRow .null]) := by rfl
  have hgives := gives_of_outcome 1 houtcome
  have hscope : ledger.extract [] = .ok (some (.str "rows")) := rfl
  obtain ⟨values, hvalues, -, heach⟩ := (elements_go_by_index Transformation.integers ledgerNested ledger
    ["$parent", "rows"] "$r").1 _ _ _ _ hextract rfl hgives
  cases hvalues
  obtain ⟨-, hfirst, -⟩ := heach 0 _ _ rfl rfl
  obtain ⟨hmakes, hsecond, -⟩ := heach 1 _ _ rfl rfl
  have hempty := (elements_go_by_index Transformation.integers ledgerNested ledger [] "$r").2 _ hscope
  have hne : Value.dict [(.str "n", .int 2)] ≠ .null := fun h => by cases h
  refine ⟨hextract, hgives, ((hfirst (by decide)).1 hne _).mpr rfl, ((hsecond (by decide)).2 rfl _).mpr rfl, hmakes,
    hscope, hempty ?_ _⟩
  rintro v heq form items hitems
  cases heq
  cases hitems

end Reshape
