/-
  Reshape.Proofs.Flattening: the leaves of records.

  The leaves of a record are what is no dictionary in it, each under the keys that lead to it with points
  between them: first those of the record itself, then those of the dictionaries in it, depth first. If no
  name comes twice among them, the row of a record is the list of its leaves. Of a record that holds itself
  there is no row.
  - `flattenRecord_eq`: the row of a record.
  - `flattenAll_eq`: the rows of records.
-/

import Mathlib.Data.List.Nodup
import Reshape.Proofs.Reading
import Reshape.Table.Row

namespace Reshape

/-! ## First appearances -/

theorem eraseDups_snoc (names : List String) (n : String) :
    (names ++ [n]).eraseDups = if n ∈ names then names.eraseDups else names.eraseDups ++ [n] := by
  rw [List.eraseDups_append]
  by_cases hn : n ∈ names
  · simp [List.removeAll, hn]
  · simp [List.removeAll, hn, List.eraseDups_cons]

theorem nodup_eraseDups (names : List String) : names.eraseDups.Nodup := by
  induction names using List.reverseRecOn with
  | nil => simp
  | append_singleton names n ih =>
    rw [eraseDups_snoc]
    split
    · exact ih
    · rename_i hn
      rw [List.nodup_append]
      refine ⟨ih, by simp, ?_⟩
      intro a ha b hb
      rw [List.mem_singleton.mp hb]
      exact fun hab => hn (hab ▸ List.mem_eraseDups.mp ha)

theorem isPrefix_eraseDups (names more : List String) : names.eraseDups <+: (names ++ more).eraseDups := by
  rw [List.eraseDups_append]
  exact List.prefix_append _ _

namespace Table

/-! ## Leaves -/

mutual
/-- What is no dictionary in an open value, each with the keys that lead to it. -/
def pathed : Value → List (List String × Value)
  | .dict entries => pathedEntries entries
  | .again .dict => []
  | v => [([], v)]
def pathedEntries : List (Key × Value) → List (List String × Value)
  | [] => []
  | (k, v) :: es => (pathed v).map (fun l => (k.string?.getD "" :: l.1, l.2)) ++ pathedEntries es
end

/-- The keys that lead to a leaf, with points between them. -/
def pointed (path : List String) : String := Text.join "." path

/-- The leaves of a record, those in it before those in its dictionaries. -/
def leaves (record : Value) : List (String × Value) :=
  match record.contents with
  | .dict entries =>
    let entries := Value.openedEntries entries
    (pathedEntries (entries.filter (fun e => !isDict e.2) ++ entries.filter fun e => isDict e.2)).map
      fun l => (pointed l.1, l.2)
  | _ => []

/-- Whether a key is a text that is not empty. -/
def isName : Key → Bool
  | .str s => s ≠ ""
  | _ => false

mutual
/-- Whether all keys in an open value are texts that are not empty. -/
def isNamed : Value → Bool
  | .dict entries => areNamed entries
  | _ => true
def areNamed : List (Key × Value) → Bool
  | [] => true
  | (k, v) :: es => isName k && isNamed v && areNamed es
end

mutual
/-- Whether no dictionary in an open value comes again inside itself. -/
def ends : Value → Bool
  | .dict entries => allEnd entries
  | .again .dict => false
  | _ => true
def allEnd : List (Key × Value) → Bool
  | [] => true
  | (_, v) :: es => ends v && allEnd es
end

/-- Whether no dictionary in a record holds itself. -/
def hasEnd (record : Value) : Bool :=
  match record.contents with
  | .dict entries => allEnd (Value.openedEntries entries)
  | _ => true

/-- A dictionary with names for keys, as are the dictionaries in it. -/
def IsNamed (record : Value) : Prop :=
  ∃ entries, record.contents = .dict entries ∧ areNamed (Value.openedEntries entries) = true

/-- No two leaves of it have the same name. -/
structure IsRecord (record : Value) : Prop where
  named : IsNamed record
  distinct : (Entries.keys (leaves record)).Nodup

theorem isName_iff {k : Key} : isName k = true ↔ ∃ s, s ≠ "" ∧ k = .str s := by
  unfold isName
  split
  · simp
  · rename_i hk
    simp only [Bool.false_eq_true, false_iff, not_exists, not_and]
    exact fun s _ => hk s

theorem pathed_of_not_dict {v : Value} (h : isDict v = false) : pathed v = [([], v)] := by
  unfold pathed
  split
  · cases h
  · cases h
  · rfl

theorem ends_of_not_dict {v : Value} (h : isDict v = false) : ends v = true := by
  unfold ends
  split
  · cases h
  · cases h
  · rfl

theorem pathedEntries_append (es es' : List (Key × Value)) :
    pathedEntries (es ++ es') = pathedEntries es ++ pathedEntries es' := by
  induction es with
  | nil => rfl
  | cons e es ih =>
    obtain ⟨k, v⟩ := e
    rw [List.cons_append, pathedEntries, pathedEntries, ih, List.append_assoc]

theorem areNamed_iff {es : List (Key × Value)} : areNamed es = true ↔ ∀ e ∈ es, isName e.1 = true ∧ isNamed e.2 = true := by
  induction es with
  | nil => simp [areNamed]
  | cons e es ih =>
    obtain ⟨k, v⟩ := e
    simp [areNamed, ih, and_assoc]

theorem allEnd_filter_isDict (es : List (Key × Value)) : allEnd (es.filter fun e => isDict e.2) = allEnd es := by
  induction es with
  | nil => rfl
  | cons e es ih =>
    obtain ⟨k, v⟩ := e
    by_cases hdict : isDict v = true
    · simp [allEnd, hdict, ih]
    · simp [allEnd, hdict, ih, ends_of_not_dict (Bool.not_eq_true _ ▸ hdict)]

/-! ## Names -/

theorem joined_snoc {sep : List Char} {ps : List (List Char)} (h : ps ≠ []) (p : List Char) :
    Text.joined sep (ps ++ [p]) = Text.joined sep ps ++ sep ++ p := by
  induction ps with
  | nil => exact absurd rfl h
  | cons q ps ih =>
    by_cases hps : ps = []
    · subst hps
      rfl
    · rw [List.cons_append, Text.joined_cons (by simp), Text.joined_cons hps, ih hps]
      simp

theorem pointed_snoc {path : List String} (h : path ≠ []) (s : String) :
    pointed (path ++ [s]) = pointed path ++ "." ++ s := by
  apply String.toList_inj.mp
  simp only [pointed, Text.join, String.toList_ofList, String.toList_append, List.map_append, List.map_cons, List.map_nil]
  exact joined_snoc (by simpa using h) s.toList

theorem pointed_ne_empty {path : List String} (h : path ≠ []) (hnames : ∀ s ∈ path, s ≠ "") : pointed path ≠ "" := by
  intro hempty
  have hchars : Text.joined ['.'] (path.map String.toList) = [] := by
    have := congrArg String.toList hempty
    simpa [pointed, Text.join] using this
  rcases Text.joined_eq_nil (by simp) hchars with hnil | hnil
  · exact h (by simpa using hnil)
  · cases path with
    | nil => exact h rfl
    | cons s path =>
      have hs : s.toList = [] := by simpa using (List.cons.inj hnil).1
      exact hnames s (by simp) (String.toList_eq_nil_iff.mp hs)

/-- The name of a column under an outer one is that of the longer path. -/
theorem dotted_pointed {path : List String} (hnames : ∀ s ∈ path, s ≠ "") (s : String) :
    dotted (pointed path) s = pointed (path ++ [s]) := by
  by_cases hpath : path = []
  · subst hpath
    have hempty : pointed [] = "" := rfl
    rw [dotted, if_pos hempty, List.nil_append]
    simp [pointed, Text.join, Text.joined]
  · rw [dotted, if_neg (pointed_ne_empty hpath hnames), pointed_snoc hpath]

/-! ## Rows of leaves -/

/-- A row of leaves under their names. -/
def rowOf (cells : List (String × Value)) : Row := cells.map fun c => (.str c.1, c.2)

/-- The leaves of a value that stands under these keys. -/
def under (path : List String) (v : Value) : List (String × Value) :=
  (pathed v).map fun l => (pointed (path ++ l.1), l.2)

def underEntries (path : List String) (es : List (Key × Value)) : List (String × Value) :=
  (pathedEntries es).map fun l => (pointed (path ++ l.1), l.2)

@[simp] theorem rowOf_append (cells more : List (String × Value)) : rowOf (cells ++ more) = rowOf cells ++ rowOf more := by
  simp [rowOf]

theorem underEntries_cons (path : List String) (s : String) (v : Value) (es : List (Key × Value)) :
    underEntries path ((.str s, v) :: es) = under (path ++ [s]) v ++ underEntries path es := by
  simp [underEntries, under, pathedEntries, Function.comp_def]

theorem lookup_rowOf (n : String) (cells : List (String × Value)) : (rowOf cells).lookup (.str n) = cells.lookup n := by
  induction cells with
  | nil => rfl
  | cons c cells ih =>
    have hkey : (Key.str n == Key.str c.1) = (n == c.1) := by
      rw [Key.same_str]
      rfl
    show List.lookup (.str n) ((.str c.1, c.2) :: rowOf cells) = _
    rw [List.lookup_cons, hkey, List.lookup_cons, ih]

theorem put_rowOf {n : String} {cells : List (String × Value)} (h : n ∉ Entries.keys cells) (v : Value) :
    Entries.put (.str n) v (rowOf cells) = rowOf (cells ++ [(n, v)]) := by
  induction cells with
  | nil => rfl
  | cons c cells ih =>
    simp only [Entries.keys_cons, List.mem_cons, not_or] at h
    have hne : (Key.str c.1 == Key.str n) = false := by
      rw [Key.same_str]
      exact decide_eq_false (Ne.symm h.1)
    have hrest := ih h.2
    simp only [rowOf, List.map_cons, List.cons_append, Entries.put, hne] at hrest ⊢
    simp [hrest]

theorem putAll_rowOf {cells more : List (String × Value)} (h : (Entries.keys (cells ++ more)).Nodup) :
    Entries.putAll (rowOf cells) (rowOf more) = rowOf (cells ++ more) := by
  induction more generalizing cells with
  | nil => simp [Entries.putAll, rowOf]
  | cons c more ih =>
    have hsplit : cells ++ c :: more = (cells ++ [c]) ++ more := by simp
    have hc : c.1 ∉ Entries.keys cells := by
      intro hmem
      simp only [Entries.keys, List.map_append, List.nodup_append] at h
      exact h.2.2 c.1 hmem c.1 (by simp) rfl
    rw [hsplit] at h ⊢
    rw [← ih h]
    show Entries.putAll (Entries.put (.str c.1) c.2 (rowOf cells)) (rowOf more) = _
    rw [put_rowOf hc]

/-- A value adds its leaves to a row that has none of their names, if it comes to an end. -/
def Flattens (v : Value) : Prop :=
  ∀ path cells, isNamed v = true → (∀ s ∈ path, s ≠ "") → (Entries.keys (cells ++ under path v)).Nodup →
    flatten (pointed path) (rowOf cells) v = if ends v then .ok (rowOf (cells ++ under path v)) else .error .endless

theorem flattenEntries_eq {es : List (Key × Value)} (hes : ∀ e ∈ es, Flattens e.2) {path : List String}
    {cells : List (String × Value)} (hnamed : areNamed es = true) (hpath : ∀ s ∈ path, s ≠ "")
    (hnodup : (Entries.keys (cells ++ underEntries path es)).Nodup) :
    flattenEntries (pointed path) (rowOf cells) es =
      if allEnd es then .ok (rowOf (cells ++ underEntries path es)) else .error .endless := by
  -- the row that the entries before have made is one of leaves, and none of the later ones is in it
  induction es generalizing cells with
  | nil => simp [flattenEntries, underEntries, pathedEntries, allEnd]
  | cons e es ih =>
    obtain ⟨k, v⟩ := e
    obtain ⟨⟨hk, hv⟩, hrest⟩ := List.forall_mem_cons.mp (areNamed_iff.mp hnamed)
    obtain ⟨s, hs, rfl⟩ := isName_iff.mp hk
    rw [underEntries_cons, ← List.append_assoc] at hnodup ⊢
    have hinner : ∀ t ∈ path ++ [s], t ≠ "" := by
      intro t ht
      rcases List.mem_append.mp ht with ht | ht
      · exact hpath t ht
      · rw [List.mem_singleton.mp ht]
        exact hs
    have hfirst : (Entries.keys (cells ++ under (path ++ [s]) v)).Nodup := by
      simp only [Entries.keys, List.map_append] at hnodup ⊢
      exact hnodup.of_append_left
    have hvalue := hes (.str s, v) (by simp) (path ++ [s]) cells hv hinner hfirst
    rw [flattenEntries, Key.string?_str]
    dsimp only
    rw [dotted_pointed hpath, hvalue]
    by_cases hends : ends v = true
    · simp only [allEnd, hends, Bool.true_and, if_true]
      exact ih (fun e he => hes e (by simp [he])) (areNamed_iff.mpr hrest) hnodup
    · simp only [allEnd, hends, Bool.false_and, Bool.false_eq_true, if_false]
      rfl

theorem flattens_of_not_dict {v : Value} (h : isDict v = false) : Flattens v := by
  intro path cells _ _ hnodup
  have hunder : under path v = [(pointed path, v)] := by simp [under, pathed_of_not_dict h]
  rw [hunder] at hnodup ⊢
  have hnew : pointed path ∉ Entries.keys cells := by
    intro hmem
    simp only [Entries.keys, List.map_append, List.nodup_append] at hnodup
    exact hnodup.2.2 _ hmem _ (by simp) rfl
  rw [ends_of_not_dict h, if_pos rfl]
  unfold flatten
  split
  · cases h
  · cases h
  · rw [put_rowOf hnew]

theorem flattens (v : Value) : Flattens v := by
  induction v using Value.inductionOn with
  | scalar s => exact flattens_of_not_dict rfl
  | seq form items _ => exact flattens_of_not_dict rfl
  | dict entries ih =>
    intro path cells hnamed hpath hnodup
    rw [flatten]
    exact flattenEntries_eq ih hnamed hpath hnodup
  | set items => exact flattens_of_not_dict rfl
  | cyclic web cell view _ => exact flattens_of_not_dict rfl
  | again shape =>
    cases shape with
    | seq form => exact flattens_of_not_dict rfl
    | dict => exact fun _ _ _ _ _ => rfl

theorem underEntries_of_not_dict {es : List (Key × Value)} (hnamed : areNamed es = true)
    (hes : ∀ e ∈ es, isDict e.2 = false) : rowOf (underEntries [] es) = es := by
  induction es with
  | nil => rfl
  | cons e es ih =>
    obtain ⟨k, v⟩ := e
    obtain ⟨⟨hk, hv⟩, hrest⟩ := List.forall_mem_cons.mp (areNamed_iff.mp hnamed)
    obtain ⟨s, hs, rfl⟩ := isName_iff.mp hk
    obtain ⟨hdict, hothers⟩ := List.forall_mem_cons.mp hes
    have hleaf := pathed_of_not_dict hdict
    have hname : pointed [s] = s := by simp [pointed, Text.join, Text.joined]
    rw [underEntries_cons, rowOf_append, ih (areNamed_iff.mpr hrest) hothers]
    simp [under, hleaf, rowOf, hname]

theorem leaves_eq {record : Value} {entries : List (Key × Value)} (h : record.contents = .dict entries) :
    leaves record = underEntries [] ((Value.openedEntries entries).filter fun e => !isDict e.2) ++
      underEntries [] ((Value.openedEntries entries).filter fun e => isDict e.2) := by
  unfold leaves
  rw [h]
  simp [pathedEntries_append, underEntries]

/-- The row of a record is the list of its leaves, and there is none if it holds itself. -/
theorem flattenRecord_eq {record : Value} (h : IsRecord record) {entries : List (Key × Value)}
    (hentries : record.contents = .dict entries) :
    flattenRecord entries = if hasEnd record then .ok (rowOf (leaves record)) else .error .endless := by
  have hdistinct := h.distinct
  obtain ⟨entries', hentries', hnamed⟩ := h.named
  cases hentries.symm.trans hentries'
  have hend : hasEnd record = allEnd (Value.openedEntries entries) := by rw [hasEnd, hentries]
  rw [leaves_eq hentries] at hdistinct ⊢
  rw [hend]
  unfold flattenRecord
  clear hend
  generalize Value.openedEntries entries = es at hnamed hdistinct ⊢
  have hpart : ∀ p : Key × Value → Bool, areNamed (es.filter p) = true := by
    intro p
    rw [areNamed_iff] at hnamed ⊢
    exact fun e he => hnamed e (List.mem_filter.mp he).1
  have hplain : ∀ e ∈ es.filter fun e => !isDict e.2, isDict e.2 = false := by
    intro e he
    simpa using (List.mem_filter.mp he).2
  have houter := underEntries_of_not_dict (hpart fun e => !isDict e.2) hplain
  have hpath : ∀ s ∈ ([] : List String), s ≠ "" := by simp
  have hrest : (Entries.keys ([] ++ underEntries [] (es.filter fun e => isDict e.2))).Nodup := by
    simp only [Entries.keys, List.map_append] at hdistinct
    exact hdistinct.of_append_right
  have hinner : flattenEntries "" [] (es.filter fun e => isDict e.2) =
      if allEnd es then .ok (rowOf (underEntries [] (es.filter fun e => isDict e.2))) else .error .endless := by
    rw [← allEnd_filter_isDict es]
    exact flattenEntries_eq (fun e _ => flattens e.2) (hpart _) hpath hrest
  rw [← putAll_rowOf hdistinct, houter]
  dsimp only
  rw [hinner]
  split <;> rfl

/-! ## Tables -/

/-- The names of all leaves of the records, in the order in which they first appear. -/
def columns (records : List Value) : List String := (records.flatMap fun r => Entries.keys (leaves r)).eraseDups

/-- The leaf of a record under this name. -/
def leaf? (n : String) (record : Value) : Option Value := (leaves record).lookup n

theorem entriesOf_eq {record : Value} {entries : List (Key × Value)} (h : record.contents = .dict entries) :
    entriesOf record = entries := by rw [entriesOf, h]

/-- The rows of records are the lists of their leaves, and there are none if one of them holds itself. -/
theorem flattenAll_eq {records : List Value} (h : ∀ r ∈ records, IsRecord r) : flattenAll records =
    if records.all hasEnd then .ok (records.map fun r => rowOf (leaves r)) else .error .endless := by
  unfold flattenAll
  induction records with
  | nil => rfl
  | cons r records ih =>
    obtain ⟨hr, hrecords⟩ := List.forall_mem_cons.mp h
    obtain ⟨entries, hentries, -⟩ := hr.named
    rw [List.mapM_cons, entriesOf_eq hentries, flattenRecord_eq hr hentries, ih hrecords, List.all_cons]
    by_cases hend : hasEnd r = true
    · rw [hend, if_pos rfl, Bool.true_and]
      split <;> rfl
    · rw [Bool.not_eq_true] at hend
      rw [hend]
      rfl

end Table

end Reshape
