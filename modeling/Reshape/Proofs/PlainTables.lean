/-
  Reshape.Proofs.PlainTables: the plain library does what is assumed of a library of tables.

  - `isPlain_ofRows`: the table of rows.
  - `keeps_kept`: what it keeps of a cell.
  - `isField_of_keptText`, `fields_eq`: what is written of that, and where.
  - `plain_normalizes`, `plain_writesRows`: the laws.
-/

import Reshape.Proofs.Applying
import Reshape.Proofs.Cells
import Reshape.Proofs.TableText

namespace Reshape

namespace Table

/-! ## Rows under texts -/

/-- All that stands in the row stands under texts. -/
def IsCells (row : Row) : Prop := ∃ cells, row = rowOf cells

theorem IsCells.cons {row : Row} (h : IsCells row) (n : String) (v : Value) : IsCells ((.str n, v) :: row) := by
  obtain ⟨cells, rfl⟩ := h
  exact ⟨(n, v) :: cells, rfl⟩

theorem IsCells.put {row : Row} (h : IsCells row) (n : String) (v : Value) : IsCells (Entries.put (.str n) v row) := by
  obtain ⟨cells, rfl⟩ := h
  induction cells with
  | nil => exact ⟨[(n, v)], rfl⟩
  | cons c cells ih =>
    show IsCells (Entries.put (.str n) v ((.str c.1, c.2) :: rowOf cells))
    rw [Entries.put]
    split
    · exact ⟨(c.1, v) :: cells, rfl⟩
    · exact ih.cons c.1 c.2

theorem IsCells.putAll {row more : Row} (h : IsCells row) (hmore : IsCells more) :
    IsCells (Entries.putAll row more) := by
  obtain ⟨cells, rfl⟩ := hmore
  induction cells generalizing row with
  | nil => exact h
  | cons c cells ih => exact ih (h.put c.1 c.2)

theorem isCells_of_areNamed {es : List (Key × Value)} (h : areNamed es = true) : IsCells es := by
  induction es with
  | nil => exact ⟨[], rfl⟩
  | cons e es ih =>
    obtain ⟨k, v⟩ := e
    obtain ⟨⟨hk, -⟩, hrest⟩ := List.forall_mem_cons.mp (areNamed_iff.mp h)
    obtain ⟨s, -, rfl⟩ := isName_iff.mp hk
    exact (ih (areNamed_iff.mpr hrest)).cons s v

/-- Flattening a value puts it under texts. -/
def KeepsCells (v : Value) : Prop :=
  ∀ name row row', IsCells row → flatten name row v = .ok row' → IsCells row'

theorem isCells_flattenEntries {es : List (Key × Value)} (hes : ∀ e ∈ es, KeepsCells e.2) {name : String}
    {row row' : Row} (hrow : IsCells row) (h : flattenEntries name row es = .ok row') : IsCells row' := by
  induction es generalizing row with
  | nil =>
    cases h
    exact hrow
  | cons e es ih =>
    obtain ⟨k, v⟩ := e
    obtain ⟨hv, hrest⟩ := List.forall_mem_cons.mp hes
    rw [flattenEntries] at h
    split at h
    · cases h
    · obtain ⟨row₁, hfirst, hlater⟩ := bind_eq_ok_iff.mp h
      exact ih hrest (hv _ _ _ hrow hfirst) hlater

theorem keepsCells_of_not_dict {v : Value} (h : isDict v = false) : KeepsCells v := by
  intro name row row' hrow hflatten
  unfold flatten at hflatten
  split at hflatten
  · cases h
  · cases h
  · cases hflatten
    exact hrow.put name v

theorem keepsCells (v : Value) : KeepsCells v := by
  induction v using Value.inductionOn with
  | scalar s => exact keepsCells_of_not_dict rfl
  | seq form items _ => exact keepsCells_of_not_dict rfl
  | dict entries ih =>
    intro name row row' hrow hflatten
    rw [flatten] at hflatten
    exact isCells_flattenEntries ih hrow hflatten
  | set items => exact keepsCells_of_not_dict rfl
  | cyclic web cell view _ => exact keepsCells_of_not_dict rfl
  | again shape =>
    cases shape with
    | seq form => exact keepsCells_of_not_dict rfl
    | dict => exact fun _ _ _ _ h => by cases h

theorem isCells_flattenRecord {r : Value} (h : IsNamed r) {row : Row}
    (hrow : flattenRecord (entriesOf r) = .ok row) : IsCells row := by
  obtain ⟨entries, hentries, hnamed⟩ := h
  rw [entriesOf_eq hentries] at hrow
  obtain ⟨inner, hinner, hput⟩ := bind_eq_ok_iff.mp hrow
  cases hput
  refine IsCells.putAll (isCells_of_areNamed ?_) (isCells_flattenEntries (fun e _ => keepsCells e.2) ⟨[], rfl⟩ hinner)
  rw [areNamed_iff] at hnamed ⊢
  exact fun e he => hnamed e (List.mem_filter.mp he).1

theorem exists_cells_of_flattenAll {records : List Value} (h : ∀ r ∈ records, IsNamed r) {rows : List Row}
    (hrows : flattenAll records = .ok rows) : ∃ cells : List (List (String × Value)), rows = cells.map rowOf := by
  unfold flattenAll at hrows
  induction records generalizing rows with
  | nil =>
    cases hrows
    exact ⟨[], rfl⟩
  | cons r records ih =>
    obtain ⟨hr, hrecords⟩ := List.forall_mem_cons.mp h
    rw [List.mapM_cons] at hrows
    obtain ⟨row, hrow, hrows⟩ := bind_eq_ok_iff.mp hrows
    obtain ⟨rest, hrest, hrows⟩ := bind_eq_ok_iff.mp hrows
    cases hrows
    obtain ⟨cells, rfl⟩ := isCells_flattenRecord hr hrow
    obtain ⟨others, rfl⟩ := ih hrecords hrest
    exact ⟨cells :: others, rfl⟩

/-! ## Tables of rows -/

def labelsOf (names : List String) : List Key := names.map .str

/-- The cells of a row stand in the columns of their names. -/
def Placed (columns : List String) : List (String × Value) → List (Nat × Value) → Prop :=
  List.Forall₂ fun c p => columns[p.1]? = some c.1 ∧ p.2 = c.2

theorem Placed.mono {columns more : List String} {cells : List (String × Value)} {placed : List (Nat × Value)}
    (h : Placed columns cells placed) (hstart : columns <+: more) : Placed more cells placed := by
  refine h.imp ?_
  intro c p hp
  obtain ⟨rest, rfl⟩ := hstart
  have hlt : p.1 < columns.length := (List.getElem?_eq_some_iff.mp hp.1).1
  exact ⟨by rw [List.getElem?_append_left hlt]; exact hp.1, hp.2⟩

theorem findIdx?_labelsOf (names : List String) (n : String) :
    (labelsOf names).findIdx? (· == .str n) = names.findIdx? (· = n) := by
  rw [labelsOf, List.findIdx?_map]
  refine congrArg (fun p => names.findIdx? p) (funext fun m => ?_)
  exact Key.same_str m n

/-- The column of a name: among those that were seen, or a new one after them. -/
theorem exists_column (seen : List String) (n : String) :
    (∃ i, (labelsOf seen.eraseDups).findIdx? (· == .str n) = some i ∧
      (seen ++ [n]).eraseDups = seen.eraseDups ∧ seen.eraseDups[i]? = some n) ∨
    ((labelsOf seen.eraseDups).findIdx? (· == .str n) = none ∧
      (seen ++ [n]).eraseDups = seen.eraseDups ++ [n]) := by
  rw [findIdx?_labelsOf, eraseDups_snoc]
  cases hfind : seen.eraseDups.findIdx? (· = n) with
  | some i =>
    obtain ⟨hlt, hn, -⟩ := List.findIdx?_eq_some_iff_getElem.mp hfind
    have hat : seen.eraseDups[i] = n := by simpa using hn
    have hmem : n ∈ seen := List.mem_eraseDups.mp (hat ▸ List.getElem_mem hlt)
    exact .inl ⟨i, rfl, if_pos hmem, by rw [List.getElem?_eq_getElem hlt, hat]⟩
  | none =>
    have hnew : n ∉ seen := by
      intro hmem
      have := List.findIdx?_eq_none_iff.mp hfind n (List.mem_eraseDups.mpr hmem)
      simp at this
    exact .inr ⟨rfl, if_neg hnew⟩

theorem placeRow_cons (seen : List String) (n : String) (v : Value) (row : Row) : ∃ i,
    (seen ++ [n]).eraseDups[i]? = some n ∧ placeRow (labelsOf seen.eraseDups) ((.str n, v) :: row) =
      ((placeRow (labelsOf (seen ++ [n]).eraseDups) row).1,
        (i, v) :: (placeRow (labelsOf (seen ++ [n]).eraseDups) row).2) := by
  rcases exists_column seen n with ⟨i, hfind, hlabels, hi⟩ | ⟨hfind, hlabels⟩
  · refine ⟨i, by rw [hlabels, hi], ?_⟩
    rw [placeRow, hfind, hlabels]
  · refine ⟨seen.eraseDups.length, by simp [hlabels], ?_⟩
    have hmore : labelsOf (seen ++ [n]).eraseDups = labelsOf seen.eraseDups ++ [.str n] := by simp [hlabels, labelsOf]
    have hlength : (labelsOf seen.eraseDups).length = seen.eraseDups.length := by simp [labelsOf]
    rw [placeRow, hfind, hmore, hlength]

theorem placeRow_eq (seen : List String) (cells : List (String × Value)) : ∃ placed,
    placeRow (labelsOf seen.eraseDups) (rowOf cells) = (labelsOf (seen ++ Entries.keys cells).eraseDups, placed) ∧
      Placed (seen ++ Entries.keys cells).eraseDups cells placed := by
  induction cells generalizing seen with
  | nil => exact ⟨[], by simp [rowOf, placeRow], .nil⟩
  | cons c cells ih =>
    obtain ⟨n, v⟩ := c
    obtain ⟨i, hi, hplace⟩ := placeRow_cons seen n v (rowOf cells)
    obtain ⟨placed, hrest, hplaced⟩ := ih (seen ++ [n])
    have hseen : seen ++ Entries.keys ((n, v) :: cells) = (seen ++ [n]) ++ Entries.keys cells := by simp
    rw [hseen]
    refine ⟨(i, v) :: placed, ?_, .cons ⟨?_, rfl⟩ hplaced⟩
    · rw [hrest] at hplace
      exact hplace
    · -- a column keeps its place when others come after it
      have hlt := (List.getElem?_eq_some_iff.mp hi).1
      obtain ⟨more, hmore⟩ := isPrefix_eraseDups (seen ++ [n]) (Entries.keys cells)
      rw [← hmore, List.getElem?_append_left hlt, hi]

theorem ofRows_eq (seen : List String) (rows : List (List (String × Value))) : ∃ placed,
    ofRows (labelsOf seen.eraseDups) (rows.map rowOf) =
      ⟨labelsOf (seen ++ rows.flatMap Entries.keys).eraseDups, placed⟩ ∧
      List.Forall₂ (Placed (seen ++ rows.flatMap Entries.keys).eraseDups) rows placed := by
  induction rows generalizing seen with
  | nil => exact ⟨[], by simp [ofRows], .nil⟩
  | cons cells rows ih =>
    obtain ⟨placed, hplace, hplaced⟩ := placeRow_eq seen cells
    obtain ⟨others, hrest, hothers⟩ := ih (seen ++ Entries.keys cells)
    have hseen : seen ++ (cells :: rows).flatMap Entries.keys =
        (seen ++ Entries.keys cells) ++ rows.flatMap Entries.keys := by simp
    rw [hseen]
    refine ⟨placed :: others, ?_, .cons (hplaced.mono (isPrefix_eraseDups _ _)) hothers⟩
    rw [List.map_cons, ofRows, hplace]
    dsimp only
    rw [hrest]

theorem lookup_placed {columns : List String} (hcolumns : columns.Nodup) {cells : List (String × Value)}
    {placed : List (Nat × Value)} (h : Placed columns cells placed) {i : Nat} {n : String}
    (hi : columns[i]? = some n) : placed.lookup i = cells.lookup n := by
  induction h with
  | nil => rfl
  | @cons c p cells placed hp _ ih =>
    obtain ⟨m, v⟩ := c
    obtain ⟨j, w⟩ := p
    obtain ⟨hj, rfl⟩ := hp
    by_cases hij : i = j
    · subst hij
      have hmn : m = n := Option.some.inj (hj.symm.trans hi)
      simp [hmn]
    · have hmn : (n == m) = false := by
        rw [beq_eq_false_iff_ne]
        rintro rfl
        have hlt := (List.getElem?_eq_some_iff.mp hi).1
        exact hij ((List.getElem?_inj hlt hcolumns).mp (hi.trans hj.symm))
      have hij' : (i == j) = false := by simpa using hij
      simp only [List.lookup_cons, hij', hmn]
      exact ih

/-- The table has these rows, and a column for every name in them. -/
structure IsPlain (rows : List Row) (t : Table) : Prop where
  labels : t.labels = labelsOf (firstNames rows)
  length : t.rows.length = rows.length
  column : ∀ j n, (firstNames rows)[j]? = some n → t.column j = rows.map (·.lookup (.str n))

theorem isPlain_ofRows (rows : List (List (String × Value))) :
    IsPlain (rows.map rowOf) (ofRows [] (rows.map rowOf)) := by
  obtain ⟨placed, hrows, hplaced⟩ := ofRows_eq [] rows
  have hnil : labelsOf [].eraseDups = [] := rfl
  rw [List.nil_append, hnil] at hrows
  rw [List.nil_append] at hplaced
  rw [hrows]
  refine ⟨by rw [firstNames_rowOf], by simpa using hplaced.length_eq.symm, ?_⟩
  intro j n hj
  rw [firstNames_rowOf] at hj
  have hnodup : ((rows.flatMap Entries.keys).eraseDups).Nodup := nodup_eraseDups _
  show placed.map (·.lookup j) = _
  clear hrows
  generalize (rows.flatMap Entries.keys).eraseDups = names at *
  induction hplaced with
  | nil => rfl
  | cons hp _ ih => simp [lookup_placed hnodup hp hj, lookup_rowOf, ih]

/-! ## Cells -/

variable {column : List (Option Value)} {cell : Option Value} {v : Value} {cs : List Char}

theorem mem_integers {n : Int} : n ∈ column.filterMap integer? ↔ some (.int n) ∈ column := by
  rw [List.mem_filterMap]
  constructor
  · rintro ⟨cell, hcell, hn⟩
    rwa [← integer?_eq_some.mp hn]
  · exact fun h => ⟨_, h, rfl⟩

theorem isMixed_iff : IsMixed column ↔ (column.any isNumber && (column.filter (!isGap ·)).all isNumber &&
    !column.all (integer? · |>.isSome)) = true := by
  simp only [Bool.and_eq_true, List.any_eq_true, List.all_eq_true, List.mem_filter, Bool.not_eq_true', and_imp,
    List.all_eq_false, Option.not_isSome_iff_eq_none]
  constructor
  · exact fun h => ⟨⟨h.number, h.numbers⟩, h.other⟩
  · exact fun ⟨⟨hnumber, hnumbers⟩, hother⟩ => ⟨hnumber, hnumbers, hother⟩

/-- The integers of such a column are floats if they fit together into 64 bits. -/
theorem formatOf_eq_floats :
    formatOf column = .floats ↔ IsMixed column ∧ fitWord (column.filterMap integer?) = true := by
  rw [isMixed_iff, ← Bool.and_eq_true]
  unfold formatOf
  dsimp only
  split
  · rename_i hfloats
    exact iff_of_true rfl hfloats
  · rename_i hfloats
    refine iff_of_false ?_ hfloats
    split <;> nofun

theorem formatOf_floats (h : IsFloats column) : formatOf column = .floats := by
  refine formatOf_eq_floats.mpr ⟨h.mixed, ?_⟩
  rw [fitWord, Bool.or_eq_true]
  refine .inl (List.all_eq_true.mpr fun n hn => ?_)
  simpa using h.fit n (mem_integers.mp hn)

theorem isGap_kept (format : ColumnFormat) (h : isGap cell = true) : isGap (some (kept format cell)) = true := by
  rcases isGap_iff.mp h with rfl | rfl | rfl <;> cases format <;> rfl

theorem log2_lt_of_fitWord {ns : List Int} (h : fitWord ns = true) {n : Int} (hn : n ∈ ns) : n.natAbs.log2 < 64 := by
  simp only [fitWord, Bool.or_eq_true, List.all_eq_true, Bool.and_eq_true, decide_eq_true_eq] at h
  have hsigned : Int.pow 2 63 = 2 ^ 63 := rfl
  have hunsigned : Int.pow 2 64 = 2 ^ 64 := rfl
  by_cases hzero : n.natAbs = 0
  · rw [hzero]
    decide
  refine (Nat.log2_lt hzero).mpr ?_
  rcases h with h | h
  · have := h n hn
    omega
  · have := h n hn
    omega

/-- What is kept of a cell. -/
theorem keeps_kept (hcell : cell ∈ column) : Keeps column cell (kept (formatOf column) cell) := by
  by_cases hgap : isGap cell = true
  · exact .gap hgap (isGap_kept _ hgap)
  rw [Bool.not_eq_true] at hgap
  unfold kept
  split
  · cases hgap
  · rename_i hfloats
    obtain ⟨hmixed, hfit⟩ := formatOf_eq_floats.mp hfloats
    exact .float hmixed ((log2_lt_of_fitWord hfit (mem_integers.mpr hcell)).trans (by decide))
  · rename_i v hint
    refine .value hgap fun hfloats => ?_
    by_contra hno
    obtain ⟨n, hn⟩ := Option.ne_none_iff_exists'.mp hno
    exact hint n (formatOf_floats hfloats) (Option.some.inj (integer?_eq_some.mp hn))

/-- What is written of what was kept. -/
theorem isField_of_keptText {format : ColumnFormat} (h : keptText format v = some cs) : IsField v cs := by
  unfold keptText at h
  split at h
  · rename_i hgap
    cases h
    exact .gap hgap
  · rename_i hgap
    rw [Bool.not_eq_true] at hgap
    split at h
    · cases h
      exact .moment (Moment.textTo_ne_nil _ _)
    · by_cases hmoment : ∃ m, v = .scalar (.moment m)
      · obtain ⟨m, rfl⟩ := hmoment
        refine .moment ?_
        rintro rfl
        cases Value.eq_of_text?_eq_nil h
      · exact .text hgap (fun m hm => hmoment ⟨m, hm⟩) h

theorem text?_of_keptText {format : ColumnFormat} (h : keptText format v = none) : v.text? = none := by
  unfold keptText at h
  split at h
  · cases h
  · split at h
    · cases h
    · exact h

/-! ## Fields -/

variable {rows : List Row} {t : Table}

theorem IsPlain.names_eq (h : IsPlain rows t) : t.names = firstNames rows := by
  rw [names, h.labels, labelsOf, List.map_map]
  refine (List.map_congr_left fun n _ => ?_).trans (List.map_id _)
  show (Key.string? (.str n)).getD "" = n
  rw [Key.string?_str]
  rfl

theorem IsPlain.isTableOf (h : IsPlain rows t) : plain.IsTableOf rows t := by
  refine ⟨h.names_eq, h.length, fun i j row n hi hj => ?_⟩
  show Keeps _ _ (kept (formatOf (t.column j)) ((t.column j).getD i none))
  have hcell : (t.column j).getD i none = row.lookup (.str n) := by simp [h.column j n hj, hi]
  rw [hcell, h.column j n hj]
  exact keeps_kept (List.mem_map_of_mem (List.mem_of_getElem? hi))

theorem cellText_str (format : ColumnFormat) (s : String) : cellText format (some (.str s)) = some s.toList := by
  cases format <;> rfl

/-- The texts of the labels are their names. -/
theorem IsPlain.columnTexts_labelCells (h : IsPlain rows t) :
    columnTexts t.labelCells = (plain.header t).map some := by
  have hcells : t.labelCells = t.names.map fun n => some (.str n) := by
    rw [h.names_eq, labelCells, h.labels, labelsOf, List.map_map]
    rfl
  show columnTexts t.labelCells = (t.names.map String.toList).map some
  rw [columnTexts, hcells, List.map_map, List.map_map]
  exact List.map_congr_left fun n _ => cellText_str _ n

/-- The texts of a row, cell by cell. -/
def rowTexts (t : Table) (i : Nat) : List (Option (List Char)) :=
  (List.range t.labels.length).map fun j => keptText (formatOf (t.column j)) (t.cell i j)

theorem IsPlain.fields_eq (h : IsPlain rows t) :
    t.fields = (plain.header t).map some :: (List.range t.rows.length).map t.rowTexts := by
  rw [fields, h.columnTexts_labelCells]
  refine congrArg _ (List.map_congr_left fun i hi => ?_)
  rw [rowTexts, List.map_map]
  refine List.map_congr_left fun j _ => ?_
  have hlt : i < (t.column j).length := by simpa [Table.column] using hi
  simp [columnTexts, Table.cell, cellText, hlt]

theorem of_map_range {α : Type} {f : Nat → α} {n i : Nat} {as : List α} {a : α} (h : (List.range n).map f = as)
    (ha : as[i]? = some a) : i < n ∧ f i = a := by
  rw [← h, List.getElem?_map, Option.map_eq_some_iff] at ha
  obtain ⟨k, hk, rfl⟩ := ha
  obtain ⟨hlt, heq⟩ := List.getElem?_eq_some_iff.mp hk
  rw [List.getElem_range] at heq
  rw [List.length_range] at hlt
  exact ⟨hlt, congrArg f heq⟩

theorem isLine_of_rowTexts {i : Nat} {fields : List (List Char)} (h : t.rowTexts i = fields.map some) :
    plain.IsLine t i fields := by
  refine ⟨?_, fun j cs hcs => ?_⟩
  · have hlength := congrArg List.length h
    simpa [rowTexts, plain, names] using hlength.symm
  · have hfield : (fields.map some)[j]? = some (some cs) := by simp [hcs]
    exact isField_of_keptText (of_map_range h hfield).2

/-- A row with a field that has no text has a cell that has none. -/
theorem exists_cell_of_none {i : Nat} (h : none ∈ t.rowTexts i) :
    ∃ j, j < (plain.columns t).length ∧ (plain.cell t i j).text? = none := by
  obtain ⟨j, hj⟩ := List.getElem?_of_mem h
  obtain ⟨hlt, hnone⟩ := of_map_range rfl hj
  exact ⟨j, by simpa [plain, names] using hlt, text?_of_keptText hnone⟩

/-! ## Files -/

theorem contents?_save {w w' : Workspace} {p : Path} {text : List Char}
    (h : w.save p (Text.Utf8.encode text) = .ok w') :
    w'.contents? (w.tablePath p) = some (Text.Utf8.encode text) := by
  unfold Workspace.save at h
  dsimp only at h
  split at h
  · exact Workspace.contents?_put h
  · cases h

/-- The lines of a table are its header and its rows, up to one with a cell that has no text. -/
theorem IsPlain.saved (h : IsPlain rows t) {w w' : Workspace} {p : Path} {fault : Option TableFault}
    (hsave : saveLines t w p = (w', fault)) : plain.Saved t w' (w.tablePath p) fault := by
  unfold saveLines at hsave
  dsimp only at hsave
  split at hsave
  · cases hsave
    exact .file
  rename_i hfile
  cases hsave
  have hcontents := contents?_save hfile
  rw [h.fields_eq] at hcontents ⊢
  rcases written_or_stop ((List.range t.rows.length).map t.rowTexts) with
    ⟨whole, hwhole⟩ | ⟨before, bad, rest, hcut, hbad⟩
  · have hlines : (plain.header t).map some :: (List.range t.rows.length).map t.rowTexts =
        written (plain.header t :: whole) := by rw [hwhole]; rfl
    rw [hlines, lines_written] at hcontents ⊢
    refine .whole ⟨_, hcontents, readRows_lines _⟩ (fun i fields hi => ?_) ?_
    · exact isLine_of_rowTexts (of_map_range hwhole (by simp [written, hi])).2
    · show whole.length = t.rows.length
      simpa [written] using (congrArg List.length hwhole).symm
  · have hlines : (plain.header t).map some :: (List.range t.rows.length).map t.rowTexts =
        written (plain.header t :: before) ++ bad :: rest := by rw [hcut]; rfl
    rw [hlines, lines_stop _ hbad] at hcontents ⊢
    -- the number of the bad row is the count of the rows before it
    have hlength : (written before).length = before.length := by simp [written]
    obtain ⟨hlt, hrow⟩ := of_map_range (i := before.length) (a := bad) hcut (by simp [← hlength])
    obtain ⟨j, hj, hnone⟩ := exists_cell_of_none (hrow ▸ hbad)
    refine .cut ⟨_, hcontents, readRows_lines _⟩ (fun i fields hi => ?_) hlt hj hnone
    refine isLine_of_rowTexts (of_map_range hcut ?_).2
    rw [List.getElem?_append_left (by simpa [hlength] using (List.getElem?_eq_some_iff.mp hi).1)]
    simp [written, hi]

/-! ## Laws -/

theorem ofValue_eq {data : Value} {records : List Value} (hdata : data.contents = .list records) :
    ofValue data = (flattenAll records).map (ofRows []) := by
  have hitems : data.items?.getD [] = records := by
    rw [Value.items?, hdata]
    rfl
  rw [ofValue, hdata, ← hitems]

/-- The table of records is that of their rows. -/
theorem isPlain_of_ofValue {data : Value} {records : List Value} (hdata : data.contents = .list records)
    (hnamed : ∀ r ∈ records, IsNamed r) (h : ofValue data = .ok t) : ∃ rows, IsPlain rows t := by
  rw [ofValue_eq hdata] at h
  cases hrows : flattenAll records with
  | error fault =>
    rw [hrows] at h
    cases h
  | ok rows =>
    rw [hrows] at h
    cases h
    obtain ⟨cells, rfl⟩ := exists_cells_of_flattenAll hnamed hrows
    exact ⟨_, isPlain_ofRows cells⟩

/-- The records of a list make the table of their rows. -/
theorem plain_normalizes : plain.Normalizes := by
  constructor
  · intro data records rows hdata hnamed hrows
    obtain ⟨cells, rfl⟩ := exists_cells_of_flattenAll hnamed hrows
    refine ⟨ofRows [] (cells.map rowOf), ?_, (isPlain_ofRows cells).isTableOf⟩
    show ofValue data = _
    rw [ofValue_eq hdata, hrows]
    rfl
  · intro data records fault hdata _ hrows
    show ofValue data = _
    rw [ofValue_eq hdata, hrows]
    rfl

/-- The table of the records of a list is saved row by row. -/
theorem plain_writesRows : plain.WritesRows := by
  constructor
  intro data records t w p w' fault hdata hnamed htable hsave
  obtain ⟨rows, hplain⟩ := isPlain_of_ofValue hdata hnamed htable
  exact hplain.saved hsave

end Table

end Reshape
