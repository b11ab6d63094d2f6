/-
  Reshape.Proofs.Exporting: records that are written as a table.

  The file under the path reads as a header with the names of all leaves, and a row for every record in
  which each of its leaves stands under its name. An integer of too many digits ends the file before the
  record that it is in, and there is no table of a record that holds itself. So it is with every library
  that makes and saves tables as it is assumed to.
  - `isRow_of_isLine`: the row of a record shows all its leaves.
  - `exported_of_saved`: what is in the file of a table of records.
  - `every_leaf_has_its_cell`: what is in the file of records.
-/

import Reshape.Proofs.PlainTables

namespace Reshape

namespace Table

variable {library : TableLibrary} {records : List Value} {t : library.Frame} {r : Value} {n : String}

/-! ## Tables of records -/

/-- What the records have under a name. -/
def columnOf (records : List Value) (n : String) : List (Option Value) := records.map (leaf? n)

def header (records : List Value) : List (List Char) := (columns records).map String.toList

/-- The leaves of the records, as rows. -/
def rowsOf (records : List Value) : List Row := records.map fun r => rowOf (leaves r)

theorem firstNames_rowsOf (records : List Value) : firstNames (rowsOf records) = columns records := by
  have hrows : rowsOf records = (records.map leaves).map rowOf := by simp [rowsOf]
  rw [hrows, firstNames_rowOf, List.flatMap_map]
  rfl

theorem column_rowsOf (records : List Value) (n : String) :
    (rowsOf records).map (·.lookup (.str n)) = columnOf records n := by
  rw [rowsOf, List.map_map]
  exact List.map_congr_left fun r _ => lookup_rowOf n (leaves r)

theorem columns_eq (h : library.IsTableOf (rowsOf records) t) : library.columns t = columns records := by
  rw [h.columns, firstNames_rowsOf]

theorem header_eq (h : library.IsTableOf (rowsOf records) t) : library.header t = header records := by
  rw [TableLibrary.header, columns_eq h, header]

/-- In the row of a record and the column of a name, its leaf of that name is kept. -/
theorem keeps_leaf (h : library.IsTableOf (rowsOf records) t) {i j : Nat} (hr : records[i]? = some r)
    (hn : (columns records)[j]? = some n) : Keeps (columnOf records n) (leaf? n r) (library.cell t i j) := by
  have hrow : (rowsOf records)[i]? = some (rowOf (leaves r)) := by simp [rowsOf, hr]
  have hkeeps := h.cell i j _ n hrow (by rw [firstNames_rowsOf, hn])
  rwa [column_rowsOf, lookup_rowOf] at hkeeps

/-! ## Rows -/

/-- A cell shows the leaf of its record, and is empty only if there is nothing to show. -/
structure IsCell (column : List (Option Value)) (leaf : Option Value) (text : List Char) : Prop where
  shows : Shows column leaf text
  empty : text = [] → leaf = none ∨ leaf = some .null ∨ leaf = some (.float .nan) ∨ leaf = some (.str "")

/-- The row of a record. Its cells are those of the columns, one each. Every leaf of the record stands in the
column of its name, and none of them has an integer of too many digits. -/
structure IsRow (records : List Value) (r : Value) (row : List (List Char)) : Prop where
  cells : List.Forall₂ (fun n text => IsCell (columnOf records n) (leaf? n r) text) (columns records) row
  places : ∀ n v, (n, v) ∈ leaves r → ∃ (i : Nat) (text : List Char), (columns records)[i]? = some n ∧
    row[i]? = some text ∧ IsCell (columnOf records n) (some v) text
  short : ∀ leaf ∈ leaves r, ¬ leaf.2.HoldsOverlong

theorem Keeps.isCell {column : List (Option Value)} {leaf : Option Value} {v : Value} {text : List Char}
    (h : Keeps column leaf v) (hfield : IsField v text) : IsCell column leaf text := by
  refine ⟨h.shows hfield, ?_⟩
  rintro rfl
  exact (h.shows hfield).eq_nil

theorem mem_columns (hr : r ∈ records) (hn : n ∈ Entries.keys (leaves r)) : n ∈ columns records :=
  List.mem_eraseDups.mpr (List.mem_flatMap.mpr ⟨r, hr, hn⟩)

theorem isRow_of_isLine (htable : library.IsTableOf (rowsOf records) t) (hrecord : IsRecord r) {i : Nat}
    (hr : records[i]? = some r) {row : List (List Char)} (hline : library.IsLine t i row) : IsRow records r row := by
  have hlength : row.length = (columns records).length := by rw [hline.length, columns_eq htable]
  have hcell : ∀ (j : Nat) (n : String) (text : List Char), (columns records)[j]? = some n → row[j]? = some text →
      IsCell (columnOf records n) (leaf? n r) text :=
    fun j n text hn htext => (keeps_leaf htable hr hn).isCell (hline.field j text htext)
  have hplaces : ∀ n v, (n, v) ∈ leaves r → ∃ (j : Nat) (text : List Char), (columns records)[j]? = some n ∧
      row[j]? = some text ∧ IsCell (columnOf records n) (some v) text := by
    intro n v hv
    have hlookup : leaf? n r = some v := (Entries.lookup_eq_some_iff hrecord.distinct).mpr hv
    obtain ⟨j, hj⟩ := List.getElem?_of_mem (mem_columns (List.mem_of_getElem? hr) (Entries.mem_keys.mpr ⟨v, hv⟩))
    have hlt : j < row.length := hlength ▸ (List.getElem?_eq_some_iff.mp hj).1
    have htext : row[j]? = some row[j] := List.getElem?_eq_getElem hlt
    exact ⟨j, row[j], hj, htext, hlookup ▸ hcell j n row[j] hj htext⟩
  refine ⟨List.forall₂_iff_get.mpr ⟨hlength.symm, fun j hj hj' => ?_⟩, hplaces, ?_⟩
  · exact hcell j _ _ (List.getElem?_eq_getElem hj) (List.getElem?_eq_getElem hj')
  · rintro ⟨n, v⟩ hv
    obtain ⟨j, text, -, -, hshown⟩ := hplaces n v hv
    exact hshown.shows.not_holdsOverlong

/-- Rows that are lines of the table are the rows of the records, as far as they go. -/
theorem areRows_of_areLines (htable : library.IsTableOf (rowsOf records) t) {before after : List Value}
    (heq : records = before ++ after) (hrecords : ∀ r ∈ records, IsRecord r) {rows : List (List (List Char))}
    (hlength : rows.length = before.length) (hlines : ∀ (i : Nat) row, rows[i]? = some row → library.IsLine t i row) :
    List.Forall₂ (IsRow records) before rows := by
  refine List.forall₂_iff_get.mpr ⟨hlength.symm, fun i hi hi' => ?_⟩
  have hr : records[i]? = some before[i] := by
    rw [heq, List.getElem?_append_left hi, List.getElem?_eq_getElem hi]
  exact isRow_of_isLine htable (hrecords _ (List.mem_of_getElem? hr)) hr (hlines i _ (List.getElem?_eq_getElem hi'))

/-- A cell that has no text is that of a leaf with an integer of too many digits. -/
theorem exists_overlong (htable : library.IsTableOf (rowsOf records) t) {i j : Nat} (hr : records[i]? = some r)
    (hj : j < (library.columns t).length) (hnone : (library.cell t i j).text? = none) :
    ∃ leaf ∈ leaves r, leaf.2.HoldsOverlong := by
  rw [columns_eq htable] at hj
  obtain ⟨hleaf, hlong⟩ := (keeps_leaf htable hr (List.getElem?_eq_getElem hj)).holdsOverlong hnone
  obtain ⟨m, hm⟩ := Entries.exists_mem_of_lookup hleaf
  exact ⟨(m, library.cell t i j), hm, hlong⟩

/-- Records with names for keys are records for a table. -/
theorem defect?_eq_none {data : Value} (hdata : data.contents = .list records) (hrecords : ∀ r ∈ records, IsRecord r) :
    defect? data = none := by
  have hitems : data.items? = some records := by rw [Value.items?, hdata]
  have hall : records.findIdx? (!isMapping ·) = none := by
    refine List.findIdx?_eq_none_iff.mpr fun r hr => ?_
    obtain ⟨entries, hentries, -⟩ := (hrecords r hr).named
    rw [Workspace.isMapping_iff.mpr ⟨entries, hentries⟩, Bool.not_true]
  rw [defect?, hitems]
  dsimp only
  rw [hall, Option.map_none]

end Table

namespace Workspace

open Table

variable {library : TableLibrary} {w w' : Workspace} {p : Path} {records : List Value}

/-! ## Files -/

theorem makeOne_keeps (w : Workspace) (p : Path) :
    (w.makeOne p).1.files = w.files ∧ (w.makeOne p).1.homes = w.homes := by
  unfold makeOne
  split <;> exact ⟨rfl, rfl⟩

theorem makeDirectories_keeps (n : Nat) (w : Workspace) (p : Path) :
    (makeDirectories n w p).1.files = w.files ∧ (makeDirectories n w p).1.homes = w.homes := by
  induction n generalizing p with
  | zero => exact makeOne_keeps w p
  | succ n ih =>
    rw [makeDirectories]
    split
    · obtain ⟨hfiles, hhomes⟩ := ih p.parent
      split
      · rename_i w₁ habove
        rw [habove] at hfiles hhomes
        obtain ⟨hfiles', hhomes'⟩ := makeOne_keeps w₁ p
        exact ⟨hfiles'.trans hfiles, hhomes'.trans hhomes⟩
      · rename_i w₁ fault habove
        rw [habove] at hfiles hhomes
        exact ⟨hfiles, hhomes⟩
    · exact makeOne_keeps w p

/-- Making a directory touches no file. -/
theorem makeDirectory_keeps (w : Workspace) (p : Path) :
    (w.makeDirectory p).1.files = w.files ∧ (w.makeDirectory p).1.homes = w.homes := by
  unfold makeDirectory
  split
  · exact ⟨rfl, rfl⟩
  · exact makeDirectories_keeps _ w p

theorem tablePath_congr (h : w'.homes = w.homes) : w'.tablePath p = w.tablePath p := by
  unfold tablePath expandHome?
  rw [h]

/-- What comes of writing records as a table, apart from faults of files. -/
inductive Exported (library : TableLibrary) (w w' : Workspace) (p : Path) (records : List Value) :
    Except TableFault library.Frame → Prop where
  /-- There is a row for every record. -/
  | whole {t : library.Frame} {rows : List (List (List Char))} : (∀ r ∈ records, hasEnd r = true) →
      library.columns t = columns records → library.height t = records.length →
      w'.HoldsRows (w.tablePath p) (header records :: rows) → List.Forall₂ (IsRow records) records rows →
      Exported library w w' p records (.ok t)
  /-- An integer of too many digits ends the file before the first record with one. -/
  | cut {before after : List Value} {r : Value} {rows : List (List (List Char))} : (∀ r ∈ records, hasEnd r = true) →
      records = before ++ r :: after → (∃ leaf ∈ leaves r, leaf.2.HoldsOverlong) →
      w'.HoldsRows (w.tablePath p) (header records :: rows) → List.Forall₂ (IsRow records) before rows →
      Exported library w w' p records (.error .unwritable)
  /-- A record that holds itself is not written, nor are the others. -/
  | endless : (∃ r ∈ records, hasEnd r = false) → w'.files = w.files →
      Exported library w w' p records (.error .endless)

/-- What is in the file of a table of records. -/
theorem exported_of_saved {t : library.Frame} {fault : Option TableFault} (hrecords : ∀ r ∈ records, IsRecord r)
    (hends : ∀ r ∈ records, hasEnd r = true) (htable : library.IsTableOf (rowsOf records) t)
    (hsaved : library.Saved t w' (w.tablePath p) fault) (hfile : ∀ f, fault ≠ some (.file f)) :
    Exported library w w' p records (match fault with | none => .ok t | some fault => .error fault) := by
  have hheight : library.height t = records.length := by rw [htable.height, rowsOf, List.length_map]
  cases hsaved with
  | whole hholds hlines hlength =>
    rw [header_eq htable] at hholds
    exact .whole hends (columns_eq htable) hheight hholds
      (areRows_of_areLines htable (List.append_nil _).symm hrecords (hlength.trans hheight) hlines)
  | @cut rows j hholds hlines hlt hj hnone =>
    rw [header_eq htable] at hholds
    rw [hheight] at hlt
    -- the rows that are there are those of as many records, and the next one has the cell without a text
    have heq : records = records.take rows.length ++ records[rows.length] :: records.drop (rows.length + 1) := by
      rw [List.getElem_cons_drop, List.take_append_drop]
    have hlength : rows.length = (records.take rows.length).length := by
      rw [List.length_take, Nat.min_eq_left hlt.le]
    exact .cut hends heq (exists_overlong htable (List.getElem?_eq_getElem hlt) hj hnone) hholds
      (areRows_of_areLines htable heq hrecords hlength hlines)
  | file => exact absurd rfl (hfile _)

theorem exported_of_saveTable {w₁ : Workspace} {t : library.Frame} {result : Except TableFault library.Frame}
    (hformat : p.format = ".csv") (hrecords : ∀ r ∈ records, IsRecord r) (hends : ∀ r ∈ records, hasEnd r = true)
    (htable : library.IsTableOf (rowsOf records) t)
    (hsaved : ∀ w₂ fault, library.saveText t w₁ p = (w₂, fault) → library.Saved t w₂ (w.tablePath p) fault)
    (hsave : w₁.saveTable library p t = (w', result)) (hfile : ∀ fault, result ≠ .error (.file fault)) :
    Exported library w w' p records result := by
  rw [saveTable, if_pos hformat] at hsave
  split at hsave
  · rename_i hwritten
    cases hsave
    exact exported_of_saved hrecords hends htable (hsaved _ _ hwritten) nofun
  · rename_i hwritten
    cases hsave
    exact exported_of_saved hrecords hends htable (hsaved _ _ hwritten) fun f hf => hfile f (by rw [Option.some.inj hf])

/-! ## Records in tables -/

/-- Records with names for keys, in none of which two leaves have the same name, are written as a table. Its
columns are the names of all leaves in the order in which they first appear. It has a row for every record, in
the order of the records, and in that row every leaf of the record stands in the column of its name; a cell is
empty only if there is no leaf for it, or one that is null, no number or an empty text. -/
theorem every_leaf_has_its_cell (hnormalizes : library.Normalizes) (hwrites : library.WritesRows) {data : Value}
    {result : Except TableFault library.Frame} (hformat : p.format = ".csv")
    (hdata : data.contents = .list records) (hrecords : ∀ r ∈ records, IsRecord r)
    (hwrite : w.writeTable library p data = (w', result)) (hfile : ∀ fault, result ≠ .error (.file fault)) :
    (columns records).Nodup ∧ Exported library w w' p records result := by
  refine ⟨nodup_eraseDups _, ?_⟩
  have hnamed : ∀ r ∈ records, IsNamed r := fun r hr => (hrecords r hr).named
  have hsuffix : tableSuffixes.contains p.format = true := by
    rw [hformat]
    decide
  have hrows := flattenAll_eq hrecords
  obtain ⟨hfiles, hhomes⟩ := makeDirectory_keeps w p.parent
  unfold writeTable at hwrite
  rw [hsuffix, Bool.not_true, if_neg Bool.false_ne_true, defect?_eq_none hdata hrecords] at hwrite
  dsimp only at hwrite
  split at hwrite
  · cases hwrite
    exact absurd rfl (hfile _)
  rename_i w₁ hdirectory
  rw [hdirectory] at hfiles hhomes
  by_cases hend : records.all hasEnd = true
  · rw [if_pos hend] at hrows
    obtain ⟨t, hnormal, htable⟩ := hnormalizes.table data records _ hdata hnamed hrows
    rw [hnormal] at hwrite
    have hsaved := fun w₂ fault => hwrites.saved data records t w₁ p w₂ fault hdata hnamed hnormal
    rw [tablePath_congr hhomes] at hsaved
    exact exported_of_saveTable hformat hrecords (List.all_eq_true.mp hend) htable hsaved hwrite hfile
  · rw [if_neg hend] at hrows
    rw [hnormalizes.fault data records _ hdata hnamed hrows] at hwrite
    cases hwrite
    exact .endless (by simpa using hend) hfiles

def ordersPath : Path := ⟨"/", ["desk", "orders.csv"]⟩

/-- Two orders whose leaves come in another order, with a dictionary that has none. -/
def orders : List Value :=
  [.dict [(.str "customer", .dict [(.str "name", .str "Ada, Countess"), (.str "seat", .dict [])]), (.str "id", .int 1)],
    .dict [(.str "id", .int 2), (.str "tags", .list [.str "new"]),
      (.str "customer", .dict [(.str "seat", .dict [(.str "town", .str "")]), (.str "name", .null)])]]

/-- Both orders are in the file. -/
theorem two_orders_are_exported : (∀ r ∈ orders, IsRecord r) ∧
    columns orders = ["id", "customer.name", "tags", "customer.seat.town"] ∧
    ∃ w' t, desk.writeTable plain ordersPath (.list orders) = (w', .ok t) ∧
      Exported plain desk w' ordersPath orders (.ok t) := by
  have hrecords : ∀ r ∈ orders, IsRecord r :=
    List.forall_mem_cons.mpr ⟨⟨⟨_, rfl, by decide⟩, by decide⟩,
      List.forall_mem_cons.mpr ⟨⟨⟨_, rfl, by decide⟩, by decide⟩, nofun⟩⟩
  obtain ⟨w', t, hwrite⟩ : ∃ w' t, desk.writeTable plain ordersPath (.list orders) = (w', .ok t) := ⟨_, _, rfl⟩
  have hexported := every_leaf_has_its_cell plain_normalizes plain_writesRows (by decide) rfl hrecords hwrite nofun
  exact ⟨hrecords, by decide, w', t, hwrite, hexported.2⟩

/-- On the desk there is a directory for the table. -/
theorem desk_writes {records : List Value} {t : Table} (hrecords : ∀ r ∈ records, IsRecord r)
    (ht : ofValue (.list records) = .ok t) : ∃ w', w'.contents? ordersPath = some (Text.Utf8.encode (lines t.fields).1) ∧
      desk.writeTable plain ordersPath (.list records) =
        (w', if (lines t.fields).2 then .ok t else .error .unwritable) := by
  have hsuffix : tableSuffixes.contains ordersPath.format = true := by decide
  have hdirectory : desk.makeDirectory ordersPath.parent = (desk, none) := rfl
  have hnormal : plain.normalize (.list records) = .ok t := ht
  obtain ⟨w', hsave⟩ : ∃ w', desk.save ordersPath (Text.Utf8.encode (lines t.fields).1) = .ok w' := ⟨_, rfl⟩
  refine ⟨w', contents?_save hsave, ?_⟩
  rw [writeTable, hsuffix, Bool.not_true, if_neg Bool.false_ne_true, defect?_eq_none rfl hrecords]
  dsimp only
  rw [hdirectory]
  dsimp only
  rw [hnormal]
  dsimp only
  have hformat : ordersPath.format = ".csv" := by decide
  have htext : plain.saveText t desk ordersPath = (w', if (lines t.fields).2 then none else some .unwritable) := by
    show saveLines t desk ordersPath = _
    rw [saveLines]
    dsimp only
    rw [hsave]
  unfold saveTable
  rw [if_pos hformat, htext]
  cases (lines t.fields).2 <;> rfl

/-- A one, and in another record something else under its name. -/
def oneAnd (s : Scalar) : List Value := [.dict [(.str "a", .int 1)], .dict [(.str "a", .scalar s)]]

/-- The same, and a record with nothing. -/
def oneAndGap (s : Scalar) : List Value := oneAnd s ++ [.dict []]

/-- A dictionary that holds nothing but itself. -/
def turning : Value := Web.value #[.dict [(.str "a", 0)]] 0

def half : Double := .ofDecimal false 5 (-1)

def overlong : Int := (10 ^ digitLimit : Nat)

theorem isRecord_single (s : Scalar) : IsRecord (.dict [(.str "a", .scalar s)]) :=
  ⟨⟨_, rfl, rfl⟩, List.nodup_singleton "a"⟩

theorem isRecord_oneAnd {s : Scalar} : ∀ r ∈ oneAnd s, IsRecord r :=
  List.forall_mem_cons.mpr ⟨isRecord_single _, List.forall_mem_cons.mpr ⟨isRecord_single s, nofun⟩⟩

theorem isRecord_oneAndGap {s : Scalar} : ∀ r ∈ oneAndGap s, IsRecord r :=
  List.forall_mem_append.mpr ⟨isRecord_oneAnd, List.forall_mem_cons.mpr ⟨⟨⟨_, rfl, rfl⟩, List.nodup_nil⟩, nofun⟩⟩

theorem isRecord_turning : ∀ r ∈ [turning], IsRecord r :=
  List.forall_mem_cons.mpr ⟨⟨⟨_, rfl, rfl⟩, List.nodup_nil⟩, nofun⟩

theorem intText?_overlong : Number.intText? overlong = none := by
  refine Number.intText?_eq_none.mpr (Nat.lt_of_not_le fun hle => ?_)
  exact Nat.lt_irrefl _ ((Nat.length_toDigits_le_iff (by decide) (by decide)).mp hle)

/-- The table of records with a number or a text under the name `a`, or nothing. -/
def single (cells : List (Option Scalar)) : Table :=
  ⟨[.str "a"], cells.map fun cell => cell.toList.map fun s => (0, .scalar s)⟩

theorem fields_single_int (n : Int) : (single [some (.int 1), some (.int n)]).fields =
    written [["a".toList], ["1".toList]] ++ [[Number.intText? n]] := rfl

/-- A one is not written as a float though a record has nothing under its name, and as one though none of them
has nothing there. A number that is too long has no row, and a record that holds itself has no table. The
library does what is assumed of it. -/
theorem numbers_go_by_their_column : (plain.Normalizes ∧ plain.WritesRows) ∧
    ((∀ r ∈ oneAndGap (.str "x"), IsRecord r) ∧
      ∃ w' t, desk.writeTable plain ordersPath (.list (oneAndGap (.str "x"))) = (w', .ok t) ∧
        w'.HoldsRows ordersPath [["a".toList], ["1".toList], ["x".toList], ["".toList]]) ∧
    ((∀ r ∈ oneAnd (.float half), IsRecord r) ∧
      ∃ w' t, desk.writeTable plain ordersPath (.list (oneAnd (.float half))) = (w', .ok t) ∧
        w'.HoldsRows ordersPath [["a".toList], ["1.0".toList], ["0.5".toList]]) ∧
    ((∀ r ∈ oneAnd (.int overlong), IsRecord r) ∧
      ∃ w', desk.writeTable plain ordersPath (.list (oneAnd (.int overlong))) = (w', .error .unwritable) ∧
        w'.HoldsRows ordersPath [["a".toList], ["1".toList]]) ∧
    (∀ r ∈ [turning], IsRecord r) ∧
      ∃ w', desk.writeTable plain ordersPath (.list [turning]) = (w', .error .endless) := by
  refine ⟨⟨plain_normalizes, plain_writesRows⟩, ⟨isRecord_oneAndGap, ?_⟩, ⟨isRecord_oneAnd, ?_⟩,
    ⟨isRecord_oneAnd, ?_⟩, isRecord_turning, _, rfl⟩
  · have ht : ofValue (.list (oneAndGap (.str "x"))) = .ok (single [some (.int 1), some (.str "x"), none]) := rfl
    obtain ⟨w', hcontents, hwrite⟩ := desk_writes isRecord_oneAndGap ht
    have hfields : (single [some (.int 1), some (.str "x"), none]).fields =
        written [["a".toList], ["1".toList], ["x".toList], ["".toList]] := by decide
    rw [hfields, lines_written] at hcontents hwrite
    exact ⟨w', _, hwrite, _, hcontents, readRows_lines _⟩
  · have ht : ofValue (.list (oneAnd (.float half))) = .ok (single [some (.int 1), some (.float half)]) := rfl
    obtain ⟨w', hcontents, hwrite⟩ := desk_writes isRecord_oneAnd ht
    have hfields : (single [some (.int 1), some (.float half)]).fields =
        written [["a".toList], ["1.0".toList], ["0.5".toList]] := by decide +kernel
    rw [hfields, lines_written] at hcontents hwrite
    exact ⟨w', _, hwrite, _, hcontents, readRows_lines _⟩
  · have ht : ofValue (.list (oneAnd (.int overlong))) = .ok (single [some (.int 1), some (.int overlong)]) := rfl
    obtain ⟨w', hcontents, hwrite⟩ := desk_writes isRecord_oneAnd ht
    rw [fields_single_int, intText?_overlong, lines_stop _ (by simp)] at hcontents hwrite
    exact ⟨w', hwrite, _, hcontents, readRows_lines _⟩

end Workspace

end Reshape
