/-
  Reshape.Proofs.Saving: records that are written are read back.

  Records made of JSON's own kinds of values are written one on a line, and take the place of what the
  file held. From that file they are read back, the same and in their order, and so they are from every
  text with these lines.
  - `readLinesOf_encode`, `readLines_of_spread`: the values of the lines of a text are read, in whatever
    blocks, and whatever blank lines, white space and line ends it has.
  - `locate_holding`: the path that a file was written under leads to it.
  - `records_are_read_back`: what is written under a path is read under every path to that file.
-/

import Reshape.Load
import Reshape.Output
import Reshape.Proofs.Bytes
import Reshape.Proofs.JsonText

namespace Reshape

/-! ## Records as lines -/

/-- The lines are those of the records. -/
def LinesOf (records : List Value) (lines : List (List Char)) : Prop :=
  List.Forall₂ (fun v line => Json.write Json.oneLine v = .ok line) records lines

/-- The text of a file with these lines. -/
def fileText (lines : List (List Char)) : List Char := lines.flatMap (· ++ ['\n'])

theorem exists_lines {records : List Value} (h : ∀ v ∈ records, v.IsJson) :
    ∃ lines, LinesOf records lines ∧ List.Forall₂ Json.Renders records lines := by
  induction records with
  | nil => exact ⟨[], .nil, .nil⟩
  | cons v records ih =>
    obtain ⟨hv, hrecords⟩ := List.forall_mem_cons.mp h
    obtain ⟨line, hwrite, hline⟩ := Json.writeAt_renders hv 0
    obtain ⟨lines, hwrites, hlines⟩ := ih hrecords
    exact ⟨line :: lines, .cons hwrite hwrites, .cons hline hlines⟩

theorem jsonLines_eq {records : List Value} {lines : List (List Char)} (h : LinesOf records lines) :
    Output.jsonLines records = (fileText lines, .ok records.length) := by
  induction h with
  | nil => rfl
  | @cons v line records lines hwrite _ ih =>
    rw [Output.jsonLines, hwrite]
    dsimp only
    rw [ih]
    simp [fileText, Except.map]

theorem spread_fileText (lines : List (List Char)) : Text.Spread lines (fileText lines) := by
  induction lines with
  | nil => exact .nil
  | cons line lines ih =>
    have hpadding : Text.Padding [] := nofun
    have hspread : Text.Spread (line :: lines) ([] ++ line ++ [] ++ (['\n'] ++ fileText lines)) :=
      .line hpadding hpadding (by simp [Text.lineMarks]) ih
    simpa [fileText] using hspread

/-! ## Lines as records -/

namespace Workspace

variable {records : List Value} {lines : List (List Char)}

theorem readLines_blank {path : Path} {line : List Char} (h : Text.strip line = []) (n : Nat) :
    readLines path n (line :: lines) = readLines path (n + 1) lines := by
  rw [readLines, h]

theorem readLines_filled {path : Path} {line : List Char} (h : Text.strip line ≠ []) (n : Nat) :
    readLines path n (line :: lines) = match Json.read (Text.strip line) with
      | .error (.malformed _ _) => .error (.invalidLine path.text n)
      | .error (.integerTooLong digits) => .error (.integerTooLong digits)
      | .ok v => (readLines path (n + 1) lines).map (v :: ·) := by
  rw [readLines]
  split
  · rename_i hblank
    exact absurd hblank h
  · rfl

theorem readLines_of_kept {path : Path} (n : Nat)
    (h : List.Forall₂ (fun v line => Json.read line = .ok v) records (Text.kept lines)) :
    readLines path n lines = .ok records := by
  induction lines generalizing n records with
  | nil =>
    cases h
    rfl
  | cons line lines ih =>
    by_cases hstrip : Text.strip line = []
    · rw [Text.kept_blank hstrip] at h
      rw [readLines_blank hstrip, ih (n + 1) h]
    · rw [Text.kept_filled hstrip] at h
      cases h with
      | cons hread hrest =>
        rw [readLines_filled hstrip, hread, ih (n + 1) hrest]
        rfl

theorem flatten_blocks {size fuel : Nat} (hsize : 0 < size) {bytes : List UInt8} (h : bytes.length ≤ fuel) :
    (blocks size fuel bytes).flatten = bytes := by
  induction fuel generalizing bytes with
  | zero =>
    obtain rfl := List.length_eq_zero_iff.mp (Nat.le_zero.mp h)
    rfl
  | succ fuel ih =>
    cases bytes with
    | nil => rfl
    | cons b bytes =>
      have hrest : ((b :: bytes).drop size).length ≤ fuel := by
        rw [List.length_drop]
        omega
      rw [blocks, List.flatten_cons, ih hrest, List.take_append_drop]
      nofun

/-- The blocks that a text is decoded in do not show. -/
theorem readLinesOf_encode (path : Path) (text : List Char) :
    readLinesOf path (Text.Utf8.encode text) = readLines path 1 (Text.lines text) := by
  have hblocks := flatten_blocks (show 0 < blockSize by decide) (Nat.le_refl (Text.Utf8.encode text).length)
  rw [readLinesOf, Text.Utf8.decodeBlocks_encode (by rw [List.nil_append]; exact hblocks)]

theorem readLines_of_spread {path : Path} {text : List Char} (h : List.Forall₂ Json.Renders records lines)
    (hspread : Text.Spread lines text) : readLines path 1 (Text.lines text) = .ok records := by
  have hkept := Text.kept_of_spread hspread (Json.forall_of_forall₂ (fun _ _ hline => hline.solid) h)
  refine readLines_of_kept 1 ?_
  rw [hkept]
  exact h.imp fun _ _ hline => hline.read_eq

/-! ## Files -/

/-- The workspace with a file of these characters, in place of what the file held. -/
def holding (w : Workspace) (q : Path) (text : List Char) : Workspace :=
  { w with files := Entries.put q (Text.Utf8.encode text) w.files }

/-- For a reader of lines of JSON the path leads to this file. -/
def Opens (w : Workspace) (p q : Path) : Prop :=
  ∃ expanded, w.expandHome? p = some expanded ∧ (w.resolve expanded).hasNull = false ∧
    w.locateResolved (w.resolve expanded) = .ok (.file q) ∧ (w.resolve expanded).format = ".jsonl"

variable {w : Workspace} {yaml : Yaml.Reader} {p q : Path} {text : List Char}

theorem exists_open?_of_opens (hopens : w.Opens p q) {bytes : List UInt8} (hbytes : w.files.lookup q = some bytes) :
    ∃ path, w.open? p = .ok (path, bytes) ∧ path.format = ".jsonl" := by
  obtain ⟨expanded, hexpand, hnull, hlocate, hformat⟩ := hopens
  refine ⟨w.resolve expanded, ?_, hformat⟩
  rw [open?, hexpand]
  dsimp only
  rw [hnull, if_neg Bool.false_ne_true, hlocate]
  dsimp only
  rw [hbytes, Option.getD_some]

/-- Of a file of lines that can be opened the lines are read, one after another. -/
theorem loadInputs_of_open? {path : Path} (hopen : w.open? p = .ok (path, Text.Utf8.encode text))
    (hformat : path.format = ".jsonl") : w.loadInputs yaml p = readLines path 1 (Text.lines text) := by
  rw [loadInputs, hopen]
  simp only [bind, Except.bind]
  rw [if_pos hformat, readLinesOf_encode]

theorem loadInputs_of_opens (hopens : w.Opens p q) (htext : w.files.lookup q = some (Text.Utf8.encode text))
    (hspread : Text.Spread lines text) (h : List.Forall₂ Json.Renders records lines) :
    w.loadInputs yaml p = .ok records := by
  obtain ⟨path, hopen, hformat⟩ := exists_open?_of_opens hopens htext
  rw [loadInputs_of_open? hopen hformat, readLines_of_spread h hspread]

theorem lookup_holding : (w.holding q text).files.lookup q = some (Text.Utf8.encode text) :=
  Entries.lookup_put_self q _ w.files

/-! ## Paths to a written file -/

/-- The place is this file, or the name is free for it. -/
def IsAt (place : Place) (q : Path) : Prop := place = .file q ∨ place = .free q

theorem placeOf_cases (w : Workspace) (r : Path) : w.placeOf r = .directory r ∨ IsAt (w.placeOf r) r := by
  unfold placeOf
  split
  · exact Or.inr (Or.inl rfl)
  split
  · exact Or.inl rfl
  · exact Or.inr (Or.inr rfl)

theorem eq_of_isAt {place : Place} {r : Path} (hr : IsAt place r) (hq : IsAt place q) : r = q := by
  rcases hr with rfl | rfl <;> rcases hq with hq | hq <;> cases hq <;> rfl

/-- A step from a directory leads back, or on to what has a further name. -/
theorem step_directory {d : Path} {part : String} {place : Place} (h : w.step (.directory d) part = .ok place) :
    part = ".." ∧ place = .directory d.parent ∨
      part ≠ ".." ∧ part.utf8ByteSize ≤ nameLimit ∧ place = w.placeOf { d with parts := d.parts ++ [part] } := by
  rw [step] at h
  split at h
  · rename_i hback
    cases h
    exact Or.inl ⟨hback, rfl⟩
  split at h
  · cases h
  · rename_i hon hshort
    cases h
    exact Or.inr ⟨hon, Nat.le_of_not_lt hshort, rfl⟩

/-- A walk goes on from directories only. -/
theorem walk_cons {d : Path} {part : String} {parts : List String} {place : Place}
    (h : (part :: parts).foldlM w.step (.directory d) = .ok place) :
    (∃ d', w.step (.directory d) part = .ok (.directory d') ∧ parts.foldlM w.step (.directory d') = .ok place) ∨
      w.step (.directory d) part = .ok place ∧ parts = [] := by
  rw [List.foldlM_cons] at h
  cases hstep : w.step (.directory d) part with
  | error fault =>
    rw [hstep] at h
    cases h
  | ok next =>
    rw [hstep] at h
    change parts.foldlM w.step next = .ok place at h
    cases next with
    | directory d' => exact Or.inl ⟨d', rfl, h⟩
    | file r =>
      cases parts with
      | nil => exact Or.inr ⟨h, rfl⟩
      | cons part parts => cases h
    | free r =>
      cases parts with
      | nil => exact Or.inr ⟨h, rfl⟩
      | cons part parts => cases h

/-- At the end of a walk to a file there is no directory. -/
theorem isAt_placeOf_of_walk {d : Path} {parts : List String} {place : Place}
    (h : parts.foldlM w.step (.directory d) = .ok place) (hat : IsAt place q) : IsAt (w.placeOf q) q := by
  induction parts generalizing d with
  | nil =>
    cases h
    rcases hat with hat | hat <;> cases hat
  | cons part parts ih =>
    rcases walk_cons h with ⟨d', -, hrest⟩ | ⟨hlast, -⟩
    · exact ih hrest
    · rcases step_directory hlast with ⟨-, rfl⟩ | ⟨-, -, rfl⟩
      · rcases hat with hat | hat <;> cases hat
      · rcases w.placeOf_cases { d with parts := d.parts ++ [part] } with hdir | hfile
        · rw [hdir] at hat
          rcases hat with hat | hat <;> cases hat
        · rwa [eq_of_isAt hfile hat] at hfile

theorem placeOf_holding_self : (w.holding q text).placeOf q = .file q := by
  rw [placeOf, lookup_holding]
  rfl

/-- A directory stays one. -/
theorem placeOf_holding {r : Path} (hdir : w.placeOf r = .directory r) (hne : r ≠ q) :
    (w.holding q text).placeOf r = .directory r := by
  have hlookup : (w.holding q text).files.lookup r = w.files.lookup r := Entries.lookup_put_of_ne hne _ w.files
  have hkeys : (Entries.keys w.files).any (·.isBelow r) = true →
      (Entries.keys (w.holding q text).files).any (·.isBelow r) = true := by
    simp only [List.any_eq_true]
    rintro ⟨k, hk, hbelow⟩
    exact ⟨k, Entries.mem_keys_put.mpr (Or.inr hk), hbelow⟩
  have hstays : w.hasDirectory r = true → (w.holding q text).hasDirectory r = true := by
    unfold hasDirectory
    simp only [Bool.or_eq_true]
    exact Or.imp_right hkeys
  rw [placeOf, hlookup]
  rw [placeOf] at hdir
  split at hdir
  · cases hdir
  rename_i hfile
  rw [if_neg hfile]
  split at hdir
  · rename_i hthere
    rw [if_pos (hstays hthere)]
  · cases hdir

theorem walk_holding {d : Path} {parts : List String} {place : Place}
    (h : parts.foldlM w.step (.directory d) = .ok place) (hat : IsAt place q) :
    parts.foldlM (w.holding q text).step (.directory d) = .ok (.file q) := by
  have hend := isAt_placeOf_of_walk h hat
  induction parts generalizing d with
  | nil =>
    cases h
    rcases hat with hat | hat <;> cases hat
  | cons part parts ih =>
    rw [List.foldlM_cons]
    have hback : (w.holding q text).step (.directory d) ".." = .ok (.directory d.parent) := rfl
    have hon : part ≠ ".." → part.utf8ByteSize ≤ nameLimit → (w.holding q text).step (.directory d) part =
        .ok ((w.holding q text).placeOf { d with parts := d.parts ++ [part] }) := by
      intro hpart hshort
      rw [step, if_neg hpart, if_neg (Nat.not_lt.mpr hshort)]
    rcases walk_cons h with ⟨d', hstep, hrest⟩ | ⟨hlast, rfl⟩
    · suffices hsame : (w.holding q text).step (.directory d) part = .ok (.directory d') by
        rw [hsame]
        exact ih hrest
      rcases step_directory hstep with ⟨rfl, heq⟩ | ⟨hpart, hshort, heq⟩
      · rw [hback, heq]
      · rw [hon hpart hshort]
        rcases w.placeOf_cases { d with parts := d.parts ++ [part] } with hdir | hfile
        · rw [placeOf_holding hdir, heq, hdir]
          -- no directory is at the end of the walk
          rintro rfl
          rw [hdir] at hend
          rcases hend with hend | hend <;> cases hend
        · rw [← heq] at hfile
          rcases hfile with hfile | hfile <;> cases hfile
    · rcases step_directory hlast with ⟨-, rfl⟩ | ⟨hpart, hshort, rfl⟩
      · rcases hat with hat | hat <;> cases hat
      · rcases w.placeOf_cases { d with parts := d.parts ++ [part] } with hdir | hfile
        · rw [hdir] at hat
          rcases hat with hat | hat <;> cases hat
        · rw [hon hpart hshort, eq_of_isAt hfile hat, placeOf_holding_self]
          rfl

/-- The path that a file was written under leads to it. -/
theorem locate_holding {place : Place} (h : w.locate p = .ok place) (hat : IsAt place q) :
    (w.holding q text).locate p = .ok (.file q) := by
  rw [locate, locateFrom] at h ⊢
  split at h
  · cases h
  · rename_i hlimit
    rw [if_neg hlimit]
    exact walk_holding h hat

/-- An absolute path without double dots is what it is resolved to. -/
theorem opens_of_locate (hroot : p.root ≠ "") (hplain : ".." ∉ p.parts) (hnull : p.hasNull = false)
    (hformat : p.format = ".jsonl") (h : w.locate p = .ok (.file q)) : w.Opens p q := by
  have hclimb : ∀ {parts before : List String}, ".." ∉ parts → parts.foldl Path.climb before = before ++ parts := by
    intro parts
    induction parts with
    | nil => exact fun _ => (List.append_nil _).symm
    | cons part parts ih =>
      intro before hparts
      rw [List.mem_cons, not_or] at hparts
      rw [List.foldl_cons, Path.climb, if_neg (Ne.symm hparts.1), ih hparts.2, List.append_assoc, List.singleton_append]
  have hresolve : w.resolve p = p := by
    rw [resolve, Path.resolve, if_neg hroot, hclimb hplain, List.nil_append]
  have hexpand : w.expandHome? p = some p := by
    rw [expandHome?]
    split
    · rename_i heq _
      exact absurd heq hroot
    · rfl
  have hlocate : w.locateResolved p = .ok (.file q) := by
    rwa [locate, if_neg hroot] at h
  exact ⟨p, hexpand, by rwa [hresolve], by rwa [hresolve], by rwa [hresolve]⟩

/-! ## Records in files -/

/-- Records of JSON's own kinds of values are written one on a line, all of them, in place of what the file
held. They are read back from there, and from every other file with these lines, whatever blank lines it
has among them, white space around them and line ends after them. -/
theorem records_are_read_back {w w₁ : Workspace} {p q : Path} {place : Place} {data : Value} {records : List Value}
    (hitems : data.items? = some records) (hjson : ∀ v ∈ records, v.IsJson)
    (hdirectory : w.makeDirectory p.parent = (w₁, none)) (hnull : p.hasNull = false) (hplace : w₁.locate p = .ok place)
    (hat : IsAt place q) :
    ∃ lines, LinesOf records lines ∧
      w.writeRecords p data = (w₁.holding q (fileText lines), .ok records.length) ∧
      (p.root ≠ "" → ".." ∉ p.parts → p.format = ".jsonl" →
        (w₁.holding q (fileText lines)).loadInputs yaml p = .ok records) ∧
      (∀ p', (w₁.holding q (fileText lines)).Opens p' q →
        (w₁.holding q (fileText lines)).loadInputs yaml p' = .ok records) ∧
      ∀ (w' : Workspace) p' q' text, Text.Spread lines text → w'.files.lookup q' = some (Text.Utf8.encode text) →
        w'.Opens p' q' → w'.loadInputs yaml p' = .ok records := by
  obtain ⟨lines, hlines, hrenders⟩ := exists_lines hjson
  have hput : w₁.put p (Text.Utf8.encode (fileText lines)) = .ok (w₁.holding q (fileText lines)) := by
    rw [put, hnull, if_neg Bool.false_ne_true, hplace]
    rcases hat with rfl | rfl <;> rfl
  have hread : ∀ p', (w₁.holding q (fileText lines)).Opens p' q →
      (w₁.holding q (fileText lines)).loadInputs yaml p' = .ok records :=
    fun p' hopens => loadInputs_of_opens hopens lookup_holding (spread_fileText lines) hrenders
  refine ⟨lines, hlines, ?_, fun hroot hplain hformat => ?_, hread, fun w' p' q' text hspread htext hopens => ?_⟩
  · rw [writeRecords, Output.linesOf, hitems]
    dsimp only
    rw [jsonLines_eq hlines]
    dsimp only
    rw [hdirectory]
    dsimp only
    rw [hput]
    rfl
  · exact hread p (opens_of_locate hroot hplain hnull hformat (locate_holding hplace hat))
  · exact loadInputs_of_opens hopens htext hspread hrenders

/-- Takes no text for YAML. -/
def noYaml : Yaml.Reader := fun _ => .error .malformed

def readingsPath : Path := ⟨"/", ["desk", "readings.jsonl"]⟩

def desk : Workspace := ⟨[(readingsPath, Text.Utf8.encode "stale".toList)], [], ⟨"/", ["desk"]⟩, []⟩

/-- Keys out of order, a number that is none, and separators of Unicode inside a text. -/
def readings : List Value :=
  [.dict [(.str "z", .float .nan), (.str "a", .list [.null, .bool true, .int (-7)])], .str "one\u2028two\u0085"]

/-- The file is read back as it was written, and with a blank line before it that ends in a return. -/
theorem readings_are_read_back : ∃ lines, LinesOf readings lines ∧
    desk.writeRecords readingsPath (.list readings) = (desk.holding readingsPath (fileText lines), .ok 2) ∧
    (desk.holding readingsPath (fileText lines)).loadInputs noYaml readingsPath = .ok readings ∧
    (desk.holding readingsPath ('\u3000' :: '\r' :: fileText lines)).loadInputs noYaml readingsPath = .ok readings := by
  have hmembers : ∀ v ∈ [Value.null, .bool true, .int (-7)], v.IsJson :=
    List.forall_mem_cons.mpr ⟨.null, List.forall_mem_cons.mpr ⟨.bool true,
      List.forall_mem_cons.mpr ⟨.int (by decide), nofun⟩⟩⟩
  have hdict : Value.IsJson (.dict ([("z", .float .nan), ("a", .list [.null, .bool true, .int (-7)])].map fun m =>
      (.str m.1, m.2))) :=
    .dict (by decide) (List.forall_mem_cons.mpr ⟨.float _, List.forall_mem_cons.mpr ⟨.list hmembers, nofun⟩⟩)
  have hjson : ∀ v ∈ readings, v.IsJson := List.forall_mem_cons.mpr ⟨hdict, List.forall_mem_cons.mpr ⟨.str _, nofun⟩⟩
  have hlocate : desk.locate readingsPath = .ok (.file readingsPath) := rfl
  obtain ⟨lines, hlines, hwrite, hread, -, hspread⟩ := @records_are_read_back noYaml desk desk readingsPath readingsPath
    (.file readingsPath) (.list readings) readings rfl hjson rfl rfl hlocate (Or.inl rfl)
  have hblank : Text.Spread lines (['\u3000'] ++ (['\r'] ++ fileText lines)) :=
    .blank (by simp [Text.Padding, Text.lineEnds, Text.isBlank, Text.inRanges, Text.blankRanges]) (by decide)
      (spread_fileText lines)
  have hopens : ∀ text, (desk.holding readingsPath text).Opens readingsPath readingsPath := fun text =>
    opens_of_locate (by decide) (by decide) rfl (by decide) (locate_holding hlocate (Or.inl rfl))
  exact ⟨lines, hlines, hwrite, hread (by decide) (by decide) (by decide),
    hspread _ _ _ _ hblank lookup_holding (hopens _)⟩

end Workspace

end Reshape
