/-
  Reshape.Proofs.LineNumbers: which line of a file is reported.

  A file of lines is read line by line, each line without the white space around it. Blank lines are passed
  over and counted. The first line that cannot be read ends the reading.
  - `lined_iff`: the lines of a text, by the marks that they end in.
  - `readLines_explained`: what reading lines comes to, and which line ends it.
  - `first_unreadable_line_is_reported`: loading a file, with its message: the path and the number of the
    line, except for an integer of too many digits, whose message says neither.
  - `a_long_integer_hides_its_line`: so not every line is reported with its place.
-/

import Reshape.Proofs.LongIntegers
import Reshape.Proofs.Saving

namespace Reshape

namespace Text

/-! ## Lines and their ends -/

/-- The text is these lines, one after another. Each of them ends in one of the three marks, which the last can do
without if it is not empty. A return before a newline is no mark by itself. -/
inductive Lined : List (List Char) → List Char → Prop where
  | nil : Lined [] []
  | last {line : List Char} : line ≠ [] → (∀ e ∈ lineEnds, e ∉ line) → Lined [line] line
  | line {lines : List (List Char)} {line mark text : List Char} : (∀ e ∈ lineEnds, e ∉ line) → mark ∈ lineMarks →
      (mark = ['\r'] → text.head? ≠ some '\n') → Lined lines text → Lined (line :: lines) (line ++ (mark ++ text))

variable {line mark text : List Char}

theorem lines_of_unbroken (hne : line ≠ []) (hline : ∀ e ∈ lineEnds, e ∉ line) : lines line = [line] := by
  have hunified := unifyLineEnds_append (hline '\r' (by decide)) []
  rw [List.append_nil] at hunified
  rw [lines, hunified, unifyLineEnds, List.append_nil, linesAtNewlines, pieces_of_not_mem (hline '\n' (by decide))]
  exact if_neg fun h => hne (Option.some.inj h)

theorem Lined.lines_eq {ls : List (List Char)} (h : Lined ls text) : lines text = ls := by
  induction h with
  | nil => rfl
  | last hne hline => exact lines_of_unbroken hne hline
  | line hline hmark hreturn _ ih => rw [lines_append hline hmark hreturn, ih]

/-- A line end comes first in the text: it is one of the marks, and a return only if no newline follows. -/
theorem exists_mark {c : Char} (hc : c ∈ lineEnds) (cs : List Char) :
    ∃ mark ∈ lineMarks, ∃ text, c :: cs = mark ++ text ∧ (mark = ['\r'] → text.head? ≠ some '\n') := by
  rcases mem_lineEnds.mp hc with rfl | rfl
  · exact ⟨['\n'], by decide, cs, rfl, fun h => by cases h⟩
  · by_cases hhead : cs.head? = some '\n'
    · obtain ⟨text, rfl⟩ := List.head?_eq_some_iff.mp hhead
      exact ⟨['\r', '\n'], by decide, text, rfl, fun h => by cases h⟩
    · exact ⟨['\r'], by decide, cs, rfl, fun _ => hhead⟩

/-- Every text has lines. The induction is on its length: what comes before the first line end is a line. -/
theorem exists_lined (text : List Char) : ∃ ls, Lined ls text := by
  generalize hn : text.length = n
  induction n using Nat.strongRecOn generalizing text with
  | ind n ih =>
    let unbroken (c : Char) : Bool := decide (c ∉ lineEnds)
    have hline : ∀ e ∈ lineEnds, e ∉ text.takeWhile unbroken := by
      intro e he hmem
      simpa [unbroken, he] using List.mem_takeWhile_imp hmem
    have htext : text.takeWhile unbroken ++ text.dropWhile unbroken = text := List.takeWhile_append_dropWhile
    generalize text.takeWhile unbroken = line at hline htext
    cases hrest : text.dropWhile unbroken with
    | nil =>
      rw [hrest, List.append_nil] at htext
      subst htext
      by_cases hnil : line = []
      · subst hnil
        exact ⟨[], .nil⟩
      · exact ⟨[line], .last hnil hline⟩
    | cons c cs =>
      have hc : c ∈ lineEnds := by
        have hdrop := List.head?_dropWhile_not unbroken text
        rw [hrest] at hdrop
        simpa [unbroken] using hdrop
      obtain ⟨mark, hmark, rest, hcs, hreturn⟩ := exists_mark hc cs
      rw [hrest, hcs] at htext
      have hpos : 0 < mark.length := by
        rcases hmark with _ | ⟨_, _ | ⟨_, _ | ⟨_, ⟨⟩⟩⟩⟩ <;> decide
      have hlength := congrArg List.length htext
      rw [List.length_append, List.length_append] at hlength
      obtain ⟨ls, hls⟩ := ih rest.length (by omega) rest rfl
      exact ⟨line :: ls, htext ▸ .line hline hmark hreturn hls⟩

theorem lined_iff {ls : List (List Char)} : Lined ls text ↔ lines text = ls := by
  constructor
  · exact Lined.lines_eq
  · rintro rfl
    obtain ⟨ls, hls⟩ := exists_lined text
    rwa [hls.lines_eq]

end Text

/-! ## Reading line by line -/

namespace Workspace

/-- The line is blank, or holds a value. -/
def Readable (line : List Char) : Prop := Text.strip line = [] ∨ ∃ v, Json.read (Text.strip line) = .ok v

/-- After `k` lines that can be read comes this one, which cannot. -/
structure Stops (lines : List (List Char)) (k : Nat) (line : List Char) (cause : Json.Fault) : Prop where
  readable : ∀ l ∈ lines.take k, Readable l
  here : lines[k]? = some line
  not_blank : Text.strip line ≠ []
  refused : Json.read (Text.strip line) = .error cause

/-- What is said of the `n`-th line. -/
def lineFault (path : Path) (n : Nat) : Json.Fault → LoadFault
  | .malformed _ _ => .invalidLine path.text n
  | .integerTooLong digits => .integerTooLong digits

variable {w : Workspace} {p path : Path} {line : List Char} {lines : List (List Char)} {text : List Char}
variable {cause : Json.Fault} {k : Nat}

theorem Stops.later {l : List Char} (h : Stops lines k line cause) (hl : Readable l) :
    Stops (l :: lines) (k + 1) line cause where
  readable := List.forall_mem_cons.mpr ⟨hl, h.readable⟩
  here := h.here
  not_blank := h.not_blank
  refused := h.refused

theorem readLines_refused (hfilled : Text.strip line ≠ []) (hread : Json.read (Text.strip line) = .error cause) (n : Nat) :
    readLines path n (line :: lines) = .error (lineFault path n cause) := by
  rw [readLines_filled hfilled, hread]
  cases cause <;> rfl

/-- Reading lines comes to the values of all that are not blank, or ends with the first that cannot be read. -/
theorem readLines_explained (path : Path) (n : Nat) (lines : List (List Char)) :
    (∃ values, List.Forall₂ (fun v line => Json.read line = .ok v) values (Text.kept lines) ∧
      readLines path n lines = .ok values) ∨
    ∃ k line cause, Stops lines k line cause ∧ readLines path n lines = .error (lineFault path (n + k) cause) := by
  induction lines generalizing n with
  | nil => exact Or.inl ⟨[], .nil, rfl⟩
  | cons l lines ih =>
    have hnumber : ∀ k, n + 1 + k = n + (k + 1) := by omega
    by_cases hstrip : Text.strip l = []
    · rw [readLines_blank hstrip, Text.kept_blank hstrip]
      rcases ih (n + 1) with hread | ⟨k, line, cause, hstops, hread⟩
      · exact Or.inl hread
      · exact Or.inr ⟨k + 1, line, cause, hstops.later (Or.inl hstrip), by rw [hread, hnumber]⟩
    cases hl : Json.read (Text.strip l) with
    | error cause => exact Or.inr ⟨0, l, cause, ⟨nofun, rfl, hstrip, hl⟩, readLines_refused hstrip hl n⟩
    | ok v =>
      rw [readLines_filled hstrip, hl, Text.kept_filled hstrip]
      dsimp only
      rcases ih (n + 1) with ⟨values, hvalues, hread⟩ | ⟨k, line, cause, hstops, hread⟩
      · exact Or.inl ⟨v :: values, .cons hl hvalues, by rw [hread]; rfl⟩
      · exact Or.inr ⟨k + 1, line, cause, hstops.later (Or.inr ⟨v, hl⟩), by rw [hread, hnumber]; rfl⟩

/-! ## Reports -/

/-- Digits are a line that is not blank. -/
theorem stops_of_digits {ds : List Char} (h : Json.Whole ds) (hlong : digitLimit < ds.length) :
    Text.Lined [ds] ds ∧ Stops [ds] 0 ds (.integerTooLong ds.length) := by
  have hstrip : Text.strip ds = ds := Text.trimWhile_eq_self
    (fun c hc => Json.isBlank_of_isDigit (h.digits c (List.mem_of_mem_head? hc)))
    (fun c hc => Json.isBlank_of_isDigit (h.digits c (List.mem_of_getLast? hc)))
  have hunbroken : ∀ e ∈ Text.lineEnds, e ∉ ds := by
    intro e hend he
    have hdigit := h.digits e he
    rcases Text.mem_lineEnds.mp hend with rfl | rfl <;> cases hdigit
  refine ⟨.last h.ne_nil hunbroken, nofun, rfl, ?_, ?_⟩
  · rw [hstrip]
    exact h.ne_nil
  · rw [hstrip]
    exact Json.read_digits h hlong

/-- Of a file with one integer of too many digits only their number is reported. -/
theorem loadInputs_digits (yaml : Yaml.Reader) {ds : List Char} (hopen : w.open? p = .ok (path, Text.Utf8.encode ds))
    (hformat : path.format = ".jsonl") (h : Json.Whole ds) (hlong : digitLimit < ds.length) :
    w.loadInputs yaml p = .error (.integerTooLong ds.length) := by
  obtain ⟨hlined, hstops⟩ := stops_of_digits h hlong
  rw [loadInputs_of_open? hopen hformat, hlined.lines_eq, readLines_refused hstops.not_blank hstops.refused]
  rfl

/-- A file of lines gives the values of its lines that are not blank, in their order, or else the first line that
cannot be read is reported, with the path and the number of the line. Every line counts for that number, in
whichever way it ends. Of an integer of too many digits only their number is reported, but nothing else is
without its place. -/
theorem first_unreadable_line_is_reported (yaml : Yaml.Reader)
    (hopen : w.open? p = .ok (path, Text.Utf8.encode text)) (hformat : path.format = ".jsonl") :
    ∃ lines, Text.Lined lines text ∧
      ((∃ values, List.Forall₂ (fun v line => Json.read line = .ok v) values (Text.kept lines) ∧
          w.loadInputs yaml p = .ok values) ∨
        (∃ k line defect position, Stops lines k line (.malformed defect position) ∧
          w.loadInputs yaml p = .error (.invalidLine path.text (k + 1)) ∧
          (LoadFault.invalidLine path.text (k + 1)).message =
            path.text ++ ":" ++ toString (k + 1) ++ ": invalid JSON") ∨
        ∃ k line digits, Stops lines k line (.integerTooLong digits) ∧ Json.Overlong digits line ∧
          w.loadInputs yaml p = .error (.integerTooLong digits)) := by
  refine ⟨Text.lines text, Text.lined_iff.mpr rfl, ?_⟩
  rw [loadInputs_of_open? hopen hformat]
  rcases readLines_explained path 1 (Text.lines text) with hread | ⟨k, line, cause, hstops, hread⟩
  · exact Or.inl hread
  rw [Nat.add_comm] at hread
  cases cause with
  | malformed defect position =>
    exact Or.inr (Or.inl ⟨k, line, defect, position, hstops, hread, rfl⟩)
  | integerTooLong digits =>
    have hlong := (Json.overlong_of_read hstops.refused).of_isInfix (Text.strip_isInfix line)
    exact Or.inr (Or.inr ⟨k, line, digits, hstops, hlong, hread⟩)

theorem open?_readings (text : List Char) :
    (desk.holding readingsPath text).open? readingsPath = .ok (readingsPath, Text.Utf8.encode text) := rfl

/-- A record, a line of white space, and a line that breaks off. -/
def brokenText : List Char := ['[', '1', ']', '\r', '\n', '\t', '\r', ' ', '{', '\n', '2']

theorem a_broken_line_is_reported : ∃ lines line defect position, Text.Lined lines brokenText ∧
    Stops lines 2 line (.malformed defect position) ∧
    (desk.holding readingsPath brokenText).loadInputs noYaml readingsPath =
      .error (.invalidLine "/desk/readings.jsonl" 3) := by
  have hformat : readingsPath.format = ".jsonl" := by decide
  have hload : (desk.holding readingsPath brokenText).loadInputs noYaml readingsPath =
      .error (.invalidLine "/desk/readings.jsonl" 3) := by
    rw [loadInputs_of_open? (open?_readings _) hformat]
    rfl
  obtain ⟨lines, hlines, hread⟩ := first_unreadable_line_is_reported noYaml (open?_readings brokenText) hformat
  rw [hload] at hread
  rcases hread with ⟨_, _, hread⟩ | ⟨k, line, defect, position, hstops, hread, -⟩ | ⟨_, _, _, _, _, hread⟩
  · cases hread
  · cases hread
    exact ⟨lines, line, defect, position, hlines, hstops, hload⟩
  · cases hread

/-- One integer, of a digit more than an integer can have. -/
def longText : List Char := List.replicate (digitLimit + 1) '1'

theorem whole_longText : Json.Whole longText := by
  refine ⟨fun c hc => ?_, nofun, nofun⟩
  rw [List.eq_of_mem_replicate hc]
  rfl

theorem length_longText : digitLimit < longText.length := by
  rw [longText, List.length_replicate]
  exact Nat.lt_succ_self _

theorem head_numeralTooLong (digits : Nat) : (numeralTooLong digits).toList.head? = some 'E' := by
  unfold numeralTooLong
  simp only [String.toList_append, List.append_assoc]
  rfl

/-- A path from the root starts with another character than what is said of an integer of too many digits. -/
theorem message_integerTooLong_ne (digits n : Nat) (rest : String) :
    (LoadFault.integerTooLong digits).message ≠ readingsPath.text ++ ":" ++ toString n ++ ":" ++ rest := by
  have hpath : readingsPath.text = "/desk/readings.jsonl" := by decide
  have hhead : (readingsPath.text ++ ":" ++ toString n ++ ":" ++ rest).toList.head? = some '/' := by
    rw [hpath]
    simp only [String.toList_append, List.append_assoc]
    rfl
  rw [LoadFault.message]
  intro h
  rw [← h, head_numeralTooLong] at hhead
  cases hhead

/-- The only line of the file cannot be read, and what is reported starts neither with the path and the number
of the line nor with those of any other. -/
theorem a_long_integer_hides_its_line :
    (desk.holding readingsPath longText).open? readingsPath = .ok (readingsPath, Text.Utf8.encode longText) ∧
      readingsPath.format = ".jsonl" ∧ Text.Lined [longText] longText ∧
      (∃ cause, Stops [longText] 0 longText cause) ∧
      ∃ fault, (desk.holding readingsPath longText).loadInputs noYaml readingsPath = .error fault ∧
        ∀ (n : Nat) (rest : String), fault.message ≠ readingsPath.text ++ ":" ++ toString n ++ ":" ++ rest := by
  have hformat : readingsPath.format = ".jsonl" := by decide
  obtain ⟨hlined, hstops⟩ := stops_of_digits whole_longText length_longText
  have hload := loadInputs_digits noYaml (open?_readings longText) hformat whole_longText length_longText
  exact ⟨open?_readings longText, hformat, hlined, ⟨_, hstops⟩, _, hload, message_integerTooLong_ne _⟩

end Workspace

end Reshape
