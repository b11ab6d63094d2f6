/-
  Reshape.Proofs.Layout: the lines of a text that are not blank.

  Around its lines a text can have blank lines and white space, and every line can end in any of the three
  ways.
  - `lines_append`: the lines of a text are its first line and those of the rest.
  - `kept_append`: wherever the first line ends, it is kept, if it is not blank, before those kept of the
    rest.
  - `kept_of_spread`: so the lines kept are those that were laid out, in their order.
-/

import Reshape.Text.Blank
import Reshape.Text.Lines

namespace Reshape.Text

def lineEnds : List Char := ['\n', '\r']

/-- What a line can end in. -/
def lineMarks : List (List Char) := [['\n'], ['\r', '\n'], ['\r']]

/-- White space on one line, maybe none. -/
def Padding (cs : List Char) : Prop := ∀ c ∈ cs, isBlank c = true ∧ c ∉ lineEnds

/-- The text has these lines, with white space around them and blank lines anywhere. -/
inductive Spread : List (List Char) → List Char → Prop where
  | nil : Spread [] []
  | blank {lines : List (List Char)} {padding mark text : List Char} : Padding padding → mark ∈ lineMarks →
      Spread lines text → Spread lines (padding ++ (mark ++ text))
  | line {lines : List (List Char)} {before line after mark text : List Char} : Padding before → Padding after →
      mark ∈ lineMarks → Spread lines text → Spread (line :: lines) (before ++ line ++ after ++ (mark ++ text))

/-- A line that is not blank and has no white space at its ends. -/
structure Solid (line : List Char) : Prop where
  ne_nil : line ≠ []
  first : ∀ c, line.head? = some c → isBlank c = false
  last : ∀ c, line.getLast? = some c → isBlank c = false
  unbroken : ∀ e ∈ lineEnds, e ∉ line

/-- The lines without white space around them, and without those that are blank. -/
def kept (lines : List (List Char)) : List (List Char) := (lines.map strip).filter (· ≠ [])

theorem mem_lineEnds {c : Char} : c ∈ lineEnds ↔ c = '\n' ∨ c = '\r' := by simp [lineEnds]

/-! ## White space -/

variable {cs before after line : List Char}

theorem Padding.unbroken (h : Padding cs) : ∀ e ∈ lineEnds, e ∉ cs := fun _ hend hmem => (h _ hmem).2 hend

theorem strip_line (h : Solid line) (hbefore : Padding before) (hafter : Padding after) :
    strip (before ++ line ++ after) = line :=
  trimWhile_append (fun c hc => (hbefore c hc).1) ⟨h.first, h.last⟩ fun c hc => (hafter c hc).1

theorem strip_padding (h : Padding cs) : strip cs = [] := by
  have hnil : Trimmed isBlank [] := ⟨by simp, by simp⟩
  have hafter : ∀ c ∈ ([] : List Char), isBlank c = true := by simp
  simpa [strip] using trimWhile_append (fun c hc => (h c hc).1) hnil hafter

theorem strip_isInfix (cs : List Char) : strip cs <:+: cs := by
  obtain ⟨before, after, -, -, hcs⟩ := exists_trimWhile isBlank cs
  exact ⟨before, after, hcs.symm⟩

/-! ## Line ends -/

theorem unifyLineEnds_append (h : '\r' ∉ line) (cs : List Char) :
    unifyLineEnds (line ++ cs) = line ++ unifyLineEnds cs := by
  induction line with
  | nil => rfl
  | cons c line ih =>
    rw [List.mem_cons, not_or] at h
    have hc : c ≠ '\r' := Ne.symm h.1
    rw [List.cons_append, unifyLineEnds, if_neg hc, ih h.2]
    · rfl
    · rintro _ rfl
      exact absurd rfl hc

theorem unifyLineEnds_newline (cs : List Char) : unifyLineEnds ('\n' :: cs) = '\n' :: unifyLineEnds cs :=
  @unifyLineEnds_append ['\n'] (by decide) cs

/-- A return by itself ends a line; before a newline it ends the same line. -/
theorem unifyLineEnds_return (cs : List Char) :
    unifyLineEnds ('\r' :: cs) = '\n' :: unifyLineEnds (if cs.head? = some '\n' then cs.drop 1 else cs) := by
  cases cs with
  | nil => rfl
  | cons c cs =>
    by_cases hc : c = '\n'
    · subst hc
      rfl
    · have hhead : ¬ (c :: cs).head? = some '\n' := fun heq => hc (Option.some.inj heq)
      rw [if_neg hhead, unifyLineEnds]
      · rfl
      · exact fun _ _ heq => hc (List.cons.inj heq).1

/-! ## Lines -/

theorem kept_blank (h : strip line = []) (lines : List (List Char)) : kept (line :: lines) = kept lines := by
  rw [kept, List.map_cons, h]
  rfl

theorem kept_filled (h : strip line ≠ []) (lines : List (List Char)) : kept (line :: lines) = strip line :: kept lines := by
  rw [kept, List.map_cons, List.filter_cons_of_pos (by simpa using h)]
  rfl

variable {mark text : List Char}

theorem linesAtNewlines_append (hline : '\n' ∉ line) (cs : List Char) :
    linesAtNewlines (line ++ '\n' :: cs) = line :: linesAtNewlines cs := by
  obtain ⟨first, rest, hpieces⟩ := List.exists_cons_of_ne_nil (pieces_ne_nil '\n' cs)
  rw [linesAtNewlines, linesAtNewlines, pieces_append hline, hpieces, List.getLast?_cons_cons]
  split <;> rfl

/-- The lines of a text are its first line and those of the rest, if the mark is the whole line end. -/
theorem lines_append (hline : ∀ e ∈ lineEnds, e ∉ line) (hmark : mark ∈ lineMarks)
    (hreturn : mark = ['\r'] → text.head? ≠ some '\n') : lines (line ++ (mark ++ text)) = line :: lines text := by
  have hnewline : '\n' ∉ line := hline _ (by decide)
  rw [lines, unifyLineEnds_append (hline _ (by decide)), lines, ← linesAtNewlines_append hnewline]
  simp only [lineMarks, List.mem_cons, List.not_mem_nil, or_false] at hmark
  rcases hmark with rfl | rfl | rfl
  · rw [List.singleton_append, unifyLineEnds_newline]
  · rw [List.cons_append, List.singleton_append, unifyLineEnds]
  · rw [List.singleton_append, unifyLineEnds_return, if_neg (hreturn rfl)]

/-- For the lines kept of a text it does not matter whether a mark is the whole line end. -/
theorem kept_append (hline : ∀ e ∈ lineEnds, e ∉ line) (hmark : mark ∈ lineMarks) (text : List Char) :
    kept (lines (line ++ (mark ++ text))) = kept (line :: lines text) := by
  by_cases hsplit : mark = ['\r'] ∧ text.head? = some '\n'
  · -- the return and the newline are one line end, and the blank line between them is gone
    obtain ⟨rfl, hhead⟩ := hsplit
    obtain ⟨text, rfl⟩ := List.head?_eq_some_iff.mp hhead
    have hwhole : lines (line ++ (['\r'] ++ '\n' :: text)) = line :: lines text :=
      @lines_append line ['\r', '\n'] text hline (by decide) nofun
    have hempty : lines ('\n' :: text) = [] :: lines text := @lines_append [] ['\n'] text nofun (by decide) nofun
    rw [hwhole, hempty]
    rfl
  · rw [lines_append hline hmark fun hreturn hhead => hsplit ⟨hreturn, hhead⟩]

/-- The lines kept are those that were laid out. -/
theorem kept_of_spread {layout : List (List Char)} {text : List Char} (h : Spread layout text)
    (hsolid : ∀ line ∈ layout, Solid line) : kept (lines text) = layout := by
  induction h with
  | nil => rfl
  | blank hpadding hmark _ ih => rw [kept_append hpadding.unbroken hmark, kept_blank (strip_padding hpadding), ih hsolid]
  | @line lines before line after mark text hbefore hafter hmark _ ih =>
    obtain ⟨hline, hlines⟩ := List.forall_mem_cons.mp hsolid
    have hunbroken : ∀ e ∈ lineEnds, e ∉ before ++ line ++ after := by
      intro e hend hmem
      rcases List.mem_append.mp hmem with hmem | hmem
      · rcases List.mem_append.mp hmem with hmem | hmem
        · exact hbefore.unbroken e hend hmem
        · exact hline.unbroken e hend hmem
      · exact hafter.unbroken e hend hmem
    have hstrip := strip_line hline hbefore hafter
    rw [kept_append hunbroken hmark, kept_filled (by rw [hstrip]; exact hline.ne_nil), hstrip, ih hlines]

end Reshape.Text
