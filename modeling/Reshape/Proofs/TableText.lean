/-
  Reshape.Proofs.TableText: the text of a table, read again.

  No field that was written breaks its line, and none that was written with quotes leaves them open. So the
  text of a plain table is read as the fields it was written with.
  - `lineFields_body`: the fields of a line are those it was written with.
  - `readRows_lines`: so are the rows of a text.
  - `lines_stop`: a field that cannot be written ends the text before its row.
-/

import Reshape.Proofs.TableLaws
import Reshape.Table.Plain
import Reshape.Text.Pieces

namespace Reshape.Table

/-! ## Closed texts -/

/-- Whether no separator stands outside of quotes, and no quote is left open. -/
def isClosed (sep : Char) : Bool → List Char → Bool
  | inside, [] => !inside
  | inside, c :: cs => (inside || c ≠ sep) && isClosed sep (inside != (c = '"')) cs

variable {sep : Char} {inside : Bool} {cs ds : List Char} {ps : List (List Char)}

theorem isClosed_cons {c : Char} (h : isClosed sep inside (c :: cs) = true) :
    ¬ (c = sep ∧ inside = false) ∧ isClosed sep (inside != (c = '"')) cs = true := by
  rw [isClosed, Bool.and_eq_true] at h
  refine ⟨?_, h.2⟩
  rintro ⟨rfl, rfl⟩
  simp at h

theorem piecesOutside_append (h : isClosed sep inside cs = true) (rest : List Char) :
    piecesOutside sep inside (cs ++ sep :: rest) = cs :: piecesOutside sep false rest := by
  induction cs generalizing inside with
  | nil =>
    cases inside with
    | true => cases h
    | false => simp [piecesOutside]
  | cons c cs ih =>
    obtain ⟨hc, hcs⟩ := isClosed_cons h
    rw [List.cons_append, piecesOutside, if_neg hc, ih hcs]

theorem piecesOutside_of_closed (h : isClosed sep inside cs = true) : piecesOutside sep inside cs = [cs] := by
  induction cs generalizing inside with
  | nil => rfl
  | cons c cs ih =>
    obtain ⟨hc, hcs⟩ := isClosed_cons h
    rw [piecesOutside, if_neg hc, ih hcs]

theorem isClosed_append (hcs : isClosed sep inside cs = true) (hds : isClosed sep false ds = true) :
    isClosed sep inside (cs ++ ds) = true := by
  induction cs generalizing inside with
  | nil =>
    cases inside with
    | true => cases hcs
    | false => exact hds
  | cons c cs ih =>
    rw [isClosed, Bool.and_eq_true] at hcs
    rw [List.cons_append, isClosed, hcs.1, ih hcs.2]
    rfl

theorem isClosed_of_plain (h : ∀ c ∈ cs, c ≠ sep ∧ c ≠ '"') : isClosed sep false cs = true := by
  induction cs with
  | nil => rfl
  | cons c cs ih =>
    obtain ⟨⟨hsep, hquote⟩, hcs⟩ := List.forall_mem_cons.mp h
    simp [isClosed, hsep, hquote, ih hcs]

theorem isClosed_joined {between : List Char} (hbetween : isClosed sep false between = true)
    (h : ∀ p ∈ ps, isClosed sep false p = true) : isClosed sep false (Text.joined between ps) = true := by
  induction ps with
  | nil => rfl
  | cons p ps ih =>
    obtain ⟨hp, hps⟩ := List.forall_mem_cons.mp h
    by_cases hnil : ps = []
    · subst hnil
      exact hp
    · rw [Text.joined_cons hnil]
      exact isClosed_append (isClosed_append hp hbetween) (ih hps)

theorem piecesOutside_joined (hne : ps ≠ []) (h : ∀ p ∈ ps, isClosed sep false p = true) :
    piecesOutside sep false (Text.joined [sep] ps) = ps := by
  induction ps with
  | nil => exact absurd rfl hne
  | cons p ps ih =>
    obtain ⟨hp, hps⟩ := List.forall_mem_cons.mp h
    by_cases hnil : ps = []
    · subst hnil
      exact piecesOutside_of_closed hp
    · rw [Text.joined_cons hnil, List.append_assoc, List.singleton_append, piecesOutside_append hp, ih hnil hps]

/-! ## Fields -/

/-- The characters of a field in quotes, with its own quotes doubled. -/
def doubled (cs : List Char) : List Char := cs.flatMap fun c => if c = '"' then ['"', '"'] else [c]

theorem quotedField_eq (cs : List Char) : quotedField cs = '"' :: (doubled cs ++ ['"']) := rfl

theorem quotedText_doubled (cs : List Char) : quotedText (doubled cs ++ ['"']) = cs := by
  induction cs with
  | nil => rfl
  | cons c cs ih =>
    by_cases hc : c = '"'
    · subst hc
      show '"' :: quotedText (doubled cs ++ ['"']) = _
      rw [ih]
    · have hfirst : doubled (c :: cs) = c :: doubled cs := by simp [doubled, hc]
      rw [hfirst, List.cons_append, quotedText, ih]
      all_goals simp [hc]

theorem isClosed_doubled (hsep : sep ≠ '"') (cs : List Char) : isClosed sep true (doubled cs ++ ['"']) = true := by
  induction cs with
  | nil => rfl
  | cons c cs ih =>
    by_cases hc : c = '"'
    · subst hc
      show isClosed sep true ('"' :: '"' :: (doubled cs ++ ['"'])) = true
      simp [isClosed, hsep.symm, ih]
    · have hfirst : doubled (c :: cs) = c :: doubled cs := by simp [doubled, hc]
      rw [hfirst, List.cons_append]
      simp [isClosed, hc, ih]

theorem not_needsQuotes {cs : List Char} (h : needsQuotes cs = false) : ∀ c ∈ cs, c ≠ ',' ∧ c ≠ '"' ∧ c ≠ '\n' := by
  intro c hc
  simpa [needsQuotes, and_assoc] using List.any_eq_false.mp h c hc

theorem fieldText_field (cs : List Char) : fieldText (field cs) = cs := by
  unfold field
  split
  · exact quotedText_doubled cs
  · rename_i h
    have hplain := not_needsQuotes (Bool.not_eq_true _ ▸ h)
    unfold fieldText
    split
    · exact absurd rfl (hplain '"' (by simp)).2.1
    · rfl

theorem isClosed_field (hsep : sep = ',' ∨ sep = '\n') (cs : List Char) : isClosed sep false (field cs) = true := by
  have hquote : sep ≠ '"' := by rcases hsep with rfl | rfl <;> decide
  unfold field
  split
  · rw [quotedField_eq, isClosed]
    simp [hquote.symm, isClosed_doubled hquote]
  · rename_i h
    have hplain := not_needsQuotes (Bool.not_eq_true _ ▸ h)
    refine isClosed_of_plain fun c hc => ⟨?_, (hplain c hc).2.1⟩
    rcases hsep with rfl | rfl
    · exact (hplain c hc).1
    · exact (hplain c hc).2.2

theorem field_eq_nil {cs : List Char} (h : field cs = []) : cs = [] := by
  unfold field at h
  split at h
  · cases h
  · exact h

/-! ## Lines -/

/-- A line without the newline at its end. -/
def body (fields : List (List Char)) : List Char :=
  if fields = [[]] then ['"', '"'] else Text.joined [','] (fields.map field)

theorem line_eq (fields : List (List Char)) : line fields = body fields ++ ['\n'] := by
  rw [line, body, Text.flatten_intersperse]

theorem isClosed_body (fields : List (List Char)) : isClosed '\n' false (body fields) = true := by
  unfold body
  split
  · rfl
  · refine isClosed_joined rfl fun p hp => ?_
    obtain ⟨cs, -, rfl⟩ := List.mem_map.mp hp
    exact isClosed_field (.inr rfl) cs

/-- The fields of a line are those it was written with. -/
theorem lineFields_body (fields : List (List Char)) : lineFields (body fields) = fields := by
  by_cases hnone : fields = []
  · subst hnone
    rfl
  by_cases hempty : fields = [[]]
  · subst hempty
    rfl
  have hbody : body fields = Text.joined [','] (fields.map field) := if_neg hempty
  have hne : Text.joined [','] (fields.map field) ≠ [] := by
    intro hnil
    rcases Text.joined_eq_nil (by simp) hnil with h | h
    · exact hnone (List.map_eq_nil_iff.mp h)
    · obtain ⟨cs, hcs⟩ : ∃ cs, fields = [cs] := List.length_eq_one_iff.mp (by simpa using congrArg List.length h)
      subst hcs
      have hfield : field cs = [] := by simpa using h
      exact hempty (by rw [field_eq_nil hfield])
  have hclosed : ∀ p ∈ fields.map field, isClosed ',' false p = true := by
    intro p hp
    obtain ⟨cs, -, rfl⟩ := List.mem_map.mp hp
    exact isClosed_field (.inl rfl) cs
  rw [lineFields, hbody, if_neg hne, piecesOutside_joined (by simpa using hnone) hclosed, List.map_map]
  simp [Function.comp_def, fieldText_field]

/-! ## Rows -/

/-- Rows of which every field has a text. -/
def written (rows : List (List (List Char))) : List (List (Option (List Char))) := rows.map (·.map some)

theorem mapM_some (fields : List (List Char)) : (fields.map some).mapM id = some fields := by
  induction fields with
  | nil => rfl
  | cons cs fields ih => simp [List.mapM_cons, ih]

theorem mapM_eq_none {α β : Type} {f : α → Option β} {as : List α} {a : α} (ha : a ∈ as) (hf : f a = none) :
    as.mapM f = none := by
  induction as with
  | nil => cases ha
  | cons b as ih =>
    rw [List.mapM_cons]
    rcases List.mem_cons.mp ha with rfl | ha
    · rw [hf]
      rfl
    · rw [ih ha]
      cases f b <;> rfl

theorem lines_written (rows : List (List (List Char))) : lines (written rows) = (rows.flatMap line, true) := by
  induction rows with
  | nil => rfl
  | cons fields rows ih =>
    show lines (fields.map some :: written rows) = _
    rw [lines, mapM_some, ih]
    rfl

/-- A field that cannot be written ends the text before its row. -/
theorem lines_stop (rows : List (List (List Char))) {bad : List (Option (List Char))} (h : none ∈ bad)
    (rest : List (List (Option (List Char)))) : lines (written rows ++ bad :: rest) = (rows.flatMap line, false) := by
  induction rows with
  | nil =>
    show lines (bad :: rest) = _
    rw [lines, mapM_eq_none h rfl]
    rfl
  | cons fields rows ih =>
    show lines (fields.map some :: (written rows ++ bad :: rest)) = _
    rw [lines, mapM_some, ih]
    rfl

/-- Either every field has a text, or there is a first row with one that has none. -/
theorem written_or_stop (grid : List (List (Option (List Char)))) : (∃ rows, grid = written rows) ∨
    ∃ rows bad rest, grid = written rows ++ bad :: rest ∧ none ∈ bad := by
  induction grid with
  | nil => exact .inl ⟨[], rfl⟩
  | cons fields grid ih =>
    by_cases hnone : none ∈ fields
    · exact .inr ⟨[], fields, grid, rfl, hnone⟩
    obtain ⟨row, hrow⟩ : ∃ row : List (List Char), fields = row.map some := by
      refine ⟨fields.map (·.getD []), ?_⟩
      rw [List.map_map]
      refine (List.map_id _).symm.trans (List.map_congr_left fun field hfield => ?_)
      cases field with
      | none => exact absurd hfield hnone
      | some text => rfl
    rcases ih with ⟨rows, rfl⟩ | ⟨rows, bad, rest, rfl, hbad⟩
    · exact .inl ⟨row :: rows, by rw [hrow]; rfl⟩
    · exact .inr ⟨row :: rows, bad, rest, by rw [hrow]; rfl, hbad⟩

/-- The rows of a text are those it was written with. -/
theorem readRows_lines (rows : List (List (List Char))) : readRows (rows.flatMap line) = rows := by
  have hpieces : piecesOutside '\n' false (rows.flatMap line) = rows.map body ++ [[]] := by
    induction rows with
    | nil => rfl
    | cons fields rows ih =>
      rw [List.flatMap_cons, line_eq, List.append_assoc, List.singleton_append,
        piecesOutside_append (isClosed_body fields), ih]
      rfl
  rw [readRows, hpieces, List.dropLast_concat, List.map_map]
  simp [Function.comp_def, lineFields_body]

end Reshape.Table
