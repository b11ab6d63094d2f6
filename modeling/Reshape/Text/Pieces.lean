/-
  Reshape.Text.Pieces: cutting a text at every separator, and joining pieces again.
  - `pieces_append_separator`: a separator between two texts keeps their pieces apart.
  - `joined_pieces`: joining the pieces of a text with the separator gives the text back.
  - `pieces_joined`: pieces that hold no separator are recovered from their join, if there is one.
  - `not_mem_of_mem_pieces`: no piece holds the separator.
  - `mem_of_mem_joined`, `mem_joined_of_mem`: the characters of joined pieces.
-/

namespace Reshape.Text

/-- The pieces of a text between its separators; a text without one is a single piece. -/
def pieces (sep : Char) : List Char → List (List Char)
  | [] => [[]]
  | c :: cs =>
    if c = sep then [] :: pieces sep cs
    else match pieces sep cs with
      | [] => [[c]]
      | p :: ps => (c :: p) :: ps

def joined (sep : List Char) : List (List Char) → List Char
  | [] => []
  | [p] => p
  | p :: q :: ps => p ++ sep ++ joined sep (q :: ps)

theorem pieces_ne_nil (sep : Char) (cs : List Char) : pieces sep cs ≠ [] := by
  cases cs with
  | nil => simp [pieces]
  | cons c cs =>
    rw [pieces]
    split
    · simp
    · split <;> simp

theorem joined_cons {sep p : List Char} {ps : List (List Char)} (h : ps ≠ []) :
    joined sep (p :: ps) = p ++ sep ++ joined sep ps := by
  cases ps with
  | nil => exact absurd rfl h
  | cons q ps => rfl

theorem flatten_intersperse (sep : List Char) (ps : List (List Char)) : (ps.intersperse sep).flatten = joined sep ps := by
  induction ps with
  | nil => rfl
  | cons p ps ih =>
    cases ps with
    | nil => simp [joined]
    | cons q ps =>
      rw [List.intersperse_cons_cons, List.flatten_cons, List.flatten_cons, ih, ← List.append_assoc]
      rfl

theorem mem_of_mem_joined {sep : List Char} {ps : List (List Char)} {c : Char} (h : c ∈ joined sep ps) :
    c ∈ sep ∨ ∃ p ∈ ps, c ∈ p := by
  induction ps with
  | nil => cases h
  | cons p ps ih =>
    by_cases hps : ps = []
    · subst hps
      exact Or.inr ⟨p, by simp, h⟩
    · rw [joined_cons hps] at h
      rcases List.mem_append.mp h with h | h
      · rcases List.mem_append.mp h with h | h
        · exact Or.inr ⟨p, by simp, h⟩
        · exact Or.inl h
      · exact (ih h).imp_right fun ⟨q, hq, hc⟩ => ⟨q, List.mem_cons_of_mem _ hq, hc⟩

theorem mem_joined_of_mem {sep : List Char} {ps : List (List Char)} {p : List Char} (hp : p ∈ ps) {c : Char}
    (hc : c ∈ p) : c ∈ joined sep ps := by
  induction ps with
  | nil => cases hp
  | cons q ps ih =>
    by_cases hps : ps = []
    · subst hps
      rw [List.mem_singleton] at hp
      subst hp
      exact hc
    · rw [joined_cons hps]
      rcases List.mem_cons.mp hp with rfl | hp
      · simp [hc]
      · simp [ih hp]

theorem joined_eq_nil {sep : List Char} (hsep : sep ≠ []) {ps : List (List Char)} (h : joined sep ps = []) :
    ps = [] ∨ ps = [[]] := by
  match ps with
  | [] => exact Or.inl rfl
  | [p] => exact Or.inr (by rw [show p = [] from h])
  | p :: q :: ps =>
    rw [joined] at h
    simp only [List.append_eq_nil_iff] at h
    exact absurd h.1.2 hsep

theorem joined_pieces (sep : Char) (cs : List Char) : joined [sep] (pieces sep cs) = cs := by
  induction cs with
  | nil => rfl
  | cons c cs ih =>
    rw [pieces]
    split
    · next h => rw [joined_cons (pieces_ne_nil sep cs), ih, h]; rfl
    · cases hp : pieces sep cs with
      | nil => exact absurd hp (pieces_ne_nil sep cs)
      | cons p ps =>
        rw [hp] at ih
        cases ps with
        | nil => simpa [joined] using ih
        | cons q ps => simpa [joined] using ih

theorem not_mem_of_mem_pieces {sep : Char} {cs p : List Char} (h : p ∈ pieces sep cs) :
    sep ∉ p := by
  induction cs generalizing p with
  | nil => simp_all [pieces]
  | cons c cs ih =>
    rw [pieces] at h
    split at h
    · rcases List.mem_cons.1 h with rfl | h
      · simp
      · exact ih h
    · next hc =>
      cases hp : pieces sep cs with
      | nil => exact absurd hp (pieces_ne_nil sep cs)
      | cons q qs =>
        rw [hp] at h ih
        rcases List.mem_cons.1 h with rfl | h
        · have := ih (p := q) (by simp)
          simp [this, Ne.symm hc]
        · exact ih (by simp [h])

/-- The pieces of two texts with a separator between them are those of both. -/
theorem pieces_append_separator (sep : Char) (cs ds : List Char) :
    pieces sep (cs ++ sep :: ds) = pieces sep cs ++ pieces sep ds := by
  induction cs with
  | nil => simp [pieces]
  | cons c cs ih =>
    rw [List.cons_append, pieces, pieces, ih]
    split
    · rfl
    · cases hp : pieces sep cs with
      | nil => exact absurd hp (pieces_ne_nil sep cs)
      | cons p ps => rfl

theorem pieces_of_not_mem {sep : Char} {p : List Char} (h : sep ∉ p) : pieces sep p = [p] := by
  induction p with
  | nil => rfl
  | cons c p ih =>
    have hc : c ≠ sep := fun e => h (by simp [e])
    have hp : sep ∉ p := fun e => h (by simp [e])
    simp [pieces, hc, ih hp]

theorem pieces_append {sep : Char} {p : List Char} (h : sep ∉ p) (cs : List Char) :
    pieces sep (p ++ sep :: cs) = p :: pieces sep cs := by
  rw [pieces_append_separator, pieces_of_not_mem h, List.singleton_append]

theorem pieces_joined {sep : Char} {ps : List (List Char)} (hne : ps ≠ [])
    (h : ∀ p ∈ ps, sep ∉ p) : pieces sep (joined [sep] ps) = ps := by
  induction ps with
  | nil => exact absurd rfl hne
  | cons p ps ih =>
    have hp := h p (by simp)
    cases ps with
    | nil => exact pieces_of_not_mem hp
    | cons q qs =>
      rw [joined_cons (by simp), List.append_assoc, List.singleton_append, pieces_append hp,
        ih (by simp) (fun r hr => h r (by simp [hr]))]

/-! ## On strings -/

/-- The pieces of a string between its separators. -/
def splitAt (sep : Char) (s : String) : List String := (pieces sep s.toList).map String.ofList

def join (sep : String) (parts : List String) : String :=
  String.ofList (joined sep.toList (parts.map String.toList))

end Reshape.Text
