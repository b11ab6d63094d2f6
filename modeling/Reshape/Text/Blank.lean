/-
  Reshape.Text.Blank: white space, and cutting it from both ends of a text.

  White space is every character whose only job is to separate: the separators of Unicode and the
  control characters that act as such (tab to carriage return, U+001C to U+001F, U+0085).
  - `trimWhile_eq_self`: a text that neither starts nor ends blank is left alone.
  - `trimmed_trimWhile`, `exists_trimWhile`: what is left of a text neither starts nor ends blank, and
    only blanks stand around it in the text.
  - `trimWhile_append`: blanks around a text that neither starts nor ends blank are all that is cut.
-/

import Reshape.Text.Ranges

namespace Reshape.Text

def blankRanges : List (Nat × Nat) := [
  (0x9, 0xD), (0x1C, 0x20), (0x85, 0x85), (0xA0, 0xA0), (0x1680, 0x1680), (0x2000, 0x200A),
  (0x2028, 0x2029), (0x202F, 0x202F), (0x205F, 0x205F), (0x3000, 0x3000)]

def isBlank (c : Char) : Bool := inRanges blankRanges c.toNat

/-- Cuts the characters in `p` from the end. -/
def dropEndWhile (p : Char → Bool) (cs : List Char) : List Char := (cs.reverse.dropWhile p).reverse

/-- Cuts the characters in `p` from both ends. -/
def trimWhile (p : Char → Bool) (cs : List Char) : List Char := dropEndWhile p (cs.dropWhile p)

def strip (cs : List Char) : List Char := trimWhile isBlank cs

theorem dropEndWhile_eq_self {p : Char → Bool} {cs : List Char}
    (h : ∀ c, cs.getLast? = some c → p c = false) : dropEndWhile p cs = cs := by
  rcases List.eq_nil_or_concat cs with rfl | ⟨l, a, rfl⟩
  · rfl
  · have ha : p a = false := h a (by simp)
    simp [dropEndWhile, ha]

theorem dropWhile_eq_self {p : Char → Bool} {cs : List Char}
    (h : ∀ c, cs.head? = some c → p c = false) : cs.dropWhile p = cs := by
  cases cs with
  | nil => rfl
  | cons c cs => simp [List.dropWhile, h c rfl]

theorem trimWhile_eq_self {p : Char → Bool} {cs : List Char}
    (first : ∀ c, cs.head? = some c → p c = false)
    (last : ∀ c, cs.getLast? = some c → p c = false) :
    trimWhile p cs = cs := by
  rw [trimWhile, dropWhile_eq_self first, dropEndWhile_eq_self last]

/-! ## What is cut, and what is left -/

/-- The text neither starts nor ends with a character in `p`. -/
structure Trimmed (p : Char → Bool) (cs : List Char) : Prop where
  first : ∀ c, cs.head? = some c → p c = false
  last : ∀ c, cs.getLast? = some c → p c = false

theorem head?_dropWhile (p : Char → Bool) (cs : List Char) :
    ∀ c, (cs.dropWhile p).head? = some c → p c = false := by
  intro c hc
  induction cs with
  | nil => simp at hc
  | cons d cs ih =>
    by_cases hd : p d = true
    · rw [List.dropWhile_cons_of_pos hd] at hc
      exact ih hc
    · rw [List.dropWhile_cons_of_neg hd] at hc
      simp at hc
      subst hc
      simpa using hd

theorem exists_dropWhile (p : Char → Bool) (cs : List Char) :
    ∃ before, (∀ c ∈ before, p c = true) ∧ cs = before ++ cs.dropWhile p :=
  ⟨cs.takeWhile p, List.all_eq_true.mp List.all_takeWhile, List.takeWhile_append_dropWhile.symm⟩

theorem exists_dropEndWhile (p : Char → Bool) (cs : List Char) :
    ∃ after, (∀ c ∈ after, p c = true) ∧ cs = dropEndWhile p cs ++ after := by
  obtain ⟨after, hafter, hcs⟩ := exists_dropWhile p cs.reverse
  refine ⟨after.reverse, fun c hc => hafter c (List.mem_reverse.mp hc), ?_⟩
  rw [dropEndWhile, ← List.reverse_append, ← hcs, List.reverse_reverse]

theorem trimmed_trimWhile (p : Char → Bool) (cs : List Char) : Trimmed p (trimWhile p cs) := by
  constructor
  · intro c hc
    -- the end was cut from what begins with `c`
    obtain ⟨after, -, hcs⟩ := exists_dropEndWhile p (cs.dropWhile p)
    apply head?_dropWhile p cs
    rw [hcs, List.head?_append, ← trimWhile, hc]
    rfl
  · intro c hc
    rw [trimWhile, dropEndWhile, List.getLast?_reverse] at hc
    exact head?_dropWhile p _ c hc

theorem exists_trimWhile (p : Char → Bool) (cs : List Char) :
    ∃ before after, (∀ c ∈ before, p c = true) ∧ (∀ c ∈ after, p c = true) ∧
      cs = before ++ trimWhile p cs ++ after := by
  obtain ⟨before, hbefore, hcs⟩ := exists_dropWhile p cs
  obtain ⟨after, hafter, hdrop⟩ := exists_dropEndWhile p (cs.dropWhile p)
  refine ⟨before, after, hbefore, hafter, ?_⟩
  rw [List.append_assoc, trimWhile, ← hdrop, ← hcs]

theorem dropEndWhile_append {p : Char → Bool} {after : List Char} (h : ∀ c ∈ after, p c = true)
    (cs : List Char) : dropEndWhile p (cs ++ after) = dropEndWhile p cs := by
  rw [dropEndWhile, List.reverse_append, List.dropWhile_append_of_pos, dropEndWhile]
  intro c hc
  exact h c (List.mem_reverse.mp hc)

theorem trimWhile_append {p : Char → Bool} {before cs after : List Char}
    (hbefore : ∀ c ∈ before, p c = true) (hcs : Trimmed p cs) (hafter : ∀ c ∈ after, p c = true) :
    trimWhile p (before ++ cs ++ after) = cs := by
  rw [trimWhile, List.append_assoc, List.dropWhile_append_of_pos hbefore]
  cases cs with
  | nil =>
    have hdrop : (after ++ []).dropWhile p = [] := List.dropWhile_append_of_pos hafter
    rw [List.append_nil] at hdrop
    rw [List.nil_append, hdrop]
    rfl
  | cons c cs =>
    have hhead : ((c :: cs) ++ after).dropWhile p = (c :: cs) ++ after := dropWhile_eq_self hcs.first
    rw [hhead, dropEndWhile_append hafter, dropEndWhile_eq_self hcs.last]

theorem trimWhile_trimWhile (p : Char → Bool) (cs : List Char) :
    trimWhile p (trimWhile p cs) = trimWhile p cs :=
  trimWhile_eq_self (trimmed_trimWhile p cs).first (trimmed_trimWhile p cs).last

end Reshape.Text
