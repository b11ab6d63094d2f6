/-
  Reshape.Text.Casing: lower and upper case of whole texts.

  Case is mapped character by character, one character giving one or several, with one exception:
  a capital sigma at the end of a word has a form of its own. It stands at the end of a word when
  the nearest character before it that case rules do not look past has a case, and the nearest
  such character after it has none.
  - `lower_eq_self`: a text of lower-case ASCII letters, digits and hyphens is left alone.
-/

import Reshape.Text.Ranges
import Reshape.Text.Casing.Table

namespace Reshape.Text

namespace Casing

def Row.shift? (n : Nat) (r : Row) : Option Nat :=
  if r.1 ≤ n ∧ n ≤ r.2.1 ∧ (n - r.1) % r.2.2.1 = 0 then some (Int.toNat (n + r.2.2.2)) else none

def mapChar (rows : List Row) (expansions : List (Nat × List Nat)) (c : Char) : List Char :=
  match expansions.lookup c.toNat with
  | some ns => ns.map Char.ofNat
  | none => match rows.findSome? (Row.shift? c.toNat) with
    | some n => [Char.ofNat n]
    | none => [c]

def isCased (c : Char) : Bool := inRanges casedRanges c.toNat

def isIgnorable (c : Char) : Bool := inRanges ignorableRanges c.toNat

/-- Whether the first character that matters has a case. -/
def startsCased (cs : List Char) : Bool :=
  match cs.dropWhile isIgnorable with
  | [] => false
  | c :: _ => isCased c

def capitalSigma : Char := 'Σ'

end Casing

open Casing

def lowerChar (c : Char) : List Char :=
  if c.toNat < 0x80 then [if c.isUpper then Char.ofNat (c.toNat + 32) else c]
  else mapChar lowerRows lowerExpansions c

def upperChar (c : Char) : List Char :=
  if c.toNat < 0x80 then [if c.isLower then Char.ofNat (c.toNat - 32) else c]
  else mapChar upperRows upperExpansions c

/-- Lower case of the text whose characters before this point are `before`, nearest first. -/
def lowerAfter (before : List Char) : List Char → List Char
  | [] => []
  | c :: cs =>
    (if c = capitalSigma then [if startsCased before && !startsCased cs then 'ς' else 'σ']
     else lowerChar c) ++ lowerAfter (c :: before) cs

def lower (cs : List Char) : List Char := lowerAfter [] cs

def upper (cs : List Char) : List Char := cs.flatMap upperChar

theorem lowerAfter_eq_self {cs : List Char} (h : ∀ c ∈ cs, c.toNat < 0x80 ∧ c.isUpper = false)
    (before : List Char) : lowerAfter before cs = cs := by
  induction cs generalizing before with
  | nil => rfl
  | cons c cs ih =>
    obtain ⟨hc, hu⟩ := h c (by simp)
    have hs : c ≠ capitalSigma := by
      rintro rfl
      exact absurd hc (by decide)
    rw [lowerAfter, if_neg hs, ih (fun d hd => h d (by simp [hd]))]
    simp [lowerChar, hc, hu]

theorem lower_eq_self {cs : List Char} (h : ∀ c ∈ cs, c.toNat < 0x80 ∧ c.isUpper = false) :
    lower cs = cs := lowerAfter_eq_self h []

end Reshape.Text
