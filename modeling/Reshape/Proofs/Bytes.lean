/-
  Reshape.Proofs.Bytes: characters survive being encoded, in blocks of any sizes.

  A character is spelled with one to four bytes. Where a block of bytes ends inside a character, what is
  there of it is carried over to the next block.
  - `spells_encodeChar`: a character is encoded as a spelling of it.
  - `Spells.decodeAt_append`, `Part.decodeAt`: a spelling is decoded to its character, and a part of one is
    left unfinished.
  - `decodeBlocks_encode`: so a text is decoded again, however its bytes are cut into blocks.
-/

import Reshape.Text.Utf8

namespace Reshape.Text.Utf8

/-- The bytes are those of the code point. -/
inductive Spells : Nat → List UInt8 → Prop where
  | one {a : UInt8} : a.toNat < 0x80 → Spells a.toNat [a]
  | two {a b : UInt8} : 0xC2 ≤ a.toNat → a.toNat < 0xE0 → continues b = true →
      Spells (a.toNat % 0x20 * 0x40 + low b) [a, b]
  | three {a b c : UInt8} : 0xE0 ≤ a.toNat → a.toNat < 0xF0 → second a b = true → continues c = true →
      Spells (a.toNat % 0x10 * 0x1000 + low b * 0x40 + low c) [a, b, c]
  | four {a b c d : UInt8} : 0xF0 ≤ a.toNat → a.toNat < 0xF5 → second a b = true → continues c = true →
      continues d = true → Spells (a.toNat % 0x8 * 0x40000 + low b * 0x1000 + low c * 0x40 + low d) [a, b, c, d]

/-- The bytes begin a spelling, and do not end it. -/
inductive Part : List UInt8 → Prop where
  | one {a : UInt8} : 0xC2 ≤ a.toNat → a.toNat < 0xF5 → Part [a]
  | two {a b : UInt8} : 0xE0 ≤ a.toNat → a.toNat < 0xF5 → second a b = true → Part [a, b]
  | three {a b c : UInt8} : 0xF0 ≤ a.toNat → a.toNat < 0xF5 → second a b = true → continues c = true → Part [a, b, c]

theorem toNat_byte {n : Nat} (h : n < 256) : (UInt8.ofNat n).toNat = n := UInt8.toNat_ofNat_of_lt' h

/-- What a byte that continues a character stands for. -/
theorem tail_byte (n : Nat) : (UInt8.ofNat (0x80 + n % 0x40)).toNat = 0x80 + n % 0x40 ∧
    continues (UInt8.ofNat (0x80 + n % 0x40)) = true ∧ low (UInt8.ofNat (0x80 + n % 0x40)) = n % 0x40 := by
  have hvalue : (UInt8.ofNat (0x80 + n % 0x40)).toNat = 0x80 + n % 0x40 := toNat_byte (by omega)
  refine ⟨hvalue, ?_, ?_⟩
  · simp only [continues, Bool.and_eq_true, decide_eq_true_eq, UInt8.le_iff_toNat_le, UInt8.lt_iff_toNat_lt, hvalue]
    exact ⟨Nat.le_add_right .., by show 0x80 + n % 0x40 < 0xC0; omega⟩
  · rw [low, hvalue]
    omega

theorem second_iff (a b : UInt8) : second a b = true ↔ continues b = true ∧ (a.toNat = 0xE0 → 0xA0 ≤ b.toNat) ∧
    (a.toNat = 0xED → b.toNat < 0xA0) ∧ (a.toNat = 0xF0 → 0x90 ≤ b.toNat) ∧ (a.toNat = 0xF4 → b.toNat < 0x90) := by
  simp only [second, Bool.and_eq_true, Bool.or_eq_true, bne_iff_ne, ne_eq, decide_eq_true_eq, ← UInt8.toNat_inj,
    UInt8.le_iff_toNat_le, UInt8.lt_iff_toNat_lt, and_assoc, ← Decidable.imp_iff_not_or]
  rfl

theorem spells_encodeChar (c : Char) : Spells c.toNat (encodeChar c) := by
  have hvalid : c.toNat < 0xD800 ∨ 0xDFFF < c.toNat ∧ c.toNat < 0x110000 := c.valid
  unfold encodeChar
  generalize c.toNat = n at *
  dsimp only
  split
  · have ha : (UInt8.ofNat n).toNat = n := toNat_byte (by omega)
    have hspells : Spells (UInt8.ofNat n).toNat [UInt8.ofNat n] := .one (by omega)
    rwa [ha] at hspells
  split
  · have ha : (UInt8.ofNat (0xC0 + n / 0x40)).toNat = 0xC0 + n / 0x40 := toNat_byte (by omega)
    obtain ⟨-, hb, hblow⟩ := tail_byte n
    generalize UInt8.ofNat (0xC0 + n / 0x40) = a, UInt8.ofNat (0x80 + n % 0x40) = b at *
    have hvalue : n = a.toNat % 0x20 * 0x40 + low b := by omega
    rw [hvalue]
    exact .two (by omega) (by omega) hb
  split
  · have ha : (UInt8.ofNat (0xE0 + n / 0x1000)).toNat = 0xE0 + n / 0x1000 := toNat_byte (by omega)
    obtain ⟨hb, hbtail, hblow⟩ := tail_byte (n / 0x40)
    obtain ⟨-, hc, hclow⟩ := tail_byte n
    generalize UInt8.ofNat (0xE0 + n / 0x1000) = a, UInt8.ofNat (0x80 + n / 0x40 % 0x40) = b,
      UInt8.ofNat (0x80 + n % 0x40) = c at *
    have hsecond : second a b = true := (second_iff a b).mpr ⟨hbtail, by omega, by omega, by omega, by omega⟩
    have hvalue : n = a.toNat % 0x10 * 0x1000 + low b * 0x40 + low c := by omega
    rw [hvalue]
    exact .three (by omega) (by omega) hsecond hc
  · have ha : (UInt8.ofNat (0xF0 + n / 0x40000)).toNat = 0xF0 + n / 0x40000 := toNat_byte (by omega)
    obtain ⟨hb, hbtail, hblow⟩ := tail_byte (n / 0x1000)
    obtain ⟨-, hc, hclow⟩ := tail_byte (n / 0x40)
    obtain ⟨-, hd, hdlow⟩ := tail_byte n
    generalize UInt8.ofNat (0xF0 + n / 0x40000) = a, UInt8.ofNat (0x80 + n / 0x1000 % 0x40) = b,
      UInt8.ofNat (0x80 + n / 0x40 % 0x40) = c, UInt8.ofNat (0x80 + n % 0x40) = d at *
    have hsecond : second a b = true := (second_iff a b).mpr ⟨hbtail, by omega, by omega, by omega, by omega⟩
    have hvalue : n = a.toNat % 0x8 * 0x40000 + low b * 0x1000 + low c * 0x40 + low d := by omega
    rw [hvalue]
    exact .four (by omega) (by omega) hsecond hc hd

/-- Which tests a first byte of several passes. -/
theorem lead_byte {a : UInt8} (hlow : 0xC2 ≤ a.toNat) (hhigh : a.toNat < 0xF5) :
    ¬ a < 0x80 ∧ ¬ (a < 0xC2 || 0xF5 ≤ a) = true := by
  simp only [Bool.or_eq_true, decide_eq_true_eq, UInt8.lt_iff_toNat_lt, UInt8.le_iff_toNat_le]
  change ¬ a.toNat < 0x80 ∧ ¬ (a.toNat < 0xC2 ∨ 0xF5 ≤ a.toNat)
  omega

namespace Spells

variable {n : Nat} {bytes : List UInt8}

/-- A spelling is decoded to its character. -/
theorem decodeAt_append (h : Spells n bytes) (pos : Nat) (rest : List UInt8) :
    decodeAt pos (bytes ++ rest) = prepend n (decodeAt (pos + bytes.length) rest) := by
  cases h with
  | @one a ha =>
    have hascii : a < 0x80 := ha
    rw [List.cons_append, decodeAt.eq_def]
    exact if_pos hascii
  | @two a b hlow hhigh hb =>
    obtain ⟨hascii, hlead⟩ := lead_byte hlow (by omega)
    have htwo : a < 0xE0 := hhigh
    rw [List.cons_append, List.cons_append, decodeAt.eq_def]
    dsimp only
    rw [if_neg hascii, if_neg hlead, if_pos htwo, if_pos hb]
    rfl
  | @three a b c hlow hhigh hb hc =>
    obtain ⟨hascii, hlead⟩ := @lead_byte a (by omega) (by omega)
    have htwo : ¬ a < 0xE0 := Nat.not_lt.mpr hlow
    have hthree : a < 0xF0 := hhigh
    rw [List.cons_append, List.cons_append, List.cons_append, decodeAt.eq_def]
    dsimp only
    rw [if_neg hascii, if_neg hlead, if_neg htwo, if_pos hthree, hb, if_pos hc]
    rfl
  | @four a b c d hlow hhigh hb hc hd =>
    obtain ⟨hascii, hlead⟩ := @lead_byte a (by omega) (by omega)
    have htwo : ¬ a < 0xE0 := Nat.not_lt.mpr (Nat.le_trans (by decide) hlow)
    have hthree : ¬ a < 0xF0 := Nat.not_lt.mpr hlow
    rw [List.cons_append, List.cons_append, List.cons_append, List.cons_append, decodeAt.eq_def]
    dsimp only
    rw [if_neg hascii, if_neg hlead, if_neg htwo, if_neg hthree, hb, hc, if_pos hd]
    rfl

/-- What is cut from a spelling is a part of one. -/
theorem part (h : Spells n bytes) {k : Nat} (hpos : 0 < k) (hcut : k < bytes.length) : Part (bytes.take k) := by
  cases h with
  | one ha =>
    change k < 1 at hcut
    omega
  | two hlow hhigh hb =>
    change k < 2 at hcut
    obtain rfl : k = 1 := by omega
    exact .one hlow (by omega)
  | three hlow hhigh hb hc =>
    change k < 3 at hcut
    obtain rfl | rfl : k = 1 ∨ k = 2 := by omega
    · exact .one (by omega) (by omega)
    · exact .two hlow (by omega) hb
  | four hlow hhigh hb hc hd =>
    change k < 4 at hcut
    obtain rfl | rfl | rfl : k = 1 ∨ k = 2 ∨ k = 3 := by omega
    · exact .one (by omega) hhigh
    · exact .two (by omega) hhigh hb
    · exact .three hlow hhigh hb hc

end Spells

/-- A part of a spelling is left for later. -/
theorem Part.decodeAt {bytes : List UInt8} (h : Part bytes) (pos : Nat) :
    decodeAt pos bytes = ([], .unfinished pos bytes) := by
  cases h with
  | @one a hlow hhigh =>
    obtain ⟨hascii, hlead⟩ := lead_byte hlow hhigh
    rw [Utf8.decodeAt.eq_def]
    dsimp only
    rw [if_neg hascii, if_neg hlead, ite_self, ite_self]
  | @two a b hlow hhigh hb =>
    obtain ⟨hascii, hlead⟩ := @lead_byte a (by omega) hhigh
    have htwo : ¬ a < 0xE0 := Nat.not_lt.mpr hlow
    rw [Utf8.decodeAt.eq_def]
    dsimp only
    rw [if_neg hascii, if_neg hlead, if_neg htwo, hb]
    exact ite_self _
  | @three a b c hlow hhigh hb hc =>
    obtain ⟨hascii, hlead⟩ := @lead_byte a (by omega) hhigh
    have htwo : ¬ a < 0xE0 := Nat.not_lt.mpr (Nat.le_trans (by decide) hlow)
    have hthree : ¬ a < 0xF0 := Nat.not_lt.mpr hlow
    rw [Utf8.decodeAt.eq_def]
    dsimp only
    rw [if_neg hascii, if_neg hlead, if_neg htwo, if_neg hthree, hb, hc]
    rfl

/-! ## Texts -/

theorem encode_cons (c : Char) (cs : List Char) : encode (c :: cs) = encodeChar c ++ encode cs := rfl

theorem decodeAt_encodeChar (c : Char) (pos : Nat) (rest : List UInt8) : decodeAt pos (encodeChar c ++ rest) =
    (c :: (decodeAt (pos + (encodeChar c).length) rest).1, (decodeAt (pos + (encodeChar c).length) rest).2) := by
  rw [(spells_encodeChar c).decodeAt_append, prepend, Char.ofNat_toNat]

theorem decodeAt_encode (pos : Nat) (cs : List Char) : decodeAt pos (encode cs) = (cs, .complete) := by
  induction cs generalizing pos with
  | nil => rfl
  | cons c cs ih => rw [encode_cons, decodeAt_encodeChar, ih]

/-- The bytes are decoded to these characters, and what is left is a part of the next one, or nothing. -/
def Leaves (pos : Nat) (bytes : List UInt8) (cs : List Char) (tail : List UInt8) : Prop :=
  decodeAt pos bytes = (cs, .complete) ∧ tail = [] ∨ ∃ place, decodeAt pos bytes = (cs, .unfinished place tail)

theorem Leaves.cons {pos : Nat} {bytes tail : List UInt8} {c : Char} {cs : List Char}
    (h : Leaves (pos + (encodeChar c).length) bytes cs tail) : Leaves pos (encodeChar c ++ bytes) (c :: cs) tail := by
  rcases h with ⟨hread, rfl⟩ | ⟨place, hread⟩
  · exact Or.inl ⟨by rw [decodeAt_encodeChar, hread], rfl⟩
  · exact Or.inr ⟨place, by rw [decodeAt_encodeChar, hread]⟩

/-- What the first bytes of a text leave is a part of its other characters. -/
theorem exists_leaves {front back : List UInt8} {cs : List Char} (h : front ++ back = encode cs) (pos : Nat) :
    ∃ ds es tail, cs = ds ++ es ∧ tail ++ back = encode es ∧ Leaves pos front ds tail := by
  induction cs generalizing front pos with
  | nil =>
    obtain ⟨rfl, rfl⟩ := List.append_eq_nil_iff.mp h
    exact ⟨[], [], [], rfl, rfl, Or.inl ⟨rfl, rfl⟩⟩
  | cons c cs ih =>
    have hafter : ∀ {tail}, front = encodeChar c ++ tail → encode cs = tail ++ back →
        ∃ ds es tail, c :: cs = ds ++ es ∧ tail ++ back = encode es ∧ Leaves pos front ds tail := by
      rintro tail rfl hcs
      obtain ⟨ds, es, tail, rfl, hes, hleaves⟩ := ih hcs.symm (pos + (encodeChar c).length)
      exact ⟨c :: ds, es, tail, rfl, hes, hleaves.cons⟩
    rw [encode_cons] at h
    rcases List.append_eq_append_iff.mp h with ⟨part, hchar, rfl⟩ | ⟨tail, hfront, hcs⟩
    · by_cases hpart : part = []
      · subst hpart
        exact hafter (show front = encodeChar c ++ [] by simpa using hchar.symm) rfl
      · -- the bytes end inside the character
        refine ⟨[], c :: cs, front, rfl, h, ?_⟩
        by_cases hnil : front = []
        · subst hnil
          exact Or.inl ⟨rfl, rfl⟩
        · have hcut : Part (List.take front.length (encodeChar c)) :=
            (spells_encodeChar c).part (List.length_pos_iff.mpr hnil) (by simp [hchar, List.length_pos_iff, hpart])
          rw [hchar, List.take_left] at hcut
          exact Or.inr ⟨pos, hcut.decodeAt pos⟩
    · exact hafter hfront hcs

/-- A text is decoded again from its bytes, however they are cut into blocks. -/
theorem decodeBlocks_encode {carried : List UInt8} {blocks : List (List UInt8)} {cs : List Char}
    (h : carried ++ blocks.flatten = encode cs) : decodeBlocks carried blocks = (cs, none) := by
  induction blocks generalizing carried cs with
  | nil =>
    rw [List.flatten_nil, List.append_nil] at h
    rw [decodeBlocks, h, decodeAt_encode]
    rfl
  | cons block blocks ih =>
    rw [List.flatten_cons, ← List.append_assoc] at h
    obtain ⟨ds, es, tail, rfl, htail, ⟨hread, rfl⟩ | ⟨place, hread⟩⟩ := exists_leaves h 0
    · rw [decodeBlocks, hread]
      dsimp only
      rw [ih htail]
    · rw [decodeBlocks, hread]
      dsimp only
      rw [ih htail]

end Reshape.Text.Utf8
