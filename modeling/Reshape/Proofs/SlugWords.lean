/-
  Reshape.Proofs.SlugWords: slugs are the words of a text in lower case.

  The words of a text are its longest runs of slug characters. A slug is the words of the text in lower
  case with single hyphens between them. Lower case changes no white space and sees nothing of it, so
  that white space around a text is no matter to its words.
  - `exists_words`, `Words.unique`: every text has its words.
  - `lower_padded`: white space around a text in lower case.
  - `Words.slug_eq`: the slug of a text from its words.
  - `joined_mem_pattern`: words with single hyphens between them are what the pattern of slugs matches.
  - `slug_is_made_of_words`: slugs, slugs of slugs and slugs of stripped texts.
-/

import Mathlib.Computability.Language
import Reshape.Converter.Builtin

namespace Reshape.Text

open Computability

/-! ## Words -/

/-- No character that is in slugs. -/
def IsGap (cs : List Char) : Prop := ∀ c ∈ cs, isSlugChar c = false

structure IsWord (cs : List Char) : Prop where
  ne_nil : cs ≠ []
  chars : ∀ c ∈ cs, isSlugChar c = true

/-- The words of a text in their order: the longest runs of slug characters, and gaps around them. -/
inductive Words : List Char → List (List Char) → Prop where
  | gap {gap : List Char} : IsGap gap → Words gap []
  | word {gap w rest : List Char} {ws : List (List Char)} : IsGap gap → IsWord w →
      (∀ c, rest.head? = some c → isSlugChar c = false) → Words rest ws → Words (gap ++ (w ++ rest)) (w :: ws)

variable {cs gap w rest before after : List Char} {ws ws' : List (List Char)} {c : Char}

theorem Words.isWord (h : Words cs ws) : ∀ w ∈ ws, IsWord w := by
  induction h with
  | gap => simp
  | word _ hw _ _ ih => simpa using ⟨hw, ih⟩

theorem IsGap.append (h : IsGap before) (h' : IsGap after) : IsGap (before ++ after) := by
  intro c hc
  rcases List.mem_append.mp hc with hc | hc
  · exact h c hc
  · exact h' c hc

theorem isGap_singleton (h : isSlugChar c = false) : IsGap [c] := by
  intro d hd
  rw [List.mem_singleton.mp hd]
  exact h

theorem Words.after_gap (h : Words cs ws) (hgap : IsGap before) : Words (before ++ cs) ws := by
  cases h with
  | gap hcs => exact .gap (hgap.append hcs)
  | word hbefore hw hrest h =>
    rw [← List.append_assoc]
    exact .word (hgap.append hbefore) hw hrest h

theorem Words.before_gap (h : Words cs ws) (hgap : IsGap after) : Words (cs ++ after) ws := by
  induction h with
  | gap hcs => exact .gap (hcs.append hgap)
  | @word gap w rest ws hbefore hw hrest _ ih =>
    rw [List.append_assoc, List.append_assoc]
    refine .word hbefore hw ?_ ih
    intro c hc
    cases rest with
    | nil => exact hgap c (List.mem_of_mem_head? hc)
    | cons d rest => exact hrest c hc

/-- A slug character before a text begins a new word, or makes its first one longer. -/
theorem Words.cons_word (hc : isSlugChar c = true) (h : Words cs ws) : ∃ ws', Words (c :: cs) ws' := by
  have hnew : ∀ {rest ws}, (∀ d, rest.head? = some d → isSlugChar d = false) → Words rest ws →
      Words (c :: rest) ([c] :: ws) := by
    intro rest ws hrest h
    exact @Words.word [] [c] rest ws (by simp [IsGap]) ⟨by simp, by simpa using hc⟩ hrest h
  have hhead : ∀ {gap : List Char} {rest : List Char}, IsGap gap → gap ≠ [] →
      ∀ d, (gap ++ rest).head? = some d → isSlugChar d = false := by
    intro gap rest hgap hne d hd
    rw [List.head?_append_of_ne_nil _ hne] at hd
    exact hgap d (List.mem_of_mem_head? hd)
  cases h with
  | gap hgap => exact ⟨_, hnew (fun d hd => hgap d (List.mem_of_mem_head? hd)) (.gap hgap)⟩
  | @word gap w rest ws hgap hw hrest h =>
    by_cases hne : gap = []
    · subst hne
      exact ⟨(c :: w) :: ws, @Words.word [] (c :: w) rest ws hgap ⟨by simp, by simpa using ⟨hc, hw.chars⟩⟩ hrest h⟩
    · exact ⟨_, hnew (hhead hgap hne) (.word hgap hw hrest h)⟩

theorem exists_words (cs : List Char) : ∃ ws, Words cs ws := by
  induction cs with
  | nil => exact ⟨[], .gap (by simp [IsGap])⟩
  | cons c cs ih =>
    obtain ⟨ws, h⟩ := ih
    by_cases hc : isSlugChar c = true
    · exact h.cons_word hc
    · exact ⟨ws, h.after_gap (isGap_singleton (by simpa using hc))⟩

/-- The part of a text before the first character that is not in `p` is found again. -/
theorem append_inj_of_head {p : Char → Bool} {as bs cs ds : List Char} (has : ∀ c ∈ as, p c = true)
    (hbs : ∀ c, bs.head? = some c → p c = false) (hcs : ∀ c ∈ cs, p c = true)
    (hds : ∀ c, ds.head? = some c → p c = false) (h : as ++ bs = cs ++ ds) : as = cs ∧ bs = ds := by
  have hdrop := congrArg (List.dropWhile p) h
  rw [List.dropWhile_append_of_pos has, List.dropWhile_append_of_pos hcs, dropWhile_eq_self hbs,
    dropWhile_eq_self hds] at hdrop
  subst hdrop
  exact ⟨List.append_cancel_right h, rfl⟩

theorem IsWord.not_isGap (hw : IsWord w) : ¬ IsGap (gap ++ (w ++ rest)) := by
  intro h
  obtain ⟨c, w, rfl⟩ := List.exists_cons_of_ne_nil hw.ne_nil
  have hc := h c (by simp)
  rw [hw.chars c (by simp)] at hc
  cases hc

theorem IsWord.head?_append (hw : IsWord w) : ∀ c, (w ++ rest).head? = some c → isSlugChar c = true := by
  intro c hc
  rw [List.head?_append_of_ne_nil _ hw.ne_nil] at hc
  exact hw.chars c (List.mem_of_mem_head? hc)

theorem Words.unique (h : Words cs ws) (h' : Words cs ws') : ws = ws' := by
  induction h generalizing ws' with
  | gap hgap =>
    cases h' with
    | gap => rfl
    | word _ hw => exact absurd hgap hw.not_isGap
  | @word gap w rest ws hgap hw hrest _ ih =>
    generalize htext : gap ++ (w ++ rest) = text at h'
    cases h' with
    | gap hgap' => exact absurd (htext ▸ hgap') hw.not_isGap
    | @word gap' w' rest' ws' hgap' hw' hrest' h' =>
      have hgaps : gap = gap' ∧ w ++ rest = w' ++ rest' := by
        refine @append_inj_of_head (fun c => !isSlugChar c) _ _ _ _ ?_ ?_ ?_ ?_ htext
        · exact fun c hc => by simp [hgap c hc]
        · exact fun c hc => by simp [hw.head?_append c hc]
        · exact fun c hc => by simp [hgap' c hc]
        · exact fun c hc => by simp [hw'.head?_append c hc]
      obtain ⟨rfl, rfl⟩ := append_inj_of_head hw.chars hrest hw'.chars hrest' hgaps.2
      rw [ih h']

/-! ## White space in lower case -/

/-- What is true of all characters in the table of white space is true of every blank. -/
theorem forall_blank {p : Char → Bool}
    (h : (blankRanges.all fun r => (List.range' r.1 (r.2 + 1 - r.1)).all fun n => p (Char.ofNat n)) = true)
    (hc : isBlank c = true) : p c = true := by
  obtain ⟨r, hr, hfirst, hlast⟩ := inRanges_iff.mp hc
  have hrange := List.all_eq_true.mp h r hr
  have hn : c.toNat ∈ List.range' r.1 (r.2 + 1 - r.1) := by
    rw [List.mem_range'_1]
    omega
  simpa using List.all_eq_true.mp hrange c.toNat hn

/-- White space is none of the characters that matter to case or to slugs. -/
structure Plain (c : Char) : Prop where
  lower : lowerChar c = [c]
  ne_sigma : c ≠ Casing.capitalSigma
  cased : Casing.isCased c = false
  ignorable : Casing.isIgnorable c = false
  slug : isSlugChar c = false

theorem plain_of_isBlank (h : isBlank c = true) : Plain c := by
  have hplain := @forall_blank c (fun c => lowerChar c == [c] && c != Casing.capitalSigma &&
    !Casing.isCased c && !Casing.isIgnorable c && !isSlugChar c) (by decide +kernel) h
  simp only [Bool.and_eq_true, beq_iff_eq, bne_iff_ne, Bool.not_eq_true'] at hplain
  obtain ⟨⟨⟨⟨hlower, hsigma⟩, hcased⟩, hignorable⟩, hslug⟩ := hplain
  exact ⟨hlower, hsigma, hcased, hignorable, hslug⟩

theorem startsCased_cons (c : Char) (cs : List Char) :
    Casing.startsCased (c :: cs) = if Casing.isIgnorable c then Casing.startsCased cs else Casing.isCased c := by
  unfold Casing.startsCased
  by_cases hc : Casing.isIgnorable c = true
  · rw [List.dropWhile_cons_of_pos hc, if_pos hc]
  · rw [List.dropWhile_cons_of_neg hc, if_neg hc]

theorem startsCased_blanks (h : ∀ c ∈ before, isBlank c = true) : Casing.startsCased before = false := by
  cases before with
  | nil => rfl
  | cons c before =>
    have hc := plain_of_isBlank (h c (by simp))
    simp [startsCased_cons, hc.ignorable, hc.cased]

theorem startsCased_append (hafter : Casing.startsCased after = false) (cs : List Char) :
    Casing.startsCased (cs ++ after) = Casing.startsCased cs := by
  induction cs with
  | nil => exact hafter
  | cons c cs ih => rw [List.cons_append, startsCased_cons, startsCased_cons, ih]

/-- Of what stands before a text only the nearest case matters. -/
theorem lowerAfter_congr (h : Casing.startsCased before = Casing.startsCased after) (cs : List Char) :
    lowerAfter before cs = lowerAfter after cs := by
  induction cs generalizing before after with
  | nil => rfl
  | cons c cs ih =>
    have hnext : Casing.startsCased (c :: before) = Casing.startsCased (c :: after) := by
      rw [startsCased_cons, startsCased_cons, h]
    rw [lowerAfter, lowerAfter, h, ih hnext]

theorem lowerAfter_blanks (h : ∀ c ∈ gap, isBlank c = true) (before cs : List Char) :
    lowerAfter before (gap ++ cs) = gap ++ lowerAfter (gap.reverse ++ before) cs := by
  induction gap generalizing before with
  | nil => rfl
  | cons c gap ih =>
    have hc := plain_of_isBlank (h c (by simp))
    rw [List.cons_append, lowerAfter, if_neg hc.ne_sigma, hc.lower, ih fun d hd => h d (by simp [hd])]
    simp

theorem lowerAfter_append_blanks (h : ∀ c ∈ after, isBlank c = true) (before cs : List Char) :
    lowerAfter before (cs ++ after) = lowerAfter before cs ++ after := by
  induction cs generalizing before with
  | nil =>
    have hblanks := lowerAfter_blanks h before []
    simpa [lowerAfter] using hblanks
  | cons c cs ih =>
    rw [List.cons_append, lowerAfter, lowerAfter, ih, startsCased_append (startsCased_blanks h), List.append_assoc]

/-- White space around a text stays what it is, and the text in it becomes what it becomes alone. -/
theorem lower_padded (hbefore : ∀ c ∈ before, isBlank c = true) (hafter : ∀ c ∈ after, isBlank c = true)
    (cs : List Char) : lower (before ++ cs ++ after) = before ++ lower cs ++ after := by
  have halone : Casing.startsCased (before.reverse ++ []) = Casing.startsCased [] := by
    rw [List.append_nil, startsCased_blanks fun c hc => hbefore c (List.mem_reverse.mp hc)]
    rfl
  rw [lower, lowerAfter_append_blanks hafter, lowerAfter_blanks hbefore, lowerAfter_congr halone, lower]

theorem Words.lower (h : Words (lower (strip cs)) ws) : Words (lower cs) ws := by
  obtain ⟨before, after, hbefore, hafter, hcs⟩ := exists_trimWhile isBlank cs
  have hgap : ∀ {blanks}, (∀ c ∈ blanks, isBlank c = true) → IsGap blanks :=
    fun hblanks c hc => (plain_of_isBlank (hblanks c hc)).slug
  rw [hcs, lower_padded hbefore hafter]
  exact (h.after_gap (hgap hbefore)).before_gap (hgap hafter)

/-! ## Slugs from words -/

theorem hyphenated_gap (h : IsGap gap) (cs : List Char) : hyphenated true (gap ++ cs) = hyphenated true cs := by
  induction gap with
  | nil => rfl
  | cons c gap ih => simp [hyphenated, h c (by simp), ih fun d hd => h d (by simp [hd])]

theorem hyphenated_word (hw : IsWord w) (inRun : Bool) (cs : List Char) :
    hyphenated inRun (w ++ cs) = w ++ hyphenated false cs := by
  obtain ⟨c, w, rfl⟩ := List.exists_cons_of_ne_nil hw.ne_nil
  have hchars : ∀ d ∈ w, isSlugChar d = true := fun d hd => hw.chars d (by simp [hd])
  have hrest : hyphenated false (w ++ cs) = w ++ hyphenated false cs := by
    clear hw
    induction w with
    | nil => rfl
    | cons d w ih => simp [hyphenated, hchars d (by simp), ih fun e he => hchars e (by simp [he])]
  simp [hyphenated, hw.chars c (by simp), hrest]

/-- At the start of a text a run of other characters is one hyphen. -/
theorem exists_hyphens (cs : List Char) :
    ∃ before, (∀ c ∈ before, c = '-') ∧ hyphenated false cs = before ++ hyphenated true cs := by
  cases cs with
  | nil => exact ⟨[], by simp, rfl⟩
  | cons c cs =>
    by_cases hc : isSlugChar c = true
    · exact ⟨[], by simp, by simp [hyphenated, hc]⟩
    · exact ⟨['-'], by simp, by simp [hyphenated, hc]⟩

/-- In a run of other characters only the words that follow are seen, and maybe a hyphen at the end. -/
theorem Words.hyphenated (h : Words cs ws) :
    ∃ after, (∀ c ∈ after, c = '-') ∧ hyphenated true cs = joined ['-'] ws ++ after := by
  induction h with
  | @gap gap hgap =>
    have hnone := hyphenated_gap hgap []
    rw [List.append_nil] at hnone
    exact ⟨[], by simp, hnone⟩
  | @word gap w rest ws hgap hw hrest h ih =>
    rw [hyphenated_gap hgap, hyphenated_word hw]
    cases rest with
    | nil =>
      have hws : ws = [] := h.unique (.gap (by simp [IsGap]))
      exact ⟨[], by simp, by simp [hws, joined, Text.hyphenated]⟩
    | cons c rest =>
      have hc := hrest c rfl
      obtain ⟨after, hafter, heq⟩ := ih
      have hstep : Text.hyphenated false (c :: rest) = '-' :: (joined ['-'] ws ++ after) := by
        rw [← heq]
        simp [Text.hyphenated, hc]
      rw [hstep]
      by_cases hws : ws = []
      · refine ⟨'-' :: after, by simpa using hafter, ?_⟩
        simp [hws, joined]
      · exact ⟨after, hafter, by simp [joined_cons hws]⟩

theorem isSlugChar_ne_hyphen (h : isSlugChar c = true) : (decide (c = '-')) = false := by
  by_contra hc
  have : c = '-' := by simpa using hc
  subst this
  exact absurd h (by decide)

theorem getLast?_joined (h : ∀ w ∈ ws, IsWord w) :
    ∀ c, (joined ['-'] ws).getLast? = some c → isSlugChar c = true := by
  intro c hc
  induction ws with
  | nil => simp [joined] at hc
  | cons w ws ih =>
    obtain ⟨hw, hwords⟩ := List.forall_mem_cons.mp h
    by_cases hws : ws = []
    · subst hws
      exact hw.chars c (List.mem_of_mem_getLast? hc)
    · have hne : joined ['-'] ws ≠ [] := by
        intro hnil
        rcases joined_eq_nil (by simp) hnil with hnil | hnil
        · exact hws hnil
        · exact (hwords [] (by simp [hnil])).ne_nil rfl
      rw [joined_cons hws, List.getLast?_append_of_ne_nil _ hne] at hc
      exact ih hwords hc

theorem trimmed_joined (h : ∀ w ∈ ws, IsWord w) : Trimmed (· = '-') (joined ['-'] ws) := by
  constructor
  · intro c hc
    cases ws with
    | nil => simp [joined] at hc
    | cons w ws =>
      have hw := h w (by simp)
      apply isSlugChar_ne_hyphen
      by_cases hws : ws = []
      · subst hws
        exact hw.chars c (List.mem_of_mem_head? hc)
      · rw [joined_cons hws, List.append_assoc] at hc
        exact hw.head?_append c hc
  · intro c hc
    exact isSlugChar_ne_hyphen (getLast?_joined h c hc)

/-- The slug of a text is made of the words of the text in lower case. -/
theorem Words.slug_eq (h : Words (Text.lower cs) ws) : slug cs = joined ['-'] ws := by
  obtain ⟨ws', h'⟩ := exists_words (Text.lower (strip cs))
  obtain rfl : ws' = ws := h'.lower.unique h
  obtain ⟨before, hbefore, hstart⟩ := exists_hyphens (Text.lower (strip cs))
  obtain ⟨after, hafter, hend⟩ := h'.hyphenated
  rw [slug, hstart, hend, ← List.append_assoc]
  exact trimWhile_append (by simpa using hbefore) (trimmed_joined h.isWord) (by simpa using hafter)

theorem slug_strip (cs : List Char) : slug (strip cs) = slug cs := by
  rw [slug, slug, strip, strip, trimWhile_trimWhile]

/-! ## Slugs of slugs -/

theorem mem_joined_words (h : ∀ w ∈ ws, IsWord w) (hc : c ∈ joined ['-'] ws) : c = '-' ∨ isSlugChar c = true := by
  rcases mem_of_mem_joined hc with hc | ⟨w, hw, hc⟩
  · exact Or.inl (List.mem_singleton.mp hc)
  · exact Or.inr ((h w hw).chars c hc)

theorem isSlugChar_iff : isSlugChar c = true ↔ 97 ≤ c.toNat ∧ c.toNat ≤ 122 ∨ 48 ≤ c.toNat ∧ c.toNat ≤ 57 := by
  have ha : 'a'.toNat = 97 := rfl
  have hz : 'z'.toNat = 122 := rfl
  have h0 : '0'.toNat = 48 := rfl
  have h9 : '9'.toNat = 57 := rfl
  simp only [isSlugChar, Bool.or_eq_true, Bool.and_eq_true, decide_eq_true_eq, Char.le_def, UInt32.le_iff_toNat_le,
    Char.toNat_val, ha, hz, h0, h9]

theorem lower_joined (h : ∀ w ∈ ws, IsWord w) : lower (joined ['-'] ws) = joined ['-'] ws := by
  refine lower_eq_self fun c hc => ?_
  rcases mem_joined_words h hc with rfl | hc
  · decide
  · rw [isSlugChar_iff] at hc
    have hA : 'A'.toNat = 65 := rfl
    have hZ : 'Z'.toNat = 90 := rfl
    refine ⟨by omega, decide_eq_false fun hupper => ?_⟩
    simp only [UInt32.le_iff_toNat_le, ge_iff_le, Char.toNat_val, hA, hZ] at hupper
    omega

theorem words_joined (h : ∀ w ∈ ws, IsWord w) : Words (joined ['-'] ws) ws := by
  induction ws with
  | nil => exact .gap (by simp [IsGap, joined])
  | cons w ws ih =>
    obtain ⟨hw, hwords⟩ := List.forall_mem_cons.mp h
    have hhyphen : isSlugChar '-' = false := by decide
    by_cases hws : ws = []
    · subst hws
      have hlast := @Words.word [] w [] [] (by simp [IsGap]) hw (by simp) (.gap (by simp [IsGap]))
      simpa [joined] using hlast
    · have hrest := (ih hwords).after_gap (isGap_singleton hhyphen)
      rw [joined_cons hws, List.append_assoc]
      exact @Words.word [] w _ ws (by simp [IsGap]) hw (by simp [hhyphen]) hrest

theorem slug_slug (cs : List Char) : slug (slug cs) = slug cs := by
  obtain ⟨ws, h⟩ := exists_words (lower cs)
  rw [h.slug_eq]
  apply Words.slug_eq
  rw [lower_joined h.isWord]
  exact words_joined h.isWord

/-! ## The pattern of slugs -/

/-- `[a-z0-9]` -/
def slugLetter : Language Char := {w | ∃ c, isSlugChar c = true ∧ w = [c]}

/-- `[a-z0-9]+` -/
def slugWord : Language Char := slugLetter * slugLetter∗

/-- `[a-z0-9]+(-[a-z0-9]+)*` -/
def slugPattern : Language Char := slugWord * ({['-']} * slugWord)∗

theorem IsWord.mem_slugWord (hw : IsWord w) : w ∈ slugWord := by
  obtain ⟨c, w, rfl⟩ := List.exists_cons_of_ne_nil hw.ne_nil
  refine Language.append_mem_mul (show [c] ∈ slugLetter from ⟨c, hw.chars c (by simp), rfl⟩) ?_
  refine Language.mem_kstar.mpr ⟨w.map fun d => [d], (List.flatMap_singleton' w).symm, ?_⟩
  intro l hl
  obtain ⟨d, hd, rfl⟩ := List.mem_map.mp hl
  exact ⟨d, hw.chars d (by simp [hd]), rfl⟩

theorem joined_eq_flatten (w : List Char) (ws : List (List Char)) :
    joined ['-'] (w :: ws) = w ++ (ws.map fun v => '-' :: v).flatten := by
  induction ws generalizing w with
  | nil => simp [joined]
  | cons v ws ih => simp [joined, ih v]

theorem joined_mem_pattern (h : ∀ w ∈ ws, IsWord w) : joined ['-'] ws = [] ∨ joined ['-'] ws ∈ slugPattern := by
  cases ws with
  | nil => exact Or.inl rfl
  | cons w ws =>
    right
    rw [joined_eq_flatten]
    refine Language.append_mem_mul (h w (by simp)).mem_slugWord (Language.mem_kstar.mpr ⟨_, rfl, ?_⟩)
    intro l hl
    obtain ⟨v, hv, rfl⟩ := List.mem_map.mp hl
    exact Language.append_mem_mul (show ['-'] ∈ ({['-']} : Language Char) from rfl) (h v (by simp [hv])).mem_slugWord

end Text

namespace Builtin

open Text

/-- The slug of any text is the words of the text in lower case with single hyphens between them: it is
empty or matches the pattern of slugs. It is its own slug, and to strip the text first makes no
difference. -/
theorem slug_is_made_of_words (s : String) :
    ∃ ws slug, Words (lower s.toList) ws ∧ (∀ ws', Words (lower s.toList) ws' → ws' = ws) ∧
      onText Text.slug (.str s) = .ok (.str slug) ∧ slug.toList = joined ['-'] ws ∧
      (slug = "" ∨ slug.toList ∈ slugPattern) ∧
      onText Text.slug (.str slug) = .ok (.str slug) ∧
      (onText strip (.str s)).bind (onText Text.slug) = .ok (.str slug) := by
  obtain ⟨ws, h⟩ := exists_words (lower s.toList)
  refine ⟨ws, String.ofList (Text.slug s.toList), h, fun ws' h' => h'.unique h, rfl, ?_, ?_, ?_, ?_⟩
  · rw [String.toList_ofList, h.slug_eq]
  · rw [String.toList_ofList, h.slug_eq]
    refine (joined_mem_pattern h.isWord).imp_left fun hnil => ?_
    rw [hnil]
  · show Except.ok (Value.str _) = _
    rw [String.toList_ofList, slug_slug]
  · show Except.ok (Value.str (String.ofList (Text.slug (String.ofList (strip s.toList)).toList))) = _
    rw [String.toList_ofList, slug_strip]

end Builtin

end Reshape
