/-
  Reshape.Proofs.RuleText: which texts are rules, and of which rules.

  - `splitAt_eq_iff`: cutting a text at a separator is the inverse of joining pieces without it.
  - `arraySuffix_eq_iff`: one `[]` is taken off the end of a target if there is one.
  - `parse_eq_ok_iff`: a text is read as a rule if and only if it is the text of that rule, no
    segment holds a dot or a colon, and the target holds no colon and is known.
  - `exists_parse_iff`: what a text must look like to be read at all.
  - `text_is_read_back`: which rules are read back from their own text; every text that is read is the text
    of what is read from it.
-/

import Mathlib.Data.List.Infix
import Reshape.Rule

namespace Reshape

namespace Text

theorem splitAt_eq_iff {sep : Char} {s : String} {parts : List String} :
    splitAt sep s = parts ↔ parts ≠ [] ∧ (∀ p ∈ parts, sep ∉ p.toList) ∧
      s.toList = joined [sep] (parts.map String.toList) := by
  unfold splitAt
  constructor
  · rintro rfl
    refine ⟨by simpa using pieces_ne_nil sep s.toList, ?_, ?_⟩
    · intro p hp
      obtain ⟨q, hq, rfl⟩ := List.mem_map.mp hp
      rw [String.toList_ofList]
      exact not_mem_of_mem_pieces hq
    · rw [List.map_map, show String.toList ∘ String.ofList = id by funext l; simp, List.map_id,
        joined_pieces]
  · intro h
    obtain ⟨hne, hsep, hs⟩ := h
    rw [hs, pieces_joined (by simpa using hne)]
    · rw [List.map_map, show String.ofList ∘ String.toList = id by funext l; simp, List.map_id]
    · intro p hp
      obtain ⟨q, hq, rfl⟩ := List.mem_map.mp hp
      exact hsep q hq

end Text

namespace Rule

open Text

/-- The characters that follow the target of an array rule. -/
def suffix (isArray : Bool) : List Char := if isArray then ['[', ']'] else []

theorem arraySuffix_eq_iff {cs name : List Char} {isArray : Bool} :
    arraySuffix cs = (name, isArray) ↔
      cs = name ++ suffix isArray ∧ (isArray = false → ¬ ['[', ']'] <:+ name) := by
  unfold arraySuffix
  constructor
  · intro h
    split at h
    · rename_i rest hr
      cases h
      rw [List.reverse_eq_iff] at hr
      exact ⟨by simpa [suffix] using hr, by simp⟩
    · rename_i hno
      cases h
      refine ⟨by simp [suffix], ?_⟩
      intro _ hx
      obtain ⟨rest, rfl⟩ := hx
      exact hno rest.reverse (by simp)
  · intro hx
    obtain ⟨rfl, hno⟩ := hx
    cases isArray with
    | true => simp [suffix]
    | false =>
      simp only [suffix, Bool.false_eq_true, if_false, List.append_nil]
      split
      · rename_i rest hr
        rw [List.reverse_eq_iff] at hr
        exact absurd ⟨rest.reverse, by simpa using hr.symm⟩ (hno rfl)
      · rfl

/-- The target is one of these nested mappings, or a converter that is known. -/
def TargetKnown (names : List String) (known : String → Bool) (target : String) : Prop :=
  if isNestedName target then target ∈ names else known target = true

/-- Reading cuts a text at its colon, the part before it at its dots, and takes `[]` off the end. -/
theorem parse_eq_ok_iff_pieces {names : List String} {known : String → Bool} {text : String} {r : Rule} :
    parse names known text = .ok r ↔ ∃ path target, splitAt ':' text = [path, target] ∧ path ≠ "" ∧
      splitAt '.' path = r.path ∧ arraySuffix target.toList = (r.target.toList, r.isArray) ∧
      TargetKnown names known r.target := by
  unfold parse TargetKnown
  constructor
  · intro h
    split at h
    · rename_i path target hsplit
      cases hs : arraySuffix target.toList with
      | mk cs isArray =>
        rw [hs] at h
        dsimp only at h
        split at h
        · cases h
        · rename_i hne
          refine ⟨path, target, hsplit, hne, ?_⟩
          split at h
          · rename_i hn
            split at h
            · rename_i hm; cases h
              exact ⟨rfl, by simpa using hs, by rw [if_pos hn]; exact hm⟩
            · cases h
          · rename_i hn
            split at h
            · rename_i hk; cases h
              exact ⟨rfl, by simpa using hs, by rw [if_neg hn]; exact hk⟩
            · cases h
    · cases h
  · intro hx
    obtain ⟨path, target, hsplit, hne, hpath, hs, hknown⟩ := hx
    rw [hsplit]
    simp only [hs, hpath, String.ofList_toList, if_neg hne]
    split at hknown
    · rename_i hn
      rw [if_pos hn, if_pos hknown]
    · rename_i hn
      rw [if_neg hn, if_pos hknown]

/-- A text spells a rule: it is the rule's text, and the rule can be told from it. -/
structure WrittenAs (r : Rule) (text : String) : Prop where
  text_eq : text = r.text
  path_ne : r.path ≠ [] ∧ r.path ≠ [""]
  segments : ∀ s ∈ r.path, '.' ∉ s.toList ∧ ':' ∉ s.toList
  target : ':' ∉ r.target.toList
  scalar : r.isArray = false → ¬ ['[', ']'] <:+ r.target.toList

theorem toList_text (r : Rule) :
    r.text.toList = joined ['.'] (r.path.map String.toList) ++ ':' :: (r.target.toList ++ suffix r.isArray) := by
  unfold text join suffix
  simp only [String.toList_append, String.toList_ofList]
  cases r.isArray <;> simp

/-- A rule is read from its own text. -/
theorem parse_of_writtenAs {names : List String} {known : String → Bool} {text : String} {r : Rule}
    (h : r.WrittenAs text) (ht : TargetKnown names known r.target) : parse names known text = .ok r := by
  obtain ⟨htext, ⟨hpath, hblank⟩, hsegments, htarget, hscalar⟩ := h
  let P := joined ['.'] (r.path.map String.toList)
  let T := r.target.toList ++ suffix r.isArray
  have hcolonP : ':' ∉ P := by
    intro hc
    rcases mem_of_mem_joined hc with hc | ⟨p, hp, hc⟩
    · simp at hc
    · obtain ⟨s, hs, rfl⟩ := List.mem_map.mp hp
      exact (hsegments s hs).2 hc
  have hcolonT : ':' ∉ T := by
    intro hc
    rcases List.mem_append.mp hc with hc | hc
    · exact htarget hc
    · cases hr : r.isArray <;> simp [suffix, hr] at hc
  refine parse_eq_ok_iff_pieces.mpr ⟨String.ofList P, String.ofList T, ?_, ?_, ?_, ?_, ht⟩
  · rw [splitAt_eq_iff]
    refine ⟨by simp, by simpa using ⟨hcolonP, hcolonT⟩, ?_⟩
    rw [htext, toList_text]
    simp [joined, P, T]
  · rw [ne_eq, ← String.toList_eq_nil_iff, String.toList_ofList]
    intro hnil
    rcases joined_eq_nil (by simp) hnil with h | h
    · exact hpath (by simpa using h)
    · obtain ⟨s, hs, hnil⟩ := List.map_eq_singleton_iff.mp h
      exact hblank (by rw [hs, String.toList_eq_nil_iff.mp hnil])
  · rw [splitAt_eq_iff]
    exact ⟨hpath, fun s hs => (hsegments s hs).1, by simp [P]⟩
  · rw [String.toList_ofList]
    exact arraySuffix_eq_iff.mpr ⟨rfl, hscalar⟩

/-- What is read from a text is a rule with that text. -/
theorem writtenAs_of_parse {names : List String} {known : String → Bool} {text : String} {r : Rule}
    (h : parse names known text = .ok r) : r.WrittenAs text ∧ TargetKnown names known r.target := by
  obtain ⟨path, target, hsplit, hne, hpath, hsuffix, hknown⟩ := parse_eq_ok_iff_pieces.mp h
  obtain ⟨-, hcolons, htext⟩ := splitAt_eq_iff.mp hsplit
  obtain ⟨hpathne, hdots, hpath⟩ := splitAt_eq_iff.mp hpath
  obtain ⟨htarget, hscalar⟩ := arraySuffix_eq_iff.mp hsuffix
  refine ⟨⟨?_, ⟨hpathne, ?_⟩, ?_, ?_, hscalar⟩, hknown⟩
  · rw [← String.toList_inj, toList_text, htext, ← htarget, ← hpath]
    simp [joined]
  · intro hblank
    rw [hblank] at hpath
    exact hne (String.toList_inj.mp hpath)
  · intro s hs
    refine ⟨hdots s hs, fun hc => hcolons path (by simp) ?_⟩
    rw [hpath]
    exact mem_joined_of_mem (List.mem_map_of_mem hs) hc
  · intro hc
    refine hcolons target (by simp) ?_
    rw [htarget]
    exact List.mem_append_left _ hc

theorem parse_eq_ok_iff {names : List String} {known : String → Bool} {text : String} {r : Rule} :
    parse names known text = .ok r ↔ r.WrittenAs text ∧ TargetKnown names known r.target :=
  ⟨writtenAs_of_parse, fun ⟨h, ht⟩ => parse_of_writtenAs h ht⟩

/-- A text spells one rule only. -/
theorem WrittenAs.unique {r r' : Rule} {text : String} (h : r.WrittenAs text) (h' : r'.WrittenAs text) :
    r = r' := by
  let names := [r.target, r'.target]
  have ht : TargetKnown names (fun _ => true) r.target := by
    unfold TargetKnown
    split <;> simp [names]
  have ht' : TargetKnown names (fun _ => true) r'.target := by
    unfold TargetKnown
    split <;> simp [names]
  have hparse := parse_of_writtenAs h ht
  rw [parse_of_writtenAs h' ht'] at hparse
  exact (Except.ok.inj hparse).symm

/-- A text that is a rule for these nested mappings and converters: it holds one colon, something
before it, and after it a known target, from whose end one `[]` is taken if there is one. -/
def IsRuleText (names : List String) (known : String → Bool) (text : String) : Prop :=
  ∃ path target name : String, text = path ++ ":" ++ target ∧ ':' ∉ path.toList ∧ ':' ∉ target.toList ∧
    path ≠ "" ∧ (target = name ++ "[]" ∨ target = name ∧ ¬ ['[', ']'] <:+ name.toList) ∧
    TargetKnown names known name

theorem exists_parse_iff {names : List String} {known : String → Bool} {text : String} :
    (∃ r, parse names known text = .ok r) ↔ IsRuleText names known text := by
  constructor
  · intro h
    obtain ⟨r, hr⟩ := h
    obtain ⟨path, target, hsplit, hne, -, hsuffix, hknown⟩ := parse_eq_ok_iff_pieces.mp hr
    obtain ⟨-, hcolons, htext⟩ := splitAt_eq_iff.mp hsplit
    obtain ⟨htarget, hscalar⟩ := arraySuffix_eq_iff.mp hsuffix
    refine ⟨path, target, r.target, ?_, hcolons path (by simp), hcolons target (by simp), hne, ?_, hknown⟩
    · rw [← String.toList_inj, htext]
      simp [joined]
    · cases ha : r.isArray with
      | true =>
        rw [ha] at htarget
        exact Or.inl (by rw [← String.toList_inj, htarget]; simp [suffix])
      | false =>
        rw [ha] at htarget
        exact Or.inr ⟨by rw [← String.toList_inj, htarget]; simp [suffix], hscalar ha⟩
  · intro h
    obtain ⟨path, target, name, rfl, hpath, htarget, hne, hname, hknown⟩ := h
    have hsplit : splitAt ':' (path ++ ":" ++ target) = [path, target] := by
      rw [splitAt_eq_iff]
      exact ⟨by simp, by simpa using ⟨hpath, htarget⟩, by simp [joined]⟩
    rcases hname with hname | ⟨hname, hscalar⟩
    · refine ⟨⟨splitAt '.' path, name, true⟩,
        parse_eq_ok_iff_pieces.mpr ⟨path, target, hsplit, hne, rfl, ?_, hknown⟩⟩
      exact arraySuffix_eq_iff.mpr ⟨by simp [hname, suffix], by simp⟩
    · refine ⟨⟨splitAt '.' path, name, false⟩,
        parse_eq_ok_iff_pieces.mpr ⟨path, target, hsplit, hne, rfl, ?_, hknown⟩⟩
      exact arraySuffix_eq_iff.mpr ⟨by simp [hname, suffix], fun _ => hscalar⟩

/-- Of the nested mappings it matters only which there are. -/
theorem targetKnown_congr {names names' : List String} (h : ∀ n, n ∈ names ↔ n ∈ names')
    {known : String → Bool} {target : String} :
    TargetKnown names known target ↔ TargetKnown names' known target := by
  simp only [TargetKnown, h]

theorem isRuleText_congr {names names' : List String} (h : ∀ n, n ∈ names ↔ n ∈ names')
    {known : String → Bool} {text : String} :
    IsRuleText names known text ↔ IsRuleText names' known text := by
  simp only [IsRuleText, targetKnown_congr h]

/-! ## Rules and their texts -/

/-- A rule is read back from its text if and only if the text shows where its segments and its target end: there
is a path, and it is more than an empty segment, no segment holds a dot or a colon, the target holds no colon and
ends in `[]` in an array rule only; and the target is known. What is read from a text has that text. -/
theorem text_is_read_back (names : List String) (registry : Registry) :
    (∀ r : Rule, parse names registry.has r.text = .ok r ↔
      r.path ≠ [] ∧ r.path ≠ [""] ∧ (∀ s ∈ r.path, '.' ∉ s.toList ∧ ':' ∉ s.toList) ∧ ':' ∉ r.target.toList ∧
        (['[', ']'] <:+ r.target.toList → r.isArray = true) ∧
        if isNestedName r.target then r.target ∈ names else r.target ∈ registry.names) ∧
    ∀ text r, parse names registry.has text = .ok r → r.text = text := by
  refine ⟨fun r => ?_, fun text r h => (writtenAs_of_parse h).1.text_eq.symm⟩
  have hknown : TargetKnown names registry.has r.target ↔
      if isNestedName r.target then r.target ∈ names else r.target ∈ registry.names := by
    unfold TargetKnown
    rw [Registry.mem_names]
  rw [parse_eq_ok_iff, hknown]
  constructor
  · rintro ⟨⟨-, ⟨hne, hblank⟩, hsegments, htarget, hscalar⟩, hknown⟩
    refine ⟨hne, hblank, hsegments, htarget, fun hsuffix => ?_, hknown⟩
    cases ha : r.isArray with
    | true => rfl
    | false => exact absurd hsuffix (hscalar ha)
  · rintro ⟨hne, hblank, hsegments, htarget, harray, hknown⟩
    refine ⟨⟨rfl, ⟨hne, hblank⟩, hsegments, htarget, fun ha hsuffix => ?_⟩, hknown⟩
    rw [harray hsuffix] at ha
    cases ha

/-- A converter with brackets at the end of its name, and one without. -/
def bracketed : Registry := ⟨[("x", fun v => .ok v), ("x[]", fun v => .ok v)]⟩

/-- Of two pairs of brackets one belongs to the name. Of one pair none does, so that a rule for a single value
cannot name the converter with brackets. -/
theorem doubled_brackets_are_read_back : (⟨["", "a"], "x[]", true⟩ : Rule).text = ".a:x[][]" ∧
    parse [] bracketed.has ".a:x[][]" = .ok ⟨["", "a"], "x[]", true⟩ ∧
    parse [] bracketed.has (⟨["a"], "x[]", false⟩ : Rule).text ≠ .ok ⟨["a"], "x[]", false⟩ := by
  have htext : (⟨["", "a"], "x[]", true⟩ : Rule).text = ".a:x[][]" := by decide
  have hknown : "x[]" ∈ bracketed.names := Registry.mem_names.mpr (by decide)
  refine ⟨htext, ?_, fun h => ?_⟩
  · rw [← htext]
    exact ((text_is_read_back [] bracketed).1 _).mpr
      ⟨by decide, by decide, by decide, by decide, by decide, by rwa [if_neg (by decide)]⟩
  · obtain ⟨-, -, -, -, harray, -⟩ := ((text_is_read_back [] bracketed).1 _).mp h
    cases harray (by decide)

end Rule

end Reshape
