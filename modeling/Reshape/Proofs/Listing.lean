/-
  Reshape.Proofs.Listing: the items of a text between semicolons.

  Every item has something to show, no semicolon in it and no white space at its ends. So a semicolon
  between two texts keeps their items apart, and items that are joined again are found again.
  - `isItem_of_mem_listed`: what an item is.
  - `listed_joined`: items are recovered from their join.
  - `items_are_found_again`: the laws of the converter to lists.
-/

import Reshape.Converter.Builtin
import Reshape.Proofs.Layout

namespace Reshape.Builtin

open Text

/-- Not blank, without a delimiter, and without white space at the ends. -/
structure IsItem (p : List Char) : Prop where
  ne_nil : p ≠ []
  whole : delimiter ∉ p
  trimmed : Trimmed isBlank p

variable {cs ds p : List Char} {ps : List (List Char)}

theorem isItem_of_mem_listed (h : p ∈ listed cs) : IsItem p := by
  obtain ⟨hmem, hne⟩ := List.mem_filter.mp h
  obtain ⟨q, hq, rfl⟩ := List.mem_map.mp hmem
  refine ⟨by simpa using hne, fun hc => ?_, trimmed_trimWhile isBlank q⟩
  exact not_mem_of_mem_pieces hq ((strip_isInfix q).subset hc)

theorem listed_append (cs ds : List Char) : listed (cs ++ delimiter :: ds) = listed cs ++ listed ds := by
  simp [listed, pieces_append_separator]

theorem strip_item (h : IsItem p) : strip p = p := trimWhile_eq_self h.trimmed.first h.trimmed.last

/-- Items between delimiters are the pieces. -/
theorem pieces_items (h : ∀ p ∈ ps, IsItem p) :
    pieces delimiter (joined [delimiter] ps) = if ps = [] then [[]] else ps := by
  by_cases hps : ps = []
  · rw [if_pos hps, hps]
    rfl
  · rw [if_neg hps]
    exact pieces_joined hps fun p hp => (h p hp).whole

theorem listed_joined (h : ∀ p ∈ ps, IsItem p) : listed (joined [delimiter] ps) = ps := by
  rw [listed, pieces_items h]
  by_cases hps : ps = []
  · simp [hps, strip, trimWhile, dropEndWhile]
  · rw [if_neg hps, List.map_congr_left fun p hp => strip_item (h p hp), List.map_id', List.filter_eq_self]
    intro p hp
    simpa using (h p hp).ne_nil

/-- The items of a text. -/
def items (s : String) : List String := (listed s.toList).map String.ofList

theorem toList_items (s : String) : (items s).map String.toList = listed s.toList := by
  simp [items, Function.comp_def]

theorem asList_text (s : String) : asList (.str s) = .ok (.list ((items s).map .str)) := by
  simp only [items, List.map_map]
  rfl

/-- Whatever two texts are: their items are whole, a semicolon between the texts puts the items of the
second after those of the first, items that are joined by semicolons are found again, by the converter
and by plain cutting, unless there are none, and a list is left as it is. -/
theorem items_are_found_again (s t : String) :
    asList (.str s) = .ok (.list ((items s).map .str)) ∧
    (∀ p ∈ items s, IsItem p.toList) ∧
    items (s ++ ";" ++ t) = items s ++ items t ∧
    items (join ";" (items s)) = items s ∧
    splitAt delimiter (join ";" (items s)) = (if items s = [] then [""] else items s) ∧
    asList (.list ((items s).map .str)) = .ok (.list ((items s).map .str)) := by
  have hlisted : ∀ p ∈ listed s.toList, IsItem p := fun p hp => isItem_of_mem_listed hp
  have hjoin : (join ";" (items s)).toList = joined [delimiter] (listed s.toList) := by
    rw [join, String.toList_ofList, toList_items]
    rfl
  refine ⟨asList_text s, ?_, ?_, ?_, ?_, rfl⟩
  · intro p hp
    obtain ⟨q, hq, rfl⟩ := List.mem_map.mp hp
    simpa using hlisted q hq
  · have hsplit : (s ++ ";" ++ t).toList = s.toList ++ delimiter :: t.toList := by simp [delimiter]
    rw [items, hsplit, listed_append, List.map_append]
    rfl
  · rw [items, hjoin, listed_joined hlisted]
    rfl
  · rw [splitAt, hjoin, pieces_items hlisted]
    by_cases hs : listed s.toList = []
    · simp [items, hs]
    · simp [items, hs]

end Reshape.Builtin
