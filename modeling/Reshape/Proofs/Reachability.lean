/-
  Reshape.Proofs.Reachability: the names that are found are those that can be reached.

  The search takes a pending tree, adds the names it refers to that are not found yet, and puts
  their trees on the pending ones.
  - `Searching`: what holds between two rounds. What is found can be reached and is defined, and
    the references of every tree that is not pending any more are found.
  - `reachable_exact`: the search gives, each once, the names that can be reached; or one of them
    that is not defined.
-/

import Mathlib.Logic.Relation
import Reshape.References

namespace Reshape.References

open Relation

/-- The nested mapping `n` has a rule, an array rule or not, that targets `m`. -/
def Refers (nested : Nested) (n m : String) : Prop :=
  ∃ t, nested.lookup n = some t ∧ m ∈ t.references

/-- Evaluating `properties` can lead to `n`, directly or through other nested mappings. -/
def Reaches (properties : Tree) (nested : Nested) (n : String) : Prop :=
  ∃ m ∈ properties.references, ReflTransGen (Refers nested) m n

variable {properties : Tree} {nested : Nested}

theorem Reaches.next {n m : String} (h : Reaches properties nested n) (hnm : Refers nested n m) :
    Reaches properties nested m := by
  obtain ⟨k, hk, hkn⟩ := h
  exact ⟨k, hk, hkn.tail hnm⟩

/-- A set of names that holds the references of `properties` and those of its own trees holds
everything that can be reached. -/
theorem Reaches.mem_of_closed {names : List String} (hroots : ∀ m ∈ properties.references, m ∈ names)
    (hclosed : ∀ n ∈ names, ∀ m, Refers nested n m → m ∈ names) {n : String}
    (h : Reaches properties nested n) : n ∈ names := by
  obtain ⟨m, hm, hmn⟩ := h
  induction hmn with
  | refl => exact hroots m hm
  | tail _ hkn ih => exact hclosed _ ih _ hkn

/-! ## One round -/

/-- What comes of looking at `names` with these found and pending. -/
structure Discovered (nested : Nested) (found : List String) (pending : List Tree)
    (names found' : List String) (pending' : List Tree) : Prop where
  nodup : found.Nodup → found'.Nodup
  kept : ∀ n ∈ found, n ∈ found'
  stillPending : ∀ t ∈ pending, t ∈ pending'
  all : ∀ n ∈ names, n ∈ found'
  new : ∀ n ∈ found', n ∈ found ∨ n ∈ names ∧ ∃ t ∈ pending', nested.lookup n = some t
  newPending : ∀ t ∈ pending', t ∈ pending ∨ ∃ n ∈ names, nested.lookup n = some t

theorem discovered_of_mem {found found' : List String} {pending pending' : List Tree} {name : String}
    {names : List String} (hname : name ∈ found)
    (h : Discovered nested found pending names found' pending') :
    Discovered nested found pending (name :: names) found' pending' := by
  refine ⟨h.nodup, h.kept, h.stillPending, fun n hn => ?_, fun n hn => ?_, fun t ht => ?_⟩
  · rcases List.mem_cons.mp hn with rfl | hn
    · exact h.kept n hname
    · exact h.all n hn
  · exact (h.new n hn).imp_right fun ⟨hn, ht⟩ => ⟨List.mem_cons_of_mem _ hn, ht⟩
  · exact (h.newPending t ht).imp_right fun ⟨n, hn, hl⟩ => ⟨n, List.mem_cons_of_mem _ hn, hl⟩

theorem discovered_of_lookup {found found' : List String} {pending pending' : List Tree} {name : String}
    {names : List String} {t : Tree} (hname : name ∉ found) (hl : nested.lookup name = some t)
    (h : Discovered nested (found ++ [name]) (t :: pending) names found' pending') :
    Discovered nested found pending (name :: names) found' pending' := by
  refine ⟨fun hnodup => h.nodup ?_, fun n hn => h.kept n (List.mem_append_left _ hn),
    fun u hu => h.stillPending u (List.mem_cons_of_mem _ hu), fun n hn => ?_, fun n hn => ?_, fun u hu => ?_⟩
  · rw [List.nodup_append]
    refine ⟨hnodup, by simp, fun n hn m hm => ?_⟩
    rw [List.mem_singleton] at hm
    subst hm
    exact fun e => hname (e ▸ hn)
  · rcases List.mem_cons.mp hn with rfl | hn
    · exact h.kept n (by simp)
    · exact h.all n hn
  · rcases h.new n hn with hn | ⟨hn, hu⟩
    · rcases List.mem_append.mp hn with hn | hn
      · exact Or.inl hn
      · rw [List.mem_singleton] at hn
        subst hn
        exact Or.inr ⟨by simp, t, h.stillPending t (by simp), hl⟩
    · exact Or.inr ⟨List.mem_cons_of_mem _ hn, hu⟩
  · rcases h.newPending u hu with hu | ⟨n, hn, hlu⟩
    · rcases List.mem_cons.mp hu with rfl | hu
      · exact Or.inr ⟨name, by simp, hl⟩
      · exact Or.inl hu
    · exact Or.inr ⟨n, List.mem_cons_of_mem _ hn, hlu⟩

theorem discover_ok {found found' : List String} {pending pending' : List Tree} {names : List String}
    (h : discover nested found pending names = .ok (found', pending')) :
    Discovered nested found pending names found' pending' := by
  induction names generalizing found pending with
  | nil =>
    simp only [discover, Except.ok.injEq, Prod.mk.injEq] at h
    obtain ⟨rfl, rfl⟩ := h
    exact ⟨id, fun _ => id, fun _ => id, by simp, fun _ => Or.inl, fun _ => Or.inl⟩
  | cons name names ih =>
    rw [discover] at h
    split at h
    · rename_i hname
      exact discovered_of_mem hname (ih h)
    · rename_i hname
      split at h
      · cases h
      · rename_i t hl
        exact discovered_of_lookup hname hl (ih h)

theorem discover_error {found : List String} {pending : List Tree} {names : List String} {name : String}
    (h : discover nested found pending names = .error name) : name ∈ names ∧ nested.lookup name = none := by
  induction names generalizing found pending with
  | nil => cases h
  | cons n names ih =>
    rw [discover] at h
    split at h
    · exact (ih h).imp_left (List.mem_cons_of_mem _)
    · split at h
      · rename_i hl
        cases h
        exact ⟨by simp, hl⟩
      · exact (ih h).imp_left (List.mem_cons_of_mem _)

/-! ## All rounds -/

structure Searching (properties : Tree) (nested : Nested) (found : List String) (pending : List Tree) :
    Prop where
  nodup : found.Nodup
  defined : ∀ n ∈ found, ∃ t, nested.lookup n = some t
  reached : ∀ n ∈ found, Reaches properties nested n
  pendingReached : ∀ t ∈ pending, ∀ m ∈ t.references, Reaches properties nested m
  roots : properties ∈ pending ∨ ∀ m ∈ properties.references, m ∈ found
  closed : ∀ n ∈ found, ∀ t, nested.lookup n = some t → t ∈ pending ∨ ∀ m ∈ t.references, m ∈ found

theorem searching_init : Searching properties nested [] [properties] := by
  refine ⟨List.nodup_nil, by simp, by simp, fun t ht m hm => ?_, Or.inl (by simp), by simp⟩
  rw [List.mem_singleton] at ht
  subst ht
  exact ⟨m, hm, .refl⟩

/-- A tree that was pending and whose references are found now need not be pending any more. -/
theorem covered_of_discovered {found found' : List String} {t : Tree} {pending pending' : List Tree}
    (h : Discovered nested found pending t.references found' pending') {u : Tree}
    (hu : u ∈ t :: pending ∨ ∀ m ∈ u.references, m ∈ found) :
    u ∈ pending' ∨ ∀ m ∈ u.references, m ∈ found' := by
  rcases hu with hu | hu
  · rcases List.mem_cons.mp hu with rfl | hu
    · exact Or.inr h.all
    · exact Or.inl (h.stillPending u hu)
  · exact Or.inr fun m hm => h.kept m (hu m hm)

theorem searching_round {found found' : List String} {t : Tree} {pending pending' : List Tree}
    (hs : Searching properties nested found (t :: pending))
    (h : Discovered nested found pending t.references found' pending') :
    Searching properties nested found' pending' := by
  have hreach : ∀ n ∈ t.references, Reaches properties nested n := hs.pendingReached t (by simp)
  refine ⟨h.nodup hs.nodup, fun n hn => ?_, fun n hn => ?_, fun u hu m hm => ?_,
    covered_of_discovered h hs.roots, fun n hn u hl => ?_⟩
  · rcases h.new n hn with hn | ⟨-, u, -, hl⟩
    · exact hs.defined n hn
    · exact ⟨u, hl⟩
  · rcases h.new n hn with hn | ⟨hn, -⟩
    · exact hs.reached n hn
    · exact hreach n hn
  · rcases h.newPending u hu with hu | ⟨n, hn, hl⟩
    · exact hs.pendingReached u (List.mem_cons_of_mem _ hu) m hm
    · exact (hreach n hn).next ⟨u, hl, hm⟩
  · rcases h.new n hn with hn | ⟨-, v, hv, hlv⟩
    · exact covered_of_discovered h (hs.closed n hn u hl)
    · rw [hl] at hlv
      cases hlv
      exact Or.inl hv

theorem explore_nil (found : List String) : explore nested found [] = .ok found := by rw [explore]

theorem explore_of_ok {found found' : List String} {t : Tree} {pending pending' : List Tree}
    (h : discover nested found pending t.references = .ok (found', pending')) :
    explore nested found (t :: pending) = explore nested found' pending' := by
  rw [explore]
  split
  · rename_i hd
    rw [h] at hd
    cases hd
    rfl
  · rename_i hd
    rw [h] at hd
    cases hd

theorem explore_of_error {found : List String} {t : Tree} {pending : List Tree} {name : String}
    (h : discover nested found pending t.references = .error name) :
    explore nested found (t :: pending) = .error name := by
  rw [explore]
  split
  · rename_i hd
    rw [h] at hd
    cases hd
  · rename_i hd
    rw [h] at hd
    cases hd
    rfl

theorem explore_exact {found : List String} {pending : List Tree}
    (hs : Searching properties nested found pending) :
    match explore nested found pending with
    | .ok names => Searching properties nested names []
    | .error name => Reaches properties nested name ∧ nested.lookup name = none := by
  induction found, pending using explore.induct nested with
  | case1 found =>
    rw [explore]
    exact hs
  | case2 found t pending found' pending' hd ih =>
    rw [explore_of_ok hd]
    exact ih (searching_round hs (discover_ok hd))
  | case3 found t pending name hd =>
    rw [explore_of_error hd]
    obtain ⟨hmem, hl⟩ := discover_error hd
    exact ⟨hs.pendingReached t (by simp) _ hmem, hl⟩

/-- The search gives all names that can be reached, each once, if they are all defined, and
otherwise one that is not. -/
theorem reachable_exact (properties : Tree) (nested : Nested) :
    match reachable properties nested with
    | .ok names => names.Nodup ∧ (∀ n, n ∈ names ↔ Reaches properties nested n) ∧
        ∀ n ∈ names, ∃ t, nested.lookup n = some t
    | .error name => Reaches properties nested name ∧ nested.lookup name = none := by
  have h : match reachable properties nested with
      | .ok names => Searching properties nested names []
      | .error name => Reaches properties nested name ∧ nested.lookup name = none :=
    explore_exact searching_init
  cases hr : reachable properties nested with
  | ok names =>
    have hs : Searching properties nested names [] := by rwa [hr] at h
    have hroots : ∀ m ∈ properties.references, m ∈ names := hs.roots.resolve_left (by simp)
    have hclosed : ∀ n ∈ names, ∀ m, Refers nested n m → m ∈ names := by
      intro n hn m hx
      obtain ⟨t, hl, hm⟩ := hx
      exact (hs.closed n hn t hl).resolve_left (by simp) m hm
    exact ⟨hs.nodup, fun n => ⟨hs.reached n, Reaches.mem_of_closed hroots hclosed⟩, hs.defined⟩
  | error name => rwa [hr] at h

/-- Where every reference is defined, so is everything that can be reached. -/
theorem reachable_isOk {properties : Tree} {nested : Nested}
    (h : ∀ n, Reaches properties nested n → ∃ t, nested.lookup n = some t) :
    ∃ names, reachable properties nested = .ok names := by
  have hexact := reachable_exact properties nested
  cases hr : reachable properties nested with
  | ok names => exact ⟨names, rfl⟩
  | error name =>
    rw [hr] at hexact
    obtain ⟨hreach, hnone⟩ := hexact
    obtain ⟨t, ht⟩ := h name hreach
    rw [hnone] at ht
    cases ht

end Reshape.References
