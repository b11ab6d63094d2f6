/-
  Reshape.Entries: tables in the order of insertion.

  A table is a list of keys with their values. Setting a key that is already there replaces the
  value and keeps the place; a new key goes to the end.
  - `lookup_perm`: without repeated keys the order of a table is no matter to what is found in it.
  - `lookup_put_self`, `lookup_put_of_ne`: a key that was set is found with its new value, and
    every other key as before.
  - `keys_put_of_mem`, `keys_put_of_not_mem`: the keys stay in their order.
  - `nodup_keys_put`, `nodup_keys_ofList`: no key occurs twice.
  - `mem_ofList`, `lookup_ofList`: of two pairs with one key the last is in the table.
  - `ofList_of_nodup`: pairs with different keys are a table already.
-/

namespace Reshape.Entries

def keys (t : List (κ × α)) : List κ := t.map Prod.fst

def put [BEq κ] (k : κ) (a : α) : List (κ × α) → List (κ × α)
  | [] => [(k, a)]
  | (j, b) :: t => if j == k then (j, a) :: t else (j, b) :: put k a t

def putAll [BEq κ] (t : List (κ × α)) (pairs : List (κ × α)) : List (κ × α) :=
  pairs.foldl (fun t p => put p.1 p.2 t) t

/-- The table of all these pairs: of two with one key the first gives the place and the last the
value. -/
def ofList [BEq κ] (pairs : List (κ × α)) : List (κ × α) := putAll [] pairs

/-- The pairs whose key does not come again after them. -/
def latest [BEq κ] : List (κ × α) → List (κ × α)
  | [] => []
  | p :: pairs => if (keys pairs).contains p.1 then latest pairs else p :: latest pairs

@[simp] theorem keys_nil : keys ([] : List (κ × α)) = [] := rfl

@[simp] theorem keys_cons (p : κ × α) (t : List (κ × α)) : keys (p :: t) = p.1 :: keys t := rfl

theorem mem_keys {k : κ} {t : List (κ × α)} : k ∈ keys t ↔ ∃ a, (k, a) ∈ t := by
  simp [keys]

theorem exists_mem_of_lookup [BEq κ] {k : κ} {a : α} {t : List (κ × α)} (h : t.lookup k = some a) :
    ∃ j, (j, a) ∈ t := by
  induction t with
  | nil => cases h
  | cons p t ih =>
    rw [List.lookup_cons] at h
    split at h
    · cases h
      exact ⟨p.1, by simp⟩
    · obtain ⟨j, hj⟩ := ih h
      exact ⟨j, List.mem_cons_of_mem _ hj⟩

theorem mem_of_mem_latest [BEq κ] {p : κ × α} {pairs : List (κ × α)} (h : p ∈ latest pairs) : p ∈ pairs := by
  induction pairs with
  | nil => cases h
  | cons q pairs ih =>
    rw [latest] at h
    split at h
    · exact List.mem_cons_of_mem _ (ih h)
    · rcases List.mem_cons.mp h with rfl | h
      · simp
      · exact List.mem_cons_of_mem _ (ih h)

section Lawful
variable [BEq κ] [LawfulBEq κ]

theorem lookup_put_self (k : κ) (a : α) (t : List (κ × α)) :
    (put k a t).lookup k = some a := by
  induction t with
  | nil => simp [put]
  | cons p t ih =>
    obtain ⟨j, b⟩ := p
    by_cases h : j = k
    · simp [put, h]
    · have h' : (k == j) = false := by simpa using Ne.symm h
      simp [put, h, List.lookup_cons, h', ih]

theorem lookup_put_of_ne {k j : κ} (h : j ≠ k) (a : α) (t : List (κ × α)) :
    (put k a t).lookup j = t.lookup j := by
  have hjk : (j == k) = false := by simpa using h
  induction t with
  | nil => simp [put, List.lookup_cons, hjk]
  | cons p t ih =>
    obtain ⟨i, b⟩ := p
    by_cases hi : i = k
    · subst hi
      simp [put, List.lookup_cons, hjk]
    · simp [put, hi, List.lookup_cons, ih]

theorem mem_keys_of_lookup {k : κ} {a : α} {t : List (κ × α)} (h : t.lookup k = some a) :
    k ∈ keys t := by
  induction t with
  | nil => cases h
  | cons p t ih =>
    rw [List.lookup_cons] at h
    split at h
    · rename_i hk
      simp [eq_of_beq hk]
    · simp [ih h]

theorem lookup_perm {t t' : List (κ × α)} (hp : t.Perm t') (hnodup : (keys t).Nodup) (k : κ) :
    t.lookup k = t'.lookup k := by
  induction hp with
  | nil => rfl
  | cons p _ ih =>
    rw [List.lookup_cons, List.lookup_cons, ih (List.nodup_cons.mp hnodup).2]
  | swap p q t =>
    obtain ⟨i, a⟩ := p
    obtain ⟨j, b⟩ := q
    simp only [keys_cons, List.nodup_cons, List.mem_cons, not_or] at hnodup
    by_cases hj : k = j
    · subst hj
      have hi : (k == i) = false := by simpa using hnodup.1.1
      simp [List.lookup_cons, hi]
    · have hj' : (k == j) = false := by simpa using hj
      simp only [List.lookup_cons, hj']
  | trans h₁ _ ih₁ ih₂ =>
    rw [ih₁ hnodup, ih₂ ((h₁.map Prod.fst).nodup_iff.mp hnodup)]

theorem keys_put_of_mem {k : κ} {t : List (κ × α)} (h : k ∈ keys t) (a : α) :
    keys (put k a t) = keys t := by
  induction t with
  | nil => simp at h
  | cons p t ih =>
    obtain ⟨j, b⟩ := p
    by_cases hj : j = k
    · simp [put, hj]
    · have : k ∈ keys t := by simpa [Ne.symm hj] using h
      simp [put, hj, ih this]

theorem put_of_not_mem {k : κ} {t : List (κ × α)} (h : k ∉ keys t) (a : α) : put k a t = t ++ [(k, a)] := by
  induction t with
  | nil => rfl
  | cons p t ih =>
    obtain ⟨j, b⟩ := p
    simp only [keys_cons, List.mem_cons, not_or] at h
    have hj : (j == k) = false := by simpa using Ne.symm h.1
    simp [put, hj, ih h.2]

theorem keys_put_of_not_mem {k : κ} {t : List (κ × α)} (h : k ∉ keys t) (a : α) :
    keys (put k a t) = keys t ++ [k] := by
  rw [put_of_not_mem h]
  simp [keys]

theorem mem_keys_put {k j : κ} {a : α} {t : List (κ × α)} :
    j ∈ keys (put k a t) ↔ j = k ∨ j ∈ keys t := by
  by_cases h : k ∈ keys t
  · rw [keys_put_of_mem h]
    exact ⟨Or.inr, fun e => e.elim (fun e => e ▸ h) id⟩
  · rw [keys_put_of_not_mem h]
    simp [or_comm]

theorem nodup_keys_put {k : κ} {a : α} {t : List (κ × α)} (h : (keys t).Nodup) :
    (keys (put k a t)).Nodup := by
  by_cases hk : k ∈ keys t
  · rwa [keys_put_of_mem hk]
  · rw [keys_put_of_not_mem hk, List.nodup_append]
    refine ⟨h, by simp, ?_⟩
    intro a ha b hb
    simp only [List.mem_singleton] at hb
    subst hb
    exact fun e => hk (e ▸ ha)

theorem nodup_keys_putAll {t : List (κ × α)} (h : (keys t).Nodup) (pairs : List (κ × α)) :
    (keys (putAll t pairs)).Nodup := by
  induction pairs generalizing t with
  | nil => exact h
  | cons p pairs ih => exact ih (nodup_keys_put h)

theorem nodup_keys_ofList (pairs : List (κ × α)) : (keys (ofList pairs)).Nodup :=
  nodup_keys_putAll (by simp) pairs

theorem exists_lookup_of_mem {k : κ} {a : α} {t : List (κ × α)} (h : (k, a) ∈ t) :
    ∃ b, t.lookup k = some b := by
  induction t with
  | nil => cases h
  | cons p t ih =>
    rw [List.lookup_cons]
    split
    · exact ⟨p.2, rfl⟩
    · rename_i hk
      rcases List.mem_cons.mp h with rfl | h
      · simp at hk
      · exact ih h

theorem exists_lookup_of_mem_keys {k : κ} {t : List (κ × α)} (h : k ∈ keys t) : ∃ a, t.lookup k = some a := by
  obtain ⟨a, ha⟩ := mem_keys.mp h
  exact exists_lookup_of_mem ha

theorem lookup_eq_some_iff {k : κ} {a : α} {t : List (κ × α)} (hnodup : (keys t).Nodup) :
    t.lookup k = some a ↔ (k, a) ∈ t := by
  induction t with
  | nil => simp
  | cons p t ih =>
    obtain ⟨j, b⟩ := p
    obtain ⟨hj, hnodup⟩ := List.nodup_cons.mp hnodup
    by_cases h : k = j
    · subst h
      have hk : (k, a) ∉ t := fun hmem => hj (mem_keys.mpr ⟨a, hmem⟩)
      simp [hk, eq_comm]
    · have h' : (k == j) = false := by simpa using h
      simp [List.lookup_cons, h', h, ih hnodup]

theorem mem_put {p : κ × α} {k : κ} {a : α} {t : List (κ × α)} (hnodup : (keys t).Nodup) :
    p ∈ put k a t ↔ p = (k, a) ∨ p ∈ t ∧ p.1 ≠ k := by
  obtain ⟨j, b⟩ := p
  rw [← lookup_eq_some_iff hnodup, ← lookup_eq_some_iff (nodup_keys_put hnodup)]
  by_cases h : j = k
  · subst h
    simp [lookup_put_self, eq_comm]
  · simp [lookup_put_of_ne h, h]

theorem mem_putAll {p : κ × α} {t pairs : List (κ × α)} (hnodup : (keys t).Nodup) :
    p ∈ putAll t pairs ↔ p ∈ latest pairs ∨ p ∈ t ∧ p.1 ∉ keys pairs := by
  induction pairs generalizing t with
  | nil => simp [putAll, latest]
  | cons q pairs ih =>
    have hstep : putAll t (q :: pairs) = putAll (put q.1 q.2 t) pairs := rfl
    rw [hstep, ih (nodup_keys_put hnodup), mem_put hnodup]
    by_cases hq : q.1 ∈ keys pairs
    · have hp : p.1 ∉ keys pairs → p ≠ q ∧ p.1 ≠ q.1 :=
        fun hp => ⟨fun e => hp (e ▸ hq), fun e => hp (e ▸ hq)⟩
      simp only [latest, List.contains_eq_mem, hq, decide_true, if_true, keys_cons, List.mem_cons, not_or]
      grind
    · simp only [latest, List.contains_eq_mem, hq, decide_false, Bool.false_eq_true, if_false, keys_cons,
        List.mem_cons, not_or]
      grind

theorem mem_ofList {p : κ × α} {pairs : List (κ × α)} : p ∈ ofList pairs ↔ p ∈ latest pairs := by
  rw [ofList, mem_putAll (by simp)]
  simp

theorem lookup_putAll (t pairs : List (κ × α)) (k : κ) :
    (putAll t pairs).lookup k = ((pairs.filter fun p => p.1 == k).getLast?.map Prod.snd).or (t.lookup k) := by
  induction pairs generalizing t with
  | nil => simp [putAll]
  | cons p pairs ih =>
    have hstep : putAll t (p :: pairs) = putAll (put p.1 p.2 t) pairs := rfl
    rw [hstep, ih]
    by_cases hp : p.1 = k
    · subst hp
      rw [lookup_put_self, List.filter_cons, if_pos (beq_self_eq_true _), List.getLast?_cons]
      cases (pairs.filter fun q => q.1 == p.1).getLast? <;> rfl
    · have hne : ¬ (p.1 == k) = true := by simpa using hp
      rw [lookup_put_of_ne (Ne.symm hp), List.filter_cons, if_neg hne]

/-- What is found under a key is the last that was put there. -/
theorem lookup_ofList (pairs : List (κ × α)) (k : κ) :
    (ofList pairs).lookup k = (pairs.filter fun p => p.1 == k).getLast?.map Prod.snd := by
  rw [ofList, lookup_putAll, List.lookup_nil, Option.or_none]

theorem putAll_eq_append {t pairs : List (κ × α)} (h : (keys (t ++ pairs)).Nodup) : putAll t pairs = t ++ pairs := by
  induction pairs generalizing t with
  | nil => simp [putAll]
  | cons p pairs ih =>
    have hp : p.1 ∉ keys t := by
      intro hmem
      simp only [keys, List.map_append, List.nodup_append] at h
      exact h.2.2 p.1 hmem p.1 (by simp) rfl
    have hput : put p.1 p.2 t = t ++ [p] := put_of_not_mem hp p.2
    have hstep : putAll t (p :: pairs) = putAll (put p.1 p.2 t) pairs := rfl
    rw [hstep, hput, ih (by simpa using h), List.append_assoc, List.singleton_append]

/-- Pairs with different keys are a table already. -/
theorem ofList_of_nodup {pairs : List (κ × α)} (h : (keys pairs).Nodup) : ofList pairs = pairs :=
  putAll_eq_append (by simpa using h)

theorem mem_keys_latest {k : κ} {pairs : List (κ × α)} : k ∈ keys (latest pairs) ↔ k ∈ keys pairs := by
  induction pairs with
  | nil => simp [latest]
  | cons q pairs ih =>
    by_cases hq : q.1 ∈ keys pairs
    · simp only [latest, List.contains_eq_mem, hq, decide_true, if_true, keys_cons, List.mem_cons, ih]
      exact ⟨Or.inr, fun h => h.elim (fun e => e ▸ hq) id⟩
    · simp only [latest, List.contains_eq_mem, hq, decide_false, Bool.false_eq_true, if_false, keys_cons,
        List.mem_cons, ih]

end Lawful

end Reshape.Entries
