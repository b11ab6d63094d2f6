/-
  Reshape.Proofs.Reserved: data under the reserved names.

  In a path `$root` and `$parent` lead to the input document and to the enclosing scope, wherever they
  stand. They never lead to an entry of a dictionary, so what an input has under these keys shows in
  nothing that comes of it.
  - `Value.Alike`: two values are equal when the entries under reserved names are taken out of both.
  - `Alike.seq`, `Alike.dict`, `Alike.null`: what can be read of one of them can be read of the other.
  - `Context.Alike.extract`: a path leads to alike values in alike contexts, or nowhere in both.
  - `agree_runWithin`: on alike inputs the runs to any depth have one outcome.
  - `reserved_names_are_not_read`: so have the runs that end.
-/

import Reshape.Proofs.Faults
import Mathlib.Data.List.Forall2

namespace Reshape

/-! ## Reserved names -/

namespace Key

def isReserved (k : Key) : Bool := Key.str rootSegment == k || Key.str parentSegment == k

/-- Only a text is the same key as a text. -/
theorem str_same_iff {k : Key} {s : String} : (Key.str s == k) = true ↔ k = .str s := by
  refine ⟨fun h => ?_, ?_⟩
  · have h : (Key.str s).same k = true := h
    cases k with
    | tuple items => simp [same] at h
    | scalar a =>
      have hinteger : (Scalar.str s).integer? = none := rfl
      have hinstant : (Scalar.str s).instant? = none := rfl
      rw [same, Scalar.same, hinteger, hinstant] at h
      cases hn : a.integer? with
      | some n => simp [hn] at h
      | none =>
        simp only [hn, Bool.and_eq_true, decide_eq_true_eq] at h
        rw [← h.1]
  · rintro rfl
    simp [same_str]

end Key

namespace Value

/-- The value down to a depth, without the entries under reserved names. Below that depth all is
null. -/
def unreserved : Nat → Value → Value
  | 0, _ => .null
  | n + 1, v => match v.contents with
    | .seq form items => .seq form (items.map (unreserved n))
    | .dict entries => .dict ((entries.filter fun e => !e.1.isReserved).map fun e => (e.1, unreserved n e.2))
    | _ => v

/-- What may count as equal. Values that are equal can be told apart neither by being null nor by what
stands in them, and what is built of equal values is equal. -/
structure Equality (E : Value → Value → Prop) : Prop where
  symm : ∀ {v w}, E v w → E w v
  null : ∀ {w}, E .null w ↔ w = .null
  seq : ∀ {form items w}, E (.seq form items) w →
    ∃ form' items', w = .seq form' items' ∧ List.Forall₂ E items items'
  dict : ∀ {entries w}, E (.dict entries) w → ∃ entries', w = .dict entries' ∧
    ∀ name, Option.Rel E (entries.lookup (.str name)) (entries'.lookup (.str name))
  list : ∀ {vs ws}, List.Forall₂ E vs ws → E (.list vs) (.list ws)
  table : ∀ {es es'}, List.Forall₂ (fun e e' => e.1 = e'.1 ∧ E e.2 e'.2) es es' → E (.dict es) (.dict es')

theorem equality_eq : Equality Eq where
  symm := Eq.symm
  null := eq_comm
  seq := by
    rintro form items w rfl
    exact ⟨form, items, rfl, List.forall₂_same.mpr fun _ _ => rfl⟩
  dict := by
    rintro entries w rfl
    refine ⟨entries, rfl, fun name => ?_⟩
    cases entries.lookup (.str name) with
    | none => exact .none
    | some v => exact .some rfl
  list := by
    intro vs ws h
    rw [List.forall₂_eq_eq_eq] at h
    rw [h]
  table := by
    intro es es' h
    have heq : List.Forall₂ Eq es es' := h.imp fun _ _ he => Prod.ext he.1 he.2
    rw [List.forall₂_eq_eq_eq] at heq
    rw [heq]

/-- The values are equal, at every depth, once the entries under reserved names are taken out. -/
def Alike (E : Value → Value → Prop) (v w : Value) : Prop := ∀ n, E (v.unreserved n) (w.unreserved n)

section
variable {v w : Value}

theorem unreserved_seq {form : Form} {items : List Value} (h : v.contents = .seq form items) (n : Nat) :
    v.unreserved (n + 1) = .seq form (items.map (unreserved n)) := by
  rw [unreserved, h]

theorem unreserved_dict {entries : List (Key × Value)} (h : v.contents = .dict entries) (n : Nat) :
    v.unreserved (n + 1) =
      .dict ((entries.filter fun e => !e.1.isReserved).map fun e => (e.1, unreserved n e.2)) := by
  rw [unreserved, h]

theorem contents_of_unreserved_seq {n : Nat} {form : Form} {items : List Value}
    (h : v.unreserved (n + 1) = .seq form items) : ∃ items', v.contents = .seq form items' := by
  rw [unreserved] at h
  split at h
  · rename_i hv
    cases h
    exact ⟨_, hv⟩
  · cases h
  · subst h
    exact ⟨items, rfl⟩

theorem contents_of_unreserved_dict {n : Nat} {entries : List (Key × Value)}
    (h : v.unreserved (n + 1) = .dict entries) : ∃ entries', v.contents = .dict entries' := by
  rw [unreserved] at h
  split at h
  · cases h
  · rename_i hv
    exact ⟨_, hv⟩
  · subst h
    exact ⟨entries, rfl⟩

theorem eq_null_of_unreserved {n : Nat} (h : v.unreserved (n + 1) = .null) : v = .null := by
  rw [unreserved] at h
  split at h
  · cases h
  · cases h
  · exact h

/-- A name that is not reserved is found as before. -/
theorem lookup_unreserved {name : String} (hr : name ≠ rootSegment) (hp : name ≠ parentSegment)
    (entries : List (Key × Value)) (f : Value → Value) :
    ((entries.filter fun e => !e.1.isReserved).map fun e => (e.1, f e.2)).lookup (.str name) =
      (entries.lookup (.str name)).map f := by
  induction entries with
  | nil => rfl
  | cons e entries ih =>
    obtain ⟨k, v⟩ := e
    by_cases hk : k = .str name
    · subst hk
      have hkept : (Key.str name).isReserved = false := by
        simp [Key.isReserved, Key.same_str, hr.symm, hp.symm]
      simp [hkept, List.lookup_cons, Key.same_str]
    · have hne : (Key.str name == k) = false := by simpa [← Key.str_same_iff] using hk
      cases hreserved : k.isReserved with
      | true => simp [hreserved, List.lookup_cons, hne, ih]
      | false => simp [hreserved, List.lookup_cons, hne, ih]

end

namespace Alike

variable {E : Value → Value → Prop} {v w : Value}

theorem symm (hE : Equality E) (h : v.Alike E w) : w.Alike E v := fun n => hE.symm (h n)

theorem null (hE : Equality E) (h : Alike E .null v) : v = .null :=
  eq_null_of_unreserved (hE.null.mp (h 1))

/-- What is alike a sequence is a sequence of as many items, which are alike. -/
theorem seq (hE : Equality E) (h : v.Alike E w) {form : Form} {items : List Value} (hv : v.contents = .seq form items) :
    ∃ form' items', w.contents = .seq form' items' ∧ List.Forall₂ (Alike E) items items' := by
  have h1 := h 1
  rw [unreserved_seq hv] at h1
  obtain ⟨form', _, hw1, -⟩ := hE.seq h1
  obtain ⟨items', hw⟩ := contents_of_unreserved_seq hw1
  have hall : ∀ n, List.Forall₂ (fun a b => E (unreserved n a) (unreserved n b)) items items' := by
    intro n
    have hn := h (n + 1)
    rw [unreserved_seq hv, unreserved_seq hw] at hn
    obtain ⟨_, _, heq, hitems⟩ := hE.seq hn
    cases heq
    rwa [List.forall₂_map_left_iff, List.forall₂_map_right_iff] at hitems
  refine ⟨form', items', hw, List.forall₂_iff_get.mpr ⟨(hall 0).length_eq, fun i hi hi' n => ?_⟩⟩
  exact (List.forall₂_iff_get.mp (hall n)).2 i hi hi'

theorem rel_of_forall {x y : Option Value}
    (h : ∀ n, Option.Rel E (x.map (unreserved n)) (y.map (unreserved n))) : Option.Rel (Alike E) x y := by
  cases x with
  | none =>
    cases y with
    | none => exact .none
    | some b => cases h 0
  | some a =>
    cases y with
    | none => cases h 0
    | some b =>
      refine .some fun n => ?_
      cases h n
      assumption

/-- What is alike a dictionary is a dictionary that has the same names, other than the reserved ones,
and under each of them what is alike. -/
theorem dict (hE : Equality E) (h : v.Alike E w) {entries : List (Key × Value)} (hv : v.contents = .dict entries) :
    ∃ entries', w.contents = .dict entries' ∧ ∀ name, name ≠ rootSegment → name ≠ parentSegment →
      Option.Rel (Alike E) (entries.lookup (.str name)) (entries'.lookup (.str name)) := by
  have h1 := h 1
  rw [unreserved_dict hv] at h1
  obtain ⟨_, hw1, -⟩ := hE.dict h1
  obtain ⟨entries', hw⟩ := contents_of_unreserved_dict hw1
  refine ⟨entries', hw, fun name hr hp => ?_⟩
  have hall : ∀ n, Option.Rel E ((entries.lookup (.str name)).map (unreserved n))
      ((entries'.lookup (.str name)).map (unreserved n)) := by
    intro n
    have hn := h (n + 1)
    rw [unreserved_dict hv, unreserved_dict hw] at hn
    obtain ⟨_, heq, hentries⟩ := hE.dict hn
    cases heq
    have hname := hentries name
    rwa [lookup_unreserved hr hp, lookup_unreserved hr hp] at hname
  exact rel_of_forall hall

end Alike

/-- What two values are made of: related items, or dictionaries in which related values stand under the
names that are not reserved, or nothing that a path can take. -/
inductive Opened (R : Value → Value → Prop) : Value → Value → Prop where
  | seq {form form' : Form} {items items' : List Value} : List.Forall₂ R items items' →
      Opened R (.seq form items) (.seq form' items')
  | dict {entries entries' : List (Key × Value)} : (∀ name, name ≠ rootSegment → name ≠ parentSegment →
      Option.Rel R (entries.lookup (.str name)) (entries'.lookup (.str name))) →
      Opened R (.dict entries) (.dict entries')
  | closed {v w : Value} : (∀ form items, v ≠ .seq form items) → (∀ entries, v ≠ .dict entries) →
      (∀ form items, w ≠ .seq form items) → (∀ entries, w ≠ .dict entries) → Opened R v w

/-- Paths read the same of related values: both are null or none is, and their parts are related. -/
structure Matching (R : Value → Value → Prop) : Prop where
  null : ∀ {v w}, R v w → (v = .null ↔ w = .null)
  contents : ∀ {v w}, R v w → Opened R v.contents w.contents

theorem forall₂_mem {α β : Type} {R : α → β → Prop} {as : List α} {bs : List β} (h : List.Forall₂ R as bs) :
    List.Forall₂ (fun a b => a ∈ as ∧ b ∈ bs ∧ R a b) as bs := by
  obtain ⟨hlength, hget⟩ := List.forall₂_iff_get.mp h
  exact List.forall₂_iff_get.mpr
    ⟨hlength, fun i hi hi' => ⟨List.getElem_mem hi, List.getElem_mem hi', hget i hi hi'⟩⟩

theorem rel_mem {α β : Type} {R S : α → β → Prop} {x : Option α} {y : Option β} (h : Option.Rel R x y)
    (hRS : ∀ a b, x = some a → y = some b → R a b → S a b) : Option.Rel S x y := by
  cases h with
  | none => exact .none
  | some hab => exact .some (hRS _ _ rfl rfl hab)

theorem holds_of_lookup {v a : Value} {k : Key} {entries : List (Key × Value)} (hv : v.contents = .dict entries)
    (ha : entries.lookup k = some a) : v.Holds a := by
  obtain ⟨j, hj⟩ := Entries.exists_mem_of_lookup ha
  exact Or.inr ⟨entries, j, hv, hj⟩

/-- Parts of two inputs that are alike. -/
def AlikeParts (E : Value → Value → Prop) (data data' v w : Value) : Prop :=
  v.IsPart data ∧ w.IsPart data' ∧ v.Alike E w

theorem matching_alikeParts {E : Value → Value → Prop} (hE : Equality E) (data data' : Value) :
    Matching (AlikeParts E data data') where
  null := by
    rintro v w ⟨-, -, h⟩
    constructor
    · rintro rfl
      exact h.null hE
    · rintro rfl
      exact (h.symm hE).null hE
  contents := by
    rintro v w ⟨hpart, hpart', h⟩
    by_cases hseq : ∃ form items, v.contents = .seq form items
    · obtain ⟨form, items, hv⟩ := hseq
      obtain ⟨form', items', hw, hitems⟩ := h.seq hE hv
      rw [hv, hw]
      refine .seq ((forall₂_mem hitems).imp fun a b ⟨ha, hb, hab⟩ => ?_)
      exact ⟨hpart.tail (Or.inl ⟨form, items, hv, ha⟩), hpart'.tail (Or.inl ⟨form', items', hw, hb⟩), hab⟩
    by_cases hdict : ∃ entries, v.contents = .dict entries
    · obtain ⟨entries, hv⟩ := hdict
      obtain ⟨entries', hw, hentries⟩ := h.dict hE hv
      rw [hv, hw]
      refine .dict fun name hr hp => ?_
      exact rel_mem (hentries name hr hp) fun a b ha hb hab =>
        ⟨hpart.tail (holds_of_lookup hv ha), hpart'.tail (holds_of_lookup hw hb), hab⟩
    have hsymm := h.symm hE
    refine .closed (fun form items hv => hseq ⟨form, items, hv⟩) (fun entries hv => hdict ⟨entries, hv⟩)
      (fun form items hw => ?_) (fun entries hw => ?_)
    · obtain ⟨form', items', hv, -⟩ := hsymm.seq hE hw
      exact hseq ⟨form', items', hv⟩
    · obtain ⟨entries', hv, -⟩ := hsymm.dict hE hw
      exact hdict ⟨entries', hv⟩

end Value

/-! ## Outcomes -/

/-- Both fail with one fault, or both succeed and what they give is related. -/
inductive Agree {ε α : Type} (R : α → α → Prop) : Except ε α → Except ε α → Prop where
  | error (fault : ε) : Agree R (.error fault) (.error fault)
  | ok {a b : α} : R a b → Agree R (.ok a) (.ok b)

theorem Agree.map {ε α β : Type} {R : α → α → Prop} {S : β → β → Prop} {f : α → β}
    (hf : ∀ a b, R a b → S (f a) (f b)) {x y : Except ε α} (h : Agree R x y) : Agree S (x.map f) (y.map f) := by
  cases h with
  | error fault => exact .error fault
  | ok hab => exact .ok (hf _ _ hab)

theorem rel_map {α β : Type} {R : α → α → Prop} {S : β → β → Prop} {f : α → β} (hf : ∀ a b, R a b → S (f a) (f b))
    {x y : Option α} (h : Option.Rel R x y) : Option.Rel S (x.map f) (y.map f) := by
  cases h with
  | none => exact .none
  | some hab => exact .some (hf _ _ hab)

theorem rel_getElem? {α : Type} {R : α → α → Prop} {as bs : List α} (h : List.Forall₂ R as bs) (i : Nat) :
    Option.Rel R as[i]? bs[i]? := by
  induction h generalizing i with
  | nil => exact .none
  | cons hab _ ih =>
    cases i with
    | zero => exact .some hab
    | succ i => exact ih i

/-! ## Reading paths -/

section
variable {R : Value → Value → Prop}

theorem Value.Matching.part (hR : Matching R) {v w : Value} (h : R v w) {segment : String}
    (hr : segment ≠ rootSegment) (hp : segment ≠ parentSegment) :
    Agree (Option.Rel R) (v.part segment) (w.part segment) := by
  have hopened := hR.contents h
  unfold Value.part
  generalize v.contents = a, w.contents = b at hopened
  cases hopened with
  | seq hitems =>
    dsimp only
    split
    · exact .ok (rel_getElem? hitems _)
    · exact .error _
    · exact .ok .none
  | dict hentries => exact .ok (hentries segment hr hp)
  | closed hseq hdict hseq' hdict' =>
    split
    · exact absurd rfl (hdict _)
    · exact absurd rfl (hseq _ _)
    · exact .ok .none

/-- The scopes of the contexts are related, place by place. -/
structure Context.Related (R : Value → Value → Prop) (c c' : Context) : Prop where
  scope : R c.scope c'.scope
  enclosing : List.Forall₂ R c.enclosing c'.enclosing

inductive Cursor.Related (R : Value → Value → Prop) : Cursor → Cursor → Prop where
  | context {c c' : Context} : c.Related R c' → Cursor.Related R (.context c) (.context c')
  | data {v w : Value} : R v w → Cursor.Related R (.data v) (.data w)

variable {c c' : Context} {cursor cursor' : Cursor}

theorem Context.related_top {v w : Value} (h : R v w) : (Context.top v).Related R (Context.top w) := ⟨h, .nil⟩

theorem Context.Related.enter (h : c.Related R c') {v w : Value} (hvw : R v w) :
    (c.enter v).Related R (c'.enter w) := ⟨hvw, .cons h.scope h.enclosing⟩

theorem Context.Related.root (h : c.Related R c') : R c.root c'.root := by
  obtain ⟨scope, enclosing⟩ := c
  obtain ⟨scope', enclosing'⟩ := c'
  obtain ⟨hscope, henclosing⟩ := h
  unfold Context.root
  dsimp only at *
  induction henclosing generalizing scope scope' with
  | nil => exact hscope
  | cons hv _ ih =>
    rw [List.getLastD_cons, List.getLastD_cons]
    exact ih _ _ hv

theorem Cursor.Related.value (h : cursor.Related R cursor') : R cursor.value cursor'.value := by
  cases h with
  | context hc => exact hc.scope
  | data hv => exact hv

theorem Cursor.Related.up (h : cursor.Related R cursor') : Option.Rel (Cursor.Related R) cursor.up cursor'.up := by
  cases h with
  | data hv => exact .none
  | @context c c' hc =>
    obtain ⟨scope, enclosing⟩ := c
    obtain ⟨scope', enclosing'⟩ := c'
    obtain ⟨-, henclosing⟩ := hc
    cases henclosing with
    | nil => exact .none
    | cons hv htail => exact .some (.context ⟨hv, htail⟩)

section
variable {root root' : Value}

/-- A step that takes a part of the data does so under a name that is not reserved. -/
theorem Cursor.Related.step (hR : Value.Matching R) (hroot : R root root') (h : cursor.Related R cursor')
    (segment : String) : Agree (Option.Rel (Cursor.Related R)) (cursor.step root segment) (cursor'.step root' segment) := by
  unfold Cursor.step
  by_cases hr : segment = rootSegment
  · rw [if_pos hr, if_pos hr]
    exact .ok (.some (.context (Context.related_top hroot)))
  by_cases hp : segment = parentSegment
  · rw [if_neg hr, if_pos hp, if_neg hr, if_pos hp]
    exact .ok h.up
  rw [if_neg hr, if_neg hp, if_neg hr, if_neg hp]
  exact (hR.part h.value hr hp).map fun _ _ hparts => rel_map (fun _ _ => .data) hparts

theorem Cursor.Related.walk (hR : Value.Matching R) (hroot : R root root') (h : cursor.Related R cursor')
    (path : List String) : Agree (Option.Rel (Cursor.Related R)) (cursor.walk root path) (cursor'.walk root' path) := by
  induction path generalizing cursor cursor' with
  | nil => exact .ok (.some h)
  | cons segment path ih =>
    have hstep := h.step hR hroot segment
    rw [Cursor.walk, Cursor.walk]
    generalize cursor.step root segment = x, cursor'.step root' segment = y at hstep
    cases hstep with
    | error fault => exact .error fault
    | ok hnext =>
      cases hnext with
      | none => exact .ok .none
      | some hnext => exact ih hnext

end

theorem Context.Related.extract (hR : Value.Matching R) (h : c.Related R c') (path : List String) :
    Agree (Option.Rel R) (c.extract path) (c'.extract path) :=
  (Cursor.Related.walk hR h.root (.context h) path).map fun _ _ hfound => rel_map (fun _ _ hv => hv.value) hfound

end

/-! ## Runs -/

/-- The converters give equal results, or fail alike, for related arguments. -/
def Registry.Blind (R E : Value → Value → Prop) (registry : Registry) : Prop :=
  ∀ name f, registry.find? name = some f → ∀ v w, R v w → Agree E (f v) (f w)

section
variable {R E : Value → Value → Prop} {registry : Registry} {enter enter' : String → Context → Run Value}
  {c c' : Context}

theorem agree_bind {α β : Type} {R : α → α → Prop} {S : β → β → Prop} {r r' : Run α} {f f' : α → Run β}
    (hr : Agree R r.outcome r'.outcome) (hf : ∀ a b, R a b → Agree S (f a).outcome (f' b).outcome) :
    Agree S (r >>= f).outcome (r' >>= f').outcome := by
  obtain ⟨events, x⟩ := r
  obtain ⟨events', y⟩ := r'
  cases hr with
  | error fault => exact .error fault
  | ok hab => exact hf _ _ hab

theorem agree_forEach {α β : Type} {R : α → α → Prop} {S : β → β → Prop} {f f' : α → Run β}
    (hf : ∀ a b, R a b → Agree S (f a).outcome (f' b).outcome) {as bs : List α} (h : List.Forall₂ R as bs) :
    Agree (List.Forall₂ S) (Run.forEach f as).outcome (Run.forEach f' bs).outcome := by
  induction h with
  | nil => exact .ok .nil
  | cons hab _ ih => exact agree_bind (hf _ _ hab) fun _ _ hb => agree_bind ih fun _ _ hbs => .ok (.cons hb hbs)

theorem agree_resolve (hE : Value.Equality E) (hblind : registry.Blind R E) (hc : c.Related R c')
    (henter : ∀ name c c', c.Related R c' → Agree E (enter name c).outcome (enter' name c').outcome)
    (target : String) {v w : Value} (hvw : R v w) :
    Agree E (resolve registry enter c target v).outcome (resolve registry enter' c' target w).outcome := by
  unfold resolve
  split
  · exact henter _ _ _ (hc.enter hvw)
  · split
    · exact .ok (hE.null.mpr rfl)
    · rename_i f hf
      have hfvw := hblind target f hf v w hvw
      dsimp only [Run.after]
      generalize f v = x, f w = y at hfvw
      cases hfvw with
      | error fault => exact .error _
      | ok hab => exact .ok hab

/-- A rule reads alike values in alike contexts, and both are null or none is. -/
theorem agree_evaluateRule (hR : Value.Matching R) (hE : Value.Equality E) (hblind : registry.Blind R E)
    (hc : c.Related R c')
    (henter : ∀ name c c', c.Related R c' → Agree E (enter name c).outcome (enter' name c').outcome) (r : Rule) :
    Agree E (r.evaluate registry enter c).outcome (r.evaluate registry enter' c').outcome := by
  have hresolve : ∀ v w, R v w →
      Agree E (resolve registry enter c r.target v).outcome (resolve registry enter' c' r.target w).outcome :=
    fun _ _ => agree_resolve hE hblind hc henter r.target
  have hempty : Agree E (pure (if r.isArray then .list [] else .null) : Run Value).outcome
      (pure (if r.isArray then .list [] else .null) : Run Value).outcome := by
    split
    · exact .ok (hE.list .nil)
    · exact .ok (hE.null.mpr rfl)
  have hextract := hc.extract hR r.path
  generalize hx : c.extract r.path = x, hy : c'.extract r.path = y at hextract
  cases hextract with
  | error fault =>
    rw [evaluateRule_of_refused hx, evaluateRule_of_refused hy]
    exact .error _
  | ok hfound =>
    cases hfound with
    | none =>
      rw [evaluateRule_of_nothing hx rfl, evaluateRule_of_nothing hy rfl]
      exact hempty
    | @some v w hvw =>
      by_cases hv : v = .null
      · rw [evaluateRule_of_nothing hx hv, evaluateRule_of_nothing hy ((hR.null hvw).mp hv)]
        exact hempty
      have hw : w ≠ .null := fun hw => hv ((hR.null hvw).mpr hw)
      rw [evaluateRule_of_value hx hv, evaluateRule_of_value hy hw]
      split
      · have hopened := hR.contents hvw
        generalize v.contents = a, w.contents = b at hopened
        cases hopened with
        | seq hitems => exact agree_bind (agree_forEach hresolve hitems) fun _ _ hvalues => .ok (hE.list hvalues)
        | dict hentries => exact .ok (hE.list .nil)
        | closed hseq _ hseq' _ =>
          split
          · exact absurd rfl (hseq _ _)
          · exact .ok (hE.list .nil)
      · exact hresolve v w hvw

theorem agree_evaluateItems {items : List Tree}
    (h : ∀ t ∈ items, Agree E (t.evaluate registry enter c).outcome (t.evaluate registry enter' c').outcome) :
    Agree (List.Forall₂ E) (Tree.evaluateItems registry enter c items).outcome
      (Tree.evaluateItems registry enter' c' items).outcome := by
  induction items with
  | nil => exact .ok .nil
  | cons t items ih =>
    obtain ⟨ht, hitems⟩ := List.forall_mem_cons.mp h
    exact agree_bind ht fun _ _ hv => agree_bind (ih hitems) fun _ _ hvs => .ok (.cons hv hvs)

theorem agree_evaluateEntries {entries : List (String × Tree)}
    (h : ∀ e ∈ entries, Agree E (e.2.evaluate registry enter c).outcome (e.2.evaluate registry enter' c').outcome) :
    Agree (List.Forall₂ fun e e' => e.1 = e'.1 ∧ E e.2 e'.2) (Tree.evaluateEntries registry enter c entries).outcome
      (Tree.evaluateEntries registry enter' c' entries).outcome := by
  induction entries with
  | nil => exact .ok .nil
  | cons e entries ih =>
    obtain ⟨he, hentries⟩ := List.forall_mem_cons.mp h
    exact agree_bind he fun _ _ hv => agree_bind (ih hentries) fun _ _ hvs => .ok (.cons ⟨rfl, hv⟩ hvs)

theorem agree_evaluate (hR : Value.Matching R) (hE : Value.Equality E) (hblind : registry.Blind R E)
    (hc : c.Related R c')
    (henter : ∀ name c c', c.Related R c' → Agree E (enter name c).outcome (enter' name c').outcome) (t : Tree) :
    Agree E (t.evaluate registry enter c).outcome (t.evaluate registry enter' c').outcome := by
  induction t using Tree.inductionOn with
  | leaf rule => exact agree_evaluateRule hR hE hblind hc henter rule
  | list items ih => exact agree_bind (agree_evaluateItems ih) fun _ _ hvs => .ok (hE.list hvs)
  | dict entries ih => exact agree_bind (agree_evaluateEntries ih) fun _ _ hvs => .ok (hE.table hvs)

/-- One entry after another: the depth that is left is what the induction is on. -/
theorem agree_enterNested (hR : Value.Matching R) (hE : Value.Equality E) (hblind : registry.Blind R E)
    (nested : Nested) (depth : Nat) (name : String) (hc : c.Related R c') :
    Agree E (enterNested registry nested depth name c).outcome (enterNested registry nested depth name c').outcome := by
  induction depth generalizing name c c' with
  | zero =>
    rw [enterNested, enterNested]
    split <;> exact .error _
  | succ depth ih =>
    rw [enterNested, enterNested]
    split
    · exact .error _
    · exact agree_evaluate hR hE hblind hc (fun name _ _ hc => ih name hc) _

theorem agree_runWithin (hR : Value.Matching R) (hE : Value.Equality E) (hblind : registry.Blind R E)
    (t : Transformation) {v w : Value} (h : R v w) (depth : Nat) :
    Agree E (t.runWithin depth registry v).outcome (t.runWithin depth registry w).outcome :=
  agree_evaluate hR hE hblind (Context.related_top h)
    (fun name _ _ hc => agree_enterNested hR hE hblind t.nested depth name hc) _

/-- Inputs that are equal but for the entries under reserved names, at any depth of them, are transformed
with one outcome: the run on one ends if that on the other does, with an equal value or with the same
fault. All it takes is that the converters do the same with alike parts of the two inputs. -/
theorem reserved_names_are_not_read (hE : Value.Equality E) {data data' : Value} (h : data.Alike E data')
    (hblind : registry.Blind (Value.AlikeParts E data data') E) (t : Transformation) {run : Run Value}
    (hends : t.Ends registry data run) : ∃ run', t.Ends registry data' run' ∧ Agree E run.outcome run'.outcome := by
  obtain ⟨depth, rfl, hdeep⟩ := hends
  have hR := Value.matching_alikeParts hE data data'
  have hagree := agree_runWithin hR hE hblind t ⟨.refl, .refl, h⟩ depth
  refine ⟨_, ⟨depth, rfl, fun hdeep' => hdeep ?_⟩, hagree⟩
  generalize (t.runWithin depth registry data).outcome = x, (t.runWithin depth registry data').outcome = y at *
  cases hagree with
  | error fault => exact hdeep'
  | ok hab => cases hdeep'

end

section
open Value Transformation

/-- On finite values the converter `int` looks at nothing of a container but its kind. -/
theorem asInteger_eq_of_alike {v w : Value} (hv : v.isFinite = true) (hw : w.isFinite = true) (h : v.Alike Eq w) :
    Builtin.asInteger v = Builtin.asInteger w := by
  have h1 : v.unreserved 1 = w.unreserved 1 := h 1
  cases v <;> cases w <;> simp_all [unreserved, contents, isFinite]
  all_goals rfl

theorem blind_integers {data data' : Value} (hdata : data.isFinite = true) (hdata' : data'.isFinite = true) :
    integers.Blind (AlikeParts Eq data data') Eq := by
  rintro name f hf v w ⟨hv, hw, hvw⟩
  have hint : f = Builtin.asInteger := by
    unfold integers Registry.find? at hf
    rw [List.lookup_cons] at hf
    split at hf
    · exact (Option.some.inj hf).symm
    · cases hf
  rw [hint, asInteger_eq_of_alike (hv.isFinite hdata) (hw.isFinite hdata') hvw]
  cases Builtin.asInteger w with
  | error fault => exact .error fault
  | ok n => exact .ok rfl

/-- The number under `n` three times: read from the root, from there in a row and from around the row. -/
def climbing : Transformation :=
  ⟨.dict [("n", .leaf ⟨["$root", "n"], "int", false⟩), ("rows", .leaf ⟨["rows"], "$row", true⟩)],
    [("$row", .list [.leaf ⟨["$root", "n"], "int", false⟩, .leaf ⟨["$parent", "n"], "int", false⟩])]⟩

def withReserved : Value := .dict [(.str "$root", .dict [(.str "n", .int 8)]), (.str "n", .int 7),
  (.str "rows", .list [.dict [(.str "$parent", .dict [(.str "n", .int 9)])]])]

def withoutReserved : Value := .dict [(.str "n", .int 7), (.str "rows", .list [.dict []])]

theorem sevens_are_read : ∃ run', climbing.Ends integers withoutReserved run' ∧
    run'.outcome = .ok (.dict [(.str "n", .int 7), (.str "rows", .list [.list [.int 7, .int 7]])]) := by
  have halike : withReserved.Alike Eq withoutReserved := by
    intro n
    match n with
    | 0 | 1 | 2 | n + 3 => rfl
  have hblind : integers.Blind (AlikeParts Eq withReserved withoutReserved) Eq := blind_integers (by rfl) (by rfl)
  have houtcome : (climbing.runWithin 1 integers withReserved).outcome =
      .ok (.dict [(.str "n", .int 7), (.str "rows", .list [.list [.int 7, .int 7]])]) := by rfl
  have hends : climbing.Ends integers withReserved (climbing.runWithin 1 integers withReserved) := by
    refine ⟨1, rfl, ?_⟩
    rw [houtcome]
    intro h
    cases h
  obtain ⟨run', hends', hagree⟩ := reserved_names_are_not_read equality_eq halike hblind climbing hends
  refine ⟨run', hends', ?_⟩
  rw [houtcome] at hagree
  generalize run'.outcome = x at hagree
  cases hagree with
  | ok h => exact congrArg _ h.symm

end

end Reshape
