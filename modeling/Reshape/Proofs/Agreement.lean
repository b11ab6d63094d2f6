/-
  Reshape.Proofs.Agreement: the order of entries is no matter to what becomes of a tree.

  Trees that differ in the order of entries only succeed on the same inputs. Their results are then the
  same, but for the order of entries in the dictionaries that the trees make: the items of lists stay
  in their order, and what a converter gives stays as it is.
  - `Run.Agree`: two runs succeed together, with related values.
  - `Run.forEach_eq_ok_iff`, `Tree.evaluateItems_eq_ok_iff`, `Tree.evaluateEntries_eq_ok_iff`: a list or table
    succeeds if all of its parts do, whichever comes first.
  - `Tree.Reordered.agrees`, `entersAlike_enterNested`: trees, and nested mappings down to any depth.
  - `Transformation.Reordered.agree`: whole runs.
-/

import Reshape.Proofs.Rulewise

namespace Reshape

/-! ## Runs that agree -/

namespace Run

variable {α β γ δ : Type}

/-- Where one run ends with a value so does the other, and the two values are related. -/
structure Agree (R : α → β → Prop) (r : Run α) (r' : Run β) : Prop where
  forth : ∀ a, r.outcome = .ok a → ∃ b, r'.outcome = .ok b ∧ R a b
  back : ∀ b, r'.outcome = .ok b → ∃ a, r.outcome = .ok a ∧ R a b

theorem outcome_bind_eq_ok_iff {r : Run α} {f : α → Run β} {b : β} :
    (r >>= f).outcome = .ok b ↔ ∃ a, r.outcome = .ok a ∧ (f a).outcome = .ok b := by
  cases h : r.outcome with
  | error fault => simp [bind_of_error h]
  | ok a => simp [bind_of_ok h]

/-- Runs for all elements give the results of the runs for each. -/
theorem forEach_eq_ok_iff {f : α → Run β} {as : List α} {bs : List β} :
    (forEach f as).outcome = .ok bs ↔ List.Forall₂ (fun a b => (f a).outcome = .ok b) as bs := by
  induction as generalizing bs with
  | nil =>
    rw [forEach, List.forall₂_nil_left_iff]
    exact ⟨fun h => (Except.ok.inj h).symm, fun h => h ▸ rfl⟩
  | cons a as ih =>
    simp only [forEach, outcome_bind_eq_ok_iff, ih, List.forall₂_cons_left_iff]
    constructor
    · rintro ⟨b, hb, bs, hbs, heq⟩
      cases heq
      exact ⟨b, bs, hb, hbs, rfl⟩
    · rintro ⟨b, bs, hb, hbs, rfl⟩
      exact ⟨b, hb, bs, hbs, rfl⟩

variable {R : α → β → Prop} {S : γ → δ → Prop} {r : Run α} {r' : Run β}

theorem Agree.symm (h : Agree R r r') : Agree (flip R) r' r := ⟨h.back, h.forth⟩

theorem agree_pure {a : α} {b : β} (h : R a b) : Agree R (pure a) (pure b) := by
  constructor
  · intro a' ha
    cases ha
    exact ⟨b, rfl, h⟩
  · intro b' hb
    cases hb
    exact ⟨a, rfl, h⟩

theorem agree_fail {fault fault' : EvaluationFault} : Agree R (fail fault) (fail fault') := ⟨nofun, nofun⟩

theorem agree_self {R : α → α → Prop} (h : ∀ a, R a a) (r : Run α) : Agree R r r :=
  ⟨fun a ha => ⟨a, ha, h a⟩, fun a ha => ⟨a, ha, h a⟩⟩

theorem Agree.imp {T : α → β → Prop} (h : Agree R r r') (hRT : ∀ a b, R a b → T a b) : Agree T r r' := by
  constructor
  · intro a ha
    exact (h.forth a ha).imp fun b hb => hb.imp_right (hRT a b)
  · intro b hb
    exact (h.back b hb).imp fun a ha => ha.imp_right (hRT a b)

theorem Agree.trans {T : β → γ → Prop} {r'' : Run γ} (h : Agree R r r') (h' : Agree T r' r'') :
    Agree (Relation.Comp R T) r r'' := by
  constructor
  · intro a ha
    obtain ⟨b, hb, hab⟩ := h.forth a ha
    obtain ⟨c, hc, hbc⟩ := h'.forth b hb
    exact ⟨c, hc, b, hab, hbc⟩
  · intro c hc
    obtain ⟨b, hb, hbc⟩ := h'.back c hc
    obtain ⟨a, ha, hab⟩ := h.back b hb
    exact ⟨a, ha, b, hab, hbc⟩

theorem Agree.after (h : Agree R r r') (event event' : Event) : Agree R (r.after event) (r'.after event') :=
  ⟨h.forth, h.back⟩

theorem Agree.bind_forth {f : α → Run γ} {f' : β → Run δ} (h : Agree R r r')
    (hf : ∀ a b, R a b → Agree S (f a) (f' b)) (c : γ) (hc : (r >>= f).outcome = .ok c) :
    ∃ d, (r' >>= f').outcome = .ok d ∧ S c d := by
  obtain ⟨a, ha, hc⟩ := outcome_bind_eq_ok_iff.mp hc
  obtain ⟨b, hb, hab⟩ := h.forth a ha
  obtain ⟨d, hd, hcd⟩ := (hf a b hab).forth c hc
  exact ⟨d, outcome_bind_eq_ok_iff.mpr ⟨b, hb, hd⟩, hcd⟩

theorem Agree.bind {f : α → Run γ} {f' : β → Run δ} (h : Agree R r r')
    (hf : ∀ a b, R a b → Agree S (f a) (f' b)) : Agree S (r >>= f) (r' >>= f') :=
  ⟨h.bind_forth hf, h.symm.bind_forth fun b a hab => (hf a b hab).symm⟩

theorem agree_forEach {f : γ → Run α} {f' : γ → Run β} {cs : List γ} (h : ∀ c ∈ cs, Agree R (f c) (f' c)) :
    Agree (List.Forall₂ R) (forEach f cs) (forEach f' cs) := by
  induction cs with
  | nil => exact agree_pure .nil
  | cons c cs ih =>
    obtain ⟨hc, hcs⟩ := List.forall_mem_cons.mp h
    exact hc.bind fun a b hab => (ih hcs).bind fun as bs hrest => agree_pure (.cons hab hrest)

end Run

/-! ## Trees in another order -/

namespace Tree

/-- The same tree, but for the order of the entries of its dictionaries. -/
inductive Reordered : Tree → Tree → Prop where
  | leaf (rule : Rule) : Reordered (.leaf rule) (.leaf rule)
  | list {ts ts' : List Tree} : List.Forall₂ Reordered ts ts' → Reordered (.list ts) (.list ts')
  | dict {es between es' : List (String × Tree)} : Entries.keys es = Entries.keys between →
      List.Forall₂ (fun e e' => Reordered e.2 e'.2) es between → between.Perm es' → Reordered (.dict es) (.dict es')

@[elab_as_elim]
theorem Reordered.inductionOn {motive : Tree → Tree → Prop} {t t' : Tree} (h : t.Reordered t')
    (leaf : ∀ rule, motive (.leaf rule) (.leaf rule))
    (list : ∀ ts ts', List.Forall₂ motive ts ts' → motive (.list ts) (.list ts'))
    (dict : ∀ es between es', Entries.keys es = Entries.keys between →
      List.Forall₂ (fun e e' => motive e.2 e'.2) es between → between.Perm es' → motive (.dict es) (.dict es')) :
    motive t t' := by
  refine @Reordered.rec (fun t t' _ => motive t t') (fun ts ts' _ => List.Forall₂ motive ts ts')
    (fun es es' _ => List.Forall₂ (fun e e' => motive e.2 e'.2) es es') ?_ ?_ ?_ ?_ ?_ ?_ ?_ t t' h
  · exact leaf
  · intro ts ts' _ ih
    exact list ts ts' ih
  · intro es between es' hkeys _ hperm ih
    exact dict es between es' hkeys ih hperm
  · exact .nil
  · intro t t' ts ts' _ _ ht hts
    exact .cons ht hts
  · exact .nil
  · intro e e' es es' _ _ he hes
    exact .cons he hes

theorem Reordered.refl (t : Tree) : t.Reordered t := by
  induction t using Tree.inductionOn with
  | leaf rule => exact .leaf rule
  | list items ih => exact .list (List.forall₂_same.mpr ih)
  | dict entries ih => exact .dict rfl (List.forall₂_same.mpr ih) (.refl _)

/-- No rule is lost or new. -/
theorem Reordered.mem_rules {t t' : Tree} (h : t.Reordered t') (r : Rule) : r ∈ t.rules ↔ r ∈ t'.rules := by
  refine h.inductionOn (motive := fun t t' => r ∈ t.rules ↔ r ∈ t'.rules) ?leaf ?list ?dict
  case leaf => exact fun _ => Iff.rfl
  case list =>
    intro ts ts' hts
    rw [rules, rules, mem_rulesOfItems, mem_rulesOfItems]
    constructor
    · rintro ⟨t, ht, hr⟩
      obtain ⟨t', ht', hiff⟩ := exists_of_mem_left hts ht
      exact ⟨t', ht', hiff.mp hr⟩
    · rintro ⟨t', ht', hr⟩
      obtain ⟨t, ht, hiff⟩ := exists_of_mem_right hts ht'
      exact ⟨t, ht, hiff.mpr hr⟩
  case dict =>
    intro es between es' _ hes hperm
    rw [rules, rules, mem_rulesOfEntries, mem_rulesOfEntries]
    constructor
    · rintro ⟨e, he, hr⟩
      obtain ⟨e', he', hiff⟩ := exists_of_mem_left hes he
      exact ⟨e', hperm.mem_iff.mp he', hiff.mp hr⟩
    · rintro ⟨e', he', hr⟩
      obtain ⟨e, he, hiff⟩ := exists_of_mem_right hes (hperm.mem_iff.mpr he')
      exact ⟨e, he, hiff.mpr hr⟩

/-- Under each name there is the same in both tables, in another order, or nothing. -/
theorem Reordered.lookup {nested nested' : Nested} (h : (Tree.dict nested).Reordered (.dict nested'))
    (hnodup : (Entries.keys nested).Nodup) (n : String) :
    (∃ u u', nested.lookup n = some u ∧ nested'.lookup n = some u' ∧ u.Reordered u') ∨
      nested.lookup n = none ∧ nested'.lookup n = none := by
  cases h with
  | @dict _ between _ hkeys hes hperm =>
    rw [← Entries.lookup_perm hperm (hkeys ▸ hnodup) n]
    clear hperm hnodup
    induction hes with
    | nil => exact Or.inr ⟨rfl, rfl⟩
    | @cons e e' es between he _ ih =>
      obtain ⟨hkey, hkeys⟩ := List.cons.inj hkeys
      rw [List.lookup_cons, List.lookup_cons, ← hkey]
      by_cases hn : (n == e.1) = true
      · rw [hn]
        exact Or.inl ⟨_, _, rfl, rfl, he⟩
      · rw [Bool.not_eq_true] at hn
        rw [hn]
        exact ih hkeys

/-! ## Results in another order -/

mutual
/-- Both are what the tree makes, in the same order but for the entries of the dictionaries that it
makes. -/
inductive Alike (nested : Nested) : Tree → Value → Value → Prop where
  /-- What a converter gives, null or the empty list. -/
  | given {rule : Rule} (v : Value) : Alike nested (.leaf rule) v v
  | entered {rule : Rule} {u : Tree} {v v' : Value} : rule.isNested = true → rule.isArray = false →
      nested.lookup rule.target = some u → Alike nested u v v' → Alike nested (.leaf rule) v v'
  | each {rule : Rule} {u : Tree} {vs vs' : List Value} : rule.isNested = true → rule.isArray = true →
      nested.lookup rule.target = some u → AlikeItems nested (List.replicate vs.length u) vs vs' →
      Alike nested (.leaf rule) (.list vs) (.list vs')
  | list {ts : List Tree} {vs vs' : List Value} : AlikeItems nested ts vs vs' →
      Alike nested (.list ts) (.list vs) (.list vs')
  | dict {es : List (String × Tree)} {rs between rs' : List (Key × Value)} : AlikeEntries nested es rs between →
      between.Perm rs' → Alike nested (.dict es) (.dict rs) (.dict rs')
inductive AlikeItems (nested : Nested) : List Tree → List Value → List Value → Prop where
  | nil : AlikeItems nested [] [] []
  | cons {t : Tree} {v v' : Value} {ts : List Tree} {vs vs' : List Value} : Alike nested t v v' →
      AlikeItems nested ts vs vs' → AlikeItems nested (t :: ts) (v :: vs) (v' :: vs')
inductive AlikeEntries (nested : Nested) : List (String × Tree) → List (Key × Value) → List (Key × Value) → Prop where
  | nil : AlikeEntries nested [] [] []
  | cons {name : String} {t : Tree} {v v' : Value} {es : List (String × Tree)} {rs rs' : List (Key × Value)} :
      Alike nested t v v' → AlikeEntries nested es rs rs' →
      AlikeEntries nested ((name, t) :: es) ((.str name, v) :: rs) ((.str name, v') :: rs')
end

theorem alikeItems_replicate {nested : Nested} {u : Tree} {vs vs' : List Value}
    (h : List.Forall₂ (Alike nested u) vs vs') : AlikeItems nested (List.replicate vs.length u) vs vs' := by
  induction h with
  | nil => exact .nil
  | cons hv _ ih => exact .cons hv ih

/-! ## Evaluation -/

section
variable {registry : Registry} {nested : Nested} {enter enter' : String → Context → Run Value} {c : Context}

/-- What both give is alike for the tree of the nested mapping. -/
def NestedAlike (nested : Nested) (name : String) (v v' : Value) : Prop :=
  ∃ u, nested.lookup name = some u ∧ u.Alike nested v v'

def EntersAlike (nested : Nested) (enter enter' : String → Context → Run Value) : Prop :=
  ∀ name c, Run.Agree (NestedAlike nested name) (enter name c) (enter' name c)

theorem resolve_of_isNested {target : String} (h : isNestedName target = true) (w : Value) :
    resolve registry enter c target w = enter target (c.enter w) := by
  unfold resolve
  exact if_pos h

theorem resolve_of_not_isNested {target : String} (h : ¬ isNestedName target = true) :
    resolve registry enter c target = resolve registry enter' c target := by
  funext w
  unfold resolve
  exact (if_neg h).trans (if_neg h).symm

/-- The elements of a sequence are resolved one by one, each by the tree that the rule leads to. -/
theorem agree_each (h : EntersAlike nested enter enter') {rule : Rule} (hn : rule.isNested = true)
    (ha : rule.isArray = true) (items : List Value) :
    Run.Agree ((Tree.leaf rule).Alike nested)
      (do let vs ← Run.forEach (resolve registry enter c rule.target) items; pure (.list vs))
      (do let vs ← Run.forEach (resolve registry enter' c rule.target) items; pure (.list vs)) := by
  have heach : ∀ w ∈ items, Run.Agree (NestedAlike nested rule.target) (resolve registry enter c rule.target w)
      (resolve registry enter' c rule.target w) := by
    intro w _
    rw [resolve_of_isNested hn, resolve_of_isNested hn]
    exact h _ _
  refine (Run.agree_forEach heach).bind fun vs vs' hvs => Run.agree_pure ?_
  cases hl : nested.lookup rule.target with
  | none =>
    cases hvs with
    | nil => exact .given _
    | cons hv =>
      obtain ⟨u, hu, -⟩ := hv
      cases hl.symm.trans hu
  | some u =>
    refine .each hn ha hl (alikeItems_replicate (hvs.imp fun v v' hv => ?_))
    obtain ⟨u', hu, halike⟩ := hv
    cases hl.symm.trans hu
    exact halike

/-- Only rules that lead to a nested mapping can give anything else. -/
theorem agree_rule (h : EntersAlike nested enter enter') (rule : Rule) :
    Run.Agree ((Tree.leaf rule).Alike nested) (rule.evaluate registry enter c) (rule.evaluate registry enter' c) := by
  by_cases hn : rule.isNested = true
  · unfold Rule.evaluate
    dsimp only
    split
    · exact Run.agree_fail
    · exact Run.agree_self .given _
    · exact Run.agree_self .given _
    · by_cases ha : rule.isArray = true
      · rw [if_pos ha, if_pos ha]
        split
        · exact agree_each h hn ha _
        · exact Run.agree_self .given _
      · rw [if_neg ha, if_neg ha, resolve_of_isNested hn, resolve_of_isNested hn]
        refine (h _ _).imp fun v v' hv => ?_
        obtain ⟨u, hu, halike⟩ := hv
        exact .entered hn (Bool.eq_false_iff.mpr ha) hu halike
  · have hsame : rule.evaluate registry enter c = rule.evaluate registry enter' c := by
      unfold Rule.evaluate
      rw [resolve_of_not_isNested hn]
    rw [hsame]
    exact Run.agree_self .given _

/-- Evaluating the two trees gives what is alike for the first. -/
def Agrees (registry : Registry) (nested : Nested) (enter enter' : String → Context → Run Value) (c : Context)
    (t t' : Tree) : Prop :=
  Run.Agree (t.Alike nested) (t.evaluate registry enter c) (t'.evaluate registry enter' c)

theorem agree_items {ts ts' : List Tree} (h : List.Forall₂ (Agrees registry nested enter enter' c) ts ts') :
    Run.Agree (AlikeItems nested ts) (Tree.evaluateItems registry enter c ts)
      (Tree.evaluateItems registry enter' c ts') := by
  induction h with
  | nil => exact Run.agree_pure .nil
  | cons ht _ ih => exact ht.bind fun v v' hv => ih.bind fun vs vs' hvs => Run.agree_pure (.cons hv hvs)

theorem agree_entries {es es' : List (String × Tree)} (hkeys : Entries.keys es = Entries.keys es')
    (h : List.Forall₂ (fun e e' => Agrees registry nested enter enter' c e.2 e'.2) es es') :
    Run.Agree (AlikeEntries nested es) (Tree.evaluateEntries registry enter c es)
      (Tree.evaluateEntries registry enter' c es') := by
  induction h with
  | nil => exact Run.agree_pure .nil
  | @cons e e' es es' he _ ih =>
    obtain ⟨name, t⟩ := e
    obtain ⟨name', t'⟩ := e'
    obtain ⟨hkey, hrest⟩ := List.cons.inj hkeys
    cases hkey
    exact he.bind fun v v' hv => (ih hrest).bind fun rs rs' hrs => Run.agree_pure (.cons hv hrs)

/-- Items give these results if each of them gives its own. -/
theorem evaluateItems_eq_ok_iff {ts : List Tree} {vs : List Value} :
    (Tree.evaluateItems registry enter c ts).outcome = .ok vs ↔
      List.Forall₂ (fun t v => (t.evaluate registry enter c).outcome = .ok v) ts vs := by
  rw [Tree.evaluateItems_eq_forEach]
  exact Run.forEach_eq_ok_iff

/-- A table gives these results if each of its entries gives its own. -/
theorem evaluateEntries_eq_ok_iff {es : List (String × Tree)} {rs : List (Key × Value)} :
    (Tree.evaluateEntries registry enter c es).outcome = .ok rs ↔
      List.Forall₂ (fun e p => p.1 = .str e.1 ∧ (e.2.evaluate registry enter c).outcome = .ok p.2) es rs := by
  induction es generalizing rs with
  | nil =>
    rw [Tree.evaluateEntries, List.forall₂_nil_left_iff]
    exact ⟨fun h => (Except.ok.inj h).symm, fun h => h ▸ rfl⟩
  | cons e es ih =>
    obtain ⟨name, t⟩ := e
    simp only [Tree.evaluateEntries, Run.outcome_bind_eq_ok_iff, ih, List.forall₂_cons_left_iff]
    constructor
    · rintro ⟨v, hv, vs, hvs, hrs⟩
      cases hrs
      exact ⟨_, _, ⟨rfl, hv⟩, hvs, rfl⟩
    · rintro ⟨⟨k, v⟩, vs, ⟨hk, hv⟩, hvs, rfl⟩
      cases hk
      exact ⟨v, hv, vs, hvs, rfl⟩

theorem agree_perm {es es' : List (String × Tree)} (h : es.Perm es') :
    Run.Agree List.Perm (Tree.evaluateEntries registry enter c es) (Tree.evaluateEntries registry enter c es') := by
  have hforth : ∀ {es es' : List (String × Tree)} {rs : List (Key × Value)}, es'.Perm es →
      (Tree.evaluateEntries registry enter c es).outcome = .ok rs →
      ∃ rs', (Tree.evaluateEntries registry enter c es').outcome = .ok rs' ∧ rs'.Perm rs := by
    intro es es' rs hperm hrs
    obtain ⟨rs', hrs', hperm'⟩ := List.perm_comp_forall₂ hperm (evaluateEntries_eq_ok_iff.mp hrs)
    exact ⟨rs', evaluateEntries_eq_ok_iff.mpr hrs', hperm'⟩
  constructor
  · intro rs hrs
    obtain ⟨rs', hrs', hperm⟩ := hforth h.symm hrs
    exact ⟨rs', hrs', hperm.symm⟩
  · intro rs' hrs'
    exact hforth h hrs'

/-- Trees in another order give the same in another order, or both fail. By the way in which they differ:
entries are evaluated side by side first, and the second table is then put into its own order. -/
theorem Reordered.agrees (h : EntersAlike nested enter enter') {t t' : Tree} (ht : t.Reordered t') :
    Agrees registry nested enter enter' c t t' := by
  refine ht.inductionOn ?leaf ?list ?dict
  case leaf => exact fun rule => agree_rule h rule
  case list =>
    intro ts ts' hts
    exact (agree_items hts).bind fun vs vs' hvs => Run.agree_pure (.list hvs)
  case dict =>
    intro es between es' hkeys hes hperm
    refine ((agree_entries hkeys hes).trans (agree_perm hperm)).bind fun rs rs' hrs => Run.agree_pure ?_
    obtain ⟨middle, halike, hmiddle⟩ := hrs
    exact .dict halike hmiddle

end

end Tree

/-- One nested mapping after another: the induction is on the depth that is left. -/
theorem entersAlike_enterNested (registry : Registry) {nested nested' : Nested}
    (h : (Tree.dict nested).Reordered (.dict nested')) (hnodup : (Entries.keys nested).Nodup) (depth : Nat) :
    Tree.EntersAlike nested (enterNested registry nested depth) (enterNested registry nested' depth) := by
  induction depth with
  | zero =>
    intro name c
    rcases h.lookup hnodup name with ⟨u, u', hu, hu', -⟩ | ⟨hu, hu'⟩
    · rw [enterNested, enterNested, hu, hu']
      exact Run.agree_fail
    · rw [enterNested, enterNested, hu, hu']
      exact Run.agree_fail
  | succ depth ih =>
    intro name c
    rcases h.lookup hnodup name with ⟨u, u', hu, hu', hre⟩ | ⟨hu, hu'⟩
    · rw [enterNested, enterNested, hu, hu']
      exact ((hre.agrees ih).imp fun v v' hv => ⟨u, hu, hv⟩).after _ _
    · rw [enterNested, enterNested, hu, hu']
      exact Run.agree_fail

namespace Transformation

/-- The same transformation, but for the order of nested mappings and of entries. -/
structure Reordered (t t' : Transformation) : Prop where
  properties : t.properties.Reordered t'.properties
  nested : (Tree.dict t.nested).Reordered (.dict t'.nested)

/-- To any depth, both succeed or both fail, and their results are alike. -/
theorem Reordered.agree {t t' : Transformation} (h : t.Reordered t') (hnodup : (Entries.keys t.nested).Nodup)
    (depth : Nat) (registry : Registry) (data : Value) :
    Run.Agree (t.properties.Alike t.nested) (t.runWithin depth registry data) (t'.runWithin depth registry data) :=
  h.properties.agrees (entersAlike_enterNested registry h.nested hnodup depth)

end Transformation

end Reshape
