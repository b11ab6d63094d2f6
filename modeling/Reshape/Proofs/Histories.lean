/-
  Reshape.Proofs.Histories: what a session keeps over its steps.

  Registries only gain names, whatever is registered on them, accepted or refused, and compiled
  transformations stay what they are. So a transformation that was compiled against a registry finds
  all its converters there ever after, and its document compiles to it again.
  - `Session.grows_step`, `Session.grows_run`: no step and no run takes a name or a transformation away.
  - `Transformation.Covered`: the registry has a converter for every rule that names one. Then no
    evaluation misses one (`Covered.quiet_runWithin`).
  - `Session.compiled_stays_covered`: so it is for every compiled transformation at every later time.
-/

import Reshape.Log
import Reshape.Proofs.Faults
import Reshape.Proofs.Reading
import Reshape.Session

namespace Reshape

/-! ## Registries -/

namespace Registry

theorem has_put {r : Registry} {name : String} (h : r.has name = true) (key : String) (f : Converter) :
    (⟨Entries.put key f r.entries⟩ : Registry).has name = true := by
  unfold has find? at h ⊢
  by_cases hk : name = key
  · subst hk
    rw [Entries.lookup_put_self]
    rfl
  · rwa [Entries.lookup_put_of_ne hk]

theorem has_register {r r' : Registry} {key : Value} {c : Candidate} (hr : r.register key c = .ok r') {name : String}
    (h : r.has name = true) : r'.has name = true := by
  unfold register at hr
  split at hr
  · split at hr
    · cases hr
    · split at hr
      · cases hr
      · split at hr <;> cases hr
        exact has_put h _ _
  · cases hr

/-- Also if the batch is refused: what comes before the refused entry stays. -/
theorem has_registerAll {r : Registry} {name : String} (h : r.has name = true) (batch : List (Key × Candidate)) :
    (r.registerAll batch).1.has name = true := by
  induction batch generalizing r with
  | nil => exact h
  | cons e batch ih =>
    rw [registerAll]
    split
    · rename_i hr
      exact ih (has_register hr h)
    · exact h

end Registry

/-! ## Sessions -/

namespace Session

/-- Every registry has the names it had, and the transformations are those compiled before and newer ones. -/
structure Grows (s s' : Session) : Prop where
  has : ∀ cell name, (s.registryAt cell).has name = true → (s'.registryAt cell).has name = true
  compiled : s.compiled <+: s'.compiled

theorem Grows.refl (s : Session) : s.Grows s := ⟨fun _ _ => id, List.prefix_refl _⟩

theorem Grows.trans {s s' s'' : Session} (h : s.Grows s') (h' : s'.Grows s'') : s.Grows s'' :=
  ⟨fun cell name hname => h'.has cell name (h.has cell name hname), h.compiled.trans h'.compiled⟩

theorem grows_setRegistry (s : Session) {cell : Nat} {r : Registry}
    (h : ∀ name, (s.registryAt cell).has name = true → r.has name = true) : s.Grows (s.setRegistry cell r) := by
  refine ⟨fun cell' name hname => ?_, List.prefix_refl _⟩
  unfold setRegistry registryAt
  by_cases hcell : cell = cell'
  · subst hcell
    by_cases hlt : cell < s.registries.length
    · simpa [List.getD, hlt] using h name hname
    · simpa [List.getD, hlt, registryAt] using hname
  · simpa [List.getD, hcell, registryAt] using hname

theorem grows_addRegistry (s : Session) (id : String) (batch : Batch) : s.Grows (s.addRegistry id batch).1 := by
  unfold addRegistry
  split
  split
  · exact .refl s
  · refine ⟨fun cell name hname => ?_, List.prefix_refl _⟩
    unfold registryAt at hname ⊢
    by_cases hlt : cell < s.registries.length
    · simpa [bindHandle, List.getD, List.getElem?_append_left hlt] using hname
    · have hnone : s.registries[cell]? = none := List.getElem?_eq_none (Nat.le_of_not_lt hlt)
      simp [List.getD, hnone, Registry.has, Registry.find?, Registry.empty] at hname

theorem grows_extend (s : Session) (cell : Nat) (batch : Batch) : s.Grows (s.extend cell batch).1 :=
  s.grows_setRegistry fun _ hname => Registry.has_registerAll hname batch

theorem grows_step (limit : Nat) (s : Session) (action : Step) : s.Grows (s.step limit action).1 := by
  cases action with
  | newRegistry id batch => exact s.grows_addRegistry id batch
  | newEngine id batch shared =>
    cases shared with
    | none => exact s.grows_addRegistry id batch
    | some shared =>
      rw [step]
      split
      · exact .refl s
      · rename_i cell _
        have h := s.grows_extend cell batch
        dsimp only
        split
        · exact h
        · exact ⟨h.has, h.compiled⟩
  | register on name candidate =>
    rw [step]
    split
    · exact .refl s
    · split
      · rename_i hr
        exact s.grows_setRegistry fun _ hname => Registry.has_register hr hname
      · exact .refl s
  | registerAll on batch =>
    rw [step]
    split
    · exact .refl s
    · exact s.grows_extend _ batch
  | compile on id document =>
    rw [step]
    split
    · exact .refl s
    · split
      · exact .refl s
      · exact ⟨fun _ _ hname => hname, List.prefix_append _ _⟩
  | _ => exact .refl s

theorem grows_run (limit : Nat) (s : Session) (actions : List Step) : s.Grows (s.run limit actions).1 := by
  induction actions generalizing s with
  | nil => exact .refl s
  | cons action actions ih => exact (s.grows_step limit action).trans (ih _)

end Session

/-! ## Converters that are all there -/

namespace Transformation

/-- No call has missed its converter. -/
def Quiet (events : List Event) (_ : Option EvaluationFault) : Prop :=
  ∀ name argument, Event.missing name argument ∉ events

theorem composes_quiet : Composes Quiet := by
  refine ⟨fun _ _ => List.not_mem_nil, ?_⟩
  intro events events' fault? h h' name argument hmem
  rcases List.mem_append.mp hmem with hmem | hmem
  · exact h name argument hmem
  · exact h' name argument hmem

theorem quiet_of_ne {event : Event} (h : ∀ name argument, event ≠ .missing name argument)
    (fault? : Option EvaluationFault) : Quiet [event] fault? := by
  intro name argument hmem
  exact h name argument (List.mem_singleton.mp hmem).symm

/-- Nothing is logged about an evaluation that misses no converter. -/
theorem ofEvents_of_quiet {events : List Event} {fault? : Option EvaluationFault} (h : Quiet events fault?) :
    Log.ofEvents events = [] := by
  rw [Log.ofEvents, List.filterMap_eq_nil_iff]
  intro event hevent
  cases event with
  | missing name argument => exact absurd hevent (h name argument)
  | _ => rfl

/-- The registry has a converter for every rule that names one. -/
def Covered (t : Transformation) (registry : Registry) : Prop :=
  ∀ r, t.HasRule r → r.isNested = false → registry.has r.target = true

variable {t : Transformation} {registry : Registry}

theorem quiet_evaluate {enter : String → Context → Run Value} (henter : ∀ name c, (enter name c).Satisfies Quiet)
    {u : Tree} (hu : ∀ r ∈ u.rules, r.isNested = false → registry.has r.target = true) (c : Context) :
    (u.evaluate registry enter c).Satisfies Quiet := by
  have hR := composes_quiet.sequential
  refine hR.evaluate registry registry enter enter fun r hr => ?_
  refine hR.evaluateRule registry registry enter enter (fun _ _ => composes_quiet.nil) fun w _ => ?_
  unfold resolve
  split
  · exact henter _ _
  · rename_i hn
    obtain ⟨f, hf⟩ := Option.isSome_iff_exists.mp (hu r hr (by simpa [Rule.isNested] using hn))
    rw [hf]
    exact quiet_of_ne (by simp) _

/-- One entry after another, to any depth. -/
theorem Covered.quiet_enterNested (h : t.Covered registry) (depth : Nat) (name : String) (c : Context) :
    (enterNested registry t.nested depth name c).Satisfies Quiet := by
  induction depth generalizing name c with
  | zero =>
    rw [enterNested]
    split <;> exact composes_quiet.nil
  | succ depth ih =>
    rw [enterNested]
    split
    · exact composes_quiet.nil
    · rename_i u hl
      exact composes_quiet.append (quiet_of_ne (by simp) none)
        (quiet_evaluate ih (fun r hr => h r (Or.inr ⟨name, u, hl, hr⟩)) c)

theorem Covered.quiet_runWithin (h : t.Covered registry) (depth : Nat) (data : Value) :
    (t.runWithin depth registry data).Satisfies Quiet :=
  quiet_evaluate (h.quiet_enterNested depth) (fun r hr => h r (Or.inl hr)) _

/-- The converters that were known when a document compiled cover its transformation. -/
theorem covered_of_compile {document : Value} (h : compile registry.has document = .ok t) : t.Covered registry := by
  obtain ⟨d, -, hnested, hproperties, -⟩ := compile_eq_ok_iff.mp h
  have hnamed := named_explained registry.has d
  rw [hnested] at hnamed
  have hfaithful : Explained (Entries.keys t.nested) registry.has d.properties _ :=
    compile_explained d.properties [.key "properties"]
  rw [(Tree.compile_eq_ok_iff ..).mpr hproperties] at hfaithful
  have hthere : ∀ r : Rule, Rule.TargetKnown (Entries.keys t.nested) registry.has r.target → r.isNested = false →
      registry.has r.target = true := by
    intro r hr hn
    rwa [Rule.TargetKnown, if_neg (by simpa [Rule.isNested] using hn)] at hr
  intro r hr
  rcases hr with hr | ⟨n, u, hl, hr⟩
  · exact hthere r (hfaithful.targets r hr).2
  · exact hthere r (hnamed.targets n u hl r hr).2

end Transformation

namespace Session

variable {limit : Nat}

/-- What a step that compiles has done. -/
theorem step_compile {s s' : Session} {on id : String} {document : Value} {t : Transformation}
    (h : s.step limit (.compile on id document) = (s', .ok (.transformation t))) :
    ∃ cell, s.cell on = .ok cell ∧ Transformation.compile (s.registryAt cell).has document = .ok t ∧
      s'.registries = s.registries ∧ s'.compiled = s.compiled ++ [⟨t, cell⟩] := by
  rw [step] at h
  split at h
  · cases h
  · rename_i cell hcell
    split at h
    · cases h
    · rename_i t' ht
      cases h
      exact ⟨cell, hcell, ht, rfl, rfl⟩

theorem step_compile_of_ok {s : Session} {on id : String} {cell : Nat} {document : Value} {t : Transformation}
    (hcell : s.cell on = .ok cell) (hcompile : Transformation.compile (s.registryAt cell).has document = .ok t) :
    s.step limit (.compile on id document) =
      ({ s with
          compiled := s.compiled ++ [⟨t, cell⟩],
          transformations := Entries.put id s.compiled.length s.transformations }, .ok (.transformation t)) := by
  rw [step, hcell]
  dsimp only
  rw [hcompile]

/-- What is compiled stays compiled against its registry. At any later time that registry has all its
converters: no evaluation with it misses one or logs a record, and the document compiles against it to
the same transformation again. -/
theorem compiled_stays_covered {s s' : Session} {on id : String} {document : Value} {t : Transformation}
    (h : s.step limit (.compile on id document) = (s', .ok (.transformation t))) (later : List Step) :
    let s'' := (s'.run limit later).1
    ∃ cell, s.cell on = .ok cell ∧ s''.compiled[s.compiled.length]? = some ⟨t, cell⟩ ∧
      (∀ depth data name argument,
        .missing name argument ∉ (t.runWithin depth (s''.registryAt cell) data).events) ∧
      (∀ depth data, Log.ofEvents (t.runWithin depth (s''.registryAt cell) data).events = []) ∧
      Transformation.compile (s''.registryAt cell).has document = .ok t := by
  intro s''
  obtain ⟨cell, hcell, hcompile, hregistries, hcompiled⟩ := step_compile h
  have hgrows : s'.Grows s'' := s'.grows_run limit later
  have hhas : ∀ name, (s.registryAt cell).has name = true → (s''.registryAt cell).has name = true := by
    intro name hname
    refine hgrows.has cell name ?_
    rwa [registryAt, hregistries]
  have hagain := Transformation.compile_mono hhas hcompile
  have hquiet := (Transformation.covered_of_compile hagain).quiet_runWithin
  refine ⟨cell, hcell, ?_, hquiet, fun depth data => Transformation.ofEvents_of_quiet (hquiet depth data), hagain⟩
  refine List.prefix_iff_getElem?.mp hgrows.compiled _ ?_ |>.trans ?_
  · simp [hcompiled]
  · simp [hcompiled]

/-- A session with one registry, and the same after a document was compiled against it. -/
def numbers : Session := ⟨[Transformation.integers], [("r", 0)], [], []⟩

def numbersCompiled : Session :=
  ⟨[Transformation.integers], [("r", 0)], [⟨Transformation.numbering, 0⟩], [("t", 0)]⟩

/-- A batch that is refused at its second entry, after the first one has replaced the converter in use. -/
def refusedBatch : Step :=
  .registerAll "r" [(.str "int", .converter Builtin.asFloat), (.str "$n", .converter Builtin.asInteger)]

theorem numbering_stays_covered :
    numbers.step 8 (.compile "r" "t" (.dict [(.str "properties", .str "n:int")])) =
      (numbersCompiled, .ok (.transformation Transformation.numbering)) ∧
    ∃ cell, numbers.cell "r" = .ok cell ∧ ∀ depth data name argument, .missing name argument ∉
      (Transformation.numbering.runWithin depth
        ((numbersCompiled.run 8 [refusedBatch]).1.registryAt cell) data).events := by
  have hstep : numbers.step 8 (.compile "r" "t" (.dict [(.str "properties", .str "n:int")])) =
      (numbersCompiled, .ok (.transformation Transformation.numbering)) :=
    step_compile_of_ok rfl (Transformation.link_of_flat Transformation.numbering rfl)
  obtain ⟨cell, hcell, -, hquiet, -⟩ := compiled_stays_covered hstep [refusedBatch]
  exact ⟨hstep, cell, hcell, hquiet⟩

end Session

end Reshape
