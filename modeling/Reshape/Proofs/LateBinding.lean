/-
  Reshape.Proofs.LateBinding: which converters an evaluation uses.

  A registry is the table of all entries that were accepted on it, the last one under each name. What
  an evaluation in a session answers depends on one registry and one transformation: the registry of
  the engine that transforms, the one that is named, or the one of the engine that compiled, as it is
  at that time. Nothing that is done elsewhere changes the answer.
  - `Registry.accepted`: the entries of a batch up to the first that is refused.
  - `Session.record`: all entries that the steps of a session register, and where.
  - `Session.Change`, `Session.change_step`: what a step makes of a session.
  - `Session.recorded_step`, `Session.recorded_run`: every registry is the table of what is recorded
    for it.
  - `Session.uses_step`, `Session.uses_run`: steps on other registries leave an evaluation what it is.
  - `Session.run_is_late_bound`: both, for every run of steps.
-/

import Reshape.Proofs.Histories

namespace Reshape

/-! ## Registries as tables -/

namespace Registry

/-- The entry that a name and a candidate make, if a registry accepts it. -/
def admitted? (name : Value) (c : Candidate) : Option (String × Converter) :=
  match name, c with
  | .str s, .converter f => if s ≠ "" ∧ isNestedName s = false then some (s, f) else none
  | _, _ => none

/-- The entries of a batch up to the first that is refused. -/
def accepted : List (Key × Candidate) → List (String × Converter)
  | [] => []
  | (name, c) :: batch => match admitted? name.toValue c with
    | some e => e :: accepted batch
    | none => []

def acceptsAll (batch : List (Key × Candidate)) : Bool := batch.all fun e => (admitted? e.1.toValue e.2).isSome

theorem register_of_admitted {name : Value} {c : Candidate} {e : String × Converter} (h : admitted? name c = some e)
    (r : Registry) : r.register name c = .ok ⟨Entries.put e.1 e.2 r.entries⟩ := by
  unfold admitted? at h
  split at h
  · split at h
    · rename_i hname
      cases h
      simp [register, hname]
    · cases h
  · cases h

theorem register_of_refused {name : Value} {c : Candidate} (h : admitted? name c = none) (r : Registry) :
    ∃ fault, r.register name c = .error fault := by
  cases hr : r.register name c with
  | error fault => exact ⟨fault, rfl⟩
  | ok r' =>
    unfold register at hr
    split at hr
    · split at hr
      · cases hr
      · split at hr
        · cases hr
        · rename_i hs hn
          cases c with
          | value v => cases hr
          | converter f => simp [admitted?, hs, hn] at h
    · cases hr

/-- A batch adds the entries that are accepted, also if it is refused in the end. -/
theorem registerAll_fst (r : Registry) (batch : List (Key × Candidate)) :
    (r.registerAll batch).1 = ⟨Entries.putAll r.entries (accepted batch)⟩ := by
  induction batch generalizing r with
  | nil => rfl
  | cons e batch ih =>
    obtain ⟨name, c⟩ := e
    rw [registerAll, accepted]
    cases he : admitted? name.toValue c with
    | some e =>
      rw [register_of_admitted he]
      exact ih _
    | none =>
      obtain ⟨fault, hfault⟩ := register_of_refused he r
      rw [hfault]
      rfl

theorem registerAll_snd (r : Registry) (batch : List (Key × Candidate)) :
    (r.registerAll batch).2 = none ↔ acceptsAll batch = true := by
  induction batch generalizing r with
  | nil => simp [registerAll, acceptsAll]
  | cons e batch ih =>
    obtain ⟨name, c⟩ := e
    rw [registerAll, acceptsAll, List.all_cons]
    cases he : admitted? name.toValue c with
    | some e =>
      rw [register_of_admitted he, Option.isSome_some, Bool.true_and]
      exact ih _
    | none =>
      obtain ⟨fault, hfault⟩ := register_of_refused he r
      simp [hfault]

/-- The last entry with a name is the one that is found. -/
theorem find?_ofTable (table : List (String × Converter)) (name : String) :
    (ofTable table).find? name = table.reverse.lookup name := by
  induction table using List.reverseRecOn with
  | nil => rfl
  | append_singleton table e ih =>
    obtain ⟨key, f⟩ := e
    have hput : (ofTable (table ++ [(key, f)])).entries = Entries.put key f (ofTable table).entries := by
      simp [ofTable, Entries.ofList, Entries.putAll]
    rw [List.reverse_append, List.reverse_singleton, List.singleton_append, List.lookup_cons, ← ih, find?, hput]
    by_cases hkey : name = key
    · subst hkey
      simp [Entries.lookup_put_self]
    · have hne : (name == key) = false := by simpa using hkey
      rw [Entries.lookup_put_of_ne hkey, hne, find?]

end Registry

namespace Session

variable {limit : Nat}

/-! ## What is registered -/

/-- The entries, each with the place of the registry. -/
def tagged (cell : Nat) (entries : List (String × Converter)) : List (Nat × String × Converter) :=
  entries.map fun e => (cell, e)

/-- What a step registers. A new registry whose batch is refused is no registry; on one that is there
the entries before the refused one stay. -/
def registrations (s : Session) : Step → List (Nat × String × Converter)
  | .newRegistry _ batch | .newEngine _ batch none =>
    if Registry.acceptsAll batch then tagged s.registries.length (Registry.accepted batch) else []
  | .newEngine _ batch (some on) | .registerAll on batch =>
    (s.handles.lookup on).elim [] fun cell => tagged cell (Registry.accepted batch)
  | .register on name c =>
    (s.handles.lookup on).elim [] fun cell => tagged cell (Registry.admitted? name c).toList
  | _ => []

/-- What the steps register, in their order. -/
def record (limit : Nat) (s : Session) : List Step → List (Nat × String × Converter)
  | [] => []
  | action :: actions => s.registrations action ++ (s.step limit action).1.record limit actions

/-- What is recorded for one registry. -/
def entriesOn (cell : Nat) (log : List (Nat × String × Converter)) : List (String × Converter) :=
  (log.filter fun e => e.1 = cell).map Prod.snd

@[simp] theorem entriesOn_append (cell : Nat) (log log' : List (Nat × String × Converter)) :
    entriesOn cell (log ++ log') = entriesOn cell log ++ entriesOn cell log' := by
  simp [entriesOn]

@[simp] theorem entriesOn_tagged (cell : Nat) (entries : List (String × Converter)) :
    entriesOn cell (tagged cell entries) = entries := by
  simp [entriesOn, tagged, List.filter_map, Function.comp_def]

theorem entriesOn_tagged_of_ne {cell cell' : Nat} (h : cell' ≠ cell) (entries : List (String × Converter)) :
    entriesOn cell (tagged cell' entries) = [] := by
  simp [entriesOn, tagged, List.filter_map, Function.comp_def, h]

/-- The registries are the tables of what is recorded for them, and every name and every transformation
belongs to one of them. -/
structure Recorded (s : Session) (log : List (Nat × String × Converter)) : Prop where
  registries : ∀ cell, s.registryAt cell = .ofTable (entriesOn cell log)
  log : ∀ e ∈ log, e.1 < s.registries.length
  handles : ∀ id cell, s.handles.lookup id = some cell → cell < s.registries.length
  compiled : ∀ c ∈ s.compiled, c.registry < s.registries.length

section
variable {s : Session} {log : List (Nat × String × Converter)} {cell : Nat}

@[simp] theorem length_setRegistry (s : Session) (cell : Nat) (r : Registry) :
    (s.setRegistry cell r).registries.length = s.registries.length := List.length_set

theorem registryAt_setRegistry (hcell : cell < s.registries.length) (r : Registry) (cell' : Nat) :
    (s.setRegistry cell r).registryAt cell' = if cell' = cell then r else s.registryAt cell' := by
  unfold setRegistry registryAt
  by_cases h : cell' = cell
  · subst h
    simp [List.getD, hcell]
  · simp [List.getD, h, Ne.symm h]

theorem ofTable_append (table entries : List (String × Converter)) :
    Registry.ofTable (table ++ entries) = ⟨Entries.putAll (Registry.ofTable table).entries entries⟩ := by
  simp [Registry.ofTable, Entries.ofList, Entries.putAll]

theorem Recorded.setRegistry (h : s.Recorded log) (hcell : cell < s.registries.length)
    (entries : List (String × Converter)) :
    (s.setRegistry cell ⟨Entries.putAll (s.registryAt cell).entries entries⟩).Recorded
      (log ++ tagged cell entries) := by
  have hlength := length_setRegistry s cell ⟨Entries.putAll (s.registryAt cell).entries entries⟩
  refine ⟨fun cell' => ?_, fun e he => ?_, fun id cell' hid => ?_, fun c hc => ?_⟩
  · rw [registryAt_setRegistry hcell, entriesOn_append]
    by_cases hc : cell' = cell
    · subst hc
      rw [if_pos rfl, entriesOn_tagged, ofTable_append, ← h.registries]
    · rw [if_neg hc, entriesOn_tagged_of_ne (Ne.symm hc), List.append_nil, h.registries]
  · rw [hlength]
    rcases List.mem_append.mp he with he | he
    · exact h.log e he
    · obtain ⟨_, -, rfl⟩ := List.mem_map.mp he
      exact hcell
  · exact hlength ▸ h.handles id cell' hid
  · exact hlength ▸ h.compiled c hc

theorem Recorded.bindHandle (h : s.Recorded log) (id : String) (hcell : cell < s.registries.length) :
    (s.bindHandle id cell).Recorded log := by
  refine ⟨h.registries, h.log, fun id' cell' hid => ?_, h.compiled⟩
  by_cases hname : id' = id
  · subst hname
    have hput := Entries.lookup_put_self id' cell s.handles
    cases hput.symm.trans hid
    exact hcell
  · have hput := Entries.lookup_put_of_ne hname cell s.handles
    exact h.handles id' cell' (hput.symm.trans hid)

/-- A place that no registry has yet. -/
theorem Recorded.entriesOn_length (h : s.Recorded log) : entriesOn s.registries.length log = [] := by
  have hnone : log.filter (fun e => e.1 = s.registries.length) = [] := by
    rw [List.filter_eq_nil_iff]
    intro e he
    have := h.log e he
    simp only [decide_eq_true_eq]
    omega
  rw [entriesOn, hnone, List.map_nil]

theorem Recorded.newRegistry (h : s.Recorded log) (entries : List (String × Converter)) :
    ({ s with registries := s.registries ++ [.ofTable entries] } : Session).Recorded
      (log ++ tagged s.registries.length entries) := by
  have hlength : ({ s with registries := s.registries ++ [.ofTable entries] } : Session).registries.length =
      s.registries.length + 1 := by simp
  refine ⟨fun cell => ?_, fun e he => ?_, fun id cell hid => ?_, fun c hc => ?_⟩
  · have hcell := h.registries cell
    unfold registryAt at hcell ⊢
    rw [entriesOn_append]
    by_cases hlast : cell = s.registries.length
    · subst hlast
      rw [h.entriesOn_length, entriesOn_tagged]
      simp [List.getD]
    · rw [entriesOn_tagged_of_ne (Ne.symm hlast), List.append_nil, ← hcell]
      by_cases hlt : cell < s.registries.length
      · simp [List.getD, List.getElem?_append_left hlt]
      · have hge : (s.registries ++ [Registry.ofTable entries]).length ≤ cell := by
          rw [List.length_append, List.length_singleton]
          omega
        simp only [List.getD, List.getElem?_eq_none hge, List.getElem?_eq_none (Nat.le_of_not_lt hlt)]
  · rcases List.mem_append.mp he with he | he
    · have := h.log e he
      omega
    · obtain ⟨_, -, rfl⟩ := List.mem_map.mp he
      omega
  · have := h.handles id cell hid
    omega
  · have := h.compiled c hc
    omega

theorem Recorded.compile (h : s.Recorded log) (id : String) (t : Transformation) (hcell : cell < s.registries.length) :
    ({ s with compiled := s.compiled ++ [⟨t, cell⟩],
              transformations := Entries.put id s.compiled.length s.transformations } : Session).Recorded log := by
  refine ⟨h.registries, h.log, h.handles, fun c hc => ?_⟩
  rcases List.mem_append.mp hc with hc | hc
  · exact h.compiled c hc
  · rw [List.mem_singleton.mp hc]
    exact hcell

end

/-! ## What a step does -/

/-- The registry or engine that a step registers on, shares or compiles with. -/
def Step.on? : Step → Option String
  | .newEngine _ _ shared => shared
  | .register on _ _ | .registerAll on _ | .compile on _ _ => some on
  | _ => none

/-- The registry in this place with further entries. -/
def extended (s : Session) (cell : Nat) (entries : List (String × Converter)) : Session :=
  s.setRegistry cell ⟨Entries.putAll (s.registryAt cell).entries entries⟩

/-- What a step makes of a session: nothing else, a registry more, entries more on a registry that is
there, with or without a name more for it, or a transformation more. -/
inductive Change (s : Session) (action : Step) : Session → Prop where
  | nothing : s.registrations action = [] → Change s action s
  | added {id : String} {batch : Batch} : action = .newRegistry id batch ∨ action = .newEngine id batch none →
      Registry.acceptsAll batch = true →
      Change s action (({ s with registries := s.registries ++ [.ofTable (Registry.accepted batch)] } : Session).bindHandle
        id s.registries.length)
  | extended {on : String} {cell : Nat} {entries : List (String × Converter)} : action.on? = some on →
      s.handles.lookup on = some cell → s.registrations action = tagged cell entries →
      Change s action (s.extended cell entries)
  | shared {id on : String} {batch : Batch} {cell : Nat} : action = .newEngine id batch (some on) →
      s.handles.lookup on = some cell → Change s action ((s.extended cell (Registry.accepted batch)).bindHandle id cell)
  | compiled {on id : String} {document : Value} {t : Transformation} {cell : Nat} : action = .compile on id document →
      s.handles.lookup on = some cell →
      Change s action { s with compiled := s.compiled ++ [⟨t, cell⟩],
                               transformations := Entries.put id s.compiled.length s.transformations }

section
variable {s : Session} {log : List (Nat × String × Converter)} {cell : Nat}

theorem cell_eq_ok_iff {on : String} : s.cell on = .ok cell ↔ s.handles.lookup on = some cell := by
  unfold Session.cell
  cases s.handles.lookup on <;> simp

theorem lookup_of_cell_error {on : String} {fault : Fault} (h : s.cell on = .error fault) :
    s.handles.lookup on = none := by
  unfold Session.cell at h
  split at h
  · cases h
  · assumption

theorem extend_fst (s : Session) (cell : Nat) (batch : Batch) :
    (s.extend cell batch).1 = s.extended cell (Registry.accepted batch) := by
  unfold Session.extend extended
  rw [← Registry.registerAll_fst]

/-- A batch is registered as a new registry, or not at all. -/
theorem change_addRegistry {action : Step} {id : String} {batch : Batch}
    (h : action = .newRegistry id batch ∨ action = .newEngine id batch none) :
    s.Change action (s.addRegistry id batch).1 := by
  have hfst := Registry.registerAll_fst .empty batch
  have hsnd := Registry.registerAll_snd .empty batch
  unfold Session.addRegistry
  cases hbatch : Registry.empty.registerAll batch with
  | mk r fault =>
    rw [hbatch] at hfst hsnd
    cases fault with
    | some fault =>
      have hall : Registry.acceptsAll batch = false := by simpa using hsnd
      refine .nothing ?_
      rcases h with rfl | rfl <;> exact if_neg (by simp [hall])
    | none =>
      obtain rfl : r = .ofTable (Registry.accepted batch) := hfst
      exact .added h (hsnd.mp rfl)

theorem change_step (limit : Nat) (s : Session) (action : Step) : s.Change action (s.step limit action).1 := by
  have hunbound : ∀ {on fault}, s.cell on = .error fault →
      ∀ f : Nat → List (Nat × String × Converter), (s.handles.lookup on).elim [] f = [] := by
    intro on fault hon f
    rw [lookup_of_cell_error hon]
    rfl
  have hbound : ∀ {on cell}, s.cell on = .ok cell →
      ∀ f : Nat → List (Nat × String × Converter), (s.handles.lookup on).elim [] f = f cell := by
    intro on cell hon f
    rw [cell_eq_ok_iff.mp hon]
    rfl
  cases action with
  | newRegistry id batch => exact change_addRegistry (Or.inl rfl)
  | newEngine id batch shared =>
    cases shared with
    | none => exact change_addRegistry (Or.inr rfl)
    | some on =>
      rw [step]
      cases hon : s.cell on with
      | error fault => exact .nothing (hunbound hon _)
      | ok cell =>
        dsimp only
        rw [extend_fst]
        split
        · exact .extended rfl (cell_eq_ok_iff.mp hon) (hbound hon _)
        · exact .shared rfl (cell_eq_ok_iff.mp hon)
  | register on name c =>
    rw [step]
    cases hon : s.cell on with
    | error fault => exact .nothing (hunbound hon _)
    | ok cell =>
      have hregistrations : s.registrations (.register on name c) = tagged cell (Registry.admitted? name c).toList :=
        hbound hon _
      cases he : Registry.admitted? name c with
      | some e =>
        simp only [Registry.register_of_admitted he]
        rw [he] at hregistrations
        exact .extended rfl (cell_eq_ok_iff.mp hon) hregistrations
      | none =>
        obtain ⟨fault, hfault⟩ := Registry.register_of_refused he (s.registryAt cell)
        rw [he] at hregistrations
        simp only [hfault]
        exact .nothing hregistrations
  | registerAll on batch =>
    rw [step]
    cases hon : s.cell on with
    | error fault => exact .nothing (hunbound hon _)
    | ok cell =>
      dsimp only
      rw [extend_fst]
      exact .extended rfl (cell_eq_ok_iff.mp hon) (hbound hon _)
  | compile on id document =>
    rw [step]
    cases hon : s.cell on with
    | error fault => exact .nothing rfl
    | ok cell =>
      dsimp only
      split
      · exact .nothing rfl
      · exact .compiled rfl (cell_eq_ok_iff.mp hon)
  | _ => exact .nothing rfl

/-- One step adds to the record what it registers. -/
theorem recorded_step (h : s.Recorded log) (action : Step) :
    (s.step limit action).1.Recorded (log ++ s.registrations action) := by
  have hchange := s.change_step limit action
  generalize (s.step limit action).1 = s' at hchange ⊢
  cases hchange with
  | nothing hregistrations => rwa [hregistrations, List.append_nil]
  | @added id batch haction hall =>
    have hregistrations : s.registrations action = tagged s.registries.length (Registry.accepted batch) := by
      rcases haction with rfl | rfl <;> exact if_pos hall
    rw [hregistrations]
    exact (h.newRegistry _).bindHandle _ (by simp)
  | extended _ hon hregistrations =>
    rw [hregistrations]
    exact h.setRegistry (h.handles _ _ hon) _
  | @shared id on batch cell haction hon =>
    subst haction
    have hcell := h.handles on cell hon
    rw [registrations, hon, Option.elim_some]
    exact (h.setRegistry hcell _).bindHandle id (by rwa [length_setRegistry])
  | compiled haction hon =>
    subst haction
    have hnone : ∀ on id document, s.registrations (.compile on id document) = [] := fun _ _ _ => rfl
    rw [hnone, List.append_nil]
    exact h.compile _ _ (h.handles _ _ hon)

theorem recorded_run (h : s.Recorded log) (actions : List Step) :
    (s.run limit actions).1.Recorded (log ++ s.record limit actions) := by
  induction actions generalizing s log with
  | nil => simpa [record, run] using h
  | cons action actions ih =>
    rw [record, ← List.append_assoc]
    exact ih (recorded_step h action)

theorem recorded_initial : initial.Recorded [] :=
  ⟨fun _ => rfl, nofun, nofun, nofun⟩

end

/-! ## What an evaluation uses -/

/-- The name stands for this transformation. -/
def Means (s : Session) (t : String) (c : Compiled) : Prop :=
  ∃ i, s.transformations.lookup t = some i ∧ s.compiled[i]? = some c

/-- The step evaluates this transformation with the registry in this place: that of the engine that
transforms, that of the name that is given with the step, or else that of the engine that compiled. -/
inductive Uses (s : Session) : Step → Nat → Compiled → Prop where
  | transform {on t : String} {data : Value} {cell : Nat} {c : Compiled} : s.handles.lookup on = some cell →
      s.Means t c → Uses s (.transform on t data) cell c
  | transformMany {on t : String} {items : Value} {cell : Nat} {c : Compiled} : s.handles.lookup on = some cell →
      s.Means t c → Uses s (.transformMany on t items) cell c
  | evaluateWith {on t : String} {data : Value} {cell : Nat} {c : Compiled} : s.handles.lookup on = some cell →
      s.Means t c → Uses s (.evaluate t data (some on)) cell c
  | evaluate {t : String} {data : Value} {c : Compiled} : s.Means t c → Uses s (.evaluate t data none) c.registry c
  | call {t : String} {data : Value} {c : Compiled} : s.Means t c → Uses s (.call t data) c.registry c

/-- The engine or registry that an evaluation names. -/
def Step.receiver? : Step → Option String
  | .transform on _ _ | .transformMany on _ _ => some on
  | .evaluate _ _ on => on
  | _ => none

/-- The transformation that an evaluation names. -/
def Step.subject? : Step → Option String
  | .transform _ t _ | .transformMany _ t _ | .evaluate t _ _ | .call t _ => some t
  | _ => none

def toAnswer : Except EvaluationFault Value → Except Fault Answer
  | .ok v => .ok (.value v)
  | .error fault => .error (.evaluation fault)

def okValue? : Except EvaluationFault Value → Option Value
  | .ok v => some v
  | .error _ => none

def fault? : Except EvaluationFault Value → Option Fault
  | .ok _ => none
  | .error fault => some (.evaluation fault)

/-- What comes of items one after another: the values before the first that fails, and its fault. -/
def collected (outcomes : List (Except EvaluationFault Value)) : Answer :=
  .values ((outcomes.takeWhile fun o => (okValue? o).isSome).filterMap okValue?) (outcomes.findSome? fault?)

/-- What a transformation makes of the data in a step, with this registry and nothing else. -/
def pureAnswer (limit : Nat) (r : Registry) (t : Transformation) : Step → Except Fault Answer
  | .transform _ _ data | .evaluate _ data _ | .call _ data => toAnswer (t.evaluate limit r data)
  | .transformMany _ _ items => match items.items? with
    | some items => .ok (collected (items.map (t.evaluate limit r)))
    | none => .ok (.values [] (some (.notIterable items.qualifiedKind)))
  | _ => .ok .done

section
variable {s : Session} {cell : Nat} {c : Compiled} {action : Step}

theorem transformEach_eq (r : Registry) (t : Transformation) (items : List Value) :
    .values (transformEach limit r t items).1 (transformEach limit r t items).2 =
      collected (items.map (t.evaluate limit r)) := by
  induction items with
  | nil => rfl
  | cons item items ih =>
    rw [collected, Answer.values.injEq] at ih
    rw [transformEach, List.map_cons, collected]
    cases t.evaluate limit r item with
    | error fault => rfl
    | ok v =>
      rw [List.takeWhile_cons_of_pos rfl, List.filterMap_cons, List.findSome?_cons]
      exact congrArg₂ _ (congrArg _ ih.1) ih.2

theorem compiledOf_of_means {t : String} (h : s.Means t c) : s.compiledOf t = .ok c := by
  obtain ⟨i, hi, hc⟩ := h
  simp [compiledOf, hi, hc]

theorem registryOf_of_lookup {on : String} (h : s.handles.lookup on = some cell) :
    s.registryOf on = .ok (s.registryAt cell) := by
  rw [registryOf, cell_eq_ok_iff.mpr h]
  rfl

/-- An evaluation changes nothing, and answers what the registry in its place makes of it. -/
theorem Uses.step_eq (h : s.Uses action cell c) :
    s.step limit action = (s, pureAnswer limit (s.registryAt cell) c.transformation action) := by
  have htransform : ∀ (r : Registry) (data : Value),
      evaluateOn limit r c data = toAnswer (c.transformation.evaluate limit r data) := by
    intro r data
    unfold evaluateOn toAnswer
    cases c.transformation.evaluate limit r data <;> rfl
  cases h with
  | transform hon ht =>
    simp only [step, look, registryOf_of_lookup hon, compiledOf_of_means ht, bind, Except.bind, htransform]
    rfl
  | evaluateWith hon ht =>
    simp only [step, look, registryOf_of_lookup hon, compiledOf_of_means ht, bind, Except.bind, htransform]
    rfl
  | evaluate ht =>
    simp only [step, look, compiledOf_of_means ht, bind, Except.bind, pure, Except.pure, htransform]
    rfl
  | call ht =>
    simp only [step, look, compiledOf_of_means ht, bind, Except.bind, htransform]
    rfl
  | @transformMany on t items _ _ hon ht =>
    simp only [step, look, registryOf_of_lookup hon, compiledOf_of_means ht, bind, Except.bind, pureAnswer]
    cases items.items? with
    | none => rfl
    | some items =>
      simp only [← transformEach_eq]
      rfl

theorem unbound_or_means (s : Session) (t : String) : s.compiledOf t = .error (.unbound t) ∨ ∃ c, s.Means t c := by
  unfold compiledOf
  split
  · rename_i c hc
    obtain ⟨i, hi, hic⟩ := Option.bind_eq_some_iff.mp hc
    exact Or.inr ⟨c, i, hi, hic⟩
  · exact Or.inl rfl

theorem unbound_or_lookup (s : Session) (on : String) :
    s.registryOf on = .error (.unbound on) ∨ ∃ cell, s.handles.lookup on = some cell := by
  unfold registryOf Session.cell
  cases s.handles.lookup on with
  | none => exact Or.inl rfl
  | some cell => exact Or.inr ⟨cell, rfl⟩

/-- An evaluation of names that stand for something uses a registry and a transformation. -/
theorem exists_uses (hsubject : action.subject? ≠ none)
    (hbound : ∀ id, (s.step limit action).2 ≠ .error (.unbound id)) : ∃ cell c, s.Uses action cell c := by
  cases action with
  | transform on t data =>
    rcases s.unbound_or_lookup on with hon | ⟨cell, hon⟩
    · exact absurd (by simp only [step, look, hon, bind, Except.bind]) (hbound on)
    rcases s.unbound_or_means t with ht | ⟨c, ht⟩
    · exact absurd (by simp only [step, look, registryOf_of_lookup hon, ht, bind, Except.bind]) (hbound t)
    exact ⟨cell, c, .transform hon ht⟩
  | transformMany on t items =>
    rcases s.unbound_or_lookup on with hon | ⟨cell, hon⟩
    · exact absurd (by simp only [step, look, hon, bind, Except.bind]) (hbound on)
    rcases s.unbound_or_means t with ht | ⟨c, ht⟩
    · exact absurd (by simp only [step, look, registryOf_of_lookup hon, ht, bind, Except.bind]) (hbound t)
    exact ⟨cell, c, .transformMany hon ht⟩
  | call t data =>
    rcases s.unbound_or_means t with ht | ⟨c, ht⟩
    · exact absurd (by simp only [step, look, ht, bind, Except.bind]) (hbound t)
    exact ⟨c.registry, c, .call ht⟩
  | evaluate t data on =>
    rcases s.unbound_or_means t with ht | ⟨c, ht⟩
    · exact absurd (by simp only [step, look, ht, bind, Except.bind]) (hbound t)
    cases on with
    | none => exact ⟨c.registry, c, .evaluate ht⟩
    | some on =>
      rcases s.unbound_or_lookup on with hon | ⟨cell, hon⟩
      · exact absurd (by simp only [step, look, compiledOf_of_means ht, hon, bind, Except.bind]) (hbound on)
      exact ⟨cell, c, .evaluateWith hon ht⟩
  | _ => exact absurd rfl hsubject

theorem Uses.lt_length {log : List (Nat × String × Converter)} (h : s.Uses action cell c) (hs : s.Recorded log) :
    cell < s.registries.length := by
  have hmem : ∀ t, s.Means t c → c.registry < s.registries.length := by
    rintro t ⟨i, -, hc⟩
    exact hs.compiled c (List.mem_of_getElem? hc)
  cases h with
  | transform hon _ => exact hs.handles _ _ hon
  | transformMany hon _ => exact hs.handles _ _ hon
  | evaluateWith hon _ => exact hs.handles _ _ hon
  | evaluate ht => exact hmem _ ht
  | call ht => exact hmem _ ht

end

/-! ## What is done elsewhere -/

/-- The step gives no other meaning to a name in the evaluation `action`. -/
def Step.KeepsNames (action : Step) : Step → Prop
  | .newRegistry id _ | .newEngine id _ _ => action.receiver? ≠ some id
  | .compile _ id _ => action.subject? ≠ some id
  | _ => True

/-- None of the steps has to do with the registry in this place or gives another meaning to a name in
the evaluation. -/
def Spares (limit cell : Nat) (action : Step) : Session → List Step → Prop
  | _, [] => True
  | s, other :: others => (∀ on, other.on? = some on → s.handles.lookup on ≠ some cell) ∧ action.KeepsNames other ∧
      Spares limit cell action (s.step limit other).1 others

section
variable {s s' : Session} {cell : Nat} {c : Compiled} {action : Step}

/-- What an evaluation uses is the same after a step that leaves the names in it alone. -/
theorem Uses.of_names (h : s.Uses action cell c)
    (hon : ∀ on, action.receiver? = some on → s'.handles.lookup on = s.handles.lookup on)
    (ht : ∀ t, action.subject? = some t → s'.transformations.lookup t = s.transformations.lookup t)
    (hcompiled : s.compiled <+: s'.compiled) : s'.Uses action cell c := by
  have hmeans : ∀ t, action.subject? = some t → s.Means t c → s'.Means t c := by
    rintro t hsubject ⟨i, hi, hc⟩
    obtain ⟨newer, hnewer⟩ := hcompiled
    have hlt := (List.getElem?_eq_some_iff.mp hc).1
    exact ⟨i, (ht t hsubject).trans hi, by rw [← hnewer, List.getElem?_append_left hlt, hc]⟩
  cases h with
  | transform hcell hm => exact .transform ((hon _ rfl).trans hcell) (hmeans _ rfl hm)
  | transformMany hcell hm => exact .transformMany ((hon _ rfl).trans hcell) (hmeans _ rfl hm)
  | evaluateWith hcell hm => exact .evaluateWith ((hon _ rfl).trans hcell) (hmeans _ rfl hm)
  | evaluate hm => exact .evaluate (hmeans _ rfl hm)
  | call hm => exact .call (hmeans _ rfl hm)

theorem registryAt_setRegistry_of_ne {cell' : Nat} (h : cell' ≠ cell) (r : Registry) :
    (s.setRegistry cell' r).registryAt cell = s.registryAt cell := by
  simp [setRegistry, registryAt, List.getD, h]

/-- A step that has nothing to do with a registry leaves it as it is. -/
theorem registryAt_step (hcell : cell < s.registries.length)
    (h : ∀ on, action.on? = some on → s.handles.lookup on ≠ some cell) :
    (s.step limit action).1.registryAt cell = s.registryAt cell := by
  have hne : ∀ {on cell'}, action.on? = some on → s.handles.lookup on = some cell' → cell' ≠ cell := by
    rintro on cell' hon hlookup rfl
    exact h on hon hlookup
  have hchange := s.change_step limit action
  generalize (s.step limit action).1 = s' at hchange ⊢
  cases hchange with
  | nothing => rfl
  | added => simp [bindHandle, registryAt, List.getD, List.getElem?_append_left hcell]
  | extended hon hlookup _ => exact registryAt_setRegistry_of_ne (hne hon hlookup) _
  | shared haction hlookup =>
    subst haction
    exact registryAt_setRegistry_of_ne (hne rfl hlookup) _
  | compiled => rfl

/-- A step that keeps the names in an evaluation leaves it what it is. -/
theorem uses_step (h : s.Uses action cell c) {other : Step} (hnames : action.KeepsNames other) :
    (s.step limit other).1.Uses action cell c := by
  have hgrows := s.grows_step limit other
  have hreceiver : ∀ {id on}, action.receiver? ≠ some id → action.receiver? = some on → on ≠ id := by
    rintro id on hne hon rfl
    exact hne hon
  have hchange := s.change_step limit other
  generalize (s.step limit other).1 = s' at hchange hgrows ⊢
  cases hchange with
  | nothing => exact h
  | added haction _ =>
    refine h.of_names (fun on hon => Entries.lookup_put_of_ne (hreceiver ?_ hon) _ _) (fun _ _ => rfl) hgrows.compiled
    rcases haction with rfl | rfl <;> exact hnames
  | extended => exact h.of_names (fun _ _ => rfl) (fun _ _ => rfl) hgrows.compiled
  | shared haction _ =>
    subst haction
    exact h.of_names (fun on hon => Entries.lookup_put_of_ne (hreceiver hnames hon) _ _) (fun _ _ => rfl) hgrows.compiled
  | compiled haction _ =>
    subst haction
    refine h.of_names (fun _ _ => rfl) (fun t ht => Entries.lookup_put_of_ne ?_ _ _) hgrows.compiled
    rintro rfl
    exact hnames ht

/-- Steps that spare an evaluation leave it what it is, with the registry that it had. -/
theorem uses_run {log : List (Nat × String × Converter)} (hs : s.Recorded log) (h : s.Uses action cell c)
    {others : List Step} (hspares : Spares limit cell action s others) :
    (s.run limit others).1.Uses action cell c ∧ (s.run limit others).1.registryAt cell = s.registryAt cell := by
  induction others generalizing s log with
  | nil => exact ⟨h, rfl⟩
  | cons other others ih =>
    obtain ⟨hon, hnames, hspares⟩ := hspares
    obtain ⟨huses, hregistry⟩ := ih (recorded_step hs other) (uses_step h hnames) hspares
    exact ⟨huses, hregistry.trans (registryAt_step (h.lt_length hs) hon)⟩

/-- A compiled transformation belongs to the registry of the engine that compiled it. -/
theorem uses_of_compile {on id : String} {document : Value} {t : Transformation}
    (h : s.step limit (.compile on id document) = (s', .ok (.transformation t))) :
    ∃ cell, s.handles.lookup on = some cell ∧ s'.Means id ⟨t, cell⟩ := by
  rw [step] at h
  split at h
  · cases h
  · rename_i cell hcell
    split at h
    · cases h
    · cases h
      refine ⟨cell, cell_eq_ok_iff.mp hcell, s.compiled.length, Entries.lookup_put_self _ _ _, ?_⟩
      simp

end

/-- An evaluation that comes after any steps, and whose names stand for something, changes nothing. It
answers what its transformation makes of the data with the table of all entries that were accepted so
far on its registry, the last one under each name. It answers the same after any other steps that have
nothing to do with that registry and leave the names in it alone. A transformation is compiled into the
registry of the engine that compiles it. -/
theorem run_is_late_bound (past : List Step) {action : Step} (hsubject : action.subject? ≠ none)
    (hbound : ∀ id, ((initial.run limit past).1.step limit action).2 ≠ .error (.unbound id)) :
    let s := (initial.run limit past).1
    (∃ cell c, s.Uses action cell c ∧
      let table := entriesOn cell (initial.record limit past)
      (∀ name, (Registry.ofTable table).find? name = table.reverse.lookup name) ∧
      s.step limit action = (s, pureAnswer limit (.ofTable table) c.transformation action) ∧
      ∀ others, Spares limit cell action s others → (s.run limit others).1.step limit action =
        ((s.run limit others).1, pureAnswer limit (.ofTable table) c.transformation action)) ∧
      ∀ s' on id document t, s.step limit (.compile on id document) = (s', .ok (.transformation t)) →
        ∃ home, s.handles.lookup on = some home ∧ s'.Means id ⟨t, home⟩ := by
  intro s
  refine ⟨?_, fun s' on id document t => uses_of_compile⟩
  obtain ⟨cell, c, huses⟩ := exists_uses hsubject hbound
  have hrecorded : s.Recorded ([] ++ initial.record limit past) := recorded_run recorded_initial past
  have htable : s.registryAt cell = .ofTable (entriesOn cell (initial.record limit past)) := hrecorded.registries cell
  refine ⟨cell, c, huses, Registry.find?_ofTable _, ?_, fun others hspares => ?_⟩
  · rw [huses.step_eq, htable]
  · obtain ⟨hother, hregistry⟩ := uses_run hrecorded huses hspares
    rw [hother.step_eq, hregistry, htable]

/-- A registry, two engines that share it, and an engine of its own. The second engine is refused, but
what comes first in its batch counts. -/
def sharing : List Step :=
  [.newRegistry "r" [(.str "int", .converter Builtin.asInteger)],
    .newEngine "e" [] (some "r"),
    .compile "e" "t" (.dict [(.str "properties", .str "n:int")]),
    .newEngine "f" [(.str "int", .converter Builtin.asTruth), (.str "$int", .converter Builtin.asText)] (some "r"),
    .newEngine "own" [(.str "int", .converter Builtin.asText)] none]

/-- On the engine of its own: a registration, a batch that is refused, and a document that does not
compile. -/
def elsewhere : List Step :=
  [.register "own" (.str "int") (.converter Builtin.asFloat),
    .registerAll "own" [(.str "int", .converter Builtin.asText), (.str "", .value .null)],
    .compile "own" "u" (.dict [(.str "properties", .str "n:number")])]

def asked : Step := .call "t" (.dict [(.str "n", .int 1)])

/-- After the first two steps. -/
def opened : Session := ⟨[Transformation.integers], [("r", 0), ("e", 0)], [], []⟩

/-- After all steps. -/
def shared : Session :=
  ⟨[⟨[("int", Builtin.asTruth)]⟩, ⟨[("int", Builtin.asText)]⟩], [("r", 0), ("e", 0), ("own", 1)],
    [⟨Transformation.numbering, 0⟩], [("t", 0)]⟩

theorem run_sharing : (initial.run 8 sharing).1 = shared := by
  have hcompile : opened.step 8 (.compile "e" "t" (.dict [(.str "properties", .str "n:int")])) =
      (⟨[Transformation.integers], [("r", 0), ("e", 0)], [⟨Transformation.numbering, 0⟩], [("t", 0)]⟩,
        .ok (.transformation Transformation.numbering)) :=
    step_compile_of_ok rfl (Transformation.link_of_flat Transformation.numbering rfl)
  have hrun : (initial.run 8 sharing).1 =
      ((opened.step 8 (.compile "e" "t" (.dict [(.str "properties", .str "n:int")]))).1.run 8 (sharing.drop 3)).1 := rfl
  rw [hrun, hcompile]
  rfl

theorem a_shared_registry_is_seen : asked.subject? ≠ none ∧
    (∀ id, ((initial.run 8 sharing).1.step 8 asked).2 ≠ .error (.unbound id)) ∧
    let later := ((initial.run 8 sharing).1.run 8 elsewhere).1
    later.step 8 asked = (later, .ok (.value (.bool true))) := by
  have hsubject : asked.subject? ≠ none := nofun
  have hanswer : ((initial.run 8 sharing).1.step 8 asked).2 = .ok (.value (.bool true)) := by
    rw [run_sharing]
    rfl
  have hbound : ∀ id, ((initial.run 8 sharing).1.step 8 asked).2 ≠ .error (.unbound id) := by
    intro id h
    cases hanswer.symm.trans h
  have hhome : (initial.run 8 sharing).1.compiled.map Compiled.registry = [0] := by
    rw [run_sharing]
    rfl
  obtain ⟨⟨cell, c, huses, -, hstep, hothers⟩, -⟩ := run_is_late_bound sharing hsubject hbound
  have hcell : cell = 0 := by
    cases huses with
    | call hmeans =>
      obtain ⟨i, -, hc⟩ := hmeans
      have hmem := List.mem_map_of_mem (f := Compiled.registry) (List.mem_of_getElem? hc)
      rw [hhome] at hmem
      exact List.mem_singleton.mp hmem
  subst hcell
  have hspares : Spares 8 0 asked (initial.run 8 sharing).1 elsewhere := by
    have hother : ∀ {s : Session}, s.handles.lookup "own" = some 1 →
        ∀ on, some "own" = some on → s.handles.lookup on ≠ some 0 := by
      rintro s hs _ ⟨⟩
      rw [hs]
      intro h
      cases h
    have hname : asked.KeepsNames (.compile "own" "u" (.dict [(.str "properties", .str "n:number")])) := by
      simp [Step.KeepsNames, asked, Step.subject?]
    rw [run_sharing]
    exact ⟨hother rfl, trivial, hother rfl, trivial, hother rfl, hname, trivial⟩
  refine ⟨hsubject, hbound, ?_⟩
  show ((initial.run 8 sharing).1.run 8 elsewhere).1.step 8 asked = _
  rw [hothers elsewhere hspares, ← hanswer, hstep]

end Session

end Reshape
