/-
  Reshape.Proofs.Registering: what a registry holds after any registrations.

  Whatever was registered on a registry, one by one or in batches, accepted or refused: it is the table of
  the entries that were accepted, the last one under each name. What is refused changes nothing, and a
  batch comes to the same as its entries registered one by one, up to the first that is refused.
  - `Registry.shows_ofTable`: a table, its names and their number.
  - `Session.answers_agree`: whether there is a name, and what is found under it.
  - `Session.step_register`, `Session.step_registerAll`: what a registration and a batch do.
  - `Session.registry_is_its_record`: all of it, after every run of steps.
-/

import Reshape.Proofs.LateBinding

namespace Reshape

namespace Registry

/-! ## Tables -/

/-- What is to be seen of a registry on which these entries were accepted one after another. -/
structure Shows (r : Registry) (log : List (String × Converter)) : Prop where
  table : r.entries = log.foldl (fun table e => Entries.put e.1 e.2 table) []
  last : ∀ name, r.find? name = log.reverse.lookup name
  accepted : ∀ e ∈ r.entries, e ∈ log
  keys : ∀ name, name ∈ r.names ↔ name ∈ Entries.keys r.entries
  /-- In the order of code points, each once. -/
  sorted : r.names.Pairwise (· < ·)
  size : r.size = r.names.length

/-- Sorted texts of which none comes twice are in strict order. -/
theorem pairwise_lt_mergeSort {names : List String} (h : names.Nodup) : names.mergeSort.Pairwise (· < ·) := by
  have hsorted : names.mergeSort.Pairwise (· ≤ ·) := by
    refine (List.pairwise_mergeSort ?_ ?_ names).imp (by simp)
    · intro a b c hab hbc
      simp only [decide_eq_true_eq] at hab hbc ⊢
      exact String.le_trans hab hbc
    · intro a b
      simpa using String.le_total a b
  have hnodup : names.mergeSort.Nodup := (List.mergeSort_perm names _).nodup_iff.mpr h
  refine (hsorted.and hnodup).imp ?_
  intro a b hab
  exact String.not_le.mp fun hba => hab.2 (String.le_antisymm hab.1 hba)

theorem shows_ofTable (log : List (String × Converter)) : (ofTable log).Shows log := by
  constructor
  case table => rfl
  case last => exact find?_ofTable log
  case accepted =>
    intro e he
    exact Entries.mem_of_mem_latest (Entries.mem_ofList.mp he)
  case keys =>
    intro name
    exact List.mem_mergeSort
  case sorted => exact pairwise_lt_mergeSort (Entries.nodup_keys_ofList log)
  case size => simp [size, names, Entries.keys]

theorem named_of_admitted {name : Value} {c : Candidate} {e : String × Converter} (h : admitted? name c = some e) :
    e.1 ≠ "" ∧ isNestedName e.1 = false := by
  unfold admitted? at h
  split at h
  · split at h
    · rename_i hname
      cases h
      exact hname
    · cases h
  · cases h

theorem named_of_accepted {batch : List (Key × Candidate)} : ∀ e ∈ accepted batch, e.1 ≠ "" ∧ isNestedName e.1 = false := by
  induction batch with
  | nil => simp [accepted]
  | cons entry batch ih =>
    obtain ⟨name, c⟩ := entry
    rw [accepted]
    cases hadmitted : admitted? name.toValue c with
    | none => simp
    | some e => simpa using ⟨named_of_admitted hadmitted, fun name f hmem => ih (name, f) hmem⟩

end Registry

namespace Session

variable {limit : Nat} {s : Session} {on : String} {cell : Nat}

/-! ## What is recorded -/

theorem named_of_tagged {entries : List (String × Converter)} (h : ∀ e ∈ entries, e.1 ≠ "" ∧ isNestedName e.1 = false) :
    ∀ e ∈ tagged cell entries, e.2.1 ≠ "" ∧ isNestedName e.2.1 = false := by
  intro e he
  obtain ⟨e, hmem, rfl⟩ := List.mem_map.mp he
  exact h e hmem

theorem named_registrations (s : Session) (action : Step) :
    ∀ e ∈ s.registrations action, e.2.1 ≠ "" ∧ isNestedName e.2.1 = false := by
  have hlookup : ∀ on (entries : List (String × Converter)), (∀ e ∈ entries, e.1 ≠ "" ∧ isNestedName e.1 = false) →
      ∀ e ∈ (s.handles.lookup on).elim [] fun cell => tagged cell entries, e.2.1 ≠ "" ∧ isNestedName e.2.1 = false := by
    intro on entries h
    cases s.handles.lookup on with
    | none => simp
    | some cell => exact named_of_tagged h
  have hnew : ∀ batch, ∀ e ∈ if Registry.acceptsAll batch then
      tagged s.registries.length (Registry.accepted batch) else [], e.2.1 ≠ "" ∧ isNestedName e.2.1 = false := by
    intro batch
    split
    · exact named_of_tagged Registry.named_of_accepted
    · simp
  cases action with
  | newRegistry id batch => exact hnew batch
  | newEngine id batch shared =>
    cases shared with
    | none => exact hnew batch
    | some on => exact hlookup on _ Registry.named_of_accepted
  | registerAll on batch => exact hlookup on _ Registry.named_of_accepted
  | register on name c =>
    refine hlookup on _ fun e he => ?_
    exact Registry.named_of_admitted (Option.mem_toList.mp he)
  | _ => simp [registrations]

theorem named_record (s : Session) (actions : List Step) :
    ∀ e ∈ s.record limit actions, e.2.1 ≠ "" ∧ isNestedName e.2.1 = false := by
  induction actions generalizing s with
  | nil => simp [record]
  | cons action actions ih =>
    intro e he
    rcases List.mem_append.mp he with he | he
    · exact named_registrations s action e he
    · exact ih _ e he

/-! ## What is answered -/

/-- A value that can be no name is refused by both questions. Otherwise there is a name exactly if
something is found under it. -/
def AnswersAgree (limit : Nat) (s : Session) (on : String) (name value : Value) : Prop :=
  (∃ kind, s.look limit (.has on name) = .error (.unhashable kind) ∧
      s.look limit (.get on name value) = .error (.unhashable kind)) ∨
    ∃ b, s.look limit (.has on name) = .ok (.truth b) ∧
      (b = false ↔ s.look limit (.get on name value) = .ok .noConverter)

theorem answers_agree (hon : s.handles.lookup on = some cell) (name value : Value) :
    s.AnswersAgree limit on name value := by
  unfold AnswersAgree
  simp only [look, registryOf_of_lookup hon, bind, Except.bind, pure, Except.pure]
  cases hname : nameFor name with
  | error fault =>
    left
    unfold nameFor at hname
    split at hname
    · cases hname
      exact ⟨_, rfl, rfl⟩
    · cases hname
    · cases hname
  | ok name? =>
    right
    refine ⟨_, rfl, ?_⟩
    cases name? with
    | none => simp
    | some n =>
      simp only [Option.elim_some, Option.bind_some, Registry.has]
      cases (s.registryAt cell).find? n with
      | none => simp
      | some f =>
        dsimp only
        cases f value <;> simp [throw, throwThe, MonadExceptOf.throw]

theorem step_names (hon : s.handles.lookup on = some cell) :
    s.step limit (.names on) = (s, .ok (.names (s.registryAt cell).names (s.registryAt cell).size)) := by
  simp only [step, look, registryOf_of_lookup hon, bind, Except.bind, pure, Except.pure]

theorem step_has (hon : s.handles.lookup on = some cell) (name : String) :
    s.step limit (.has on (.str name)) = (s, .ok (.truth ((s.registryAt cell).has name))) := by
  simp only [step, look, registryOf_of_lookup hon, bind, Except.bind, pure, Except.pure]
  rfl

/-! ## What a registration does -/

theorem setRegistry_registryAt (s : Session) (cell : Nat) : s.setRegistry cell (s.registryAt cell) = s := by
  unfold setRegistry registryAt
  by_cases hcell : cell < s.registries.length
  · simp [List.getD, hcell]
  · simp [List.set_eq_of_length_le (Nat.le_of_not_lt hcell)]

theorem setRegistry_setRegistry (s : Session) (cell : Nat) (r r' : Registry) :
    (s.setRegistry cell r).setRegistry cell r' = s.setRegistry cell r' := by
  simp [setRegistry, List.set_set]

/-- A registration is accepted, or it is refused and leaves everything as it was. -/
theorem step_register (hon : s.handles.lookup on = some cell) (name : Value) (c : Candidate) :
    (∃ e r, Registry.admitted? name c = some e ∧ (s.registryAt cell).register name c = .ok r ∧
      s.step limit (.register on name c) = (s.setRegistry cell r, .ok .done)) ∨
    ∃ fault, Registry.admitted? name c = none ∧ (s.registryAt cell).register name c = .error fault ∧
      s.step limit (.register on name c) = (s, .error (.registry fault)) := by
  have hcell := cell_eq_ok_iff.mpr hon
  cases he : Registry.admitted? name c with
  | some e =>
    have hr := Registry.register_of_admitted he (s.registryAt cell)
    exact Or.inl ⟨e, _, rfl, hr, by simp only [step, hcell, hr]⟩
  | none =>
    obtain ⟨fault, hr⟩ := Registry.register_of_refused he (s.registryAt cell)
    exact Or.inr ⟨fault, rfl, hr, by simp only [step, hcell, hr]⟩

/-- The registration of one entry of a batch. -/
def single (on : String) (e : Key × Candidate) : Step := .register on e.1.toValue e.2

/-- A batch comes to the same as its entries registered one by one: all of them, or those before the first
that is refused. Then the answer is that to the refused one. -/
inductive OneByOne (limit : Nat) (s : Session) (on : String) (batch : Batch) : Prop where
  | accepted : (∀ answer ∈ (s.run limit (batch.map (single on))).2, answer = .ok .done) →
      s.step limit (.registerAll on batch) = ((s.run limit (batch.map (single on))).1, .ok .done) →
      OneByOne limit s on batch
  | refused (before : Batch) (e : Key × Candidate) (after : Batch) (fault : RegistryFault) : batch = before ++ e :: after →
      (∀ answer ∈ (s.run limit (before.map (single on))).2, answer = .ok .done) →
      (s.run limit (before.map (single on))).1.step limit (single on e) =
        ((s.run limit (before.map (single on))).1, .error (.registry fault)) →
      s.step limit (.registerAll on batch) = ((s.run limit (before.map (single on))).1, .error (.registry fault)) →
      OneByOne limit s on batch

/-- The first entry of a batch is registered, and then the rest. -/
theorem step_registerAll_cons {r : Registry} {e : Key × Candidate} (hon : s.handles.lookup on = some cell)
    (hcell : cell < s.registries.length) (hr : (s.registryAt cell).register e.1.toValue e.2 = .ok r) (batch : Batch) :
    s.step limit (.registerAll on (e :: batch)) = (s.setRegistry cell r).step limit (.registerAll on batch) := by
  have hbatch : (s.registryAt cell).registerAll (e :: batch) = r.registerAll batch := by
    obtain ⟨name, c⟩ := e
    rw [Registry.registerAll, hr]
  have hat : (s.setRegistry cell r).registryAt cell = r := by simp [registryAt_setRegistry hcell]
  have hon' : (s.setRegistry cell r).cell on = .ok cell := cell_eq_ok_iff.mpr hon
  simp only [step, cell_eq_ok_iff.mpr hon, hon', extend, hbatch, hat, setRegistry_setRegistry]

theorem step_registerAll (hon : s.handles.lookup on = some cell) (hcell : cell < s.registries.length) (batch : Batch) :
    s.OneByOne limit on batch := by
  induction batch generalizing s with
  | nil =>
    refine .accepted (by simp [run]) ?_
    simp [step, cell_eq_ok_iff.mpr hon, extend, Registry.registerAll, setRegistry_registryAt, run]
  | cons e batch ih =>
    rcases s.step_register hon e.1.toValue e.2 with ⟨_, r, -, hr, hstep⟩ | ⟨fault, -, hr, hstep⟩
    · -- what comes of the rest, after this entry
      have hrest := @ih (s.setRegistry cell r) hon (by rwa [length_setRegistry])
      have hrun : ∀ entries, s.run limit ((e :: entries).map (single on)) =
          (((s.setRegistry cell r).run limit (entries.map (single on))).1,
            .ok .done :: ((s.setRegistry cell r).run limit (entries.map (single on))).2) := by
        intro entries
        rw [List.map_cons, run, show s.step limit (single on e) = _ from hstep]
      have hall : s.step limit (.registerAll on (e :: batch)) = _ := step_registerAll_cons hon hcell hr batch
      cases hrest with
      | accepted hanswers hbatch =>
        refine .accepted ?_ ?_
        · rw [hrun]
          simpa using hanswers
        · rw [hall, hbatch, hrun]
      | refused before e' after fault hsplit hanswers hrefused hbatch =>
        refine .refused (e :: before) e' after fault (by rw [hsplit]; rfl) ?_ ?_ ?_
        · rw [hrun]
          simpa using hanswers
        · rw [hrun]
          exact hrefused
        · rw [hall, hbatch, hrun]
    · refine .refused [] e batch fault rfl (by simp [run]) hstep ?_
      obtain ⟨name, c⟩ := e
      simp only [step, cell_eq_ok_iff.mpr hon, extend, Registry.registerAll, hr, setRegistry_registryAt]
      rfl

/-! ## Runs -/

/-- After any steps, a registry shows the entries that were accepted on it, all under names that are not
empty and not those of nested mappings. Its names are answered in order, with their number, and to ask
for a name agrees with what is found under it. A name that is there stays there, whatever comes. What is
registered next is accepted, or everything stays as it was; of a batch the entries before the first that
is refused are registered, one by one. -/
theorem registry_is_its_record (past : List Step) (hon : (initial.run limit past).1.handles.lookup on = some cell) :
    let s := (initial.run limit past).1
    let r := s.registryAt cell
    let log := entriesOn cell (initial.record limit past)
    r.Shows log ∧
    (∀ e ∈ log, e.1 ≠ "" ∧ isNestedName e.1 = false) ∧
    s.step limit (.names on) = (s, .ok (.names r.names r.size)) ∧
    (∀ name, s.step limit (.has on (.str name)) = (s, .ok (.truth (r.has name)))) ∧
    (∀ name value, s.AnswersAgree limit on name value) ∧
    (∀ later name, r.has name = true → ((s.run limit later).1.registryAt cell).has name = true) ∧
    (∀ name c, (s.step limit (.register on name c)).2 = .ok .done ∨
      ∃ fault, s.step limit (.register on name c) = (s, .error (.registry fault))) ∧
    (∀ name c, (s.step limit (.register on name c)).2 = .ok .done ↔ (Registry.admitted? name c).isSome) ∧
    ∀ batch, s.OneByOne limit on batch := by
  intro s r log
  have hrecorded : s.Recorded ([] ++ initial.record limit past) := recorded_run recorded_initial past
  have htable : r = .ofTable log := hrecorded.registries cell
  refine ⟨?shows, ?named, step_names hon, step_has hon, answers_agree hon, ?stays, ?register, ?admitted, ?batch⟩
  case shows =>
    rw [htable]
    exact Registry.shows_ofTable log
  case named =>
    intro e he
    obtain ⟨e, hmem, rfl⟩ := List.mem_map.mp he
    exact named_record initial past e (List.mem_filter.mp hmem).1
  case stays => exact fun later name hname => (s.grows_run limit later).has cell name hname
  case register =>
    intro name c
    rcases step_register hon name c with ⟨_, _, -, -, hstep⟩ | ⟨fault, -, -, hstep⟩
    · exact Or.inl (by rw [hstep])
    · exact Or.inr ⟨fault, hstep⟩
  case admitted =>
    intro name c
    rcases step_register hon name c with ⟨e, _, he, -, hstep⟩ | ⟨fault, he, -, hstep⟩
    · rw [hstep, he]
      simp
    · rw [hstep, he]
      simp
  case batch => exact step_registerAll hon (hrecorded.handles on cell hon)

/-- On one registry: a name twice, a value that is no name, and a batch that is refused at its second
entry. -/
def mixedRegistrations : List Step :=
  [.newRegistry "r" [(.str "int", .converter Builtin.asText)],
    .register "r" (.str "int") (.converter Builtin.asInteger),
    .register "r" .null (.converter Builtin.asText),
    .registerAll "r" [(.str "bool", .converter Builtin.asTruth), (.str "$n", .converter Builtin.asText),
      (.str "float", .converter Builtin.asFloat)]]

theorem two_names_are_left : (initial.run 8 mixedRegistrations).1.handles.lookup "r" = some 0 ∧
    let s := (initial.run 8 mixedRegistrations).1
    s.step 8 (.names "r") = (s, .ok (.names ["bool", "int"] 2)) ∧
      (s.registryAt 0).find? "int" = some Builtin.asInteger ∧ (s.registryAt 0).find? "float" = none := by
  have hon : (initial.run 8 mixedRegistrations).1.handles.lookup "r" = some 0 := rfl
  have hnames : ((initial.run 8 mixedRegistrations).1.registryAt 0).names = ["bool", "int"] := by
    show (["int", "bool"] : List String).mergeSort = _
    simp [List.mergeSort]
  have hsize : ((initial.run 8 mixedRegistrations).1.registryAt 0).size = 2 := rfl
  have hlog : entriesOn 0 (initial.record 8 mixedRegistrations) =
      [("int", Builtin.asText), ("int", Builtin.asInteger), ("bool", Builtin.asTruth)] := rfl
  obtain ⟨hshows, -, hanswer, -⟩ := registry_is_its_record mixedRegistrations hon
  refine ⟨hon, ?_, ?_, ?_⟩
  · rw [hanswer, hnames, hsize]
  · rw [hshows.last, hlog]
    rfl
  · rw [hshows.last, hlog]
    rfl

end Session

end Reshape
