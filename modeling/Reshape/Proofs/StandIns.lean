/-
  Reshape.Proofs.StandIns: a converter that is missing counts as one that gives null.

  Where the registry has no converter, one that gives null for everything can stand in for it. What comes
  of an evaluation is the same, and in the place of every call that found no converter there is a call of
  the stand-in, with the same argument.
  - `Registry.filled`: the registry with stand-ins for these names.
  - `Run.StoodIn`: two runs that differ in this only.
  - `stoodIn_evaluate`, `stoodIn_enterNested`: trees, and nested mappings down to any depth.
  - `events_of_missing`: how often a rule misses its converter, once for every value that it resolves.
  - `missing_gives_null`: whole runs, and the records that they leave.
-/

import Reshape.Log
import Reshape.Proofs.Faults

namespace Reshape

/-! ## Stand-ins -/

/-- Gives null for everything. -/
def Converter.null : Converter := fun _ => .ok .null

namespace Registry

variable {registry : Registry} {names : List String} {name : String}

/-- The names that are no names of nested mappings and have no converter. -/
def lacking (registry : Registry) (names : List String) : List String :=
  names.filter fun name => !isNestedName name && !registry.has name

/-- The registry with a converter that gives null under each of these names that lacks one. -/
def filled (registry : Registry) (names : List String) : Registry :=
  ⟨registry.entries ++ (registry.lacking names).map fun name => (name, Converter.null)⟩

theorem mem_lacking :
    name ∈ registry.lacking names ↔ name ∈ names ∧ isNestedName name = false ∧ registry.find? name = none := by
  simp [lacking, has]

theorem find?_filled_of_some {f : Converter} (h : registry.find? name = some f) :
    (registry.filled names).find? name = some f := by
  unfold find? at h ⊢
  rw [filled, List.lookup_append, h, Option.some_or]

theorem find?_filled_of_none (h : registry.find? name = none) (hname : name ∈ names)
    (hn : isNestedName name = false) : (registry.filled names).find? name = some Converter.null := by
  have hmem : name ∈ registry.lacking names := mem_lacking.mpr ⟨hname, hn, h⟩
  unfold find? at h ⊢
  rw [filled, List.lookup_append, h, Option.none_or]
  generalize registry.lacking names = lacking at hmem
  induction lacking with
  | nil => cases hmem
  | cons k rest ih =>
    rw [List.map_cons, List.lookup_cons]
    by_cases hk : name = k
    · rw [hk, beq_self_eq_true]
    · rw [beq_false_of_ne hk]
      exact ih ((List.mem_cons.mp hmem).resolve_left hk)

end Registry

/-! ## Runs with stand-ins -/

/-- The event with a call of the stand-in in the place of a call that found no converter. -/
def Event.stoodIn : Event → Event
  | .missing name argument => .called name argument
  | event => event

/-- The registry has the converters that are called, and not those that are missing. -/
def Event.TrueOf (registry : Registry) : Event → Prop
  | .entered _ _ => True
  | .called name _ => registry.has name = true
  | .missing name _ => registry.has name = false

/-- `r'` is the run `r` with stand-ins for the converters that the registry lacks. -/
structure Run.StoodIn {α : Type} (registry : Registry) (r r' : Run α) : Prop where
  outcome : r'.outcome = r.outcome
  events : r'.events = r.events.map Event.stoodIn
  faithful : ∀ event ∈ r.events, event.TrueOf registry

namespace Run

variable {registry : Registry}

theorem stoodIn_of_quiet {α : Type} {r : Run α} (h : r.events = []) : r.StoodIn registry r :=
  ⟨rfl, by rw [h]; rfl, by simp [h]⟩

theorem StoodIn.entered {r r' : Run Value} (h : r.StoodIn registry r') (name : String) (c : Context) :
    (r.after (.entered name c)).StoodIn registry (r'.after (.entered name c)) := by
  obtain ⟨houtcome, hevents, htrue⟩ := h
  have hevents' : Event.entered name c :: r'.events = (Event.entered name c :: r.events).map Event.stoodIn := by
    rw [hevents, List.map_cons]
    rfl
  exact ⟨houtcome, hevents', List.forall_mem_cons.mpr ⟨trivial, htrue⟩⟩

end Run

theorem sequential_stoodIn (registry : Registry) : Sequential fun _ r r' => r.StoodIn registry r' := by
  refine ⟨fun a => Run.stoodIn_of_quiet rfl, ?_⟩
  intro α β r r' f f' hr hf
  obtain ⟨events, outcome⟩ := r
  obtain ⟨events', outcome'⟩ := r'
  obtain ⟨houtcome, hevents, htrue⟩ := hr
  dsimp only at houtcome hevents htrue
  subst houtcome hevents
  cases outcome' with
  | error fault => exact ⟨rfl, rfl, htrue⟩
  | ok a =>
    obtain ⟨houtcome, hevents, htrue'⟩ := hf a
    refine ⟨houtcome, ?_, fun event hevent => ?_⟩
    · show events.map Event.stoodIn ++ (f' a).events = (events ++ (f a).events).map Event.stoodIn
      rw [hevents, List.map_append]
    · exact (List.mem_append.mp hevent).elim (htrue event) (htrue' event)

section
variable {registry : Registry} {names : List String} {enter enter' : String → Context → Run Value}

theorem stoodIn_resolve (henter : ∀ name c, (enter name c).StoodIn registry (enter' name c)) (c : Context)
    {target : String} (ht : target ∈ names) (w : Value) :
    (resolve registry enter c target w).StoodIn registry (resolve (registry.filled names) enter' c target w) := by
  unfold resolve
  by_cases hn : isNestedName target = true
  · rw [if_pos hn, if_pos hn]
    exact henter _ _
  · rw [if_neg hn, if_neg hn]
    cases hf : registry.find? target with
    | some f =>
      have hhas : registry.has target = true := by rw [Registry.has, hf]; rfl
      rw [Registry.find?_filled_of_some hf]
      exact ⟨rfl, rfl, List.forall_mem_singleton.mpr hhas⟩
    | none =>
      have hlacks : registry.has target = false := by rw [Registry.has, hf]; rfl
      rw [Registry.find?_filled_of_none hf ht (by simpa using hn)]
      exact ⟨rfl, rfl, List.forall_mem_singleton.mpr hlacks⟩

theorem stoodIn_evaluate (henter : ∀ name c, (enter name c).StoodIn registry (enter' name c)) (c : Context) {t : Tree}
    (ht : ∀ r ∈ t.rules, r.target ∈ names) :
    (t.evaluate registry enter c).StoodIn registry (t.evaluate (registry.filled names) enter' c) := by
  have hR := sequential_stoodIn registry
  refine hR.evaluate registry (registry.filled names) enter enter' fun r hr => ?_
  refine hR.evaluateRule registry (registry.filled names) enter enter' (fun _ _ => Run.stoodIn_of_quiet rfl) ?_
  exact fun w _ => stoodIn_resolve henter c (ht r hr) w

/-- One entry after another, to any depth. -/
theorem stoodIn_enterNested {nested : Nested}
    (hnested : ∀ n t, nested.lookup n = some t → ∀ r ∈ t.rules, r.target ∈ names) (depth : Nat) (name : String)
    (c : Context) : (enterNested registry nested depth name c).StoodIn registry
      (enterNested (registry.filled names) nested depth name c) := by
  induction depth generalizing name c with
  | zero =>
    rw [enterNested, enterNested]
    split <;> exact Run.stoodIn_of_quiet rfl
  | succ depth ih =>
    rw [enterNested, enterNested]
    split
    · exact Run.stoodIn_of_quiet rfl
    · rename_i t hl
      exact (stoodIn_evaluate ih c (hnested name t hl)).entered name c

end

/-! ## How often a converter is missed -/

/-- The values that a rule resolves in a context, one after another: what it takes, or the elements of that for
an array rule, and nothing if that is absent, null or no sequence. -/
def Rule.resolved (c : Context) (r : Rule) : List Value :=
  match c.extract r.path with
  | .error _ | .ok none | .ok (some .null) => []
  | .ok (some v) =>
    if r.isArray then
      match v.contents with
      | .seq _ items => items
      | _ => []
    else [v]

theorem Rule.resolved_of_value {c : Context} {r : Rule} {v : Value} (hv : c.extract r.path = .ok (some v))
    (hnull : v ≠ .null) : r.resolved c = if r.isArray then
        match v.contents with
        | .seq _ items => items
        | _ => []
      else [v] := by
  unfold resolved
  rw [hv]
  split
  · rename_i h
    cases h
  · rename_i h
    cases h
  · rename_i h
    cases h
    exact absurd rfl hnull
  · rename_i h
    cases h
    rfl

theorem Rule.resolved_of_nothing {c : Context} {r : Rule} {found : Option Value} (hfound : c.extract r.path = .ok found)
    (hnull : found.getD .null = .null) : r.resolved c = [] := by
  unfold resolved
  rw [hfound]
  cases found with
  | none => rfl
  | some v => rw [show v = .null from hnull]

section
variable {registry : Registry} {enter : String → Context → Run Value} {c : Context}

theorem resolve_of_missing {target : String} (hn : isNestedName target = false) (hf : registry.find? target = none)
    (w : Value) : resolve registry enter c target w = ⟨[.missing target w], .ok .null⟩ := by
  unfold resolve
  rw [if_neg (by simp [hn]), hf]
  rfl

theorem forEach_of_missing {target : String} (hn : isNestedName target = false) (hf : registry.find? target = none)
    (ws : List Value) : Run.forEach (resolve registry enter c target) ws =
      ⟨ws.map (.missing target), .ok (ws.map fun _ => .null)⟩ := by
  induction ws with
  | nil => rfl
  | cons w ws ih =>
    rw [Run.forEach, resolve_of_missing hn hf, ih]
    show Run.bind _ (fun b => Run.bind _ fun bs => pure (b :: bs)) = _
    simp [Run.bind, pure]

/-- A rule whose converter is missing misses it once for every value that it resolves. -/
theorem events_of_missing {r : Rule} (hn : r.isNested = false) (hf : registry.find? r.target = none) :
    (r.evaluate registry enter c).events = (r.resolved c).map (.missing r.target) := by
  cases hx : c.extract r.path with
  | error fault =>
    rw [evaluateRule_of_refused hx, Rule.resolved, hx]
    rfl
  | ok found =>
    by_cases hnothing : found.getD .null = .null
    · rw [evaluateRule_of_nothing hx hnothing, Rule.resolved_of_nothing hx hnothing]
      rfl
    obtain ⟨v, rfl, hnull⟩ := exists_value hnothing
    rw [evaluateRule_of_value hx hnull, Rule.resolved_of_value hx hnull]
    by_cases ha : r.isArray = true
    · rw [if_pos ha, if_pos ha]
      cases v.contents with
      | seq form items =>
        dsimp only
        rw [forEach_of_missing hn hf]
        exact List.append_nil _
      | _ => rfl
    · rw [if_neg ha, if_neg ha, resolve_of_missing hn hf]
      rfl

end

/-! ## Records -/

/-- The call that a stand-in for a missing converter receives, if the event is one. -/
def Event.standIn? (registry : Registry) : Event → Option (String × Value)
  | .called name argument => if registry.has name then none else some (name, argument)
  | _ => none

/-- A record of the interpreter, at the level for debugging, which says that there is no converter of the name. -/
structure Log.Record.IsOfMissing (record : Log.Record) (name : String) : Prop where
  level : record.level = 10
  logger : record.logger = "maptools.mapping.interpreter"
  message : record.message = s!"no converter registered for {Text.quoted name}; returning None"

/-- There is a record for every call of a stand-in, in the same order and with the same name. -/
theorem Run.StoodIn.records {α : Type} {registry : Registry} {r r' : Run α} (h : r.StoodIn registry r') :
    List.Forall₂ (fun call record => record.IsOfMissing call.1) (r'.events.filterMap (Event.standIn? registry))
      (Log.ofEvents r.events) := by
  obtain ⟨-, hevents, htrue⟩ := h
  rw [hevents]
  generalize r.events = events at htrue
  induction events with
  | nil => exact .nil
  | cons event events ih =>
    obtain ⟨hevent, hrest⟩ := List.forall_mem_cons.mp htrue
    have ih := ih hrest
    cases event with
    | entered name c => exact ih
    | called name argument =>
      have hnone : Event.standIn? registry (.called name argument) = none := if_pos hevent
      show List.Forall₂ _ ((.called name argument :: events.map Event.stoodIn).filterMap _) _
      rw [List.filterMap_cons_none hnone]
      exact ih
    | missing name argument =>
      have hlacks : registry.has name = false := hevent
      have hsome : Event.standIn? registry (.called name argument) = some (name, argument) := by
        rw [Event.standIn?, if_neg (by simp [hlacks])]
      show List.Forall₂ _ ((.called name argument :: events.map Event.stoodIn).filterMap _) _
      rw [List.filterMap_cons_some hsome]
      exact .cons ⟨rfl, rfl, rfl⟩ ih

namespace Transformation

/-- What the rules of the transformation name. -/
def targets (t : Transformation) : List String :=
  (t.properties.rules ++ t.nested.flatMap fun e => e.2.rules).map Rule.target

theorem HasRule.mem_targets {t : Transformation} {r : Rule} (h : t.HasRule r) : r.target ∈ t.targets := by
  refine List.mem_map_of_mem (List.mem_append.mpr ?_)
  rcases h with hr | ⟨n, u, hl, hr⟩
  · exact Or.inl hr
  · obtain ⟨j, hj⟩ := Entries.exists_mem_of_lookup hl
    exact Or.inr (List.mem_flatMap.mpr ⟨(j, u), hj, hr⟩)

theorem stoodIn_runWithin (t : Transformation) (registry : Registry) (data : Value) {names : List String}
    (hnames : ∀ n ∈ t.targets, n ∈ names) (depth : Nat) :
    (t.runWithin depth registry data).StoodIn registry (t.runWithin depth (registry.filled names) data) := by
  have hnested : ∀ n u, t.nested.lookup n = some u → ∀ r ∈ u.rules, r.target ∈ names :=
    fun n u hl r hr => hnames _ (HasRule.mem_targets (Or.inr ⟨n, u, hl, hr⟩))
  exact stoodIn_evaluate (stoodIn_enterNested hnested depth) _ fun r hr => hnames _ (HasRule.mem_targets (Or.inl hr))

/-- A converter that is missing counts as one that gives null. With stand-ins for all that are missing the
transformation ends alike; it calls them, with the same arguments, where it found no converter, and for every
such call there is a record, at the level for debugging, that names it. A rule without a converter makes one
such call for every value that it resolves. -/
theorem missing_gives_null (t : Transformation) (registry : Registry) (data : Value) (more : List String) :
    (∀ run, t.Ends registry data run → ∃ run', t.Ends (registry.filled (t.targets ++ more)) data run' ∧
      run'.outcome = run.outcome ∧ run'.events = run.events.map Event.stoodIn ∧
      List.Forall₂ (fun call record => record.IsOfMissing call.1)
        (run'.events.filterMap (Event.standIn? registry)) (Log.ofEvents run.events)) ∧
    ∀ (r : Rule) (enter : String → Context → Run Value) (c : Context), r.isNested = false →
      registry.find? r.target = none →
      (r.evaluate registry enter c).events = (r.resolved c).map (.missing r.target) := by
  refine ⟨fun run hends => ?_, fun r enter c hn hf => events_of_missing hn hf⟩
  obtain ⟨depth, rfl, hdeep⟩ := hends
  have hstood := stoodIn_runWithin t registry data (fun n hn => List.mem_append_left more hn) depth
  refine ⟨_, ⟨depth, rfl, ?_⟩, hstood.outcome, hstood.events, hstood.records⟩
  rwa [hstood.outcome]

/-- Three rules: one without a converter for the elements of a sequence, one that fails in a nested mapping,
and one that is not reached. -/
def gaps : Transformation :=
  ⟨.dict [("a", .leaf ⟨["xs"], "gone", true⟩), ("b", .leaf ⟨["n"], "$s", false⟩), ("c", .leaf ⟨["n"], "lost", false⟩)],
    [("$s", .list [.leaf ⟨["k"], "gone", false⟩, .leaf ⟨["k"], "int", false⟩])]⟩

def gapsData : Value :=
  .dict [(.str "xs", .list [.int 1, .null, .str "x"]), (.str "n", .dict [(.str "k", .str "y")])]

theorem four_calls_are_missed : gaps.Ends integers gapsData (gaps.runWithin 1 integers gapsData) ∧
    (gaps.runWithin 1 integers gapsData).outcome = .error (.conversion (.integerText "y")) ∧
    Log.ofEvents (gaps.runWithin 1 integers gapsData).events = List.replicate 4
      ⟨10, "maptools.mapping.interpreter", "no converter registered for 'gone'; returning None"⟩ ∧
    ∃ run', gaps.Ends (integers.filled (gaps.targets ++ [])) gapsData run' ∧
      run'.outcome = .error (.conversion (.integerText "y")) ∧
      (run'.events.filterMap (Event.standIn? integers)).map Prod.snd = [.int 1, .null, .str "x", .str "y"] := by
  have houtcome : (gaps.runWithin 1 integers gapsData).outcome = .error (.conversion (.integerText "y")) := by rfl
  have hevents : ((gaps.runWithin 1 integers gapsData).events.map Event.stoodIn).filterMap (Event.standIn? integers) =
      [("gone", .int 1), ("gone", .null), ("gone", .str "x"), ("gone", .str "y")] := by rfl
  have hends : gaps.Ends integers gapsData (gaps.runWithin 1 integers gapsData) := by
    refine ⟨1, rfl, ?_⟩
    rw [houtcome]
    intro h
    cases h
  obtain ⟨run', hends', houtcome', hevents', -⟩ := (missing_gives_null gaps integers gapsData []).1 _ hends
  refine ⟨hends, houtcome, by rfl, run', hends', houtcome'.trans houtcome, ?_⟩
  rw [hevents', hevents]
  rfl

end Transformation

end Reshape
