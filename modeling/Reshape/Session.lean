/-
  Reshape.Session: engines, registries and transformations over time.

  An engine has a registry, its own or one that it shares. A transformation belongs to the engine
  that compiled it: unless another registry is named, it is evaluated with that engine's registry
  as it is then, not as it was when it was compiled. Transformations never change.

  A session is a table of registries, the names under which registries and engines are known, and
  the transformations compiled so far. A step that fails binds no name; of a batch that fails the
  entries before the refused one stay registered. How deep an evaluation can go is given with the
  step.
-/

import Reshape.Evaluation

namespace Reshape

namespace Session

structure Compiled where
  transformation : Transformation
  /-- The registry of the engine that compiled it. -/
  registry : Nat

end Session

structure Session where
  registries : List Registry
  /-- Where the registry of each registry and engine is. -/
  handles : List (String × Nat)
  compiled : List Session.Compiled
  /-- Which transformation each name means. -/
  transformations : List (String × Nat)

namespace Session

/-- What a batch of converters is given as. -/
abbrev Batch := List (Key × Candidate)

inductive Step where
  | newRegistry (id : String) (batch : Batch)
  | newEngine (id : String) (batch : Batch) (shared : Option String)
  | register (on : String) (name : Value) (candidate : Candidate)
  | registerAll (on : String) (batch : Batch)
  | has (on : String) (name : Value)
  | get (on : String) (name value : Value)
  | names (on : String)
  | compile (on id : String) (document : Value)
  | show (t : String)
  | transform (on t : String) (data : Value)
  | call (t : String) (data : Value)
  | evaluate (t : String) (data : Value) (on : Option String)
  | transformMany (on t : String) (items : Value)
  | same (a b : String)

inductive Fault where
  | unbound (id : String)
  | unhashable (kind : String)
  | notIterable (kind : String)
  | registry (fault : RegistryFault)
  | compile (fault : CompileFault)
  | evaluation (fault : EvaluationFault)
  | conversion (fault : ConversionFault)

def Fault.message : Fault → String
  | .unbound id => Text.quoted id
  | .unhashable kind => s!"unhashable type: '{kind}'"
  | .notIterable kind => Reshape.notIterable kind
  | .registry fault => fault.message
  | .compile fault => fault.message
  | .evaluation fault => fault.message
  | .conversion fault => fault.message

inductive Answer where
  | done
  | truth (b : Bool)
  | names (names : List String) (size : Nat)
  | noConverter
  | converted (v : Value)
  | transformation (t : Transformation)
  | trees (t : Transformation)
  | value (v : Value)
  | values (vs : List Value) (stopped : Option Fault)

def initial : Session := ⟨[], [], [], []⟩

def registryAt (s : Session) (cell : Nat) : Registry := s.registries.getD cell Registry.empty

def cell (s : Session) (id : String) : Except Fault Nat :=
  match s.handles.lookup id with
  | some cell => .ok cell
  | none => .error (.unbound id)

def registryOf (s : Session) (id : String) : Except Fault Registry :=
  (s.cell id).map s.registryAt

def compiledOf (s : Session) (id : String) : Except Fault Compiled :=
  match (s.transformations.lookup id).bind (s.compiled[·]?) with
  | some c => .ok c
  | none => .error (.unbound id)

def setRegistry (s : Session) (cell : Nat) (r : Registry) : Session :=
  { s with registries := s.registries.set cell r }

def bindHandle (s : Session) (id : String) (cell : Nat) : Session :=
  { s with handles := Entries.put id cell s.handles }

/-- Adds a registry, filled with a batch, under a name unless the batch is refused. -/
def addRegistry (s : Session) (id : String) (batch : Batch) : Session × Except Fault Answer :=
  let (r, fault) := Registry.empty.registerAll batch
  match fault with
  | some fault => (s, .error (.registry fault))
  | none => (({ s with registries := s.registries ++ [r] }).bindHandle id s.registries.length,
      .ok (.names r.names r.size))

/-- Registers a batch on a registry that is there already, as far as it is accepted. -/
def extend (s : Session) (cell : Nat) (batch : Batch) : Session × Option RegistryFault :=
  let (r, fault) := (s.registryAt cell).registerAll batch
  (s.setRegistry cell r, fault)

def evaluateOn (depth : Nat) (r : Registry) (c : Compiled) (data : Value) : Except Fault Answer :=
  match c.transformation.evaluate depth r data with
  | .ok v => .ok (.value v)
  | .error fault => .error (.evaluation fault)

/-- Transforms items one after another, up to the first that fails. -/
def transformEach (depth : Nat) (r : Registry) (t : Transformation) :
    List Value → List Value × Option Fault
  | [] => ([], none)
  | item :: items => match t.evaluate depth r item with
    | .error fault => ([], some (.evaluation fault))
    | .ok v =>
      let (vs, fault) := transformEach depth r t items
      (v :: vs, fault)

/-- The registry that a name on a lookup table of converters can be looked up under. -/
def nameFor (v : Value) : Except Fault (Option String) :=
  match v.toKey with
  | .error w => .error (.unhashable w.kind)
  | .ok (.str s) => .ok (some s)
  | .ok _ => .ok none

/-- A step that changes nothing. -/
def look (depth : Nat) (s : Session) : Step → Except Fault Answer
  | .has on name => do
    let r ← s.registryOf on
    let name ← nameFor name
    pure (.truth (name.elim false r.has))
  | .get on name value => do
    let r ← s.registryOf on
    let name ← nameFor name
    match name.bind r.find? with
    | none => pure .noConverter
    | some f => match f value with
      | .ok v => pure (.converted v)
      | .error fault => throw (.conversion fault)
  | .names on => do
    let r ← s.registryOf on
    pure (.names r.names r.size)
  | .show t => do
    let c ← s.compiledOf t
    pure (.trees c.transformation)
  | .transform on t data => do
    let r ← s.registryOf on
    let c ← s.compiledOf t
    evaluateOn depth r c data
  | .call t data => do
    let c ← s.compiledOf t
    evaluateOn depth (s.registryAt c.registry) c data
  | .evaluate t data on => do
    let c ← s.compiledOf t
    let r ← match on with
      | none => pure (s.registryAt c.registry)
      | some on => s.registryOf on
    evaluateOn depth r c data
  | .transformMany on t items => do
    let r ← s.registryOf on
    let c ← s.compiledOf t
    match items.items? with
    | none => pure (.values [] (some (.notIterable items.qualifiedKind)))
    | some items =>
      let (vs, stopped) := transformEach depth r c.transformation items
      pure (.values vs stopped)
  | .same a b => match s.transformations.lookup a, s.transformations.lookup b with
    | some m, some n => .ok (.truth (m = n))
    | none, _ => .error (.unbound a)
    | _, none => .error (.unbound b)
  | _ => .ok .done

/-- The session after a step, and the answer to it. -/
def step (depth : Nat) (s : Session) (action : Step) : Session × Except Fault Answer :=
  match action with
  | .newRegistry id batch | .newEngine id batch none => s.addRegistry id batch
  | .newEngine id batch (some shared) => match s.cell shared with
    | .error fault => (s, .error fault)
    | .ok cell =>
      let (s, fault) := s.extend cell batch
      match fault with
      | some fault => (s, .error (.registry fault))
      | none =>
        let r := s.registryAt cell
        (s.bindHandle id cell, .ok (.names r.names r.size))
  | .register on name candidate => match s.cell on with
    | .error fault => (s, .error fault)
    | .ok cell => match (s.registryAt cell).register name candidate with
      | .ok r => (s.setRegistry cell r, .ok .done)
      | .error fault => (s, .error (.registry fault))
  | .registerAll on batch => match s.cell on with
    | .error fault => (s, .error fault)
    | .ok cell =>
      let (s, fault) := s.extend cell batch
      (s, (fault.map fun f => .error (.registry f)).getD (.ok .done))
  | .compile on id document => match s.cell on with
    | .error fault => (s, .error fault)
    | .ok cell => match Transformation.compile (s.registryAt cell).has document with
      | .error fault => (s, .error (.compile fault))
      | .ok t =>
        ({ s with
            compiled := s.compiled ++ [⟨t, cell⟩],
            transformations := Entries.put id s.compiled.length s.transformations },
          .ok (.transformation t))
  | action => (s, s.look depth action)

/-- The session after all steps, and the answers to them. -/
def run (depth : Nat) (s : Session) : List Step → Session × List (Except Fault Answer)
  | [] => (s, [])
  | action :: actions =>
    let (s, answer) := s.step depth action
    let (s, answers) := s.run depth actions
    (s, answer :: answers)

end Session

end Reshape
