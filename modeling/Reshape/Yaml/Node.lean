/-
  Reshape.Yaml.Node: the nodes of a YAML document.

  A node is a scalar with its text, a sequence or a mapping, each with its kind. Nodes are numbered,
  and sequences and mappings have the numbers of their parts. A text holds at most one document. An
  alias stands for the node that its anchor marks, which may be one that it is part of; an anchor
  is marked once.
-/

import Reshape.Yaml.Tag
import Reshape.Yaml.Token

namespace Reshape.Yaml

inductive Content where
  | scalar (text : String)
  | sequence (items : List Nat)
  | mapping (entries : List (Nat × Nat))
  deriving Repr, Inhabited

structure Node where
  tag : Tag
  content : Content
  deriving Repr

/-- A node that is not written. -/
def Node.empty : Node := ⟨.null, .scalar ""⟩

instance : Inhabited Node := ⟨.empty⟩

structure Document where
  nodes : Array Node
  root : Nat
  deriving Repr

/-- Tokens that are left, what is known about handles and anchors, and the nodes read so far. -/
structure Outline where
  tokens : List Token
  handles : List (String × String)
  anchors : List (String × Nat)
  nodes : Array Node

namespace Outline

def peek (o : Outline) : Option Token := o.tokens.head?

def next (o : Outline) : Outline := { o with tokens := o.tokens.tail }

/-- Why the next token is refused. -/
def fault (o : Outline) : Fault :=
  match o.peek with
  | some (.broken fault) => fault
  | _ => .malformed

def isBroken (o : Outline) : Bool := o.peek matches some (.broken _)

/-- Refuses to go on if the next token cannot be read. -/
def whole (o : Outline) : Except Fault Unit := if o.isBroken then .error o.fault else .ok ()

def expect (o : Outline) (t : Token) : Except Fault Outline :=
  if o.peek = some t then .ok o.next else .error o.fault

/-- Whether one of these tokens comes next. -/
def atAny (o : Outline) (ts : List Token) : Bool := o.peek.any ts.contains

/-! ## Tags and anchors -/

/-- The tag and the anchor before a node. -/
structure Marks where
  tag : Option (Option String × String)
  anchor : Option String

/-- After one mark the other is looked for. -/
def marks (o : Outline) : Except Fault (Marks × Outline) :=
  match o.tokens with
  | .anchor a :: .tag h s :: rest => .ok (⟨some (h, s), some a⟩, { o with tokens := rest })
  | .tag h s :: .anchor a :: rest => .ok (⟨some (h, s), some a⟩, { o with tokens := rest })
  | .anchor a :: _ => o.next.whole.map fun _ => (⟨none, some a⟩, o.next)
  | .tag h s :: _ => o.next.whole.map fun _ => (⟨some (h, s), none⟩, o.next)
  | _ => .ok (⟨none, none⟩, o)

/-- The full text of a tag. -/
def expand (o : Outline) : Option String × String → Except Fault String
  | (none, suffix) => .ok suffix
  | (some h, suffix) => match o.handles.lookup h with
    | some expansion => .ok (expansion ++ suffix)
    | none => .error .malformed

/-- The kind asked for by a tag; `none` if there is no tag or it asks for the usual kind. -/
def requested (o : Outline) (m : Marks) : Except Fault (Option Tag) :=
  match m.tag with
  | none => .ok none
  | some t => (o.expand t).map fun uri => if uri = "!" then none else some (Tag.ofUri uri)

/-! ## Nodes -/

def add (o : Outline) (n : Node) : Nat × Outline :=
  (o.nodes.size, { o with nodes := o.nodes.push n })

/-- Adds a node under its anchor, which must be new. -/
def addMarked (o : Outline) (m : Marks) (n : Node) : Except Fault (Nat × Outline) :=
  match m.anchor with
  | none => .ok (o.add n)
  | some a =>
    if (o.anchors.lookup a).isSome then .error .malformed
    else .ok ({ o with anchors := (a, o.nodes.size) :: o.anchors }.add n)

/-- Gives a node that was added before its parts the parts. -/
def fill (o : Outline) (n : Nat) (content : Content) : Outline :=
  { o with nodes := o.nodes.modify n fun node => { node with content := content } }

/-- A node of which only the tag or anchor is written. -/
def addAbsent (o : Outline) (m : Marks) (tag : Option Tag) : Except Fault (Nat × Outline) :=
  if m.tag.isSome ∨ m.anchor.isSome then o.addMarked m ⟨tag.getD .null, .scalar ""⟩
  else .error o.fault

end Outline

/-- Where a node stands: what it can be depends on it. -/
inductive Setting where
  | flow
  | block
  /-- In a block mapping, where a sequence need not be indented. -/
  | entry
  deriving DecidableEq, Repr

open Outline

/-- A node that `read` gives its parts. -/
def readParts (m : Marks) (o : Outline) (node : Node)
    (read : Outline → Except Fault (Content × Outline)) : Except Fault (Nat × Outline) := do
  let (n, o) ← o.addMarked m node
  let (content, o) ← read o
  pure (n, o.fill n content)

def asSequence (r : Except Fault (List Nat × Outline)) : Except Fault (Content × Outline) :=
  r.map fun (ns, o) => (.sequence ns, o)

def asMapping (r : Except Fault (List (Nat × Nat) × Outline)) :
    Except Fault (Content × Outline) :=
  r.map fun (es, o) => (.mapping es, o)

mutual
/-- A node, which must be there. -/
def readNode : Nat → Setting → Outline → Except Fault (Nat × Outline)
  | 0, _, _ => .error .malformed
  | fuel + 1, setting, o =>
    match o.peek with
    | some (.alias a) => match o.anchors.lookup a with
      | some n => .ok (n, o.next)
      | none => .error .malformed
    | _ => do
      let (m, o) ← o.marks
      let tag ← o.requested m
      let _ ← o.whole
      readContent fuel setting m tag o
/-- A node after its tag and anchor. -/
def readContent : Nat → Setting → Marks → Option Tag → Outline → Except Fault (Nat × Outline)
  | 0, _, _, _, _ => .error .malformed
  | fuel + 1, setting, m, tag, o =>
    let sequence := readParts m o ⟨tag.getD .seq, .sequence []⟩
    let mapping := readParts m o ⟨tag.getD .map, .mapping []⟩
    match o.peek with
    | some (.scalar text isPlain) =>
      let usual := if isPlain ∨ m.tag.isSome then Tag.ofPlain text else .str
      o.next.addMarked m ⟨tag.getD usual, .scalar text⟩
    | some .flowSequenceStart => sequence fun o => asSequence (readFlowItems fuel true o.next)
    | some .flowMappingStart => mapping fun o => asMapping (readFlowEntries fuel true o.next)
    | some .blockEntry =>
      if setting = .entry then sequence fun o => asSequence (readIndentless fuel o)
      else o.addAbsent m tag
    | some .blockSequenceStart =>
      if setting = .flow then o.addAbsent m tag
      else sequence fun o => asSequence (readBlockItems fuel o.next)
    | some .blockMappingStart =>
      if setting = .flow then o.addAbsent m tag
      else mapping fun o => asMapping (readBlockEntries fuel o.next)
    | _ => o.addAbsent m tag
/-- A node, or nothing before one of these tokens. -/
def readUnless : Nat → Setting → List Token → Outline → Except Fault (Nat × Outline)
  | 0, _, _, _ => .error .malformed
  | fuel + 1, setting, ends, o =>
    if o.atAny ends then .ok (o.add .empty) else readNode fuel setting o
def readBlockItems : Nat → Outline → Except Fault (List Nat × Outline)
  | 0, _ => .error .malformed
  | fuel + 1, o =>
    if o.peek = some .blockEntry then do
      let (n, o) ← readUnless fuel .block [.blockEntry, .blockEnd] o.next
      let (ns, o) ← readBlockItems fuel o
      pure (n :: ns, o)
    else (o.expect .blockEnd).map fun o => ([], o)
def readIndentless : Nat → Outline → Except Fault (List Nat × Outline)
  | 0, _ => .error .malformed
  | fuel + 1, o =>
    if o.peek = some .blockEntry then do
      let (n, o) ← readUnless fuel .block [.blockEntry, .key, .value, .blockEnd] o.next
      let (ns, o) ← readIndentless fuel o
      pure (n :: ns, o)
    else .ok ([], o)
def readBlockEntries : Nat → Outline → Except Fault (List (Nat × Nat) × Outline)
  | 0, _ => .error .malformed
  | fuel + 1, o =>
    if o.peek = some .key then do
      let (k, o) ← readUnless fuel .entry [.key, .value, .blockEnd] o.next
      let (v, o) ← (
        if o.peek = some .value then readUnless fuel .entry [.key, .value, .blockEnd] o.next
        else .ok (o.add .empty))
      let (es, o) ← readBlockEntries fuel o
      pure ((k, v) :: es, o)
    else (o.expect .blockEnd).map fun o => ([], o)
/-- A pair in brackets after its key mark; it ends before one of these tokens. -/
def readFlowPair : Nat → Token → Outline → Except Fault ((Nat × Nat) × Outline)
  | 0, _, _ => .error .malformed
  | fuel + 1, closing, o => do
    let (k, o) ← readUnless fuel .flow [.value, .flowEntry, closing] o
    let (v, o) ← (
      if o.peek = some .value then readUnless fuel .flow [.flowEntry, closing] o.next
      else .ok (o.add .empty))
    pure ((k, v), o)
/-- The items of a bracketed sequence and its end; before all but the first a comma stands. -/
def readFlowItems : Nat → Bool → Outline → Except Fault (List Nat × Outline)
  | 0, _, _ => .error .malformed
  | fuel + 1, isFirst, o =>
    if o.peek = some .flowSequenceEnd then .ok ([], o.next)
    else do
      let o ← if isFirst then pure o else o.expect .flowEntry
      if o.peek = some .flowSequenceEnd then pure ([], o.next)
      else
        let (n, o) ← (
          if o.peek = some .key then
            readParts ⟨none, none⟩ o ⟨.map, .mapping []⟩ fun o =>
              asMapping ((readFlowPair fuel .flowSequenceEnd o.next).map fun (e, o) => ([e], o))
          else readNode fuel .flow o)
        let (ns, o) ← readFlowItems fuel false o
        pure (n :: ns, o)
/-- The entries of a bracketed mapping and its end; before all but the first a comma stands. -/
def readFlowEntries : Nat → Bool → Outline → Except Fault (List (Nat × Nat) × Outline)
  | 0, _, _ => .error .malformed
  | fuel + 1, isFirst, o =>
    if o.peek = some .flowMappingEnd then .ok ([], o.next)
    else do
      let o ← if isFirst then pure o else o.expect .flowEntry
      if o.peek = some .flowMappingEnd then pure ([], o.next)
      else
        let (e, o) ← (
          if o.peek = some .key then readFlowPair fuel .flowMappingEnd o.next
          else do
            let (k, o) ← readNode fuel .flow o
            let (v, o) := o.add .empty
            pure ((k, v), o))
        let (es, o) ← readFlowEntries fuel false o
        pure (e :: es, o)
end

/-! ## Documents -/

def standardHandles : List (String × String) := [("!", "!"), ("!!", standardTags)]

/-- What directives declare: whether a version, and which handles. -/
structure Declarations where
  hasVersion : Bool
  handles : List (String × String)

def Declarations.none : Declarations := ⟨false, []⟩

/-- The directives at the start of the tokens. -/
def readDirectives (d : Declarations) : List Token → Except Fault (Declarations × List Token)
  | .directive (.version major _) :: rest =>
    if d.hasVersion ∨ major ≠ 1 then .error .malformed
    else readDirectives { d with hasVersion := true } rest
  | .directive (.handle name expansion) :: rest =>
    if (d.handles.lookup name).isSome then .error .malformed
    else readDirectives { d with handles := (name, expansion) :: d.handles } rest
  | .directive (.unknown _) :: rest => readDirectives d rest
  | .broken fault :: _ => .error fault
  | rest => .ok (d, rest)

/-- Makes sure that no document follows: any number of end marks may. -/
def expectEnd (ts : List Token) : Except Fault Unit :=
  match ts.dropWhile (· = .documentEnd) with
  | [] => .ok ()
  | rest => do
    let _ ← readDirectives .none rest
    throw .malformed

/-- The root node after the start of a document, which may be missing if the start is marked. -/
def readRoot (isMarked : Bool) (o : Outline) : Except Fault Document := do
  let atEnd : Bool := match o.peek with
    | none | some (.directive _) | some .documentStart | some .documentEnd => true
    | _ => false
  let (n, o) ← (
    if isMarked && atEnd then .ok (o.add .empty)
    else readNode (4 * o.tokens.length + 4) .block o)
  expectEnd o.tokens
  pure ⟨o.nodes, n⟩

/-- The only document; `none` if there is none. -/
def Document.ofTokens (ts : List Token) : Except Fault (Option Document) :=
  match ts with
  | [] => .ok none
  | .directive _ :: _ | .documentStart :: _ => do
    let (d, rest) ← readDirectives .none ts
    match rest with
    | .documentStart :: rest =>
      (readRoot true ⟨rest, d.handles ++ standardHandles, [], #[]⟩).map some
    | _ => throw .malformed
  | ts => (readRoot false ⟨ts, standardHandles, [], #[]⟩).map some

end Reshape.Yaml
