/-
  Reshape.Yaml.Draft: nodes on the way to their values.

  Every node that is reached becomes a cell: a scalar at once, a collection first without its parts.
  Collections get their parts in the order in which they were reached, so that of several faults the
  one nearest to the root counts, and of those in one depth the first. A collection whose kind does
  not fit is refused.

  When a mapping gets its entries, its merge marks are resolved: an entry under one adds the entries
  of a mapping, or of several with the first the strongest, before all other entries. A value mark
  as a key is a text. Both change the nodes themselves, wherever else they stand.
-/

import Reshape.Entries
import Reshape.Value.Web
import Reshape.Yaml.Constant
import Reshape.Yaml.Node

namespace Reshape.Yaml

structure Draft where
  nodes : Array Node
  /-- The cells of the nodes, as far as they are reached, and those of pairs after them. -/
  cells : Array (Option Cell)
  /-- The collections without their parts, the last reached first. -/
  pending : List Nat

namespace Draft

def start (nodes : Array Node) : Draft := ⟨nodes, Array.replicate nodes.size none, []⟩

def node (d : Draft) (n : Nat) : Node := d.nodes.getD n .empty

def cell? (d : Draft) (n : Nat) : Option Cell := d.cells.getD n none

def setCell (d : Draft) (n : Nat) (c : Cell) : Draft :=
  { d with cells := d.cells.setIfInBounds n (some c) }

/-- The entries of a node, of which only a mapping has any. -/
def entries (d : Draft) (n : Nat) : List (Nat × Nat) :=
  match (d.node n).content with
  | .mapping entries => entries
  | _ => []

def setEntries (d : Draft) (n : Nat) (entries : List (Nat × Nat)) : Draft :=
  { d with nodes := d.nodes.modify n fun node => { node with content := .mapping entries } }

def setTag (d : Draft) (n : Nat) (tag : Tag) : Draft :=
  { d with nodes := d.nodes.modify n fun node => { node with tag := tag } }

def hasTag (d : Draft) (n : Nat) (tag : Tag) : Bool := (d.node n).tag = tag

/-! ## Scalars -/

/-- The text of a scalar; a mapping can have one under the value mark. A node is inside of fewer
nodes than there are. -/
def textWithin (d : Draft) : Nat → Nat → Option String
  | 0, _ => none
  | depth + 1, n => match (d.node n).content with
    | .scalar text => some text
    | .sequence _ => none
    | .mapping entries =>
      (entries.find? fun (k, _) => d.hasTag k .value).bind fun (_, v) => textWithin d depth v

def scalar (d : Draft) (n : Nat) : Except Fault Scalar :=
  match d.textWithin (d.nodes.size + 1) n, (d.node n).tag, (d.node n).content with
  | none, _, _ => .error .malformed
  | some _, .timestamp, .mapping _ => .error .dateInMapping
  | some text, tag, _ => scalarValue tag text

/-- Makes sure that a node has a cell. -/
def reach (d : Draft) (n : Nat) : Except Fault Draft :=
  let collection (c : Cell) : Except Fault Draft :=
    .ok { d.setCell n c with pending := n :: d.pending }
  if (d.cell? n).isSome then .ok d
  else match (d.node n).tag with
    | .seq | .pairs => collection (.seq .list [])
    | .map => collection (.dict [])
    | .set => collection (.set [])
    | _ => (d.scalar n).map fun s => d.setCell n (.scalar s)

/-! ## Merges -/

/-- The entries that a node adds under a merge mark. -/
def mergeable (flatten : Nat → Draft → Except Fault Draft) (n : Nat) (d : Draft) :
    Except Fault (List (Nat × Nat) × Draft) :=
  match (d.node n).content with
  | .mapping _ => (flatten n d).map fun d => (d.entries n, d)
  | .sequence items =>
    items.foldlM (fun (merged, d) item => match (d.node item).content with
      | .mapping _ => (flatten item d).map fun d => (d.entries item ++ merged, d)
      | _ => .error .malformed) ([], d)
  | .scalar _ => .error .malformed

/-- Goes through the entries of a mapping from number `i` on, takes those under merge marks out and
gives the entries that they add. -/
def takeMerges (flatten : Nat → Draft → Except Fault Draft) (n : Nat) :
    Nat → Nat → Draft → Except Fault (List (Nat × Nat) × Draft)
  | 0, _, d => .ok ([], d)
  | steps + 1, i, d => match (d.entries n)[i]? with
    | none => .ok ([], d)
    | some (k, v) =>
      if d.hasTag k .merge then do
        let (merged, d) ← mergeable flatten v (d.setEntries n ((d.entries n).eraseIdx i))
        let (more, d) ← takeMerges flatten n steps i d
        pure (merged ++ more, d)
      else
        let d := if d.hasTag k .value then d.setTag k .str else d
        takeMerges flatten n steps (i + 1) d

/-- Resolves the marks in a mapping and in those that it merges. Each depth takes out an entry under
a merge mark first. -/
def flattenWithin : Nat → Nat → Draft → Except Fault Draft
  | 0, _, _ => .error .malformed
  | depth + 1, n, d =>
    if (d.entries n).any fun (k, _) => d.hasTag k .merge || d.hasTag k .value then do
      let (merged, d) ← takeMerges (flattenWithin depth) n (d.entries n).length 0 d
      pure (if merged = [] then d else d.setEntries n (merged ++ d.entries n))
    else .ok d

def flatten (d : Draft) (n : Nat) : Except Fault Draft :=
  let entries : Nat → Content → Nat := fun sum content => match content with
    | .mapping entries => sum + entries.length
    | _ => sum
  flattenWithin ((d.nodes.foldl (fun sum node => entries sum node.content) 0) + 1) n d

/-! ## Collections -/

def reachAll (d : Draft) (ns : List Nat) : Except Fault Draft := ns.foldlM reach d

/-- A key with the thing that it is. No number is a different key each time, unless it is the same
thing; written as a constant it is one thing wherever it stands. -/
structure Marked where
  thing : Nat
  key : Key

def Marked.same (a b : Marked) : Bool := a.thing = b.thing || a.key == b.key

instance : BEq Marked := ⟨Marked.same⟩

def thing (d : Draft) (n : Nat) : Nat :=
  match (d.node n).tag, (d.node n).content with
  | .float, .scalar text => if isNotANumber text then d.nodes.size else n
  | _, _ => n

/-- Reaches the keys and values of a mapping. A collection cannot be a key. -/
def keyed (d : Draft) : List (Nat × Nat) → Except Fault (List (Marked × Nat) × Draft)
  | [] => .ok ([], d)
  | (k, v) :: es => do
    let d ← d.reach k
    match d.cell? k with
    | some (.scalar s) =>
      let d ← d.reach v
      let (rest, d) ← d.keyed es
      pure ((⟨d.thing k, .scalar s⟩, v) :: rest, d)
    | _ => throw .malformed

/-- The entries of a mapping with its marks resolved. -/
def table (d : Draft) (n : Nat) : Except Fault (List (Key × Nat) × Draft) :=
  match (d.node n).content with
  | .mapping _ => do
    let d ← d.flatten n
    let (pairs, d) ← d.keyed (d.entries n)
    pure ((Entries.ofList pairs).map fun (k, v) => (k.key, v), d)
  | _ => .error .malformed

/-- A cell for the pair that a mapping of one entry is. -/
def pair (d : Draft) (n : Nat) : Except Fault (Nat × Draft) :=
  match (d.node n).content with
  | .mapping [(k, v)] => do
    let d ← d.reachAll [k, v]
    pure (d.cells.size, { d with cells := d.cells.push (some (.seq .tuple [k, v])) })
  | _ => .error .malformed

def pairs (d : Draft) : List Nat → Except Fault (List Nat × Draft)
  | [] => .ok ([], d)
  | n :: ns => do
    let (p, d) ← d.pair n
    let (ps, d) ← d.pairs ns
    pure (p :: ps, d)

/-- Gives a collection its parts. -/
def fill (d : Draft) (n : Nat) : Except Fault Draft :=
  match (d.node n).tag, (d.node n).content with
  | .seq, .sequence items => (d.reachAll items).map fun d => d.setCell n (.seq .list items)
  | .pairs, .sequence items => do
    let (ps, d) ← d.pairs items
    pure (d.setCell n (.seq .list ps))
  | .map, .mapping _ => do
    let (entries, d) ← d.table n
    pure (d.setCell n (.dict entries))
  | .set, .mapping _ => do
    let (entries, d) ← d.table n
    pure (d.setCell n (.set (setOrder (Entries.keys entries))))
  | _, _ => .error .malformed

/-- Gives all collections their parts, round by round: those reached in one round get theirs in the
next. A node is reached once. -/
def fillAll : Nat → Draft → Except Fault Draft
  | 0, d => .ok d
  | rounds + 1, d =>
    if d.pending = [] then .ok d
    else do
      let d ← d.pending.reverse.foldlM fill { d with pending := [] }
      fillAll rounds d

def web (d : Draft) : Web := d.cells.map fun c => c.getD (.scalar .null)

end Draft

/-- The value of a document. -/
def Document.value (document : Document) : Except Fault Value := do
  let d ← (Draft.start document.nodes).reach document.root
  let d ← d.fillAll (document.nodes.size + 1)
  pure (d.web.value document.root)

end Reshape.Yaml
