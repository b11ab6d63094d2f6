/-
  Reshape.Value: the data that documents are made of.

  A value is a scalar, a sequence, a dictionary or a set. Dictionaries keep their entries in the
  order of insertion. Their keys are scalars or tuples of keys, and two keys are the same entry when
  they are equal as numbers, instants or texts: 1, 1.0 and true are one key, 1 and "1" are two. Sets
  hold keys.

  A container can hold itself. It is then a cell of a web, in which parts are given by their
  numbers, together with what can be seen of it from its own place.
  - `Value.inductionOn`: induction over values by their parts.
  - `Key.same_str`: a text is the same key as itself only.
-/

import Reshape.Calendar
import Reshape.Entries
import Reshape.Number.Decimal

namespace Reshape

inductive Scalar where
  | null
  | bool (b : Bool)
  | int (n : Int)
  | float (x : Double)
  | str (s : String)
  | date (d : Date)
  | moment (m : Moment)
  | bytes (bs : List UInt8)
  deriving DecidableEq, Repr, Inhabited

inductive Key where
  | scalar (s : Scalar)
  | tuple (items : List Key)
  deriving Repr, Inhabited

/-- Lists and tuples differ in how they are written, and a tuple can be a key. -/
inductive Form where
  | list
  | tuple
  deriving DecidableEq, Repr

/-- A scalar, or a container with the numbers of its parts. -/
inductive Cell where
  | scalar (s : Scalar)
  | seq (form : Form) (items : List Nat)
  | dict (entries : List (Key × Nat))
  | set (items : List Key)
  deriving Repr, Inhabited

/-- Cells that may hold each other and themselves. -/
abbrev Web := Array Cell

/-- The outer form of a container. -/
inductive Shape where
  | seq (form : Form)
  | dict
  deriving DecidableEq, Repr

inductive Value where
  | scalar (s : Scalar)
  | seq (form : Form) (items : List Value)
  | dict (entries : List (Key × Value))
  | set (items : List Key)
  /-- A cell of a web. Its view shows it with its parts, each down to where a container comes
  again. -/
  | cyclic (web : Web) (cell : Nat) (view : Value)
  /-- In a view, the place where a container around it comes again. -/
  | again (shape : Shape)
  deriving Repr, Inhabited

namespace Value

@[match_pattern] abbrev null : Value := .scalar .null
@[match_pattern] abbrev bool (b : Bool) : Value := .scalar (.bool b)
@[match_pattern] abbrev int (n : Int) : Value := .scalar (.int n)
@[match_pattern] abbrev float (x : Double) : Value := .scalar (.float x)
@[match_pattern] abbrev str (s : String) : Value := .scalar (.str s)
@[match_pattern] abbrev list (items : List Value) : Value := .seq .list items
@[match_pattern] abbrev tuple (items : List Value) : Value := .seq .tuple items

end Value

namespace Key

@[match_pattern] abbrev str (s : String) : Key := .scalar (.str s)

end Key

/-! ## Induction -/

/-- Induction over values, with the hypothesis for every part of a container. -/
@[elab_as_elim]
theorem Value.inductionOn {motive : Value → Prop} (v : Value) (scalar : ∀ s, motive (.scalar s))
    (seq : ∀ form items, (∀ v ∈ items, motive v) → motive (.seq form items))
    (dict : ∀ entries, (∀ e ∈ entries, motive e.2) → motive (.dict entries))
    (set : ∀ items, motive (.set items))
    (cyclic : ∀ web cell view, motive view → motive (.cyclic web cell view))
    (again : ∀ shape, motive (.again shape)) : motive v := by
  refine @Value.rec motive (fun items => ∀ v ∈ items, motive v) (fun entries => ∀ e ∈ entries, motive e.2)
    (fun e => motive e.2) scalar seq dict set cyclic again ?_ ?_ ?_ ?_ ?_ v
  · simp
  · intro v vs hv hvs
    simpa using ⟨hv, hvs⟩
  · simp
  · intro e es he hes
    simpa using ⟨he, by simpa using hes⟩
  · intro k v hv
    exact hv

/-! ## Equal keys -/

/-- The integer that a scalar is, truth values counting as 0 and 1. -/
def Scalar.integer? : Scalar → Option Int
  | .bool b => some (if b then 1 else 0)
  | .int n => some n
  | .float x => x.integer?
  | _ => none

/-- The instant that a scalar is, if it is one. -/
def Scalar.instant? : Scalar → Option Int
  | .moment m => m.instant?
  | _ => none

/-- Numbers are the same if they are equal, and so are instants; nothing is the same as no
number. -/
def Scalar.same (a b : Scalar) : Bool :=
  match a.integer?, b.integer?, a.instant?, b.instant? with
  | some m, some n, _, _ => m = n
  | none, none, some s, some t => s = t
  | none, none, _, _ => a = b && a ≠ .float .nan
  | _, _, _, _ => false

mutual
def Key.same : Key → Key → Bool
  | .scalar a, .scalar b => a.same b
  | .tuple as, .tuple bs => Key.sameAll as bs
  | _, _ => false
def Key.sameAll : List Key → List Key → Bool
  | [], [] => true
  | a :: as, b :: bs => a.same b && Key.sameAll as bs
  | _, _ => false
end

instance : BEq Key := ⟨Key.same⟩

theorem Scalar.same_str (s t : String) : Scalar.same (.str s) (.str t) = decide (s = t) := by
  simp [Scalar.same, Scalar.integer?, Scalar.instant?]

theorem Key.same_str (s t : String) : (Key.str s == Key.str t) = decide (s = t) := by
  show Key.same _ _ = _
  rw [Key.same, Scalar.same_str]

/-! ## Keys as values and values as keys -/

mutual
def Key.toValue : Key → Value
  | .scalar s => .scalar s
  | .tuple items => .tuple (Key.toValues items)
def Key.toValues : List Key → List Value
  | [] => []
  | k :: ks => k.toValue :: Key.toValues ks
end

mutual
/-- The value as a key; a list, dictionary or set, alone or inside a tuple, cannot be one and is
given back. -/
def Value.toKey : Value → Except Value Key
  | .scalar s => .ok (.scalar s)
  | .seq .tuple items => match Value.toKeys items with
    | .ok ks => .ok (.tuple ks)
    | .error v => .error v
  | v => .error v
def Value.toKeys : List Value → Except Value (List Key)
  | [] => .ok []
  | v :: vs => match v.toKey with
    | .error w => .error w
    | .ok k => match Value.toKeys vs with
      | .error w => .error w
      | .ok ks => .ok (k :: ks)
end

/-! ## Sets -/

def Key.integer? : Key → Option Int
  | .scalar s => s.integer?
  | .tuple _ => none

/-- How many places a set of this many items has. -/
def places (size : Nat) : Nat := if size ≤ 4 then 8 else Nat.pow 2 ((2 * size).log2 + 1)

/-- The items of a set in its order: whole numbers by their remainders modulo its places, and any
other items as they were put in. -/
def setOrder (items : List Key) : List Key :=
  match items.mapM Key.integer? with
  | none => items
  | some ns =>
    let placed := (items.zip ns).map fun (k, n) => (n.emod (places items.length), k)
    (placed.mergeSort fun a b => a.1 ≤ b.1).map Prod.snd

/-! ## Kinds -/

/-- The name of the kind of a scalar, as messages give it. -/
def Scalar.kind : Scalar → String
  | .null => "NoneType"
  | .bool _ => "bool"
  | .int _ => "int"
  | .float _ => "float"
  | .str _ => "str"
  | .date _ => "date"
  | .moment _ => "datetime"
  | .bytes _ => "bytes"

/-- The name of a kind together with where it belongs, which calendar kinds have. -/
def Scalar.qualifiedKind (s : Scalar) : String :=
  match s with
  | .date _ | .moment _ => "datetime." ++ s.kind
  | s => s.kind

def Shape.kind : Shape → String
  | .seq .list => "list"
  | .seq .tuple => "tuple"
  | .dict => "dict"

def Value.kind : Value → String
  | .scalar s => s.kind
  | .seq form _ => (Shape.seq form).kind
  | .dict _ => Shape.dict.kind
  | .set _ => "set"
  | .cyclic _ _ view => view.kind
  | .again shape => shape.kind

def Value.qualifiedKind : Value → String
  | .scalar s => s.qualifiedKind
  | v => v.kind

def Key.kind : Key → String
  | .scalar s => s.kind
  | .tuple _ => "tuple"

end Reshape
