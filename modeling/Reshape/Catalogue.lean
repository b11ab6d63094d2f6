/-
  Reshape.Catalogue: tables of converters that can be asked for by name.

  A module holds attributes, some of which are tables. A table is named by its module, a colon and
  its attribute, and whatever it holds is offered as converters. The parts of a dotted module name
  have to be there from the left, and only packages have parts.
-/

import Reshape.Converter.Builtin
import Reshape.Registry

namespace Reshape

/-- A table of what is offered under names, or anything else. -/
inductive Attribute where
  | table (entries : List (Key × Candidate))
  | other

structure ConverterModule where
  name : String
  isPackage : Bool
  attributes : List (String × Attribute)

abbrev Catalogue := List ConverterModule

inductive CatalogueFault where
  | noColon (spec : String)
  | relativeName (name : String)
  | emptyName
  | notFound (name : String)
  | notAPackage (name parent : String)
  | noAttribute (name member : String)
  | notATable (spec : String)
  deriving DecidableEq, Repr

def CatalogueFault.message : CatalogueFault → String
  | .noColon spec => "converter spec must look like 'module:attribute', got " ++ Text.quoted spec
  | .relativeName name =>
    "the 'package' argument is required to perform a relative import for " ++ Text.quoted name
  | .emptyName => "Empty module name"
  | .notFound name => "No module named " ++ Text.quoted name
  | .notAPackage name parent =>
    s!"No module named {Text.quoted name}; {Text.quoted parent} is not a package"
  | .noAttribute name member => s!"{name} has no attribute {Text.quoted member}"
  | .notATable spec => s!"{spec} must be a mapping of name -> converter"

namespace Catalogue

def moduleAt? (c : Catalogue) (name : String) : Option ConverterModule :=
  List.find? (·.name = name) c

/-- Follows the parts of a name from a module that is there. -/
def descend (c : Catalogue) (m : ConverterModule) :
    List String → Except CatalogueFault ConverterModule
  | [] => .ok m
  | part :: parts =>
    let name := m.name ++ "." ++ part
    if !m.isPackage then .error (.notAPackage name m.name)
    else match c.moduleAt? name with
      | none => .error (.notFound name)
      | some m => c.descend m parts

/-- The module that a dotted name reaches. -/
def reach (c : Catalogue) (name : String) : Except CatalogueFault ConverterModule :=
  if name = "" then .error .emptyName
  else match Text.splitAt '.' name with
    | "" :: _ => .error (.relativeName name)
    | first :: parts => match c.moduleAt? first with
      | none => .error (.notFound first)
      | some m => c.descend m parts
    | [] => .error .emptyName

/-- The table that a spec names. -/
def load (c : Catalogue) (spec : String) : Except CatalogueFault (List (Key × Candidate)) :=
  match Text.splitAt ':' spec with
  | name :: first :: rest => do
    let m ← c.reach name
    let member := Text.join ":" (first :: rest)
    match m.attributes.lookup member with
    | none => throw (.noAttribute name member)
    | some .other => throw (.notATable spec)
    | some (.table entries) => pure entries
  | _ => .error (.noColon spec)

/-- Names that every module has, as every object has them or as a module. -/
def commonNames : List String := ["__name__", "__doc__", "__package__", "__loader__", "__spec__",
  "__file__", "__cached__", "__class__", "__delattr__", "__dir__", "__eq__", "__format__", "__ge__",
  "__getattribute__", "__getstate__", "__gt__", "__hash__", "__init__", "__init_subclass__", "__le__",
  "__lt__", "__ne__", "__new__", "__reduce__", "__reduce_ex__", "__repr__", "__setattr__",
  "__sizeof__", "__str__", "__subclasshook__"]

/-- A table of texts, which are no converters. -/
def texts (entries : List (String × String)) : Attribute :=
  .table (entries.map fun (n, s) => (.str n, .value (.str s)))

/-- The tables that every module has: the converters that come with the program, and what the module
says of itself. Of the tables of all names in a module and of all names that are always there only
the first entry stands here: it is a text, and nothing is registered after it. -/
def commonTables (name : String) (annotations : List (String × String)) : List (String × Attribute) := [
  ("BUILTIN_CONVERTERS", .table (Builtin.table.map fun (n, f) => (.str n, .converter f))),
  ("__annotations__", texts annotations), ("__dict__", texts [("__name__", name)]),
  ("__builtins__", texts [("__name__", "builtins")])]

/-- A module with its tables, and with other names. -/
def moduleOf (name : String) (isPackage : Bool) (annotations : List (String × String))
    (names : List String) : ConverterModule :=
  let others := names ++ commonNames ++ if isPackage then ["__path__"] else []
  ⟨name, isPackage, commonTables name annotations ++ others.map fun n => (n, .other)⟩

/-- The modules that come with the program. -/
def builtin : Catalogue := [
  moduleOf "maptools" true [] ["__version__", "__all__", "ConverterRegistry", "DataTransformer",
    "Fragment", "MalformedConfigurationError", "Transformation", "compile_document", "evaluate",
    "cli", "converters", "data", "load", "log", "mapping"],
  moduleOf "maptools.cli" false [] ["annotations", "json", "Path", "Any", "Dict", "List", "Optional",
    "typer", "list_converters", "write_jsonl", "write_table", "load_converters", "load_document",
    "load_inputs", "get_logger", "set_level", "DataTransformer", "Fragment",
    "MalformedConfigurationError", "Transformation", "app", "logger", "main", "check", "apply",
    "summarize", "converters_cmd"],
  moduleOf "maptools.converters" false [("BUILTIN_CONVERTERS", "Dict[str, Callable[[Any], Any]]")]
    ["annotations", "json", "re", "Any", "Callable", "Dict", "List", "LIST_DELIMITER", "_TRUTHY",
      "to_any", "to_str", "to_int", "to_float", "to_bool", "to_json", "to_list", "strip", "lower",
      "upper", "slug", "list_converters"]]

end Catalogue

end Reshape
