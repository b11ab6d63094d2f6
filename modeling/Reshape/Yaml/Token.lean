/-
  Reshape.Yaml.Token: the tokens of a YAML text.

  Structure that is shown by indentation has tokens of its own: the start of a block sequence or
  mapping and the end of either. Where the text stops being YAML, the last token says why.
-/

import Reshape.Yaml.Fault

namespace Reshape.Yaml

inductive Directive where
  | version (major minor : Nat)
  | handle (name expansion : String)
  | unknown (name : String)
  deriving DecidableEq, Repr

inductive Token where
  | directive (d : Directive)
  | documentStart
  | documentEnd
  | blockSequenceStart
  | blockMappingStart
  | blockEnd
  | flowSequenceStart
  | flowSequenceEnd
  | flowMappingStart
  | flowMappingEnd
  | key
  | value
  | blockEntry
  | flowEntry
  | alias (name : String)
  | anchor (name : String)
  | tag (handle : Option String) (suffix : String)
  | scalar (text : String) (isPlain : Bool)
  /-- No token: what comes next cannot be read. -/
  | broken (fault : Fault)
  deriving DecidableEq, Repr

end Reshape.Yaml
