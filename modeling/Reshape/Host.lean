/-
  Reshape.Host: what commands rely on.

  Command lines are taken apart, YAML is read and tables are made by libraries, and how deep an
  evaluation can go is up to the machine. Nothing that commands do depends on more of it than this.
-/

import Reshape.Command.Arguments
import Reshape.Table
import Reshape.Yaml.Fault

namespace Reshape

structure Host where
  /-- What the words of a command line ask for. -/
  parse : List String → Command.Line
  yaml : Yaml.Reader
  tables : TableLibrary
  /-- Nested mappings can be open inside each other up to this depth. -/
  depth : Nat

end Reshape
