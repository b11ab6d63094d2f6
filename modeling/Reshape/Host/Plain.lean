/-
  Reshape.Host.Plain: the libraries that the command line comes with.
-/

import Reshape.Host
import Reshape.Table.Plain
import Reshape.Yaml.Document

namespace Reshape

def Host.plain : Host where
  parse := Command.parse
  yaml := Yaml.read
  tables := Table.plain
  depth := 1000

end Reshape
