/-
  Reshape.Yaml.Document: the value of a YAML text.
-/

import Reshape.Yaml.Draft
import Reshape.Yaml.Lexer

namespace Reshape.Yaml

/-- Reads a YAML text as a value; a text without a document is null. -/
def read : Reader := fun cs => do
  match ← Document.ofTokens (Token.scan cs) with
  | none => pure .null
  | some document => document.value

end Reshape.Yaml
