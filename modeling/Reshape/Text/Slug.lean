/-
  Reshape.Text.Slug: slugs, the words of a text joined by hyphens.

  The characters of a slug are `a` to `z` and `0` to `9`. Every longest run of other characters
  becomes one hyphen, and hyphens at the ends are cut.
-/

import Reshape.Text.Blank
import Reshape.Text.Casing

namespace Reshape.Text

def isSlugChar (c : Char) : Bool := ('a' ≤ c && c ≤ 'z') || ('0' ≤ c && c ≤ '9')

/-- Every run of characters outside slugs as one hyphen; `inRun` says that one is under way. -/
def hyphenated (inRun : Bool) : List Char → List Char
  | [] => []
  | c :: cs =>
    if isSlugChar c then c :: hyphenated false cs
    else if inRun then hyphenated true cs
    else '-' :: hyphenated true cs

def slug (cs : List Char) : List Char :=
  trimWhile (· = '-') (hyphenated false (lower (strip cs)))

end Reshape.Text
