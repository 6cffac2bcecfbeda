import OneWay.Text.Lowercase

/-!
# File names

A path is cut at its slashes into components; empty ones do not count. It starts at the root if it
starts with a slash, and leads to a directory if it ends with one.
-/

namespace OneWay

/-- The name of a file or a directory. -/
structure Path where
  fromRoot : Bool
  components : List String
  endsInSlash : Bool
  deriving DecidableEq, Repr

namespace Path

/-- The path that a text spells, if it spells one: it must not be empty. -/
def parse? (text : String) : Option Path :=
  if text.isEmpty then none
  else
    some {
      fromRoot := "/".isPrefixOf text
      components := (text.splitOn "/").filter (· ≠ "")
      endsInSlash := text.toList.getLast? = some '/' }

/-- The part of a file name after its last dot, if there is something before that dot. -/
def extensionOf? (name : String) : Option String :=
  if name = ".." then none
  else
    let reversed := name.toList.reverse
    match reversed.dropWhile (· ≠ '.') with
    | '.' :: _ :: _ => some (String.ofList (reversed.takeWhile (· ≠ '.')).reverse)
    | _ => none

/-- The extension of the file that a path names, in small letters. Components that stand for the
directory before them do not count. -/
def extension? (text : String) : Option String := do
  let path ← parse? text
  let name ← (path.components.filter (· ≠ ".")).getLast?
  pure (Text.lowercase (← extensionOf? name))

end Path

end OneWay
