import RemoteEval.Text.Pieces

/-!
# Paths

Paths are texts with slashes between their components. `parent` is the directory of a path
without its last component, and `joined` is a path seen from a directory. Both keep the
spelling of what they do not touch.
-/

namespace RemoteEval.Resource.Path

/-- Components that lead nowhere : the empty one, and a single dot. -/
def isIdle (component : List Char) : Bool :=
  component = [] || component = ['.']

/-- A path in two parts : the slash or the dot it starts with, if that stands for a directory,
and the rest. -/
def lead : List Char → List Char × List Char
  | '/' :: rest => (['/'], rest)
  | ['.'] => (['.'], [])
  | '.' :: '/' :: rest => (['.'], '/' :: rest)
  | path => ([], path)

/-- The directory of a path : what stands before its last component. A path without components
has the empty directory. -/
def parent (path : List Char) : List Char :=
  let (start, body) := lead path
  match (Text.pieces '/' body).reverse.dropWhile isIdle with
  | [] => []
  | _ :: above => start ++ Text.glue '/' (above.dropWhile isIdle).reverse

/-- A path seen from a directory. A path that starts with a slash stands for itself. -/
def joined (directory path : List Char) : List Char :=
  if path.head? = some '/' then path
  else if directory = [] || directory.getLast? = some '/' then directory ++ path
  else directory ++ '/' :: path

end RemoteEval.Resource.Path
