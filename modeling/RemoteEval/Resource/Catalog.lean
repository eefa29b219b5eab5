import RemoteEval.Resource.FileSystem
import RemoteEval.Resource.Handle
import RemoteEval.Text.Blank

/-!
# The resources of a host

A script says in its header what it depends on : the leading lines that are blank or comments,
of which those that start with a directive name a path as seen from the script's directory
(`requires`). The catalog of some script files lists each with these dependencies.
-/

namespace RemoteEval.Resource

/-- What a line that names a dependency starts with. -/
def directive : List Char := "// require:".toList

/-- Whether a trimmed line belongs to a header : it is empty or a comment. -/
def isHeaderLine (line : List Char) : Bool :=
  line = [] || ['/', '/'].isPrefixOf line

/-- The trimmed lines of a script's header. -/
def headerLines (source : List Char) : List (List Char) :=
  ((Text.pieces '\n' source).map Text.trim).takeWhile isHeaderLine

/-- What a directive names, if a line is one that names anything. -/
def directiveArgument? (line : List Char) : Option (List Char) :=
  if directive.isPrefixOf line then
    match Text.trim (line.drop directive.length) with
    | [] => none
    | argument => some argument
  else none

/-- The paths on which a script says it depends. -/
def requires (fs : FileSystem) (path source : String) : List String :=
  ((headerLines source.toList).filterMap directiveArgument?).map fun argument =>
    fs.normalize (String.ofList (Path.joined (Path.parent path.toList) argument))

/-- The script files of a catalog by their normal paths. -/
def catalogPaths (fs : FileSystem) (paths : List String) : List String :=
  paths.map fs.normalize

/-- A script file as a resource. A file that cannot be read depends on nothing. -/
def fileHandle (fs : FileSystem) (path : String) : Handle :=
  match fs.readText? path with
  | some source => ⟨path, requires fs path source⟩
  | none => ⟨path, []⟩

/-- The resources of a catalog of script files. -/
def loadedResources (fs : FileSystem) (paths : List String) : List Handle :=
  (catalogPaths fs paths).map (fileHandle fs)

end RemoteEval.Resource
