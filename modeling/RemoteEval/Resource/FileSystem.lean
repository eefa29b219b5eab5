import RemoteEval.Resource.Path
import RemoteEval.Text.Utf8

/-!
# Files

A `FileSystem` answers two questions about a path : how it is spelled canonically, if it
exists, and what the file it names holds. `FileTree` is a directory of files that answers them
by following the components of a path.
-/

namespace RemoteEval.Resource

/-- Where files are read. -/
structure FileSystem where
  /-- The canonical spelling of a path that exists. -/
  canonical? : String → Option String
  /-- What a file holds. -/
  read? : String → Option (List UInt8)

namespace FileSystem

/-- No path exists. -/
def empty : FileSystem := ⟨fun _ => none, fun _ => none⟩

/-- The canonical spelling of a path, or the path itself if it does not exist. -/
def normalize (fs : FileSystem) (path : String) : String :=
  (fs.canonical? path).getD path

/-- The text of a file. A file that is no text is not read. -/
def readText? (fs : FileSystem) (path : String) : Option String :=
  (fs.read? path).bind Text.decode?

end FileSystem

/-- A directory of files, also in directories below it. -/
structure FileTree where
  /-- The canonical path of the directory. -/
  root : String
  /-- The components of each file's path below the directory, and what the file holds. -/
  files : List (List (List Char) × List UInt8)

namespace FileTree

/-- A directory of files given by their paths below it. -/
def ofPaths (root : String) (files : List (String × List UInt8)) : FileTree :=
  ⟨root, files.map fun f =>
    ((Text.pieces '/' f.1.toList).filter fun c => !Path.isIdle c, f.2)⟩

/-- What the file at a place holds. -/
def file? (t : FileTree) (place : List (List Char)) : Option (List UInt8) :=
  (t.files.find? fun f => f.1 = place).map Prod.snd

/-- Whether there is a directory at a place. -/
def isDirectory (t : FileTree) (place : List (List Char)) : Bool :=
  place = [] || t.files.any fun f => place.length < f.1.length && place.isPrefixOf f.1

/-- Follow components from a place. Only a directory leads further. -/
def follow? (t : FileTree) (place : List (List Char)) : List (List Char) → Option (List (List Char))
  | [] => some place
  | c :: rest =>
    if !t.isDirectory place then none
    else if Path.isIdle c then t.follow? place rest
    else if c = ['.', '.'] then
      if place = [] then none else t.follow? place.dropLast rest
    else
      let next := place ++ [c]
      if (t.file? next).isSome || t.isDirectory next then t.follow? next rest else none

/-- The place of a path that exists. -/
def place? (t : FileTree) (path : String) : Option (List (List Char)) :=
  let start := t.root.toList
  if start.isPrefixOf path.toList then
    match path.toList.drop start.length with
    | [] => some []
    | '/' :: rest => t.follow? [] (Text.pieces '/' rest)
    | _ => none
  else none

/-- The canonical path of a place. -/
def canonical (t : FileTree) (place : List (List Char)) : String :=
  t.root ++ String.ofList (place.flatMap fun c => '/' :: c)

/-- The file system of a directory. -/
def fileSystem (t : FileTree) : FileSystem where
  canonical? path := (t.place? path).map t.canonical
  read? path := (t.place? path).bind t.file?

end FileTree

end RemoteEval.Resource
