import CallByValue.Text

/-!
# Directories

The files that a command can see: a tree of directories, all of them below the working directory,
which stands right under the root.  Paths are divided by slashes; `.` and empty parts stay where they
are, `..` goes up, and the parent of the root is the root.  A path that starts with a slash starts at
the root, any other at the working directory.
-/

namespace CallByValue

/-- The parts of a path, from the root. -/
abbrev Path := List Text

/-- A tree of files and directories. -/
structure Directory where
  /-- The files with their contents. -/
  files : List (Path × Text) := []
  /-- The directories besides those that a file is in. -/
  folders : List Path := []
  deriving DecidableEq, Repr

/-- Why a file cannot be used. -/
inductive FileFault where
  /-- There is nothing at the path. -/
  | notFound
  /-- A part of the path that must be a directory is a file. -/
  | notDirectory
  /-- There is a directory at the path. -/
  | isDirectory
  /-- The path, or a part of it, is longer than paths may be. -/
  | nameTooLong
  /-- The path holds a byte that no path may hold. -/
  | invalid
  deriving DecidableEq, Repr

/-- The wording of a fault. -/
def FileFault.message : FileFault → Text
  | notFound => utf8 "no such file or directory"
  | notDirectory => utf8 "not a directory"
  | isDirectory => utf8 "is a directory"
  | nameTooLong => utf8 "file name too long"
  | invalid => utf8 "invalid argument"

/-- The message that a file at a path cannot be read. -/
def FileFault.reading (path : Text) (f : FileFault) : Text :=
  let action := match f with
    | isDirectory => utf8 "read "
    | _ => utf8 "open "
  action ++ path ++ utf8 ": " ++ f.message

/-- The message that a file at a path cannot be written. -/
def FileFault.writing (path : Text) (f : FileFault) : Text :=
  utf8 "open " ++ path ++ utf8 ": " ++ f.message

/-- The files that can be read, by their paths. -/
abbrev Files := Text → Except FileFault Text

/-- The parts of a text between slashes. -/
def splitPath : Text → List Text
  | [] => [[]]
  | b :: t =>
    match splitPath t with
    | p :: ps => if b == 0x2f then [] :: p :: ps else (b :: p) :: ps
    | [] => [[b]]

/-- What stands at a path. -/
inductive Entry where
  /-- A file. -/
  | file (content : Text)
  /-- A directory. -/
  | folder
  deriving DecidableEq, Repr

namespace Directory

/-- The place of the working directory.  Its name is empty, so no path leads down to it. -/
def home : Path := [[]]

/-- The length of the longest names that files may have. -/
def nameLimit : Nat := 255

/-- The length that paths stay below. -/
def pathLimit : Nat := 4096

/-- What stands at a path that is given by its parts. -/
def at? (d : Directory) (p : Path) : Option Entry :=
  match d.files.lookup p with
  | some c => some (.file c)
  | none =>
    if p.isPrefixOf home || d.folders.any (p.isPrefixOf ·) || d.files.any (fun f => p.isPrefixOf f.1) then
      some .folder
    else none

/-- Goes down a path from a place; the place and every part but the last must be a directory. -/
def walk (d : Directory) (here : Path) : List Text → Except FileFault Path
  | [] => .ok here
  | part :: parts =>
    match d.at? here with
    | none => .error .notFound
    | some (.file _) => .error .notDirectory
    | some .folder =>
      if part = [] || part = utf8 "." then d.walk here parts
      else if part = utf8 ".." then d.walk here.dropLast parts
      else if nameLimit < part.length then .error .nameTooLong
      else d.walk (here ++ [part]) parts

/-- Where a path starts. -/
def start (path : Text) : Path := if path.head? = some 0x2f then [] else home

/-- The place that a path leads to, whether there is anything or not. -/
def locate (d : Directory) (path : Text) : Except FileFault Path :=
  if path.contains 0 then .error .invalid
  else if path = [] then .error .notFound
  else if pathLimit ≤ path.length then .error .nameTooLong
  else d.walk (start path) (splitPath path)

/-- What stands at a path. -/
def find (d : Directory) (path : Text) : Except FileFault Entry := do
  match d.at? (← d.locate path) with
  | some e => .ok e
  | none => .error .notFound

/-- The content of the file at a path. -/
def read (d : Directory) (path : Text) : Except FileFault Text := do
  match ← d.find path with
  | .file content => .ok content
  | .folder => .error .isDirectory

/-- The directory with a file written to a place. -/
def put (d : Directory) (p : Path) (content : Text) : Directory :=
  { d with files := (p, content) :: d.files.filter (·.1 ≠ p) }

/-- Writes a file, replacing one that is there. -/
def write (d : Directory) (path content : Text) : Except FileFault Directory := do
  let p ← d.locate path
  match d.at? p with
  | some .folder => .error .isDirectory
  | some (.file _) => .ok (d.put p content)
  | none =>
    match d.at? p.dropLast with
    | some .folder => if path.getLast? = some 0x2f then .error .isDirectory else .ok (d.put p content)
    | some (.file _) => .error .notDirectory
    | none => .error .notFound

/-- The path of a part below a path. -/
def below (path part : Text) : Text :=
  if path = [] || path = utf8 "/" then path ++ part else path ++ utf8 "/" ++ part

/-- Makes the directories on the way down some parts, from the place `here` at the given path. -/
def makeAll (d : Directory) (here : Path) (path : Text) :
    List Text → Except (Text × FileFault) Directory
  | [] => .ok d
  | part :: parts =>
    let path := below path part
    if part = utf8 ".." then d.makeAll here.dropLast path parts
    else if nameLimit < part.length || pathLimit ≤ path.length then .error (path, .nameTooLong)
    else
      let place := here ++ [part]
      match d.at? place with
      | some .folder => d.makeAll place path parts
      | some (.file _) => .error (path, .notDirectory)
      | none => { d with folders := d.folders ++ [place] }.makeAll place path parts

/-- The files below the working directory with their paths from there, ordered by the parts of their
paths. -/
def listing (d : Directory) : List (Path × Text) :=
  (d.files.filterMap fun f => if home.isPrefixOf f.1 then some (f.1.drop home.length, f.2) else none).mergeSort
    fun a b => decide (a.1 ≤ b.1)

end Directory

/-- The path with the given parts. -/
def joinPath (p : Path) : Text := Text.join (utf8 "/") p

/-- The parts of a path without those that do not matter: `.` and empty ones, one before a `..`, and a
`..` at the root.  The parts so far are given in reverse. -/
def cleanParts (rooted : Bool) (seen : List Text) : List Text → Path
  | [] => seen.reverse
  | part :: parts =>
    if part = [] || part = utf8 "." then cleanParts rooted seen parts
    else if part = utf8 ".." then
      match seen with
      | [] => cleanParts rooted (if rooted then [] else [part]) parts
      | last :: rest => cleanParts rooted (if last = utf8 ".." then part :: seen else rest) parts
    else cleanParts rooted (part :: seen) parts

/-- Makes the directories on the way to the file at a path. -/
def Directory.makeParents (d : Directory) (path : Text) : Except (Text × FileFault) Directory :=
  let rooted := path.head? = some 0x2f
  d.makeAll (start path) (if rooted then utf8 "/" else [])
    (cleanParts rooted [] (splitPath path).dropLast)

end CallByValue
