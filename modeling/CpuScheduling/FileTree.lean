/-!
A tree of files below a working directory, as far as reading and creating a file can see it. A
path is a sequence of names between slashes, followed one after another from the working directory
or, after a leading slash, from the root; every failure has the words of the operating system. Of
the directories above the working directory nothing is known but that they are there.
-/
namespace CpuScheduling

inductive FileTree.Content where
  | file (bytes : ByteArray)
  | directory

/-- Files and directories by the names on the way to them; what stands on the way to one of them is
a directory too. A way starts in the working directory, unless its first names lead above it. -/
structure FileTree where
  entries : List (List String × FileTree.Content) := []

namespace FileTree

/-- Why a file could not be read or created. -/
inductive Fault where
  | notFound
  | notDirectory
  | isDirectory
  | nameTooLong
  | notText
  | nulInName
  /-- A failure that only the system can put into words. -/
  | other (words : String)
deriving DecidableEq

def Fault.message : Fault → String
  | .notFound => "No such file or directory (os error 2)"
  | .notDirectory => "Not a directory (os error 20)"
  | .isDirectory => "Is a directory (os error 21)"
  | .nameTooLong => "File name too long (os error 36)"
  | .notText => "stream did not contain valid UTF-8"
  | .nulInName => "file name contained an unexpected NUL byte"
  | .other words => words

/-- The names of a path, dots included; slashes side by side count as one. -/
def names (path : String) : List String :=
  ((path.toList.splitOnP (· == '/')).map String.ofList).filter fun name => name != ""

/-- The tree of some files and directories, each under its path. -/
def ofPaths (files : List (String × Content)) : FileTree :=
  ⟨files.map fun (path, content) => ((names path).filter fun name => name != ".", content)⟩

/-- The name that stands for the directory above. -/
def upName : String := ".."

/-- The name of the root in a way, which no path can give to anything else. -/
def rootName : String := "/"

/-- Whether a name leads above the working directory. -/
def isOutward (name : String) : Bool := name == upName || name == rootName

/-- The way to the directory above; the root is its own. -/
def above (way : List String) : List String :=
  match way.getLast? with
  | none => [upName]
  | some name =>
    if name == rootName then way
    else if name == upName then way ++ [upName]
    else way.dropLast

/-- What stands at the end of a way. -/
def find? (tree : FileTree) (way : List String) : Option Content :=
  if way.all isOutward then some .directory
  else
    match tree.entries.find? fun e => e.1 == way with
    | some (_, content) => some content
    | none => if tree.entries.any fun e => way.isPrefixOf e.1 then some .directory else none

/-- The longest path that is followed, in bytes. -/
def longestPath : Nat := 4095

/-- The longest name that a directory holds, in bytes. -/
def longestName : Nat := 255

/-- What stands at the end of a way, whose last name must not be too long to be looked for. -/
def lookUp (tree : FileTree) (way : List String) : Except Fault (Option Content) :=
  if way.getLast?.any fun name => longestName < name.utf8ByteSize then .error .nameTooLong
  else .ok (tree.find? way)

/-- Follows names through directories. -/
def follow (tree : FileTree) (way : List String) : List String → Except Fault (List String)
  | [] => .ok way
  | name :: rest =>
    if name == "." then tree.follow way rest
    else if name == upName then tree.follow (above way) rest
    else
      match tree.lookUp (way ++ [name]) with
      | .error e => .error e
      | .ok none => .error .notFound
      | .ok (some (.file _)) => .error .notDirectory
      | .ok (some .directory) => tree.follow (way ++ [name]) rest

/-- Where a path ends. -/
inductive Place where
  /-- In a directory that its last dots, or its lack of names, lead to. -/
  | directory
  /-- At a name in a directory; with a slash behind it, only a directory will do. -/
  | entry (way : List String) (slashed : Bool)

/-- Where a path ends, if the way there can be followed. -/
def locate (tree : FileTree) (path : String) : Except Fault Place :=
  if path.toList.contains '\x00' then .error .nulInName
  else if path.isEmpty then .error .notFound
  else if longestPath < path.utf8ByteSize then .error .nameTooLong
  else
    let start := if path.toList.head? == some '/' then [rootName] else []
    match tree.follow start (names path).dropLast, (names path).getLast? with
    | .error e, _ => .error e
    | .ok _, none => .ok .directory
    | .ok way, some last =>
      if last == "." || last == upName then .ok .directory
      else .ok (.entry (way ++ [last]) (path.toList.getLast? == some '/'))

/-- The text of a file. -/
def readText (tree : FileTree) (path : String) : Except Fault String := do
  match ← tree.locate path with
  | .directory => throw .isDirectory
  | .entry way slashed =>
    match ← tree.lookUp way with
    | none => throw .notFound
    | some .directory => throw .isDirectory
    | some (.file bytes) =>
      if slashed then throw .notDirectory
      else
        match String.fromUTF8? bytes with
        | some text => pure text
        | none => throw .notText

/-- The tree with a file of a given text in place of what was there; a slash behind the name asks
for a directory, which is refused before anything is looked for. -/
def writeText (tree : FileTree) (path text : String) : Except Fault FileTree := do
  match ← tree.locate path with
  | .directory | .entry _ true => throw .isDirectory
  | .entry way false =>
    match ← tree.lookUp way with
    | some .directory => throw .isDirectory
    | some (.file _) | none =>
      pure ⟨(way, .file text.toUTF8) :: tree.entries.filter fun e => e.1 != way⟩

/-- The text of a file, if there is one and it is text. -/
def text? (tree : FileTree) (path : String) : Option String := (tree.readText path).toOption

end FileTree
end CpuScheduling
