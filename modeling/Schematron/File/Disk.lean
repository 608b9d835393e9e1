import Schematron.File.Path

/-!
# Disks

A tree of directories and files, as far as writing a document can change it. A
location is the list of names from the root of the disk; paths are followed from
a working directory. There are no links, so the directory above a location is
found by dropping its last name.
-/

namespace Schematron

/-- What a location holds. -/
inductive DiskEntry where
  | directory
  | file (content : String)
  deriving DecidableEq, Repr

inductive DiskError where
  | notFound
  | notADirectory
  | isADirectory
  | alreadyExists
  | nameTooLong
  | invalidName
  deriving DecidableEq, Repr

namespace DiskError

def message : DiskError → String
  | notFound => "No such file or directory"
  | notADirectory => "Not a directory"
  | isADirectory => "Is a directory"
  | alreadyExists => "File exists"
  | nameTooLong => "File name too long"
  | invalidName => "File name holds a null character"

end DiskError

/-- A disk with a working directory. -/
structure Disk where
  workingDirectory : List String
  /-- What is found below the root, the root itself excepted. -/
  entries : List (List String × DiskEntry)
  deriving Repr

namespace Disk

/-- A disk with an empty working directory. -/
def blank : Disk := ⟨["work"], [(["work"], .directory)]⟩

/-- What a location holds; the root is a directory. -/
def find? (d : Disk) (location : List String) : Option DiskEntry :=
  if location.isEmpty then some .directory else d.entries.lookup location

def put (d : Disk) (location : List String) (entry : DiskEntry) : Disk :=
  { d with entries := (location, entry) :: d.entries.filter fun e => e.1 ≠ location }

/-- The location that a name leads to from a directory. -/
def follow (location : List String) (name : String) : Except DiskError (List String) :=
  if FilePath.isIdle name then .ok location
  else if name = ".." then .ok location.dropLast
  else if name.utf8ByteSize > 255 then .error .nameTooLong
  else .ok (location ++ [name])

def enter (d : Disk) : List String → List String → Except DiskError (List String)
  | location, [] => .ok location
  | location, name :: rest => do
    let location ← follow location name
    match d.find? location with
    | none => .error .notFound
    | some (.file _) => .error .notADirectory
    | some .directory => d.enter location rest

/-- The location that a path means. All of its names but the last have to be directories. -/
def locate (d : Disk) (path : String) : Except DiskError (List String) :=
  let names := FilePath.names path
  if path = "" then .error .notFound
  else if path.contains '\x00' then .error .invalidName
  else do
    let start := if names.head? = some "" then [] else d.workingDirectory
    follow (← d.enter start names.dropLast) (names.getLast?.getD "")

def isDirectory (d : Disk) (path : String) : Bool :=
  match d.locate path with
  | .ok location => d.find? location = some .directory
  | .error _ => false

def makeDirectory (d : Disk) (path : String) : Except DiskError Disk := do
  let location ← d.locate path
  match d.find? location with
  | some _ => .error .alreadyExists
  | none => .ok (d.put location .directory)

/-- Makes the first of the directories, after the directories around it that are missing. The
disk keeps what was made before an error. -/
def makeAll (d : Disk) : List String → Except DiskError Unit × Disk
  | [] => (.ok (), d)
  | path :: around =>
    match d.makeDirectory path with
    | .ok d => (.ok (), d)
    | .error .notFound =>
      match d.makeAll around with
      | (.error e, d) => (.error e, d)
      | (.ok (), d) =>
        match d.makeDirectory path with
        | .ok d => (.ok (), d)
        | .error e =>
          if e = .alreadyExists ∧ d.isDirectory path then (.ok (), d) else (.error e, d)
    | .error e =>
      if e = .alreadyExists ∧ d.isDirectory path then (.ok (), d) else (.error e, d)

/-- Makes the directory of a path and all missing ones around it. -/
def makeDirectories (d : Disk) (path : String) : Except DiskError Unit × Disk :=
  d.makeAll (FilePath.ancestors path)

/-- Makes the file of a path empty, whether or not there is one. -/
def createFile (d : Disk) (path : String) : Except DiskError (List String × Disk) := do
  let location ← d.locate path
  if path.endsWith "/" || d.find? location = some .directory then .error .isADirectory
  else .ok (location, d.put location (.file ""))

/-- The disk with a text in the file of a path, if that can be a file. -/
def writeText (d : Disk) (path content : String) : Disk :=
  match d.createFile path with
  | .ok (location, d) => d.put location (.file content)
  | .error _ => d

def read? (d : Disk) (path : String) : Option String :=
  match d.locate path with
  | .ok location =>
    match d.find? location with
    | some (.file content) => some content
    | _ => none
  | .error _ => none

/-- The path of an entry below a directory, with a slash behind a directory. -/
def relativePath? (directory : List String) (entry : List String × DiskEntry) : Option String :=
  let below := entry.1.drop directory.length
  if entry.1.take directory.length = directory ∧ below ≠ [] then
    some ("/".intercalate below ++ if entry.2 = .directory then "/" else "")
  else none

/-- The paths of everything below the working directory, in ascending order. -/
def listing (d : Disk) : List String :=
  (d.entries.filterMap (relativePath? d.workingDirectory)).mergeSort

end Disk

end Schematron
