/-!
Disks: files that may be asked for, read and written, each of which may fail. A disk in memory is a
state of its own, in which paths are walked component by component.
-/

namespace PipelineChart

inductive DiskFault where
  | notFound
  | notDirectory
  | isDirectory
  | nameTooLong
  | nulInName
  | notText
  | other (message : String)
  deriving DecidableEq

def DiskFault.message : DiskFault → String
  | .notFound => "No such file or directory (os error 2)"
  | .notDirectory => "Not a directory (os error 20)"
  | .isDirectory => "Is a directory (os error 21)"
  | .nameTooLong => "File name too long (os error 36)"
  | .nulInName => "file name contained an unexpected NUL byte"
  | .notText => "stream did not contain valid UTF-8"
  | .other message => message

class Disk (m : Type → Type) where
  isPresent : String → m Bool
  read : String → m (Except DiskFault String)
  write : String → String → m (Except DiskFault Unit)

inductive DiskEntry where
  | directory
  | file (content : ByteArray)

def DiskEntry.isDirectory : DiskEntry → Bool
  | .directory => true
  | .file _ => false

abbrev DiskPath := List String

/-- Entries by their components from the root, and the directory that relative paths begin in. -/
structure MemoryDisk where
  current : DiskPath
  entries : List (DiskPath × DiskEntry)

namespace MemoryDisk

def find? (disk : MemoryDisk) (path : DiskPath) : Option DiskEntry :=
  if path = [] then some .directory else disk.entries.lookup path

def putEntry (path : DiskPath) (entry : DiskEntry) :
    List (DiskPath × DiskEntry) → List (DiskPath × DiskEntry)
  | [] => [(path, entry)]
  | (other, old) :: entries =>
      if other = path then (path, entry) :: entries else (other, old) :: putEntry path entry entries

def put (disk : MemoryDisk) (path : DiskPath) (entry : DiskEntry) : MemoryDisk :=
  { disk with entries := putEntry path entry disk.entries }

/-- Walks on from a place, which has to be a directory where any component is left. -/
def walk (disk : MemoryDisk) : DiskPath → List String → Except DiskFault DiskPath
  | place, [] => .ok place
  | place, component :: components =>
      match disk.find? place with
      | none => .error .notFound
      | some (.file _) => .error .notDirectory
      | some .directory =>
          if component = "" ∨ component = "." then walk disk place components
          else if component = ".." then walk disk place.dropLast components
          else if 255 < component.utf8ByteSize then .error .nameTooLong
          else walk disk (place ++ [component]) components

def place (disk : MemoryDisk) (path : String) (components : List String) :
    Except DiskFault DiskPath :=
  if '\x00' ∈ path.toList then .error .nulInName
  else if path = "" then .error .notFound
  else if 4095 < path.utf8ByteSize then .error .nameTooLong
  else disk.walk (if path.startsWith "/" then [] else disk.current) components

def resolve (disk : MemoryDisk) (path : String) : Except DiskFault DiskPath :=
  disk.place path (path.splitOn "/")

def leading (path : String) : List String :=
  ((path.splitOn "/").reverse.dropWhile (· = "")).tail.reverse

def isPresent (disk : MemoryDisk) (path : String) : Bool :=
  match disk.resolve path with
  | .ok place => (disk.find? place).isSome
  | .error _ => false

def read (disk : MemoryDisk) (path : String) : Except DiskFault String := do
  match disk.find? (← disk.resolve path) with
  | none => throw .notFound
  | some .directory => throw .isDirectory
  | some (.file content) =>
      match String.fromUTF8? content with
      | some text => return text
      | none => throw .notText

/-- A path that ends in a slash names a directory, whether there is one or not. -/
def write (disk : MemoryDisk) (path text : String) : Except DiskFault MemoryDisk := do
  if path.endsWith "/" then
    let directory ← disk.place path (leading path)
    match disk.find? directory with
    | none => throw .notFound
    | some (.file _) => throw .notDirectory
    | some .directory => throw .isDirectory
  else
    let place ← disk.resolve path
    if (disk.find? place).any DiskEntry.isDirectory then throw .isDirectory
    else return disk.put place (.file text.toUTF8)

instance : Disk (StateM MemoryDisk) where
  isPresent path := return (← get).isPresent path
  read path := return (← get).read path
  write path text := do
    match (← get).write path text with
    | .ok disk => set disk; return .ok ()
    | .error fault => return .error fault

end MemoryDisk

end PipelineChart
