import TokenGrammar.Files.Basic

/-!
# Directories

A model of the working directory and what is below it. Paths are walked part by part, as the
system walks them: a part must lie in a folder, single dots and empty parts stay, double dots go
up. Of what lies outside only the folders above are known: no file is found there, and one that is
written there is out of sight.

## Main definitions

* `Directory` — files and folders below the working directory
* `Directory.find` — where a path leads
* `Directory.read`, `Directory.write` — reading and writing a file
* `Directory.system` — a directory as a file system, with the directory as its state
* `Directory.listing` — the files of the working directory itself
* `Directory.changes` — the listed files that differ between two directories
-/

namespace TokenGrammar

/-- An entry of a directory. -/
inductive Directory.Entry
  | file (bytes : List UInt8)
  | folder
  deriving DecidableEq

/-- The files and folders below the working directory, each under the parts of its path. -/
structure Directory where
  /-- The entries; of two for one path the first counts. -/
  entries : List (List String × Directory.Entry)

namespace Directory

/-- The directory without entries. -/
def empty : Directory := ⟨[]⟩

instance : Inhabited Directory := ⟨empty⟩

/-- The entry at a path. -/
def lookup? (directory : Directory) (path : List String) : Option Entry :=
  directory.entries.lookup path

/-- The parts of a path between its slashes. -/
def partsOf (path : String) : List String :=
  (path.toList.splitOnP (· == '/')).map String.ofList

/-- Whether a part of a path leads nowhere else. -/
def isIdle (part : String) : Bool := part == "" || part == "."

/-- The directory with an entry at a path, and a folder at every path above it. -/
def put (directory : Directory) (path : List String) (entry : Entry) : Directory :=
  let above := (List.range path.length).filterMap fun k =>
    let folder := path.take k
    if folder.isEmpty || (directory.lookup? folder).isSome then none else some (folder, Entry.folder)
  ⟨(path, entry) :: (directory.entries.filter (·.1 != path) ++ above)⟩

/-- The directory with an entry at the path of the given name. -/
def putNamed (directory : Directory) (name : String) (entry : Entry) : Directory :=
  directory.put ((partsOf name).filter (!isIdle ·)) entry

/-- Where a path leads. -/
inductive Found
  /-- To a file. -/
  | file (path : List String) (bytes : List UInt8)
  /-- To a place in a folder where nothing is yet. -/
  | absent (path : List String)
  /-- To a place in a folder above the directory. -/
  | outside
  /-- To no place for a file: why it is not opened for reading, and why not for writing. -/
  | blocked (reading writing : OpenFault)

/-- How many bytes the name of a file or a folder may have. -/
def nameLimit : Nat := 255

/-- How many bytes a path may have. -/
def pathLimit : Nat := 4095

/-- Where the parts of a path lead from a folder, which is outside of the directory if it has no
path. A slash at the end asks for a folder, and no folder is opened for writing, whether it is
there or not. -/
def walk (directory : Directory) : (folder : Option (List String)) → List String → Found
  | _, [] => .blocked .directory .directory
  | folder, part :: rest =>
    if isIdle part then directory.walk folder rest
    else if part = ".." then
      directory.walk (folder.bind fun path => if path.isEmpty then none else some path.dropLast) rest
    else
      -- Only slashes follow: the path asks for a folder here.
      let slashed := !rest.isEmpty && rest.all (·.isEmpty)
      let blocked (fault : OpenFault) : Found := .blocked fault (if slashed then .directory else fault)
      if nameLimit < part.utf8ByteSize then blocked .nameTooLong
      else
        match folder with
        | none => if rest.isEmpty then .outside else blocked .missing
        | some path =>
          let path := path ++ [part]
          match directory.lookup? path with
          | some .folder => directory.walk (some path) rest
          | some (.file bytes) => if rest.isEmpty then .file path bytes else blocked .notDirectory
          | none => if rest.isEmpty then .absent path else blocked .missing

/-- Where a path leads. The empty path leads nowhere, and one that begins with a slash leaves the
directory. -/
def find (directory : Directory) (path : String) : Found :=
  if path.isEmpty then .blocked .missing .missing
  else if pathLimit < path.utf8ByteSize then .blocked .nameTooLong .nameTooLong
  else directory.walk (if path.startsWith "/" then none else some []) (partsOf path)

/-- The bytes of the file at a path. -/
def read (directory : Directory) (path : String) : Except OpenFault (List UInt8) :=
  match directory.find path with
  | .file _ bytes => .ok bytes
  | .absent _ => .error .missing
  | .outside => .error .missing
  | .blocked reading _ => .error reading

/-- The directory with the given bytes in the file at a path, which is made if it is not there. A
file outside of the directory makes no difference to it. -/
def write (directory : Directory) (path : String) (bytes : List UInt8) :
    Except OpenFault Directory :=
  match directory.find path with
  | .file place _ => .ok (directory.put place (.file bytes))
  | .absent place => .ok (directory.put place (.file bytes))
  | .outside => .ok directory
  | .blocked _ writing => .error writing

/-- A directory as files to read. -/
def files (directory : Directory) : Files := ⟨directory.read⟩

/-- A directory as a file system; a write that fails changes nothing. -/
def system : FileSystem (StateM Directory) where
  look _ := fun directory => (directory.files, directory)
  write path bytes := fun directory =>
    match directory.write path bytes with
    | .ok changed => (.ok (), changed)
    | .error fault => (.error fault, directory)

/-- The files of the working directory itself; those in folders below it are not listed. -/
def listing (directory : Directory) : List (String × List UInt8) :=
  directory.entries.filterMap fun
    | ([name], .file bytes) => some (name, bytes)
    | _ => none

/-- The listed files that are not in an earlier state of the directory, or had other bytes there. -/
def changes (before after : Directory) : List (String × List UInt8) :=
  after.listing.filter fun (name, bytes) => before.lookup? [name] != some (.file bytes)

end Directory

end TokenGrammar
