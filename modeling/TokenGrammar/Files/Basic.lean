import TokenGrammar.Failure

/-!
# Files

What a command needs of a file system: the contents of its input files, and writing its output
file. The effects of a file system are those of a monad, so that one command runs in a model of a
directory as well as on a disk.

## Main definitions

* `Files` — the contents of files by path
* `FileSystem` — looking at files and writing one
-/

namespace TokenGrammar

/-- The contents of files by path. -/
structure Files where
  /-- The bytes of the file at a path, or why it is not opened. -/
  read : String → Except OpenFault (List UInt8)

/-- A file system whose effects are those of `m`. -/
structure FileSystem (m : Type → Type) where
  /-- The contents of the files at some paths, as they are now. -/
  look : List String → m Files
  /-- Gives the file at a path new contents, or says why it is not opened. -/
  write : String → List UInt8 → m (Except OpenFault Unit)

end TokenGrammar
