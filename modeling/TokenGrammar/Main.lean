import TokenGrammar.CommandLine.Run

/-!
# The command

The command line program. All decisions are those of the functions it calls; here a disk becomes a
file system in the sense of the library, and a report is put out.
-/

namespace TokenGrammar.Main

/-- The fault that an error of the system stands for. -/
def openFault : IO.Error → OpenFault
  | .noFileOrDirectory _ _ _ => .missing
  | .inappropriateType _ code text => ofCode code text
  | .invalidArgument _ code text => ofCode code text
  | .permissionDenied _ code text => ofCode code text
  | .resourceExhausted _ code text => ofCode code text
  | error => .other 5 (toString error)
where
  /-- The fault of an error number, which some errors carry negated. -/
  ofCode (code : UInt32) (text : String) : OpenFault :=
    let number := min code.toNat (-code).toNat
    if number = 20 then .notDirectory
    else if number = 21 then .directory
    else if number = 36 then .nameTooLong
    else .other number text

/-- The result of an action, or the fault that its error stands for. -/
def attempt {α : Type} (action : IO α) : IO (Except OpenFault α) := do
  try return .ok (← action) catch error => return .error (openFault error)

/-- The disk as a file system. -/
def disk : FileSystem IO where
  look paths := do
    let contents ← paths.mapM fun (path : String) => do
      return (path, (← attempt (IO.FS.readBinFile path)).map ByteArray.toList)
    return ⟨fun path => (contents.lookup path).getD (.error .missing)⟩
  write path bytes := attempt (IO.FS.writeBinFile path (ByteArray.mk bytes.toArray))

/-- Puts out a report; the exit code says how the command line ended. -/
def putOut (report : CommandLine.Report) : IO UInt32 := do
  IO.print report.printed
  IO.eprint report.errors
  match report.ending with
  | .finished code => return UInt32.ofNat code
  | .dismissed code => return UInt32.ofNat code
  | .escaped failure =>
    IO.eprint (CommandLine.failureLine failure)
    return 1
  | .idle => return 0

end TokenGrammar.Main

/-- Runs the command line. -/
def main (words : List String) : IO UInt32 := do
  TokenGrammar.Main.putOut
    (← TokenGrammar.CommandLine.run TokenGrammar.Main.disk TokenGrammar.commandChannel words)
