import TokenGrammar.Proofs.Grammar.Reading
import TokenGrammar.Proofs.Loading.Files

/-!
# A grammar in a file and in memory

A file is read block by block, and the pass over its lines goes on as far as they have come in: it
stops at a repeated header before later bytes are looked at, and at a fault of the file before the
names in the alternatives are checked. So a repeated header wins over a fault that comes after it,
and both win over everything else. A file that holds the bytes of a text has no fault and the lines
of the text; then both give the same grammar or the same fault, and the same is recorded.

## Main definitions

* `Pass.conclude` — the grammar when no more lines can be read
* `Grammar.readBlocks` — the grammar in some blocks of bytes, read as they arrive

## Main results

* `ofBlocks_of_fault` — the fault of a file among those of the blocks
* `foldlM_step_conclude` — the pass over the lines before a fault
* `readBlocks_eq_readIncoming` — reading block by block gives the grammar of the lines
* `loadGrammar_eq_readText` — a file that holds the bytes of a text gives what the text gives
-/

namespace TokenGrammar.Grammar

/-- The fault of a grammar file that is not UTF-8. -/
def undecodable (path : String) (fault : Utf8.Fault) : ConfigFault :=
  .unreadableGrammar path (.undecodable fault)

/-- The grammar when no more lines can be read, because there are none or the file has a fault. -/
def Pass.conclude (terminals : NameSet) (fileFault : Option ConfigFault) (pass : Pass) :
    Except ConfigFault Grammar :=
  match fileFault with
  | some fault => .error fault
  | none => pass.finish terminals

/-- The grammar in some blocks of bytes. A block is looked at when the lines that the blocks before
it finish have been read. -/
def readBlocks (terminals : NameSet) (path : String) (reader : Text.LineReader) (pass : Pass) :
    List (List UInt8) → Except ConfigFault Grammar
  | [] => do
    let lines ← reader.finish.mapError (undecodable path)
    let pass ← lines.foldlM (Pass.step terminals) pass
    pass.finish terminals
  | block :: blocks => do
    let (lines, reader) ← (reader.feed block).mapError (undecodable path)
    let pass ← lines.foldlM (Pass.step terminals) pass
    readBlocks terminals path reader pass blocks

/-! ### The fault of a file -/

/-- A fault of the file comes after a repeated header and before all other faults. -/
theorem ofBlocks_of_fault (terminals : NameSet) (blocks : List Block) (fault : ConfigFault) :
    ofBlocks terminals blocks (some fault) = .error
      (match firstRepeat? [] (blocks.map Block.header) with
        | some name => .repeatedHeader name
        | none => fault) := by
  rw [ofBlocks]
  split
  · next h => rw [h]
  · next h =>
    change Except.error fault = _
    rw [h]

namespace Pass

variable {terminals : NameSet} {pass pass' : Pass} {fault : ConfigFault} {name : String}

/-- All that stops the pass is a repeated header. -/
theorem step_eq_error {line : List Char} (h : pass.step terminals line = .error fault) :
    ∃ name, fault = .repeatedHeader name := by
  simp only [step] at h
  split at h
  · cases h
  · split at h
    · split at h
      · cases h
        exact ⟨_, rfl⟩
      · cases h
    · cases h

theorem foldlM_step_eq_error {lines : List (List Char)}
    (h : lines.foldlM (step terminals) pass = .error fault) :
    ∃ name, fault = .repeatedHeader name := by
  induction lines generalizing pass with
  | nil => cases h
  | cons line lines ih =>
    rw [List.foldlM_cons] at h
    cases hstep : pass.step terminals line with
    | error fault' =>
      rw [hstep] at h
      cases h
      exact step_eq_error hstep
    | ok pass' =>
      rw [hstep] at h
      exact ih h

theorem finish_ne_repeatedHeader :
    pass.finish terminals ≠ .error (.repeatedHeader name) := by
  rw [finish]
  split
  · simp
  · split <;> simp

end Pass

/-- The pass stops at the first repeated header, or else reads all lines. -/
theorem foldlM_step_conclude (terminals : List Terminal) (lines : List (List Char))
    (fileFault : Option ConfigFault) :
    (lines.foldlM (Pass.step (namesOfTerminals terminals)) {} >>=
        Pass.conclude (namesOfTerminals terminals) fileFault) =
      ofBlocks (namesOfTerminals terminals) (blocksOf lines) fileFault := by
  have hread := readByLine_eq_read terminals lines
  rw [readByLine, Grammar.read] at hread
  cases fileFault with
  | none => exact hread
  | some fault =>
    rw [ofBlocks_of_fault]
    cases hfold : lines.foldlM (Pass.step (namesOfTerminals terminals)) {} with
    | error found =>
      obtain ⟨name, rfl⟩ := Pass.foldlM_step_eq_error hfold
      rw [hfold] at hread
      cases read_eq_error_iff.mp hread.symm with
      | repeatedHeader hheaders hbefore hname =>
        rw [firstRepeat?_nil_eq_some_iff.mpr ⟨_, _, hheaders, hbefore, hname⟩]
        rfl
    | ok pass =>
      cases hrepeat : firstRepeat? [] ((blocksOf lines).map Block.header) with
      | some name =>
        rw [hfold, ofBlocks_of_repeated hrepeat] at hread
        exact absurd hread Pass.finish_ne_repeatedHeader
      | none => rfl

/-! ### Block by block -/

/-- Reading as the blocks arrive is the pass over their lines, up to a fault. -/
theorem readBlocks_eq_foldlM (terminals : NameSet) (path : String) (reader : Text.LineReader)
    (pass : Pass) (blocks : List (List UInt8)) :
    readBlocks terminals path reader pass blocks =
      (reader.read blocks).lines.foldlM (Pass.step terminals) pass >>=
        Pass.conclude terminals ((reader.read blocks).fault.map (undecodable path)) := by
  induction blocks generalizing reader pass with
  | nil =>
    rw [readBlocks, Text.LineReader.read]
    cases reader.finish <;> rfl
  | cons block blocks ih =>
    rw [readBlocks, Text.LineReader.read]
    cases reader.feed block with
    | error fault => rfl
    | ok fed =>
      obtain ⟨lines, reader⟩ := fed
      simp only [List.foldlM_append]
      change (lines.foldlM _ pass >>= fun pass => readBlocks terminals path reader pass blocks) = _
      simp only [ih]
      exact (bind_assoc _ _ _).symm

/-- **Block by block.** Reading a file as its blocks arrive gives the grammar of its lines, or the
same fault. -/
theorem readBlocks_eq_readIncoming (terminals : List Terminal) (path : String)
    (bytes : List UInt8) :
    readBlocks (namesOfTerminals terminals) path {} {} (Utf8.blocks Text.blockSize bytes) =
      readIncoming terminals path (Text.linesOfFile bytes) := by
  rw [readBlocks_eq_foldlM, Text.read_blocks, foldlM_step_conclude]
  rfl

/-! ### The same text -/

variable {files : Files} {path text : String} {bytes : List UInt8}

theorem loadGrammar_eq_announce (terminals : List Terminal) (hpath : '\x00' ∉ path.toList)
    (hfile : files.read path = .ok bytes) :
    loadGrammar files terminals (some path) =
      announce (readIncoming terminals path (Text.linesOfFile bytes)) := by
  rw [loadGrammar_eq hpath, hfile]

/-- **The same text.** Take a text without the separators that break a line in memory only, and a
file that holds its UTF-8 bytes. (No file has a path with a null character.) Loading the file gives
the grammar or the fault that the text gives, and the same is recorded. So does reading the file
block by block, as far as it has come in. -/
theorem loadGrammar_eq_readText (terminals : List Terminal) (hpath : '\x00' ∉ path.toList)
    (hfile : files.read path = .ok text.toUTF8.data.toList)
    (htext : ∀ c ∈ Text.furtherSeparators, c ∉ text.toList) :
    loadGrammar files terminals (some path) = announce (readText terminals text) ∧
      readBlocks (namesOfTerminals terminals) path {} {}
        (Utf8.blocks Text.blockSize text.toUTF8.data.toList) = readText terminals text := by
  have hlines := Text.linesOfFile_toUTF8 htext
  have hread : readIncoming terminals path (Text.linesOfFile text.toUTF8.data.toList) =
      readText terminals text := by
    rw [hlines]
    rfl
  refine ⟨?_, ?_⟩
  · rw [loadGrammar_eq_announce terminals hpath hfile, hread]
  · rw [readBlocks_eq_readIncoming, hread]

/-- The text of the grammar of sums with all three line ends, a blank of two bytes at the end of a
line, and no newline at the end. -/
def mixedText : String :=
  "Expr\r\nTerm PLUS Expr\rTerm\r\n\r\nTerm\u00a0\nNUM\nLPAREN Expr RPAREN"

theorem loadGrammar_eq_readText_mixed :
    let files : Files := ⟨fun path =>
      if path = "sums" then .ok mixedText.toUTF8.data.toList else .error .missing⟩
    '\x00' ∉ "sums".toList ∧ files.read "sums" = .ok mixedText.toUTF8.data.toList ∧
      (∀ c ∈ Text.furtherSeparators, c ∉ mixedText.toList) ∧
      loadGrammar files sumTerminals (some "sums") = announce (.ok sums) ∧
      readBlocks (namesOfTerminals sumTerminals) "sums" {} {}
        (Utf8.blocks Text.blockSize mixedText.toUTF8.data.toList) = .ok sums := by
  intro files
  have hpath : '\x00' ∉ "sums".toList := by decide
  have hfile : files.read "sums" = .ok mixedText.toUTF8.data.toList := by
    change (if "sums" = "sums" then Except.ok mixedText.toUTF8.data.toList else .error .missing) = _
    exact if_pos rfl
  have htext : ∀ c ∈ Text.furtherSeparators, c ∉ mixedText.toList := by
    have hnone : (Text.furtherSeparators.all fun c => !mixedText.toList.contains c) = true := rfl
    intro c hc hmem
    have hcontains : (!mixedText.toList.contains c) = true := List.all_eq_true.mp hnone c hc
    rw [List.contains_iff_mem.mpr hmem] at hcontains
    cases hcontains
  have hsums : readText sumTerminals mixedText = .ok sums := rfl
  have hagree := loadGrammar_eq_readText sumTerminals hpath hfile htext
  rw [hsums] at hagree
  exact ⟨hpath, hfile, htext, hagree⟩

end TokenGrammar.Grammar
