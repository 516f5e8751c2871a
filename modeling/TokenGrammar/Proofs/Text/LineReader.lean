import Mathlib.Data.List.Basic
import TokenGrammar.Proofs.Text.Utf8
import TokenGrammar.Text.FileText

/-!
# Lines as they arrive

A file that is read line by line arrives in blocks, and what a block ends in may have to wait for
the next one: the bytes of an unfinished character, a carriage return that may be joined by a line
feed, a line that goes on. A reader that keeps these three gives, block by block, the lines that are
cut from all of the text at once, up to the same fault.

## Main definitions

* `Text.unfinishedLine` — what follows the last break
* `Text.settled` — a text with its newlines unified, as far as that is decided
* `Text.LineReader` — what waits for the next block
* `LineReader.feed`, `LineReader.finish` — one more block, and the end of the file
* `LineReader.read` — the lines of some blocks
* `LineReader.linesUpTo` — the lines of a text, before a fault or without one
* `LineReader.after` — the reader after some text
* `Text.furtherSeparators` — what breaks a line in memory but not in a file

## Main results

* `splitOnP_append`, `cutLines_append` — lines that are finished stay, whatever follows
* `settled_append` — only a carriage return at the end is touched by what follows
* `feed_after`, `finish_after` — one block, and the end of the file
* `read_blocks` — the reader gives the lines of a file
* `linesOfFile_encode` — a file that holds the bytes of a text has no fault
* `linesOfFile_toUTF8` — the lines of a text do not depend on whether it is in memory or in a file
-/

namespace TokenGrammar.Text

/-- What follows the last break. -/
def unfinishedLine (isBreak : Char → Bool) (text : List Char) : List Char :=
  (text.splitOnP isBreak).getLast (splitOnP_ne_nil isBreak text)

/-- A text with its newlines unified. A carriage return at its end is not decided yet. -/
def settled (text : List Char) : List Char := unifyNewlines (dropPendingReturn text)

/-- What waits for the next block of a file. -/
structure LineReader where
  /-- The bytes of an unfinished character. -/
  progress : Utf8.Progress := .between
  /-- Whether there is a carriage return, which a line feed may join. -/
  pending : Bool := false
  /-- What follows the last newline. -/
  line : List Char := []

namespace LineReader

/-- Reads one more block: the lines that it finishes, and what waits then. -/
def feed (reader : LineReader) (block : List UInt8) :
    Except Utf8.Fault (List (List Char) × LineReader) :=
  match Utf8.scan reader.progress reader.progress.held block with
  | (_, .error fault) => .error fault
  | (decoded, .ok progress) =>
    let text := if reader.pending then '\r' :: decoded else decoded
    let line := reader.line ++ settled text
    .ok (finishedLines isNewline line,
      ⟨progress, text.getLast? == some '\r', unfinishedLine isNewline line⟩)

/-- The end of the file: the last line, if there is one. -/
def finish (reader : LineReader) : Except Utf8.Fault (List (List Char)) :=
  match reader.progress.faultAtEnd reader.progress.held with
  | some fault => .error fault
  | none => .ok (cutLines isNewline (reader.line ++ if reader.pending then ['\n'] else []))

/-- The lines of some blocks. -/
def read : LineReader → List (List UInt8) → Incoming
  | reader, [] =>
    match reader.finish with
    | .ok lines => ⟨lines, none⟩
    | .error fault => ⟨[], some fault⟩
  | reader, block :: blocks =>
    match reader.feed block with
    | .ok (lines, reader) =>
      let later := reader.read blocks
      ⟨lines ++ later.lines, later.fault⟩
    | .error fault => ⟨[], some fault⟩

/-- The lines of a text that a file holds, or that comes before a fault of the file. Then the last
line counts only if it is finished. -/
def linesUpTo (text : List Char) : Option Utf8.Fault → List (List Char)
  | none => cutLines isNewline (unifyNewlines text)
  | some _ => finishedLines isNewline (settled text)

/-- The reader after some text and the bytes of an unfinished character. -/
def after (progress : Utf8.Progress) (text : List Char) : LineReader :=
  ⟨progress, text.getLast? == some '\r', unfinishedLine isNewline (settled text)⟩

end LineReader

/-! ### Lines that are finished -/

theorem finishedLines_concat (isBreak : Char → Bool) (text : List Char) :
    finishedLines isBreak text ++ [unfinishedLine isBreak text] = text.splitOnP isBreak :=
  List.dropLast_concat_getLast _

/-- Lines that are finished stay, whatever follows. -/
theorem splitOnP_append (isBreak : Char → Bool) (text more : List Char) :
    (text ++ more).splitOnP isBreak =
      finishedLines isBreak text ++ (unfinishedLine isBreak text ++ more).splitOnP isBreak := by
  induction text with
  | nil => rfl
  | cons c text ih =>
    have hcut := finishedLines_concat isBreak text
    have hcons := finishedLines_concat isBreak (c :: text)
    rw [List.splitOnP_cons_eq_if_modifyHead] at hcons
    rw [List.cons_append, List.splitOnP_cons_eq_if_modifyHead, ih]
    by_cases hc : isBreak c
    · rw [if_pos hc, ← hcut, ← List.cons_append] at hcons
      obtain ⟨hfinished, hrest⟩ := List.append_inj' hcons rfl
      rw [if_pos hc, hfinished, (List.cons.inj hrest).1, List.cons_append]
    · rw [if_neg hc, ← hcut] at hcons
      rw [if_neg hc]
      -- The character belongs to the first line, which is the unfinished one if there is no other.
      cases hlines : finishedLines isBreak text with
      | nil =>
        rw [hlines] at hcons
        obtain ⟨hfinished, hrest⟩ := List.append_inj' (hcons.trans (List.nil_append _).symm) rfl
        rw [hfinished, (List.cons.inj hrest).1, List.nil_append, List.nil_append, List.cons_append,
          List.splitOnP_cons_eq_if_modifyHead, if_neg hc]
      | cons line lines =>
        rw [hlines] at hcons
        obtain ⟨hfinished, hrest⟩ := List.append_inj' (hcons.trans List.cons_append.symm) rfl
        rw [hfinished, (List.cons.inj hrest).1, List.cons_append, List.cons_append]
        rfl

theorem finishedLines_append (isBreak : Char → Bool) (text more : List Char) :
    finishedLines isBreak (text ++ more) =
      finishedLines isBreak text ++
        finishedLines isBreak (unfinishedLine isBreak text ++ more) := by
  rw [finishedLines, splitOnP_append, List.dropLast_append_of_ne_nil (splitOnP_ne_nil _ _)]
  rfl

theorem unfinishedLine_append (isBreak : Char → Bool) (text more : List Char) :
    unfinishedLine isBreak (text ++ more) =
      unfinishedLine isBreak (unfinishedLine isBreak text ++ more) := by
  simp only [unfinishedLine, splitOnP_append isBreak text more]
  exact List.getLast_append_of_ne_nil _ (splitOnP_ne_nil _ _)

theorem dropFinalEmpty_append (lines : List (List Char)) {more : List (List Char)}
    (h : more ≠ []) : dropFinalEmpty (lines ++ more) = lines ++ dropFinalEmpty more := by
  induction lines with
  | nil => rfl
  | cons line lines ih =>
    rw [List.cons_append, dropFinalEmpty_cons (by simp [h]), ih, List.cons_append]

theorem cutLines_append (isBreak : Char → Bool) (text more : List Char) :
    cutLines isBreak (text ++ more) =
      finishedLines isBreak text ++ cutLines isBreak (unfinishedLine isBreak text ++ more) := by
  rw [cutLines, splitOnP_append, dropFinalEmpty_append _ (splitOnP_ne_nil _ _)]
  rfl

/-! ### Newlines -/

theorem unifyNewlines_cons {c : Char} {text : List Char}
    (h : c = '\r' → text.head? ≠ some '\n') :
    unifyNewlines (c :: text) = (if c = '\r' then '\n' else c) :: unifyNewlines text := by
  refine unifyNewlines.eq_3 c text ?_
  rintro rest rfl rfl
  exact h rfl rfl

theorem unifyNewlines_eq_self {text : List Char} (h : '\r' ∉ text) : unifyNewlines text = text := by
  induction text with
  | nil => rfl
  | cons c text ih =>
    obtain ⟨hc, htext⟩ := not_or.mp (mt List.mem_cons.mpr h)
    rw [unifyNewlines_cons (fun hreturn => absurd hreturn.symm hc), ih htext, if_neg (Ne.symm hc)]

/-- A file that holds the bytes of a text without carriage returns is read as that text. -/
theorem ofFile_encode {text : List Char} (h : '\r' ∉ text) :
    ofFile (Utf8.encode text) = .ok text := by
  rw [ofFile, Utf8.decode_encode, Except.map, unifyNewlines_eq_self h]

/-- Newlines are unified in two pieces unless a pair is cut in two. -/
theorem unifyNewlines_append {text more : List Char}
    (h : text.getLast? = some '\r' → more.head? ≠ some '\n') :
    unifyNewlines (text ++ more) = unifyNewlines text ++ unifyNewlines more := by
  induction text using unifyNewlines.induct with
  | case1 => rfl
  | case2 rest ih =>
    have hrest : rest.getLast? = some '\r' → more.head? ≠ some '\n' := by
      intro hlast
      refine h ?_
      rw [List.getLast?_cons_cons, List.getLast?_cons, hlast]
      rfl
    simp only [List.cons_append, unifyNewlines, ih hrest]
  | case3 c rest hpair ih =>
    have hcons : c = '\r' → (rest ++ more).head? ≠ some '\n' := by
      rintro rfl
      cases rest with
      | nil => exact h rfl
      | cons d rest =>
        rintro ⟨⟩
        exact hpair rest rfl rfl
    have hrest : rest.getLast? = some '\r' → more.head? ≠ some '\n' := by
      intro hlast
      refine h ?_
      rw [List.getLast?_cons, hlast]
      rfl
    rw [List.cons_append, unifyNewlines_cons hcons, ih hrest, unifyNewlines.eq_3 c rest hpair,
      List.cons_append]

theorem dropPendingReturn_concat (text : List Char) :
    dropPendingReturn (text ++ ['\r']) = text := by
  simp [dropPendingReturn]

theorem dropPendingReturn_eq_self {text : List Char} (h : text.getLast? ≠ some '\r') :
    dropPendingReturn text = text := if_neg h

theorem dropPendingReturn_append (text : List Char) {more : List Char} (h : more ≠ []) :
    dropPendingReturn (text ++ more) = text ++ dropPendingReturn more := by
  rw [dropPendingReturn, dropPendingReturn, List.getLast?_append_of_ne_nil _ h]
  split
  · exact List.dropLast_append_of_ne_nil h
  · rfl

/-- Only a carriage return at the end is touched by what follows. -/
theorem settled_append (text more : List Char) :
    settled (text ++ more) =
      settled text ++ settled (if text.getLast? == some '\r' then '\r' :: more else more) := by
  by_cases hlast : text.getLast? = some '\r'
  · obtain ⟨before, rfl⟩ := List.getLast?_eq_some_iff.mp hlast
    rw [if_pos (beq_iff_eq.mpr hlast), settled, settled, settled, List.append_assoc,
      List.singleton_append, dropPendingReturn_append _ (List.cons_ne_nil _ _),
      dropPendingReturn_concat]
    -- What is held back is no line feed.
    refine unifyNewlines_append fun _ => ?_
    rw [dropPendingReturn]
    split
    · cases more <;> simp
    · simp
  · rw [if_neg (by simpa using hlast), settled, settled, settled, dropPendingReturn_eq_self hlast]
    rcases eq_or_ne more [] with rfl | hmore
    · rw [List.append_nil, dropPendingReturn_eq_self hlast]
      exact (List.append_nil _).symm
    · rw [dropPendingReturn_append _ hmore]
      exact unifyNewlines_append fun h => absurd h hlast

/-- At the end of a file, a carriage return that waits is a newline. -/
theorem unifyNewlines_eq_settled (text : List Char) :
    unifyNewlines text = settled text ++ if text.getLast? == some '\r' then ['\n'] else [] := by
  by_cases hlast : text.getLast? = some '\r'
  · obtain ⟨before, rfl⟩ := List.getLast?_eq_some_iff.mp hlast
    rw [if_pos (beq_iff_eq.mpr hlast), settled, dropPendingReturn_concat]
    exact unifyNewlines_append fun _ => by simp
  · rw [if_neg (by simpa using hlast), settled, dropPendingReturn_eq_self hlast, List.append_nil]

/-- Whether a carriage return waits is seen from the last piece and what waited before. -/
theorem getLast?_append_return (text more : List Char) :
    ((text ++ more).getLast? == some '\r') =
      ((if text.getLast? == some '\r' then '\r' :: more else more).getLast? == some '\r') := by
  cases more with
  | nil => by_cases hlast : text.getLast? = some '\r' <;> simp [hlast]
  | cons c more =>
    rw [List.getLast?_append_of_ne_nil _ (List.cons_ne_nil c more)]
    split
    · rw [List.getLast?_cons_cons]
    · rfl

/-! ### Blocks -/

namespace LineReader

variable {progress next : Utf8.Progress} {text decoded : List Char} {block : List UInt8}

/-- What one block adds. -/
theorem feed_after (text : List Char)
    (hscan : Utf8.scan progress progress.held block = (decoded, .ok next)) :
    ∃ lines, (after progress text).feed block = .ok (lines, after next (text ++ decoded)) ∧
      finishedLines isNewline (settled (text ++ decoded)) =
        finishedLines isNewline (settled text) ++ lines := by
  refine ⟨_, ?_, by rw [settled_append, finishedLines_append]⟩
  simp only [feed, after, hscan, settled_append text decoded,
    unfinishedLine_append _ (settled text), getLast?_append_return text decoded]
  rfl

theorem feed_after_error {fault : Utf8.Fault}
    (hscan : Utf8.scan progress progress.held block = (decoded, .error fault)) :
    (after progress text).feed block = .error fault := by
  simp only [feed, after, hscan]

/-- What the end of the file adds. -/
theorem finish_after (text : List Char) (hend : progress.faultAtEnd progress.held = none) :
    ∃ lines, (after progress text).finish = .ok lines ∧
      cutLines isNewline (unifyNewlines text) =
        finishedLines isNewline (settled text) ++ lines := by
  refine ⟨_, ?_, by rw [unifyNewlines_eq_settled, cutLines_append]⟩
  simp only [finish, after, hend]
  rfl

/-- The reader gives the lines that are not finished before, up to the same fault. -/
theorem read_after (progress : Utf8.Progress) (text : List Char) (blocks : List (List UInt8)) :
    ((after progress text).read blocks).fault = (Utf8.decodeBlocks progress blocks).2 ∧
      finishedLines isNewline (settled text) ++ ((after progress text).read blocks).lines =
        linesUpTo (text ++ (Utf8.decodeBlocks progress blocks).1)
          (Utf8.decodeBlocks progress blocks).2 := by
  induction blocks generalizing progress text with
  | nil =>
    simp only [read, Utf8.decodeBlocks, List.append_nil]
    cases hend : progress.faultAtEnd progress.held with
    | none =>
      obtain ⟨lines, hfinish, hlines⟩ := finish_after text hend
      rw [hfinish]
      exact ⟨rfl, hlines.symm⟩
    | some fault =>
      have hfinish : (after progress text).finish = .error fault := by
        simp only [finish, after, hend]
      rw [hfinish]
      exact ⟨rfl, List.append_nil _⟩
  | cons block blocks ih =>
    rw [read, Utf8.decodeBlocks]
    rcases hscan : Utf8.scan progress progress.held block with ⟨decoded, fault | next⟩
    · rw [feed_after_error hscan]
      simp only [List.append_nil, linesUpTo, and_self]
    · obtain ⟨lines, hfeed, hlines⟩ := feed_after text hscan
      obtain ⟨hfault, hlater⟩ := ih next (text ++ decoded)
      rw [hfeed]
      simp only [← List.append_assoc, ← hlines]
      exact ⟨hfault, hlater⟩

end LineReader

/-! ### Files -/

theorem linesOfFile_eq (bytes : List UInt8) :
    linesOfFile bytes =
      let decoded := Utf8.decodeBlocks .between (Utf8.blocks blockSize bytes)
      ⟨LineReader.linesUpTo decoded.1 decoded.2, decoded.2⟩ := by
  rw [linesOfFile]
  rcases Utf8.decodeBlocks .between (Utf8.blocks blockSize bytes) with ⟨text, fault | fault⟩ <;> rfl

/-- **Lines as they arrive.** A reader that looks at one block at a time gives the lines of a
file. -/
theorem read_blocks (bytes : List UInt8) :
    LineReader.read {} (Utf8.blocks blockSize bytes) = linesOfFile bytes := by
  obtain ⟨hfault, hlines⟩ := LineReader.read_after .between [] (Utf8.blocks blockSize bytes)
  rw [linesOfFile_eq]
  exact congrArg₂ Incoming.mk hlines hfault

/-- A file that holds the bytes of a text has no fault. -/
theorem linesOfFile_encode (text : List Char) :
    linesOfFile (Utf8.encode text) = ⟨cutLines isNewline (unifyNewlines text), none⟩ := by
  rw [linesOfFile, Utf8.decodeBlocks_blocks_encode (by decide)]

/-! ### Texts in memory -/

/-- The breaks of a text in memory that break no line of a file. -/
def furtherSeparators : List Char :=
  ['\x0b', '\x0c', '\x1c', '\x1d', '\x1e', '\x85', '\u2028', '\u2029']

theorem isSeparator_iff (c : Char) : isSeparator c ↔ c = '\n' ∨ c ∈ furtherSeparators := by
  simp only [isSeparator, furtherSeparators, List.mem_cons, List.not_mem_nil, or_false,
    ← Char.toNat_inj, Char.reduceToNat, Bool.or_eq_true, Bool.and_eq_true, beq_iff_eq,
    decide_eq_true_eq]
  omega

theorem mem_unifyNewlines {text : List Char} {c : Char} (h : c ∈ unifyNewlines text) :
    c = '\n' ∨ c ∈ text := by
  induction text using unifyNewlines.induct with
  | case1 => exact absurd h List.not_mem_nil
  | case2 rest ih =>
    rcases List.mem_cons.mp h with rfl | h
    · exact .inl rfl
    · exact (ih h).imp_right fun hrest => by simp [hrest]
  | case3 d rest hpair ih =>
    rw [unifyNewlines.eq_3 d rest hpair] at h
    rcases List.mem_cons.mp h with rfl | h
    · split
      · exact .inl rfl
      · exact .inr List.mem_cons_self
    · exact (ih h).imp_right (List.mem_cons_of_mem d)

theorem cutLines_congr {isBreak isBreak' : Char → Bool} {text : List Char}
    (h : ∀ c ∈ text, isBreak c = isBreak' c) : cutLines isBreak text = cutLines isBreak' text := by
  have hsplit : text.splitOnP isBreak = text.splitOnP isBreak' := by
    induction text with
    | nil => rfl
    | cons c text ih =>
      rw [List.splitOnP_cons_eq_if_modifyHead, List.splitOnP_cons_eq_if_modifyHead,
        h c List.mem_cons_self, ih fun d hd => h d (List.mem_cons_of_mem c hd)]
  rw [cutLines, cutLines, hsplit]

/-- **One text, two cuts.** A text without further separators has the same lines in memory and in a
file. -/
theorem linesOfFile_toUTF8 {text : String} (h : ∀ c ∈ furtherSeparators, c ∉ text.toList) :
    linesOfFile text.toUTF8.data.toList = ⟨linesOfText text.toList, none⟩ := by
  rw [← Utf8.encode_toList, linesOfFile_encode, linesOfText]
  refine congrArg (Incoming.mk · none) (cutLines_congr fun c hc => ?_)
  rw [isNewline, Bool.eq_iff_iff, beq_iff_eq, isSeparator_iff]
  refine ⟨.inl, fun hseparator => hseparator.resolve_right fun hfurther => ?_⟩
  rcases mem_unifyNewlines hc with rfl | hmem
  · exact absurd hfurther (by decide)
  · exact h c hfurther hmem

end TokenGrammar.Text
