import TokenGrammar.Proofs.Grammar.Sources
import TokenGrammar.Proofs.Text.Utf8Validity

/-!
# Files that are not UTF-8

Nothing is loaded from a file that is not UTF-8 throughout, wherever its fault is. A JSON file is
decoded before it is read, so the fault is reported whatever the JSON text before it is. A grammar
is read while the file is being decoded. The lines before the fault may then repeat a header, and
the repetition is reported instead; names and missing blocks are only looked at after the last line,
which is never reached.

## Main results

* `ofFile_of_not_isValidUTF8`, `linesOfFile_of_not_isValidUTF8` — the texts of such a file
* `load_of_not_isValidUTF8` — what loading such a file fails with
-/

namespace TokenGrammar

variable {files : Files} {path : String} {bytes : List UInt8}

namespace Text

/-- Bytes that are not UTF-8 are not the bytes of any text. -/
theorem ne_encode_of_not_isValidUTF8 (h : ¬ (ByteArray.mk bytes.toArray).IsValidUTF8)
    (text : List Char) : bytes ≠ Utf8.encode text :=
  fun hbytes => h ((Utf8.isValidUTF8_iff bytes).mpr ⟨text, hbytes⟩)

/-- A file that is not UTF-8 has no text. -/
theorem ofFile_of_not_isValidUTF8 (h : ¬ (ByteArray.mk bytes.toArray).IsValidUTF8) :
    ∃ cause, ofFile bytes = .error cause := by
  cases hdecode : Utf8.decode bytes with
  | error cause =>
    rw [ofFile, hdecode]
    exact ⟨cause, rfl⟩
  | ok text => exact absurd (Utf8.decode_eq_ok_iff.mp hdecode) (ne_encode_of_not_isValidUTF8 h text)

/-- The lines of a file that is not UTF-8 stop at a fault. They are lines of a text whose bytes
stand at the head of the file. -/
theorem linesOfFile_of_not_isValidUTF8 (h : ¬ (ByteArray.mk bytes.toArray).IsValidUTF8) :
    ∃ text cause, Utf8.encode text <+: bytes ∧
      linesOfFile bytes = ⟨finishedLines isNewline (settled text), some cause⟩ := by
  have hblocks := Utf8.Pending.between.decodeBlocks (Utf8.blocks blockSize bytes)
  rw [Utf8.flatten_blocks (by decide), List.nil_append] at hblocks
  rcases hdecode : Utf8.decodeBlocks .between (Utf8.blocks blockSize bytes) with
    ⟨text, _ | cause⟩
  · rw [hdecode] at hblocks
    exact absurd hblocks.symm (ne_encode_of_not_isValidUTF8 h text)
  · rw [hdecode] at hblocks
    refine ⟨text, cause, hblocks, ?_⟩
    rw [linesOfFile, hdecode]
    rfl

end Text

open Grammar

/-- **Files that are not UTF-8.** Take a file that is not UTF-8 throughout. Loading terminals or
tokens from it fails with the fault of the bytes. Loading a grammar from it fails as well, whatever
the terminals are: if a header is repeated in the lines that are read before the faulty bytes, with
the first such header, and otherwise with the fault of the bytes, which is about no symbol. -/
theorem load_of_not_isValidUTF8 (hpath : '\x00' ∉ path.toList) (hfile : files.read path = .ok bytes)
    (hbytes : ¬ (ByteArray.mk bytes.toArray).IsValidUTF8) :
    (∃ cause, loadTerminals files (some path) =
        .fail (.config (.unreadableTerminals path (.undecodable cause)))) ∧
      (∃ cause, loadTokens files (some path) =
        .fail (.config (.unreadableTokens path (.undecodable cause)))) ∧
      ∃ text cause, Utf8.encode text <+: bytes ∧
        Text.linesOfFile bytes =
          ⟨Text.finishedLines Text.isNewline (Text.settled text), some cause⟩ ∧
        ∀ terminals, ∃ fault, loadGrammar files terminals (some path) = .fail (.config fault) ∧
          let headers := (blocksOf (Text.linesOfFile bytes).lines).map Block.header
          (headers.Nodup ∧ fault = .unreadableGrammar path (.undecodable cause) ∧
              fault.symbol? = none ∨
            ∃ before name after, headers = before ++ name :: after ∧ before.Nodup ∧
              name ∈ before ∧ fault = .repeatedHeader name ∧ fault.symbol? = some name) := by
  obtain ⟨cause, hcause⟩ := Text.ofFile_of_not_isValidUTF8 hbytes
  refine ⟨⟨cause, ?_⟩, ⟨cause, ?_⟩, ?_⟩
  · rw [loadTerminals_eq hpath, readJsonFile_of_undecodable hfile hcause]
  · rw [loadTokens_eq hpath, readJsonFile_of_undecodable hfile hcause]
  · obtain ⟨text, cause, htext, hlines⟩ := Text.linesOfFile_of_not_isValidUTF8 hbytes
    refine ⟨text, cause, htext, hlines, fun terminals => ?_⟩
    rw [loadGrammar_eq_announce terminals hpath hfile, readIncoming, hlines, Option.map_some,
      ofBlocks_of_fault]
    dsimp only
    cases hrepeat : firstRepeat? [] ((blocksOf _).map Block.header) with
    | none =>
      exact ⟨_, rfl, .inl ⟨firstRepeat?_nil_eq_none_iff.mp hrepeat, rfl, rfl⟩⟩
    | some name =>
      obtain ⟨before, after, hheaders, hbefore, hname⟩ := firstRepeat?_nil_eq_some_iff.mp hrepeat
      exact ⟨_, rfl, .inr ⟨before, name, after, hheaders, hbefore, hname, rfl, rfl⟩⟩

/-- The bytes of a grammar that uses an unknown name, with one more byte at their end, which begins
no character. -/
def brokenBytes : List UInt8 := Utf8.encode "Start\nNUM\n".toList ++ [0xff]

theorem not_isValidUTF8_brokenBytes : ¬ (ByteArray.mk brokenBytes.toArray).IsValidUTF8 := by
  intro h
  obtain ⟨text, htext⟩ := (Utf8.isValidUTF8_iff _).mp h
  have hfault : Utf8.decode brokenBytes = .error ⟨10, 1, 0xff, .invalidStart⟩ := rfl
  rw [Utf8.decode_eq_ok_iff.mpr htext] at hfault
  cases hfault

theorem load_of_not_isValidUTF8_brokenBytes :
    let files : Files := ⟨fun _ => .ok brokenBytes⟩
    '\x00' ∉ "broken".toList ∧ files.read "broken" = .ok brokenBytes ∧
      ¬ (ByteArray.mk brokenBytes.toArray).IsValidUTF8 ∧
      ∃ cause, ∀ terminals, loadGrammar files terminals (some "broken") =
        .fail (.config (.unreadableGrammar "broken" (.undecodable cause))) := by
  intro files
  have hpath : '\x00' ∉ "broken".toList := by decide
  have hfile : files.read "broken" = .ok brokenBytes := rfl
  have hlines : (Text.linesOfFile brokenBytes).lines = [] := by decide +kernel
  obtain ⟨-, -, text, cause, -, -, hload⟩ :=
    load_of_not_isValidUTF8 hpath hfile not_isValidUTF8_brokenBytes
  refine ⟨hpath, hfile, not_isValidUTF8_brokenBytes, cause, fun terminals => ?_⟩
  obtain ⟨fault, hfail, hfault⟩ := hload terminals
  -- The fault is in the first block, so no line is read before it, and no header is repeated.
  rw [hlines] at hfault
  rcases hfault with ⟨-, rfl, -⟩ | ⟨before, name, after, hheaders, -⟩
  · exact hfail
  · cases before <;> cases hheaders

end TokenGrammar
