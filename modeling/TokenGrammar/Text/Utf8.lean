import TokenGrammar.Text.Hex

/-!
# UTF-8

Strict UTF-8, read one byte at a time. The state between two bytes is the unfinished sequence, so
a text may arrive in pieces of any size. Overlong forms, surrogates and numbers above U+10FFFF are
refused by the range of the byte after the lead.

## Main definitions

* `Utf8.encode` — the bytes of a text
* `Utf8.Progress` — what has been read of an unfinished sequence
* `Utf8.Progress.step` — the effect of one more byte
* `Utf8.scan` — the characters of some bytes, and the progress or the fault at their end
* `Utf8.decode` — the text of a complete sequence of bytes
* `Utf8.decodeBlocks` — the text of bytes that arrive in blocks, up to the faulty block

## Main results

* `scan_append` — what is read in two pieces is read in one
-/

namespace TokenGrammar.Utf8

/-- The bytes of one character. -/
def encodeChar (c : Char) : List UInt8 :=
  let n := c.toNat
  if n < 0x80 then [UInt8.ofNat n]
  else if n < 0x800 then [UInt8.ofNat (0xc0 + n / 0x40), UInt8.ofNat (0x80 + n % 0x40)]
  else if n < 0x10000 then
    [UInt8.ofNat (0xe0 + n / 0x1000), UInt8.ofNat (0x80 + n / 0x40 % 0x40),
      UInt8.ofNat (0x80 + n % 0x40)]
  else
    [UInt8.ofNat (0xf0 + n / 0x40000), UInt8.ofNat (0x80 + n / 0x1000 % 0x40),
      UInt8.ofNat (0x80 + n / 0x40 % 0x40), UInt8.ofNat (0x80 + n % 0x40)]

/-- The bytes of a text. -/
def encode (text : List Char) : List UInt8 := text.flatMap encodeChar

/-- Why some bytes are not UTF-8. -/
inductive Reason
  /-- No sequence begins with this byte. -/
  | invalidStart
  /-- A sequence is broken off by a byte that cannot continue it. -/
  | invalidContinuation
  /-- The bytes end inside a sequence. -/
  | unexpectedEnd
  deriving DecidableEq, Repr

/-- A place where bytes are not UTF-8: where the bad bytes begin, how many they are, and the
first of them. -/
structure Fault where
  /-- The position of the first bad byte. -/
  offset : Nat
  /-- How many bytes are bad. -/
  width : Nat
  /-- The first bad byte. -/
  byte : UInt8
  /-- What is wrong with them. -/
  reason : Reason
  deriving DecidableEq, Repr

/-- The wording of a reason. -/
def Reason.message : Reason → String
  | .invalidStart => "invalid start byte"
  | .invalidContinuation => "invalid continuation byte"
  | .unexpectedEnd => "unexpected end of data"

/-- The wording of a fault: one bad byte is shown, of several the first and last position. -/
def Fault.message (fault : Fault) : String :=
  let place :=
    if fault.width = 1 then
      "byte 0x" ++ String.ofList (Text.hexNumeral 2 fault.byte.toNat) ++ " in position "
        ++ toString fault.offset
    else
      "bytes in position " ++ toString fault.offset ++ "-"
        ++ toString (fault.offset + fault.width - 1)
  "'utf-8' codec can't decode " ++ place ++ ": " ++ fault.reason.message

/-- What has been read of an unfinished sequence. -/
inductive Progress
  /-- No sequence is open. -/
  | between
  /-- A sequence is open: its lead, how many of its bytes are read and how many are missing, the
  range of the next byte, and the number its bytes make up so far. -/
  | within (lead : UInt8) (read missing low high value : Nat)
  /-- The two bytes of a surrogate are read. No third byte mends them, but they count as bad only
  when it is known that they are not the whole of what is left. -/
  | surrogate
  deriving DecidableEq, Repr

namespace Progress

/-- How many bytes of an unfinished sequence are read. -/
def held : Progress → Nat
  | between => 0
  | within _ read _ _ _ _ => read
  | surrogate => 2

/-- The effect of a byte: a character is complete, or more bytes are awaited, or as many bytes as
`width` says are bad, the first of them being `byte`. -/
inductive Step
  | complete (c : Char)
  | await (progress : Progress)
  | refuse (width : Nat) (byte : UInt8) (reason : Reason)

/-- The progress after a lead byte. -/
def start (b : UInt8) : Step :=
  let n := b.toNat
  if n < 0x80 then .complete (Char.ofNat n)
  -- A continuation byte, or a lead that could only begin an overlong form.
  else if n < 0xc2 then .refuse 1 b .invalidStart
  else if n < 0xe0 then .await (within b 1 1 0x80 0xbf (n - 0xc0))
  else if n < 0xf0 then
    .await (within b 1 2 (if n = 0xe0 then 0xa0 else 0x80) 0xbf (n - 0xe0))
  else if n < 0xf5 then
    .await (within b 1 3 (if n = 0xf0 then 0x90 else 0x80) (if n = 0xf4 then 0x8f else 0xbf)
      (n - 0xf0))
  else .refuse 1 b .invalidStart

/-- The effect of one more byte. -/
def step : Progress → UInt8 → Step
  | between, b => start b
  | within lead read missing low high value, b =>
    let n := b.toNat
    if n < low ∨ high < n then .refuse read lead .invalidContinuation
    else
      let value := value * 0x40 + (n - 0x80)
      if missing ≤ 1 then .complete (Char.ofNat value)
      -- These two bytes begin the numbers from U+D800 to U+DFFF.
      else if lead = 0xed ∧ read = 1 ∧ 0xa0 ≤ n then .await surrogate
      else .await (within lead (read + 1) (missing - 1) 0x80 0xbf value)
  | surrogate, _ => .refuse 1 0xed .invalidContinuation

/-- The fault of bytes that end in this progress at position `offset`, if they are not complete. -/
def faultAtEnd (progress : Progress) (offset : Nat) : Option Fault :=
  match progress with
  | between => none
  | within lead read _ _ _ _ => some ⟨offset - read, read, lead, .unexpectedEnd⟩
  | surrogate => some ⟨offset - 2, 1, 0xed, .invalidContinuation⟩

end Progress

/-- Reads bytes, the first of them at position `offset`: the characters that are complete, and the
progress after the last byte or the first fault. -/
def scan : (progress : Progress) → (offset : Nat) → List UInt8 →
    List Char × Except Fault Progress
  | progress, _, [] => ([], .ok progress)
  | progress, offset, b :: bytes =>
    match progress.step b with
    | .complete c =>
      let rest := scan .between (offset + 1) bytes
      (c :: rest.1, rest.2)
    | .await progress => scan progress (offset + 1) bytes
    | .refuse width byte reason =>
      ([], .error ⟨offset - progress.held, width, byte, reason⟩)

/-- The text of a complete sequence of bytes. -/
def decode (bytes : List UInt8) : Except Fault (List Char) :=
  match scan .between 0 bytes with
  | (_, .error fault) => .error fault
  | (text, .ok progress) =>
    match progress.faultAtEnd bytes.length with
    | none => .ok text
    | some fault => .error fault

/-- Consecutive blocks of `size` bytes, the last of them perhaps shorter. -/
def blocks (size : Nat) (bytes : List UInt8) : List (List UInt8) :=
  if _h : size = 0 ∨ bytes = [] then []
  else bytes.take size :: blocks size (bytes.drop size)
termination_by bytes.length
decreasing_by
  have : bytes.length ≠ 0 := fun hl => _h (.inr (List.length_eq_zero_iff.1 hl))
  simp only [List.length_drop]
  omega

/-- Reads blocks one after the other: the text of all blocks before the first faulty one, and its
fault. A position counts from the first byte of the unfinished sequence that a block inherits. -/
def decodeBlocks : (progress : Progress) → List (List UInt8) → List Char × Option Fault
  | progress, [] => ([], progress.faultAtEnd progress.held)
  | progress, block :: rest =>
    match scan progress progress.held block with
    | (text, .ok progress) =>
      let later := decodeBlocks progress rest
      (text ++ later.1, later.2)
    | (_, .error fault) => ([], some fault)

/-! ### Laws -/

/-- What is read in two pieces is read in one. -/
theorem scan_append (progress : Progress) (offset : Nat) (xs ys : List UInt8) :
    scan progress offset (xs ++ ys) =
      match scan progress offset xs with
      | (text, .ok progress) =>
        let rest := scan progress (offset + xs.length) ys
        (text ++ rest.1, rest.2)
      | (text, .error fault) => (text, .error fault) := by
  induction xs generalizing progress offset with
  | nil => simp [scan]
  | cons b xs ih =>
    simp only [List.cons_append, scan]
    cases progress.step b with
    | complete c =>
      simp only [ih, List.length_cons, Nat.add_assoc, Nat.add_comm 1]
      split <;> simp_all
    | await progress =>
      simp only [ih, List.length_cons, Nat.add_assoc, Nat.add_comm 1]
    | refuse width byte reason => rfl

end TokenGrammar.Utf8
