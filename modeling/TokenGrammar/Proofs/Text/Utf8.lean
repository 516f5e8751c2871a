import Mathlib.Tactic.SplitIfs
import TokenGrammar.Text.CodeUnits
import TokenGrammar.Text.Utf8

/-!
# UTF-8 is read back

The bytes of a text are read back as that text, wherever they are cut into blocks. A character is
read by its lead byte, which opens a sequence, and by the bytes that continue it with six bits each;
that a character is no surrogate and that its bytes are the fewest possible is what the ranges after
the lead ask for. Positions matter to faults alone, so what is read in one piece without a fault is
read in blocks as well.

## Main results

* `encode_toList` — the bytes of a text are those of the standard library
* `scan_encodeChar_append` — the bytes of one character are read as that character
* `scan_encode`, `decode_encode` — the bytes of a text are read as that text
* `decodeBlocks_eq_of_scan` — what is read without a fault is read in blocks
* `decodeBlocks_blocks_encode` — the bytes of a text in blocks
-/

namespace TokenGrammar.Utf8

/-! ### The bytes of the standard library -/

theorem encodeChar_eq (c : Char) : encodeChar c = String.utf8EncodeChar c := by
  have hvalid := Text.toNat_not_surrogate c
  have hval : c.val.toNat = c.toNat := rfl
  rw [encodeChar, String.utf8EncodeChar, hval]
  simp only [Nat.add_comm 0x80, Nat.add_comm 0xc0, Nat.add_comm 0xe0, Nat.add_comm 0xf0,
    ← Nat.lt_succ_iff]
  split_ifs with h₁ h₂ h₃
  · rfl
  · rw [Nat.mod_eq_of_lt (show c.toNat / 64 < 32 by omega)]
  · rw [Nat.mod_eq_of_lt (show c.toNat / 4096 < 16 by omega)]
  · rw [Nat.mod_eq_of_lt (show c.toNat / 262144 < 8 by omega)]

/-- The bytes of a text are those that the standard library writes. -/
theorem encode_toList (text : String) : encode text.toList = text.toUTF8.data.toList := by
  have hbytes : text.toUTF8 = text.toList.utf8Encode := by
    rw [← String.toByteArray_ofList, String.ofList_toList]
    rfl
  rw [hbytes, List.utf8Encode, List.data_toByteArray, encode]
  simp only [funext encodeChar_eq]

/-! ### One character -/

namespace Progress

theorem toNat_ofNat {n : Nat} (h : n < 0x100) : (UInt8.ofNat n).toNat = n := by
  rw [UInt8.toNat_ofNat']
  exact Nat.mod_eq_of_lt h

theorem eq_of_ofNat_eq {m n : Nat} (h : UInt8.ofNat m = UInt8.ofNat n) (hm : m < 0x100)
    (hn : n < 0x100) : m = n := by
  rw [← toNat_ofNat hm, h, toNat_ofNat hn]

/-- A byte below 80 is a character. -/
theorem step_one {n : Nat} (h : n < 0x80) :
    between.step (UInt8.ofNat n) = .complete (Char.ofNat n) := by
  simp only [step, start, toNat_ofNat (show n < 0x100 by omega), if_pos h]

/-- A lead of two bytes. The values 0 and 1 would be overlong. -/
theorem step_two {n : Nat} (hlow : 2 ≤ n) (hhigh : n < 0x20) :
    between.step (UInt8.ofNat (0xc0 + n)) =
      .await (within (UInt8.ofNat (0xc0 + n)) 1 1 0x80 0xbf n) := by
  simp only [step, start, toNat_ofNat (show 0xc0 + n < 0x100 by omega)]
  rw [if_neg (by omega), if_neg (by omega), if_pos (by omega), Nat.add_sub_cancel_left]

/-- A lead of three bytes. -/
theorem step_three {n : Nat} (h : n < 0x10) :
    between.step (UInt8.ofNat (0xe0 + n)) = .await
      (within (UInt8.ofNat (0xe0 + n)) 1 2 (if n = 0 then 0xa0 else 0x80) 0xbf n) := by
  have hzero : 0xe0 + n = 0xe0 ↔ n = 0 := by omega
  simp only [step, start, toNat_ofNat (show 0xe0 + n < 0x100 by omega), hzero]
  rw [if_neg (by omega), if_neg (by omega), if_neg (by omega), if_pos (by omega),
    Nat.add_sub_cancel_left]

/-- A lead of four bytes. -/
theorem step_four {n : Nat} (h : n < 5) :
    between.step (UInt8.ofNat (0xf0 + n)) = .await
      (within (UInt8.ofNat (0xf0 + n)) 1 3 (if n = 0 then 0x90 else 0x80)
        (if n = 4 then 0x8f else 0xbf) n) := by
  have hzero : 0xf0 + n = 0xf0 ↔ n = 0 := by omega
  have hfour : 0xf0 + n = 0xf4 ↔ n = 4 := by omega
  simp only [step, start, toNat_ofNat (show 0xf0 + n < 0x100 by omega), hzero, hfour]
  rw [if_neg (by omega), if_neg (by omega), if_neg (by omega), if_neg (by omega),
    if_pos (by omega), Nat.add_sub_cancel_left]

variable {lead : UInt8} {read missing low high value n : Nat}

/-- The last byte of a sequence. -/
theorem step_last (hn : n < 0x40) (hlow : low ≤ 0x80 + n) (hhigh : 0x80 + n ≤ high) :
    (within lead read 1 low high value).step (UInt8.ofNat (0x80 + n)) =
      .complete (Char.ofNat (value * 0x40 + n)) := by
  simp only [step, toNat_ofNat (show 0x80 + n < 0x100 by omega)]
  rw [if_neg (by omega), if_pos (Nat.le_refl 1), Nat.add_sub_cancel_left]

/-- A byte of a sequence that is not the last one, and not the second one of a surrogate. -/
theorem step_inner (hmissing : 2 ≤ missing) (hn : n < 0x40) (hlow : low ≤ 0x80 + n)
    (hhigh : 0x80 + n ≤ high) (hplain : ¬ (lead = 0xed ∧ read = 1 ∧ 0x20 ≤ n)) :
    (within lead read missing low high value).step (UInt8.ofNat (0x80 + n)) =
      .await (within lead (read + 1) (missing - 1) 0x80 0xbf (value * 0x40 + n)) := by
  simp only [step, toNat_ofNat (show 0x80 + n < 0x100 by omega)]
  rw [if_neg (by omega), if_neg (by omega), if_neg, Nat.add_sub_cancel_left]
  rintro ⟨hlead, hread, hsurrogate⟩
  exact hplain ⟨hlead, hread, by omega⟩

end Progress

section Scan

variable {progress next : Progress} {b : UInt8} {c : Char}

theorem scan_cons_complete (h : progress.step b = .complete c) (offset : Nat)
    (bytes : List UInt8) :
    scan progress offset (b :: bytes) =
      (c :: (scan .between (offset + 1) bytes).1, (scan .between (offset + 1) bytes).2) := by
  simp only [scan, h]

theorem scan_cons_await (h : progress.step b = .await next) (offset : Nat)
    (bytes : List UInt8) :
    scan progress offset (b :: bytes) = scan next (offset + 1) bytes := by
  simp only [scan, h]

end Scan

/-- The bytes of a character are read as that character. -/
theorem scan_encodeChar_append (c : Char) (offset : Nat) (bytes : List UInt8) :
    scan .between offset (encodeChar c ++ bytes) =
      let rest := scan .between (offset + (encodeChar c).length) bytes
      (c :: rest.1, rest.2) := by
  have hvalid := Text.toNat_not_surrogate c
  rw [encodeChar]
  generalize hn : c.toNat = n at hvalid ⊢
  have hc : Char.ofNat n = c := by rw [← hn, Char.ofNat_toNat]
  dsimp only
  split_ifs with h₁ h₂ h₃
  · rw [List.singleton_append, scan_cons_complete (Progress.step_one h₁), hc]
    rfl
  · have hvalue : n / 0x40 * 0x40 + n % 0x40 = n := Nat.div_add_mod' n 0x40
    rw [List.cons_append, List.singleton_append,
      scan_cons_await (Progress.step_two (by omega) (by omega)),
      scan_cons_complete (Progress.step_last (by omega) (by omega) (by omega)), hvalue, hc]
    rfl
  · have hvalue : (n / 0x1000 * 0x40 + n / 0x40 % 0x40) * 0x40 + n % 0x40 = n := by omega
    -- With the lead ED, a second byte from A0 on would make a surrogate.
    have hplain : ¬ (UInt8.ofNat (0xe0 + n / 0x1000) = 0xed ∧ 1 = 1 ∧ 0x20 ≤ n / 0x40 % 0x40) := by
      rintro ⟨hlead, -, hsecond⟩
      have hlead := Progress.eq_of_ofNat_eq (n := 0xed) hlead (by omega) (by omega)
      omega
    rw [List.cons_append, List.cons_append, List.singleton_append,
      scan_cons_await (Progress.step_three (by omega)),
      scan_cons_await (Progress.step_inner (Nat.le_refl 2) (by omega) (by split <;> omega)
        (by omega) hplain),
      scan_cons_complete (Progress.step_last (by omega) (by omega) (by omega)), hvalue, hc]
    rfl
  · have hvalue : ((n / 0x40000 * 0x40 + n / 0x1000 % 0x40) * 0x40 + n / 0x40 % 0x40) * 0x40 +
        n % 0x40 = n := by omega
    have hplain : ∀ read d, ¬ (UInt8.ofNat (0xf0 + n / 0x40000) = 0xed ∧ read = 1 ∧ 0x20 ≤ d) := by
      rintro read d ⟨hlead, -, -⟩
      have hlead := Progress.eq_of_ofNat_eq (n := 0xed) hlead (by omega) (by omega)
      omega
    rw [List.cons_append, List.cons_append, List.cons_append, List.singleton_append,
      scan_cons_await (Progress.step_four (by omega)),
      scan_cons_await (Progress.step_inner (by omega) (by omega) (by split <;> omega)
        (by split <;> omega) (hplain _ _)),
      scan_cons_await (Progress.step_inner (Nat.le_refl 2) (by omega) (by omega) (by omega)
        (hplain _ _)),
      scan_cons_complete (Progress.step_last (by omega) (by omega) (by omega)), hvalue, hc]
    rfl

/-- The bytes of a text are read as that text. -/
theorem scan_encode (text : List Char) (offset : Nat) :
    scan .between offset (encode text) = (text, .ok .between) := by
  induction text generalizing offset with
  | nil => rfl
  | cons c text ih =>
    rw [encode, List.flatMap_cons, scan_encodeChar_append, ← encode, ih]

/-- The bytes of a text are the bytes of that text alone. -/
theorem decode_encode (text : List Char) : decode (encode text) = .ok text := by
  rw [decode, scan_encode]
  rfl

/-! ### Blocks -/

variable {progress next : Progress} {text : List Char}

/-- Without a fault, positions do not matter. -/
theorem scan_eq_of_ok {offset : Nat} {bytes : List UInt8}
    (h : scan progress offset bytes = (text, .ok next)) (offset' : Nat) :
    scan progress offset' bytes = (text, .ok next) := by
  induction bytes generalizing progress offset offset' text with
  | nil => exact h
  | cons b bytes ih =>
    cases hstep : progress.step b with
    | complete c =>
      rw [scan_cons_complete hstep] at h ⊢
      obtain ⟨htext, hnext⟩ := Prod.mk.inj h
      rw [ih (Prod.ext rfl hnext) (offset' + 1), htext]
    | await progress =>
      rw [scan_cons_await hstep] at h ⊢
      exact ih h (offset' + 1)
    | refuse width byte reason => simp [scan, hstep] at h

/-- Bytes that are read without a fault are read in blocks. -/
theorem decodeBlocks_eq_of_scan {offset : Nat} {blocks : List (List UInt8)}
    (h : scan progress offset blocks.flatten = (text, .ok next)) :
    decodeBlocks progress blocks = (text, next.faultAtEnd next.held) := by
  induction blocks generalizing progress offset text with
  | nil =>
    obtain ⟨rfl, hnext⟩ := Prod.mk.inj h
    cases hnext
    rfl
  | cons block blocks ih =>
    rw [List.flatten_cons, scan_append] at h
    rw [decodeBlocks]
    rcases hblock : scan progress offset block with ⟨head, fault | middle⟩
    · simp [hblock] at h
    · simp only [hblock, Prod.mk.injEq] at h
      obtain ⟨rfl, hnext⟩ := h
      rw [scan_eq_of_ok hblock]
      simp only [ih (Prod.ext rfl hnext)]

theorem flatten_blocks {size : Nat} (hsize : 0 < size) (bytes : List UInt8) :
    (blocks size bytes).flatten = bytes := by
  induction bytes using blocks.induct size with
  | case1 bytes h =>
    rw [blocks, dif_pos h, h.resolve_left (by omega)]
    rfl
  | case2 bytes h ih =>
    rw [blocks, dif_neg h, List.flatten_cons, ih, List.take_append_drop]

/-- **The bytes of a text in blocks.** However large the blocks are, they are read as the text. -/
theorem decodeBlocks_blocks_encode {size : Nat} (hsize : 0 < size) (text : List Char) :
    decodeBlocks .between (blocks size (encode text)) = (text, none) := by
  have hscan : scan .between 0 (blocks size (encode text)).flatten = (text, .ok .between) := by
    rw [flatten_blocks hsize, scan_encode]
  rw [decodeBlocks_eq_of_scan hscan]
  rfl

end TokenGrammar.Utf8
