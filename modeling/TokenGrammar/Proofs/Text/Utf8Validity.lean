import TokenGrammar.Proofs.Text.Utf8

/-!
# Only UTF-8 is decoded

What has been read of bytes is always the bytes of the characters that are complete, and then the
bytes of an unfinished sequence. Which bytes these are is told by the progress: the lead and the
number that the others make up. A byte that is accepted either extends them or completes the bytes
of a character, so all that is ever decoded is decoded from the very bytes that it is encoded to.

## Main definitions

* `Utf8.Pending` — the bytes of an unfinished sequence

## Main results

* `Pending.step` — the effect of one byte on them
* `Pending.scan` — what is read of some bytes are the bytes of the text, and those of an unfinished
  sequence
* `decode_eq_ok_iff` — bytes are decoded exactly if they are the bytes of a text
* `Pending.decodeBlocks` — the same for bytes that are decoded block by block
* `isValidUTF8_iff` — the same bytes are valid for the standard library
-/

namespace TokenGrammar.Utf8

/-- The bytes that have been read of an unfinished sequence. Those of a surrogate are never
completed, so it does not matter which they are. -/
inductive Pending : Progress → List UInt8 → Prop
  | between : Pending .between []
  /-- The lead of two bytes; with 0 and 1 the form would be overlong. -/
  | two {n : Nat} (hlow : 2 ≤ n) (hhigh : n < 0x20) :
    Pending (.within (UInt8.ofNat (0xc0 + n)) 1 1 0x80 0xbf n) [UInt8.ofNat (0xc0 + n)]
  /-- The lead of three bytes. -/
  | three {n : Nat} (hhigh : n < 0x10) :
    Pending (.within (UInt8.ofNat (0xe0 + n)) 1 2 (if n = 0 then 0xa0 else 0x80) 0xbf n)
      [UInt8.ofNat (0xe0 + n)]
  /-- Two of three bytes, no overlong form and no surrogate. -/
  | threeInner {n : Nat} (hlow : 0x20 ≤ n) (hhigh : n < 0x400) (hplain : n < 0x360 ∨ 0x380 ≤ n) :
    Pending (.within (UInt8.ofNat (0xe0 + n / 0x40)) 2 1 0x80 0xbf n)
      [UInt8.ofNat (0xe0 + n / 0x40), UInt8.ofNat (0x80 + n % 0x40)]
  /-- The lead of four bytes. -/
  | four {n : Nat} (hhigh : n < 5) :
    Pending (.within (UInt8.ofNat (0xf0 + n)) 1 3 (if n = 0 then 0x90 else 0x80)
      (if n = 4 then 0x8f else 0xbf) n) [UInt8.ofNat (0xf0 + n)]
  /-- Two of four bytes, no overlong form and nothing beyond the last character. -/
  | fourInner {n : Nat} (hlow : 0x10 ≤ n) (hhigh : n < 0x110) :
    Pending (.within (UInt8.ofNat (0xf0 + n / 0x40)) 2 2 0x80 0xbf n)
      [UInt8.ofNat (0xf0 + n / 0x40), UInt8.ofNat (0x80 + n % 0x40)]
  /-- Three of four bytes. -/
  | fourLast {n : Nat} (hlow : 0x400 ≤ n) (hhigh : n < 0x4400) :
    Pending (.within (UInt8.ofNat (0xf0 + n / 0x1000)) 3 1 0x80 0xbf n)
      [UInt8.ofNat (0xf0 + n / 0x1000), UInt8.ofNat (0x80 + n / 0x40 % 0x40),
        UInt8.ofNat (0x80 + n % 0x40)]
  | surrogate (held : List UInt8) : Pending .surrogate held

/-- What a byte makes of the bytes of an unfinished sequence: those of another one, or of a
character. -/
def Extends (held : List UInt8) : Progress.Step → Prop
  | .complete c => encodeChar c = held
  | .await progress => Pending progress held
  | .refuse _ _ _ => True

/-! ### The bytes of a number -/

theorem toNat_ofNat {n : Nat} (h : n < 0xd800 ∨ 0xdfff < n ∧ n < 0x110000) :
    (Char.ofNat n).toNat = n := by
  have hvalid : n.isValidChar := h
  rw [Char.ofNat, dif_pos hvalid]
  rfl

theorem encodeChar_one {n : Nat} (h : n < 0x80) :
    encodeChar (Char.ofNat n) = [UInt8.ofNat n] := by
  rw [encodeChar, toNat_ofNat (.inl (by omega))]
  exact if_pos h

theorem encodeChar_two {n : Nat} (hlow : 0x80 ≤ n) (hhigh : n < 0x800) :
    encodeChar (Char.ofNat n) = [UInt8.ofNat (0xc0 + n / 0x40), UInt8.ofNat (0x80 + n % 0x40)] := by
  rw [encodeChar, toNat_ofNat (.inl (by omega))]
  rw [if_neg (by omega), if_pos hhigh]

theorem encodeChar_three {n : Nat} (hlow : 0x800 ≤ n) (hhigh : n < 0x10000)
    (hplain : n < 0xd800 ∨ 0xdfff < n) :
    encodeChar (Char.ofNat n) = [UInt8.ofNat (0xe0 + n / 0x1000),
      UInt8.ofNat (0x80 + n / 0x40 % 0x40), UInt8.ofNat (0x80 + n % 0x40)] := by
  rw [encodeChar, toNat_ofNat (by omega)]
  rw [if_neg (by omega), if_neg (by omega), if_pos hhigh]

theorem encodeChar_four {n : Nat} (hlow : 0x10000 ≤ n) (hhigh : n < 0x110000) :
    encodeChar (Char.ofNat n) = [UInt8.ofNat (0xf0 + n / 0x40000),
      UInt8.ofNat (0x80 + n / 0x1000 % 0x40), UInt8.ofNat (0x80 + n / 0x40 % 0x40),
      UInt8.ofNat (0x80 + n % 0x40)] := by
  rw [encodeChar, toNat_ofNat (.inr (by omega))]
  rw [if_neg (by omega), if_neg (by omega), if_neg (by omega)]

/-! ### One byte -/

section SixBits

variable {n d : Nat} (hd : d < 0x40)

include hd

/-- Six bits that have been added to a number are taken away again. -/
theorem div_of_sixBits : (n * 0x40 + d) / 0x40 = n := by omega

theorem mod_of_sixBits : (n * 0x40 + d) % 0x40 = d := by omega

theorem div_div_of_sixBits : (n * 0x40 + d) / 0x1000 = n / 0x40 := by omega

theorem div_div_div_of_sixBits : (n * 0x40 + d) / 0x40000 = n / 0x1000 := by omega

end SixBits

theorem exists_eq_ofNat (b : UInt8) : ∃ n < 0x100, b = UInt8.ofNat n :=
  ⟨b.toNat, b.toNat_lt, by simp⟩

/-- A byte between sequences is a character or a lead. -/
theorem extends_start (b : UInt8) : Extends [b] (Progress.start b) := by
  obtain ⟨n, hn, rfl⟩ := exists_eq_ofNat b
  simp only [Progress.start, Progress.toNat_ofNat hn]
  -- The ranges of the second byte are read off by the number that the lead holds.
  split
  · next h => exact encodeChar_one h
  split
  · trivial
  split
  · obtain ⟨m, rfl⟩ : ∃ m, n = 0xc0 + m := ⟨n - 0xc0, by omega⟩
    rw [Nat.add_sub_cancel_left]
    exact .two (by omega) (by omega)
  split
  · obtain ⟨m, rfl⟩ : ∃ m, n = 0xe0 + m := ⟨n - 0xe0, by omega⟩
    have hfirst : 0xe0 + m = 0xe0 ↔ m = 0 := by omega
    simp only [Nat.add_sub_cancel_left, hfirst]
    exact .three (by omega)
  split
  · obtain ⟨m, rfl⟩ : ∃ m, n = 0xf0 + m := ⟨n - 0xf0, by omega⟩
    have hfirst : 0xf0 + m = 0xf0 ↔ m = 0 := by omega
    have hlast : 0xf0 + m = 0xf4 ↔ m = 4 := by omega
    simp only [Nat.add_sub_cancel_left, hfirst, hlast]
    exact .four (by omega)
  · trivial

section Within

variable {lead : UInt8} {read missing low high value : Nat} {held : List UInt8}

/-- A byte inside a sequence is refused, or it is in the range and adds six bits. -/
theorem step_within_cases (hlow : 0x80 ≤ low) (b : UInt8) :
    (Progress.within lead read missing low high value).step b =
        .refuse read lead .invalidContinuation ∨
      ∃ d, low ≤ 0x80 + d ∧ 0x80 + d ≤ high ∧ b = UInt8.ofNat (0x80 + d) ∧
        (Progress.within lead read missing low high value).step b =
          if missing ≤ 1 then .complete (Char.ofNat (value * 0x40 + d))
          else if lead = 0xed ∧ read = 1 ∧ 0xa0 ≤ 0x80 + d then .await .surrogate
          else .await (.within lead (read + 1) (missing - 1) 0x80 0xbf (value * 0x40 + d)) := by
  obtain ⟨n, hn, rfl⟩ := exists_eq_ofNat b
  simp only [Progress.step, Progress.toNat_ofNat hn]
  by_cases hrange : n < low ∨ high < n
  · exact .inl (if_pos hrange)
  · obtain ⟨d, rfl⟩ : ∃ d, n = 0x80 + d := ⟨n - 0x80, by omega⟩
    rw [if_neg hrange, Nat.add_sub_cancel_left]
    exact .inr ⟨d, by omega, by omega, rfl, rfl⟩

/-- The last byte of a sequence. -/
theorem extends_last (hlow : 0x80 ≤ low) (b : UInt8)
    (h : ∀ d, low ≤ 0x80 + d → 0x80 + d ≤ high →
      encodeChar (Char.ofNat (value * 0x40 + d)) = held ++ [UInt8.ofNat (0x80 + d)]) :
    Extends (held ++ [b]) ((Progress.within lead read 1 low high value).step b) := by
  rcases step_within_cases hlow b with hstep | ⟨d, hlow', hhigh, rfl, hstep⟩
  · rw [hstep]
    trivial
  · rw [hstep, if_pos (Nat.le_refl 1)]
    exact h d hlow' hhigh

/-- A byte of a sequence that is not the last one. -/
theorem extends_inner (hmissing : 2 ≤ missing) (hlow : 0x80 ≤ low) (b : UInt8)
    (h : ∀ d, low ≤ 0x80 + d → 0x80 + d ≤ high → ¬ (lead = 0xed ∧ read = 1 ∧ 0xa0 ≤ 0x80 + d) →
      Pending (.within lead (read + 1) (missing - 1) 0x80 0xbf (value * 0x40 + d))
        (held ++ [UInt8.ofNat (0x80 + d)])) :
    Extends (held ++ [b]) ((Progress.within lead read missing low high value).step b) := by
  rcases step_within_cases hlow b with hstep | ⟨d, hlow', hhigh, rfl, hstep⟩
  · rw [hstep]
    trivial
  · rw [hstep, if_neg (by omega)]
    split_ifs with hsurrogate
    · exact .surrogate _
    · exact h d hlow' hhigh hsurrogate

end Within

/-- One more byte of a sequence extends what has been read of it. -/
theorem Pending.step {progress : Progress} {held : List UInt8} (h : Pending progress held)
    (b : UInt8) : Extends (held ++ [b]) (progress.step b) := by
  cases h with
  | between => exact extends_start b
  | @two n hlow hhigh =>
    refine extends_last (Nat.le_refl _) b fun d _ hhigh' => ?_
    have hd : d < 0x40 := by omega
    rw [encodeChar_two (by omega) (by omega), div_of_sixBits hd, mod_of_sixBits hd]
    rfl
  | @three n hhigh =>
    refine extends_inner (Nat.le_refl 2) (by split <;> omega) b fun d hlow hhigh' hplain => ?_
    have hd : d < 0x40 := by omega
    -- Only the lead 0xed has surrogates, and they are the numbers that are left out here.
    have hlead : n * 0x40 + d < 0x360 ∨ 0x380 ≤ n * 0x40 + d := by
      by_cases hed : n = 0xd
      · subst hed
        exact .inl (Nat.lt_of_not_le fun hle => hplain ⟨rfl, rfl, by omega⟩)
      · omega
    have hpending := Pending.threeInner (n := n * 0x40 + d) (by split at hlow <;> omega)
      (by omega) hlead
    rwa [div_of_sixBits hd, mod_of_sixBits hd] at hpending
  | @threeInner n hlow hhigh hplain =>
    refine extends_last (Nat.le_refl _) b fun d _ hhigh' => ?_
    have hd : d < 0x40 := by omega
    rw [encodeChar_three (by omega) (by omega) (by omega), div_div_of_sixBits hd,
      div_of_sixBits hd, mod_of_sixBits hd]
    rfl
  | @four n hhigh =>
    refine extends_inner (by omega) (by split <;> omega) b fun d hlow hhigh' _ => ?_
    have hd : d < 0x40 := by split at hhigh' <;> omega
    have hpending := Pending.fourInner (n := n * 0x40 + d) (by split at hlow <;> omega)
      (by split at hhigh' <;> omega)
    rwa [div_of_sixBits hd, mod_of_sixBits hd] at hpending
  | @fourInner n hlow hhigh =>
    refine extends_inner (Nat.le_refl 2) (Nat.le_refl _) b fun d _ hhigh' _ => ?_
    have hd : d < 0x40 := by omega
    have hpending := Pending.fourLast (n := n * 0x40 + d) (by omega) (by omega)
    rwa [div_div_of_sixBits hd, div_of_sixBits hd, mod_of_sixBits hd] at hpending
  | @fourLast n hlow hhigh =>
    refine extends_last (Nat.le_refl _) b fun d _ hhigh' => ?_
    have hd : d < 0x40 := by omega
    rw [encodeChar_four (by omega) (by omega), div_div_div_of_sixBits hd, div_div_of_sixBits hd,
      div_of_sixBits hd, mod_of_sixBits hd]
    rfl
  | surrogate => trivial

/-! ### Many bytes -/

section Scan

variable {progress : Progress} {held bytes : List UInt8} {text : List Char}

/-- What is read of some bytes: a text, whose bytes stand at their head, and without a fault what
follows them is an unfinished sequence. -/
theorem Pending.scan (h : Pending progress held) (offset : Nat) (bytes : List UInt8) :
    match scan progress offset bytes with
    | (text, .ok next) => ∃ rest, held ++ bytes = encode text ++ rest ∧ Pending next rest
    | (text, .error _) => encode text <+: held ++ bytes := by
  induction bytes generalizing progress held offset with
  | nil => exact ⟨held, List.append_nil held, h⟩
  | cons b bytes ih =>
    have hstep := h.step b
    have happend : held ++ b :: bytes = (held ++ [b]) ++ bytes := by simp
    cases hb : progress.step b with
    | await next =>
      rw [hb] at hstep
      rw [scan_cons_await hb, happend]
      exact ih hstep (offset + 1)
    | refuse width byte reason =>
      simp only [Utf8.scan, hb]
      exact List.nil_prefix
    | complete c =>
      rw [hb] at hstep
      have hchar : encodeChar c = held ++ [b] := hstep
      have hrest := ih .between (offset + 1)
      rw [scan_cons_complete hb, happend, ← hchar]
      rcases hscan : Utf8.scan .between (offset + 1) bytes with ⟨text, fault | next⟩
      · rw [hscan] at hrest
        exact (List.prefix_append_right_inj _).mpr hrest
      · rw [hscan] at hrest
        obtain ⟨rest, hbytes, hnext⟩ := hrest
        refine ⟨rest, ?_, hnext⟩
        rw [List.nil_append] at hbytes
        rw [hbytes, encode, encode, List.flatMap_cons, List.append_assoc]

/-- Only between sequences bytes may end. -/
theorem eq_between_of_faultAtEnd {offset : Nat} (h : progress.faultAtEnd offset = none) :
    progress = .between := by
  cases progress with
  | between => rfl
  | within => cases h
  | surrogate => cases h

theorem encode_eq_of_decode (h : decode bytes = .ok text) : encode text = bytes := by
  have hscan := Pending.between.scan 0 bytes
  rw [decode] at h
  split at h
  · cases h
  · next text' progress hok =>
    rw [hok] at hscan
    obtain ⟨rest, hbytes, hrest⟩ := hscan
    split at h
    · next hend =>
      cases h
      rw [eq_between_of_faultAtEnd hend] at hrest
      cases hrest
      rw [List.nil_append, List.append_nil] at hbytes
      exact hbytes.symm
    · cases h

/-- **Only UTF-8 is decoded.** Bytes are decoded as a text exactly if they are its bytes. -/
theorem decode_eq_ok_iff : decode bytes = .ok text ↔ bytes = encode text :=
  ⟨fun h => (encode_eq_of_decode h).symm, fun h => h ▸ decode_encode text⟩

theorem encode_append (text more : List Char) :
    encode (text ++ more) = encode text ++ encode more :=
  List.flatMap_append

/-- Blocks are decoded to a text whose bytes they hold; without a fault they hold nothing else. -/
theorem Pending.decodeBlocks (h : Pending progress held) (blocks : List (List UInt8)) :
    match decodeBlocks progress blocks with
    | (text, none) => encode text = held ++ blocks.flatten
    | (text, some _) => encode text <+: held ++ blocks.flatten := by
  induction blocks generalizing progress held with
  | nil =>
    rw [Utf8.decodeBlocks]
    cases hend : progress.faultAtEnd progress.held with
    | some fault => exact List.nil_prefix
    | none =>
      rw [eq_between_of_faultAtEnd hend] at h
      cases h
      rfl
  | cons block blocks ih =>
    have hscan := h.scan progress.held block
    rw [Utf8.decodeBlocks, List.flatten_cons]
    rcases hblock : Utf8.scan progress progress.held block with ⟨text, fault | next⟩
    · exact List.nil_prefix
    · rw [hblock] at hscan
      obtain ⟨rest, hbytes, hnext⟩ := hscan
      have hlater := ih hnext
      rw [← List.append_assoc, hbytes, List.append_assoc]
      rcases hnone : Utf8.decodeBlocks next blocks with ⟨later, _ | fault⟩
      · rw [hnone] at hlater
        simp only [hnone, encode_append, hlater]
      · rw [hnone] at hlater
        simpa only [hnone, encode_append] using (List.prefix_append_right_inj _).mpr hlater

end Scan

/-- Valid bytes, for the standard library, are those of a text. -/
theorem isValidUTF8_iff (bytes : List UInt8) :
    (ByteArray.mk bytes.toArray).IsValidUTF8 ↔ ∃ text, bytes = encode text := by
  have hencode (text : List Char) : text.utf8Encode = ⟨(encode text).toArray⟩ := by
    rw [List.utf8Encode, encode, funext encodeChar_eq]
    exact ByteArray.ext (Array.ext' (by rw [List.data_toByteArray]))
  constructor
  · rintro ⟨text, htext⟩
    rw [hencode] at htext
    exact ⟨text, by simpa using htext⟩
  · rintro ⟨text, htext⟩
    exact ⟨text, by rw [hencode, htext]⟩

end TokenGrammar.Utf8
