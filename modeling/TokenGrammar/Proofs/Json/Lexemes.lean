import Mathlib.Data.List.Basic
import Mathlib.Tactic.SplitIfs
import TokenGrammar.Json.Printer
import TokenGrammar.Json.Reader

/-!
# Written lexemes are read

What is written of a value is a sequence of lexemes with blanks between them, and each of them is
read as what was written, whatever follows it. For a text the reason is that each of its characters
is one escape or stands for itself, and that the code units that are read for it are the ones it
has. For an integer the reason is that all its digits are taken; what follows must not be a part of
a numeral then.

## Main definitions

* `Json.Reads` — some characters are one lexeme
* `Json.EndsNumeral` — a text in which no numeral goes on
* `Json.IsWhole` — digits that are the whole part of a numeral

## Main results

* `scanString_escapeChar` — a character inside a text is read back
* `reads_writeString` — a text between its quotes is read as that text
* `IsWhole.reads`, `IsWhole.reads_negative` — an integer is read with all its digits
* `isWhole_toDigits` — decimal digits are written without zeros in front
-/

namespace TokenGrammar.Json

variable {rest chars : List Char} {units : List Nat} {lexeme : Lexeme} {c : Char}

/-- In front of some text, these characters are one lexeme. -/
def Reads (chars : List Char) (lexeme : Lexeme) (rest : List Char) : Prop :=
  ∀ offset, lexemes offset (chars ++ rest) =
    ⟨offset, lexeme⟩ :: lexemes (offset + chars.length) rest

theorem Reads.of_readLexeme (hspace : isSpace c = false) (hlast : lexeme.isLast = false)
    (hread : readLexeme c (chars ++ rest) = (lexeme, chars.length)) :
    Reads (c :: chars) lexeme rest := by
  intro offset
  have hwidth : offset + 1 + chars.length = offset + (c :: chars).length := by
    rw [List.length_cons]
    omega
  rw [List.cons_append, lexemes, if_neg (by simp [hspace])]
  simp only [hread, hlast, List.drop_left, hwidth, Bool.false_eq_true, if_false]

/-- Blanks are no lexemes. -/
theorem lexemes_append_of_spaces {spaces : List Char} (h : ∀ c ∈ spaces, isSpace c = true)
    (offset : Nat) (rest : List Char) :
    lexemes offset (spaces ++ rest) = lexemes (offset + spaces.length) rest := by
  induction spaces generalizing offset with
  | nil => rfl
  | cons c spaces ih =>
    rw [List.cons_append, lexemes, if_pos (h c List.mem_cons_self),
      ih (fun d hd => h d (List.mem_cons_of_mem c hd)), List.length_cons, Nat.add_assoc,
      Nat.add_comm 1]

/-! ### Texts -/

@[simp] theorem length_escapeUnit (u : Nat) : (escapeUnit u).length = 6 := rfl

theorem hexNumeral_four (u : Nat) :
    Text.hexNumeral 4 u = [Text.hexDigit (u / 16 / 16 / 16 % 16), Text.hexDigit (u / 16 / 16 % 16),
      Text.hexDigit (u / 16 % 16), Text.hexDigit (u % 16)] := rfl

theorem codeUnit?_hexDigit {u : Nat} (h : u < 0x10000) :
    codeUnit? (Text.hexDigit (u / 16 / 16 / 16 % 16)) (Text.hexDigit (u / 16 / 16 % 16))
      (Text.hexDigit (u / 16 % 16)) (Text.hexDigit (u % 16)) = some u := by
  have hvalue : ((u / 16 / 16 / 16 % 16 * 16 + u / 16 / 16 % 16) * 16 + u / 16 % 16) * 16 +
      u % 16 = u := by omega
  have hdigit (n : Nat) : Text.hexValue? (Text.hexDigit (n % 16)) = some (n % 16) :=
    Text.hexValue?_hexDigit _ (Nat.mod_lt n (by decide))
  simp only [codeUnit?, hdigit]
  exact congrArg some hvalue

theorem scanString_quote (rest : List Char) : scanString ('\x22' :: rest) = .closed [] 1 := by
  rw [scanString, if_pos rfl]
  all_goals simp

theorem scanString_plain (hslash : c ≠ '\\') (hquote : c ≠ '\x22') (hlow : 0x20 ≤ c.toNat)
    (rest : List Char) : scanString (c :: rest) = (scanString rest).cons 1 c.toNat := by
  rw [scanString, if_neg hquote, if_neg (by omega)]
  all_goals simp [hslash]

theorem scanString_short {u : Nat} (h : shortEscape? c = some u) (rest : List Char) :
    scanString ('\\' :: c :: rest) = (scanString rest).cons 2 u := by
  have hc : c ≠ 'u' := by
    rintro rfl
    cases h
  rw [scanString]
  · simp only [h]
  all_goals simp [hc]

theorem scanString_escapeUnit {u : Nat} (h : u < 0x10000) (hrest : rest ≠ []) :
    scanString (escapeUnit u ++ rest) = (scanString rest).cons 6 u := by
  rw [escapeUnit, hexNumeral_four]
  simp only [List.cons_append, List.nil_append, scanString, codeUnit?_hexDigit h]
  rw [if_neg (by simpa using hrest)]

theorem codeUnits_of_lt (h : c.toNat < 0x10000) : Text.codeUnits c = [c.toNat] := if_pos h

theorem codeUnits_lt {u : Nat} (h : u ∈ Text.codeUnits c) : u < 0x10000 := by
  have hc := Text.toNat_not_surrogate c
  simp only [Text.codeUnits] at h
  split_ifs at h with hsmall
  · obtain rfl := List.mem_singleton.mp h
    exact hsmall
  · simp only [List.mem_cons, List.not_mem_nil, or_false] at h
    omega

/-- The three forms of a character inside a text: an escape of its own, itself, or its code
units. -/
theorem escapeChar_cases (c : Char) :
    (∃ mark, shortEscape? mark = some c.toNat ∧ c.toNat < 0x80 ∧ escapeChar c = ['\\', mark]) ∨
      (c ≠ '\\' ∧ c ≠ '\x22' ∧ 0x20 ≤ c.toNat ∧ c.toNat < 0x7f ∧ escapeChar c = [c]) ∨
      escapeChar c = (Text.codeUnits c).flatMap escapeUnit := by
  unfold escapeChar
  split
  all_goals try exact .inl ⟨_, rfl, by decide, rfl⟩
  next hquote hslash _ _ _ _ _ =>
    split
    · next hgraphic => exact .inr (.inl ⟨hslash, hquote, hgraphic.1, hgraphic.2, rfl⟩)
    · exact .inr (.inr rfl)

theorem scanString_flatMap_escapeUnit (h : ∀ u ∈ units, u < 0x10000) {later : List Nat}
    {width : Nat} (hrest : scanString rest = .closed later width) :
    scanString (units.flatMap escapeUnit ++ rest) =
      .closed (units ++ later) ((units.flatMap escapeUnit).length + width) := by
  induction units with
  | nil => simpa using hrest
  | cons u units ih =>
    -- A quote closes the text, so the digits are not its last characters.
    have hne : units.flatMap escapeUnit ++ rest ≠ [] := by
      intro hnil
      rw [(List.append_eq_nil_iff.mp hnil).2] at hrest
      cases hrest
    rw [List.flatMap_cons, List.append_assoc, scanString_escapeUnit (h u List.mem_cons_self) hne,
      ih fun v hv => h v (List.mem_cons_of_mem u hv)]
    simp only [StringScan.cons, List.cons_append, List.length_append, length_escapeUnit,
      Nat.add_assoc]

/-- A character inside a text is read back, whatever closes the text later. -/
theorem scanString_escapeChar (c : Char) {later : List Nat} {width : Nat}
    (hrest : scanString rest = .closed later width) :
    scanString (escapeChar c ++ rest) =
      .closed (Text.codeUnits c ++ later) ((escapeChar c).length + width) := by
  rcases escapeChar_cases c with ⟨mark, hmark, hsmall, hform⟩ |
    ⟨hslash, hquote, hlow, hhigh, hform⟩ | hform
  · rw [hform, codeUnits_of_lt (by omega), List.cons_append, List.singleton_append,
      scanString_short hmark, hrest]
    rfl
  · rw [hform, codeUnits_of_lt (by omega), List.singleton_append,
      scanString_plain hslash hquote hlow, hrest]
    rfl
  · rw [hform, scanString_flatMap_escapeUnit (fun _ => codeUnits_lt) hrest]

theorem scanString_flatMap_escapeChar (text rest : List Char) :
    scanString (text.flatMap escapeChar ++ '\x22' :: rest) =
      .closed (text.flatMap Text.codeUnits) ((text.flatMap escapeChar).length + 1) := by
  induction text with
  | nil => exact scanString_quote rest
  | cons c text ih =>
    rw [List.flatMap_cons, List.append_assoc, scanString_escapeChar c ih, List.flatMap_cons,
      List.length_append, Nat.add_assoc]

/-- A text between its quotes is read as that text. -/
theorem reads_writeString (s : String) (rest : List Char) :
    Reads (writeString s) (.string s) rest := by
  refine .of_readLexeme rfl rfl ?_
  change readString (s.toList.flatMap escapeChar ++ ['\x22'] ++ rest) = _
  rw [readString, List.append_assoc, List.singleton_append, scanString_flatMap_escapeChar]
  simp [Text.ofCodeUnits_flatMap]

/-! ### Integers -/

/-- No numeral goes on in some text. -/
def EndsNumeral (rest : List Char) : Prop :=
  ∀ c ∈ rest.head?, c.isDigit = false ∧ c ≠ '.' ∧ c ≠ 'e' ∧ c ≠ 'E'

/-- Digits that are a number: one at least, and no zero in front of others. -/
structure IsWhole (digits : List Char) : Prop where
  ne_nil : digits ≠ []
  isDigit : ∀ c ∈ digits, c.isDigit = true
  eq_of_head_eq : digits.head? = some '0' → digits = ['0']

theorem EndsNumeral.fractionPart_eq (h : EndsNumeral rest) : fractionPart rest = [] := by
  cases rest with
  | nil => rfl
  | cons c rest =>
    rw [fractionPart]
    rintro rest' ⟨⟩
    exact (h '.' rfl).2.1 rfl

theorem EndsNumeral.exponentPart_eq (h : EndsNumeral rest) : exponentPart rest = none := by
  cases rest with
  | nil => rfl
  | cons c rest =>
    obtain ⟨-, -, hlower, hupper⟩ := h c rfl
    rw [exponentPart, if_neg (by simp [hlower, hupper])]

theorem takeWhile_isDigit_append {digits : List Char} (h : ∀ c ∈ digits, c.isDigit = true)
    (hrest : EndsNumeral rest) : (digits ++ rest).takeWhile Char.isDigit = digits := by
  rw [List.takeWhile_append_of_pos h]
  cases rest with
  | nil => simp
  | cons c rest => rw [List.takeWhile_cons_of_neg (by simp [(hrest c rfl).1]), List.append_nil]

/-- No word begins with a digit, and the one that begins with a sign goes on with a letter. -/
theorem readWord_of_isDigit (h : c.isDigit = true) (rest : List Char) :
    readWord (c :: rest) = none ∧ readWord ('-' :: c :: rest) = none := by
  have hletters : ∀ d ∈ ['n', 't', 'f', 'N', 'I', '-'], (d == c) = false := by
    intro d hd
    have hdigit : (!d.isDigit) = true :=
      List.all_eq_true.mp (show ['n', 't', 'f', 'N', 'I', '-'].all (!·.isDigit) from rfl) d hd
    rw [beq_eq_false_iff_ne]
    rintro rfl
    simp [h] at hdigit
  simp only [List.forall_mem_cons, List.not_mem_nil] at hletters
  obtain ⟨hn, ht, hf, hN, hI, hsign, -⟩ := hletters
  constructor
  · simp [readWord, words, List.isPrefixOf, hn, ht, hf, hN, hI, hsign]
  · simp [readWord, words, List.isPrefixOf, hI]

theorem isSpace_of_isDigit (h : c.isDigit = true) : isSpace c = false := by
  rw [isSpace]
  simp only [Bool.or_eq_false_iff, beq_eq_false_iff_ne]
  refine ⟨⟨⟨?_, ?_⟩, ?_⟩, ?_⟩ <;> rintro rfl <;> cases h

theorem readLexeme_of_isDigit (h : c.isDigit = true) (rest : List Char) :
    readLexeme c rest =
      match readNumber false (c :: rest) with
      | some (lexeme, width) => (lexeme, width - 1)
      | none => (.stray, 0) := by
  unfold readLexeme
  split
  case h_8 =>
    rw [(readWord_of_isDigit h rest).1]
    refine if_neg ?_
    rintro rfl
    cases h
  all_goals cases h

namespace IsWhole

variable {digits : List Char}

theorem wholePart_append (h : IsWhole digits) (hrest : EndsNumeral rest) :
    wholePart (digits ++ rest) = digits := by
  obtain ⟨c, digits, rfl⟩ := List.exists_cons_of_ne_nil h.ne_nil
  rw [List.cons_append, wholePart]
  by_cases hzero : c = '0'
  · subst hzero
    rw [if_pos rfl, h.eq_of_head_eq rfl]
  · rw [if_neg hzero, if_pos (h.isDigit c List.mem_cons_self),
      takeWhile_isDigit_append (fun d hd => h.isDigit d (List.mem_cons_of_mem c hd)) hrest]

theorem readNumber_append (h : IsWhole digits) (hrest : EndsNumeral rest) (negative : Bool) :
    readNumber negative (digits ++ rest) = some (.integer negative digits, digits.length) := by
  have hne : digits.isEmpty = false := by simpa using h.ne_nil
  simp [readNumber, h.wholePart_append hrest, hne, hrest.fractionPart_eq, hrest.exponentPart_eq]

/-- An integer is read with all its digits. -/
theorem reads (h : IsWhole digits) (hrest : EndsNumeral rest) :
    Reads digits (.integer false digits) rest := by
  have hread := h.readNumber_append hrest false
  obtain ⟨c, tail, rfl⟩ := List.exists_cons_of_ne_nil h.ne_nil
  have hc : c.isDigit = true := h.isDigit c List.mem_cons_self
  refine .of_readLexeme (isSpace_of_isDigit hc) rfl ?_
  rw [readLexeme_of_isDigit hc, ← List.cons_append, hread]
  rfl

/-- An integer after a sign is read with all its digits. -/
theorem reads_negative (h : IsWhole digits) (hrest : EndsNumeral rest) :
    Reads ('-' :: digits) (.integer true digits) rest := by
  have hread := h.readNumber_append hrest true
  obtain ⟨c, tail, rfl⟩ := List.exists_cons_of_ne_nil h.ne_nil
  have hword := (readWord_of_isDigit (h.isDigit c List.mem_cons_self) (tail ++ rest)).2
  refine .of_readLexeme rfl rfl ?_
  change (match readWord ('-' :: (c :: tail ++ rest)) with
    | some (lexeme, width) => (lexeme, width - 1)
    | none => (readNumber true (c :: tail ++ rest)).getD (.stray, 0)) = _
  rw [List.cons_append, hword, ← List.cons_append, hread]
  rfl

end IsWhole

theorem toList_toString_ofNat (n : Nat) : (toString (Int.ofNat n)).toList = Nat.toDigits 10 n :=
  String.toList_ofList

theorem toList_toString_negSucc (n : Nat) :
    (toString (Int.negSucc n)).toList = '-' :: Nat.toDigits 10 (n + 1) := by
  change ("-" ++ String.ofList (Nat.toDigits 10 (n + 1))).toList = _
  simp

/-- Decimal digits are written without zeros in front. -/
theorem isWhole_toDigits (n : Nat) : IsWhole (Nat.toDigits 10 n) where
  ne_nil := Nat.toDigits_ne_nil
  isDigit := fun _ => Nat.isDigit_of_mem_toDigits (by decide) (by decide)
  eq_of_head_eq := by
    induction n using Nat.strongRecOn with
    | ind n ih =>
      rcases Nat.lt_or_ge n 10 with hsmall | hlarge
      · rw [Nat.toDigits_of_lt_base hsmall]
        simp
      · rw [Nat.toDigits_of_base_le (by decide) hlarge,
          List.head?_append_of_ne_nil _ Nat.toDigits_ne_nil]
        intro h
        -- The digits before the last one would be a single zero, but their value is not zero.
        have hvalue := digitsValue_toDigits (n / 10)
        rw [ih (n / 10) (by omega) h] at hvalue
        have hzero : digitsValue ['0'] = 0 := rfl
        omega

end TokenGrammar.Json
