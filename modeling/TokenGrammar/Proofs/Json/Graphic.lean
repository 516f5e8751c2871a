import TokenGrammar.Proofs.Json.Lexemes

/-!
# JSON is written in graphic ASCII

All that is written of a value is graphic characters of ASCII, spaces and newlines: a character of a
text that is none of these is escaped, and escapes, numerals, words and brackets are graphic
themselves. So the text of a value has one byte for each character, and no line break but newlines.

## Main definitions

* `Json.IsGraphic` — the characters that occur

## Main results

* `graphic_writeString` — a text between its quotes
* `graphic_write` — a value in any layout
-/

namespace TokenGrammar.Json

/-- A graphic character of ASCII, a space or a newline. -/
def IsGraphic (c : Char) : Prop := c = '\n' ∨ 0x20 ≤ c.toNat ∧ c.toNat < 0x7f

instance (c : Char) : Decidable (IsGraphic c) :=
  inferInstanceAs (Decidable (c = '\n' ∨ 0x20 ≤ c.toNat ∧ c.toNat < 0x7f))

variable {c : Char} {digits : List Char}

/-- Characters that are written out are graphic when each of them is found to be. -/
theorem graphic_of_all {text : List Char} (h : text.all (IsGraphic ·) = true) :
    ∀ c ∈ text, IsGraphic c := by
  simpa using h

theorem IsGraphic.lt (h : IsGraphic c) : c.toNat < 0x80 := by
  rcases h with rfl | h
  · decide
  · omega

/-! ### Texts -/

theorem isGraphic_hexDigit (n : Nat) : IsGraphic (Text.hexDigit (n % 16)) := by
  have hall : ∀ n < 16, IsGraphic (Text.hexDigit n) := by decide
  exact hall _ (Nat.mod_lt n (by decide))

theorem isGraphic_of_shortEscape? {u : Nat} (h : shortEscape? c = some u) : IsGraphic c := by
  unfold shortEscape? at h
  split at h
  case h_9 => cases h
  all_goals decide

theorem graphic_escapeUnit (u : Nat) : ∀ c ∈ escapeUnit u, IsGraphic c := by
  rw [escapeUnit, hexNumeral_four]
  simp only [List.forall_mem_cons]
  exact ⟨by decide, by decide, isGraphic_hexDigit _, isGraphic_hexDigit _, isGraphic_hexDigit _,
    isGraphic_hexDigit _, List.forall_mem_nil _⟩

theorem graphic_escapeChar (c : Char) : ∀ d ∈ escapeChar c, IsGraphic d := by
  rcases escapeChar_cases c with ⟨mark, hmark, -, hform⟩ | ⟨-, -, hlow, hhigh, hform⟩ | hform
  · rw [hform, List.forall_mem_cons, List.forall_mem_singleton]
    exact ⟨by decide, isGraphic_of_shortEscape? hmark⟩
  · rw [hform, List.forall_mem_singleton]
    exact .inr ⟨hlow, hhigh⟩
  · intro d hd
    rw [hform] at hd
    obtain ⟨u, -, hu⟩ := List.mem_flatMap.mp hd
    exact graphic_escapeUnit u d hu

/-- A text between its quotes is graphic, whatever characters it has. -/
theorem graphic_writeString (s : String) : ∀ c ∈ writeString s, IsGraphic c := by
  rw [writeString, List.forall_mem_append, List.forall_mem_cons, List.forall_mem_singleton]
  refine ⟨⟨by decide, fun d hd => ?_⟩, by decide⟩
  obtain ⟨c, -, hc⟩ := List.mem_flatMap.mp hd
  exact graphic_escapeChar c d hc

/-! ### Numbers -/

theorem isGraphic_of_isDigit (h : c.isDigit = true) : IsGraphic c := by
  simp only [Char.isDigit, Bool.and_eq_true, decide_eq_true_eq] at h
  have hlow : 0x30 ≤ c.toNat := h.1
  have hhigh : c.toNat ≤ 0x39 := h.2
  exact .inr (by omega)

theorem graphic_toDigits (n : Nat) : ∀ c ∈ Nat.toDigits 10 n, IsGraphic c := fun _ hc =>
  isGraphic_of_isDigit (Nat.isDigit_of_mem_toDigits (by decide) (by decide) hc)

theorem graphic_toString (n : Int) : ∀ c ∈ (toString n).toList, IsGraphic c := by
  match n with
  | .ofNat n =>
    rw [toList_toString_ofNat]
    exact graphic_toDigits n
  | .negSucc n =>
    rw [toList_toString_negSucc, List.forall_mem_cons]
    exact ⟨by decide, graphic_toDigits (n + 1)⟩

theorem graphic_dropFinalZeros (h : ∀ c ∈ digits, IsGraphic c) :
    ∀ c ∈ Binary64.dropFinalZeros digits, IsGraphic c := by
  intro c hc
  rw [Binary64.dropFinalZeros, List.mem_reverse] at hc
  exact h c (List.mem_reverse.mp ((List.dropWhile_sublist _).mem hc))

theorem graphic_replicate (n : Nat) : ∀ c ∈ List.replicate n '0', IsGraphic c := by
  intro c hc
  rw [(List.mem_replicate.mp hc).2]
  decide

theorem graphic_positional (h : ∀ c ∈ digits, IsGraphic c) (point : Int) :
    ∀ c ∈ Binary64.positional digits point, IsGraphic c := by
  have hzero : IsGraphic '0' := by decide
  have hpoint : IsGraphic '.' := by decide
  unfold Binary64.positional
  split
  · simp only [List.cons_append, List.forall_mem_cons, List.forall_mem_append]
    exact ⟨hzero, hpoint, graphic_replicate _, h⟩
  · simp only [List.forall_mem_cons]
    exact ⟨hzero, hpoint, h⟩
  · next k _ =>
    have htake : ∀ c ∈ digits.take k, IsGraphic c := fun c hc => h c (List.mem_of_mem_take hc)
    have hdrop : ∀ c ∈ digits.drop k, IsGraphic c := fun c hc => h c (List.mem_of_mem_drop hc)
    simp only [List.forall_mem_cons, List.forall_mem_append]
    refine ⟨⟨htake, graphic_replicate _⟩, hpoint, ?_⟩
    split
    · exact List.forall_mem_singleton.mpr hzero
    · exact hdrop

theorem graphic_exponential (h : ∀ c ∈ digits, IsGraphic c) (point : Int) :
    ∀ c ∈ Binary64.exponential digits point, IsGraphic c := by
  have hnumber := graphic_toDigits (point - 1).natAbs
  simp only [Binary64.exponential, List.forall_mem_append, List.forall_mem_cons]
  refine ⟨?_, by decide, ?_, ?_⟩
  · split
    · exact List.forall_mem_nil _
    · exact h
    · next d rest _ =>
      obtain ⟨hd, hrest⟩ := List.forall_mem_cons.mp h
      simp only [List.forall_mem_cons]
      exact ⟨hd, by decide, hrest⟩
  · split <;> decide
  · split
    · exact List.forall_mem_cons.mpr ⟨by decide, hnumber⟩
    · exact hnumber

/-- The written form of a finite number. -/
theorem graphic_text_finite (negative : Bool) (significand : Nat) (exponent : Int) :
    ∀ c ∈ (Binary64.finite negative significand exponent).text.toList, IsGraphic c := by
  let decimal := Decimal.shortest significand exponent
  have hdigits := graphic_dropFinalZeros (graphic_toDigits decimal.digits)
  have hbody : ∀ c ∈ (if significand = 0 then ['0', '.', '0']
      else if -4 < decimal.point ∧ decimal.point ≤ 16 then
        Binary64.positional (Binary64.dropFinalZeros (Nat.toDigits 10 decimal.digits)) decimal.point
      else
        Binary64.exponential (Binary64.dropFinalZeros (Nat.toDigits 10 decimal.digits))
          decimal.point), IsGraphic c := by
    split_ifs
    · exact graphic_of_all (by decide)
    · exact graphic_positional hdigits _
    · exact graphic_exponential hdigits _
  rw [Binary64.text, String.toList_ofList]
  split
  · exact List.forall_mem_cons.mpr ⟨by decide, hbody⟩
  · exact hbody

theorem graphic_writeFloat (x : Binary64) : ∀ c ∈ (writeFloat x).toList, IsGraphic c := by
  match x with
  | .nan => exact graphic_of_all (by decide)
  | .infinite true => exact graphic_of_all (by decide)
  | .infinite false => exact graphic_of_all (by decide)
  | .finite negative significand exponent =>
    exact graphic_text_finite negative significand exponent

/-! ### Layouts and values -/

theorem graphic_gap (layout : Layout) (level : Nat) : ∀ c ∈ layout.gap level, IsGraphic c := by
  cases layout with
  | inline => exact List.forall_mem_nil _
  | indented width =>
    rw [Layout.gap, List.forall_mem_cons]
    refine ⟨by decide, fun c hc => ?_⟩
    rw [(List.mem_replicate.mp hc).2]
    decide

theorem graphic_separator (layout : Layout) (level : Nat) :
    ∀ c ∈ layout.separator level, IsGraphic c := by
  cases layout with
  | inline => exact List.forall_mem_singleton.mpr (by decide)
  | indented width => exact graphic_gap (.indented width) level

mutual

/-- What is written of a value is graphic. -/
theorem graphic_write (layout : Layout) (level : Nat) (v : Json) :
    ∀ c ∈ write layout level v, IsGraphic c := by
  match v with
  | null => exact graphic_of_all (show "null".toList.all (IsGraphic ·) by decide)
  | bool true => exact graphic_of_all (show "true".toList.all (IsGraphic ·) by decide)
  | bool false => exact graphic_of_all (show "false".toList.all (IsGraphic ·) by decide)
  | int n => exact graphic_toString n
  | float x => exact graphic_writeFloat x
  | str s => exact graphic_writeString s
  | arr [] => exact graphic_of_all (show ['[', ']'].all (IsGraphic ·) by decide)
  | arr (item :: items) =>
    have hitem := graphic_write layout (level + 1) item
    have hitems := graphic_writeItems layout (level + 1) items
    simp only [write, List.cons_append, List.forall_mem_append, List.forall_mem_cons]
    refine ⟨by decide, ⟨⟨⟨?_, hitem⟩, hitems⟩, ?_⟩, by decide, List.forall_mem_nil _⟩
    all_goals exact graphic_gap layout _
  | obj [] => exact graphic_of_all (show ['\x7b', '\x7d'].all (IsGraphic ·) by decide)
  | obj ((key, value) :: members) =>
    have hvalue := graphic_write layout (level + 1) value
    have hmembers := graphic_writeMembers layout (level + 1) members
    simp only [write, List.cons_append, List.forall_mem_append, List.forall_mem_cons]
    refine ⟨by decide, ⟨⟨⟨⟨⟨?_, graphic_writeString key⟩, by decide, by decide,
      List.forall_mem_nil _⟩, hvalue⟩, hmembers⟩, ?_⟩, by decide, List.forall_mem_nil _⟩
    all_goals exact graphic_gap layout _

/-- What is written of the further items of an array is graphic. -/
theorem graphic_writeItems (layout : Layout) (level : Nat) (items : List Json) :
    ∀ c ∈ writeItems layout level items, IsGraphic c := by
  match items with
  | [] => exact List.forall_mem_nil _
  | item :: items =>
    have hitem := graphic_write layout level item
    have hitems := graphic_writeItems layout level items
    simp only [writeItems, List.cons_append, List.forall_mem_append, List.forall_mem_cons]
    exact ⟨by decide, ⟨graphic_separator layout level, hitem⟩, hitems⟩

/-- What is written of the further members of an object is graphic. -/
theorem graphic_writeMembers (layout : Layout) (level : Nat) (members : List (String × Json)) :
    ∀ c ∈ writeMembers layout level members, IsGraphic c := by
  match members with
  | [] => exact List.forall_mem_nil _
  | (key, value) :: members =>
    have hvalue := graphic_write layout level value
    have hmembers := graphic_writeMembers layout level members
    simp only [writeMembers, List.cons_append, List.forall_mem_append, List.forall_mem_cons]
    exact ⟨by decide, ⟨⟨⟨graphic_separator layout level, graphic_writeString key⟩, by decide,
      by decide, List.forall_mem_nil _⟩, hvalue⟩, hmembers⟩

end

end TokenGrammar.Json
