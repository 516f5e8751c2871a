import Mathlib.Data.List.DropRight
import TokenGrammar.Text.Blank
import TokenGrammar.Text.Lines

/-!
# Trimmed lines and their words

What is left of a line when the blanks at its two ends are taken off is empty, or it begins and ends
with a character that is not blank; and of such a line nothing more is taken off. Cut at each single
space, a line gives words without spaces, and they give the line back when they are joined by single
spaces. A space is a blank, so the first word of a trimmed line is not empty and begins as the line
does, and the last word ends as the line does; only words in between may be empty.

## Main definitions

* `Text.BeginsPlain`, `Text.EndsPlain` — the first or the last character is there and is not blank
* `Text.Plain` — both

## Main results

* `trim_eq_nil_or_plain`, `Plain.trim_eq` — what trimming leaves
* `cutAtSpaces_eq_iff` — cutting a line into words is undone by joining them
* `plain_intercalate_iff` — when a line of words is a trimmed line
-/

namespace TokenGrammar.Text

/-- The text begins with a character that is not blank. -/
def BeginsPlain (text : List Char) : Prop := ∃ c ∈ text.head?, isBlank c = false

/-- The text ends with a character that is not blank. -/
def EndsPlain (text : List Char) : Prop := ∃ c ∈ text.getLast?, isBlank c = false

/-- The text begins and ends with a character that is not blank. -/
structure Plain (text : List Char) : Prop where
  begins : BeginsPlain text
  ends : EndsPlain text

-- Decided at the one character that there may be, not by a search for it.
instance (text : List Char) : Decidable (BeginsPlain text) :=
  decidable_of_iff (text.head?.any fun c => !isBlank c) (by simp [BeginsPlain, Option.any_eq_true])

instance (text : List Char) : Decidable (EndsPlain text) :=
  decidable_of_iff (text.getLast?.any fun c => !isBlank c) (by simp [EndsPlain, Option.any_eq_true])

instance (text : List Char) : Decidable (Plain text) :=
  decidable_of_iff (BeginsPlain text ∧ EndsPlain text) ⟨fun h => ⟨h.1, h.2⟩, fun h => ⟨h.1, h.2⟩⟩

variable {text line : List Char} {words : List (List Char)}

theorem BeginsPlain.ne_nil (h : BeginsPlain text) : text ≠ [] := by
  obtain ⟨c, hc, -⟩ := h
  rintro rfl
  cases hc

theorem Plain.ne_nil (h : Plain text) : text ≠ [] := h.begins.ne_nil

/-! ### Trimming -/

theorem trimRight_eq_rdropWhile (text : List Char) : trimRight text = text.rdropWhile isBlank := rfl

theorem beginsPlain_of_prefix {longer : List Char} (h : text <+: longer) (hne : text ≠ [])
    (hbegins : BeginsPlain longer) : BeginsPlain text := by
  obtain ⟨c, rest, rfl⟩ := List.exists_cons_of_ne_nil hne
  obtain ⟨after, rfl⟩ := h
  exact hbegins

theorem trimLeft_eq_nil_or (text : List Char) : trimLeft text = [] ∨ BeginsPlain (trimLeft text) := by
  cases hleft : trimLeft text with
  | nil => exact .inl rfl
  | cons c rest =>
    have hhead := List.head?_dropWhile_not isBlank text
    rw [← trimLeft, hleft] at hhead
    exact .inr ⟨c, rfl, hhead⟩

/-- What is left of a line is empty, or begins and ends with characters that are not blank. -/
theorem trim_eq_nil_or_plain (text : List Char) : trim text = [] ∨ Plain (trim text) := by
  by_cases hne : trim text = []
  · exact .inl hne
  · refine .inr ⟨?_, ?_⟩
    · have hprefix : trim text <+: trimLeft text := List.rdropWhile_prefix _ _
      rcases trimLeft_eq_nil_or text with hnil | hbegins
      · rw [hnil, List.prefix_nil] at hprefix
        exact absurd hprefix hne
      · exact beginsPlain_of_prefix hprefix hne hbegins
    · have hlast := List.rdropWhile_last_not isBlank (trimLeft text) hne
      exact ⟨_, List.getLast?_eq_some_getLast hne, Bool.eq_false_iff.mpr hlast⟩

/-- Nothing is taken off a text that begins and ends with characters that are not blank. -/
theorem Plain.trim_eq (h : Plain text) : trim text = text := by
  obtain ⟨⟨c, hc, hbegins⟩, ⟨d, hd, hends⟩⟩ := h
  have hleft : trimLeft text = text := by
    obtain ⟨rest, rfl⟩ := List.head?_eq_some_iff.mp hc
    exact List.dropWhile_cons_of_neg (by simp [hbegins])
  rw [trim, hleft, trimRight_eq_rdropWhile, List.rdropWhile_eq_self_iff]
  intro hne
  rw [List.getLast?_eq_some_getLast hne, Option.mem_some_iff] at hd
  simp [hd, hends]

/-! ### Words -/

theorem space_not_mem_of_mem_cutAtSpaces {word : List Char} (h : word ∈ cutAtSpaces line) :
    ' ' ∉ word := by
  induction line generalizing word with
  | nil =>
    obtain rfl : word = [] := by simpa [cutAtSpaces] using h
    simp
  | cons c rest ih =>
    rw [cutAtSpaces, List.splitOnP_cons_eq_if_modifyHead] at h
    obtain ⟨first, others, hrest⟩ := List.exists_cons_of_ne_nil (splitOnP_ne_nil (· == ' ') rest)
    rw [cutAtSpaces, hrest] at ih
    rw [hrest] at h
    split at h
    · rcases List.mem_cons.mp h with rfl | hmem
      · simp
      · exact ih hmem
    · next hc =>
      -- The character belongs to the first word of the rest.
      rcases List.mem_cons.mp h with rfl | hmem
      · have hfirst := ih (List.mem_cons_self ..)
        simp only [beq_iff_eq] at hc
        simp [Ne.symm hc, hfirst]
      · exact ih (List.mem_cons_of_mem _ hmem)

/-- The words of a line are those without spaces that give the line when they are joined. -/
theorem cutAtSpaces_eq_iff :
    cutAtSpaces line = words ↔
      words ≠ [] ∧ (∀ word ∈ words, ' ' ∉ word) ∧ [' '].intercalate words = line := by
  constructor
  · rintro rfl
    exact ⟨splitOnP_ne_nil _ _, fun _ => space_not_mem_of_mem_cutAtSpaces,
      List.intercalate_splitOn ' '⟩
  · rintro ⟨hne, hspace, rfl⟩
    exact List.splitOn_intercalate ' ' hspace hne

theorem beginsPlain_append_space_iff {rest : List Char} :
    BeginsPlain (text ++ ' ' :: rest) ↔ BeginsPlain text := by
  cases text with
  | nil => simp [BeginsPlain]; decide
  | cons c text => rfl

theorem endsPlain_append_space_iff {rest : List Char} :
    EndsPlain (text ++ ' ' :: rest) ↔ EndsPlain rest := by
  cases rest with
  | nil => simp [EndsPlain]; decide
  | cons c rest => simp [EndsPlain, List.getLast?_append, List.getLast?_cons_cons]

/-- A line of words begins and ends plainly exactly if its first word begins and its last word ends
so. -/
theorem plain_intercalate_iff (hne : words ≠ []) :
    Plain ([' '].intercalate words) ↔
      (∀ word ∈ words.head?, BeginsPlain word) ∧ ∀ word ∈ words.getLast?, EndsPlain word := by
  have hbegins : BeginsPlain ([' '].intercalate words) ↔ ∀ word ∈ words.head?, BeginsPlain word := by
    match words with
    | [] => exact absurd rfl hne
    | [word] => simp
    | word :: next :: rest =>
      rw [List.intercalate_cons_cons, List.append_assoc, List.singleton_append,
        beginsPlain_append_space_iff]
      simp
  have hends : EndsPlain ([' '].intercalate words) ↔ ∀ word ∈ words.getLast?, EndsPlain word := by
    clear hbegins
    induction words with
    | nil => exact absurd rfl hne
    | cons word rest ih =>
      cases rest with
      | nil => simp
      | cons next rest =>
        rw [List.intercalate_cons_cons, List.append_assoc, List.singleton_append,
          endsPlain_append_space_iff, ih (List.cons_ne_nil _ _), List.getLast?_cons_cons]
  rw [← hbegins, ← hends]
  exact ⟨fun h => ⟨h.begins, h.ends⟩, fun h => ⟨h.1, h.2⟩⟩

end TokenGrammar.Text
