import Mathlib.Data.List.Forall2
import TokenGrammar.Grammar.Reader
import TokenGrammar.Proofs.Text.Words

/-!
# The format of a grammar

What some lines write is said by a relation that goes through them once: a blank line writes
nothing, and a block is written by its header, its alternatives line by line, and whatever follows,
which is nothing or begins with a blank line. An alternative is spelled by the line that its names
give when they are joined by single spaces. All lines write exactly one list of blocks.

## Main definitions

* `Grammar.Spells` — the line of an alternative
* `Grammar.Writes` — the lines of some blocks

## Main results

* `spells_iff` — cutting a line at its spaces gives the names that it spells
* `writes_iff` — cutting lines into runs gives the blocks that they write
-/

namespace TokenGrammar.Grammar

/-- The names of an alternative, joined by single spaces, are the line. -/
structure Spells (names : List String) (line : List Char) : Prop where
  ne_nil : names ≠ []
  no_space : ∀ name ∈ names, ' ' ∉ name.toList
  joined : (" ".intercalate names).toList = line

/-- The blocks that some lines write. -/
inductive Writes : List (List Char) → List Block → Prop
  | nil : Writes [] []
  /-- A blank line belongs to no block. -/
  | blank {line : List Char} {lines : List (List Char)} {blocks : List Block}
      (hline : Text.trim line = []) (h : Writes lines blocks) : Writes (line :: lines) blocks
  /-- A block goes on up to the next blank line. -/
  | block {header : List Char} {rest lines : List (List Char)} {block : Block}
      {blocks : List Block} (hne : Text.trim header ≠ [])
      (hheader : Text.trim header = block.header.toList)
      (hrest : List.Forall₂ (fun line names => Text.trim line ≠ [] ∧ Spells names (Text.trim line))
        rest block.alternatives)
      (hend : ∀ line ∈ lines.head?, Text.trim line = []) (h : Writes lines blocks) :
      Writes (header :: rest ++ lines) (block :: blocks)

/-! ### Alternatives -/

variable {line : List Char} {lines : List (List Char)} {names : List String} {blocks : List Block}

theorem map_toList_namesOf (line : List Char) :
    (namesOf line).map String.toList = Text.cutAtSpaces line := by
  simp [namesOf, Function.comp_def]

/-- The names of a line are those that it spells. -/
theorem spells_iff : Spells names line ↔ namesOf line = names := by
  have hcut : namesOf line = names ↔ Text.cutAtSpaces line = names.map String.toList := by
    rw [← map_toList_namesOf]
    exact (List.map_injective_iff.mpr fun _ _ => String.toList_inj.mp).eq_iff.symm
  rw [hcut, Text.cutAtSpaces_eq_iff]
  constructor
  · rintro ⟨hne, hspace, hjoined⟩
    refine ⟨by simpa using hne, by simpa using hspace, ?_⟩
    rw [← hjoined, String.toList_intercalate]
    rfl
  · rintro ⟨hne, hspace, hjoined⟩
    refine ⟨by simpa using hne, by simpa using hspace, ?_⟩
    rw [← hjoined, String.toList_intercalate]
    rfl

/-! ### Blocks -/

@[simp] theorem blocksOf_nil : blocksOf [] = [] := rfl

theorem blocksOf_cons_of_blank (h : Text.trim line = []) :
    blocksOf (line :: lines) = blocksOf lines := by
  rw [blocksOf, List.map_cons, h, List.splitOnP_cons_eq_if_modifyHead]
  rfl

/-- A run of lines that are not blank is a block, if no further line belongs to it. -/
theorem blocksOf_run {header : List Char} {rest : List (List Char)}
    (hheader : Text.trim header ≠ []) (hrest : ∀ line ∈ rest, Text.trim line ≠ [])
    (hend : ∀ line ∈ lines.head?, Text.trim line = []) :
    blocksOf (header :: rest ++ lines) =
      ⟨String.ofList (Text.trim header), rest.map fun line => namesOf (Text.trim line)⟩ ::
        blocksOf lines := by
  have hrun : ∀ line ∈ (header :: rest).map Text.trim, line.isEmpty = false := by
    simpa [List.isEmpty_eq_false_iff, hheader] using hrest
  cases lines with
  | nil =>
    rw [List.append_nil, blocksOf, List.splitOnP_eq_singleton hrun]
    simp [Block.ofLines?, Function.comp_def]
  | cons line lines =>
    have hline : (Text.trim line).isEmpty = true := by simpa using hend line rfl
    have hlines : (header :: rest ++ line :: lines).map Text.trim =
        (header :: rest).map Text.trim ++ Text.trim line :: lines.map Text.trim := by simp
    rw [blocksOf, hlines, List.splitOnP_append_cons_of_forall_mem hrun _ hline,
      blocksOf_cons_of_blank (hend line rfl)]
    simp [Block.ofLines?, blocksOf, Function.comp_def]

/-- Lines begin with a run, perhaps an empty one, of lines that are not blank. -/
theorem exists_run (lines : List (List Char)) :
    ∃ rest others, lines = rest ++ others ∧ (∀ line ∈ rest, Text.trim line ≠ []) ∧
      ∀ line ∈ others.head?, Text.trim line = [] := by
  induction lines with
  | nil => exact ⟨[], [], rfl, by simp, by simp⟩
  | cons line lines ih =>
    by_cases hline : Text.trim line = []
    · exact ⟨[], line :: lines, rfl, by simp, by simpa using hline⟩
    · obtain ⟨rest, others, rfl, hrest, hend⟩ := ih
      exact ⟨line :: rest, others, rfl, by simpa [hline] using hrest, hend⟩

/-- The alternatives of a run are spelled by its lines, one by one. -/
theorem forall₂_spells_iff {alternatives : List (List String)} :
    List.Forall₂ (fun line names => Text.trim line ≠ [] ∧ Spells names (Text.trim line))
        lines alternatives ↔
      (∀ line ∈ lines, Text.trim line ≠ []) ∧
        lines.map (fun line => namesOf (Text.trim line)) = alternatives := by
  have hmap : List.Forall₂ (fun line names => namesOf (Text.trim line) = names) lines alternatives ↔
      lines.map (fun line => namesOf (Text.trim line)) = alternatives := by
    rw [← List.forall₂_map_left_iff (R := Eq), List.forall₂_eq_eq_eq]
  simp only [List.forall₂_and_left, spells_iff, hmap]

/-- The lines write the blocks into which they are cut. -/
theorem writes_blocksOf (lines : List (List Char)) : Writes lines (blocksOf lines) := by
  match lines with
  | [] => exact .nil
  | line :: lines =>
    by_cases hline : Text.trim line = []
    · rw [blocksOf_cons_of_blank hline]
      exact .blank hline (writes_blocksOf lines)
    · obtain ⟨rest, others, hlines, hrest, hend⟩ := exists_run lines
      have hlength : others.length < (line :: lines).length := by
        rw [hlines, List.length_cons, List.length_append]
        omega
      rw [hlines, ← List.cons_append, blocksOf_run hline hrest hend]
      exact .block hline (by simp) (forall₂_spells_iff.mpr ⟨hrest, rfl⟩) hend
        (writes_blocksOf others)
termination_by lines.length
decreasing_by
  · simp
  · exact hlength

/-- Lines write the blocks into which they are cut, and no others. -/
theorem writes_iff : Writes lines blocks ↔ blocks = blocksOf lines := by
  constructor
  · intro h
    induction h with
    | nil => rfl
    | blank hline _ ih => rw [blocksOf_cons_of_blank hline, ih]
    | @block header rest lines block blocks hne hheader hrest hend _ ih =>
      obtain ⟨hplain, halternatives⟩ := forall₂_spells_iff.mp hrest
      rw [blocksOf_run hne hplain hend, hheader, String.ofList_toList, halternatives, ih]
  · rintro rfl
    exact writes_blocksOf lines

end TokenGrammar.Grammar
