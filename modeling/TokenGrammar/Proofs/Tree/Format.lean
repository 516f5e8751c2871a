import TokenGrammar.Proofs.Tree.Outline

/-!
# Trees in lines

A tree is printed as the lines of its outline. A line has a bar for each level, then the value, and
the name in parentheses. The text in front of every line may be any text, with newlines and bars in
it, because it is the same for all lines.

Lines can be read back under four conditions on the names and values. A newline in one of them would
end the line, and a bar at the beginning of a value would count as a level. In between, a value may
hold anything, even parentheses: the name begins after the last parenthesis that opens after a
space, provided that none opens so in the name itself. Under these conditions the text of a regular
tree determines the tree.

## Main definitions

* `Row.line` — the line of a row
* `Row.Legible`, `Tree.Legible` — the conditions on names and values

## Main results

* `Row.line_inj` — a line determines its row
* `newline_cons_toList_format` — the text of a tree as the lines of its outline
* `format_determines` — the text of a tree determines the tree
-/

namespace TokenGrammar

/-! ### Cutting texts -/

section Cutting

variable {α : Type}

/-- A list is cut in one way only behind the longest run of members of a kind. -/
private theorem append_inj_of_run {p : α → Prop} {run run' rest rest' : List α}
    (hrun : ∀ a ∈ run, p a) (hrun' : ∀ a ∈ run', p a) (hrest : ∀ a ∈ rest.head?, ¬ p a)
    (hrest' : ∀ a ∈ rest'.head?, ¬ p a) (h : run ++ rest = run' ++ rest') :
    run = run' ∧ rest = rest' := by
  induction run generalizing run' with
  | nil =>
    cases run' with
    | nil => exact ⟨rfl, h⟩
    | cons a run' =>
      -- What follows the empty run would go on with the other run.
      obtain rfl : rest = a :: run' ++ rest' := h
      exact absurd (hrun' a (by simp)) (hrest a rfl)
  | cons a run ih =>
    cases run' with
    | nil =>
      obtain rfl : a :: run ++ rest = rest' := h
      exact absurd (hrun a (by simp)) (hrest' a rfl)
    | cons b run' =>
      obtain ⟨rfl, htail⟩ := List.cons.inj h
      obtain ⟨rfl, hends⟩ := ih (fun c hc => hrun c (by simp [hc]))
        (fun c hc => hrun' c (by simp [hc])) htail
      exact ⟨rfl, hends⟩

/-- Texts that are separated by a character, as texts that each follow this character. -/
private theorem cons_intercalate (c : α) {texts : List (List α)} (hne : texts ≠ []) :
    c :: [c].intercalate texts = texts.flatMap (c :: ·) := by
  induction texts with
  | nil => exact absurd rfl hne
  | cons text texts ih =>
    cases texts with
    | nil => simp
    | cons next texts =>
      rw [List.intercalate_cons_cons, List.append_assoc, List.singleton_append,
        ih (List.cons_ne_nil _ _)]
      rfl

end Cutting

/-! ### Lines -/

namespace Row

variable {row row' : Row}

/-- What separates a value from a name. -/
def opening : List Char := [' ', '(']

/-- There is no opening before the last one. -/
private theorem eq_nil_of_opening_append {between name name' : List Char}
    (hname : ¬ opening <:+: name) (h : opening ++ name = between ++ (opening ++ name')) :
    between = [] := by
  match between with
  | [] => rfl
  | [c] =>
    -- Two openings do not overlap.
    simp [opening] at h
  | c :: d :: between =>
    -- The opening on the left is the first one, so that on the right is in the name.
    obtain ⟨-, -, hname_eq⟩ : ' ' = c ∧ '(' = d ∧ name = between ++ (opening ++ name') := by
      simpa [opening] using h
    exact absurd ⟨between, name', by rw [hname_eq, List.append_assoc]⟩ hname

/-- A text is cut in one way only at the last opening. -/
private theorem append_opening_inj {value value' name name' : List Char}
    (hname : ¬ opening <:+: name) (hname' : ¬ opening <:+: name')
    (h : value ++ (opening ++ name) = value' ++ (opening ++ name')) :
    value = value' ∧ name = name' := by
  -- One of the two values is at least as long as the other.
  rcases List.append_eq_append_iff.mp h with ⟨between, hvalue, hrest⟩ | ⟨between, hvalue, hrest⟩
  · obtain rfl := eq_nil_of_opening_append hname hrest
    exact ⟨by rw [hvalue, List.append_nil], List.append_cancel_left hrest⟩
  · obtain rfl := eq_nil_of_opening_append hname' hrest
    exact ⟨by rw [hvalue, List.append_nil], (List.append_cancel_left hrest).symm⟩

/-- What is printed of a row after the text in front. -/
def line (row : Row) : List Char :=
  List.replicate row.depth '|' ++ (row.value.toList ++ (opening ++ (row.name.toList ++ [')'])))

/-- A row that can be read back from its line. -/
structure Legible (row : Row) : Prop where
  newline_not_mem_value : '\n' ∉ row.value.toList
  newline_not_mem_name : '\n' ∉ row.name.toList
  value_head_ne_bar : row.value.toList.head? ≠ some '|'
  opening_not_infix_name : ¬ opening <:+: row.name.toList

instance (row : Row) : Decidable row.Legible :=
  decidable_of_iff ('\n' ∉ row.value.toList ∧ '\n' ∉ row.name.toList ∧
      row.value.toList.head? ≠ some '|' ∧ ¬ opening <:+: row.name.toList)
    ⟨fun ⟨hvalue, hname, hbar, hopening⟩ => ⟨hvalue, hname, hbar, hopening⟩,
      fun ⟨hvalue, hname, hbar, hopening⟩ => ⟨hvalue, hname, hbar, hopening⟩⟩

theorem Legible.newline_not_mem_line (h : row.Legible) : '\n' ∉ row.line := by
  simp [line, opening, h.newline_not_mem_value, h.newline_not_mem_name]

/-- The bars of a line end where its value begins, or with the space if the value is empty. -/
theorem Legible.head_ne_bar (h : row.Legible) (rest : List Char) :
    ∀ c ∈ (row.value.toList ++ (opening ++ rest)).head?, ¬ c = '|' := by
  rintro c hc rfl
  cases hvalue : row.value.toList with
  | nil => simp [hvalue, opening] at hc
  | cons d value =>
    rw [hvalue] at hc
    exact h.value_head_ne_bar (hvalue ▸ hc)

/-- A line determines its row. -/
theorem line_inj (h : row.Legible) (h' : row'.Legible) : row.line = row'.line ↔ row = row' := by
  refine ⟨fun hline => ?_, fun hrow => by rw [hrow]⟩
  have hbars (n : Nat) : ∀ c ∈ List.replicate n '|', c = '|' := fun _ => List.eq_of_mem_replicate
  obtain ⟨hdepth, hinner⟩ := append_inj_of_run (hbars _) (hbars _) (h.head_ne_bar _)
    (h'.head_ne_bar _) hline
  -- The parenthesis at the end is the same on both sides.
  simp only [← List.append_assoc, List.append_cancel_right_eq] at hinner
  simp only [List.append_assoc] at hinner
  obtain ⟨hvalue, hname⟩ := append_opening_inj h.opening_not_infix_name h'.opening_not_infix_name
    hinner
  obtain ⟨depth, value, name⟩ := row
  obtain ⟨depth', value', name'⟩ := row'
  rw [mk.injEq]
  exact ⟨by simpa using congrArg List.length hdepth, String.toList_inj.mp hvalue,
    String.toList_inj.mp hname⟩

/-- Lines that each follow a newline and the same text determine their rows. -/
theorem flatMap_line_inj (front : List Char) {rows rows' : List Row}
    (hlegible : ∀ row ∈ rows, row.Legible) (hlegible' : ∀ row ∈ rows', row.Legible)
    (h : rows.flatMap (fun row => '\n' :: (front ++ row.line)) =
      rows'.flatMap fun row => '\n' :: (front ++ row.line)) : rows = rows' := by
  -- A line goes up to the next newline, or to the end of the text.
  have hrest (rows : List Row) :
      ∀ c ∈ (rows.flatMap fun row => '\n' :: (front ++ row.line)).head?, ¬ c ≠ '\n' := by
    cases rows with
    | nil => simp
    | cons row rows => simp
  induction rows generalizing rows' with
  | nil =>
    cases rows' with
    | nil => rfl
    | cons row' rows' => simp at h
  | cons row rows ih =>
    cases rows' with
    | nil => simp at h
    | cons row' rows' =>
      rw [List.forall_mem_cons] at hlegible hlegible'
      simp only [List.flatMap_cons, List.cons_append, List.append_assoc, List.cons.injEq, true_and,
        List.append_cancel_left_eq] at h
      obtain ⟨hline, hlater⟩ := append_inj_of_run
        (fun c hc => ne_of_mem_of_not_mem hc hlegible.1.newline_not_mem_line)
        (fun c hc => ne_of_mem_of_not_mem hc hlegible'.1.newline_not_mem_line)
        (hrest rows) (hrest rows') h
      rw [(line_inj hlegible.1 hlegible'.1).mp hline, ih hlegible.2 hlegible'.2 hlater]

end Row

/-! ### Trees -/

namespace Tree

variable {tree tree' : Tree}

/-- A tree whose rows can all be read back from their lines. -/
def Legible (tree : Tree) : Prop := ∀ row ∈ tree.rows 0, row.Legible

instance (tree : Tree) : Decidable tree.Legible :=
  inferInstanceAs (Decidable (∀ row ∈ tree.rows 0, row.Legible))

theorem toList_line (front : String) (entry : Int × Tree) :
    (line front entry.1 entry.2.label).toList = front.toList ++ (row entry).line := by
  simp [line, row, Row.line, Row.opening]

/-- The text of a tree is the lines of its outline, each with the text in front. -/
theorem newline_cons_toList_format (front : String) (tree : Tree) :
    '\n' :: (tree.format front).toList =
      (tree.rows 0).flatMap fun row => '\n' :: (front.toList ++ row.line) := by
  have hne : (tree.walk 0).map (fun entry => (line front entry.1 entry.2.label).toList) ≠ [] := by
    cases tree
    exact List.cons_ne_nil _ _
  rw [format, String.toList_intercalate, List.map_map]
  refine (cons_intercalate '\n' hne).trans ?_
  rw [rows, List.flatMap_map, List.flatMap_map]
  simp only [toList_line]
  rfl

/-- The text of a legible regular tree determines the tree. -/
theorem format_inj (front : String) (hregular : tree.Regular) (hregular' : tree'.Regular)
    (hlegible : tree.Legible) (hlegible' : tree'.Legible) :
    tree.format front = tree'.format front ↔ tree = tree' := by
  refine ⟨fun h => ?_, fun h => by rw [h]⟩
  apply (rows_inj 0 hregular hregular').mp
  apply Row.flatMap_line_inj front.toList hlegible hlegible'
  rw [← newline_cons_toList_format, ← newline_cons_toList_format, h]

/-- **The text of a tree determines the tree.** Let two trees be regular, and let no name and no
value have a newline in it, no value begin with a bar, and no name have an opening parenthesis after
a space in it. Then both have the same text, with whatever text in front of the lines, only if they
are equal. What a loaded grammar derives is regular. -/
theorem format_determines :
    (∀ (front : String) (tree tree' : Tree), tree.Regular → tree'.Regular → tree.Legible →
      tree'.Legible → (tree.format front = tree'.format front ↔ tree = tree')) ∧
    ∀ (grammar : Grammar) (tokens : List Token) (limit : Nat) (tree : Tree), grammar.IsLoaded →
      ((grammar.parser tokens).runWithin limit).outcome = .ok tree → tree.Regular := by
  constructor
  · intro front tree tree' hregular hregular' hlegible hlegible'
    exact format_inj front hregular hregular' hlegible hlegible'
  · intro grammar tokens limit tree hloaded houtcome
    exact .of_outcome_eq_ok hloaded houtcome

/-- A leaf below a node, with a value that looks like the end of one line and the beginning of
another. -/
def oneBelowOther : Tree :=
  .node (.nonterminal "S") [.node (.nonterminal "A") [.leaf (.terminal "B" "x (B)|y")]]

/-- The same nodes as two leaves side by side. -/
def sideBySide : Tree :=
  .node (.nonterminal "S") [.leaf (.terminal "A" "A"), .leaf (.terminal "B" "x (B)|y")]

/-- The texts of the two trees are different, if only by one bar. -/
theorem format_determines_oneBelowOther :
    oneBelowOther.Regular ∧ sideBySide.Regular ∧ oneBelowOther.Legible ∧ sideBySide.Legible ∧
      oneBelowOther.format "" ≠ sideBySide.format "" ∧ Grammar.sums.IsLoaded ∧ ∃ tree,
        ((Grammar.sums.parser Grammar.numberAndSum).runWithin 6).outcome = .ok tree ∧
          tree.Regular := by
  have hregular : oneBelowOther.Regular :=
    .nonterminal "S" (by simp) <| List.forall_mem_singleton.mpr <|
      .nonterminal "A" (by simp) <| List.forall_mem_singleton.mpr <| .terminal "B" "x (B)|y"
  have hregular' : sideBySide.Regular :=
    .nonterminal "S" (by simp) <| List.forall_mem_cons.mpr
      ⟨.terminal "A" "A", List.forall_mem_singleton.mpr <| .terminal "B" "x (B)|y"⟩
  have hlegible : oneBelowOther.Legible := by decide
  have hlegible' : sideBySide.Legible := by decide
  obtain ⟨hformat, hderived⟩ := format_determines
  refine ⟨hregular, hregular', hlegible, hlegible', fun h => ?_, Grammar.isLoaded_sums, ?_⟩
  · have heq := (hformat "" _ _ hregular hregular' hlegible hlegible').mp h
    exact absurd heq (by decide)
  · obtain ⟨tree, houtcome⟩ :
        ∃ tree, ((Grammar.sums.parser Grammar.numberAndSum).runWithin 6).outcome = .ok tree :=
      ⟨_, rfl⟩
    exact ⟨tree, houtcome, hderived _ _ _ tree Grammar.isLoaded_sums houtcome⟩

end Tree

end TokenGrammar
