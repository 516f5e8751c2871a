import TokenGrammar.Proofs.Derivation.ParseTree

/-!
# Outlines

The outline of a tree lists its nodes from top to bottom and left to right, with a depth, a value
and a name for each. Nothing tells where the children of a node end, and nothing tells which nodes
are terminals.

The depths are enough for the first. What follows a tree begins no deeper than the tree itself, so
the children of a node are over as soon as a row is no deeper than the node. And a tree that comes
from a derivation is regular: terminals are leaves, and non-terminals are not. So nodes with rows
below them are non-terminals, and the outline of a regular tree determines it.

## Main definitions

* `Row`, `Tree.rows` — a row for each node
* `Row.Ends` — rows that do not go on with the children of a node
* `Tree.Regular` — terminals are leaves, non-terminals have children and their names as values

## Main results

* `rows_append_inj`, `rowsAll_append_inj` — a tree is cut off the rows that begin with its own
* `rows_inj` — the outline of a regular tree determines it
* `Regular.of_outcome_eq_ok` — what a loaded grammar derives is regular
-/

namespace TokenGrammar

/-- What an outline says of a node. -/
structure Row where
  /-- How many levels are above the node. -/
  depth : Nat
  /-- The value of the node. -/
  value : String
  /-- Its name. -/
  name : String
  deriving DecidableEq, Repr

/-- The first of some rows, if there is any, is above a depth. So the rows do not go on with nodes
of this depth. -/
def Row.Ends (depth : Nat) (rows : List Row) : Prop := ∀ row ∈ rows.head?, row.depth < depth

namespace Tree

variable {depth : Nat} {label : Label} {children : List Tree} {rest rest' : List Row}

/-- The row of a subtree at a depth. -/
def row (entry : Int × Tree) : Row := ⟨entry.1.toNat, entry.2.label.value, entry.2.label.name⟩

/-- The outline of a tree whose root is at a depth. -/
def rows (depth : Nat) (tree : Tree) : List Row := (tree.walk depth).map row

/-- The outlines of some trees, one tree after the other. -/
def rowsAll (depth : Nat) (trees : List Tree) : List Row := (walkAll depth trees).map row

theorem rows_node (depth : Nat) (label : Label) (children : List Tree) :
    (node label children).rows depth =
      ⟨depth, label.value, label.name⟩ :: rowsAll (depth + 1) children := rfl

@[simp] theorem rowsAll_nil (depth : Nat) : rowsAll depth [] = [] := rfl

@[simp] theorem rowsAll_cons (depth : Nat) (tree : Tree) (trees : List Tree) :
    rowsAll depth (tree :: trees) = tree.rows depth ++ rowsAll depth trees := by
  rw [rowsAll, walkAll, List.map_append]
  rfl

/-! ### Regular trees -/

/-- A tree in which terminals have no children, and non-terminals have their names as values and at
least one child. -/
inductive Regular : Tree → Prop
  | terminal (name value : String) : Regular (leaf (.terminal name value))
  | nonterminal (name : String) {children : List Tree} (hne : children ≠ [])
      (hchildren : ∀ child ∈ children, Regular child) :
      Regular (node (.nonterminal name) children)

theorem Regular.of_mem_children (h : (node label children).Regular) :
    ∀ child ∈ children, child.Regular := by
  cases h with
  | terminal => simp
  | nonterminal _ _ hchildren => exact hchildren

/-- The children of a regular node tell whether it is a terminal. -/
theorem Regular.label_eq {label' : Label} (h : (node label children).Regular)
    (h' : (node label' children).Regular) (hvalue : label.value = label'.value)
    (hname : label.name = label'.name) : label = label' := by
  have hterminal : label.isTerminal = label'.isTerminal := by
    cases h with
    | terminal =>
      cases h' with
      | terminal => rfl
      | nonterminal _ hne => exact absurd rfl hne
    | nonterminal _ hne =>
      cases h' with
      | terminal => exact absurd rfl hne
      | nonterminal => rfl
  obtain ⟨name, value, isTerminal⟩ := label
  obtain ⟨name', value', isTerminal'⟩ := label'
  simp only at hvalue hname hterminal
  rw [hvalue, hname, hterminal]

/-! ### Cutting off a tree -/

/-- Trees at a depth, and rows after them that end this depth, end the depth below. -/
theorem ends_rowsAll_append (h : Row.Ends depth rest) (trees : List Tree) :
    Row.Ends (depth + 1) (rowsAll depth trees ++ rest) := by
  cases trees with
  | nil => exact fun row hrow => Nat.lt_succ_of_lt (h row hrow)
  | cons tree trees =>
    -- The first row is that of the first tree.
    obtain ⟨label, children⟩ := tree
    intro row hrow
    obtain rfl : _ = row := Option.some.inj hrow
    exact Nat.lt_succ_self depth

/-- A tree at a depth does not end it. -/
theorem not_ends_rowsAll_cons_append (tree : Tree) (trees : List Tree) :
    ¬ Row.Ends depth (rowsAll depth (tree :: trees) ++ rest) := by
  obtain ⟨label, children⟩ := tree
  intro h
  exact Nat.lt_irrefl depth (h _ rfl)

mutual

/-- Two regular trees, with rows after them that are no deeper, are equal if all rows are. -/
theorem rows_append_inj {depth : Nat} {tree tree' : Tree} {rest rest' : List Row}
    (hregular : tree.Regular) (hregular' : tree'.Regular)
    (hends : Row.Ends (depth + 1) rest) (hends' : Row.Ends (depth + 1) rest')
    (h : tree.rows depth ++ rest = tree'.rows depth ++ rest') : tree = tree' ∧ rest = rest' := by
  match tree, tree' with
  | node label children, node label' children' =>
    rw [rows_node, rows_node, List.cons_append, List.cons_append, List.cons.injEq,
      Row.mk.injEq] at h
    obtain ⟨⟨-, hvalue, hname⟩, hbelow⟩ := h
    obtain ⟨hchildren, hrest⟩ := rowsAll_append_inj hregular.of_mem_children
      hregular'.of_mem_children hends hends' hbelow
    -- Whether there are children tells terminals from non-terminals.
    rw [← hchildren] at hregular' ⊢
    exact ⟨by rw [hregular.label_eq hregular' hvalue hname], hrest⟩

/-- Regular trees side by side, with rows after them that are above, are equal if all rows are. -/
theorem rowsAll_append_inj {depth : Nat} {trees trees' : List Tree} {rest rest' : List Row}
    (hregular : ∀ tree ∈ trees, tree.Regular) (hregular' : ∀ tree ∈ trees', tree.Regular)
    (hends : Row.Ends depth rest) (hends' : Row.Ends depth rest')
    (h : rowsAll depth trees ++ rest = rowsAll depth trees' ++ rest') :
    trees = trees' ∧ rest = rest' := by
  match trees, trees' with
  | [], [] => exact ⟨rfl, h⟩
  | [], tree' :: trees' =>
    rw [rowsAll_nil, List.nil_append] at h
    exact absurd (h ▸ hends) (not_ends_rowsAll_cons_append tree' trees')
  | tree :: trees, [] =>
    rw [rowsAll_nil, List.nil_append] at h
    exact absurd (h ▸ hends') (not_ends_rowsAll_cons_append tree trees)
  | tree :: trees, tree' :: trees' =>
    -- The first tree is cut off, with the other trees among the rows that follow it.
    rw [rowsAll_cons, rowsAll_cons, List.append_assoc, List.append_assoc] at h
    obtain ⟨htree, hlater⟩ := rows_append_inj (hregular tree (by simp)) (hregular' tree' (by simp))
      (ends_rowsAll_append hends trees) (ends_rowsAll_append hends' trees') h
    obtain ⟨htrees, hrest⟩ := rowsAll_append_inj
      (fun other hother => hregular other (List.mem_cons_of_mem _ hother))
      (fun other hother => hregular' other (List.mem_cons_of_mem _ hother)) hends hends' hlater
    exact ⟨by rw [htree, htrees], hrest⟩

end

/-- The outline of a regular tree determines it. -/
theorem rows_inj (depth : Nat) {tree tree' : Tree} (hregular : tree.Regular)
    (hregular' : tree'.Regular) : tree.rows depth = tree'.rows depth ↔ tree = tree' := by
  refine ⟨fun h => ?_, fun h => by rw [h]⟩
  have hends : Row.Ends (depth + 1) [] := fun row hrow => by cases hrow
  have happend : tree.rows depth ++ [] = tree'.rows depth ++ [] := by rw [h]
  exact (rows_append_inj hregular hregular' hends hends happend).1

end Tree

/-! ### Derived trees -/

section Derived

variable {table : RuleTable}

mutual

/-- A parse tree is regular if no alternative is empty. -/
theorem RuleTable.ParseTree.regular
    (hne : ∀ name, ∀ production ∈ table.alternatives name, production ≠ [])
    {symbol : Symbol} {tree : Tree} (h : table.ParseTree symbol tree) : tree.Regular := by
  match h with
  | .leaf value _ => exact .terminal symbol.name value
  | .node _ hproduction hchildren =>
    refine .nonterminal symbol.name ?_ (hchildren.regular hne)
    rintro rfl
    cases hchildren
    exact hne _ _ hproduction rfl

/-- The trees of a parse forest are regular if no alternative is empty. -/
theorem RuleTable.ParseForest.regular
    (hne : ∀ name, ∀ production ∈ table.alternatives name, production ≠ [])
    {production : Production} {trees : List Tree} (h : table.ParseForest production trees) :
    ∀ tree ∈ trees, tree.Regular := by
  match h with
  | .nil => simp
  | .cons hmember hrest =>
    exact List.forall_mem_cons.mpr ⟨hmember.regular hne, hrest.regular hne⟩

end

/-- What a loaded grammar derives is regular. -/
theorem Tree.Regular.of_outcome_eq_ok {grammar : Grammar} {tokens : List Token} {limit : Nat}
    {tree : Tree} (hloaded : grammar.IsLoaded)
    (h : ((grammar.parser tokens).runWithin limit).outcome = .ok tree) : tree.Regular := by
  have hwell := hloaded.wellFormed
  have htree := (Parser.parseTree_of_outcome_eq_ok hwell.start_nonterminal h).1
  exact htree.regular hwell.production_ne_nil

end Derived

end TokenGrammar
