import TokenGrammar.Command
import TokenGrammar.Proofs.Loading.Files

/-!
# Trees as JSON

A tree that is put out as JSON is not lost: its text is read as the value that it was written from,
and this value has the names, values and children of every node. So the text tells the tree, and
trees are compared by their texts. Each level of a tree is an object and an array in it, so a tree
has half as many levels as arrays and objects may be open at a time.

## Main definitions

* `Tree.ofJson?` — the tree that a JSON value stands for
* `Tree.height` — the number of levels

## Main results

* `ofJson?_eq_some_iff` — the JSON values that stand for trees are those of the trees
* `recoverable_toJson`, `depth_toJson` — what reading back asks of the value of a tree
* `read_render` — the text of a tree is read as the value of the tree
* `readJsonFile_render` — and so is a file that it is written to
* `render_determines` — a text, in ASCII, that determines the tree
-/

namespace TokenGrammar.Tree

/-! ### Trees from JSON values -/

mutual

/-- The tree that a JSON value stands for, if it has the form of one. -/
def ofJson? : Json → Option Tree
  | .obj [("name", .str name), ("value", .str value), ("is_terminal", .bool isTerminal),
      ("children", .arr items)] =>
    (ofJsonAll? items).map (node ⟨name, value, isTerminal⟩)
  | _ => none

/-- The trees that some JSON values stand for, if all of them stand for trees. -/
def ofJsonAll? : List Json → Option (List Tree)
  | [] => some []
  | item :: items => do
    let tree ← ofJson? item
    let trees ← ofJsonAll? items
    return tree :: trees

end

mutual

/-- A tree is rebuilt from its JSON value. -/
theorem ofJson?_toJson (tree : Tree) : ofJson? tree.toJson = some tree := by
  match tree with
  | node label children =>
    simp only [toJson, ofJson?, ofJsonAll?_toJsonAll children, Option.map_some]

theorem ofJsonAll?_toJsonAll (trees : List Tree) : ofJsonAll? (toJsonAll trees) = some trees := by
  match trees with
  | [] => rfl
  | tree :: trees =>
    simp only [toJsonAll, ofJsonAll?, ofJson?_toJson tree, ofJsonAll?_toJsonAll trees]
    rfl

end

mutual

/-- Only the JSON value of a tree stands for it. -/
theorem toJson_of_ofJson? {v : Json} {tree : Tree} (h : ofJson? v = some tree) :
    tree.toJson = v := by
  unfold ofJson? at h
  split at h
  · obtain ⟨trees, htrees, rfl⟩ := Option.map_eq_some_iff.mp h
    rw [toJson, toJsonAll_of_ofJsonAll? htrees]
  · cases h

theorem toJsonAll_of_ofJsonAll? {items : List Json} {trees : List Tree}
    (h : ofJsonAll? items = some trees) : toJsonAll trees = items := by
  match items with
  | [] =>
    cases h
    rfl
  | item :: items =>
    simp only [ofJsonAll?, Option.bind_eq_bind, Option.bind_eq_some_iff] at h
    obtain ⟨tree, htree, trees, htrees, hcons⟩ := h
    cases hcons
    rw [toJsonAll, toJson_of_ofJson? htree, toJsonAll_of_ofJsonAll? htrees]

end

/-- The JSON values that stand for trees are those of the trees. -/
theorem ofJson?_eq_some_iff {v : Json} {tree : Tree} : ofJson? v = some tree ↔ v = tree.toJson :=
  ⟨fun h => (toJson_of_ofJson? h).symm, fun h => h ▸ ofJson?_toJson tree⟩

theorem toJson_injective {tree other : Tree} (h : tree.toJson = other.toJson) : tree = other := by
  have hrebuilt := ofJson?_toJson tree
  rw [h, ofJson?_toJson] at hrebuilt
  exact (Option.some.inj hrebuilt).symm

/-! ### What reading back asks of a value -/

mutual

/-- The number of levels of a tree. -/
def height : Tree → Nat
  | node _ children => heightAll children + 1

/-- The number of levels of the highest of some trees. -/
def heightAll : List Tree → Nat
  | [] => 0
  | tree :: trees => max (height tree) (heightAll trees)

end

mutual

/-- The text of a tree gives its value back: there are no numbers, and all keys are different. -/
theorem recoverable_toJson (tree : Tree) : tree.toJson.Recoverable := by
  match tree with
  | node label children =>
    have hkeys : ["name", "value", "is_terminal", "children"].Nodup := by decide
    exact ⟨hkeys, trivial, trivial, trivial, recoverableAll_toJsonAll children, trivial⟩

theorem recoverableAll_toJsonAll (trees : List Tree) : Json.RecoverableAll (toJsonAll trees) := by
  match trees with
  | [] => trivial
  | tree :: trees => exact ⟨recoverable_toJson tree, recoverableAll_toJsonAll trees⟩

end

mutual

/-- Each level of a tree is an object and an array in it. -/
theorem depth_toJson (tree : Tree) : tree.toJson.depth = 2 * tree.height := by
  match tree with
  | node label children =>
    have hchildren := depthAll_toJsonAll children
    simp only [toJson, Json.depth, Json.depthMembers, height]
    omega

theorem depthAll_toJsonAll (trees : List Tree) :
    Json.depthAll (toJsonAll trees) = 2 * heightAll trees := by
  match trees with
  | [] => rfl
  | tree :: trees =>
    have htree := depth_toJson tree
    have htrees := depthAll_toJsonAll trees
    simp only [toJsonAll, Json.depthAll, heightAll]
    omega

end

/-! ### Trees that are put out -/

variable {tree : Tree} {files : Files} {path : String}

theorem toList_render (tree : Tree) :
    (tree.render true).toList = Json.write (.indented 2) 0 tree.toJson :=
  String.toList_ofList

/-- The text of a tree is in ASCII. -/
theorem ascii_render (tree : Tree) : ∀ c ∈ (tree.render true).toList, c.toNat < 0x80 := by
  intro c hc
  rw [toList_render] at hc
  exact (Json.graphic_write _ _ _ c hc).lt

example : (leaf (.terminal "\t" "\x7f𝄞")).render true = "\x7b
  \x22name\x22: \x22\\t\x22,
  \x22value\x22: \x22\\u007f\\ud834\\udd1e\x22,
  \x22is_terminal\x22: true,
  \x22children\x22: []
\x7d" := by decide +kernel

/-- The text of a tree, with or without the final newline, is read as the value of the tree. -/
theorem read_render_append (hdepth : tree.toJson.depth ≤ Json.nestingLimit) {spaces : List Char}
    (hspaces : ∀ c ∈ spaces, Json.isSpace c = true) :
    Json.read ((tree.render true).toList ++ spaces) = .ok tree.toJson := by
  rw [toList_render, Json.read_eq_readWithin]
  exact Json.readWithin_write (recoverable_toJson tree) hdepth hspaces _ _

/-- A file that a tree is written to is read as the value of the tree. -/
theorem readJsonFile_render (hdepth : tree.toJson.depth ≤ Json.nestingLimit)
    (hfile : files.read path = .ok (Utf8.encode (tree.render true ++ "\n").toList))
    (fault : InputFault → ConfigFault) : readJsonFile files path fault = .ok tree.toJson := by
  have hnewline : ∀ c ∈ ['\n'], Json.isSpace c = true := List.forall_mem_singleton.mpr rfl
  have hlist : (tree.render true ++ "\n").toList = (tree.render true).toList ++ ['\n'] :=
    String.toList_append
  rw [hlist, toList_render] at hfile
  exact readJsonFile_write (recoverable_toJson tree) hdepth hnewline (by decide) hfile

theorem render_injective {other : Tree} (h : tree.render true = other.render true) :
    tree = other := by
  have hwrite : Json.write (.indented 2) 0 tree.toJson =
      Json.write (.indented 2) 0 other.toJson := by
    rw [← toList_render, h, toList_render]
  exact toJson_injective
    (Json.write_injective (recoverable_toJson tree) (recoverable_toJson other) hwrite)

/-- **A text determines its tree.** Whatever the names and values of a tree, the text that it is put
out as is in ASCII. It is read as the value of the tree, and so is a file that it is written to,
unless the tree has too many levels. The tree is rebuilt from this value, and no other tree has the
same text. -/
theorem render_determines (tree : Tree) :
    (∀ c ∈ (tree.render true).toList, c.toNat < 0x80) ∧
      (tree.toJson.depth ≤ Json.nestingLimit →
        Json.read (tree.render true).toList = .ok tree.toJson ∧
        ∀ (files : Files) (path : String) (fault : InputFault → ConfigFault),
          files.read path = .ok (Utf8.encode (tree.render true ++ "\n").toList) →
            readJsonFile files path fault = .ok tree.toJson) ∧
      ofJson? tree.toJson = some tree ∧
      ∀ other : Tree, tree = other ↔ tree.render true = other.render true := by
  refine ⟨ascii_render tree, fun hdepth => ⟨?_, fun files path fault hfile => ?_⟩,
    ofJson?_toJson tree, fun other => ⟨fun h => h ▸ rfl, render_injective⟩⟩
  · have hread := read_render_append hdepth (List.forall_mem_nil _)
    rwa [List.append_nil] at hread
  · exact readJsonFile_render hdepth hfile fault

/-- A tree with quotes, a backslash, a tab, a delete character, and characters beyond ASCII and
beyond 16 bits in its labels, where a terminal has a child. -/
def scribbled : Tree :=
  node ⟨"\x22\\", "\x22\\", false⟩
    [node (.terminal "\t" "\x7f é") [leaf (.nonterminal "")], leaf (.terminal "𝄞" "\n")]

theorem render_determines_scribbled :
    scribbled.toJson.depth ≤ Json.nestingLimit ∧
      Json.read (scribbled.render true).toList = .ok scribbled.toJson ∧
      readJsonFile ⟨fun _ => .ok (Utf8.encode (scribbled.render true ++ "\n").toList)⟩ "tree"
        (.unreadableTokens "tree") = .ok scribbled.toJson := by
  have hdepth : scribbled.toJson.depth ≤ Json.nestingLimit := by decide
  obtain ⟨-, hread, -⟩ := render_determines scribbled
  exact ⟨hdepth, (hread hdepth).1, (hread hdepth).2 _ _ _ rfl⟩

end TokenGrammar.Tree
