import TokenGrammar.Proofs.Loading.Shapes

/-!
# Writing and loading tokens and terminals

Tokens and terminals have JSON values in each of the shapes that a file may have. What is written of
such a value is read as that value, and its entries stand for what they were made of. So nothing is
lost on the way through a file, but for what the shape has no place for: a pair has no line and no
column, and a name alone no pattern. An object has each key once, so terminals go through one if no
two of them have the same name.

## Main definitions

* `Token.toJson`, `Token.toPair` — a token as an object and as a pair
* `Terminal.toJson`, `Terminal.toMember` — a terminal as an object and as a member of one

## Main results

* `readJsonFile_of_holdsJson_map` — an array of flat values is read back
* `Token.lists_toJson`, `Token.lists_toPair` — the tokens that the values stand for
* `Terminal.lists_toJson`, `Terminal.lists_names`, `Terminal.lists_toMember` — the terminals
* `loading_undoes_writing` — all shapes together
-/

namespace TokenGrammar

variable {files : Files} {path : String} {layout : Json.Layout} {json : Json}

theorem le_nestingLimit_of_depth_le_two (h : json.depth ≤ 2) : json.depth ≤ Json.nestingLimit :=
  Nat.le_trans h (by decide)

/-- An array of values without arrays and objects in them is read back if its items are. -/
theorem readJsonFile_of_holdsJson_map {α : Type} {toJson : α → Json} {as : List α}
    (h : files.HoldsJson path layout (.arr (as.map toJson)))
    (hjson : ∀ a ∈ as, (toJson a).Recoverable) (hdepth : ∀ a, (toJson a).depth ≤ 1)
    (fault : InputFault → ConfigFault) :
    readJsonFile files path fault = .ok (.arr (as.map toJson)) := by
  refine readJsonFile_of_holdsJson h ?_ (le_nestingLimit_of_depth_le_two ?_) fault
  · rw [Json.Recoverable, Json.recoverableAll_iff]
    exact List.forall_mem_map.mpr hjson
  · rw [Json.depth]
    exact Nat.succ_le_succ (Json.depthAll_le_iff.mpr (List.forall_mem_map.mpr fun a _ => hdepth a))

/-! ### Tokens -/

namespace Token

/-- A token as an object. -/
def toJson (token : Token) : Json :=
  .obj [("name", .str token.name), ("value", .str token.value), ("line", .int token.line),
    ("col", .int token.col)]

/-- A token as a pair, which has no place for the line and the column. -/
def toPair (token : Token) : Json := .arr [.str token.name, .str token.value]

/-- A token whose place is not known. -/
def unplaced (token : Token) : Token := { token with line := 0, col := 0 }

/-- The line and the column of a token have no more digits than an integer may have. -/
structure Fits (token : Token) : Prop where
  line : (Nat.toDigits 10 token.line.natAbs).length ≤ Json.digitLimit
  col : (Nat.toDigits 10 token.col.natAbs).length ≤ Json.digitLimit

theorem Fits.recoverable_toJson {token : Token} (h : token.Fits) : token.toJson.Recoverable := by
  have hkeys : ["name", "value", "line", "col"].Nodup := by decide
  exact ⟨hkeys, trivial, trivial, h.line, h.col, trivial⟩

theorem recoverable_toPair (token : Token) : token.toPair.Recoverable := ⟨trivial, trivial, trivial⟩

theorem denotes_toJson (token : Token) : Denotes token.toJson token :=
  @Denotes.object _ (.str token.name) (.str token.value) _ _ rfl rfl (.integer rfl) (.integer rfl)

theorem denotes_toPair (token : Token) : Denotes token.toPair token.unplaced :=
  .pair (.str token.name) (.str token.value)

theorem lists_toJson (tokens : List Token) : Lists (.arr (tokens.map toJson)) tokens :=
  .array (List.forall₂_map_left_iff.mpr (List.forall₂_same.mpr fun token _ => token.denotes_toJson))

theorem lists_toPair (tokens : List Token) :
    Lists (.arr (tokens.map toPair)) (tokens.map unplaced) :=
  .array (List.forall₂_map_left_iff.mpr (List.forall₂_map_right_iff.mpr
    (List.forall₂_same.mpr fun token _ => token.denotes_toPair)))

end Token

theorem loadTokens_of_lists {tokens : List Token} (hpath : '\x00' ∉ path.toList)
    (hjson : readJsonFile files path (.unreadableTokens path) = .ok json)
    (h : Token.Lists json tokens) :
    loadTokens files (some path) = ⟨[.tokensLoaded tokens.length path], .ok tokens⟩ := by
  rw [loadTokens_eq_ofLoaded hpath hjson, Token.ofJson_eq_ok_iff.mpr h]
  rfl

/-! ### Terminals -/

namespace Terminal

/-- A terminal as an object. -/
def toJson (terminal : Terminal) : Json :=
  .obj [("name", .str terminal.name), ("pattern", .str terminal.pattern)]

/-- A terminal as a member of an object that maps names to patterns. -/
def toMember (terminal : Terminal) : String × Json := (terminal.name, .str terminal.pattern)

/-- A terminal whose pattern is not known. -/
def unpatterned (terminal : Terminal) : Terminal := { terminal with pattern := "" }

theorem recoverable_toJson (terminal : Terminal) : terminal.toJson.Recoverable := by
  have hkeys : ["name", "pattern"].Nodup := by decide
  exact ⟨hkeys, trivial, trivial, trivial⟩

/-- An object that maps names to patterns is read back if no name is there twice. -/
theorem recoverable_toMember {terminals : List Terminal}
    (hnames : (terminals.map Terminal.name).Nodup) :
    (Json.obj (terminals.map toMember)).Recoverable := by
  rw [Json.Recoverable, Json.recoverableMembers_iff, List.map_map]
  exact ⟨hnames, List.forall_mem_map.mpr fun _ _ => trivial⟩

theorem depth_toMember_le (terminals : List Terminal) :
    (Json.obj (terminals.map toMember)).depth ≤ 1 := by
  rw [Json.depth]
  have hflat (terminal : Terminal) : terminal.toMember.2.depth ≤ 0 := Nat.le_refl 0
  exact Nat.succ_le_succ (Json.depthMembers_le_iff.mpr
    (List.forall_mem_map.mpr fun terminal _ => hflat terminal))

theorem denotes_toJson (terminal : Terminal) : Denotes terminal.toJson terminal :=
  @Denotes.patterned _ _ (.str terminal.pattern) rfl rfl

theorem denotes_name (terminal : Terminal) : Denotes (.str terminal.name) terminal.unpatterned :=
  .name terminal.name

theorem lists_toJson (terminals : List Terminal) :
    Lists (.arr (terminals.map toJson)) terminals :=
  .array (List.forall₂_map_left_iff.mpr
    (List.forall₂_same.mpr fun terminal _ => terminal.denotes_toJson))

theorem lists_names (terminals : List Terminal) :
    Lists (.arr (terminals.map fun terminal => .str terminal.name))
      (terminals.map unpatterned) :=
  .array (List.forall₂_map_left_iff.mpr (List.forall₂_map_right_iff.mpr
    (List.forall₂_same.mpr fun terminal _ => terminal.denotes_name)))

theorem lists_toMember (terminals : List Terminal) :
    Lists (.obj (terminals.map toMember)) terminals := by
  have hobject := Lists.object (terminals.map toMember)
  rw [List.map_map] at hobject
  have hsame : (fun member : String × Json => (⟨member.1, member.2.text⟩ : Terminal)) ∘ toMember =
      id := rfl
  rwa [hsame, List.map_id] at hobject

end Terminal

theorem loadTerminals_of_lists {terminals : List Terminal} (hpath : '\x00' ∉ path.toList)
    (hjson : readJsonFile files path (.unreadableTerminals path) = .ok json)
    (h : Terminal.Lists json terminals) :
    loadTerminals files (some path) =
      ⟨[.terminalsLoaded terminals.length path], .ok terminals⟩ := by
  rw [loadTerminals_eq_ofLoaded hpath hjson, Terminal.ofJson_eq_ok_iff.mpr h]
  rfl

/-! ### Files -/

/-- **Loading undoes writing.** Whatever the names, values and patterns are, and in every layout:
tokens that are written as objects are loaded as they are, if their lines and columns have no more
digits than integers may have; tokens that are written as pairs are loaded without their places.
Terminals that are written as objects are loaded as they are, those whose names alone are written
without their patterns, and those that are written as the members of one object as they are, if no
two have the same name. -/
theorem loading_undoes_writing (files : Files) (path : String) (layout : Json.Layout)
    (hpath : '\x00' ∉ path.toList) :
    (∀ tokens : List Token, (∀ token ∈ tokens, token.Fits) →
      files.HoldsJson path layout (.arr (tokens.map Token.toJson)) →
        loadTokens files (some path) = ⟨[.tokensLoaded tokens.length path], .ok tokens⟩) ∧
    (∀ tokens : List Token, files.HoldsJson path layout (.arr (tokens.map Token.toPair)) →
      (loadTokens files (some path)).outcome = .ok (tokens.map Token.unplaced)) ∧
    (∀ terminals : List Terminal,
      files.HoldsJson path layout (.arr (terminals.map Terminal.toJson)) →
        loadTerminals files (some path) =
          ⟨[.terminalsLoaded terminals.length path], .ok terminals⟩) ∧
    (∀ terminals : List Terminal,
      files.HoldsJson path layout (.arr (terminals.map fun terminal => .str terminal.name)) →
        (loadTerminals files (some path)).outcome = .ok (terminals.map Terminal.unpatterned)) ∧
    (∀ terminals : List Terminal, (terminals.map Terminal.name).Nodup →
      files.HoldsJson path layout (.obj (terminals.map Terminal.toMember)) →
        loadTerminals files (some path) =
          ⟨[.terminalsLoaded terminals.length path], .ok terminals⟩) := by
  refine ⟨fun tokens hfits hfile => ?_, fun tokens hfile => ?_, fun terminals hfile => ?_,
    fun terminals hfile => ?_, fun terminals hnames hfile => ?_⟩
  · have hjson := readJsonFile_of_holdsJson_map hfile
      (fun token htoken => (hfits token htoken).recoverable_toJson) (fun _ => Nat.le_refl 1)
      (.unreadableTokens path)
    exact loadTokens_of_lists hpath hjson (Token.lists_toJson tokens)
  · have hjson := readJsonFile_of_holdsJson_map hfile (fun token _ => token.recoverable_toPair)
      (fun _ => Nat.le_refl 1) (.unreadableTokens path)
    rw [loadTokens_of_lists hpath hjson (Token.lists_toPair tokens)]
  · have hjson := readJsonFile_of_holdsJson_map hfile
      (fun terminal _ => terminal.recoverable_toJson) (fun _ => Nat.le_refl 1)
      (.unreadableTerminals path)
    exact loadTerminals_of_lists hpath hjson (Terminal.lists_toJson terminals)
  · have hjson := readJsonFile_of_holdsJson_map hfile (fun _ _ => trivial)
      (fun _ => Nat.zero_le 1) (.unreadableTerminals path)
    rw [loadTerminals_of_lists hpath hjson (Terminal.lists_names terminals)]
  · have hdepth := Nat.le_succ_of_le (Terminal.depth_toMember_le terminals)
    have hjson := readJsonFile_of_holdsJson hfile (Terminal.recoverable_toMember hnames)
      (le_nestingLimit_of_depth_le_two hdepth) (.unreadableTerminals path)
    exact loadTerminals_of_lists hpath hjson (Terminal.lists_toMember terminals)

/-- Tokens with quotes, a backslash, control characters and characters beyond ASCII and beyond 16
bits in their names and values, one of them on a line below zero. -/
def scribbledTokens : List Token :=
  [⟨"\x22\\", "\t\x7f é", -3, 12⟩, ⟨"𝄞", "", 0, 123456789012345678901⟩]

/-- Terminals with the like in their names and patterns. -/
def scribbledTerminals : List Terminal := [⟨"𝄞", "\\d\n"⟩, ⟨"\x22", ""⟩]

theorem loading_undoes_writing_scribbled :
    (∀ token ∈ scribbledTokens, token.Fits) ∧ (scribbledTerminals.map Terminal.name).Nodup ∧
      loadTokens (.holding .inline (.arr (scribbledTokens.map Token.toJson))) (some "file") =
        ⟨[.tokensLoaded 2 "file"], .ok scribbledTokens⟩ ∧
      (loadTokens (.holding .inline (.arr (scribbledTokens.map Token.toPair)))
        (some "file")).outcome = .ok [⟨"\x22\\", "\t\x7f é", 0, 0⟩, ⟨"𝄞", "", 0, 0⟩] ∧
      loadTerminals (.holding (.indented 2) (.arr (scribbledTerminals.map Terminal.toJson)))
        (some "file") = ⟨[.terminalsLoaded 2 "file"], .ok scribbledTerminals⟩ ∧
      (loadTerminals (.holding .inline (.arr (scribbledTerminals.map fun terminal =>
        .str terminal.name))) (some "file")).outcome = .ok [⟨"𝄞", ""⟩, ⟨"\x22", ""⟩] ∧
      loadTerminals (.holding .inline (.obj (scribbledTerminals.map Terminal.toMember)))
        (some "file") = ⟨[.terminalsLoaded 2 "file"], .ok scribbledTerminals⟩ := by
  have hpath : '\x00' ∉ "file".toList := by decide
  have hfits : ∀ token ∈ scribbledTokens, token.Fits := by
    refine List.forall_mem_cons.mpr ⟨⟨by decide, by decide⟩, ?_⟩
    exact List.forall_mem_singleton.mpr ⟨by decide, by decide⟩
  have hnames : (scribbledTerminals.map Terminal.name).Nodup := by decide
  have h (layout : Json.Layout) (json : Json) :=
    loading_undoes_writing (.holding layout json) "file" layout hpath
  refine ⟨hfits, hnames, ?_, ?_, ?_, ?_, ?_⟩
  · exact (h _ _).1 _ hfits Files.holdsJson_holding
  · exact (h _ _).2.1 _ Files.holdsJson_holding
  · exact (h _ _).2.2.1 _ Files.holdsJson_holding
  · exact (h _ _).2.2.2.1 _ Files.holdsJson_holding
  · exact (h _ _).2.2.2.2 _ hnames Files.holdsJson_holding

end TokenGrammar
