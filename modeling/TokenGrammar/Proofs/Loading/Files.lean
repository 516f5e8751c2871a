import TokenGrammar.Loading
import TokenGrammar.Proofs.Json.RoundTrip
import TokenGrammar.Proofs.Text.LineReader

/-!
# Loading files

A file is opened by a path that has no null character. A JSON file is decoded as a whole and read as
one value, which is then taken as terminals or tokens; a grammar is read line by line. Each step may
fail in ways of its own, and what fails first is the failure. What is loaded depends on nothing but
what is at the path.

## Main definitions

* `Files.input` — a path and what is there
* `Files.HoldsJson`, `Files.holding` — files that a JSON value is written to

## Main results

* `readJsonFile_of_text`, `readJsonFile_of_undecodable` — a JSON file that is there
* `readJsonFile_write`, `readJsonFile_of_holdsJson` — a JSON file that a value is written to
* `loadTerminals_eq`, `loadTokens_eq`, `loadGrammar_eq` — what a file is loaded as, and what is
  recorded
* `loadTerminals_congr`, `loadTokens_congr`, `loadGrammar_congr` — loading looks at one file only
-/

namespace TokenGrammar

/-- A path, if one is given, and what the files have there. -/
def Files.input (files : Files) (path : Option String) :
    Option (String × Except OpenFault (List UInt8)) :=
  path.map fun path => (path, files.read path)

/-- The file at a path is what is written of a JSON value. -/
def Files.HoldsJson (files : Files) (path : String) (layout : Json.Layout) (json : Json) : Prop :=
  files.read path = .ok (Utf8.encode (Json.write layout 0 json))

/-- The files that hold a JSON value at every path. -/
def Files.holding (layout : Json.Layout) (json : Json) : Files :=
  ⟨fun _ => .ok (Utf8.encode (Json.write layout 0 json))⟩

theorem Files.holdsJson_holding {path : String} {layout : Json.Layout} {json : Json} :
    (holding layout json).HoldsJson path layout json := rfl

variable {files files' : Files} {path : String} {bytes : List UInt8} {text : List Char}
  {fault : InputFault → ConfigFault}

theorem checkPath_eq_ok (h : '\x00' ∉ path.toList) : checkPath (some path) = .ok path := by
  rw [checkPath, if_neg]
  rwa [List.contains_iff_mem]

theorem checkPath_eq_error (h : '\x00' ∈ path.toList) :
    checkPath (some path) = .error .nullInPath :=
  if_pos (List.contains_iff_mem.mpr h)

/-! ### JSON files -/

theorem readJsonFile_of_text (hfile : files.read path = .ok bytes)
    (htext : Text.ofFile bytes = .ok text) :
    readJsonFile files path fault = (Json.read text).mapError (jsonFailure fault text) := by
  simp only [readJsonFile, hfile, htext]

theorem readJsonFile_of_undecodable {cause : Utf8.Fault} (hfile : files.read path = .ok bytes)
    (htext : Text.ofFile bytes = .error cause) :
    readJsonFile files path fault = .error (.config (fault (.undecodable cause))) := by
  simp only [readJsonFile, hfile, htext]

/-- A file that a value is written to is read as that value, whatever the layout and however many
blanks follow. -/
theorem readJsonFile_write {json : Json} {layout : Json.Layout} {spaces : List Char}
    (hjson : json.Recoverable) (hdepth : json.depth ≤ Json.nestingLimit)
    (hspaces : ∀ c ∈ spaces, Json.isSpace c = true) (hreturn : '\r' ∉ spaces)
    (hfile : files.read path = .ok (Utf8.encode (Json.write layout 0 json ++ spaces))) :
    readJsonFile files path fault = .ok json := by
  have hplain : '\r' ∉ Json.write layout 0 json ++ spaces := by
    rw [List.mem_append, not_or]
    exact ⟨fun h => absurd (Json.graphic_write layout 0 json _ h) (by decide), hreturn⟩
  rw [readJsonFile_of_text hfile (Text.ofFile_encode hplain), Json.read_eq_readWithin,
    Json.readWithin_write hjson hdepth hspaces]
  rfl

theorem readJsonFile_of_holdsJson {json : Json} {layout : Json.Layout}
    (h : files.HoldsJson path layout json) (hjson : json.Recoverable)
    (hdepth : json.depth ≤ Json.nestingLimit) (fault : InputFault → ConfigFault) :
    readJsonFile files path fault = .ok json := by
  rw [Files.HoldsJson, ← List.append_nil (Json.write layout 0 json)] at h
  exact readJsonFile_write hjson hdepth (List.forall_mem_nil _) List.not_mem_nil h

/-- What loading terminals comes to, for a path that has no null character. -/
theorem loadTerminals_eq (hpath : '\x00' ∉ path.toList) :
    loadTerminals files (some path) =
      match readJsonFile files path (.unreadableTerminals path) with
      | .error failure => .fail failure
      | .ok json =>
        match Terminal.ofJson json with
        | .error fault => .fail (.config fault)
        | .ok terminals => ⟨[.terminalsLoaded terminals.length path], .ok terminals⟩ := by
  rw [loadTerminals, checkPath_eq_ok hpath]
  change (Session.pure path).bind _ = _
  rw [Session.pure_bind]
  cases readJsonFile files path (.unreadableTerminals path) with
  | error failure => rfl
  | ok json =>
    change (Session.ofExcept ((Terminal.ofJson json).mapError .config)).bind _ = _
    dsimp only
    cases Terminal.ofJson json <;> rfl

/-- What loading tokens comes to, for a path that has no null character. -/
theorem loadTokens_eq (hpath : '\x00' ∉ path.toList) :
    loadTokens files (some path) =
      match readJsonFile files path (.unreadableTokens path) with
      | .error failure => .fail failure
      | .ok json =>
        match Token.ofJson json with
        | .error fault => .fail (.config fault)
        | .ok tokens => ⟨[.tokensLoaded tokens.length path], .ok tokens⟩ := by
  rw [loadTokens, checkPath_eq_ok hpath]
  change (Session.pure path).bind _ = _
  rw [Session.pure_bind]
  cases readJsonFile files path (.unreadableTokens path) with
  | error failure => rfl
  | ok json =>
    change (Session.ofExcept ((Token.ofJson json).mapError .config)).bind _ = _
    dsimp only
    cases Token.ofJson json <;> rfl

/-! ### Grammars -/

/-- What loading a grammar comes to, for a path that has no null character. -/
theorem loadGrammar_eq (hpath : '\x00' ∉ path.toList) (terminals : List Terminal) :
    loadGrammar files terminals (some path) =
      match files.read path with
      | .error cause => .fail (.config (.unreadableGrammar path (.unopened cause)))
      | .ok bytes =>
        announce (Grammar.readIncoming terminals path (Text.linesOfFile bytes)) := by
  rw [loadGrammar, checkPath_eq_ok hpath]
  refine (Session.pure_bind path _).trans ?_
  cases files.read path <;> rfl

/-! ### What is looked at -/

section Congr

variable {argument argument' : Option String}

theorem input_eq_iff : files.input argument = files'.input argument' ↔
    argument = argument' ∧ ∀ path ∈ argument, files.read path = files'.read path := by
  cases argument <;> cases argument' <;> simp +contextual [Files.input]

theorem loadTerminals_congr (h : files.input argument = files'.input argument') :
    loadTerminals files argument = loadTerminals files' argument' := by
  obtain ⟨rfl, hread⟩ := input_eq_iff.mp h
  cases argument with
  | none => rfl
  | some path =>
    by_cases hpath : '\x00' ∈ path.toList
    · rw [loadTerminals, loadTerminals, checkPath_eq_error hpath]
      rfl
    · rw [loadTerminals_eq hpath, loadTerminals_eq hpath]
      simp only [readJsonFile, hread path rfl]

theorem loadTokens_congr (h : files.input argument = files'.input argument') :
    loadTokens files argument = loadTokens files' argument' := by
  obtain ⟨rfl, hread⟩ := input_eq_iff.mp h
  cases argument with
  | none => rfl
  | some path =>
    by_cases hpath : '\x00' ∈ path.toList
    · rw [loadTokens, loadTokens, checkPath_eq_error hpath]
      rfl
    · rw [loadTokens_eq hpath, loadTokens_eq hpath]
      simp only [readJsonFile, hread path rfl]

theorem loadGrammar_congr (terminals : List Terminal)
    (h : files.input argument = files'.input argument') :
    loadGrammar files terminals argument = loadGrammar files' terminals argument' := by
  obtain ⟨rfl, hread⟩ := input_eq_iff.mp h
  cases argument with
  | none => rfl
  | some path =>
    by_cases hpath : '\x00' ∈ path.toList
    · rw [loadGrammar, loadGrammar, checkPath_eq_error hpath]
      rfl
    · rw [loadGrammar_eq hpath, loadGrammar_eq hpath, hread path rfl]

end Congr

end TokenGrammar
