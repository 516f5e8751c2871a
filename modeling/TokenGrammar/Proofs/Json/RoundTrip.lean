import Mathlib.Data.List.Nodup
import TokenGrammar.Proofs.Json.Graphic

/-!
# Reading undoes writing

A value is written lexeme by lexeme, and the reader takes the lexemes up one by one. Where a value
is awaited, all that is written of one value leads to the state after this value, with the same
arrays and objects open as before; this goes by recursion on the value, as writing does. Two things
of a value are not told by its text: which of two members with one key comes first, and what is
lost when a number is written in decimal. A value in which neither occurs is given back.

## Main definitions

* `Json.Recoverable` — no key twice, no binary numbers, no integer beyond the limit
* `Json.depth` — how many arrays and objects are open at a time
* `State.Awaits` — the states in which a value may begin
* `State.Crosses` — what some characters do to the reader
* `Json.readWithin` — the value of a text, for any limit to the nesting

## Main results

* `recoverableAll_iff`, `depthAll_le_iff` — arrays item by item, and objects likewise
* `crosses_write` — what is written of a value is read as that value
* `readWithin_write` — reading undoes writing
* `write_injective` — different values are written differently
-/

namespace TokenGrammar.Json

mutual

/-- A value that its text gives back: it has no binary numbers, no integer with too many digits, and
no object with two members of the same key. -/
def Recoverable : Json → Prop
  | null => True
  | bool _ => True
  | int n => (Nat.toDigits 10 n.natAbs).length ≤ digitLimit
  | float _ => False
  | str _ => True
  | arr items => RecoverableAll items
  | obj members => (members.map Prod.fst).Nodup ∧ RecoverableMembers members

/-- Items that their text gives back. -/
def RecoverableAll : List Json → Prop
  | [] => True
  | item :: items => Recoverable item ∧ RecoverableAll items

/-- Members whose values are given back by their text. -/
def RecoverableMembers : List (String × Json) → Prop
  | [] => True
  | (_, value) :: members => Recoverable value ∧ RecoverableMembers members

end

mutual

/-- How many arrays and objects are open at a time while a value is read. -/
def depth : Json → Nat
  | arr items => depthAll items + 1
  | obj members => depthMembers members + 1
  | _ => 0

/-- How many arrays and objects are open at a time inside some items. -/
def depthAll : List Json → Nat
  | [] => 0
  | item :: items => max (depth item) (depthAll items)

/-- How many arrays and objects are open at a time inside some members. -/
def depthMembers : List (String × Json) → Nat
  | [] => 0
  | (_, value) :: members => max (depth value) (depthMembers members)

end

theorem recoverableAll_iff {items : List Json} :
    RecoverableAll items ↔ ∀ item ∈ items, item.Recoverable := by
  induction items with
  | nil => simp [RecoverableAll]
  | cons item items ih => rw [RecoverableAll, ih, List.forall_mem_cons]

theorem recoverableMembers_iff {members : List (String × Json)} :
    RecoverableMembers members ↔ ∀ member ∈ members, member.2.Recoverable := by
  induction members with
  | nil => simp [RecoverableMembers]
  | cons member members ih => rw [RecoverableMembers, ih, List.forall_mem_cons]

theorem depthAll_le_iff {items : List Json} {n : Nat} :
    depthAll items ≤ n ↔ ∀ item ∈ items, item.depth ≤ n := by
  induction items with
  | nil => simp [depthAll]
  | cons item items ih => rw [depthAll, Nat.max_le, ih, List.forall_mem_cons]

theorem depthMembers_le_iff {members : List (String × Json)} {n : Nat} :
    depthMembers members ≤ n ↔ ∀ member ∈ members, member.2.depth ≤ n := by
  induction members with
  | nil => simp [depthMembers]
  | cons member members ih => rw [depthMembers, Nat.max_le, ih, List.forall_mem_cons]

namespace State

/-- The states in which a value may begin, inside the arrays and objects of a stack. -/
inductive Awaits : State → List Frame → Prop
  | value (stack : List Frame) : Awaits (.value stack) stack
  /-- The first item of an array. -/
  | firstItem (stack : List Frame) : Awaits (.firstItem stack) (.array [] :: stack)

/-- In front of some text, these characters lead from one state to another. -/
def Crosses (limit : Nat) (state : State) (chars : List Char) (state' : State)
    (rest : List Char) : Prop :=
  ∀ finish offset, run limit finish state (lexemes offset (chars ++ rest)) =
    run limit finish state' (lexemes (offset + chars.length) rest)

end State

/-- The value of a text in which at most `limit` arrays and objects are open at a time. -/
def readWithin (limit : Nat) (text : List Char) : Except ReadFault Json :=
  if text.head? = some '\ufeff' then .error (.malformed .byteOrderMark 0)
  else State.run limit text.length (.value []) (lexemes 0 text)

theorem read_eq_readWithin (text : List Char) : read text = readWithin nestingLimit text := rfl

variable {limit : Nat} {layout : Layout} {level : Nat} {rest chars chars' spaces : List Char}
  {lexeme : Lexeme} {stack : List Frame}

/-! ### One lexeme after the other -/

namespace State

variable {state state' state'' : State}

theorem Crosses.append (h : state.Crosses limit chars state' (chars' ++ rest))
    (h' : state'.Crosses limit chars' state'' rest) :
    state.Crosses limit (chars ++ chars') state'' rest := by
  intro finish offset
  rw [List.append_assoc, h finish offset, h' finish (offset + chars.length), List.length_append,
    Nat.add_assoc]

theorem crosses_of_spaces (h : ∀ c ∈ spaces, isSpace c = true) (state : State)
    (rest : List Char) : state.Crosses limit spaces state rest := by
  intro finish offset
  rw [lexemes_append_of_spaces h]

/-- Wherever a value may begin, its first lexeme has the same effect. -/
theorem Awaits.accept_eq {outcome : Except ReadFault State} (h : state.Awaits stack)
    (hbegin : beginValue limit stack lexeme = some outcome) :
    state.accept limit lexeme = some outcome := by
  cases h with
  | value => exact hbegin
  | firstItem =>
    -- A closing bracket would end the array, but no value begins with one.
    cases lexeme with
    | closeArray => cases hbegin
    | _ => exact hbegin

end State

variable {state state' : State}

/-- One lexeme that is accepted. -/
theorem Reads.crosses (h : Reads chars lexeme rest)
    (haccept : state.accept limit lexeme = some (.ok state')) :
    state.Crosses limit chars state' rest := by
  intro finish offset
  have hstep : state.step limit ⟨offset, lexeme⟩ = .ok state' := by
    rw [State.step, haccept]
    rfl
  simp only [h offset, State.run, hstep]

/-! ### Layouts -/

theorem isSpace_of_mem_gap {c : Char} (h : c ∈ layout.gap level) : isSpace c = true := by
  cases layout with
  | inline => cases h
  | indented width =>
    rcases List.mem_cons.mp h with rfl | h
    · rfl
    · rw [(List.mem_replicate.mp h).2]
      rfl

theorem isSpace_of_mem_separator {c : Char} (h : c ∈ layout.separator level) :
    isSpace c = true := by
  cases layout with
  | inline =>
    rw [List.mem_singleton.mp h]
    rfl
  | indented width =>
    have hgap : c ∈ (Layout.indented width).gap level := h
    exact isSpace_of_mem_gap hgap

theorem endsNumeral_cons {c : Char}
    (h : c.isDigit = false ∧ c ≠ '.' ∧ c ≠ 'e' ∧ c ≠ 'E') (rest : List Char) :
    EndsNumeral (c :: rest) := by
  rintro _ ⟨⟩
  exact h

/-- After the last item comes a newline or a closing bracket. -/
theorem endsNumeral_gap_append (h : EndsNumeral rest) : EndsNumeral (layout.gap level ++ rest) := by
  cases layout with
  | inline => exact h
  | indented width => exact endsNumeral_cons (by decide) _

theorem endsNumeral_writeItems (items : List Json) (h : EndsNumeral rest) :
    EndsNumeral (writeItems layout level items ++ rest) := by
  cases items with
  | nil => exact h
  | cons item items => exact endsNumeral_cons (by decide) _

theorem endsNumeral_writeMembers (members : List (String × Json)) (h : EndsNumeral rest) :
    EndsNumeral (writeMembers layout level members ++ rest) := by
  cases members with
  | nil => exact h
  | cons member members => exact endsNumeral_cons (by decide) _

/-! ### Values -/

theorem beginValue_integer {digits : List Char} (h : digits.length ≤ digitLimit)
    (negative : Bool) (stack : List Frame) :
    State.beginValue limit stack (.integer negative digits) =
      some (.ok (.after (.int (if negative then -(digitsValue digits : Int)
        else digitsValue digits)) stack)) := by
  simp only [State.beginValue, if_pos h]

theorem beginValue_openArray (h : stack.length < limit) :
    State.beginValue limit stack .openArray = some (.ok (.firstItem stack)) := by
  simp only [State.beginValue, State.descend, if_pos h]

theorem beginValue_openObject (h : stack.length < limit) :
    State.beginValue limit stack .openObject = some (.ok (.firstKey stack)) := by
  simp only [State.beginValue, State.descend, if_pos h]

/-- An integer is read as that integer, if no digits follow. -/
theorem crosses_int (hstate : state.Awaits stack) {n : Int}
    (hn : (Nat.toDigits 10 n.natAbs).length ≤ digitLimit) (hrest : EndsNumeral rest) :
    state.Crosses limit (toString n).toList (.after (.int n) stack) rest := by
  match n with
  | .ofNat n =>
    have hdigits : (Nat.toDigits 10 n).length ≤ digitLimit := hn
    rw [toList_toString_ofNat]
    refine ((isWhole_toDigits n).reads hrest).crosses (hstate.accept_eq ?_)
    rw [beginValue_integer hdigits, digitsValue_toDigits]
    rfl
  | .negSucc n =>
    have hdigits : (Nat.toDigits 10 (n + 1)).length ≤ digitLimit := hn
    rw [toList_toString_negSucc]
    refine ((isWhole_toDigits (n + 1)).reads_negative hrest).crosses (hstate.accept_eq ?_)
    rw [beginValue_integer hdigits, digitsValue_toDigits]
    rfl

/-- A key and the colon after it. -/
theorem crosses_key {members : Members} {key : String}
    (haccept : state.accept limit (.string key) = some (.ok (.colon members key stack)))
    (rest : List Char) :
    state.Crosses limit (writeString key ++ [':', ' ']) (.value (.member members key :: stack))
      rest := by
  have hcolon : Reads [':'] .colon ([' '] ++ rest) := .of_readLexeme rfl rfl rfl
  have hvalue : (State.colon members key stack).accept limit .colon =
      some (.ok (.value (.member members key :: stack))) := rfl
  have hspace : ∀ c ∈ [' '], isSpace c = true := by simp [isSpace]
  refine ((reads_writeString key _).crosses haccept).append ?_
  exact (hcolon.crosses hvalue).append (State.crosses_of_spaces hspace _ rest)

/-- An opening bracket, and the beginning of the next line. -/
theorem crosses_open {bracket : Char} (hread : ∀ rest, Reads [bracket] lexeme rest)
    (haccept : state.accept limit lexeme = some (.ok state')) (layout : Layout) (level : Nat)
    (rest : List Char) : state.Crosses limit (bracket :: layout.gap level) state' rest :=
  ((hread _).crosses haccept).append
    (State.crosses_of_spaces (fun _ => isSpace_of_mem_gap) state' rest)

/-- A comma, and the beginning of the next line or a blank. -/
theorem crosses_comma (haccept : state.accept limit .comma = some (.ok state'))
    (layout : Layout) (level : Nat) (rest : List Char) :
    state.Crosses limit (',' :: layout.separator level) state' rest := by
  have hread : Reads [','] .comma (layout.separator level ++ rest) := .of_readLexeme rfl rfl rfl
  exact (hread.crosses haccept).append
    (State.crosses_of_spaces (fun _ => isSpace_of_mem_separator) state' rest)

/-- A closing bracket on a line of its own, or right behind what it closes. -/
theorem crosses_close {bracket : Char} (hread : Reads [bracket] lexeme rest)
    (haccept : state.accept limit lexeme = some (.ok state')) (layout : Layout) (level : Nat) :
    state.Crosses limit (layout.gap level ++ [bracket]) state' rest :=
  (State.crosses_of_spaces (fun _ => isSpace_of_mem_gap) state _).append (hread.crosses haccept)

/-- Behind an item comes the next one or the end of the array, and no numeral goes on there. -/
theorem endsNumeral_after_item (layout : Layout) (level : Nat) (items : List Json)
    (rest : List Char) :
    EndsNumeral (writeItems layout (level + 1) items ++ (layout.gap level ++ [']']) ++ rest) := by
  rw [List.append_assoc, List.append_assoc]
  exact endsNumeral_writeItems items (endsNumeral_gap_append (endsNumeral_cons (by decide) rest))

theorem endsNumeral_after_member (layout : Layout) (level : Nat) (members : List (String × Json))
    (rest : List Char) :
    EndsNumeral
      (writeMembers layout (level + 1) members ++ (layout.gap level ++ ['\x7d']) ++ rest) := by
  rw [List.append_assoc, List.append_assoc]
  exact endsNumeral_writeMembers members
    (endsNumeral_gap_append (endsNumeral_cons (by decide) rest))

mutual

/-- What is written of a value leads from where a value is awaited to where it has been read. -/
theorem crosses_write {v : Json} (hv : v.Recoverable) {level : Nat} {state : State}
    {stack : List Frame} {rest : List Char} (hstate : state.Awaits stack)
    (hdepth : stack.length + v.depth ≤ limit) (hrest : EndsNumeral rest) :
    state.Crosses limit (write layout level v) (.after v stack) rest := by
  match v with
  | null => exact Reads.crosses (.of_readLexeme rfl rfl rfl) (hstate.accept_eq rfl)
  | bool true => exact Reads.crosses (.of_readLexeme rfl rfl rfl) (hstate.accept_eq rfl)
  | bool false => exact Reads.crosses (.of_readLexeme rfl rfl rfl) (hstate.accept_eq rfl)
  | int n =>
    rw [Recoverable] at hv
    exact crosses_int hstate hv hrest
  | float x => exact hv.elim
  | str s => exact (reads_writeString s rest).crosses (hstate.accept_eq rfl)
  | arr [] =>
    rw [depth, depthAll] at hdepth
    have hopen : Reads ['['] .openArray ([']'] ++ rest) := .of_readLexeme rfl rfl rfl
    have hclose : Reads [']'] .closeArray rest := .of_readLexeme rfl rfl rfl
    have hbegin := beginValue_openArray (show stack.length < limit by omega)
    exact (hopen.crosses (hstate.accept_eq hbegin)).append (hclose.crosses rfl)
  | arr (item :: items) =>
    rw [Recoverable, RecoverableAll] at hv
    rw [depth, depthAll] at hdepth
    have hbegin := beginValue_openArray (show stack.length < limit by omega)
    have hitem : (State.firstItem stack).Crosses limit (write layout (level + 1) item)
        (.after item (.array [] :: stack)) _ :=
      crosses_write hv.1 (.firstItem stack) (by rw [List.length_cons]; omega)
        (endsNumeral_after_item layout level items rest)
    have hitems : (State.after item (.array [] :: stack)).Crosses limit _ _ rest :=
      crosses_writeItems hv.2 level item [] (by omega) rest
    have hopen (rest : List Char) : Reads ['['] .openArray rest := .of_readLexeme rfl rfl rfl
    -- The parts come in the order in which they are written, only bracketed the other way.
    have hall := (crosses_open hopen (hstate.accept_eq hbegin) layout (level + 1) _).append
      (hitem.append hitems)
    simpa [write] using hall
  | obj [] =>
    rw [depth, depthMembers] at hdepth
    have hopen : Reads ['\x7b'] .openObject (['\x7d'] ++ rest) := .of_readLexeme rfl rfl rfl
    have hclose : Reads ['\x7d'] .closeObject rest := .of_readLexeme rfl rfl rfl
    have hbegin := beginValue_openObject (show stack.length < limit by omega)
    exact (hopen.crosses (hstate.accept_eq hbegin)).append (hclose.crosses rfl)
  | obj ((key, value) :: members) =>
    rw [Recoverable, RecoverableMembers] at hv
    rw [depth, depthMembers] at hdepth
    have hbegin := beginValue_openObject (show stack.length < limit by omega)
    have hopen (rest : List Char) : Reads ['\x7b'] .openObject rest := .of_readLexeme rfl rfl rfl
    have hvalue : (State.value (.member [] key :: stack)).Crosses limit
        (write layout (level + 1) value) (.after value (.member [] key :: stack)) _ :=
      crosses_write hv.2.1 (.value _) (by rw [List.length_cons]; omega)
        (endsNumeral_after_member layout level members rest)
    have hmembers : (State.after value (.member [] key :: stack)).Crosses limit _ _ rest :=
      crosses_writeMembers hv.2.2 level value hv.1 (by omega) rest
    have hall := (crosses_open hopen (hstate.accept_eq hbegin) layout (level + 1) _).append
      ((crosses_key rfl _).append (hvalue.append hmembers))
    simpa [write] using hall

/-- The further items of an array, and its closing bracket. -/
theorem crosses_writeItems {items : List Json} (hitems : RecoverableAll items) (level : Nat)
    {stack : List Frame} (v : Json) (done : List Json)
    (hdepth : stack.length + 1 + depthAll items ≤ limit) (rest : List Char) :
    (State.after v (.array done :: stack)).Crosses limit
      (writeItems layout (level + 1) items ++ (layout.gap level ++ [']']))
      (.after (.arr ((v :: done).reverse ++ items)) stack) rest := by
  match items with
  | [] =>
    rw [List.append_nil]
    exact crosses_close (.of_readLexeme rfl rfl rfl) rfl layout level
  | item :: items =>
    rw [RecoverableAll] at hitems
    rw [depthAll] at hdepth
    have hcomma : (State.after v (.array done :: stack)).accept limit .comma =
        some (.ok (.value (.array (v :: done) :: stack))) := rfl
    have hitem : (State.value (.array (v :: done) :: stack)).Crosses limit
        (write layout (level + 1) item) (.after item (.array (v :: done) :: stack)) _ :=
      crosses_write hitems.1 (.value _) (by rw [List.length_cons]; omega)
        (endsNumeral_after_item layout level items rest)
    have hlater : (State.after item (.array (v :: done) :: stack)).Crosses limit _ _ rest :=
      crosses_writeItems hitems.2 level item (v :: done) (by omega) rest
    have hall := (crosses_comma hcomma layout (level + 1) _).append (hitem.append hlater)
    simpa [writeItems] using hall

/-- The further members of an object, and its closing bracket. A new key goes to the end. -/
theorem crosses_writeMembers {members : List (String × Json)}
    (hmembers : RecoverableMembers members) (level : Nat) {stack : List Frame} {key : String}
    (v : Json) {done : List (String × Json)}
    (hkeys : ((done ++ (key, v) :: members).map Prod.fst).Nodup)
    (hdepth : stack.length + 1 + depthMembers members ≤ limit) (rest : List Char) :
    (State.after v (.member done key :: stack)).Crosses limit
      (writeMembers layout (level + 1) members ++ (layout.gap level ++ ['\x7d']))
      (.after (.obj (done ++ (key, v) :: members)) stack) rest := by
  -- The reader would put the value in the place of an earlier one with the same key.
  have hinsert : Members.insert key v done = done ++ [(key, v)] := by
    refine Members.insert_of_not_mem (fun hmem => ?_) v
    rw [List.map_append, List.map_cons, List.nodup_append] at hkeys
    exact hkeys.2.2 key hmem key List.mem_cons_self rfl
  match members with
  | [] =>
    have haccept : (State.after v (.member done key :: stack)).accept limit .closeObject =
        some (.ok (.after (.obj (done ++ [(key, v)])) stack)) := by rw [← hinsert]; rfl
    exact crosses_close (.of_readLexeme rfl rfl rfl) haccept layout level
  | (key', value) :: members =>
    rw [RecoverableMembers] at hmembers
    rw [depthMembers] at hdepth
    have hcomma : (State.after v (.member done key :: stack)).accept limit .comma =
        some (.ok (.key (done ++ [(key, v)]) stack)) := by rw [← hinsert]; rfl
    have hvalue : (State.value (.member (done ++ [(key, v)]) key' :: stack)).Crosses limit
        (write layout (level + 1) value)
        (.after value (.member (done ++ [(key, v)]) key' :: stack)) _ :=
      crosses_write hmembers.1 (.value _) (by rw [List.length_cons]; omega)
        (endsNumeral_after_member layout level members rest)
    have hlater : (State.after value (.member (done ++ [(key, v)]) key' :: stack)).Crosses
        limit _ _ rest :=
      crosses_writeMembers hmembers.2 level value (by simpa using hkeys) (by omega) rest
    have hall := (crosses_comma hcomma layout (level + 1) _).append
      ((crosses_key rfl _).append (hvalue.append hlater))
    simpa [writeMembers] using hall

end

/-! ### Whole texts -/

theorem endsNumeral_of_spaces (h : ∀ c ∈ spaces, isSpace c = true) : EndsNumeral spaces := by
  cases spaces with
  | nil => simp [EndsNumeral]
  | cons c spaces =>
    have hc := h c List.mem_cons_self
    refine endsNumeral_cons ⟨?_, ?_, ?_, ?_⟩ spaces
    · by_contra hdigit
      rw [isSpace_of_isDigit (by simpa using hdigit)] at hc
      cases hc
    -- None of the other three characters is a blank.
    all_goals
      rintro rfl
      cases hc

/-- Neither a value nor the blanks after it have a byte order mark in them. -/
theorem head?_write_append_ne (layout : Layout) (level : Nat) (v : Json)
    (h : ∀ c ∈ spaces, isSpace c = true) :
    (write layout level v ++ spaces).head? ≠ some '\ufeff' := by
  intro hhead
  rcases List.mem_append.mp (List.mem_of_mem_head? hhead) with hmem | hmem
  · exact absurd (graphic_write layout level v _ hmem) (by decide)
  · exact absurd (h _ hmem) (by decide)

/-- Reading undoes writing, whatever the layout and however many blanks follow. -/
theorem readWithin_write {v : Json} (hv : v.Recoverable) (hdepth : v.depth ≤ limit)
    (h : ∀ c ∈ spaces, isSpace c = true) (layout : Layout) (level : Nat) :
    readWithin limit (write layout level v ++ spaces) = .ok v := by
  have hstack : ([] : List Frame).length + v.depth ≤ limit := by simpa using hdepth
  have hvalue : (State.value []).Crosses limit (write layout level v) (.after v []) spaces :=
    crosses_write hv (.value []) hstack (endsNumeral_of_spaces h)
  rw [readWithin, if_neg (head?_write_append_ne layout level v h), hvalue, ← List.append_nil spaces,
    State.crosses_of_spaces h, lexemes, State.run]

/-- Different values are written differently. -/
theorem write_injective {v w : Json} (hv : v.Recoverable) (hw : w.Recoverable)
    (h : write layout level v = write layout level w) : v = w := by
  have hspaces : ∀ c ∈ ([] : List Char), isSpace c = true := List.forall_mem_nil _
  -- Both are read within the larger of the two depths.
  have hread : Except.ok v = (Except.ok w : Except ReadFault Json) := by
    rw [← readWithin_write hv (Nat.le_max_left v.depth w.depth) hspaces layout level, h,
      readWithin_write hw (Nat.le_max_right v.depth w.depth) hspaces layout level]
  exact Except.ok.inj hread

end TokenGrammar.Json
