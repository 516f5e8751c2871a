import TokenGrammar.Failure

/-!
# Events and sessions

While a command runs it records events. A session is a computation that may fail and keeps the
events recorded before that. Every event has a level and is recorded on the channel of the part of
the program that it belongs to; only the channel of the command itself depends on how the command
was started.

## Main definitions

* `Event` — what is recorded
* `Event.render` — an event as a line
* `Session` — events, and a result or a failure
-/

namespace TokenGrammar

/-- How urgent an event is. -/
inductive Level
  | debug
  | info
  | warning
  deriving DecidableEq, Repr

/-- The name of a level. -/
def Level.name : Level → String
  | debug => "DEBUG"
  | info => "INFO"
  | warning => "WARNING"

/-- What is recorded while a command runs. -/
inductive Event
  | terminalsLoaded (count : Nat) (path : String)
  | tokensLoaded (count : Nat) (path : String)
  /-- A non-terminal has no alternatives. -/
  | barrenNonterminal (name : String)
  | grammarLoaded (nonterminals : Nat) (start : String)
  | derivationBegun (tokens : Nat) (start : String)
  | derivationFound (start : String)
  | treeWritten (path : String)
  deriving DecidableEq, Repr

namespace Event

/-- The level of an event. -/
def level : Event → Level
  | barrenNonterminal _ => .warning
  | treeWritten _ => .info
  | _ => .debug

/-- The channel of an event, where the command itself records on the channel `command`. -/
def channel (command : String) : Event → String
  | terminalsLoaded _ _ => "gpc.gpc_tokens"
  | tokensLoaded _ _ => "gpc.gpc_tokens"
  | barrenNonterminal _ => "gpc.gpc_grammar"
  | grammarLoaded _ _ => "gpc.gpc_grammar"
  | derivationBegun _ _ => "gpc.gpc_parser"
  | derivationFound _ => "gpc.gpc_parser"
  | treeWritten _ => command

/-- The wording of an event. -/
def message : Event → String
  | terminalsLoaded count path =>
    "Loaded " ++ toString count ++ " terminal definitions from " ++ path
  | tokensLoaded count path => "Loaded " ++ toString count ++ " tokens from " ++ path
  | barrenNonterminal name => "Non-terminal " ++ name ++ " has no productions"
  | grammarLoaded nonterminals start =>
    "Loaded grammar with " ++ toString nonterminals ++ " non-terminals, start symbol " ++ start
  | derivationBegun tokens start => "Deriving " ++ toString tokens ++ " tokens from " ++ start
  | derivationFound start => "Derived parse tree for " ++ start
  | treeWritten path => "Wrote parse tree to " ++ path

/-- An event as a line. -/
def render (command : String) (event : Event) : String :=
  event.level.name ++ " " ++ event.channel command ++ ": " ++ event.message

end Event

/-- The channel of a command that is called by its name. -/
def commandChannel : String := "gpc.gpc_cli"

/-- A computation that records events and may fail; the events before a failure are kept. -/
structure Session (α : Type) where
  /-- What is recorded, in order. -/
  events : List Event
  /-- The result, or why there is none. -/
  outcome : Except Failure α

namespace Session

variable {α β : Type}

/-- A result without events. -/
def pure (a : α) : Session α := ⟨[], .ok a⟩

/-- A failure without events. -/
def fail (failure : Failure) : Session α := ⟨[], .error failure⟩

/-- One computation after another: if the first fails, the second does not run. -/
def bind (session : Session α) (next : α → Session β) : Session β :=
  match session.outcome with
  | .ok a =>
    let rest := next a
    ⟨session.events ++ rest.events, rest.outcome⟩
  | .error failure => ⟨session.events, .error failure⟩

instance : Monad Session where
  pure := Session.pure
  bind := Session.bind

/-- Records events. -/
def record (events : List Event) : Session Unit := ⟨events, .ok ()⟩

/-- A result or a failure without events. -/
def ofExcept (outcome : Except Failure α) : Session α := ⟨[], outcome⟩

@[simp] theorem pure_bind (a : α) (next : α → Session β) : (pure a).bind next = next a := rfl

@[simp] theorem fail_bind (failure : Failure) (next : α → Session β) :
    (fail failure).bind next = fail failure := rfl

@[simp] theorem outcome_pure (a : α) : (Pure.pure a : Session α).outcome = .ok a := rfl

@[simp] theorem outcome_fail (failure : Failure) :
    (fail failure : Session α).outcome = .error failure := rfl

@[simp] theorem outcome_record (events : List Event) : (record events).outcome = .ok () := rfl

@[simp] theorem outcome_ofExcept (outcome : Except Failure α) :
    (ofExcept outcome).outcome = outcome := rfl

/-- The outcome of one computation after another. -/
theorem outcome_bind (session : Session α) (next : α → Session β) :
    (session >>= next).outcome = session.outcome.bind fun a => (next a).outcome := by
  change (session.bind next).outcome = _
  rw [bind]
  cases session.outcome <;> rfl

/-- There is a result exactly if each of two computations has one. -/
theorem outcome_bind_eq_ok_iff {session : Session α} {next : α → Session β} {b : β} :
    (session >>= next).outcome = .ok b ↔
      ∃ a, session.outcome = .ok a ∧ (next a).outcome = .ok b := by
  rw [outcome_bind]
  cases session.outcome <;> simp [Except.bind]

end Session

end TokenGrammar
