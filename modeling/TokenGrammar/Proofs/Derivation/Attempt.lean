import Mathlib.Data.Nat.Init
import TokenGrammar.Derivation.Parser

/-!
# Laws of attempts

Sequences and alternatives are derived by functions that take the derivation of a symbol as an
argument. What they do with it is said here once, for any such argument: no choice depends on the
trees, a larger limit changes nothing but an attempt that was nested too deeply, and two arguments
that agree where they are asked give the same attempt. The laws of `Parser.attempt` follow by an
induction on the limit.

## Main definitions

* `Attempt.settled` — the attempt that ends with a given result

## Main results

* `deriveFirst_eq_failed_iff`, `deriveFirst_eq_failed_or` — which alternative is taken
* `deriveSequence_map`, `deriveFirst_map` — the trees have no influence on the choice
* `deriveSequence_mono`, `deriveFirst_mono` — more may be derived with a larger limit
* `deriveSequence_congr`, `deriveFirst_congr` — only the questions asked matter
* `Parser.attempt_mono` — an attempt that is not too deep stays as it is under larger limits
-/

namespace TokenGrammar

namespace Attempt

variable {α β γ : Type}

/-- The attempt that ends with a result: something derived up to a place, or nothing. -/
def settled : Option (α × Nat) → Attempt α
  | some (a, next) => derived a next
  | none => failed

@[simp] theorem settled_some (a : α) (next : Nat) :
    settled (some (a, next)) = derived a next := rfl

@[simp] theorem settled_none : settled (none : Option (α × Nat)) = failed := rfl

theorem settled_ne_aborted (result : Option (α × Nat)) (cause : Abort) :
    settled result ≠ aborted cause := by
  rcases result with _ | ⟨a, next⟩ <;> simp

theorem settled_eq_failed_iff {result : Option (α × Nat)} :
    settled result = failed ↔ result = none := by
  rcases result with _ | ⟨a, next⟩ <;> simp

theorem settled_eq_derived_iff {result : Option (α × Nat)} {a : α} {next : Int} :
    settled result = derived a next ↔ ∃ place : Nat, result = some (a, place) ∧ next = place := by
  rcases result with _ | ⟨b, place⟩
  · simp
  · simp only [settled_some, derived.injEq, Option.some.injEq, Prod.mk.injEq]
    constructor
    · rintro ⟨rfl, rfl⟩
      exact ⟨place, ⟨rfl, rfl⟩, rfl⟩
    · rintro ⟨place, ⟨rfl, rfl⟩, rfl⟩
      exact ⟨rfl, rfl⟩

theorem settled_injective : Function.Injective (settled (α := α)) := by
  intro r r' h
  rcases r' with _ | ⟨a, next⟩
  · exact settled_eq_failed_iff.mp h
  · obtain ⟨place, rfl, hplace⟩ := settled_eq_derived_iff.mp h
    rw [Int.natCast_inj.mp hplace]

@[simp] theorem map_eq_aborted_iff {f : α → β} {attempt : Attempt α} {cause : Abort} :
    attempt.map f = aborted cause ↔ attempt = aborted cause := by
  cases attempt <;> simp [map]

@[simp] theorem map_eq_failed_iff {f : α → β} {attempt : Attempt α} :
    attempt.map f = failed ↔ attempt = failed := by
  cases attempt <;> simp [map]

theorem map_eq_derived_iff {f : α → β} {attempt : Attempt α} {b : β} {next : Int} :
    attempt.map f = derived b next ↔ ∃ a, attempt = derived a next ∧ f a = b := by
  cases attempt with
  | derived a place =>
    simp only [map, derived.injEq]
    constructor
    · rintro ⟨hresult, hnext⟩
      exact ⟨a, ⟨rfl, hnext⟩, hresult⟩
    · rintro ⟨_, ⟨rfl, hnext⟩, hresult⟩
      exact ⟨hresult, hnext⟩
  | failed => simp [map]
  | aborted cause => simp [map]

@[simp] theorem filter_eq_aborted_iff {accepts : Int → Bool} {attempt : Attempt α}
    {cause : Abort} : attempt.filter accepts = aborted cause ↔ attempt = aborted cause := by
  cases attempt with
  | derived a next => simp only [filter]; split <;> simp
  | failed => simp [filter]
  | aborted other => simp [filter]

theorem filter_eq_derived_iff {accepts : Int → Bool} {attempt : Attempt α} {a : α} {next : Int} :
    attempt.filter accepts = derived a next ↔ attempt = derived a next ∧ accepts next = true := by
  cases attempt with
  | derived b place =>
    simp only [filter]
    split
    · next h =>
      simp only [derived.injEq, iff_self_and, and_imp]
      rintro rfl rfl
      exact h
    · next h =>
      simp only [reduceCtorEq, derived.injEq, false_iff, not_and, and_imp]
      rintro rfl rfl
      exact h
  | failed => simp [filter]
  | aborted cause => simp [filter]

theorem filter_eq_failed_iff {accepts : Int → Bool} {attempt : Attempt α} :
    attempt.filter accepts = failed ↔
      attempt = failed ∨ ∃ a next, attempt = derived a next ∧ accepts next = false := by
  cases attempt with
  | derived b place =>
    simp only [filter]
    split
    · next h => simp [h]
    · next h => exact ⟨fun _ => .inr ⟨b, place, rfl, by simpa using h⟩, fun _ => rfl⟩
  | failed => simp [filter]
  | aborted cause => simp [filter]

@[simp] theorem map_map (f : α → β) (g : β → γ) (attempt : Attempt α) :
    (attempt.map f).map g = attempt.map (g ∘ f) := by
  cases attempt <;> rfl

theorem map_filter (f : α → β) (accepts : Int → Bool) (attempt : Attempt α) :
    (attempt.map f).filter accepts = (attempt.filter accepts).map f := by
  cases attempt with
  | derived a next =>
    simp only [map, filter]
    split <;> rfl
  | failed => rfl
  | aborted cause => rfl

theorem map_bind (f : β → γ) (attempt : Attempt α) (next : α → Int → Attempt β) :
    (attempt.bind next).map f = attempt.bind fun a index => (next a index).map f := by
  cases attempt <;> rfl

theorem bind_map (f : α → β) (attempt : Attempt α) (next : β → Int → Attempt γ) :
    (attempt.map f).bind next = attempt.bind fun a index => next (f a) index := by
  cases attempt <;> rfl

/-- What goes on after an attempt goes on in the same way under a larger limit. -/
theorem bind_mono {attempt attempt' : Attempt α} {f f' : α → Int → Attempt β}
    (hattempt : attempt ≠ aborted .tooDeep → attempt' = attempt)
    (hf : ∀ a next, f a next ≠ aborted .tooDeep → f' a next = f a next)
    (h : attempt.bind f ≠ aborted .tooDeep) : attempt'.bind f' = attempt.bind f := by
  have hne : attempt ≠ aborted .tooDeep := by
    rintro rfl
    exact h rfl
  rw [hattempt hne]
  cases attempt with
  | derived a next => exact hf a next h
  | failed => rfl
  | aborted cause => rfl

end Attempt

/-! ### Which alternative is taken -/

section First

variable {derive derive' : Symbol → Int → Attempt Tree} {accepts : Int → Bool} {index next : Int}
  {production : Production} {productions earlier later : List Production} {children : List Tree}

theorem deriveFirst_cons_of_failed
    (h : (deriveSequence derive production index).filter accepts = .failed) :
    deriveFirst derive accepts index (production :: later) =
      deriveFirst derive accepts index later := by
  rw [deriveFirst, h]

theorem deriveFirst_cons_of_ne_failed
    (h : (deriveSequence derive production index).filter accepts ≠ .failed) :
    deriveFirst derive accepts index (production :: later) =
      (deriveSequence derive production index).filter accepts := by
  rw [deriveFirst]
  split
  · contradiction
  · rfl

/-- Alternatives that fail are passed over. -/
theorem deriveFirst_append_of_failed
    (h : ∀ production ∈ earlier,
      (deriveSequence derive production index).filter accepts = .failed) :
    deriveFirst derive accepts index (earlier ++ later) =
      deriveFirst derive accepts index later := by
  induction earlier with
  | nil => rfl
  | cons production earlier ih =>
    rw [List.cons_append, deriveFirst_cons_of_failed (h production (by simp)),
      ih fun other hother => h other (by simp [hother])]

theorem deriveFirst_eq_failed_iff :
    deriveFirst derive accepts index productions = .failed ↔
      ∀ production ∈ productions,
        (deriveSequence derive production index).filter accepts = .failed := by
  induction productions with
  | nil => simp [deriveFirst]
  | cons production later ih =>
    by_cases h : (deriveSequence derive production index).filter accepts = .failed
    · simp [deriveFirst_cons_of_failed h, ih, h]
    · simp [deriveFirst_cons_of_ne_failed h, h]

/-- Either all alternatives fail, or the attempt is that at the first one that does not fail. -/
theorem deriveFirst_eq_failed_or (derive : Symbol → Int → Attempt Tree) (accepts : Int → Bool)
    (index : Int) (productions : List Production) :
    deriveFirst derive accepts index productions = .failed ∨
      ∃ earlier production later, productions = earlier ++ production :: later ∧
        (∀ other ∈ earlier, (deriveSequence derive other index).filter accepts = .failed) ∧
        (deriveSequence derive production index).filter accepts ≠ .failed ∧
        deriveFirst derive accepts index productions =
          (deriveSequence derive production index).filter accepts := by
  induction productions with
  | nil => exact .inl rfl
  | cons production later ih =>
    by_cases h : (deriveSequence derive production index).filter accepts = .failed
    · -- The choice is among the alternatives that are left.
      rw [deriveFirst_cons_of_failed h]
      rcases ih with hfailed | ⟨earlier, taken, later, rfl, hearlier, hne, htaken⟩
      · exact .inl hfailed
      · refine .inr ⟨production :: earlier, taken, later, rfl, ?_, hne, htaken⟩
        intro other hother
        rcases List.mem_cons.mp hother with rfl | hother
        · exact h
        · exact hearlier other hother
    · exact .inr ⟨[], production, later, rfl, by simp, h, deriveFirst_cons_of_ne_failed h⟩

end First

/-! ### Other trees -/

section Map

variable (f : Tree → Tree) (derive : Symbol → Int → Attempt Tree)

/-- To change every tree that is derived for a member is to change the trees of the sequence. -/
theorem deriveSequence_map (production : Production) (index : Int) :
    deriveSequence (fun symbol place => (derive symbol place).map f) production index =
      (deriveSequence derive production index).map (List.map f) := by
  induction production generalizing index with
  | nil => rfl
  | cons member rest ih =>
    simp only [deriveSequence, Attempt.bind_map, Attempt.map_bind, ih, Attempt.map_map]
    rfl

/-- The choice between alternatives does not depend on the trees. -/
theorem deriveFirst_map (accepts : Int → Bool) (index : Int) (productions : List Production) :
    deriveFirst (fun symbol place => (derive symbol place).map f) accepts index productions =
      (deriveFirst derive accepts index productions).map (List.map f) := by
  induction productions with
  | nil => rfl
  | cons production rest ih =>
    rw [deriveFirst, deriveFirst, deriveSequence_map, Attempt.map_filter]
    cases (deriveSequence derive production index).filter accepts with
    | derived trees next => rfl
    | failed => exact ih
    | aborted cause => rfl

end Map

/-! ### Larger limits -/

section Mono

variable {derive derive' : Symbol → Int → Attempt Tree} {accepts : Int → Bool} {index : Int}

theorem deriveSequence_mono
    (hderive : ∀ symbol place, derive symbol place ≠ .aborted .tooDeep →
      derive' symbol place = derive symbol place)
    {production : Production} (h : deriveSequence derive production index ≠ .aborted .tooDeep) :
    deriveSequence derive' production index = deriveSequence derive production index := by
  induction production generalizing index with
  | nil => rfl
  | cons member rest ih =>
    simp only [deriveSequence] at h ⊢
    refine Attempt.bind_mono (hderive member index) (fun tree next hnext => ?_) h
    -- Were the rest nested too deeply, so would be the rest with the member's tree put before it.
    rw [ih fun hrest => hnext (by rw [hrest]; rfl)]

theorem deriveFirst_mono
    (hderive : ∀ symbol place, derive symbol place ≠ .aborted .tooDeep →
      derive' symbol place = derive symbol place)
    {productions : List Production}
    (h : deriveFirst derive accepts index productions ≠ .aborted .tooDeep) :
    deriveFirst derive' accepts index productions =
      deriveFirst derive accepts index productions := by
  induction productions with
  | nil => rfl
  | cons production rest ih =>
    by_cases hfailed : (deriveSequence derive production index).filter accepts = .failed
    · -- To fail is to come to an end, so a larger limit passes over the same alternative.
      have hne : deriveSequence derive production index ≠ .aborted .tooDeep := by
        intro heq
        rw [heq] at hfailed
        cases hfailed
      have hsame := deriveSequence_mono hderive hne
      rw [deriveFirst_cons_of_failed hfailed] at h ⊢
      rw [deriveFirst_cons_of_failed (hsame ▸ hfailed), ih h]
    · rw [deriveFirst_cons_of_ne_failed hfailed] at h ⊢
      have hne : deriveSequence derive production index ≠ .aborted .tooDeep := fun heq =>
        h (Attempt.filter_eq_aborted_iff.mpr heq)
      have hsame := deriveSequence_mono hderive hne
      rw [deriveFirst_cons_of_ne_failed (hsame ▸ hfailed), hsame]

end Mono

/-! ### The questions that are asked -/

section Congr

variable {derive derive' : Symbol → Int → Attempt Tree} {accepts : Int → Bool}
  {p : Int → Prop} {index : Int}

/-- Only the members of a sequence are derived, each from a place that was reached. -/
theorem deriveSequence_congr {production : Production}
    (hplace : ∀ symbol index tree next, p index → derive symbol index = .derived tree next →
      p next)
    (hderive : ∀ symbol ∈ production, ∀ index, p index →
      derive symbol index = derive' symbol index) (hindex : p index) :
    deriveSequence derive production index = deriveSequence derive' production index := by
  induction production generalizing index with
  | nil => rfl
  | cons member rest ih =>
    simp only [deriveSequence]
    rw [← hderive member (by simp) index hindex]
    cases hmember : derive member index with
    | derived tree next =>
      -- The rest is asked for where this member ends, which is a place that was reached.
      simp only [Attempt.bind]
      rw [ih (fun symbol hsymbol => hderive symbol (by simp [hsymbol]))
        (hplace member index tree next hindex hmember)]
    | failed => rfl
    | aborted cause => rfl

/-- Only the members of the alternatives are derived, each from a place that was reached. -/
theorem deriveFirst_congr {productions : List Production}
    (hplace : ∀ symbol index tree next, p index → derive symbol index = .derived tree next →
      p next)
    (hderive : ∀ production ∈ productions, ∀ symbol ∈ production, ∀ index, p index →
      derive symbol index = derive' symbol index) (hindex : p index) :
    deriveFirst derive accepts index productions =
      deriveFirst derive' accepts index productions := by
  induction productions with
  | nil => rfl
  | cons production rest ih =>
    have hsame := deriveSequence_congr hplace (hderive production (by simp)) hindex
    simp only [deriveFirst, hsame]
    rw [ih fun other hother => hderive other (by simp [hother])]

end Congr

namespace Parser

variable {parser : Parser} {limit limit' : Nat} {symbol : Symbol} {index : Int} {goal : Bool}

@[simp] theorem attempt_zero (parser : Parser) (symbol : Symbol) (index : Int) (goal : Bool) :
    parser.attempt 0 symbol index goal = .aborted .tooDeep := rfl

theorem attempt_terminal (h : symbol.isTerminal = true) :
    parser.attempt (limit + 1) symbol index goal = parser.matchTerminal symbol index := by
  rw [attempt, if_pos h]

theorem attempt_nonterminal (h : symbol.isTerminal = false) :
    parser.attempt (limit + 1) symbol index goal =
      (deriveFirst (fun member next => parser.attempt limit member next false)
        (parser.accepts goal) index (parser.rules.alternatives symbol.name)).map
        (.node (.nonterminal symbol.name)) := by
  rw [attempt, if_neg (by simp [h])]

theorem attempt_succ_of_ne (h : parser.attempt limit symbol index goal ≠ .aborted .tooDeep) :
    parser.attempt (limit + 1) symbol index goal = parser.attempt limit symbol index goal := by
  induction limit generalizing symbol index goal with
  | zero => exact absurd rfl h
  | succ limit ih =>
    cases hterminal : symbol.isTerminal with
    | true => rw [attempt_terminal hterminal, attempt_terminal hterminal]
    | false =>
      -- The members are attempted within one limit less, where the induction hypothesis is known.
      rw [attempt_nonterminal hterminal] at h ⊢
      rw [attempt_nonterminal hterminal, deriveFirst_mono (fun _ _ => ih)]
      exact fun heq => h (Attempt.map_eq_aborted_iff.mpr heq)

/-- An attempt that is not nested too deeply ends in the same way under every larger limit. -/
theorem attempt_mono (hlimit : limit ≤ limit')
    (h : parser.attempt limit symbol index goal ≠ .aborted .tooDeep) :
    parser.attempt limit' symbol index goal = parser.attempt limit symbol index goal := by
  induction limit', hlimit using Nat.le_induction with
  | base => rfl
  | succ limit' _ ih => rw [attempt_succ_of_ne (by rwa [ih]), ih]

end Parser

end TokenGrammar
