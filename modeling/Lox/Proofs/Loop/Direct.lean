/-
`Lox.Proofs.Loop.Direct` -- a loop with clauses, run as it is meant.

A loop with clauses is read as blocks around a loop with a condition only, and these are
what is run. What it means can be said without them (`directLoop`): the initializer is run
in a new frame, and then, in the same frame, condition, body and increment take turns. The
blocks differ from that in one thing, a frame for each round in which body and increment
are run (`framedLoop`). Here it is shown that this is all: with a bound that is enough, the
blocks and the loop that makes such frames end in the same way, and with the same machine.

The blocks hand on smaller bounds, because there are more of them. So a bound that is
enough for one of the two may be too low for the other, and each is compared with the
other one with a few steps more.
-/
import Lox.Proofs.Machine.Fuel

set_option autoImplicit false

namespace Lox.Machine

/-! ## The loop -/

/-- Goes on with a run after a completion, unless that is on its way out. -/
def andThen (first next : Run Completion) : Run Completion := do
  match ← first with
  | .normal => next
  | .returned value => return .returned value

/-- Whether a loop goes on; without a condition it always does. -/
def goesOn (fuel : Nat) (condition : Option Expr) : Run Bool :=
  match condition with
  | some expr => return (← evaluate fuel expr).isTruthy
  | none => return true

/-- One round: the body, and then the increment, in one and the same frame. -/
def round (fuel : Nat) (increment : Option Expr) (body : Stmt) : Run Completion :=
  match increment with
  | some step => andThen (execute fuel body) do
    let _ ← evaluate fuel step
    return .normal
  | none => execute fuel body

/-- Rounds as long as a condition holds, or until one returns. -/
def rounds (condition : Option Expr) (round : Nat → Run Completion) (fuel : Nat) :
    Run Completion :=
  match fuel with
  | 0 => throw .outOfFuel
  | fuel + 1 => do
    if ← goesOn fuel condition then andThen (round fuel) (rounds condition round fuel)
    else return .normal

/-- A run in a new frame inside of the current one. -/
def inNewFrame (run : Run Completion) : Run Completion := do
  let frame ← newFrame (← get).current
  within frame run

/-- A loop behind its initializer. Both are run in one new frame; without an initializer
there is no such frame. -/
def initialized (fuel : Nat) (initializer : Option Stmt) (loop : Run Completion) :
    Run Completion :=
  match initializer with
  | some first => inNewFrame (andThen (execute fuel first) loop)
  | none => loop

/-- Runs a loop with clauses. -/
def directLoop (fuel : Nat) (initializer : Option Stmt) (condition increment : Option Expr)
    (body : Stmt) : Run Completion :=
  initialized fuel initializer (rounds condition (fun fuel => round fuel increment body) fuel)

/-- A round in a frame of its own, if there is an increment. -/
def framedRound (fuel : Nat) (increment : Option Expr) (body : Stmt) : Run Completion :=
  match increment with
  | some step => inNewFrame (round fuel (some step) body)
  | none => round fuel none body

/-- Runs a loop with clauses, with a frame for each round. -/
def framedLoop (fuel : Nat) (initializer : Option Stmt) (condition increment : Option Expr)
    (body : Stmt) : Run Completion :=
  initialized fuel initializer (rounds condition (fun fuel => framedRound fuel increment body) fuel)

/-! ## The blocks, with enough steps left -/

section Blocks

variable (fuel : Nat)

/-- To end as a completion says is to hand it on. -/
theorem andThen_normal (first : Run Completion) : andThen first (pure .normal) = first := by
  have hsame : (fun completion => match completion with
      | .normal => pure .normal
      | .returned value => pure (.returned value) : Completion → Run Completion) = pure := by
    funext completion
    cases completion <;> rfl
  show first >>= _ = first
  rw [hsame, bind_pure]

/-- One statement in a row is that statement. -/
theorem executeEach_single (stmt : Stmt) :
    executeEach (fuel + 2) [stmt] = execute (fuel + 1) stmt :=
  andThen_normal _

/-- Two in a row are one after the other, with two units less of the bound. -/
theorem executeEach_pair (first second : Stmt) :
    executeEach (fuel + 3) [first, second] =
      andThen (execute (fuel + 2) first) (execute (fuel + 1) second) := by
  show andThen (execute (fuel + 2) first) (executeEach (fuel + 2) [second]) = _
  rw [executeEach_single]

/-- A block of two is both in a new frame. -/
theorem execute_block_pair (first second : Stmt) :
    execute (fuel + 4) (.block [first, second]) =
      inNewFrame (andThen (execute (fuel + 2) first) (execute (fuel + 1) second)) := by
  rw [← executeEach_pair]
  rfl

end Blocks

/-! ## Blocks and frames come to the same -/

namespace Settles

variable {x x' y y' : Run Completion} {α : Type}

/-- Settling goes on from bound to bound. -/
theorem trans {x y z : Run α} (h : Settles x y) (h' : Settles y z) : Settles x z := by
  intro m
  rcases h m with hout | hsame
  · exact .inl hout
  rcases h' m with ⟨m', hout⟩ | hsame'
  · exact .inl ⟨m', hsame ▸ hout⟩
  · exact .inr (hsame'.trans hsame)

/-- What follows a completion settles if both parts do. -/
protected theorem andThen (hx : Settles x x') (hy : Settles y y') :
    Settles (andThen x y) (andThen x' y') := by
  refine hx.bind fun completion => ?_
  cases completion with
  | normal => exact hy
  | returned value => exact .refl _

/-- A run in a new frame settles as it does elsewhere. -/
protected theorem inNewFrame (hx : Settles x x') : Settles (inNewFrame x) (inNewFrame x') :=
  .after fun _ => .after fun frame => hx.within frame

end Settles

section Lowered

variable {fuel more : Nat} (condition increment : Option Expr) (body : Stmt)

/-- What a loop with clauses repeats. -/
def loweredRound (increment : Option Expr) (body : Stmt) : Stmt :=
  match increment with
  | some step => .block [body, .expression step]
  | none => body

/-- What it repeats that as long as. -/
def loweredCondition (condition : Option Expr) : Expr :=
  condition.getD (.literal (.bool true))

/-- A round of the tree is a round in its own frame, with a little more of the bound. -/
theorem loweredRound_settles (h : fuel + 2 ≤ more) :
    Settles (execute fuel (loweredRound increment body)) (framedRound more increment body) := by
  cases increment with
  | none => exact (SettlesAt.of_le (by omega)).execute body
  | some step =>
    -- with so few steps the block may not even be entered, so it is first given some more
    have hunfolded : Settles (execute fuel (loweredRound (some step) body))
        (execute (fuel + 4) (.block [body, .expression step])) :=
      (SettlesAt.of_le (by omega)).execute _
    refine hunfolded.trans ?_
    rw [execute_block_pair]
    refine Settles.inNewFrame (.andThen ((SettlesAt.of_le h).execute body) ?_)
    exact ((SettlesAt.of_le (by omega)).evaluate step).bind fun _ => .refl _

/-- The same the other way round. The block and its statements need a few units. -/
theorem framedRound_settles (h : fuel + 4 ≤ more) :
    Settles (framedRound fuel increment body) (execute more (loweredRound increment body)) := by
  cases increment with
  | none => exact (SettlesAt.of_le (by omega)).execute body
  | some step =>
    obtain ⟨more, rfl⟩ : ∃ k, more = k + 4 := ⟨more - 4, by omega⟩
    show Settles _ (execute (more + 4) (.block [body, .expression step]))
    rw [execute_block_pair]
    refine Settles.inNewFrame (.andThen ((SettlesAt.of_le (by omega)).execute body) ?_)
    exact ((SettlesAt.of_le (by omega)).evaluate step).bind fun _ => .refl _

/-- A condition that is missing has become one that always holds. -/
theorem loweredCondition_settles {f g : Bool → Run Completion} (h : fuel ≤ more)
    (hfg : ∀ holds, Settles (f holds) (g holds)) :
    Settles (evaluate fuel (loweredCondition condition) >>= fun value => f value.isTruthy)
      (goesOn more condition >>= g) := by
  cases condition with
  | some expr =>
    show Settles _ ((evaluate more expr >>= fun value => pure value.isTruthy) >>= g)
    rw [bind_assoc]
    exact ((SettlesAt.of_le h).evaluate expr).bind fun value => hfg value.isTruthy
  | none =>
    -- the constant in place of the condition takes a step of its own
    cases fuel with
    | zero => exact .outOfFuel
    | succ fuel => exact hfg true

theorem goesOn_settles {f g : Bool → Run Completion} (h : fuel < more)
    (hfg : ∀ holds, Settles (f holds) (g holds)) :
    Settles (goesOn fuel condition >>= f)
      (evaluate more (loweredCondition condition) >>= fun value => g value.isTruthy) := by
  cases condition with
  | some expr =>
    show Settles ((evaluate fuel expr >>= fun value => pure value.isTruthy) >>= f) _
    rw [bind_assoc]
    exact ((SettlesAt.of_le (Nat.le_of_lt h)).evaluate expr).bind fun value => hfg value.isTruthy
  | none =>
    obtain ⟨more, rfl⟩ : ∃ k, more = k + 1 := ⟨more - 1, by omega⟩
    exact hfg true

/-- So the repetition that the tree asks for is rounds in frames of their own. The induction is
on the bound, which goes down from round to round on both sides. -/
theorem repeatWhile_settles (h : fuel + 2 ≤ more) :
    Settles (repeatWhile fuel (loweredCondition condition) (loweredRound increment body))
      (rounds condition (fun fuel => framedRound fuel increment body) more) := by
  induction fuel generalizing more with
  | zero => exact .outOfFuel
  | succ fuel ih =>
    obtain ⟨more, rfl⟩ : ∃ k, more = k + 1 := ⟨more - 1, by omega⟩
    refine loweredCondition_settles condition
      (f := fun holds => if holds then andThen (execute fuel (loweredRound increment body))
        (repeatWhile fuel (loweredCondition condition) (loweredRound increment body))
        else pure .normal) (by omega) fun holds => ?_
    cases holds with
    | true => exact (loweredRound_settles increment body (by omega)).andThen (ih (by omega))
    | false => exact .refl _

theorem rounds_settles (h : fuel + 4 ≤ more) :
    Settles (rounds condition (fun fuel => framedRound fuel increment body) fuel)
      (repeatWhile more (loweredCondition condition) (loweredRound increment body)) := by
  induction fuel generalizing more with
  | zero => exact .outOfFuel
  | succ fuel ih =>
    obtain ⟨more, rfl⟩ : ∃ k, more = k + 1 := ⟨more - 1, by omega⟩
    refine goesOn_settles condition
      (g := fun holds => if holds then andThen (execute more (loweredRound increment body))
        (repeatWhile more (loweredCondition condition) (loweredRound increment body))
        else pure .normal) (by omega) fun holds => ?_
    cases holds with
    | true => exact (framedRound_settles increment body (by omega)).andThen (ih (by omega))
    | false => exact .refl _

variable (initializer : Option Stmt)

/-- **The blocks end as the loop with frames.** -/
theorem forLoop_settles :
    Settles (execute fuel (.forLoop initializer condition increment body))
      (framedLoop (fuel + 2) initializer condition increment body) := by
  have hloop := repeatWhile_settles condition increment body (Nat.le_refl (fuel + 2))
  cases initializer with
  | none =>
    cases fuel with
    | zero => exact .outOfFuel
    | succ fuel => exact repeatWhile_settles condition increment body (by omega)
  | some first =>
    have hunfolded : Settles (execute fuel (.forLoop (some first) condition increment body))
        (execute (fuel + 4) (.block [first,
          .whileLoop (loweredCondition condition) (loweredRound increment body)])) :=
      (SettlesAt.of_le (by omega)).execute _
    refine hunfolded.trans ?_
    rw [execute_block_pair]
    exact Settles.inNewFrame (.andThen (.refl _) hloop)

/-- And the loop with frames ends as the blocks. -/
theorem framedLoop_settles :
    Settles (framedLoop fuel initializer condition increment body)
      (execute (fuel + 8) (.forLoop initializer condition increment body)) := by
  cases initializer with
  | none =>
    show Settles _ (repeatWhile (fuel + 7) _ _)
    exact rounds_settles condition increment body (by omega)
  | some first =>
    show Settles _ (execute (fuel + 4 + 4) (.block [first,
      .whileLoop (loweredCondition condition) (loweredRound increment body)]))
    rw [execute_block_pair]
    refine Settles.inNewFrame (.andThen ((SettlesAt.of_le (by omega)).execute first) ?_)
    exact rounds_settles condition increment body (Nat.le_refl (fuel + 4))

end Lowered

end Lox.Machine
