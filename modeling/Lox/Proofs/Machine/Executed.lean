/-
`Lox.Proofs.Machine.Executed` -- what comes of a program on a new machine.

A program that comes to an end has printed something, and has failed or not (`Executes`).
This does not depend on the bound on the depth, because a bound that is enough is as good
as any larger one. A program that is a single expression may be evaluated instead
(`Echoes`): then the same is printed and it fails in the same way. All that running it adds
is that the output is handed on, and a sink that is not meant to refuse that never comes to
do so.
-/
import Lox.Proofs.Machine.Fuel
import Lox.Proofs.Machine.Truncation

set_option autoImplicit false

namespace Lox.Machine

variable {α : Type}

/-! ## What sinks keep -/

/-- A line that is printed is written, whether the sink takes all of it or not. -/
theorem printLine_sink {m m' : Machine} {text : String} {ended : EStateM.Result Halt Machine Unit}
    (h : printLine text m = ended) (hended : ended = .ok () m' ∨ ∃ halt, ended = .error halt m') :
    m'.sink = m.sink.write (text ++ "\n") := by
  subst h
  unfold printLine at hended
  dsimp only at hended
  split at hended
  · rcases hended with hok | ⟨_, herror⟩
    · cases hok
      rfl
    · cases herror
  · rcases hended with hok | ⟨_, herror⟩
    · cases hok
    · cases herror
      rfl

/-- What is true of a sink, whatever is written to it, stays true. -/
theorem Composed.keeps_sink (P : Sink → Prop) (hwrite : ∀ sink text, P sink → P (sink.write text))
    {x : Telling Unit α} (hx : Composed silent x) {w : Story Unit} (h : P w.machine.sink) :
    P (storyOf (x w)).machine.sink := by
  induction hx generalizing w with
  | pure a => exact h
  | outOfFuel => exact h
  | tell event => exact h
  | quiet hy =>
    rw [hy.sink_tacit]
    exact h
  | @print fuel expr _ ih =>
    have hvalue := @ih (w.printing expr) h
    -- the value is computed first, and what it prints is in the sink before the line
    cases hrun : Tell.evaluate silent fuel expr (w.printing expr) with
    | ok value w' =>
      rw [hrun] at hvalue
      cases hline : printLine value.display w'.machine with
      | ok a m =>
        have hsink : m.sink = _ := printLine_sink hline (.inl rfl)
        rw [print_of_ok hrun hline]
        show P m.sink
        rw [hsink]
        exact hwrite _ _ hvalue
      -- a line that does not fit is written as far as it goes
      | error halt m =>
        have hsink : m.sink = _ := printLine_sink hline (.inr ⟨halt, rfl⟩)
        rw [print_of_full hrun hline]
        show P m.sink
        rw [hsink]
        exact hwrite _ _ hvalue
    | error halt w' =>
      rw [hrun] at hvalue
      rw [print_of_error hrun]
      exact hvalue
  | flush =>
    rw [sink_tacit_flush]
    exact h
  | view hpart => exact h
  | @bind _ _ x f _ _ ihx ihf =>
    have hfirst := ihx h
    cases hrun : x w with
    | ok a w' =>
      rw [hrun] at hfirst
      rw [telling_bind_of_ok hrun]
      exact ihf a hfirst
    | error halt w' =>
      rw [hrun] at hfirst
      rw [telling_bind_of_error hrun]
      exact hfirst
  -- the frame is no part of the sink
  | @within _ x frame _ ih =>
    rw [storyOf_within]
    exact @ih (w.withCurrent frame) h

/-- So the sink does not come to refuse to be flushed. -/
theorem evaluate_flushFails {fuel : Nat} {expr : Expr} {m m' : Machine} {value : Value}
    (h : evaluate fuel expr m = .ok value m') (hflush : m.sink.flushFails = false) :
    m'.sink.flushFails = false := by
  have hwrite : ∀ (sink : Sink) text, sink.flushFails = false →
      (sink.write text).flushFails = false := by
    intro sink text hsink
    unfold Sink.write
    split <;> exact hsink
  have hcomposed : Composed silent (Tell.evaluate silent fuel expr) :=
    (ComposedAt.all fuel).evaluate expr
  have hkept :
      (storyOf (Tell.evaluate silent fuel expr (quietly m))).machine.sink.flushFails = false :=
    hcomposed.keeps_sink (fun sink => sink.flushFails = false) hwrite hflush
  have hretells : Retells (Tell.evaluate silent fuel expr) (evaluate fuel expr) :=
    ((tell_transparent silent).erasesAt fuel).evaluate expr
  have hrun : erased (fun w : Story Unit => w.machine)
      (Tell.evaluate silent fuel expr (quietly m)) = .ok value m' :=
    (hretells (quietly m)).trans h
  cases htold : Tell.evaluate silent fuel expr (quietly m) with
  | ok a w =>
    rw [htold] at hkept hrun
    cases hrun
    exact hkept
  | error halt w =>
    rw [htold] at hrun
    cases hrun

/-! ## Programs on a new machine -/

section Executed

variable {clock : Float} {stmts : List Stmt} {printed : String} {failure? : Option Failure}

/-- What a program prints on a new machine, and how it fails if it does, unless the bound is not
enough. -/
def outcome? (fuel : Nat) (clock : Float) (stmts : List Stmt) : Option (String × Option Failure) :=
  match runProgram fuel stmts (boot clock .unlimited) with
  | .ok _ m => some (m.sink.contents, none)
  | .error (.failed failure) m => some (m.sink.contents, some failure)
  | .error .outOfFuel _ => none

/-- On a new machine the program comes to an end, when it has printed this, with this failure
or with none. -/
def Executes (clock : Float) (stmts : List Stmt) (printed : String) (failure? : Option Failure) :
    Prop :=
  ∃ fuel, outcome? fuel clock stmts = some (printed, failure?)

/-- The program is a single expression, and this is its value on a new machine. -/
def Echoes (clock : Float) (stmts : List Stmt) (value : Value) : Prop :=
  ∃ expr fuel m, stmts = [.expression expr] ∧
    evaluate fuel expr (boot clock .unlimited) = .ok value m

/-- With a bound that is enough, the program always comes to the same end. -/
theorem Executes.run (h : Executes clock stmts printed failure?) :
    ∃ least m, m.sink.contents = printed ∧ ∀ fuel ≥ least,
      (failure? = none ∧ runProgram fuel stmts (boot clock .unlimited) = .ok () m) ∨
      ∃ failure, failure? = some failure ∧
        runProgram fuel stmts (boot clock .unlimited) = .error (.failed failure) m := by
  obtain ⟨least, houtcome⟩ := h
  unfold outcome? at houtcome
  cases hrun : runProgram least stmts (boot clock .unlimited) with
  | ok _ m =>
    rw [hrun] at houtcome
    cases houtcome
    exact ⟨least, m, rfl, fun fuel hfuel => .inl ⟨rfl, (runProgram_settles hfuel stmts).of_ok hrun⟩⟩
  | error halt m =>
    rw [hrun] at houtcome
    cases halt with
    | failed failure =>
      cases houtcome
      exact ⟨least, m, rfl, fun fuel hfuel =>
        .inr ⟨failure, rfl, (runProgram_settles hfuel stmts).of_failed hrun⟩⟩
    | outOfFuel => cases houtcome

/-! ## Single expressions -/

variable {fuel : Nat} {expr : Expr} {value : Value} {m m' : Machine} {halt : Halt}

/-- To run an expression as a program is to evaluate it, and then hand on what it printed. -/
theorem runProgram_lone_of_ok (h : evaluate fuel expr m = .ok value m')
    (hflush : m.sink.flushFails = false) :
    runProgram (fuel + 1) [.expression expr] m = .ok () m' := by
  have hexecute : execute (fuel + 1) (.expression expr) m = .ok .normal m' := bind_of_ok h
  have hprogram : runProgram (fuel + 1) [.expression expr] m = flush m' := bind_of_ok hexecute
  rw [hprogram, flush_eq, evaluate_flushFails h hflush]
  rfl

/-- A program of one expression fails where the expression does. -/
theorem runProgram_lone_of_error (h : evaluate fuel expr m = .error halt m') :
    runProgram (fuel + 1) [.expression expr] m = .error halt m' := by
  have hexecute : execute (fuel + 1) (.expression expr) m = .error halt m' := bind_of_error h
  exact bind_of_error hexecute

/-- So the evaluation of a single expression ends as the program does. -/
theorem Executes.lone (h : Executes clock [.expression expr] printed failure?) :
    ∃ least m, m.sink.contents = printed ∧ ∀ fuel ≥ least,
      (failure? = none ∧ ∃ value, evaluate fuel expr (boot clock .unlimited) = .ok value m) ∨
      ∃ failure, failure? = some failure ∧
        evaluate fuel expr (boot clock .unlimited) = .error (.failed failure) m := by
  obtain ⟨least, m, hprinted, hrun⟩ := h.run
  refine ⟨least, m, hprinted, fun fuel hfuel => ?_⟩
  have hends := hrun (fuel + 1) (by omega)
  cases hevaluate : evaluate fuel expr (boot clock .unlimited) with
  | ok value m' =>
    rw [runProgram_lone_of_ok hevaluate rfl] at hends
    rcases hends with ⟨hnone, hok⟩ | ⟨_, _, herror⟩
    · cases hok
      exact .inl ⟨hnone, value, rfl⟩
    · cases herror
  | error halt m' =>
    rw [runProgram_lone_of_error hevaluate] at hends
    rcases hends with ⟨_, hok⟩ | ⟨failure, hsome, herror⟩
    · cases hok
    · cases herror
      exact .inr ⟨failure, hsome, rfl⟩

/-- A program has one value at most, and it is found with any bound that is enough. -/
theorem Echoes.value_eq (h : Echoes clock [.expression expr] value) {value' : Value}
    (hevaluate : evaluate fuel expr (boot clock .unlimited) = .ok value' m) : value = value' := by
  obtain ⟨expr', fuel', m', hstmts, hvalue⟩ := h
  cases hstmts
  have hfirst := ((SettlesAt.of_le (Nat.le_max_left fuel fuel')).evaluate expr).of_ok hevaluate
  have hsecond := ((SettlesAt.of_le (Nat.le_max_right fuel fuel')).evaluate expr).of_ok hvalue
  rw [hfirst] at hsecond
  cases hsecond
  rfl

/-- One that fails has none. -/
theorem Echoes.not_failed (h : Echoes clock [.expression expr] value) {failure : Failure}
    (hevaluate : evaluate fuel expr (boot clock .unlimited) = .error (.failed failure) m) :
    False := by
  obtain ⟨expr', fuel', m', hstmts, hvalue⟩ := h
  cases hstmts
  have hfirst := ((SettlesAt.of_le (Nat.le_max_left fuel fuel')).evaluate expr).of_failed hevaluate
  have hsecond := ((SettlesAt.of_le (Nat.le_max_right fuel fuel')).evaluate expr).of_ok hvalue
  rw [hfirst] at hsecond
  cases hsecond

end Executed

end Lox.Machine
