/-
`Lox.Proofs.Loop.Lowering` -- a loop with clauses does what its clauses say.

A loop with clauses is read as blocks around a loop with a condition only. Running them
comes to the same as running the loop as it is meant, in the frame of its initializer. The
blocks make a further frame for each round. What is run there is the body, which as a
statement declares nothing, and the increment; so nothing is ever bound in that frame, and
the run keeps in step with one that does without it.

That a statement declares nothing holds of whatever is read as one, also of a statement in
which mistakes were found.
-/
import Lox.Proofs.Grammar.Formed
import Lox.Proofs.Loop.Variable

set_option autoImplicit false

namespace Lox

namespace Machine

/-! ## Rounds with and without a frame of their own -/

section InStep

variable {w : Images} {c c' : FrameId} {x x' y y' : Run Completion} {fuel : Nat}

/-- Runs after a completion keep in step, as both sides complete in one way. -/
theorem andThen_inStep (hx : InStep w c c' Completion.Matches x x')
    (hy : ∀ w', w <+: w' → InStep w' c c' Completion.Matches y y') :
    InStep w c c' Completion.Matches (andThen x y) (andThen x' y') := by
  refine hx.bind fun w₁ hw₁ completion completion' hcompletion => ?_
  cases hcompletion with
  | normal => exact hy w₁ hw₁
  | returned hvalue => exact .pure fun _ hw₂ => .returned (hvalue.later hw₂)

/-- Both sides go on, or neither does. -/
theorem goesOn_inStep (hc : w.StandsFor c c') (condition : Option Expr) :
    InStep w c c' (fun _ => Eq) (goesOn fuel condition) (goesOn fuel condition) := by
  cases condition with
  | none => exact .pure fun _ _ => rfl
  | some expr =>
    exact ((InStepAt.all fuel).evaluate hc expr).bind fun _ _ _ _ hvalue =>
      .pure fun _ _ => hvalue.isTruthy

/-- Runs in new frames, which are partners. -/
theorem inNewFrame_inStep (hc : w.StandsFor c c')
    (hx : ∀ (w' : Images) frame frame', w <+: w' → w'.Pairs frame frame' →
      InStep w' frame frame' Completion.Matches x x') :
    InStep w c c' Completion.Matches (inNewFrame x) (inNewFrame x') := by
  refine .get fun w₁ hw₁ m m' hm => ?_
  rw [hm.current, hm.current']
  refine (newFrame_inStep (hc.later hw₁)).bind fun w₂ hw₂ frame frame' hframe => ?_
  exact (hx w₂ frame frame' (hw₁.trans hw₂) hframe).within

/-- Only the first run is in a new frame. It is an extra one, which stands for the current
frame of the second run. -/
theorem inExtraFrame_inStep (hc : w.StandsFor c c')
    (hx : ∀ (w' : Images) frame, w <+: w' → w'.StandsFor frame c' →
      InStep w' frame c' Completion.Matches x x') :
    InStep w c c' Completion.Matches (inNewFrame x) x' := by
  intro w₁ hw₁ m m' hm
  obtain rfl := hm.current
  have hlater : w₁ <+: w₁ ++ [(⟨c', true⟩ : Image)] := List.prefix_append _ _
  have hforest := (hm.forest.imp fun _ _ h => Value.Matches.later hlater h).addExtra
    (hc.later hw₁)
  have hextra : Images.StandsFor (w₁ ++ [⟨c', true⟩]) m.forest.next c' :=
    Images.standsFor_concat.mpr (.inr ⟨hm.forest.size.symm, rfl⟩)
  have hinside : Machine.Matches (w₁ ++ [⟨c', true⟩]) m.forest.next c'
      { m with forest := m.forest.addChild m.current, current := m.forest.next } m' :=
    { hm.withForest hlater hforest with current := rfl }
  have hended := hx _ _ (hw₁.trans hlater) hextra _ (List.prefix_refl _) _ _ hinside
  have hrun : inNewFrame x m = Machine.within m.forest.next x
      { m with forest := m.forest.addChild m.current } := rfl
  rw [hrun, Machine.within]
  -- the frame of the first run is set back, that of the second one has not changed
  generalize x _ = result at hended ⊢
  generalize x' m' = result' at hended
  cases hended with
  | ok hw₂ hgood h => exact .ok (hlater.trans hw₂) hgood { h with current := rfl }
  | error hw₂ h => exact .error (hlater.trans hw₂) { h with current := rfl }

variable {condition increment : Option Expr} {body : Stmt}

/-- A round keeps in step in any two frames, as its body declares nothing. -/
theorem round_inStep (hc : w.StandsFor c c') (hbody : body.declared = []) :
    InStep w c c' Completion.Matches (round fuel increment body) (round fuel increment body) := by
  -- what declares nothing can be run where one frame only stands for the other
  have hexecute : InStep w c c' Completion.Matches (execute fuel body) (execute fuel body) :=
    (InStepAt.all fuel).execute body (hbody ▸ hc.admits)
  cases increment with
  | none => exact hexecute
  | some step =>
    refine andThen_inStep hexecute fun w₁ hw₁ => ?_
    exact ((InStepAt.all fuel).evaluate (hc.later hw₁) step).bind fun _ _ _ _ _ =>
      .pure fun _ _ => .normal

/-- So it does in a frame of its own, which is extra. -/
theorem framedRound_inStep (hc : w.StandsFor c c') (hbody : body.declared = []) :
    InStep w c c' Completion.Matches (framedRound fuel increment body)
      (round fuel increment body) := by
  cases increment with
  | none =>
    show InStep w c c' Completion.Matches (round fuel none body) (round fuel none body)
    exact round_inStep hc hbody
  | some step => exact inExtraFrame_inStep hc fun _ _ _ hframe => round_inStep hframe hbody

/-- So do all rounds. The induction is on the bound. -/
theorem rounds_inStep (hc : w.StandsFor c c') (hbody : body.declared = []) :
    InStep w c c' Completion.Matches
      (rounds condition (fun fuel => framedRound fuel increment body) fuel)
      (rounds condition (fun fuel => round fuel increment body) fuel) := by
  induction fuel generalizing w with
  | zero => exact .throw _
  | succ fuel ih =>
    refine (goesOn_inStep hc condition).same fun w₁ hw₁ holds => ?_
    cases holds with
    | true =>
      exact andThen_inStep (framedRound_inStep (hc.later hw₁) hbody) fun w₂ hw₂ =>
        ih (hc.later (hw₁.trans hw₂))
    | false => exact .pure fun _ _ => .normal

/-- The loop that makes a frame for each round keeps in step with the one that does not. -/
theorem framedLoop_inStep (hc : w.StandsFor c c') (hbody : body.declared = [])
    (initializer : Option Stmt) :
    InStep w c c' Completion.Matches (framedLoop fuel initializer condition increment body)
      (directLoop fuel initializer condition increment body) := by
  cases initializer with
  | none => exact rounds_inStep hc hbody
  | some first =>
    -- the initializer may declare something, and so these frames have to be partners
    refine inNewFrame_inStep hc fun w₁ frame frame' _ hframe => ?_
    refine andThen_inStep ((InStepAt.all fuel).execute first (hframe.admits _)) fun w₂ hw₂ => ?_
    exact rounds_inStep (hframe.later hw₂).standsFor hbody

end InStep

/-! ## Runs that come to the same -/

section ComeToSame

variable {α : Type}

/-- The bound on the depth was enough. -/
def Finished (result : EStateM.Result Halt Machine α) : Prop :=
  ∀ m, result ≠ .error .outOfFuel m

variable {w : Images} {c c' : FrameId} {α' : Type} {good : Images → α → α' → Prop}
  {result : EStateM.Result Halt Machine α} {result' : EStateM.Result Halt Machine α'}

/-- Runs that end in one way have finished both or neither. -/
theorem EndsMatched.finished_iff (h : EndsMatched w c c' good result result') :
    Finished result ↔ Finished result' := by
  cases h with
  | ok _ _ _ => exact ⟨nofun, nofun⟩
  | @error _ halt m m' _ _ =>
    refine ⟨?_, ?_⟩
    · rintro h _ ⟨⟩
      exact h m rfl
    · rintro h _ ⟨⟩
      exact h m' rfl

/-- A run that has finished ends so with any larger bound. -/
theorem Settles.eq_of_finished {x y : Run α} {m : Machine} (h : Settles x y)
    (hfinished : Finished (x m)) :
    y m = x m := by
  rcases h m with ⟨m', hout⟩ | hsame
  · exact (hfinished m' hout).elim
  · exact hsame

/-- Two runs from one machine come to the same: if one of them ends with some bound on the
depth, then with some bound so does the other, and in the same way. -/
structure ComeToSame (m : Machine) (x x' : Nat → Run Completion) : Prop where
  onward : ∀ fuel, Finished (x fuel m) → ∃ more,
    EndsMatched (.self m.forest.frames.size) m.current m.current Completion.Matches
      (x fuel m) (x' more m)
  backward : ∀ fuel, Finished (x' fuel m) → ∃ more,
    EndsMatched (.self m.forest.frames.size) m.current m.current Completion.Matches
      (x more m) (x' fuel m)

variable {m : Machine} {condition increment : Option Expr} {body : Stmt}

/-- The tree of a loop with clauses comes to the same as the loop itself. -/
theorem forLoop_comeToSame (hm : m.Whole) (hbody : body.declared = []) (initializer : Option Stmt) :
    ComeToSame m (fun fuel => execute fuel (.forLoop initializer condition increment body))
      (fun fuel => directLoop fuel initializer condition increment body) := by
  have hmatched : ∀ fuel, EndsMatched (.self m.forest.frames.size) m.current m.current
      Completion.Matches (framedLoop fuel initializer condition increment body m)
      (directLoop fuel initializer condition increment body m) := fun fuel =>
    framedLoop_inStep hm.pairs_current.standsFor hbody initializer _ (List.prefix_refl _) m m
      hm.itself
  constructor
  · intro fuel hfinished
    refine ⟨fuel + 2, ?_⟩
    rw [← (forLoop_settles condition increment body initializer).eq_of_finished hfinished]
    exact hmatched (fuel + 2)
  · intro fuel hfinished
    refine ⟨fuel + 8, ?_⟩
    rw [(framedLoop_settles condition increment body initializer).eq_of_finished
      ((hmatched fuel).finished_iff.mpr hfinished)]
    exact hmatched fuel

end ComeToSame

end Machine

/-! ## What is read -/

namespace Grammar

variable {P : Token → Prop}

/-- A statement that binds nothing in the frame it is run in. -/
def DeclaresNothing (stmt : Stmt) : Prop :=
  stmt.declared = []

/-- A loop with clauses declares nothing outside, since its initializer has a frame. -/
theorem declaresNothing_forLoop {body : Stmt} (h : DeclaresNothing body)
    (initializer : Option Stmt) (condition increment : Option Expr) :
    DeclaresNothing (.forLoop initializer condition increment body) := by
  cases initializer with
  | some first => rfl
  | none =>
    cases increment with
    | some step => rfl
    | none => exact h

/-- The clauses of a loop and its body, in the order in which they are read. -/
def forClauses (fuel : Nat) :
    TokenReader (Option Stmt × Option Expr × Option Expr × Stmt) := do
  let _ ← expect .forOpen
  let initializer ← initializerClause fuel
  let condition ← expressionBefore fuel .semicolon
  let _ ← expect .forConditionEnd
  let increment ← expressionBefore fuel .rightParen
  let _ ← expect .forClose
  let body ← statement fuel
  return (initializer, condition, increment, body)

/-- A loop with clauses is put together from them. -/
theorem forStatement_run_eq_ok {fuel : Nat} {c c' : Cursor} {stmt : Stmt}
    (h : (forStatement fuel).run c = .ok stmt c') :
    ∃ fuel' initializer condition increment body, fuel = fuel' + 1 ∧
      (forClauses fuel').run c = .ok (initializer, condition, increment, body) c' ∧
      stmt = .forLoop initializer condition increment body := by
  cases fuel with
  | zero => cases h
  | succ fuel =>
    rw [forStatement] at h
    obtain ⟨opened, c₁, hopened, h⟩ := TokenReader.run_bind_eq_ok.mp h
    obtain ⟨initializer, c₂, hinitializer, h⟩ := TokenReader.run_bind_eq_ok.mp h
    obtain ⟨condition, c₃, hcondition, h⟩ := TokenReader.run_bind_eq_ok.mp h
    obtain ⟨ended, c₄, hended, h⟩ := TokenReader.run_bind_eq_ok.mp h
    obtain ⟨increment, c₅, hincrement, h⟩ := TokenReader.run_bind_eq_ok.mp h
    obtain ⟨closed, c₆, hclosed, h⟩ := TokenReader.run_bind_eq_ok.mp h
    obtain ⟨body, c₇, hbody, h⟩ := TokenReader.run_bind_eq_ok.mp h
    cases h
    refine ⟨fuel, initializer, condition, increment, body, rfl, ?_, rfl⟩
    rw [forClauses, TokenReader.run_bind_of_ok hopened, TokenReader.run_bind_of_ok hinitializer,
      TokenReader.run_bind_of_ok hcondition, TokenReader.run_bind_of_ok hended,
      TokenReader.run_bind_of_ok hincrement, TokenReader.run_bind_of_ok hclosed,
      TokenReader.run_bind_of_ok hbody]
    rfl

section Reading

variable {fuel : Nat}

theorem returnStatement_declaresNothing (keyword : Token) :
    Yields P DeclaresNothing (returnStatement fuel keyword) := by
  have hrest : Yields P DeclaresNothing (do
      let value ← expressionBefore fuel .semicolon
      let _ ← expect .returnEnd
      return .returnStmt keyword value) :=
    .skip fun _ => .skip fun _ => .pure rfl
  refine .skip fun inside => ?_
  cases inside with
  | true => exact hrest
  | false => exact .skip fun _ => hrest

variable (hstatement : Yields P DeclaresNothing (statement fuel))
include hstatement

theorem forStatement_declaresNothing : Yields P DeclaresNothing (forStatement (fuel + 1)) := by
  refine .skip fun _ => .skip fun first => .skip fun condition => .skip fun _ => ?_
  refine .skip fun increment => .skip fun _ => hstatement.bind fun body hbody => ?_
  exact .pure (declaresNothing_forLoop hbody first condition increment)

theorem whileStatement_declaresNothing : Yields P DeclaresNothing (whileStatement (fuel + 1)) :=
  .skip fun _ => .skip fun _ => .skip fun _ => hstatement.bind fun _ hbody => .pure hbody

theorem ifStatement_declaresNothing : Yields P DeclaresNothing (ifStatement (fuel + 1)) := by
  refine .skip fun _ => .skip fun condition => .skip fun _ => ?_
  refine hstatement.bind fun thenBranch hthen => .skip fun otherwise => ?_
  have hif : ∀ elseBranch, (∀ stmt ∈ elseBranch, DeclaresNothing stmt) →
      Yields P DeclaresNothing (pure (.ifElse condition thenBranch elseBranch)) := by
    rintro (_ | elseBranch) helse
    · exact .pure hthen
    · exact .pure (List.append_eq_nil_iff.mpr ⟨hthen, helse elseBranch rfl⟩)
  cases otherwise with
  | false => exact hif none nofun
  | true =>
    have helse : Yields P (fun branch => ∀ stmt ∈ branch, DeclaresNothing stmt)
        (some <$> statement fuel) := by
      refine hstatement.bind fun stmt hstmt => .pure ?_
      rintro _ ⟨⟩
      exact hstmt
    exact helse.bind hif

end Reading

/-- What is read as a statement declares nothing, whatever stands in its place. -/
theorem statement_declaresNothing (fuel : Nat) : Yields P DeclaresNothing (statement fuel) := by
  induction fuel using Nat.strong_induction_on with
  | _ fuel ih =>
    rcases fuel with _ | fuel
    · exact .outOfFuel
    refine .skip fun found => ?_
    rcases found with _ | ⟨keyword, lead⟩
    · exact .skip fun _ => .skip fun _ => .pure rfl
    cases lead with
    | print => exact .skip fun _ => .skip fun _ => .pure rfl
    | block => exact .skip fun _ => .pure rfl
    | returnStmt => exact returnStatement_declaresNothing keyword
    -- the others read statements with a bound that is smaller by two
    | forLoop =>
      rcases fuel with _ | fuel
      · exact .outOfFuel
      · exact forStatement_declaresNothing (ih fuel (by omega))
    | ifElse =>
      rcases fuel with _ | fuel
      · exact .outOfFuel
      · exact ifStatement_declaresNothing (ih fuel (by omega))
    | whileLoop =>
      rcases fuel with _ | fuel
      · exact .outOfFuel
      · exact whileStatement_declaresNothing (ih fuel (by omega))

/-- The body of a loop that was read declares nothing, as it is a statement and no declaration.
-/
theorem forClauses_declaresNothing {fuel : Nat} {c c' : Cursor} {initializer : Option Stmt}
    {condition increment : Option Expr} {body : Stmt}
    (h : (forClauses fuel).run c = .ok (initializer, condition, increment, body) c') :
    body.declared = [] := by
  have hyields : Yields (fun _ => True) (fun clauses => DeclaresNothing clauses.2.2.2)
      (forClauses fuel) := by
    refine .skip fun _ => .skip fun first => .skip fun condition => .skip fun _ => ?_
    refine .skip fun increment => .skip fun _ => ?_
    exact (statement_declaresNothing fuel).bind fun body hbody => .pure hbody
  exact hyields c _ c' (fun _ _ => trivial) h

end Grammar

namespace Machine

/-! ## Loops -/

/-- From the machine, the statement does what the clauses of a loop and its body say. -/
structure RunsAsLoop (m : Machine) (stmt : Stmt) (initializer : Option Stmt)
    (condition increment : Option Expr) (body : Stmt) : Prop where
  /-- It comes to the same as the loop that is run in the frame of its initializer. -/
  same : ComeToSame m (fun fuel => execute fuel stmt)
    (fun fuel => directLoop fuel initializer condition increment body)
  /-- As long as the parts take turns, every name is found in the frame it was found in. So
  none of the body's names is there for the increment. -/
  names : ∀ l l', Opened m initializer l → Turns condition increment body l l' →
    l'.current = l.current ∧
      ∀ name, l'.forest.owner? l.current name = l.forest.owner? l.current name
  /-- The variable that the initializer declares is bound once, in the frame of the loop. -/
  own : ∀ name value l, initializer = some (.varDecl name value) → Opened m initializer l →
    l.current = m.forest.next ∧ l.forest.owner? l.current name.lexeme = some l.current
  /-- Each time a block is run as the body, it is run in a frame that was not there before,
  and that is there the next time. -/
  fresh : ∀ fuel stmts l, body = .block stmts →
    execute (fuel + 1) body l = within l.forest.next (executeEach fuel stmts)
      { l with forest := l.forest.addChild l.current } ∧
    ¬ l.forest.Present l.forest.next ∧
    (l.perform (execute (fuel + 1) body)).2.forest.Present l.forest.next

/-- **A loop with clauses does what its clauses say.** Whatever is read as one has clauses
and a body that were read one after the other, and the blocks that are run for it come to
the same as the loop itself: they print the same and end with the same failure or
completion, in the frame in which they began, and they leave the same in all frames, but
for further frames in which nothing is bound. That is so from every machine in which
nothing is missing. If one of the two goes on for ever then so does the other, and what
they print meanwhile is the same, because it is so for sinks that are full at any point. -/
theorem forStatement_runsAsLoop {fuel : Nat} {c c' : Grammar.Cursor} {stmt : Stmt}
    (hread : (Grammar.forStatement fuel).run c = .ok stmt c') {m : Machine} (hm : m.Whole) :
    ∃ fuel' initializer condition increment body, fuel = fuel' + 1 ∧
      (Grammar.forClauses fuel').run c = .ok (initializer, condition, increment, body) c' ∧
      RunsAsLoop m stmt initializer condition increment body := by
  obtain ⟨fuel', initializer, condition, increment, body, hfuel, hclauses, rfl⟩ :=
    Grammar.forStatement_run_eq_ok hread
  have hbody := Grammar.forClauses_declaresNothing hclauses
  refine ⟨fuel', initializer, condition, increment, body, hfuel, hclauses, ?_⟩
  constructor
  · exact forLoop_comeToSame hm hbody initializer
  · intro l l' hopened hturns
    obtain ⟨hcurrent, hgrows⟩ := hturns.grows hbody
    exact ⟨hcurrent, hgrows.owner?_eq (hopened.whole hm).chain_present⟩
  · rintro name value l rfl hopened
    exact hopened.owner?_variable
  · rintro fuel stmts l rfl
    exact execute_block_next stmts l

/-- What follows the first token of `for (var done = false; !done; done = true) print done;`. -/
def untilDone : Grammar.Cursor :=
  ⟨[.madeUp .leftParen "(" 1, .madeUp .kwVar "var" 1, .madeUp .identifier "done" 1,
    .madeUp .equal "=" 1, .madeUp .kwFalse "false" 1, .madeUp .semicolon ";" 1,
    .madeUp .bang "!" 1, .madeUp .identifier "done" 1, .madeUp .semicolon ";" 1,
    .madeUp .identifier "done" 1, .madeUp .equal "=" 1, .madeUp .kwTrue "true" 1,
    .madeUp .rightParen ")" 1, .madeUp .kwPrint "print" 1, .madeUp .identifier "done" 1,
    .madeUp .semicolon ";" 1], .madeUp .eof "" 1, 0, #[]⟩

/-- What a run has printed that came to its end, and the value of a name in the frame of its
loop, which is the second one, and in the global frame. -/
def loopEnd (name : String) :
    EStateM.Result Halt Machine Completion → Option (String × Option String × Option String)
  | .ok .normal m => some (m.sink.contents, (m.forest.local? ⟨1⟩ name).map Value.display,
      (m.global? name).map Value.display)
  | _ => none

/-- The blocks that are read, and the loop itself, print once, and leave `done` set in the frame
of the loop. -/
theorem forStatement_runsAsLoop_untilDone :
    ∃ stmt c' initializer condition increment body,
      (Grammar.forStatement 20).run untilDone = .ok stmt c' ∧ (boot 0 .unlimited).Whole ∧
      (Grammar.forClauses 19).run untilDone = .ok (initializer, condition, increment, body) c' ∧
      RunsAsLoop (boot 0 .unlimited) stmt initializer condition increment body ∧
      loopEnd "done" (execute 20 stmt (boot 0 .unlimited))
        = some ("false\n", some "true", none) ∧
      loopEnd "done" (directLoop 20 initializer condition increment body (boot 0 .unlimited))
        = some ("false\n", some "true", none) := by
  have hread : (Grammar.forStatement 20).run untilDone = .ok _ _ := rfl
  obtain ⟨fuel', _, _, _, _, hfuel, hclauses, hloop⟩ :=
    forStatement_runsAsLoop hread (boot_whole 0 .unlimited)
  cases hfuel
  cases hclauses
  exact ⟨_, _, _, _, _, _, hread, boot_whole 0 .unlimited, rfl, hloop, by decide +kernel,
    by decide +kernel⟩

end Machine

end Lox
