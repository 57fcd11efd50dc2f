/-
`Lox.Proofs.Grammar.Fuel` -- the bound on the depth does not matter.

Two readers are settled for so many tokens if they agree wherever no more tokens
are left, and neither runs out of fuel there. Each reader of the grammar is
settled with itself on one unit of fuel more, provided that the fuel is 32 for
every token and a little for the readers that call one another before one of
them takes a token. How little differs from reader to reader; the numbers are
heights in the graph of those calls, and all are below 32, so a token that is
taken pays for whatever is called after it.

The loops over declarations and methods take a token in every round, which is
shown first: whatever else a statement does, it takes its last token.
-/
import Lox.Proofs.Grammar.Reader
import Mathlib.Data.List.TakeWhile

set_option autoImplicit false

namespace Lox.Grammar

variable {α β : Type}

/-! ## Settled readers -/

/-- On at most `n` tokens the readers do the same, and do not run out of fuel. -/
def Settled (n : Nat) (x y : TokenReader α) : Prop :=
  ∀ c : Cursor, c.rest.length ≤ n →
    x.run c = y.run c ∧ ∀ c', x.run c ≠ .error .outOfFuel c'

namespace Settled

variable {n : Nat} {x y : TokenReader α} {f g : α → TokenReader β}

/-- What is settled on some tokens is settled on fewer. -/
theorem mono {m : Nat} (h : Settled n x y) (hm : m ≤ n) : Settled m x y :=
  fun c hc => h c (Nat.le_trans hc hm)

/-- Being settled goes on from bound to bound. -/
theorem trans {z : TokenReader α} (h : Settled n x y) (h' : Settled n y z) : Settled n x z :=
  fun c hc => ⟨(h c hc).1.trans (h' c hc).1, (h c hc).2⟩

protected theorem pure (a : α) : Settled n (pure a) (pure a) :=
  fun _ _ => ⟨rfl, fun _ h => by cases h⟩

/-- Two readers after one another. What the first one returns, and how many
tokens it leaves, may be used for the second. -/
theorem bind_of_ok (hx : Settled n x y)
    (hf : ∀ c a c', c.rest.length ≤ n → x.run c = .ok a c' →
      Settled c'.rest.length (f a) (g a)) :
    Settled n (x >>= f) (y >>= g) := by
  intro c hc
  obtain ⟨heq, hfuel⟩ := hx c hc
  -- the first readers end alike, so the second ones go on from one cursor
  cases hrun : x.run c with
  | ok a c' =>
    rw [TokenReader.run_bind_of_ok hrun, TokenReader.run_bind_of_ok (heq ▸ hrun)]
    exact hf c a c' hc hrun c' (Nat.le_refl _)
  | error halt c' =>
    rw [TokenReader.run_bind_of_error hrun, TokenReader.run_bind_of_error (heq ▸ hrun)]
    refine ⟨rfl, fun c'' h => ?_⟩
    cases h
    exact hfuel _ hrun

/-- Readers after one another are settled, as the second one has no more tokens than the first.
-/
protected theorem bind (hx : Settled n x y) (hf : ∀ a, Settled n (f a) (g a)) :
    Settled n (x >>= f) (y >>= g) :=
  hx.bind_of_ok fun _ a _ hc hrun => (hf a).mono (Nat.le_trans (TokenReader.length_le hrun) hc)

/-- Behind a reader that takes a token, the next one needs to be settled on fewer tokens only.
This is what lets the bounds go down along the recursion. -/
theorem bind_of_consumes (hx : Settled n x y) (hc : Consumes x)
    (hf : ∀ a m, m < n → Settled m (f a) (g a)) : Settled n (x >>= f) (y >>= g) :=
  hx.bind_of_ok fun c a c' hn hrun => hf a _ (Nat.lt_of_lt_of_le (hc c a c' hrun) hn)

end Settled

/-! ## Steps -/

section Steps

variable {n : Nat}

/-- A reader without a bound is settled on any tokens. -/
theorem nextIs_settled (test : TokenKind → Bool) : Settled n (nextIs test) (nextIs test) := by
  refine fun c _ => ⟨rfl, fun c' h => ?_⟩
  replace h : Step.nextIs test c = _ := h
  unfold Step.nextIs at h
  split at h <;> cases h

theorem take_settled (use : TokenKind → Option α) : Settled n (take use) (take use) := by
  refine fun c _ => ⟨rfl, fun c' h => ?_⟩
  replace h : Step.take use c = _ := h
  unfold Step.take at h
  split at h
  · cases h
  · split at h <;> cases h

theorem takeLiteral_settled : Settled n takeLiteral takeLiteral := by
  refine fun c _ => ⟨rfl, fun c' h => ?_⟩
  replace h : Step.takeLiteral c = _ := h
  unfold Step.takeLiteral at h
  split at h
  · cases h
  · split at h
    · split at h <;> cases h
    · cases h

theorem inFunction_settled : Settled n inFunction inFunction :=
  fun _ _ => ⟨rfl, fun _ h => by cases h⟩

theorem complain_settled (cause : Cause) (token : Token) (h : cause.isStructural = false) :
    Settled n (complain cause token h) (complain cause token h) :=
  fun _ _ => ⟨rfl, fun _ h => by cases h⟩

theorem complainHere_settled (cause : Cause) (h : cause.isStructural = false) :
    Settled n (complainHere cause h) (complainHere cause h) :=
  fun _ _ => ⟨rfl, fun _ h => by cases h⟩

theorem giveUpHere_settled (cause : Cause) (h : cause.isStructural = true) :
    Settled n (giveUpHere cause h : TokenReader α) (giveUpHere cause h) :=
  fun _ _ => ⟨rfl, fun _ h => by cases h⟩

theorem takeIf_settled (test : TokenKind → Bool) : Settled n (takeIf test) (takeIf test) :=
  (take_settled _).bind fun _ => .pure _

theorem skip_settled (kind : TokenKind) : Settled n (skip? kind) (skip? kind) :=
  (takeIf_settled _).bind fun _ => .pure _

theorem expect_settled (slot : Slot) : Settled n (expect slot) (expect slot) := by
  refine (takeIf_settled _).bind fun found => ?_
  cases found with
  | some token => exact .pure token
  | none => exact giveUpHere_settled _ _

/-- Recovering needs no fuel of its own. -/
theorem recovering_settled {x y : TokenReader α} (h : Settled n x y) :
    Settled n (recovering x) (recovering y) := by
  intro c hc
  obtain ⟨heq, hfuel⟩ := h c hc
  show Step.recovering x.run c = Step.recovering y.run c ∧ ∀ c', Step.recovering x.run c ≠ _
  unfold Step.recovering
  rw [← heq]
  refine ⟨rfl, fun c' hrun => ?_⟩
  split at hrun
  · cases hrun
  · cases hrun
  · rename_i c₁ hout
    exact hfuel c₁ hout

theorem insideBody_settled {x y : TokenReader α} (h : Settled n x y) :
    Settled n (insideBody x) (insideBody y) := by
  intro c hc
  obtain ⟨heq, hfuel⟩ := h { c with depth := c.depth + 1 } hc
  show Step.insideBody x.run c = Step.insideBody y.run c ∧ ∀ c', Step.insideBody x.run c ≠ _
  unfold Step.insideBody
  rw [← heq]
  refine ⟨rfl, fun c' hrun => ?_⟩
  cases hx : x.run { c with depth := c.depth + 1 } with
  | ok a c₁ =>
    rw [hx] at hrun
    cases hrun
  | error halt c₁ =>
    rw [hx] at hrun
    cases hrun
    exact hfuel c₁ hx

end Steps

/-! ### Steps that take a token, and what follows them -/

section Taking

variable {n : Nat}

/-- If a token is taken, fewer are left for the reader that follows. -/
theorem take_bind_settled {use : TokenKind → Option α}
    {f g : Option (Token × α) → TokenReader β}
    (hsome : ∀ token a m, m < n → Settled m (f (some (token, a))) (g (some (token, a))))
    (hnone : Settled n (f none) (g none)) : Settled n (take use >>= f) (take use >>= g) := by
  refine (take_settled use).bind_of_ok fun c found c' hc hrun => ?_
  cases found with
  | none => exact hnone.mono (Nat.le_trans (TokenReader.length_le hrun) hc)
  | some found =>
    exact hsome found.1 found.2 _ (Nat.lt_of_lt_of_le (take_eq_some.mp hrun).2.length_lt hc)

/-- The same if one is taken that passes a test. -/
theorem takeIf_bind_settled {test : TokenKind → Bool} {f g : Option Token → TokenReader β}
    (hsome : ∀ token m, m < n → Settled m (f (some token)) (g (some token)))
    (hnone : Settled n (f none) (g none)) : Settled n (takeIf test >>= f) (takeIf test >>= g) := by
  refine (takeIf_settled test).bind_of_ok fun c found c' hc hrun => ?_
  cases found with
  | none => exact hnone.mono (Nat.le_trans (TokenReader.length_le hrun) hc)
  | some token =>
    exact hsome token _ (Nat.lt_of_lt_of_le (takeIf_eq_some.mp hrun).2.length_lt hc)

/-- The same if one of a given kind is passed. -/
theorem skip_bind_settled {kind : TokenKind} {f g : Bool → TokenReader β}
    (htrue : ∀ m, m < n → Settled m (f true) (g true)) (hfalse : Settled n (f false) (g false)) :
    Settled n (skip? kind >>= f) (skip? kind >>= g) := by
  refine (skip_settled kind).bind_of_ok fun c found c' hc hrun => ?_
  cases found with
  | false => exact hfalse.mono (Nat.le_trans (TokenReader.length_le hrun) hc)
  | true =>
    obtain ⟨token, -, hpass⟩ := skip_eq_true.mp hrun
    exact htrue _ (Nat.lt_of_lt_of_le hpass.length_lt hc)

end Taking

/-! ## Expressions -/

/-- How many levels there are from this one to the tightest. -/
def Level.height : Level → Nat
  | .product => 1
  | .sum => 2
  | .comparison => 3
  | .equality => 4
  | .and => 5
  | .or => 6

/-- Going to the next tighter level is going down by one. -/
theorem Level.height_of_tighter {level level' : Level} (h : level.tighter? = some level') :
    level.height = level'.height + 1 := by
  cases level <;> cases h <;> rfl

/-- Even the tightest level is not at the bottom, where signs are read. -/
theorem Level.height_pos (level : Level) : 0 < level.height := by
  cases level <;> decide

/-- The loosest level is not higher than the number of levels. -/
theorem Level.height_le (level : Level) : level.height ≤ 6 := by
  cases level <;> decide

/-- With this fuel and one unit more, the readers of expressions are settled. -/
structure ExpressionsSettled (fuel : Nat) : Prop where
  expression : ∀ n, 32 * n + 15 ≤ fuel →
    Settled n (expression fuel) (expression (fuel + 1))
  binary : ∀ n level, 32 * n + 2 * level.height + 2 ≤ fuel →
    Settled n (binary fuel level) (binary (fuel + 1) level)
  binaryRest : ∀ n level left, 32 * n + 1 ≤ fuel →
    Settled n (binaryRest fuel level left) (binaryRest (fuel + 1) level left)
  operand : ∀ n level, 32 * n + 2 * level.height + 1 ≤ fuel →
    Settled n (operand fuel level) (operand (fuel + 1) level)
  unary : ∀ n, 32 * n + 2 ≤ fuel → Settled n (unary fuel) (unary (fuel + 1))
  postfixes : ∀ n left, 32 * n + 1 ≤ fuel →
    Settled n (postfixes fuel left) (postfixes (fuel + 1) left)
  argumentList : ∀ n, 32 * n + 17 ≤ fuel →
    Settled n (argumentList fuel) (argumentList (fuel + 1))
  arguments : ∀ n count, 32 * n + 16 ≤ fuel →
    Settled n (arguments fuel count) (arguments (fuel + 1) count)
  primary : ∀ n, 32 * n + 1 ≤ fuel → Settled n (primary fuel) (primary (fuel + 1))

namespace ExpressionsSettled

variable {fuel n : Nat}

/-- An expression needs a little more than its loosest operators. -/
theorem expression_succ (ih : ExpressionsSettled fuel) (h : 32 * n + 15 ≤ fuel + 1) :
    Settled n (Grammar.expression (fuel + 1)) (Grammar.expression (fuel + 2)) := by
  rw [Grammar.expression, Grammar.expression]
  refine (ih.binary n .or (by simp only [Level.height]; omega)).bind fun left => ?_
  refine takeIf_bind_settled (fun equals m hm => ?_) (.pure left)
  refine (ih.expression m (by omega)).bind fun value => ?_
  cases assignment? left value with
  | some result => exact .pure result
  | none => exact (complain_settled _ _ _).bind fun _ => .pure left

/-- A level needs twice its height, once for the operands and once for what follows. -/
theorem binary_succ (ih : ExpressionsSettled fuel) (level : Level)
    (h : 32 * n + 2 * level.height + 2 ≤ fuel + 1) :
    Settled n (Grammar.binary (fuel + 1) level) (Grammar.binary (fuel + 2) level) := by
  rw [Grammar.binary, Grammar.binary]
  refine (ih.operand n level (by omega)).bind fun left => ?_
  exact ih.binaryRest n level left (by omega)

/-- Behind an operator there is a token less, which pays for starting again with an operand. -/
theorem binaryRest_succ (ih : ExpressionsSettled fuel) (level : Level) (left : Expr)
    (h : 32 * n + 1 ≤ fuel + 1) :
    Settled n (Grammar.binaryRest (fuel + 1) level left)
      (Grammar.binaryRest (fuel + 2) level left) := by
  rw [Grammar.binaryRest, Grammar.binaryRest]
  -- the operator has been taken: a token less pays for an operand of any level
  refine takeIf_bind_settled (fun op m hm => ?_) (.pure left)
  have hheight : level.height ≤ 6 := level.height_le
  refine (ih.operand m level (by omega)).bind fun right => ?_
  exact ih.binaryRest m level _ (by omega)

/-- An operand is of a level below, or has signs. -/
theorem operand_succ (ih : ExpressionsSettled fuel) (level : Level)
    (h : 32 * n + 2 * level.height + 1 ≤ fuel + 1) :
    Settled n (Grammar.operand (fuel + 1) level) (Grammar.operand (fuel + 2) level) := by
  rw [Grammar.operand, Grammar.operand]
  cases htighter : level.tighter? with
  | some level' =>
    -- no token is taken on the way from a level to the next, but the height falls
    have hheight := Level.height_of_tighter htighter
    exact ih.binary n level' (by omega)
  | none =>
    have hheight := level.height_pos
    exact ih.unary n (by omega)

theorem unary_succ (ih : ExpressionsSettled fuel) (h : 32 * n + 2 ≤ fuel + 1) :
    Settled n (Grammar.unary (fuel + 1)) (Grammar.unary (fuel + 2)) := by
  rw [Grammar.unary, Grammar.unary]
  refine takeIf_bind_settled (fun op m hm => ?_) ?_
  · exact (ih.unary m (by omega)).bind fun operand => .pure _
  · refine (ih.primary n (by omega)).bind fun callee => ?_
    exact ih.postfixes n callee (by omega)

/-- Each call and each property access takes a token. -/
theorem postfixes_succ (ih : ExpressionsSettled fuel) (left : Expr) (h : 32 * n + 1 ≤ fuel + 1) :
    Settled n (Grammar.postfixes (fuel + 1) left) (Grammar.postfixes (fuel + 2) left) := by
  rw [Grammar.postfixes, Grammar.postfixes]
  refine skip_bind_settled (fun m hm => ?_) (skip_bind_settled (fun m hm => ?_) (.pure left))
  · refine (ih.argumentList m (by omega)).bind fun args => ?_
    exact (expect_settled _).bind fun paren => ih.postfixes m _ (by omega)
  · refine (expect_settled _).bind fun name => ?_
    exact ih.postfixes m _ (by omega)

/-- A list of arguments is asked for behind its parenthesis. -/
theorem argumentList_succ (ih : ExpressionsSettled fuel) (h : 32 * n + 17 ≤ fuel + 1) :
    Settled n (Grammar.argumentList (fuel + 1)) (Grammar.argumentList (fuel + 2)) := by
  rw [Grammar.argumentList, Grammar.argumentList]
  refine (nextIs_settled _).bind fun closed => ?_
  cases closed with
  | true => exact .pure _
  | false => exact ih.arguments n 0 (by omega)

/-- Each argument but the first stands behind a comma. -/
theorem arguments_succ (ih : ExpressionsSettled fuel) (count : Nat)
    (h : 32 * n + 16 ≤ fuel + 1) :
    Settled n (Grammar.arguments (fuel + 1) count) (Grammar.arguments (fuel + 2) count) := by
  have hrest : Settled n
      (do let arg ← Grammar.expression fuel
          if ← skip? .comma then
            return arg :: (← Grammar.arguments fuel (count + 1))
          else return [arg])
      (do let arg ← Grammar.expression (fuel + 1)
          if ← skip? .comma then
            return arg :: (← Grammar.arguments (fuel + 1) (count + 1))
          else return [arg]) := by
    refine (ih.expression n (by omega)).bind fun arg => ?_
    refine skip_bind_settled (fun m hm => ?_) (.pure _)
    exact (ih.arguments m (count + 1) (by omega)).bind fun args => .pure _
  rw [Grammar.arguments, Grammar.arguments]
  dsimp only
  split
  · exact (complainHere_settled _ _).bind fun _ => hrest
  · exact hrest

/-- In parentheses there is a token less, which pays for all levels. -/
theorem primary_succ (ih : ExpressionsSettled fuel) (h : 32 * n + 1 ≤ fuel + 1) :
    Settled n (Grammar.primary (fuel + 1)) (Grammar.primary (fuel + 2)) := by
  rw [Grammar.primary, Grammar.primary]
  refine takeLiteral_settled.bind fun found => ?_
  cases found with
  | some literal => exact .pure _
  | none =>
    refine take_bind_settled (fun token opening m hm => ?_) (giveUpHere_settled _ _)
    cases opening with
    | constant value => exact .pure _
    | super => exact (expect_settled _).bind fun _ => (expect_settled _).bind fun _ => .pure _
    | this => exact .pure _
    | name => exact .pure _
    | group =>
      refine (ih.expression m (by omega)).bind fun inner => ?_
      exact (expect_settled _).bind fun _ => .pure _

end ExpressionsSettled

/-- With such a bound all readers of expressions are settled, by induction on the bound. -/
theorem expressionsSettled (fuel : Nat) : ExpressionsSettled fuel := by
  induction fuel with
  | zero =>
    -- no reader is settled without fuel, and none has to be
    constructor <;> intros <;> omega
  | succ fuel ih =>
    exact
      { expression := fun _ => ih.expression_succ
        binary := fun _ => ih.binary_succ
        binaryRest := fun _ => ih.binaryRest_succ
        operand := fun _ => ih.operand_succ
        unary := fun _ => ih.unary_succ
        postfixes := fun _ => ih.postfixes_succ
        argumentList := fun _ => ih.argumentList_succ
        arguments := fun _ => ih.arguments_succ
        primary := fun _ => ih.primary_succ }

/-! ## Statements without statements inside -/

section Clauses

variable {fuel n : Nat}

theorem expression_settled (h : 32 * n + 15 ≤ fuel) :
    Settled n (expression fuel) (expression (fuel + 1)) :=
  (expressionsSettled fuel).expression n h

theorem expressionStatement_settled (h : 32 * n + 15 ≤ fuel) :
    Settled n (expressionStatement fuel) (expressionStatement (fuel + 1)) :=
  (expression_settled h).bind fun _ => (expect_settled _).bind fun _ => .pure _

theorem printStatement_settled (h : 32 * n + 15 ≤ fuel) :
    Settled n (printStatement fuel) (printStatement (fuel + 1)) :=
  (expression_settled h).bind fun _ => (expect_settled _).bind fun _ => .pure _

theorem expressionBefore_settled (kind : TokenKind) (h : 32 * n + 15 ≤ fuel) :
    Settled n (expressionBefore fuel kind) (expressionBefore (fuel + 1) kind) := by
  refine (nextIs_settled _).bind fun missing => ?_
  cases missing with
  | true => exact .pure _
  | false => exact (expression_settled h).bind fun _ => .pure _

theorem returnStatement_settled (keyword : Token) (h : 32 * n + 15 ≤ fuel) :
    Settled n (returnStatement fuel keyword) (returnStatement (fuel + 1) keyword) := by
  have hrest : Settled n
      (do let value ← expressionBefore fuel .semicolon
          let _ ← expect .returnEnd
          return Stmt.returnStmt keyword value)
      (do let value ← expressionBefore (fuel + 1) .semicolon
          let _ ← expect .returnEnd
          return Stmt.returnStmt keyword value) :=
    (expressionBefore_settled _ h).bind fun _ => (expect_settled _).bind fun _ => .pure _
  refine inFunction_settled.bind fun inside => ?_
  cases inside with
  | true => exact hrest
  | false => exact (complain_settled _ _ _).bind fun _ => hrest

theorem initialValue_settled (h : 32 * n + 15 ≤ fuel) :
    Settled n (initialValue fuel) (initialValue (fuel + 1)) := by
  refine skip_bind_settled (fun m hm => ?_) (.pure _)
  exact (expression_settled (by omega)).bind fun _ => .pure _

theorem varDeclaration_settled (h : 32 * n + 15 ≤ fuel) :
    Settled n (varDeclaration fuel) (varDeclaration (fuel + 1)) :=
  (expect_settled _).bind fun _ => (initialValue_settled h).bind fun _ =>
    (expect_settled _).bind fun _ => .pure _

theorem initializerClause_settled (h : 32 * n + 15 ≤ fuel) :
    Settled n (initializerClause fuel) (initializerClause (fuel + 1)) := by
  refine skip_bind_settled (fun m hm => .pure _) (skip_bind_settled (fun m hm => ?_) ?_)
  · exact (varDeclaration_settled (by omega)).bind fun _ => .pure _
  · exact (expressionStatement_settled h).bind fun _ => .pure _

/-- Parameters need one unit for each, and each takes a token. -/
theorem parameters_settled (count : Nat) (h : 32 * n + 1 ≤ fuel) :
    Settled n (parameters fuel count) (parameters (fuel + 1) count) := by
  induction fuel generalizing n count with
  | zero => omega
  | succ fuel ih =>
    have hrest : Settled n
        (do let name ← expect .parameterName
            if ← skip? .comma then
              return name :: (← parameters fuel (count + 1))
            else return [name])
        (do let name ← expect .parameterName
            if ← skip? .comma then
              return name :: (← parameters (fuel + 1) (count + 1))
            else return [name]) := by
      refine (expect_settled _).bind fun name => ?_
      refine skip_bind_settled (fun m hm => ?_) (.pure _)
      exact (ih (count + 1) (by omega)).bind fun names => .pure _
    rw [parameters, parameters]
    dsimp only
    split
    · exact (complainHere_settled _ _).bind fun _ => hrest
    · exact hrest

theorem parameterList_settled (h : 32 * n + 1 ≤ fuel) :
    Settled n (parameterList fuel) (parameterList (fuel + 1)) := by
  refine (nextIs_settled _).bind fun closed => ?_
  cases closed with
  | true => exact .pure _
  | false => exact parameters_settled 0 h

/-- A superclass is read without a bound. -/
theorem superclassClause_settled (name : Token) :
    Settled n (superclassClause name) (superclassClause name) := by
  refine skip_bind_settled (fun m hm => ?_) (.pure _)
  refine (expect_settled _).bind fun parent => ?_
  dsimp only
  split
  · exact (complain_settled _ _ _).bind fun _ => .pure _
  · exact .pure _

end Clauses

/-! ## Every statement takes a token -/

section Consuming

variable (fuel : Nat)

/-- A statement takes its semicolon at least. -/
theorem expressionStatement_consumes : Consumes (expressionStatement fuel) :=
  .of_rest fun _ => (expect_consumes _).bind

theorem printStatement_consumes : Consumes (printStatement fuel) :=
  .of_rest fun _ => (expect_consumes _).bind

theorem returnStatement_consumes (keyword : Token) : Consumes (returnStatement fuel keyword) := by
  have hrest : Consumes (do
      let value ← expressionBefore fuel .semicolon
      let _ ← expect .returnEnd
      return Stmt.returnStmt keyword value) :=
    .of_rest fun _ => (expect_consumes _).bind
  refine .of_rest fun inside => ?_
  cases inside with
  | true => exact hrest
  | false => exact .of_rest fun _ => hrest

theorem varDeclaration_consumes : Consumes (varDeclaration fuel) :=
  (expect_consumes _).bind

/-- A reader that returns nothing takes whatever it should. -/
theorem outOfFuel_consumes : Consumes (outOfFuel : TokenReader α) :=
  fun _ _ _ h => by cases h

/-- A block takes its closing brace. -/
theorem block_consumes : Consumes (block fuel) := by
  cases fuel with
  | zero => exact outOfFuel_consumes
  | succ fuel => exact .of_rest fun _ => (expect_consumes _).bind

/-- A function takes that of its body. -/
theorem callable_consumes (sort : Callable) : Consumes (callable fuel sort) := by
  cases fuel with
  | zero => exact outOfFuel_consumes
  | succ fuel => exact (expect_consumes _).bind

/-- A class takes its own. -/
theorem classDeclaration_consumes : Consumes (classDeclaration fuel) := by
  cases fuel with
  | zero => exact outOfFuel_consumes
  | succ fuel => exact (expect_consumes _).bind

theorem forStatement_consumes : Consumes (forStatement fuel) := by
  cases fuel with
  | zero => exact outOfFuel_consumes
  | succ fuel => exact (expect_consumes _).bind

theorem ifStatement_consumes : Consumes (ifStatement fuel) := by
  cases fuel with
  | zero => exact outOfFuel_consumes
  | succ fuel => exact (expect_consumes _).bind

theorem whileStatement_consumes : Consumes (whileStatement fuel) := by
  cases fuel with
  | zero => exact outOfFuel_consumes
  | succ fuel => exact (expect_consumes _).bind

/-- A statement takes a token, whichever one it is. Otherwise a loop over statements might not
end. -/
theorem statement_consumes : Consumes (statement fuel) := by
  cases fuel with
  | zero => exact outOfFuel_consumes
  | succ fuel =>
    rw [statement]
    refine .of_rest fun found => ?_
    cases found with
    | none => exact expressionStatement_consumes fuel
    | some found =>
      obtain ⟨keyword, lead⟩ := found
      cases lead with
      | forLoop => exact forStatement_consumes fuel
      | ifElse => exact ifStatement_consumes fuel
      | print => exact printStatement_consumes fuel
      | returnStmt => exact returnStatement_consumes fuel keyword
      | whileLoop => exact whileStatement_consumes fuel
      | block => exact (block_consumes fuel).bind

/-- So does a declaration that was not given up. -/
theorem strictDeclaration_consumes : Consumes (strictDeclaration fuel) := by
  cases fuel with
  | zero => exact outOfFuel_consumes
  | succ fuel =>
    rw [strictDeclaration]
    refine .of_rest fun found => ?_
    cases found with
    | none => exact statement_consumes fuel
    | some found =>
      obtain ⟨keyword, declarator⟩ := found
      cases declarator with
      | classDecl => exact classDeclaration_consumes fuel
      | funDecl => exact (callable_consumes fuel .function).bind
      | varDecl => exact varDeclaration_consumes fuel

variable {fuel}

/-- A declaration takes a token also where the reading resumes behind it. Only
where none is left it takes none. -/
theorem declaration_length_lt {c c' : Cursor} {stmt : Option Stmt} (hne : c.rest ≠ [])
    (h : (declaration fuel).run c = .ok stmt c') : c'.rest.length < c.rest.length := by
  cases fuel with
  | zero => cases h
  | succ fuel =>
    replace h : Step.recovering (strictDeclaration fuel).run c = _ := h
    unfold Step.recovering at h
    split at h
    · rename_i stmt c₁ hrun
      cases h
      exact strictDeclaration_consumes fuel c stmt _ hrun
    · rename_i c₁ hrun
      cases h
      have hadv := (strictDeclaration fuel).built.advances c
      rw [hrun] at hadv
      have hle : c₁.rest.length ≤ c.rest.length := hadv.rest.length_le
      -- the recovery passes over one token at least, unless all have been taken before
      cases hrest : c₁.rest with
      | nil => exact List.length_pos_iff.mpr hne
      | cons token rest =>
        have hlt := Step.length_resume_lt (List.cons_ne_nil token rest)
        rw [← hrest] at hlt ⊢
        exact Nat.lt_of_lt_of_le hlt hle
    · cases h

end Consuming

/-! ## Statements with statements inside -/

/-- With this fuel and one unit more, the readers of statements are settled. -/
structure StatementsSettled (fuel : Nat) : Prop where
  declaration : ∀ n, 32 * n + 18 ≤ fuel →
    Settled n (declaration fuel) (declaration (fuel + 1))
  strictDeclaration : ∀ n, 32 * n + 17 ≤ fuel →
    Settled n (strictDeclaration fuel) (strictDeclaration (fuel + 1))
  declarations : ∀ n, 32 * n + 19 ≤ fuel →
    Settled n (declarations fuel) (declarations (fuel + 1))
  block : ∀ n, 32 * n + 20 ≤ fuel → Settled n (block fuel) (block (fuel + 1))
  callable : ∀ n sort, 32 * n + 21 ≤ fuel →
    Settled n (callable fuel sort) (callable (fuel + 1) sort)
  methods : ∀ n, 32 * n + 22 ≤ fuel → Settled n (methods fuel) (methods (fuel + 1))
  classDeclaration : ∀ n, 32 * n + 23 ≤ fuel →
    Settled n (classDeclaration fuel) (classDeclaration (fuel + 1))
  statement : ∀ n, 32 * n + 16 ≤ fuel → Settled n (statement fuel) (statement (fuel + 1))
  forStatement : ∀ n, 32 * n + 17 ≤ fuel →
    Settled n (forStatement fuel) (forStatement (fuel + 1))
  ifStatement : ∀ n, 32 * n + 17 ≤ fuel →
    Settled n (ifStatement fuel) (ifStatement (fuel + 1))
  whileStatement : ∀ n, 32 * n + 17 ≤ fuel →
    Settled n (whileStatement fuel) (whileStatement (fuel + 1))

namespace StatementsSettled

variable {fuel n : Nat}

/-- A declaration needs one unit more than a strict one, for recovering. -/
theorem declaration_succ (ih : StatementsSettled fuel) (h : 32 * n + 18 ≤ fuel + 1) :
    Settled n (Grammar.declaration (fuel + 1)) (Grammar.declaration (fuel + 2)) := by
  rw [Grammar.declaration, Grammar.declaration]
  exact recovering_settled (ih.strictDeclaration n (by omega))

theorem strictDeclaration_succ (ih : StatementsSettled fuel) (h : 32 * n + 17 ≤ fuel + 1) :
    Settled n (Grammar.strictDeclaration (fuel + 1)) (Grammar.strictDeclaration (fuel + 2)) := by
  rw [Grammar.strictDeclaration, Grammar.strictDeclaration]
  refine take_bind_settled (fun token declarator m hm => ?_) (ih.statement n (by omega))
  cases declarator with
  | classDecl => exact ih.classDeclaration m (by omega)
  | funDecl => exact (ih.callable m .function (by omega)).bind fun _ => .pure _
  | varDecl => exact varDeclaration_settled (by omega)

/-- One round of a loop over declarations, and the loop itself. -/
theorem round (ih : StatementsSettled fuel) {rest rest' : TokenReader (List Stmt)}
    (hn : 0 < n) (h : 32 * n + 18 ≤ fuel) (hrest : ∀ m, m < n → Settled m rest rest') :
    Settled n
      (do let stmt ← Grammar.declaration fuel
          return stmt.toList ++ (← rest))
      (do let stmt ← Grammar.declaration (fuel + 1)
          return stmt.toList ++ (← rest')) := by
  refine (ih.declaration n h).bind_of_ok fun c stmt c' hc hrun => ?_
  -- the next round has fewer tokens, and where there was none it has none either
  refine (hrest _ ?_).bind fun stmts => .pure _
  by_cases hne : c.rest = []
  · have hle := TokenReader.length_le hrun
    rw [hne] at hle
    exact Nat.lt_of_le_of_lt hle hn
  · exact Nat.lt_of_lt_of_le (declaration_length_lt hne hrun) hc

/-- Each declaration takes a token, or passes one when it is given up. -/
theorem declarations_succ (ih : StatementsSettled fuel) (h : 32 * n + 19 ≤ fuel + 1) :
    Settled n (Grammar.declarations (fuel + 1)) (Grammar.declarations (fuel + 2)) := by
  rw [Grammar.declarations, Grammar.declarations]
  refine (nextIs_settled _).bind_of_ok fun c more c' hc hrun => ?_
  cases more with
  | false => exact .pure _
  | true =>
    -- a token is there, and the round is going to take it
    have hpos : 0 < c'.rest.length := nextIs_length_pos hrun
    have hle := TokenReader.length_le hrun
    exact ih.round hpos (by omega) fun m hm => ih.declarations m (by omega)

/-- A block needs one unit more than its declarations. -/
theorem block_succ (ih : StatementsSettled fuel) (h : 32 * n + 20 ≤ fuel + 1) :
    Settled n (Grammar.block (fuel + 1)) (Grammar.block (fuel + 2)) := by
  rw [Grammar.block, Grammar.block]
  exact (ih.declarations n (by omega)).bind fun _ => (expect_settled _).bind fun _ => .pure _

/-- A function needs one more than its body. -/
theorem callable_succ (ih : StatementsSettled fuel) (sort : Callable)
    (h : 32 * n + 21 ≤ fuel + 1) :
    Settled n (Grammar.callable (fuel + 1) sort) (Grammar.callable (fuel + 2) sort) := by
  rw [Grammar.callable, Grammar.callable]
  refine (expect_settled _).bind fun name => (expect_settled _).bind fun _ => ?_
  refine (parameterList_settled (by omega)).bind fun params => ?_
  refine (expect_settled _).bind fun _ => (expect_settled _).bind fun _ => ?_
  exact (insideBody_settled (ih.block n (by omega))).bind fun _ => .pure _

/-- A list of methods needs one more than a function. -/
theorem methods_succ (ih : StatementsSettled fuel) (h : 32 * n + 22 ≤ fuel + 1) :
    Settled n (Grammar.methods (fuel + 1)) (Grammar.methods (fuel + 2)) := by
  rw [Grammar.methods, Grammar.methods]
  refine (nextIs_settled _).bind fun more => ?_
  cases more with
  | false => exact .pure _
  | true =>
    refine (ih.callable n .method (by omega)).bind_of_consumes (callable_consumes _ _) ?_
    exact fun method m hm => (ih.methods m (by omega)).bind fun _ => .pure _

/-- A class needs one more than its methods, and has its keyword to pay for it. -/
theorem classDeclaration_succ (ih : StatementsSettled fuel) (h : 32 * n + 23 ≤ fuel + 1) :
    Settled n (Grammar.classDeclaration (fuel + 1)) (Grammar.classDeclaration (fuel + 2)) := by
  rw [Grammar.classDeclaration, Grammar.classDeclaration]
  refine (expect_settled _).bind fun name => (superclassClause_settled _).bind fun _ => ?_
  refine (expect_settled _).bind fun _ => (ih.methods n (by omega)).bind fun _ => ?_
  exact (expect_settled _).bind fun _ => .pure _

/-- A statement behind a keyword has fewer tokens left, which pays for a body in it. -/
theorem statement_succ (ih : StatementsSettled fuel) (h : 32 * n + 16 ≤ fuel + 1) :
    Settled n (Grammar.statement (fuel + 1)) (Grammar.statement (fuel + 2)) := by
  rw [Grammar.statement, Grammar.statement]
  refine take_bind_settled (fun token lead m hm => ?_) (expressionStatement_settled (by omega))
  cases lead with
  | forLoop => exact ih.forStatement m (by omega)
  | ifElse => exact ih.ifStatement m (by omega)
  | print => exact printStatement_settled (by omega)
  | returnStmt => exact returnStatement_settled token (by omega)
  | whileLoop => exact ih.whileStatement m (by omega)
  | block => exact (ih.block m (by omega)).bind fun _ => .pure _

theorem forStatement_succ (ih : StatementsSettled fuel) (h : 32 * n + 17 ≤ fuel + 1) :
    Settled n (Grammar.forStatement (fuel + 1)) (Grammar.forStatement (fuel + 2)) := by
  rw [Grammar.forStatement, Grammar.forStatement]
  refine (expect_settled _).bind fun _ => ?_
  refine (initializerClause_settled (by omega)).bind fun initializer => ?_
  refine (expressionBefore_settled _ (by omega)).bind fun condition => ?_
  refine (expect_settled _).bind fun _ => ?_
  refine (expressionBefore_settled _ (by omega)).bind fun increment => ?_
  refine (expect_settled _).bind fun _ => ?_
  exact (ih.statement n (by omega)).bind fun _ => .pure _

theorem ifStatement_succ (ih : StatementsSettled fuel) (h : 32 * n + 17 ≤ fuel + 1) :
    Settled n (Grammar.ifStatement (fuel + 1)) (Grammar.ifStatement (fuel + 2)) := by
  rw [Grammar.ifStatement, Grammar.ifStatement]
  refine (expect_settled _).bind fun _ => (expression_settled (by omega)).bind fun condition => ?_
  refine (expect_settled _).bind fun _ => (ih.statement n (by omega)).bind fun thenBranch => ?_
  refine skip_bind_settled (fun m hm => ?_) (.pure _)
  exact ((ih.statement m (by omega)).bind fun _ => .pure _).bind fun _ => .pure _

theorem whileStatement_succ (ih : StatementsSettled fuel) (h : 32 * n + 17 ≤ fuel + 1) :
    Settled n (Grammar.whileStatement (fuel + 1)) (Grammar.whileStatement (fuel + 2)) := by
  rw [Grammar.whileStatement, Grammar.whileStatement]
  refine (expect_settled _).bind fun _ => (expression_settled (by omega)).bind fun condition => ?_
  refine (expect_settled _).bind fun _ => ?_
  exact (ih.statement n (by omega)).bind fun _ => .pure _

end StatementsSettled

/-- With such a bound all readers of statements are settled, by induction on the bound. -/
theorem statementsSettled (fuel : Nat) : StatementsSettled fuel := by
  induction fuel with
  | zero => constructor <;> intros <;> omega
  | succ fuel ih =>
    exact
      { declaration := fun _ => ih.declaration_succ
        strictDeclaration := fun _ => ih.strictDeclaration_succ
        declarations := fun _ => ih.declarations_succ
        block := fun _ => ih.block_succ
        callable := fun _ => ih.callable_succ
        methods := fun _ => ih.methods_succ
        classDeclaration := fun _ => ih.classDeclaration_succ
        statement := fun _ => ih.statement_succ
        forStatement := fun _ => ih.forStatement_succ
        ifStatement := fun _ => ih.ifStatement_succ
        whileStatement := fun _ => ih.whileStatement_succ }

/-! ## Programs -/

/-- A program is settled from a bound on that is linear in its tokens. -/
theorem program_settled {fuel n : Nat} (h : 32 * n + 19 ≤ fuel) :
    Settled n (program fuel) (program (fuel + 1)) := by
  induction fuel generalizing n with
  | zero => omega
  | succ fuel ih =>
    rw [program, program]
    refine (nextIs_settled _).bind_of_ok fun c more c' hc hrun => ?_
    cases more with
    | false => exact .pure _
    | true =>
      have hpos : 0 < c'.rest.length := nextIs_length_pos hrun
      have hle := TokenReader.length_le hrun
      exact (statementsSettled fuel).round hpos (by omega) fun m hm => ih (by omega)

/-- The tokens cannot exhaust the bound that a program is read with, and any
higher bound gives the same reading. -/
theorem program_of_fuelFor {fuel n : Nat} (h : fuelFor n ≤ fuel) :
    Settled n (program (fuelFor n)) (program fuel) := by
  induction h with
  | refl => exact fun c hc => ⟨rfl, (program_settled (by unfold fuelFor; omega) c hc).2⟩
  | @step fuel hfuel ih =>
    have hle : 32 * n + 19 ≤ fuel := Nat.le_trans (by unfold fuelFor; omega) hfuel
    exact ih.trans (program_settled hle)

/-! ## The end of the reading -/

section Ends

variable {fuel : Nat}

/-- However a declaration ends, it is not by giving up. -/
theorem declaration_not_givenUp {c c' : Cursor} :
    (declaration fuel).run c ≠ .error .givenUp c' := by
  intro h
  cases fuel with
  | zero => cases h
  | succ fuel =>
    replace h : Step.recovering (strictDeclaration fuel).run c = _ := h
    unfold Step.recovering at h
    split at h <;> cases h

/-- A program is never given up as a whole, as its declarations are recovered from one by one.
-/
theorem program_not_givenUp {c c' : Cursor} : (program fuel).run c ≠ .error .givenUp c' := by
  induction fuel generalizing c with
  | zero =>
    intro h
    cases h
  | succ fuel ih =>
    intro h
    rw [program] at h
    have hnext : (nextIs fun _ => true).run c = .ok (c.rest.head?.any fun _ => true) c :=
      nextIs_eq_ok.mpr ⟨rfl, rfl⟩
    rw [TokenReader.run_bind_of_ok hnext] at h
    cases hmore : c.rest.head?.any fun _ => true with
    | false =>
      rw [hmore] at h
      cases h
    | true =>
      rw [hmore, if_pos rfl] at h
      cases hdecl : (declaration fuel).run c with
      | error halt c₁ =>
        rw [TokenReader.run_bind_of_error hdecl] at h
        cases h
        exact declaration_not_givenUp hdecl
      | ok stmt c₁ =>
        rw [TokenReader.run_bind_of_ok hdecl] at h
        cases hrest : (program fuel).run c₁ with
        | error halt c₂ =>
          rw [TokenReader.run_bind_of_error hrest] at h
          cases h
          exact ih hrest
        | ok stmts c₂ =>
          rw [TokenReader.run_bind_of_ok hrest] at h
          cases h

/-- A program that returns something has been read to the end of the tokens. -/
theorem rest_eq_nil_of_program {c c' : Cursor} {stmts : List Stmt}
    (h : (program fuel).run c = .ok stmts c') : c'.rest = [] := by
  induction fuel generalizing c stmts with
  | zero => cases h
  | succ fuel ih =>
    rw [program] at h
    obtain ⟨more, c₁, hnext, hrest⟩ := TokenReader.run_bind_eq_ok.mp h
    cases more with
    | true =>
      obtain ⟨stmt, c₂, -, hrest⟩ := TokenReader.run_bind_eq_ok.mp hrest
      obtain ⟨stmts₂, c₃, hprogram, hpure⟩ := TokenReader.run_bind_eq_ok.mp hrest
      cases hpure
      exact ih hprogram
    | false =>
      obtain ⟨rfl, hnone⟩ := nextIs_eq_false hnext
      cases hrest
      cases hrest : c'.rest with
      | nil => rfl
      | cons token rest =>
        rw [hrest] at hnone
        cases hnone token rfl

/-- With enough fuel, a program is read to the end. -/
theorem exists_program_run (c : Cursor) :
    ∃ stmts c', c'.rest = [] ∧
      ∀ fuel, fuelFor c.rest.length ≤ fuel → (program fuel).run c = .ok stmts c' := by
  cases hrun : (program (fuelFor c.rest.length)).run c with
  | ok stmts c' =>
    refine ⟨stmts, c', rest_eq_nil_of_program hrun, fun fuel hfuel => ?_⟩
    rw [← (program_of_fuelFor hfuel c (Nat.le_refl _)).1, hrun]
  | error halt c' =>
    cases halt with
    | givenUp => exact absurd hrun program_not_givenUp
    | outOfFuel =>
      exact absurd hrun ((program_of_fuelFor (Nat.le_refl _) c (Nat.le_refl _)).2 c')

/-- Without an end marker all tokens are to be read. -/
theorem start_rest {tokens : List Token} (h : ∀ t ∈ tokens, t.kind ≠ .eof) :
    (Cursor.start tokens).rest = tokens := by
  rw [Cursor.start, List.takeWhile_eq_self_iff]
  intro t ht
  exact bne_iff_ne.mpr (h t ht)

/-- Of a list without end markers nothing is left out. -/
theorem start_with_rest {tokens : List Token} (h : ∀ t ∈ tokens, t.kind ≠ .eof) :
    { Cursor.start tokens with rest := tokens } = Cursor.start tokens := by
  have hstart := start_rest h
  simp only [Cursor.start, Cursor.mk.injEq] at hstart ⊢
  exact ⟨hstart.symm, trivial, trivial, trivial⟩

/-- One run with a bound that is high enough says what the reading is. -/
theorem read_eq_of_run_at {tokens : List Token} {stmts : List Stmt} {c' : Cursor} {fuel : Nat}
    (hfuel : fuelFor (Cursor.start tokens).rest.length ≤ fuel)
    (h : (program fuel).run (Cursor.start tokens) = .ok stmts c') :
    read tokens = ⟨stmts, c'.complaints.toList⟩ := by
  rw [read, (program_of_fuelFor hfuel _ (Nat.le_refl _)).1, h]

/-- The reading of a list of tokens, whatever the bound that it is made with. -/
theorem read_eq_of_run {tokens : List Token} {stmts : List Stmt} {c' : Cursor}
    (h : ∀ fuel, fuelFor (Cursor.start tokens).rest.length ≤ fuel →
      (program fuel).run (Cursor.start tokens) = .ok stmts c') :
    read tokens = ⟨stmts, c'.complaints.toList⟩ := by
  rw [read, h _ (Nat.le_refl _)]

end Ends

end Lox.Grammar
