/-
`Lox.Proofs.Grammar.Checks` -- checks that are made in passing never steer the reading.

The readers are compared with those that check nothing (`Unchecked`), step by step: both
take the same tokens, give up together, and return the same. What differs are the
complaints, and those of the unchecked readers are the structural ones of the others. The
counter of the readers that check is the number of bodies that the others are told of, so
the complaints about a `return` outside of functions are, in order, those that the record of
return statements has no body for.

From related cursors related readers come to related cursors (`Accord`). There is one law
for two readers after one another, one for each sort of step, and one for each check; the
rest is an induction on the bound, as the readers call one another.
-/
import Lox.Proofs.Grammar.FirstMistake
import Lox.Proofs.Grammar.Unchecked

set_option autoImplicit false

namespace Lox

namespace Grammar

open Unchecked (Begun Progress Recorder)

variable {α β : Type}

/-! ## Cursors that agree -/

/-- The complaint says that a `return` stands outside of functions. -/
def Complaint.isReturnOutside (k : Complaint) : Bool :=
  k.cause == .returnOutside

/-- Both readings have come equally far, inside of these bodies. -/
structure Cursor.Agrees (around : List Token) (c : Cursor) (p : Progress) : Prop where
  rest : p.cursor.rest = c.rest
  finish : p.cursor.finish = c.finish
  depth : c.depth = around.length
  structural : p.cursor.complaints.toList = c.complaints.toList.filter (·.cause.isStructural)
  begun : (p.begun.toList.filter (·.around.isEmpty)).map Begun.keyword
    = (c.complaints.toList.filter Complaint.isReturnOutside).map Complaint.token

namespace Cursor.Agrees

variable {around : List Token} {c : Cursor} {p : Progress}

/-- Cursors that agree are at one token. -/
theorem current (h : c.Agrees around p) : p.cursor.current = c.current := by
  rw [Cursor.current, Cursor.current, h.rest, h.finish]

/-- They still agree when both have gone on to the same tokens. -/
theorem behind (h : c.Agrees around p) (rest : List Token) :
    Cursor.Agrees around { c with rest } { p with cursor := { p.cursor with rest } } :=
  ⟨rfl, h.finish, h.depth, h.structural, h.begun⟩

/-- A structural complaint is made by both. -/
theorem complain (h : c.Agrees around p) {cause : Cause} (hcause : cause.isStructural = true)
    (token : Token) :
    (c.complain cause token).Agrees around { p with cursor := p.cursor.complain cause token } := by
  have hreturn : Complaint.isReturnOutside ⟨cause, token⟩ = false := by
    cases cause <;> first | rfl | cases hcause
  refine ⟨h.rest, h.finish, h.depth, ?_, ?_⟩
  · simp only [Cursor.complain, Array.toList_push, List.filter_append, h.structural]
    rw [List.filter_cons_of_pos (by exact hcause), List.filter_nil]
  · simp only [Cursor.complain, Array.toList_push, List.filter_append, h.begun, List.map_append]
    rw [List.filter_cons_of_neg (by simp [hreturn]), List.filter_nil, List.map_nil, List.append_nil]

/-- A complaint in passing is made by one reader alone, and the other does not notice. -/
theorem check (h : c.Agrees around p) {cause : Cause} (hcause : cause.isStructural = false)
    (hreturn : cause ≠ .returnOutside) (token : Token) :
    (c.complain cause token).Agrees around p := by
  refine ⟨h.rest, h.finish, h.depth, ?_, ?_⟩
  · simp only [Cursor.complain, Array.toList_push, List.filter_append]
    rw [h.structural, List.filter_cons_of_neg (by simp [hcause]), List.filter_nil, List.append_nil]
  · simp only [Cursor.complain, Array.toList_push, List.filter_append]
    rw [h.begun, List.filter_cons_of_neg (by simp [Complaint.isReturnOutside, hreturn]),
      List.filter_nil, List.append_nil]

/-- Outside of all bodies a `return` is complained about, and the record says so. -/
theorem returnOutside (h : c.Agrees [] p) (keyword : Token) :
    (c.complain .returnOutside keyword).Agrees []
      { p with begun := p.begun.push ⟨keyword, []⟩ } := by
  refine ⟨h.rest, h.finish, h.depth, ?_, ?_⟩
  · simp only [Cursor.complain, Array.toList_push, List.filter_append]
    rw [h.structural, List.filter_cons_of_neg Bool.false_ne_true, List.filter_nil, List.append_nil]
  · simp only [Cursor.complain, Array.toList_push, List.filter_append, List.map_append, h.begun]
    rfl

/-- Inside of a body it is not, and the record says so, too. -/
theorem returnInside {name : Token} (h : c.Agrees (name :: around) p) (keyword : Token) :
    c.Agrees (name :: around) { p with begun := p.begun.push ⟨keyword, name :: around⟩ } := by
  refine ⟨h.rest, h.finish, h.depth, h.structural, ?_⟩
  rw [Array.toList_push, List.filter_append, ← h.begun,
    List.filter_cons_of_neg (by simp), List.filter_nil, List.append_nil]

end Cursor.Agrees

/-! ## Readers that accord -/

/-- The readers end in one way and with the same result, and their cursors agree. -/
def Outcome.Matches (around : List Token) : Outcome α → EStateM.Result Halt Progress α → Prop
  | .ok a c, .ok a' p => a = a' ∧ c.Agrees around p
  | .error halt c, .error halt' p => halt = halt' ∧ c.Agrees around p
  | _, _ => False

/-- Inside of these bodies, the reader that checks and the one that does not come from
cursors that agree to ends that do. -/
def Accord (around : List Token) (x : TokenReader α) (y : Recorder α) : Prop :=
  ∀ c p, c.Agrees around p → Outcome.Matches around (x.run c) (y p)

/-- The reader checks nothing itself. -/
def Steady (x : TokenReader α) : Prop :=
  ∀ around, Accord around x (Unchecked.plain x)

namespace Accord

variable {around : List Token} {x : TokenReader α} {y : Recorder α} {f : α → TokenReader β}
  {g : α → Recorder β}

protected theorem pure (a : α) : Accord around (pure a) (pure a) :=
  fun _ _ hc => ⟨rfl, hc⟩

/-- Without fuel both stop, and nothing has moved. -/
theorem outOfFuel : Accord around (outOfFuel : TokenReader α) (throw .outOfFuel) :=
  fun _ _ hc => ⟨rfl, hc⟩

/-- Readers that check nothing check nothing after one another. -/
protected theorem bind (hx : Accord around x y) (hf : ∀ a, Accord around (f a) (g a)) :
    Accord around (x >>= f) (y >>= g) := by
  intro c p hc
  have hfirst := hx c p hc
  show Outcome.Matches around _ (EStateM.bind y g p)
  unfold EStateM.bind
  cases hrun : x.run c with
  | ok a c' =>
    cases hrun' : y p with
    | ok a' p' =>
      rw [hrun, hrun'] at hfirst
      obtain ⟨rfl, hagrees⟩ := hfirst
      rw [TokenReader.run_bind_of_ok hrun]
      exact hf a c' p' hagrees
    | error halt p' =>
      rw [hrun, hrun'] at hfirst
      exact hfirst.elim
  | error halt c' =>
    cases hrun' : y p with
    | ok a' p' =>
      rw [hrun, hrun'] at hfirst
      exact hfirst.elim
    | error halt' p' =>
      rw [hrun, hrun'] at hfirst
      rw [TokenReader.run_bind_of_error hrun]
      exact hfirst

/-! ### Checks -/

/-- A complaint in passing makes no difference to what comes behind it. -/
theorem checked {cause : Cause} {token : Token} {h : cause.isStructural = false}
    {f : Unit → TokenReader α} (hreturn : cause ≠ .returnOutside) (hf : Accord around (f ()) y) :
    Accord around (complain cause token h >>= f) y :=
  fun _ p hc => hf _ p (hc.check h hreturn token)

/-- A check that only complains can be left out on the one side. The complaint is about no
`return`, and so changes nothing that is compared. -/
theorem checkedHere {cause : Cause} {h : cause.isStructural = false}
    {f : Unit → TokenReader α} (hreturn : cause ≠ .returnOutside) (hf : Accord around (f ()) y) :
    Accord around (complainHere cause h >>= f) y :=
  fun c p hc => hf _ p (hc.check h hreturn c.current)

/-- A `return` is complained about if it is in no body, which is what the record says. -/
theorem begins {keyword : Token} {k : Bool → TokenReader α} {g : Unit → Recorder α}
    (hinside : k true = x) (houtside : k false = complain .returnOutside keyword >>= fun _ => x)
    (hx : Accord around x (g ())) :
    Accord around (inFunction >>= k) (Unchecked.begins keyword around >>= g) := by
  intro c p hc
  show Outcome.Matches around ((k (c.depth != 0)).run c)
    (g () { p with begun := p.begun.push ⟨keyword, around⟩ })
  rw [hc.depth]
  cases around with
  | nil =>
    rw [List.length_nil, bne_self_eq_false, houtside]
    exact hx _ _ (hc.returnOutside keyword)
  | cons name outer =>
    rw [show ((name :: outer).length != 0) = true from rfl, hinside]
    exact hx _ _ (hc.returnInside keyword)

/-! ### Declarations and bodies -/

/-- Both recover from the same failures and at the same place. -/
protected theorem recovering (hx : Accord around x y) :
    Accord around (recovering x) (Unchecked.recovering y) := by
  intro c p hc
  have hread := hx c p hc
  show Outcome.Matches around (Step.recovering x.run c) (Unchecked.recovering y p)
  unfold Step.recovering Unchecked.recovering
  cases hrun : x.run c with
  | ok a c' =>
    cases hrun' : y p with
    | ok a' p' =>
      rw [hrun, hrun'] at hread
      exact ⟨congrArg some hread.1, hread.2⟩
    | error halt p' =>
      rw [hrun, hrun'] at hread
      exact hread.elim
  | error halt c' =>
    cases hrun' : y p with
    | ok a' p' =>
      rw [hrun, hrun'] at hread
      exact hread.elim
    | error halt' p' =>
      rw [hrun, hrun'] at hread
      obtain ⟨rfl, hagrees⟩ := hread
      cases halt with
      | outOfFuel => exact ⟨rfl, hagrees⟩
      | givenUp =>
        refine ⟨rfl, ?_⟩
        rw [hagrees.rest]
        exact hagrees.behind _

/-- In a body the counter is one higher, and one more function is around. -/
protected theorem insideBody {name : Token} (hx : Accord (name :: around) x y) :
    Accord around (insideBody x) y := by
  intro c p hc
  have hinside : Cursor.Agrees (name :: around) { c with depth := c.depth + 1 } p :=
    ⟨hc.rest, hc.finish, congrArg (· + 1) hc.depth, hc.structural, hc.begun⟩
  have houtside : ∀ {c' : Cursor} {p' : Progress}, c'.Agrees (name :: around) p' →
      Cursor.Agrees around { c' with depth := c'.depth - 1 } p' :=
    fun h => ⟨h.rest, h.finish, congrArg (· - 1) h.depth, h.structural, h.begun⟩
  have hread := hx _ p hinside
  show Outcome.Matches around (Step.insideBody x.run c) (y p)
  unfold Step.insideBody
  cases hrun : x.run { c with depth := c.depth + 1 } <;> cases hrun' : y p <;>
    rw [hrun, hrun'] at hread
  · exact ⟨hread.1, houtside hread.2⟩
  · exact hread
  · exact hread
  · exact ⟨hread.1, houtside hread.2⟩

end Accord

/-! ## Readers that check nothing -/

namespace Steady

protected theorem pure (a : α) : Steady (pure a : TokenReader α) :=
  fun _ _ _ hc => ⟨rfl, hc⟩

/-- Two steady readers after one another are one. -/
theorem plain_bind (x : TokenReader α) (f : α → TokenReader β) :
    Unchecked.plain (x >>= f) = Unchecked.plain x >>= fun a => Unchecked.plain (f a) := by
  funext p
  show _ = EStateM.bind (Unchecked.plain x) (fun a => Unchecked.plain (f a)) p
  unfold Unchecked.plain EStateM.bind
  dsimp only
  cases hrun : x.run p.cursor with
  | ok a c => rw [TokenReader.run_bind_of_ok hrun]
  | error halt c => rw [TokenReader.run_bind_of_error hrun]

/-- Readers that check nothing check nothing after one another. -/
protected theorem bind {x : TokenReader α} {f : α → TokenReader β} (hx : Steady x)
    (hf : ∀ a, Steady (f a)) : Steady (x >>= f) := by
  intro around
  rw [plain_bind]
  exact (hx around).bind fun a => hf a around

/-- Looking at the next token checks nothing. -/
theorem nextIs (test : TokenKind → Bool) : Steady (nextIs test) := by
  intro around c p hc
  show Outcome.Matches around (Step.nextIs test c) (Unchecked.plain ⟨Step.nextIs test, _⟩ p)
  unfold Unchecked.plain Step.nextIs
  dsimp only
  rw [hc.rest]
  cases c.rest with
  | nil => exact ⟨rfl, hc⟩
  | cons token rest => exact ⟨rfl, hc⟩

/-- Taking one if it can be used checks nothing either. -/
theorem take (use : TokenKind → Option α) : Steady (take use) := by
  intro around c p hc
  show Outcome.Matches around (Step.take use c) (Unchecked.plain ⟨Step.take use, _⟩ p)
  unfold Unchecked.plain Step.take
  dsimp only
  rw [hc.rest]
  cases c.rest with
  | nil => exact ⟨rfl, hc⟩
  | cons token rest =>
    dsimp only
    cases use token.kind with
    | none => exact ⟨rfl, hc⟩
    | some a => exact ⟨rfl, hc.behind rest⟩

theorem takeLiteral : Steady takeLiteral := by
  intro around c p hc
  show Outcome.Matches around (Step.takeLiteral c) (Unchecked.plain ⟨Step.takeLiteral, _⟩ p)
  unfold Unchecked.plain Step.takeLiteral
  dsimp only
  rw [hc.rest]
  cases c.rest with
  | nil => exact ⟨rfl, hc⟩
  | cons token rest =>
    dsimp only
    split
    · cases token.literal with
      | some literal => exact ⟨rfl, hc.behind rest⟩
      | none => exact ⟨rfl, (hc.behind rest).complain rfl token⟩
    · exact ⟨rfl, hc⟩

/-- Giving up is structural, and is done on both sides. -/
theorem giveUpHere (cause : Cause) (h : cause.isStructural = true) :
    Steady (giveUpHere cause h : TokenReader α) := by
  intro around c p hc
  show Outcome.Matches around (Step.giveUpHere cause c) (Unchecked.plain ⟨Step.giveUpHere cause, _⟩ p)
  unfold Unchecked.plain Step.giveUpHere
  dsimp only
  rw [hc.current]
  exact ⟨rfl, hc.complain h c.current⟩

/-- A token that passes a test is taken on both sides. -/
theorem takeIf (test : TokenKind → Bool) : Steady (takeIf test) :=
  (take _).bind fun _ => .pure _

theorem skip (kind : TokenKind) : Steady (skip? kind) :=
  (takeIf _).bind fun _ => .pure _

/-- An expected token is on both sides, or missing on both. -/
theorem expect (slot : Slot) : Steady (expect slot) := by
  refine (takeIf _).bind fun found => ?_
  cases found with
  | some token => exact .pure token
  | none => exact .giveUpHere _ _

end Steady

/-! ## Expressions -/

section Expressions

variable {around : List Token} {fuel : Nat}

/-- With this bound, the readers of expressions accord. -/
structure ExpressionsAccord (around : List Token) (fuel : Nat) : Prop where
  expression : Accord around (expression fuel) (Unchecked.expression fuel)
  binary : ∀ level, Accord around (binary fuel level) (Unchecked.binary fuel level)
  binaryRest : ∀ level left,
    Accord around (binaryRest fuel level left) (Unchecked.binaryRest fuel level left)
  operand : ∀ level, Accord around (operand fuel level) (Unchecked.operand fuel level)
  unary : Accord around (unary fuel) (Unchecked.unary fuel)
  postfixes : ∀ left, Accord around (postfixes fuel left) (Unchecked.postfixes fuel left)
  argumentList : Accord around (argumentList fuel) (Unchecked.argumentList fuel)
  arguments : ∀ count, Accord around (arguments fuel count) (Unchecked.arguments fuel)
  primary : Accord around (primary fuel) (Unchecked.primary fuel)

namespace ExpressionsAccord

variable (ih : ExpressionsAccord around fuel)
include ih

/-- A wrong target is complained about when the value has been read, and nothing is read
behind the complaint. -/
theorem expression_succ :
    Accord around (Grammar.expression (fuel + 1)) (Unchecked.expression (fuel + 1)) := by
  refine (ih.binary .or).bind fun left => (Steady.takeIf _ around).bind fun found => ?_
  cases found with
  | none => exact .pure left
  | some equals =>
    refine ih.expression.bind fun value => ?_
    cases assignment? left value with
    | some result => exact .pure result
    | none => exact .checked (by decide) (.pure left)

/-- Operators of a level accord, as an operand does and what follows it. -/
theorem binary_succ (level : Level) :
    Accord around (Grammar.binary (fuel + 1) level) (Unchecked.binary (fuel + 1) level) :=
  (ih.operand level).bind (ih.binaryRest level)

theorem binaryRest_succ (level : Level) (left : Expr) :
    Accord around (Grammar.binaryRest (fuel + 1) level left)
      (Unchecked.binaryRest (fuel + 1) level left) := by
  refine (Steady.takeIf _ around).bind fun found => ?_
  cases found with
  | none => exact .pure left
  | some op => exact (ih.operand level).bind fun right => ih.binaryRest level _

/-- So do operands, which are of the next level. -/
theorem operand_succ (level : Level) :
    Accord around (Grammar.operand (fuel + 1) level) (Unchecked.operand (fuel + 1) level) := by
  unfold Grammar.operand Unchecked.operand
  cases level.tighter? with
  | some level => exact ih.binary level
  | none => exact ih.unary

theorem unary_succ :
    Accord around (Grammar.unary (fuel + 1)) (Unchecked.unary (fuel + 1)) := by
  refine (Steady.takeIf _ around).bind fun found => ?_
  cases found with
  | none => exact ih.primary.bind ih.postfixes
  | some op => exact ih.unary.bind fun operand => .pure _

/-- So do calls and property accesses, one after the other. -/
theorem postfixes_succ (left : Expr) :
    Accord around (Grammar.postfixes (fuel + 1) left) (Unchecked.postfixes (fuel + 1) left) := by
  refine (Steady.skip _ around).bind fun isCall => ?_
  cases isCall with
  | true =>
    exact ih.argumentList.bind fun args => (Steady.expect _ around).bind fun paren =>
      ih.postfixes _
  | false =>
    refine (Steady.skip _ around).bind fun isGet => ?_
    cases isGet with
    | true => exact (Steady.expect _ around).bind fun name => ih.postfixes _
    | false => exact .pure left

/-- Arguments are where a check is left out: there may be too many of them. -/
theorem argumentList_succ :
    Accord around (Grammar.argumentList (fuel + 1)) (Unchecked.argumentList (fuel + 1)) := by
  refine (Steady.nextIs _ around).bind fun closed => ?_
  cases closed with
  | true => exact .pure []
  | false => exact ih.arguments 0

/-- How many arguments have been read makes no difference to the reading. -/
theorem arguments_succ (count : Nat) :
    Accord around (Grammar.arguments (fuel + 1) count) (Unchecked.arguments (fuel + 1)) := by
  have hrest : Accord around
      (do
        let arg ← Grammar.expression fuel
        if ← skip? .comma then return arg :: (← Grammar.arguments fuel (count + 1))
        else return [arg])
      (Unchecked.arguments (fuel + 1)) := by
    refine ih.expression.bind fun arg => (Steady.skip _ around).bind fun another => ?_
    cases another with
    | true => exact (ih.arguments (count + 1)).bind fun rest => .pure _
    | false => exact .pure _
  unfold Grammar.arguments
  split
  · exact .checkedHere (by decide) hrest
  · exact hrest

/-- So does whatever an expression begins with. -/
theorem primary_succ :
    Accord around (Grammar.primary (fuel + 1)) (Unchecked.primary (fuel + 1)) := by
  refine (Steady.takeLiteral around).bind fun literal => ?_
  cases literal with
  | some literal => exact .pure _
  | none =>
    refine (Steady.take _ around).bind fun found => ?_
    cases found with
    | none => exact Steady.giveUpHere _ rfl around
    | some found =>
      obtain ⟨token, opening⟩ := found
      cases opening with
      | constant value => exact .pure _
      | super =>
        exact (Steady.expect _ around).bind fun _ => (Steady.expect _ around).bind fun method =>
          .pure _
      | this => exact .pure _
      | name => exact .pure _
      | group =>
        exact ih.expression.bind fun inner => (Steady.expect _ around).bind fun _ => .pure _

end ExpressionsAccord

/-- All readers of expressions accord, by induction on the fuel. -/
theorem expressionsAccord (around : List Token) (fuel : Nat) : ExpressionsAccord around fuel := by
  induction fuel with
  | zero => constructor <;> intros <;> exact .outOfFuel
  | succ fuel ih =>
    exact
      { expression := ih.expression_succ
        binary := ih.binary_succ
        binaryRest := ih.binaryRest_succ
        operand := ih.operand_succ
        unary := ih.unary_succ
        postfixes := ih.postfixes_succ
        argumentList := ih.argumentList_succ
        arguments := ih.arguments_succ
        primary := ih.primary_succ }

end Expressions

/-! ## Statements -/

section Clauses

variable (around : List Token) (fuel : Nat)

theorem expressionStatement_accords :
    Accord around (expressionStatement fuel) (Unchecked.expressionStatement fuel) :=
  (expressionsAccord around fuel).expression.bind fun _ =>
    (Steady.expect _ around).bind fun _ => .pure _

theorem printStatement_accords :
    Accord around (printStatement fuel) (Unchecked.printStatement fuel) :=
  (expressionsAccord around fuel).expression.bind fun _ =>
    (Steady.expect _ around).bind fun _ => .pure _

theorem expressionBefore_accords (kind : TokenKind) :
    Accord around (expressionBefore fuel kind) (Unchecked.expressionBefore fuel kind) := by
  refine (Steady.nextIs _ around).bind fun missing => ?_
  cases missing with
  | true => exact .pure none
  | false => exact (expressionsAccord around fuel).expression.bind fun _ => .pure _

/-- Here one side complains and the other records a beginning, and both are compared by the
keyword. -/
theorem returnStatement_accords (keyword : Token) :
    Accord around (returnStatement fuel keyword)
      (Unchecked.returnStatement fuel around keyword) := by
  refine .begins rfl rfl ?_
  exact (expressionBefore_accords around fuel _).bind fun _ =>
    (Steady.expect _ around).bind fun _ => .pure _

/-- An initial value is one on both sides. -/
theorem initialValue_accords :
    Accord around (initialValue fuel) (Unchecked.initialValue fuel) := by
  refine (Steady.skip _ around).bind fun present => ?_
  cases present with
  | true => exact (expressionsAccord around fuel).expression.bind fun _ => .pure _
  | false => exact .pure none

theorem varDeclaration_accords :
    Accord around (varDeclaration fuel) (Unchecked.varDeclaration fuel) :=
  (Steady.expect _ around).bind fun _ => (initialValue_accords around fuel).bind fun _ =>
    (Steady.expect _ around).bind fun _ => .pure _

theorem initializerClause_accords :
    Accord around (initializerClause fuel) (Unchecked.initializerClause fuel) := by
  refine (Steady.skip _ around).bind fun missing => ?_
  cases missing with
  | true => exact .pure none
  | false =>
    refine (Steady.skip _ around).bind fun declares => ?_
    cases declares with
    | true => exact (varDeclaration_accords around fuel).bind fun _ => .pure _
    | false => exact (expressionStatement_accords around fuel).bind fun _ => .pure _

/-- One side counts the parameters and complains, the other does not count. -/
theorem parameters_accord (count : Nat) :
    Accord around (parameters fuel count) (Unchecked.parameters fuel) := by
  induction fuel generalizing count with
  | zero => exact .outOfFuel
  | succ fuel ih =>
    have hrest : Accord around
        (do
          let name ← expect .parameterName
          if ← skip? .comma then return name :: (← parameters fuel (count + 1))
          else return [name])
        (Unchecked.parameters (fuel + 1)) := by
      refine (Steady.expect _ around).bind fun name => (Steady.skip _ around).bind fun another => ?_
      cases another with
      | true => exact (ih (count + 1)).bind fun _ => .pure _
      | false => exact .pure _
    unfold parameters
    split
    · exact .checkedHere (by decide) hrest
    · exact hrest

theorem parameterList_accords :
    Accord around (parameterList fuel) (Unchecked.parameterList fuel) := by
  refine (Steady.nextIs _ around).bind fun closed => ?_
  cases closed with
  | true => exact .pure []
  | false => exact parameters_accord around fuel 0

/-- That a class inherits from itself is complained about on one side only. -/
theorem superclassClause_accords (name : Token) :
    Accord around (superclassClause name) Unchecked.superclassClause := by
  refine (Steady.skip _ around).bind fun inherits => ?_
  cases inherits with
  | false => exact .pure none
  | true =>
    refine (Steady.expect _ around).bind fun parent => ?_
    have hrest : Accord around (pure (some (Expr.variable parent)))
        (pure (some (Expr.variable parent))) := .pure _
    dsimp only
    split
    · exact .checked (by decide) hrest
    · exact hrest

end Clauses

/-- With this bound, the readers of statements accord inside of any bodies. -/
structure StatementsAccord (fuel : Nat) : Prop where
  declaration : ∀ around,
    Accord around (declaration fuel) (Unchecked.declaration fuel around)
  strictDeclaration : ∀ around,
    Accord around (strictDeclaration fuel) (Unchecked.strictDeclaration fuel around)
  declarations : ∀ around,
    Accord around (declarations fuel) (Unchecked.declarations fuel around)
  block : ∀ around, Accord around (block fuel) (Unchecked.block fuel around)
  callable : ∀ around sort,
    Accord around (callable fuel sort) (Unchecked.callable fuel around sort)
  methods : ∀ around, Accord around (methods fuel) (Unchecked.methods fuel around)
  classDeclaration : ∀ around,
    Accord around (classDeclaration fuel) (Unchecked.classDeclaration fuel around)
  statement : ∀ around, Accord around (statement fuel) (Unchecked.statement fuel around)
  forStatement : ∀ around,
    Accord around (forStatement fuel) (Unchecked.forStatement fuel around)
  ifStatement : ∀ around, Accord around (ifStatement fuel) (Unchecked.ifStatement fuel around)
  whileStatement : ∀ around,
    Accord around (whileStatement fuel) (Unchecked.whileStatement fuel around)

namespace StatementsAccord

variable {fuel : Nat} (ih : StatementsAccord fuel) (around : List Token)
include ih

theorem declaration_succ :
    Accord around (Grammar.declaration (fuel + 1)) (Unchecked.declaration (fuel + 1) around) :=
  (ih.strictDeclaration around).recovering

theorem strictDeclaration_succ :
    Accord around (Grammar.strictDeclaration (fuel + 1))
      (Unchecked.strictDeclaration (fuel + 1) around) := by
  refine (Steady.take _ around).bind fun found => ?_
  cases found with
  | none => exact ih.statement around
  | some found =>
    obtain ⟨keyword, declarator⟩ := found
    cases declarator with
    | classDecl => exact ih.classDeclaration around
    | funDecl => exact (ih.callable around .function).bind fun _ => .pure _
    | varDecl => exact varDeclaration_accords around fuel

/-- Declarations accord one by one. Each ends at one depth on both sides, whether it was given
up or not. -/
theorem declarations_succ :
    Accord around (Grammar.declarations (fuel + 1))
      (Unchecked.declarations (fuel + 1) around) := by
  refine (Steady.nextIs _ around).bind fun more => ?_
  cases more with
  | true =>
    exact (ih.declaration around).bind fun _ => (ih.declarations around).bind fun _ => .pure _
  | false => exact .pure []

theorem block_succ :
    Accord around (Grammar.block (fuel + 1)) (Unchecked.block (fuel + 1) around) :=
  (ih.declarations around).bind fun _ => (Steady.expect _ around).bind fun _ => .pure _

/-- In a body both sides are one function deeper. -/
theorem callable_succ (sort : Callable) :
    Accord around (Grammar.callable (fuel + 1) sort)
      (Unchecked.callable (fuel + 1) around sort) := by
  refine (Steady.expect _ around).bind fun name => (Steady.expect _ around).bind fun _ => ?_
  refine (parameterList_accords around fuel).bind fun params => ?_
  refine (Steady.expect _ around).bind fun _ => (Steady.expect _ around).bind fun _ => ?_
  exact (ih.block (name :: around)).insideBody.bind fun _ => .pure _

/-- Methods accord like functions. -/
theorem methods_succ :
    Accord around (Grammar.methods (fuel + 1)) (Unchecked.methods (fuel + 1) around) := by
  refine (Steady.nextIs _ around).bind fun more => ?_
  cases more with
  | true =>
    exact (ih.callable around .method).bind fun _ => (ih.methods around).bind fun _ => .pure _
  | false => exact .pure []

theorem classDeclaration_succ :
    Accord around (Grammar.classDeclaration (fuel + 1))
      (Unchecked.classDeclaration (fuel + 1) around) := by
  refine (Steady.expect _ around).bind fun name => ?_
  refine (superclassClause_accords around name).bind fun superclass => ?_
  exact (Steady.expect _ around).bind fun _ => (ih.methods around).bind fun _ =>
    (Steady.expect _ around).bind fun _ => .pure _

/-- A statement accords, whichever one it is. -/
theorem statement_succ :
    Accord around (Grammar.statement (fuel + 1)) (Unchecked.statement (fuel + 1) around) := by
  refine (Steady.take _ around).bind fun found => ?_
  cases found with
  | none => exact expressionStatement_accords around fuel
  | some found =>
    obtain ⟨keyword, lead⟩ := found
    cases lead with
    | forLoop => exact ih.forStatement around
    | ifElse => exact ih.ifStatement around
    | print => exact printStatement_accords around fuel
    | returnStmt => exact returnStatement_accords around fuel keyword
    | whileLoop => exact ih.whileStatement around
    | block => exact (ih.block around).bind fun _ => .pure _

theorem forStatement_succ :
    Accord around (Grammar.forStatement (fuel + 1))
      (Unchecked.forStatement (fuel + 1) around) := by
  refine (Steady.expect _ around).bind fun _ => ?_
  refine (initializerClause_accords around fuel).bind fun _ => ?_
  refine (expressionBefore_accords around fuel _).bind fun _ => ?_
  refine (Steady.expect _ around).bind fun _ => ?_
  refine (expressionBefore_accords around fuel _).bind fun _ => ?_
  exact (Steady.expect _ around).bind fun _ => (ih.statement around).bind fun _ => .pure _

theorem ifStatement_succ :
    Accord around (Grammar.ifStatement (fuel + 1)) (Unchecked.ifStatement (fuel + 1) around) := by
  refine (Steady.expect _ around).bind fun _ => ?_
  refine (expressionsAccord around fuel).expression.bind fun _ => ?_
  refine (Steady.expect _ around).bind fun _ => (ih.statement around).bind fun _ => ?_
  refine (Steady.skip _ around).bind fun otherwise => ?_
  cases otherwise with
  | true =>
    have helse : Accord around (some <$> Grammar.statement fuel)
        (some <$> Unchecked.statement fuel around) :=
      (ih.statement around).bind fun _ => .pure _
    exact helse.bind fun _ => .pure _
  | false =>
    have hnone : Accord around (pure (none : Option Stmt)) (pure none) := .pure none
    exact hnone.bind fun _ => .pure _

theorem whileStatement_succ :
    Accord around (Grammar.whileStatement (fuel + 1))
      (Unchecked.whileStatement (fuel + 1) around) := by
  refine (Steady.expect _ around).bind fun _ => ?_
  refine (expressionsAccord around fuel).expression.bind fun _ => ?_
  exact (Steady.expect _ around).bind fun _ => (ih.statement around).bind fun _ => .pure _

end StatementsAccord

/-- All readers of statements accord, by induction on the fuel and inside of any bodies. -/
theorem statementsAccord (fuel : Nat) : StatementsAccord fuel := by
  induction fuel with
  | zero => constructor <;> intros <;> exact .outOfFuel
  | succ fuel ih =>
    exact
      { declaration := ih.declaration_succ
        strictDeclaration := ih.strictDeclaration_succ
        declarations := ih.declarations_succ
        block := ih.block_succ
        callable := ih.callable_succ
        methods := ih.methods_succ
        classDeclaration := ih.classDeclaration_succ
        statement := ih.statement_succ
        forStatement := ih.forStatement_succ
        ifStatement := ih.ifStatement_succ
        whileStatement := ih.whileStatement_succ }

/-! ## Programs -/

/-- The readers of a program accord from outside of all functions. -/
theorem program_accords (fuel : Nat) : Accord [] (program fuel) (Unchecked.program fuel) := by
  induction fuel with
  | zero => exact .outOfFuel
  | succ fuel ih =>
    refine (Steady.nextIs _ []).bind fun more => ?_
    cases more with
    | true => exact ((statementsAccord fuel).declaration []).bind fun _ => ih.bind fun _ => .pure _
    | false => exact .pure []

/-- What is read of some tokens with and without checks. -/
theorem read_unchecked (tokens : List Token) :
    (read tokens).program = (Unchecked.read tokens).program ∧
      (read tokens).complaints.filter (·.cause.isStructural)
        = (Unchecked.read tokens).complaints ∧
      ((read tokens).complaints.filter Complaint.isReturnOutside).map Complaint.token
        = ((Unchecked.read tokens).begun.filter (·.around.isEmpty)).map Begun.keyword := by
  have hstart : (Cursor.start tokens).Agrees [] ⟨Cursor.start tokens, #[]⟩ :=
    ⟨rfl, rfl, rfl, rfl, rfl⟩
  have hruns := program_accords (fuelFor (Cursor.start tokens).rest.length) _ _ hstart
  unfold read Unchecked.read
  dsimp only
  cases hrun : (program (fuelFor (Cursor.start tokens).rest.length)).run (Cursor.start tokens) <;>
    cases hrun' : Unchecked.program (fuelFor (Cursor.start tokens).rest.length)
      ⟨Cursor.start tokens, #[]⟩ <;>
    rw [hrun, hrun'] at hruns
  · exact ⟨hruns.1, hruns.2.structural.symm, hruns.2.begun.symm⟩
  · exact hruns.elim
  · exact hruns.elim
  · exact ⟨rfl, hruns.2.structural.symm, hruns.2.begun.symm⟩

/-! ## Diagnostics -/

/-- The code of a diagnostic tells this one complaint from all others. -/
theorem Complaint.code_eq_topLevelReturn (k : Complaint) :
    decide (k.diagnostic.code = some .topLevelReturn) = k.isReturnOutside := by
  obtain ⟨cause, token⟩ := k
  have hcode : (Complaint.mk cause token).diagnostic.code = some cause.code := rfl
  rw [hcode]
  cases cause with
  | missing slot => rcases Cause.code_missing slot with h | h <;> rw [h] <;> rfl
  | _ => rfl

/-- Complaints for one cause are known by their tokens. -/
theorem map_diagnostic_returnOutside (complaints : List Complaint) :
    (complaints.filter Complaint.isReturnOutside).map Complaint.diagnostic
      = ((complaints.filter Complaint.isReturnOutside).map Complaint.token).map
          fun keyword => (Complaint.mk .returnOutside keyword).diagnostic := by
  rw [List.map_map]
  refine List.map_congr_left fun k hk => ?_
  obtain ⟨cause, token⟩ := k
  have hcause : cause = .returnOutside := eq_of_beq (List.mem_filter.mp hk).2
  rw [hcause]
  rfl

end Grammar

open Grammar in
/-- **Checks never steer the reading.** Of any tokens, the statements that are read and the
structural diagnostics are those of the readers that check nothing in passing. Whether a
declaration is read or given up, the counter of bodies is afterwards what it was before. And
the diagnostics about a `return` outside of functions are those for the return statements
that were begun in no body, one for each keyword and in this order. -/
theorem Program.checks_never_steer (tokens : List Token) :
    let unchecked := Unchecked.read tokens
    (Program.ofTokens tokens).stmts = unchecked.program ∧
      (Program.ofTokens tokens).diagnostics.filter (·.IsStructural)
        = unchecked.complaints.map Complaint.diagnostic ∧
      (∀ fuel c, (Outcome.cursor ((declaration fuel).run c)).depth = c.depth) ∧
      (Program.ofTokens tokens).diagnostics.filter (fun d => d.code = some .topLevelReturn)
        = (unchecked.begun.filter (·.around.isEmpty)).map
            fun begun => (Complaint.mk .returnOutside begun.keyword).diagnostic := by
  obtain ⟨hprogram, hstructural, hbegun⟩ := read_unchecked tokens
  refine ⟨hprogram, ?_, fun fuel c => ((declaration fuel).built.advances c).depth, ?_⟩
  · rw [← hstructural]
    exact filter_diagnostics (read tokens).complaints
  · have hbegun := congrArg (List.map fun keyword =>
      (Complaint.mk .returnOutside keyword).diagnostic) hbegun
    rw [← map_diagnostic_returnOutside, List.map_map] at hbegun
    refine Eq.trans ?_ hbegun
    show ((read tokens).complaints.map Complaint.diagnostic).filter _ = _
    rw [List.filter_map]
    congr 1
    exact List.filter_congr fun k _ => k.code_eq_topLevelReturn

open Grammar in
/-- The body of the second function goes on behind the mistake in it, and a brace that should
have closed it is lost. So the last `return` is inside of it, and of the four only the second
one is outside of all bodies. That is complained about, and nothing else is different from
what is read without looking for it. -/
theorem Program.checks_never_steer_lost_brace :
    let tokens :=
      (scan "fun f() \x7b return +; \x7d return; fun g() \x7b return 1 \x7d return;").tokens
    let unchecked := Unchecked.read tokens
    unchecked.begun.map (fun begun => (begun.keyword.span.start, begun.around.map Token.lexeme))
        = [(10, ["f"]), (22, []), (40, ["g"]), (51, ["g"])] ∧
      (Program.ofTokens tokens).diagnostics.map Diagnostic.text =
        ["[line 1] Error at '+': Expect expression.",
          "[line 1] Error at 'return': Can't return from top-level code.",
          "[line 1] Error at '\x7d': Expect ';' after return value.",
          "[line 1] Error at end: Expect '\x7d' after block."] ∧
      unchecked.complaints.map (fun k => k.diagnostic.text) =
        ["[line 1] Error at '+': Expect expression.",
          "[line 1] Error at '\x7d': Expect ';' after return value.",
          "[line 1] Error at end: Expect '\x7d' after block."] ∧
      (Program.ofTokens tokens).stmts.map Stmt.render = ["(fun f ())", "(return)"] ∧
      (Program.ofTokens tokens).stmts = unchecked.program ∧
      (Program.ofTokens tokens).diagnostics.filter (·.IsStructural)
        = unchecked.complaints.map Complaint.diagnostic := by
  intro tokens unchecked
  obtain ⟨hstmts, hstructural, -⟩ := Program.checks_never_steer tokens
  exact ⟨by decide +kernel, by decide +kernel, by decide +kernel, by decide +kernel, hstmts,
    hstructural⟩

end Lox
