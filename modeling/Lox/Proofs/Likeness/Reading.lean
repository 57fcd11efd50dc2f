/-
`Lox.Proofs.Likeness.Reading` -- tokens that are alike are read alike.

A reader looks at the kinds of tokens and at the values that literals denote, and a
class and its superclass are compared by their text. Where a token stands it never asks.
So if of two lists of tokens each token in one is a counterpart of the token in its place
in the other, being at least the same word, the two readings go step by step alike: they
take counterparts, complain for the same causes about counterparts, give up together, and
return trees that are alike (`read_alike`).

What a counterpart is remains open. With the place of a token in the list as part of it,
the theorem says at which place of the list each complaint was made.
-/
import Lox.Proofs.Grammar.Boundary
import Lox.Proofs.Grammar.Soundness
import Lox.Proofs.Likeness.Tree

set_option autoImplicit false

namespace Lox.Grammar

variable {α α' β β' : Type} {R : Token → Token → Prop}

/-! ## Alike cursors and outcomes -/

/-- The complaints have one cause, and are about counterparts. -/
structure Complaint.Alike (R : Token → Token → Prop) (k k' : Complaint) : Prop where
  cause : k.cause = k'.cause
  token : R k.token k'.token

/-- The cursors have come equally far in two lists of counterparts. -/
structure Cursor.Alike (R : Token → Token → Prop) (c c' : Cursor) : Prop where
  rest : List.Forall₂ R c.rest c'.rest
  finish : R c.finish c'.finish
  depth : c.depth = c'.depth
  complaints : List.Forall₂ (Complaint.Alike R) c.complaints.toList c'.complaints.toList

/-- The readers end in one way, with cursors that are alike, and what they return is
related. -/
def Outcome.Alike (R : Token → Token → Prop) (good : α → α' → Prop) :
    Outcome α → Outcome α' → Prop
  | .ok a c, .ok a' c' => good a a' ∧ c.Alike R c'
  | .error halt c, .error halt' c' => halt = halt' ∧ c.Alike R c'
  | _, _ => False

/-- From cursors that are alike the readers come to outcomes that are. -/
def Agree (R : Token → Token → Prop) (good : α → α' → Prop) (x : TokenReader α)
    (x' : TokenReader α') : Prop :=
  ∀ c c', c.Alike R c' → Outcome.Alike R good (x.run c) (x'.run c')

/-- Tokens that are counterparts and fit the role. -/
def Counterparts (R : Token → Token → Prop) (role : Role) (t t' : Token) : Prop :=
  R t t' ∧ role.fits t.kind

/-- Counterparts of a kind that fits the role are counterparts in it. -/
theorem Counterparts.of_kind {role : Role} {kind : TokenKind} {t t' : Token}
    (h : R t t' ∧ t.kind = kind) (hrole : role.fits kind = true) : Counterparts R role t t' :=
  ⟨h.1, h.2.symm ▸ hrole⟩

namespace Cursor.Alike

variable {c c' : Cursor}

/-- Nothing is left in either list, or there is a next token in both. -/
theorem next (h : c.Alike R c') :
    (c.rest = [] ∧ c'.rest = []) ∨
      ∃ t rest t' rest', c.rest = t :: rest ∧ c'.rest = t' :: rest' ∧ R t t' ∧
        List.Forall₂ R rest rest' := by
  have hrest := h.rest
  generalize c.rest = ts at hrest
  generalize c'.rest = ts' at hrest
  cases hrest with
  | nil => exact .inl ⟨rfl, rfl⟩
  | cons htoken hbehind => exact .inr ⟨_, _, _, _, rfl, rfl, htoken, hbehind⟩

/-- Cursors that are alike stand at counterparts, be it the end marker. -/
theorem current (h : c.Alike R c') : R c.current c'.current := by
  unfold Cursor.current
  rcases h.next with ⟨hrest, hrest'⟩ | ⟨t, rest, t', rest', hrest, hrest', htoken, -⟩
  · rw [hrest, hrest']
    exact h.finish
  · rw [hrest, hrest']
    exact htoken

/-- They stay alike when the same complaint is made. -/
theorem complain (h : c.Alike R c') (cause : Cause) {t t' : Token} (ht : R t t') :
    (c.complain cause t).Alike R (c'.complain cause t') := by
  refine ⟨h.rest, h.finish, h.depth, ?_⟩
  rw [Cursor.complain, Cursor.complain, Array.toList_push, Array.toList_push]
  exact List.rel_append h.complaints (.cons ⟨rfl, ht⟩ .nil)

/-- They stay alike when both go on to lists of counterparts. -/
theorem behind (h : c.Alike R c') {rest rest' : List Token} (hrest : List.Forall₂ R rest rest') :
    Cursor.Alike R { c with rest } { c' with rest := rest' } :=
  ⟨hrest, h.finish, h.depth, h.complaints⟩

end Cursor.Alike

/-! ## Readers that are put together -/

namespace Agree

variable {good : α → α' → Prop} {good' : β → β' → Prop} {x : TokenReader α}
  {x' : TokenReader α'} {f : α → TokenReader β} {f' : α' → TokenReader β'}

protected theorem pure {a : α} {a' : α'} (h : good a a') : Agree R good (pure a) (pure a') :=
  fun _ _ hc => ⟨h, hc⟩

/-- Readers after one another agree if each agrees on what the first may have returned. -/
protected theorem bind (hx : Agree R good x x')
    (hf : ∀ a a', good a a' → Agree R good' (f a) (f' a')) :
    Agree R good' (x >>= f) (x' >>= f') := by
  intro c c' hc
  have hfirst := hx c c' hc
  cases hrun : x.run c with
  | ok a c₁ =>
    cases hrun' : x'.run c' with
    | ok a' c₁' =>
      rw [hrun, hrun'] at hfirst
      rw [TokenReader.run_bind_of_ok hrun, TokenReader.run_bind_of_ok hrun']
      exact hf a a' hfirst.1 c₁ c₁' hfirst.2
    | error halt c₁' =>
      rw [hrun, hrun'] at hfirst
      exact hfirst.elim
  | error halt c₁ =>
    cases hrun' : x'.run c' with
    | ok a' c₁' =>
      rw [hrun, hrun'] at hfirst
      exact hfirst.elim
    | error halt' c₁' =>
      rw [hrun, hrun'] at hfirst
      rw [TokenReader.run_bind_of_error hrun, TokenReader.run_bind_of_error hrun']
      exact hfirst

/-- Both readers return the same, and go on with it. -/
theorem same {x x' : TokenReader α} {f : α → TokenReader β} {f' : α → TokenReader β'}
    (hx : Agree R Eq x x') (hf : ∀ a, Agree R good' (f a) (f' a)) :
    Agree R good' (x >>= f) (x' >>= f') := by
  refine hx.bind ?_
  rintro a _ rfl
  exact hf a

theorem outOfFuel : Agree R good outOfFuel outOfFuel :=
  fun _ _ hc => ⟨rfl, hc⟩

/-- Both give up at counterparts. -/
theorem giveUpHere (cause : Cause) (h : cause.isStructural = true) :
    Agree R good (giveUpHere cause h) (giveUpHere cause h) :=
  fun _ _ hc => ⟨rfl, hc.complain cause hc.current⟩

/-- Both complain about counterparts. -/
theorem complain (cause : Cause) {t t' : Token} (h : cause.isStructural = false) (ht : R t t') :
    Agree R Eq (complain cause t h) (complain cause t' h) :=
  fun _ _ hc => ⟨rfl, hc.complain cause ht⟩

/-- Both complain about the next token. -/
theorem complainHere (cause : Cause) (h : cause.isStructural = false) :
    Agree R Eq (complainHere cause h) (complainHere cause h) :=
  fun _ _ hc => ⟨rfl, hc.complain cause hc.current⟩

/-- Both are inside of a function, or neither is. -/
theorem inFunction : Agree R Eq inFunction inFunction := by
  intro c c' hc
  refine ⟨?_, hc⟩
  rw [hc.depth]

/-- They agree inside of a body, as the depths are one. -/
protected theorem insideBody (hx : Agree R good x x') :
    Agree R good (insideBody x) (insideBody x') := by
  intro c c' hc
  have hinner := hx { c with depth := c.depth + 1 } { c' with depth := c'.depth + 1 }
    ⟨hc.rest, hc.finish, congrArg (· + 1) hc.depth, hc.complaints⟩
  show Outcome.Alike R good (Step.insideBody x.run c) (Step.insideBody x'.run c')
  unfold Step.insideBody
  cases hrun : x.run { c with depth := c.depth + 1 } <;>
    cases hrun' : x'.run { c' with depth := c'.depth + 1 } <;>
    rw [hrun, hrun'] at hinner
  · obtain ⟨hgood, hend⟩ := hinner
    exact ⟨hgood, hend.rest, hend.finish, congrArg (· - 1) hend.depth, hend.complaints⟩
  · exact hinner
  · exact hinner
  · obtain ⟨hhalt, hend⟩ := hinner
    exact ⟨hhalt, hend.rest, hend.finish, congrArg (· - 1) hend.depth, hend.complaints⟩

end Agree

/-! ## Trees that are put together -/

/-- What may have been found is alike as a list. -/
theorem Stmt.alike_toList {found found' : Option Stmt}
    (h : Option.Rel (Stmt.Alike (Counterparts R)) found found') :
    List.Forall₂ (Stmt.Alike (Counterparts R)) found.toList found'.toList := by
  cases h with
  | none => exact .nil
  | some hstmt => exact .cons hstmt .nil

/-- Joined expressions are alike, as an operator's counterpart joins in the same way. -/
theorem alike_join {level : Level} {left left' right right' : Expr} {op op' : Token}
    (hleft : left.Alike (Counterparts R) left') (hop : R op op' ∧ level.has op.kind)
    (hright : right.Alike (Counterparts R) right') :
    (level.join left op right).Alike (Counterparts R) (level.join left' op' right') := by
  obtain ⟨hop, hlevel⟩ := hop
  cases level with
  | or | and => exact .logical hleft ⟨hop, by simp [Role.fits, hlevel]⟩ hright
  | equality | comparison | sum | product =>
    exact .binary hleft ⟨hop, by simp [Role.fits, hlevel]⟩ hright

/-- Whether an expression is a target is seen by its shape. -/
theorem alike_assignment {target target' value value' : Expr}
    (htarget : target.Alike (Counterparts R) target')
    (hvalue : value.Alike (Counterparts R) value') :
    Option.Rel (Expr.Alike (Counterparts R)) (assignment? target value)
      (assignment? target' value') := by
  cases htarget with
  | «variable» hname => exact .some (.assign hname hvalue)
  | get hobject hname => exact .some (.set hobject hname hvalue)
  | _ => exact .none

/-! ## Looking at tokens -/

section Words

variable (hR : ∀ t t', R t t' → t.SameWord t')
include hR

/-- Boundaries are told by kinds, so both resume at counterparts. -/
theorem Step.fromBoundary_alike {last last' : Token} {ts ts' : List Token}
    (hlast : R last last') (h : List.Forall₂ R ts ts') :
    List.Forall₂ R (fromBoundary last ts) (fromBoundary last' ts') := by
  induction h generalizing last last' with
  | nil => exact .nil
  | @cons token token' rest rest' htoken hrest ih =>
    rw [fromBoundary, fromBoundary, (hR _ _ hlast).kind, (hR _ _ htoken).kind]
    split
    · exact .cons htoken hrest
    · exact ih htoken

/-- The recovery stops at the same place. -/
theorem Step.resume_alike {ts ts' : List Token} (h : List.Forall₂ R ts ts') :
    List.Forall₂ R (resume ts) (resume ts') := by
  cases h with
  | nil => exact .nil
  | cons htoken hrest => exact fromBoundary_alike hR htoken hrest

namespace Agree

variable {good : α → α' → Prop} {x : TokenReader α} {x' : TokenReader α'}

/-- Tests see the kinds only. -/
theorem nextIs (test : TokenKind → Bool) : Agree R Eq (nextIs test) (nextIs test) := by
  intro c c' hc
  show Outcome.Alike R Eq (Step.nextIs test c) (Step.nextIs test c')
  unfold Step.nextIs
  rcases hc.next with ⟨hrest, hrest'⟩ | ⟨t, rest, t', rest', hrest, hrest', htoken, -⟩
  · rw [hrest, hrest']
    exact ⟨rfl, hc⟩
  · rw [hrest, hrest']
    dsimp only
    rw [(hR _ _ htoken).kind]
    exact ⟨rfl, hc⟩

/-- Both take a token, and use it in the same way, or neither does. -/
theorem take (use : TokenKind → Option α) :
    Agree R (Option.Rel fun found found' =>
      R found.1 found'.1 ∧ found.2 = found'.2 ∧ use found.1.kind = some found.2)
      (take use) (take use) := by
  intro c c' hc
  show Outcome.Alike R _ (Step.take use c) (Step.take use c')
  unfold Step.take
  rcases hc.next with ⟨hrest, hrest'⟩ | ⟨t, rest, t', rest', hrest, hrest', htoken, hbehind⟩
  · rw [hrest, hrest']
    exact ⟨.none, hc⟩
  · rw [hrest, hrest']
    dsimp only
    rw [← (hR _ _ htoken).kind]
    cases huse : use t.kind with
    | none => exact ⟨.none, hc⟩
    | some a => exact ⟨.some ⟨htoken, rfl, huse⟩, hc.behind hbehind⟩

/-- Both take a token that passes, or neither does. -/
theorem takeIf (test : TokenKind → Bool) :
    Agree R (Option.Rel fun t t' => R t t' ∧ test t.kind) (takeIf test) (takeIf test) := by
  refine (take hR _).bind fun found found' hfound => ?_
  cases hfound with
  | none => exact .pure .none
  | @some found found' hfound =>
    -- such a token has no use, so that there is only the test to know about it
    obtain ⟨⟨token, ⟨⟩⟩, ⟨token', ⟨⟩⟩⟩ := found, found'
    exact .pure (.some ⟨hfound.1, by simpa using hfound.2.2⟩)

/-- Both pass a token of the kind, or neither does. -/
theorem skip (kind : TokenKind) : Agree R Eq (skip? kind) (skip? kind) := by
  refine (takeIf hR _).bind fun found found' hfound => ?_
  cases hfound with
  | none => exact .pure rfl
  | some _ => exact .pure rfl

/-- Both have the token that is expected, or both miss it. -/
theorem expect (slot : Slot) :
    Agree R (fun t t' => R t t' ∧ t.kind = slot.kind) (expect slot) (expect slot) := by
  refine (takeIf hR _).bind fun found found' hfound => ?_
  cases hfound with
  | none => exact .giveUpHere _ _
  | some hfound => exact .pure ⟨hfound.1, eq_of_beq hfound.2⟩

/-- Counterparts have one value. -/
theorem takeLiteral : Agree R Eq takeLiteral takeLiteral := by
  intro c c' hc
  show Outcome.Alike R Eq (Step.takeLiteral c) (Step.takeLiteral c')
  unfold Step.takeLiteral
  rcases hc.next with ⟨hrest, hrest'⟩ | ⟨t, rest, t', rest', hrest, hrest', htoken, hbehind⟩
  · rw [hrest, hrest']
    exact ⟨rfl, hc⟩
  · rw [hrest, hrest']
    dsimp only
    rw [← (hR _ _ htoken).kind, ← (hR _ _ htoken).literal]
    split
    · cases t.literal with
      | some literal => exact ⟨rfl, hc.behind hbehind⟩
      | none => exact ⟨rfl, (hc.behind hbehind).complain _ htoken⟩
    · exact ⟨rfl, hc⟩

/-- Declarations are given up together, and the readings resume together. -/
protected theorem recovering (hx : Agree R good x x') :
    Agree R (Option.Rel good) (recovering x) (recovering x') := by
  intro c c' hc
  have hread := hx c c' hc
  show Outcome.Alike R _ (Step.recovering x.run c) (Step.recovering x'.run c')
  unfold Step.recovering
  cases hrun : x.run c with
  | ok a c₁ =>
    cases hrun' : x'.run c' with
    | ok a' c₁' =>
      rw [hrun, hrun'] at hread
      exact ⟨.some hread.1, hread.2⟩
    | error halt c₁' =>
      rw [hrun, hrun'] at hread
      exact hread.elim
  | error halt c₁ =>
    cases hrun' : x'.run c' with
    | ok a' c₁' =>
      rw [hrun, hrun'] at hread
      exact hread.elim
    | error halt' c₁' =>
      -- given up at counterparts, both go on behind the same boundary
      rw [hrun, hrun'] at hread
      obtain ⟨rfl, hend⟩ := hread
      cases halt with
      | givenUp => exact ⟨.none, hend.behind (Step.resume_alike hR hend.rest)⟩
      | outOfFuel => exact ⟨rfl, hend⟩

end Agree

/-! ## Expressions -/

variable {fuel : Nat}

/-- With this bound, the readers of expressions agree. -/
structure ExpressionsAgree (R : Token → Token → Prop) (fuel : Nat) : Prop where
  expression : Agree R (Expr.Alike (Counterparts R)) (expression fuel) (expression fuel)
  binary : ∀ level,
    Agree R (Expr.Alike (Counterparts R)) (binary fuel level) (binary fuel level)
  binaryRest : ∀ level left left', left.Alike (Counterparts R) left' →
    Agree R (Expr.Alike (Counterparts R)) (binaryRest fuel level left)
      (binaryRest fuel level left')
  operand : ∀ level,
    Agree R (Expr.Alike (Counterparts R)) (operand fuel level) (operand fuel level)
  unary : Agree R (Expr.Alike (Counterparts R)) (unary fuel) (unary fuel)
  postfixes : ∀ left left', left.Alike (Counterparts R) left' →
    Agree R (Expr.Alike (Counterparts R)) (postfixes fuel left) (postfixes fuel left')
  argumentList : Agree R (List.Forall₂ (Expr.Alike (Counterparts R))) (argumentList fuel)
    (argumentList fuel)
  arguments : ∀ count, Agree R (List.Forall₂ (Expr.Alike (Counterparts R)))
    (arguments fuel count) (arguments fuel count)
  primary : Agree R (Expr.Alike (Counterparts R)) (primary fuel) (primary fuel)

namespace ExpressionsAgree

variable (ih : ExpressionsAgree R fuel)
include ih

/-- Expressions that are read from counterparts are alike. -/
theorem expression_succ : Agree R (Expr.Alike (Counterparts R))
    (Grammar.expression (fuel + 1)) (Grammar.expression (fuel + 1)) := by
  refine (ih.binary .or).bind fun left left' hleft => ?_
  refine (Agree.takeIf hR _).bind fun found found' hfound => ?_
  cases hfound with
  | none => exact .pure hleft
  | some hequals =>
    refine ih.expression.bind fun value value' hvalue => ?_
    have hresult := alike_assignment hleft hvalue
    -- trees that are alike are both targets of an assignment, or neither is
    cases hassign : assignment? left value <;> cases hassign' : assignment? left' value' <;>
      rw [hassign, hassign'] at hresult <;> cases hresult
    · exact (Agree.complain _ rfl hequals.1).same fun _ => .pure hleft
    · exact .pure ‹_›

omit hR in
theorem binary_succ (level : Level) : Agree R (Expr.Alike (Counterparts R))
    (Grammar.binary (fuel + 1) level) (Grammar.binary (fuel + 1) level) :=
  (ih.operand level).bind (ih.binaryRest level)

/-- So are those that are joined from the left. -/
theorem binaryRest_succ (level : Level) (left left' : Expr)
    (hleft : left.Alike (Counterparts R) left') : Agree R (Expr.Alike (Counterparts R))
      (Grammar.binaryRest (fuel + 1) level left) (Grammar.binaryRest (fuel + 1) level left') := by
  refine (Agree.takeIf hR _).bind fun found found' hfound => ?_
  cases hfound with
  | none => exact .pure hleft
  | some hop =>
    refine (ih.operand level).bind fun right right' hright => ?_
    exact ih.binaryRest level _ _ (alike_join hleft hop hright)

omit hR in

theorem operand_succ (level : Level) : Agree R (Expr.Alike (Counterparts R))
    (Grammar.operand (fuel + 1) level) (Grammar.operand (fuel + 1) level) := by
  unfold Grammar.operand
  cases level.tighter? with
  | some level => exact ih.binary level
  | none => exact ih.unary

theorem unary_succ : Agree R (Expr.Alike (Counterparts R))
    (Grammar.unary (fuel + 1)) (Grammar.unary (fuel + 1)) := by
  refine (Agree.takeIf hR _).bind fun found found' hfound => ?_
  cases hfound with
  | none => exact ih.primary.bind ih.postfixes
  | some hop => exact ih.unary.bind fun _ _ hoperand => .pure (.unary hop hoperand)

theorem postfixes_succ (left left' : Expr) (hleft : left.Alike (Counterparts R) left') :
    Agree R (Expr.Alike (Counterparts R)) (Grammar.postfixes (fuel + 1) left)
      (Grammar.postfixes (fuel + 1) left') := by
  refine (Agree.skip hR _).same fun isCall => ?_
  cases isCall with
  | true =>
    refine ih.argumentList.bind fun args args' hargs => ?_
    refine (Agree.expect hR .argumentsClose).bind fun paren paren' hparen => ?_
    exact ih.postfixes _ _ (.call hleft (.of_kind hparen rfl) hargs)
  | false =>
    refine (Agree.skip hR _).same fun isGet => ?_
    cases isGet with
    | true =>
      refine (Agree.expect hR .propertyName).bind fun name name' hname => ?_
      exact ih.postfixes _ _ (.get hleft (.of_kind hname rfl))
    | false => exact .pure hleft

theorem argumentList_succ : Agree R (List.Forall₂ (Expr.Alike (Counterparts R)))
    (Grammar.argumentList (fuel + 1)) (Grammar.argumentList (fuel + 1)) := by
  refine (Agree.nextIs hR _).same fun closed => ?_
  cases closed with
  | true => exact .pure .nil
  | false => exact ih.arguments 0

theorem arguments_succ (count : Nat) : Agree R (List.Forall₂ (Expr.Alike (Counterparts R)))
    (Grammar.arguments (fuel + 1) count) (Grammar.arguments (fuel + 1) count) := by
  have hrest : Agree R (List.Forall₂ (Expr.Alike (Counterparts R)))
      (do
        let arg ← Grammar.expression fuel
        if ← skip? .comma then return arg :: (← Grammar.arguments fuel (count + 1))
        else return [arg])
      (do
        let arg ← Grammar.expression fuel
        if ← skip? .comma then return arg :: (← Grammar.arguments fuel (count + 1))
        else return [arg]) := by
    refine ih.expression.bind fun arg arg' harg => (Agree.skip hR _).same fun another => ?_
    cases another with
    | true => exact (ih.arguments (count + 1)).bind fun _ _ hrest => .pure (.cons harg hrest)
    | false => exact .pure (.cons harg .nil)
  unfold Grammar.arguments
  split
  · exact (Agree.complainHere _ rfl).same fun _ => hrest
  · exact hrest

theorem primary_succ : Agree R (Expr.Alike (Counterparts R))
    (Grammar.primary (fuel + 1)) (Grammar.primary (fuel + 1)) := by
  refine (Agree.takeLiteral hR).same fun literal => ?_
  cases literal with
  | some literal => exact .pure (.literal _)
  | none =>
    refine (Agree.take hR _).bind fun found found' hfound => ?_
    cases hfound with
    | none => exact .giveUpHere _ _
    | @some found found' hfound =>
      obtain ⟨t, opening⟩ := found
      obtain ⟨t', opening'⟩ := found'
      obtain ⟨ht, hsame, huse⟩ := hfound
      dsimp only at ht hsame huse
      subst hsame
      cases opening with
      | constant value => exact .pure (.literal _)
      | super =>
        refine (Agree.expect hR .superDot).bind fun _ _ _ => ?_
        refine (Agree.expect hR .superMethod).bind fun method method' hmethod => ?_
        exact .pure (.super (.of_kind ⟨ht, Opening.kind_of_ofKind? huse rfl⟩ rfl)
          (.of_kind hmethod rfl))
      | this => exact .pure (.this (.of_kind ⟨ht, Opening.kind_of_ofKind? huse rfl⟩ rfl))
      | name => exact .pure (.variable (.of_kind ⟨ht, Opening.kind_of_ofKind? huse rfl⟩ rfl))
      | group =>
        refine ih.expression.bind fun inner inner' hinner => ?_
        exact (Agree.expect hR .groupClose).bind fun _ _ _ => .pure (.grouping hinner)

end ExpressionsAgree

theorem expressionsAgree (fuel : Nat) : ExpressionsAgree R fuel := by
  induction fuel with
  | zero => constructor <;> intros <;> exact .outOfFuel
  | succ fuel ih =>
    exact
      { expression := ih.expression_succ hR
        binary := ih.binary_succ
        binaryRest := ih.binaryRest_succ hR
        operand := ih.operand_succ
        unary := ih.unary_succ hR
        postfixes := ih.postfixes_succ hR
        argumentList := ih.argumentList_succ hR
        arguments := ih.arguments_succ hR
        primary := ih.primary_succ hR }

/-! ## Statements -/

section Clauses

variable (fuel : Nat)

theorem expressionStatement_agrees :
    Agree R (Stmt.Alike (Counterparts R)) (expressionStatement fuel) (expressionStatement fuel) :=
  (expressionsAgree hR fuel).expression.bind fun _ _ hexpr =>
    (Agree.expect hR .expressionEnd).bind fun _ _ _ => .pure (.expression hexpr)

theorem printStatement_agrees :
    Agree R (Stmt.Alike (Counterparts R)) (printStatement fuel) (printStatement fuel) :=
  (expressionsAgree hR fuel).expression.bind fun _ _ hexpr =>
    (Agree.expect hR .printEnd).bind fun _ _ _ => .pure (.print hexpr)

theorem expressionBefore_agrees (kind : TokenKind) :
    Agree R (Option.Rel (Expr.Alike (Counterparts R))) (expressionBefore fuel kind)
      (expressionBefore fuel kind) := by
  refine (Agree.nextIs hR _).same fun missing => ?_
  cases missing with
  | true => exact .pure .none
  | false => exact (expressionsAgree hR fuel).expression.bind fun _ _ hexpr => .pure (.some hexpr)

theorem returnStatement_agrees {keyword keyword' : Token}
    (hkeyword : Counterparts R .returning keyword keyword') :
    Agree R (Stmt.Alike (Counterparts R)) (returnStatement fuel keyword)
      (returnStatement fuel keyword') := by
  have hrest : Agree R (Stmt.Alike (Counterparts R))
      (do
        let value ← expressionBefore fuel .semicolon
        let _ ← expect .returnEnd
        return .returnStmt keyword value)
      (do
        let value ← expressionBefore fuel .semicolon
        let _ ← expect .returnEnd
        return .returnStmt keyword' value) :=
    (expressionBefore_agrees hR fuel _).bind fun _ _ hvalue =>
      (Agree.expect hR .returnEnd).bind fun _ _ _ => .pure (.returnStmt hkeyword hvalue)
  refine Agree.inFunction.same fun inside => ?_
  cases inside with
  | true => exact hrest
  | false => exact (Agree.complain _ rfl hkeyword.1).same fun _ => hrest

theorem initialValue_agrees :
    Agree R (Option.Rel (Expr.Alike (Counterparts R))) (initialValue fuel) (initialValue fuel) := by
  refine (Agree.skip hR _).same fun present => ?_
  cases present with
  | true => exact (expressionsAgree hR fuel).expression.bind fun _ _ hexpr => .pure (.some hexpr)
  | false => exact .pure .none

theorem varDeclaration_agrees :
    Agree R (Stmt.Alike (Counterparts R)) (varDeclaration fuel) (varDeclaration fuel) := by
  refine (Agree.expect hR .variableName).bind fun name name' hname => ?_
  refine (initialValue_agrees hR fuel).bind fun value value' hvalue => ?_
  exact (Agree.expect hR .variableEnd).bind fun _ _ _ =>
    .pure (.varDecl (.of_kind hname rfl) hvalue)

theorem initializerClause_agrees :
    Agree R (Option.Rel (Stmt.Alike (Counterparts R))) (initializerClause fuel)
      (initializerClause fuel) := by
  refine (Agree.skip hR _).same fun missing => ?_
  cases missing with
  | true => exact .pure .none
  | false =>
    refine (Agree.skip hR _).same fun declares => ?_
    cases declares with
    | true => exact (varDeclaration_agrees hR fuel).bind fun _ _ hstmt => .pure (.some hstmt)
    | false => exact (expressionStatement_agrees hR fuel).bind fun _ _ hstmt => .pure (.some hstmt)

/-- Parameters are counterparts as names. -/
theorem parameters_agree (count : Nat) :
    Agree R (List.Forall₂ (Counterparts R .name)) (parameters fuel count)
      (parameters fuel count) := by
  induction fuel generalizing count with
  | zero => exact .outOfFuel
  | succ fuel ih =>
    have hrest : Agree R (List.Forall₂ (Counterparts R .name))
        (do
          let name ← expect .parameterName
          if ← skip? .comma then return name :: (← parameters fuel (count + 1))
          else return [name])
        (do
          let name ← expect .parameterName
          if ← skip? .comma then return name :: (← parameters fuel (count + 1))
          else return [name]) := by
      refine (Agree.expect hR .parameterName).bind fun name name' hname => ?_
      have hname : Counterparts R .name name name' := .of_kind hname rfl
      refine (Agree.skip hR _).same fun another => ?_
      cases another with
      | true => exact (ih (count + 1)).bind fun _ _ hrest => .pure (.cons hname hrest)
      | false => exact .pure (.cons hname .nil)
    unfold parameters
    split
    · exact (Agree.complainHere _ rfl).same fun _ => hrest
    · exact hrest

theorem parameterList_agrees :
    Agree R (List.Forall₂ (Counterparts R .name)) (parameterList fuel) (parameterList fuel) := by
  refine (Agree.nextIs hR _).same fun closed => ?_
  cases closed with
  | true => exact .pure .nil
  | false => exact parameters_agree hR fuel 0

end Clauses

/-- Whether a class names itself is seen from the texts, so it is seen in both. -/
theorem superclassClause_agrees {name name' : Token} (hname : R name name') :
    Agree R (Option.Rel (Expr.Alike (Counterparts R))) (superclassClause name)
      (superclassClause name') := by
  refine (Agree.skip hR _).same fun inherits => ?_
  cases inherits with
  | true =>
    refine (Agree.expect hR .superclassName).bind fun parent parent' hparent => ?_
    have hrest : Agree R (Option.Rel (Expr.Alike (Counterparts R)))
        (pure (some (.variable parent))) (pure (some (.variable parent'))) :=
      .pure (.some (.variable (.of_kind hparent rfl)))
    dsimp only
    rw [← (hR _ _ hparent.1).lexeme, ← (hR _ _ hname).lexeme]
    split
    · exact (Agree.complain _ rfl hparent.1).same fun _ => hrest
    · exact hrest
  | false => exact .pure .none

/-- With this bound, the readers of statements agree. -/
structure StatementsAgree (R : Token → Token → Prop) (fuel : Nat) : Prop where
  declaration : Agree R (Option.Rel (Stmt.Alike (Counterparts R))) (declaration fuel)
    (declaration fuel)
  strictDeclaration : Agree R (Stmt.Alike (Counterparts R)) (strictDeclaration fuel)
    (strictDeclaration fuel)
  declarations : Agree R (List.Forall₂ (Stmt.Alike (Counterparts R))) (declarations fuel)
    (declarations fuel)
  block : Agree R (List.Forall₂ (Stmt.Alike (Counterparts R))) (block fuel) (block fuel)
  callable : ∀ sort,
    Agree R (FunctionDecl.Alike (Counterparts R)) (callable fuel sort) (callable fuel sort)
  methods : Agree R (List.Forall₂ (FunctionDecl.Alike (Counterparts R))) (methods fuel)
    (methods fuel)
  classDeclaration : Agree R (Stmt.Alike (Counterparts R)) (classDeclaration fuel)
    (classDeclaration fuel)
  statement : Agree R (Stmt.Alike (Counterparts R)) (statement fuel) (statement fuel)
  forStatement : Agree R (Stmt.Alike (Counterparts R)) (forStatement fuel) (forStatement fuel)
  ifStatement : Agree R (Stmt.Alike (Counterparts R)) (ifStatement fuel) (ifStatement fuel)
  whileStatement : Agree R (Stmt.Alike (Counterparts R)) (whileStatement fuel)
    (whileStatement fuel)

namespace StatementsAgree

variable (ih : StatementsAgree R fuel)
include ih

/-- Both declarations are read, or both are recovered from. -/
theorem declaration_succ : Agree R (Option.Rel (Stmt.Alike (Counterparts R)))
    (Grammar.declaration (fuel + 1)) (Grammar.declaration (fuel + 1)) :=
  ih.strictDeclaration.recovering hR

theorem strictDeclaration_succ : Agree R (Stmt.Alike (Counterparts R))
    (Grammar.strictDeclaration (fuel + 1)) (Grammar.strictDeclaration (fuel + 1)) := by
  refine (Agree.take hR _).bind fun found found' hfound => ?_
  cases hfound with
  | none => exact ih.statement
  | @some found found' hfound =>
    obtain ⟨keyword, declarator⟩ := found
    obtain ⟨keyword', declarator'⟩ := found'
    obtain ⟨-, hsame, -⟩ := hfound
    dsimp only at hsame
    subst hsame
    cases declarator with
    | classDecl => exact ih.classDeclaration
    | funDecl => exact (ih.callable .function).bind fun _ _ hdecl => .pure (.funDecl hdecl)
    | varDecl => exact varDeclaration_agrees hR fuel

/-- Declarations in a row are alike one by one. -/
theorem declarations_succ : Agree R (List.Forall₂ (Stmt.Alike (Counterparts R)))
    (Grammar.declarations (fuel + 1)) (Grammar.declarations (fuel + 1)) := by
  refine (Agree.nextIs hR _).same fun more => ?_
  cases more with
  | true =>
    refine ih.declaration.bind fun found found' hfound => ?_
    exact ih.declarations.bind fun _ _ hrest =>
      .pure (List.rel_append (Stmt.alike_toList hfound) hrest)
  | false => exact .pure .nil

theorem block_succ : Agree R (List.Forall₂ (Stmt.Alike (Counterparts R)))
    (Grammar.block (fuel + 1)) (Grammar.block (fuel + 1)) :=
  ih.declarations.bind fun _ _ hbody =>
    (Agree.expect hR .blockClose).bind fun _ _ _ => .pure hbody

/-- Functions are alike by their names, parameters and bodies. -/
theorem callable_succ (sort : Callable) : Agree R (FunctionDecl.Alike (Counterparts R))
    (Grammar.callable (fuel + 1) sort) (Grammar.callable (fuel + 1) sort) := by
  refine (Agree.expect hR _).bind fun name name' hname => ?_
  refine (Agree.expect hR _).bind fun _ _ _ => ?_
  refine (parameterList_agrees hR fuel).bind fun params params' hparams => ?_
  refine (Agree.expect hR _).bind fun _ _ _ => (Agree.expect hR _).bind fun _ _ _ => ?_
  exact ih.block.insideBody.bind fun _ _ hbody =>
    .pure (.intro (.of_kind hname rfl) hparams hbody)

/-- Methods are alike one by one. -/
theorem methods_succ : Agree R (List.Forall₂ (FunctionDecl.Alike (Counterparts R)))
    (Grammar.methods (fuel + 1)) (Grammar.methods (fuel + 1)) := by
  refine (Agree.nextIs hR _).same fun more => ?_
  cases more with
  | true =>
    exact (ih.callable .method).bind fun _ _ hmethod =>
      ih.methods.bind fun _ _ hrest => .pure (.cons hmethod hrest)
  | false => exact .pure .nil

theorem classDeclaration_succ : Agree R (Stmt.Alike (Counterparts R))
    (Grammar.classDeclaration (fuel + 1)) (Grammar.classDeclaration (fuel + 1)) := by
  refine (Agree.expect hR .className).bind fun name name' hname => ?_
  refine (superclassClause_agrees hR hname.1).bind fun superclass superclass' hsuperclass => ?_
  refine (Agree.expect hR _).bind fun _ _ _ => ih.methods.bind fun members members' hmembers => ?_
  exact (Agree.expect hR _).bind fun _ _ _ =>
    .pure (.classDecl (.intro (.of_kind hname rfl) hsuperclass hmembers))

/-- Counterparts begin the same kind of statement. -/
theorem statement_succ : Agree R (Stmt.Alike (Counterparts R))
    (Grammar.statement (fuel + 1)) (Grammar.statement (fuel + 1)) := by
  refine (Agree.take hR _).bind fun found found' hfound => ?_
  cases hfound with
  | none => exact expressionStatement_agrees hR fuel
  | @some found found' hfound =>
    obtain ⟨keyword, lead⟩ := found
    obtain ⟨keyword', lead'⟩ := found'
    obtain ⟨hkeyword, hsame, huse⟩ := hfound
    dsimp only at hkeyword hsame huse
    subst hsame
    cases lead with
    | forLoop => exact ih.forStatement
    | ifElse => exact ih.ifStatement
    | print => exact printStatement_agrees hR fuel
    | returnStmt =>
      exact returnStatement_agrees hR fuel
        (.of_kind ⟨hkeyword, Lead.kind_of_ofKind? huse⟩ rfl)
    | whileLoop => exact ih.whileStatement
    | block => exact ih.block.bind fun _ _ hbody => .pure (.block hbody)

theorem forStatement_succ : Agree R (Stmt.Alike (Counterparts R))
    (Grammar.forStatement (fuel + 1)) (Grammar.forStatement (fuel + 1)) := by
  refine (Agree.expect hR _).bind fun _ _ _ => ?_
  refine (initializerClause_agrees hR fuel).bind fun first first' hfirst => ?_
  refine (expressionBefore_agrees hR fuel _).bind fun condition condition' hcondition => ?_
  refine (Agree.expect hR _).bind fun _ _ _ => ?_
  refine (expressionBefore_agrees hR fuel _).bind fun increment increment' hincrement => ?_
  refine (Agree.expect hR _).bind fun _ _ _ => ih.statement.bind fun body body' hbody => ?_
  exact .pure (Stmt.alike_forLoop hfirst hcondition hincrement hbody)

/-- Either both have an `else` or neither has. -/
theorem ifStatement_succ : Agree R (Stmt.Alike (Counterparts R))
    (Grammar.ifStatement (fuel + 1)) (Grammar.ifStatement (fuel + 1)) := by
  refine (Agree.expect hR _).bind fun _ _ _ => ?_
  refine (expressionsAgree hR fuel).expression.bind fun condition condition' hcondition => ?_
  refine (Agree.expect hR _).bind fun _ _ _ => ?_
  refine ih.statement.bind fun thenBranch thenBranch' hthen => ?_
  refine (Agree.skip hR _).same fun otherwise => ?_
  cases otherwise with
  | true =>
    have helse : Agree R (Option.Rel (Stmt.Alike (Counterparts R)))
        (some <$> Grammar.statement fuel) (some <$> Grammar.statement fuel) :=
      ih.statement.bind fun _ _ hstmt => .pure (.some hstmt)
    exact helse.bind fun _ _ hbranch => .pure (.ifElse hcondition hthen hbranch)
  | false =>
    have hnone : Agree R (Option.Rel (Stmt.Alike (Counterparts R))) (pure none) (pure none) :=
      .pure .none
    exact hnone.bind fun _ _ hbranch => .pure (.ifElse hcondition hthen hbranch)

theorem whileStatement_succ : Agree R (Stmt.Alike (Counterparts R))
    (Grammar.whileStatement (fuel + 1)) (Grammar.whileStatement (fuel + 1)) := by
  refine (Agree.expect hR _).bind fun _ _ _ => ?_
  refine (expressionsAgree hR fuel).expression.bind fun condition condition' hcondition => ?_
  refine (Agree.expect hR _).bind fun _ _ _ => ih.statement.bind fun body body' hbody => ?_
  exact .pure (.whileLoop hcondition hbody)

end StatementsAgree

/-- All readers of statements agree, by induction on the bound. -/
theorem statementsAgree (fuel : Nat) : StatementsAgree R fuel := by
  induction fuel with
  | zero => constructor <;> intros <;> exact .outOfFuel
  | succ fuel ih =>
    exact
      { declaration := ih.declaration_succ hR
        strictDeclaration := ih.strictDeclaration_succ hR
        declarations := ih.declarations_succ hR
        block := ih.block_succ hR
        callable := ih.callable_succ hR
        methods := ih.methods_succ hR
        classDeclaration := ih.classDeclaration_succ hR
        statement := ih.statement_succ hR
        forStatement := ih.forStatement_succ hR
        ifStatement := ih.ifStatement_succ hR
        whileStatement := ih.whileStatement_succ hR }

/-! ## Programs -/

theorem program_agrees (fuel : Nat) :
    Agree R (List.Forall₂ (Stmt.Alike (Counterparts R))) (program fuel) (program fuel) := by
  induction fuel with
  | zero => exact .outOfFuel
  | succ fuel ih =>
    refine (Agree.nextIs hR _).same fun more => ?_
    cases more with
    | true =>
      refine (statementsAgree hR fuel).declaration.bind fun found found' hfound => ?_
      exact ih.bind fun _ _ hrest => .pure (List.rel_append (Stmt.alike_toList hfound) hrest)
    | false => exact .pure .nil

/-- What stands before the first end marker of each list is counterparts. -/
theorem takeWhile_alike {tokens tokens' : List Token} (h : List.Forall₂ R tokens tokens') :
    List.Forall₂ R (tokens.takeWhile fun t => t.kind != .eof)
      (tokens'.takeWhile fun t => t.kind != .eof) := by
  induction h with
  | nil => exact .nil
  | cons htoken _ ih =>
    rw [List.takeWhile_cons, List.takeWhile_cons, (hR _ _ htoken).kind]
    split
    · exact .cons htoken ih
    · exact .nil

/-- If there is an end marker in one list, there is in the other. -/
theorem find?_eof_alike {tokens tokens' : List Token} (h : List.Forall₂ R tokens tokens') :
    Option.Rel R (tokens.find? fun t => t.kind == .eof)
      (tokens'.find? fun t => t.kind == .eof) := by
  induction h with
  | nil => exact .none
  | cons htoken _ ih =>
    rw [List.find?_cons, List.find?_cons, (hR _ _ htoken).kind]
    split
    · exact .some htoken
    · exact ih

/-- Where there is an end marker in the lists, the first ones are counterparts. -/
theorem endMarker_matched {tokens tokens' : List Token} (h : List.Forall₂ R tokens tokens')
    (hfound : (tokens.find? fun t => t.kind == .eof).isSome) :
    R (endMarker tokens) (endMarker tokens') := by
  have hmarkers := find?_eof_alike hR h
  unfold endMarker
  generalize (tokens.find? fun t => t.kind == .eof) = found at hfound hmarkers
  generalize (tokens'.find? fun t => t.kind == .eof) = found' at hmarkers
  cases hmarkers with
  | none => cases hfound
  | some hmarker => exact hmarker

/-- Where the readings of two lists begin alike, the statements that are read are alike,
and so are the complaints. -/
theorem read_alike_of_start {tokens tokens' : List Token}
    (hstart : (Cursor.start tokens).Alike R (Cursor.start tokens')) :
    List.Forall₂ (Stmt.Alike (Counterparts R)) (read tokens).program (read tokens').program ∧
      List.Forall₂ (Complaint.Alike R) (read tokens).complaints (read tokens').complaints := by
  have hruns := program_agrees hR (fuelFor (Cursor.start tokens).rest.length) _ _ hstart
  unfold read
  dsimp only
  -- the lists have one length, so the readings have one bound
  rw [← hstart.rest.length_eq]
  cases hrun : (program (fuelFor (Cursor.start tokens).rest.length)).run (Cursor.start tokens) <;>
    cases hrun' : (program (fuelFor (Cursor.start tokens).rest.length)).run
      (Cursor.start tokens') <;>
    rw [hrun, hrun'] at hruns
  · exact ⟨hruns.1, hruns.2.complaints⟩
  · exact hruns.elim
  · exact hruns.elim
  · exact ⟨.nil, hruns.2.complaints⟩

/-- **Counterparts are read alike.** If the tokens of two lists are counterparts in order,
and so are the ends of the lists, the statements that are read from them are alike, and
so are the complaints. -/
theorem read_alike {tokens tokens' : List Token} (h : List.Forall₂ R tokens tokens')
    (hend : R (endMarker tokens) (endMarker tokens')) :
    List.Forall₂ (Stmt.Alike (Counterparts R)) (read tokens).program (read tokens').program ∧
      List.Forall₂ (Complaint.Alike R) (read tokens).complaints (read tokens').complaints :=
  read_alike_of_start hR ⟨takeWhile_alike hR h, hend, rfl, .nil⟩

end Words

end Lox.Grammar
