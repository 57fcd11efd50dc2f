/-
`Lox.Proofs.Grammar.Completeness` -- every phrase is read.

A phrase is taken by its reader, for what it stands for and whatever stands behind
it. What is complained about on the way are the limits that it does not keep, and
nothing else (`Derives.tolerated`); so where it keeps them it is read without a
complaint (`Derives.completes`). What may stand behind it has to be said for two
sorts of phrases. An expression ends only before a token that does not continue
it: each level says how loose that token has to be (`looseness`). A statement that
ends with an `if` without an `else` ends only before another token than `else`.

The rules recurse on the left where the readers loop. So for the levels and for
calls the induction says what happens in the middle of the loop: whatever the loop
makes of the tokens behind the phrase, having read it, the reader makes of the
phrase and those tokens together.
-/
import Lox.Proofs.Grammar.Breach
import Lox.Proofs.Grammar.Fuel
import Lox.Proofs.Grammar.Soundness

set_option autoImplicit false

namespace Lox.Grammar

/-! ## The first token of a phrase -/

/-- The tokens begin with one whose kind passes the test. -/
def HeadIs (test : TokenKind → Bool) (w : List Token) : Prop :=
  ∃ t w', w = t :: w' ∧ test t.kind = true

/-- The first token stays the first one with others behind. -/
theorem HeadIs.append {test : TokenKind → Bool} {u : List Token} (h : HeadIs test u)
    (v : List Token) : HeadIs test (u ++ v) := by
  obtain ⟨t, w, rfl, ht⟩ := h
  exact ⟨t, w ++ v, rfl, ht⟩

/-- A weaker test is passed as well. -/
theorem HeadIs.imp {test test' : TokenKind → Bool} {w : List Token} (h : HeadIs test w)
    (himp : ∀ kind, test kind = true → test' kind = true) : HeadIs test' w := by
  obtain ⟨t, w, rfl, ht⟩ := h
  exact ⟨t, w, rfl, himp t.kind ht⟩

def beginsPrimary (kind : TokenKind) : Bool :=
  kind.isLiteral || (Opening.ofKind? kind).isSome

def beginsExpression (kind : TokenKind) : Bool :=
  beginsPrimary kind || isSign kind

def beginsStatement (kind : TokenKind) : Bool :=
  beginsExpression kind || (Lead.ofKind? kind).isSome

def beginsDeclaration (kind : TokenKind) : Bool :=
  beginsStatement kind || (Declarator.ofKind? kind).isSome

/-- What is known of the first token of a phrase, if there is one. -/
def Symbol.Begins : Symbol → List Token → Prop
  | .primary, w | .call, w => HeadIs beginsPrimary w
  | .unary, w | .operand _, w | .binary _, w | .expression, w | .someArguments, w
  | .expressionStatement, w => HeadIs beginsExpression w
  | .statement _, w => HeadIs beginsStatement w
  | .declaration, w => HeadIs beginsDeclaration w
  | .varDeclaration, w => HeadIs (· == .kwVar) w
  | .function, w | .someParameters, w => HeadIs (· == .identifier) w
  | .declarations, w => w = [] ∨ HeadIs beginsDeclaration w
  | _, _ => True

/-- The first token is the one in front. -/
theorem HeadIs.cons {test : TokenKind → Bool} {t : Token} {kind : TokenKind}
    (hkind : t.kind = kind) (h : test kind = true) (w : List Token) : HeadIs test (t :: w) :=
  ⟨t, w, rfl, hkind ▸ h⟩

/-- What a simple expression may begin with, any expression may. -/
theorem beginsExpression_of_primary {kind : TokenKind} (h : beginsPrimary kind = true) :
    beginsExpression kind = true := by
  rw [beginsExpression, h, Bool.true_or]

/-- What an expression may begin with, a statement may. -/
theorem beginsStatement_of_expression {kind : TokenKind} (h : beginsExpression kind = true) :
    beginsStatement kind = true := by
  rw [beginsStatement, h, Bool.true_or]

/-- What a statement may begin with, a declaration may. -/
theorem beginsDeclaration_of_statement {kind : TokenKind} (h : beginsStatement kind = true) :
    beginsDeclaration kind = true := by
  rw [beginsDeclaration, h, Bool.true_or]

/-- The first token of a phrase is one that its reader looks for. The induction is on the
derivation. -/
theorem Derives.begins {s : Symbol} {w : List Token} {t : s.Tree} (h : Derives s w t) :
    s.Begins w := by
  induction h with
  | literal hkind =>
    rcases hkind with hkind | hkind
    · exact .cons hkind rfl _
    · exact .cons hkind rfl _
  | trueValue hkind => exact .cons hkind rfl _
  | falseValue hkind => exact .cons hkind rfl _
  | nilValue hkind => exact .cons hkind rfl _
  | this hkind => exact .cons hkind rfl _
  | name hkind => exact .cons hkind rfl _
  | super hkind => exact .cons hkind rfl _
  | grouping hkind => exact .cons hkind rfl _
  | callee _ ih => exact ih
  -- a phrase that begins with a smaller one begins as that does
  | call _ _ _ _ ih => exact ih.append _
  | get _ _ _ ih => exact ih.append _
  | lastArgument _ ih => exact ih
  | argument _ _ _ ih => exact ih.append _
  | unsigned _ ih => exact ih.imp fun _ => beginsExpression_of_primary
  | sign hkind =>
    rcases hkind with hkind | hkind
    · exact .cons hkind rfl _
    · exact .cons hkind rfl _
  | innermost _ ih => exact ih
  | tighter _ _ ih => exact ih
  | single _ ih => exact ih
  | connected _ _ _ _ ih => exact ih.append _
  | joined _ _ _ _ ih => exact ih.append _
  | value _ ih => exact ih
  | assign hkind => exact .cons hkind rfl _
  | set _ _ _ _ _ ih => exact (ih.append _).imp fun _ => beginsExpression_of_primary
  | expressionStatement _ _ ih => exact ih.append _
  | varDeclaration hkind => exact ⟨_, _, rfl, beq_iff_eq.mpr hkind⟩
  | simple _ ih => exact ih.imp fun _ => beginsStatement_of_expression
  | print hkind => exact .cons hkind rfl _
  | «return» hkind => exact .cons hkind rfl _
  | block hkind => exact .cons hkind rfl _
  | «while» hkind => exact .cons hkind rfl _
  | «for» hkind => exact .cons hkind rfl _
  | ifThen hkind => exact .cons hkind rfl _
  | ifElse hkind => exact .cons hkind rfl _
  | function hkind => exact ⟨_, _, rfl, beq_iff_eq.mpr hkind⟩
  | lastParameter hkind => exact ⟨_, _, rfl, beq_iff_eq.mpr hkind⟩
  | parameter hkind => exact ⟨_, _, rfl, beq_iff_eq.mpr hkind⟩
  | classDeclaration hkind => exact .cons hkind rfl _
  | functionDeclaration hkind => exact .cons hkind rfl _
  | variableDeclaration _ ih =>
    obtain ⟨t, w, rfl, hkind⟩ := ih
    exact .cons (eq_of_beq hkind) rfl w
  | statement _ ih => exact ih.imp fun _ => beginsDeclaration_of_statement
  -- a program may be empty, and then there is no first token to speak of
  | noDeclarations => exact .inl rfl
  | declarations _ _ ih => exact .inr (ih.append _)
  -- nothing is said of the other phrases, whose readers do not look ahead
  | _ => trivial

/-! ## What an expression ends before -/

/-- How loosely a token holds an expression together that stands to its left:
calls and property accesses hold closest, then the operators level by level, then
the equals sign. Any other token does not belong to the expression. -/
def looseness : TokenKind → Nat
  | .leftParen | .dot => 0
  | .slash | .star => 1
  | .minus | .plus => 2
  | .greater | .greaterEqual | .less | .lessEqual => 3
  | .bangEqual | .equalEqual => 4
  | .kwAnd => 5
  | .kwOr => 6
  | .equal => 7
  | _ => 8

/-- A list has only one first element. -/
theorem forall_head?_cons {α : Type} {P : α → Prop} {a : α} {l : List α} (h : P a) :
    ∀ x ∈ (a :: l).head?, P x := by
  intro x hx
  rw [List.head?_cons, Option.mem_some_iff] at hx
  rw [← hx]
  exact h

/-- What stands next is at least so loose. -/
def Looser (n : Nat) (rest : List Token) : Prop :=
  ∀ t ∈ rest.head?, n ≤ looseness t.kind

/-- What is loose enough for one level is so for the tighter ones. -/
theorem Looser.mono {n m : Nat} {rest : List Token} (h : Looser m rest) (hle : n ≤ m) :
    Looser n rest :=
  fun t ht => Nat.le_trans hle (h t ht)

/-- Only the next token matters. -/
theorem looser_cons {n : Nat} {t : Token} {kind : TokenKind} {rest : List Token}
    (hkind : t.kind = kind) (hle : n ≤ looseness kind) : Looser n (t :: rest) := by
  rw [← hkind] at hle
  exact forall_head?_cons hle

/-- The operators of a level are as loose as the level is high. -/
theorem Level.looseness_of_mem {level : Level} {kind : TokenKind}
    (h : kind ∈ level.operators) : looseness kind = level.height := by
  rw [Level.mem_operators] at h
  cases level <;> cases kind <;> first | rfl | cases h

/-- Before a looser token the operators of a level end. -/
theorem Looser.not_has {level : Level} {rest : List Token}
    (h : Looser (level.height + 1) rest) : ∀ t ∈ rest.head?, level.has t.kind = false := by
  intro t ht
  have hle := h t ht
  cases hhas : level.has t.kind with
  | false => rfl
  | true =>
    have heq := Level.looseness_of_mem (Level.mem_operators.mpr hhas)
    omega

/-- A tighter token does not stand next. -/
theorem Looser.ne_of_looseness {n : Nat} {rest : List Token} {kind : TokenKind}
    (h : Looser n rest) (hlt : looseness kind < n) : ∀ t ∈ rest.head?, t.kind ≠ kind := by
  intro t ht heq
  have hle := h t ht
  rw [heq] at hle
  omega

/-! ## What it means to be read -/

/-- The reader of the phrase takes it, whatever stands behind it as far as the
phrase may end there, and for what it stands for. -/
def Completes : (s : Symbol) → List Token → s.Tree → Prop
  | .primary, w, e => e.Proper → ∀ c rest, Reads primary c (w ++ rest) e rest
  | .call, w, e => e.Proper → ∀ c rest result ts',
    Reads (postfixes · e) c rest result ts' → Reads unary c (w ++ rest) result ts'
  | .unary, w, e => e.Proper → ∀ c rest, Looser 1 rest → Reads unary c (w ++ rest) e rest
  | .operand level, w, e => e.Proper → ∀ c rest, Looser level.height rest →
    Reads (operand · level) c (w ++ rest) e rest
  | .binary level, w, e => e.Proper → ∀ c rest result ts', Looser level.height rest →
    Reads (binaryRest · level e) c rest result ts' →
    Reads (binary · level) c (w ++ rest) result ts'
  | .expression, w, e => e.Proper → ∀ c rest, Looser 8 rest →
    Reads expression c (w ++ rest) e rest
  | .arguments, w, args => Expr.AllProper args → args.length ≤ maxEntries →
    ∀ c r rest, r.kind = .rightParen → Reads argumentList c (w ++ r :: rest) args (r :: rest)
  | .someArguments, w, args => Expr.AllProper args →
    ∀ c count r rest, count + args.length ≤ maxEntries → r.kind = .rightParen →
      Reads (arguments · count) c (w ++ r :: rest) args (r :: rest)
  | .optional, w, found => (∀ e ∈ found, e.Proper) →
    ∀ c t rest, t.kind = .semicolon ∨ t.kind = .rightParen →
      Reads (expressionBefore · t.kind) c (w ++ t :: rest) found (t :: rest)
  | .initializer, w, found => (∀ e ∈ found, e.Proper) →
    ∀ c t rest, t.kind = .semicolon → Reads initialValue c (w ++ t :: rest) found (t :: rest)
  | .expressionStatement, w, stmt => ∀ c, stmt.Proper (c.depth != 0) →
    ∀ rest, Reads expressionStatement c (w ++ rest) stmt rest
  | .varDeclaration, w, stmt => ∀ c, stmt.Proper (c.depth != 0) →
    ∃ keyword w', w = keyword :: w' ∧ keyword.kind = .kwVar ∧
      ∀ rest, Reads varDeclaration c (w' ++ rest) stmt rest
  | .firstClause, w, first => ∀ c, (∀ stmt ∈ first, stmt.Proper (c.depth != 0)) →
    ∀ rest, Reads initializerClause c (w ++ rest) first rest
  | .statement ending, w, stmt => ∀ c, stmt.Proper (c.depth != 0) →
    ∀ rest, (ending = .short → ∀ t ∈ rest.head?, t.kind ≠ .kwElse) →
      Reads statement c (w ++ rest) stmt rest
  | .parameters, w, params => params.length ≤ maxEntries →
    ∀ c r rest, r.kind = .rightParen →
      Reads parameterList c (w ++ r :: rest) params (r :: rest)
  | .someParameters, w, params => ∀ c count r rest, count + params.length ≤ maxEntries →
    r.kind = .rightParen → Reads (parameters · count) c (w ++ r :: rest) params (r :: rest)
  | .function, w, decl => decl.Proper → ∀ c sort rest,
    Reads (callable · sort) c (w ++ rest) decl rest
  | .methods, w, decls => FunctionDecl.AllProper decls → ∀ c r rest, r.kind = .rightBrace →
    Reads methods c (w ++ r :: rest) decls (r :: rest)
  | .superclass, w, superclass => ∀ c name l rest,
    (∀ parent, superclass = some (.variable parent) → parent.lexeme ≠ name.lexeme) →
    l.kind = .leftBrace →
    Takes (superclassClause name) c (w ++ l :: rest) superclass (l :: rest)
  | .declaration, w, stmt => ∀ c, stmt.Proper (c.depth != 0) →
    ∀ rest, (∀ t ∈ rest.head?, t.kind ≠ .kwElse) →
      Reads declaration c (w ++ rest) (some stmt) rest
  | .declarations, w, stmts => ∀ c, Stmt.AllProper (c.depth != 0) stmts →
    (∀ r rest, r.kind = .rightBrace → Reads declarations c (w ++ r :: rest) stmts (r :: rest)) ∧
      Reads program c w stmts []

/-- How many of the next entries of a list are beyond the limit, when `count` have
been read. -/
def excess (count next : Nat) : Nat :=
  next - (maxEntries - count)

/-- The excess of a list can be counted entry by entry. -/
theorem excess_add_one (count next : Nat) :
    excess count (next + 1) = excess count 1 + excess (count + 1) next := by
  unfold excess
  omega

/-- Behind the limit each entry is one too many. -/
theorem excess_eq_one {count : Nat} (h : maxEntries ≤ count) : excess count 1 = 1 := by
  unfold excess
  omega

/-- Up to the limit none is. -/
theorem excess_eq_zero {count next : Nat} (h : count + next ≤ maxEntries) :
    excess count next = 0 := by
  unfold excess
  omega

/-- The reader of the phrase takes it, whatever stands behind it as far as the
phrase may end there, and for what it stands for. It complains about the limits
that are not kept in the phrase, and about nothing else. -/
def Tolerated : (s : Symbol) → List Token → s.Tree → Prop
  | .primary, w, e => ∀ c rest, Notes primary c (w ++ rest) e rest e.breaches
  | .call, w, e => ∀ c rest result ts' causes, Notes (postfixes · e) c rest result ts' causes →
    Notes unary c (w ++ rest) result ts' (e.breaches + causes)
  | .unary, w, e => ∀ c rest, Looser 1 rest → Notes unary c (w ++ rest) e rest e.breaches
  | .operand level, w, e => ∀ c rest, Looser level.height rest →
    Notes (operand · level) c (w ++ rest) e rest e.breaches
  | .binary level, w, e => ∀ c rest result ts' causes, Looser level.height rest →
    Notes (binaryRest · level e) c rest result ts' causes →
    Notes (binary · level) c (w ++ rest) result ts' (e.breaches + causes)
  | .expression, w, e => ∀ c rest, Looser 8 rest →
    Notes expression c (w ++ rest) e rest e.breaches
  | .arguments, w, args => ∀ c r rest, r.kind = .rightParen →
    Notes argumentList c (w ++ r :: rest) args (r :: rest)
      (.replicate (args.length - maxEntries) .tooManyArguments + Expr.breachesEach args)
  | .someArguments, w, args => ∀ c count r rest, r.kind = .rightParen →
    Notes (arguments · count) c (w ++ r :: rest) args (r :: rest)
      (.replicate (excess count args.length) .tooManyArguments + Expr.breachesEach args)
  | .optional, w, found => ∀ c t rest, t.kind = .semicolon ∨ t.kind = .rightParen →
    Notes (expressionBefore · t.kind) c (w ++ t :: rest) found (t :: rest)
      (found.elim 0 Expr.breaches)
  | .initializer, w, found => ∀ c t rest, t.kind = .semicolon →
    Notes initialValue c (w ++ t :: rest) found (t :: rest) (found.elim 0 Expr.breaches)
  | .expressionStatement, w, stmt => ∀ c rest,
    Notes expressionStatement c (w ++ rest) stmt rest (stmt.breaches (c.depth != 0))
  | .varDeclaration, w, stmt => ∃ keyword w', w = keyword :: w' ∧ keyword.kind = .kwVar ∧
    ∀ c rest, Notes varDeclaration c (w' ++ rest) stmt rest (stmt.breaches (c.depth != 0))
  | .firstClause, w, first => ∀ c rest,
    Notes initializerClause c (w ++ rest) first rest (first.elim 0 (Stmt.breaches (c.depth != 0)))
  | .statement ending, w, stmt => ∀ c rest,
    (ending = .short → ∀ t ∈ rest.head?, t.kind ≠ .kwElse) →
      Notes statement c (w ++ rest) stmt rest (stmt.breaches (c.depth != 0))
  | .parameters, w, params => ∀ c r rest, r.kind = .rightParen →
    Notes parameterList c (w ++ r :: rest) params (r :: rest)
      (.replicate (params.length - maxEntries) .tooManyParameters)
  | .someParameters, w, params => ∀ c count r rest, r.kind = .rightParen →
    Notes (parameters · count) c (w ++ r :: rest) params (r :: rest)
      (.replicate (excess count params.length) .tooManyParameters)
  | .function, w, decl => ∀ c sort rest,
    Notes (callable · sort) c (w ++ rest) decl rest decl.breaches
  | .methods, w, decls => ∀ c r rest, r.kind = .rightBrace →
    Notes methods c (w ++ r :: rest) decls (r :: rest) (FunctionDecl.breachesEach decls)
  | .superclass, w, superclass => ∀ c name l rest, l.kind = .leftBrace →
    Notes (fun _ => superclassClause name) c (w ++ l :: rest) superclass (l :: rest)
      (Expr.selfInheritance name superclass)
  | .declaration, w, stmt => ∀ c rest, (∀ t ∈ rest.head?, t.kind ≠ .kwElse) →
    Notes declaration c (w ++ rest) (some stmt) rest (stmt.breaches (c.depth != 0))
  | .declarations, w, stmts => ∀ c,
    (∀ r rest, r.kind = .rightBrace →
      Notes declarations c (w ++ r :: rest) stmts (r :: rest)
        (Stmt.breachesEach (c.depth != 0) stmts)) ∧
      Notes program c w stmts [] (Stmt.breachesEach (c.depth != 0) stmts)

/-- A token of another kind is not skipped. -/
theorem takes_skip_of_ne {c : Cursor} {t : Token} {rest : List Token} {kind : TokenKind}
    (h : t.kind ≠ kind) : Takes (skip? kind) c (t :: rest) false (t :: rest) :=
  takes_skip_false.mpr ⟨rfl, forall_head?_cons h⟩

/-! ## Expressions -/

section Expressions

variable {u v w : List Token} {e : Expr} {level : Level}

/-- A literal is read by its value and not by its kind. -/
theorem tolerated_literal {t : Token} {value : Literal}
    (hkind : t.kind = .number ∨ t.kind = .string) (hvalue : t.literal = some value) :
    Tolerated .primary [t] (.literal value.toConstant) := by
  intro c rest
  refine .succ ?_
  simp only [primary]
  have htake : Takes takeLiteral c ([t] ++ rest) (some value) rest :=
    takes_takeLiteral_some.mpr ⟨t, isLiteral_iff.mpr hkind, hvalue, rfl⟩
  exact .step htake (.pure _)

/-- A token that is no literal and begins an expression. -/
theorem notes_primary_of_opening {t : Token} {opening : Opening} {c : Cursor}
    {rest ts' : List Token} {causes : Multiset Cause}
    (hopening : Opening.ofKind? t.kind = some opening)
    (h : Notes (fun fuel => match opening with
      | .constant value => return .literal value
      | .super => do
        let _ ← expect .superDot
        return .super t (← expect .superMethod)
      | .this => return .this t
      | .name => return .variable t
      | .group => do
        let inner ← expression fuel
        let _ ← expect .groupClose
        return .grouping inner) c rest e ts' causes) :
    Notes primary c (t :: rest) e ts' causes := by
  have hliteral : t.kind.isLiteral = false := by
    cases hkind : t.kind <;> rw [hkind] at hopening <;> first | rfl | cases hopening
  refine .succ ?_
  simp only [primary]
  -- literals are looked for first
  have hnone : Takes takeLiteral c (t :: rest) none (t :: rest) :=
    takes_takeLiteral_none.mpr ⟨rfl, forall_head?_cons hliteral⟩
  have htake : Takes (take Opening.ofKind?) c (t :: rest) (some (t, opening)) rest :=
    takes_take_some.mpr ⟨hopening, rfl⟩
  refine .step hnone (.step htake ?_)
  cases opening <;> exact h

/-- The words for constants are read by their kinds. -/
theorem tolerated_constant {t : Token} {value : Constant}
    (h : Opening.ofKind? t.kind = some (.constant value)) :
    Tolerated .primary [t] (.literal value) :=
  fun _ _ => notes_primary_of_opening h (.pure _)

theorem tolerated_this {t : Token} (hkind : t.kind = .kwThis) :
    Tolerated .primary [t] (.this t) := by
  intro c rest
  have hopening : Opening.ofKind? t.kind = some .this := by
    rw [hkind]
    rfl
  exact notes_primary_of_opening hopening (.pure _)

theorem tolerated_name {t : Token} (hkind : t.kind = .identifier) :
    Tolerated .primary [t] (.variable t) := by
  intro c rest
  have hopening : Opening.ofKind? t.kind = some .name := by
    rw [hkind]
    rfl
  exact notes_primary_of_opening hopening (.pure _)

/-- Of `super` all three tokens are needed, as it is no value by itself. -/
theorem tolerated_super {t dot method : Token} (hkind : t.kind = .kwSuper)
    (hdot : dot.kind = .dot) (hmethod : method.kind = .identifier) :
    Tolerated .primary [t, dot, method] (.super t method) := by
  intro c rest
  have hopening : Opening.ofKind? t.kind = some .super := by
    rw [hkind]
    rfl
  refine notes_primary_of_opening hopening ?_
  refine .step (takes_expect.mpr ⟨hdot, rfl⟩) ?_
  exact .step (takes_expect.mpr ⟨hmethod, rfl⟩) (.pure _)

/-- Between parentheses anything may stand, since the closing one ends it. -/
theorem tolerated_grouping {l r : Token} {inner : Expr} (hl : l.kind = .leftParen)
    (hw : Tolerated .expression w inner) (hr : r.kind = .rightParen) :
    Tolerated .primary (l :: (w ++ [r])) (.grouping inner) := by
  intro c rest
  have hopening : Opening.ofKind? l.kind = some .group := by
    rw [hl]
    rfl
  simp only [List.append_assoc, List.cons_append, List.nil_append]
  refine notes_primary_of_opening hopening ?_
  refine .ends (hw c (r :: rest) (looser_cons hr (Nat.le_refl 8))) ?_
  exact .step (takes_expect.mpr ⟨hr, rfl⟩) (.pure _)

/-- No sign stands before an expression without operators. -/
theorem tolerated_callee (hbegins : HeadIs beginsPrimary w) (hw : Tolerated .primary w e) :
    Tolerated .call w e := by
  intro c rest result ts' causes hrest
  obtain ⟨t, w', rfl, ht⟩ := hbegins
  have hsign : isSign t.kind = false := by
    cases hkind : t.kind <;> rw [hkind] at ht <;> first | rfl | cases ht
  have hnone : Takes (takeIf isSign) c (t :: w' ++ rest) none (t :: w' ++ rest) :=
    takes_takeIf_none.mpr ⟨rfl, forall_head?_cons hsign⟩
  refine .succ ?_
  simp only [unary]
  exact .step hnone (.bind (hw c rest) hrest)

/-- Arguments end at their parenthesis, so what is behind them is for the callee to go on with.
-/
theorem tolerated_call {callee : Expr} {args : List Expr} {l r : Token}
    (hu : Tolerated .call u callee) (hl : l.kind = .leftParen)
    (hv : Tolerated .arguments v args) (hr : r.kind = .rightParen) :
    Tolerated .call (u ++ l :: (v ++ [r])) (.call callee r args) := by
  intro c rest result ts' causes hrest
  simp only [List.append_assoc, List.cons_append, List.nil_append]
  rw [Expr.breaches, add_assoc]
  refine hu c _ result ts' _ (.succ ?_)
  simp only [postfixes]
  refine .step (takes_skip_true.mpr ⟨l, hl, rfl⟩) ?_
  refine .bind (hv c r rest hr) ?_
  exact .step (takes_expect.mpr ⟨hr, rfl⟩) hrest

theorem tolerated_get {object : Expr} {dot name : Token} (hu : Tolerated .call u object)
    (hdot : dot.kind = .dot) (hname : name.kind = .identifier) :
    Tolerated .call (u ++ [dot, name]) (.get object name) := by
  intro c rest result ts' causes hrest
  simp only [List.append_assoc, List.cons_append, List.nil_append]
  refine hu c _ result ts' causes (.succ ?_)
  simp only [postfixes]
  have hparen : dot.kind ≠ .leftParen := by
    rw [hdot]
    decide
  refine .step (takes_skip_of_ne hparen) ?_
  refine .step (takes_skip_true.mpr ⟨dot, hdot, rfl⟩) ?_
  exact .step (takes_expect.mpr ⟨hname, rfl⟩) hrest

/-- Behind a call, neither a parenthesis nor a dot goes on with it. -/
theorem tolerated_unsigned (hw : Tolerated .call w e) : Tolerated .unary w e := by
  intro c rest hlooser
  refine (hw c rest e rest 0 (.succ ?_)).of_eq (add_zero _)
  simp only [postfixes]
  have hparen : Takes (skip? .leftParen) c rest false rest :=
    takes_skip_false.mpr ⟨rfl, hlooser.ne_of_looseness (Nat.zero_lt_one)⟩
  have hdot : Takes (skip? .dot) c rest false rest :=
    takes_skip_false.mpr ⟨rfl, hlooser.ne_of_looseness (Nat.zero_lt_one)⟩
  exact .step hparen (.step hdot (.pure e))

/-- A sign takes what holds tighter. -/
theorem tolerated_sign {op : Token} (hop : op.kind = .bang ∨ op.kind = .minus)
    (hw : Tolerated .unary w e) : Tolerated .unary (op :: w) (.unary op e) := by
  intro c rest hlooser
  refine .succ ?_
  simp only [unary]
  have htake : Takes (takeIf isSign) c (op :: w ++ rest) (some op) (w ++ rest) :=
    takes_takeIf_some.mpr ⟨isSign_iff.mpr hop, rfl⟩
  exact .step htake (.ends (hw c rest hlooser) (.pure _))

/-- The operands of the tightest level are those with signs. -/
theorem tolerated_innermost (hw : Tolerated .unary w e) :
    Tolerated (.operand .product) w e := by
  intro c rest hlooser
  refine .succ ?_
  simp only [operand, Level.tighter?]
  exact hw c rest hlooser

/-- The operands of any other level are the expressions of the next one. -/
theorem tolerated_tighter {level' : Level} (horder : (level, level') ∈ Level.order)
    (hw : Tolerated (.binary level') w e) : Tolerated (.operand level) w e := by
  intro c rest hlooser
  have htighter := Level.mem_order.mp horder
  rw [Level.height_of_tighter htighter] at hlooser
  refine .succ ?_
  simp only [operand, htighter]
  refine (hw c rest e rest 0 (hlooser.mono (Nat.le_succ _)) (.succ ?_)).of_eq (add_zero _)
  -- what stands behind is no operator of the tighter level either
  simp only [binaryRest]
  exact .step (takes_takeIf_none.mpr ⟨rfl, hlooser.not_has⟩) (.pure e)

/-- An operand alone is an expression of its level. -/
theorem tolerated_single (hw : Tolerated (.operand level) w e) :
    Tolerated (.binary level) w e := by
  intro c rest result ts' causes hlooser hrest
  refine .succ ?_
  simp only [binary]
  exact .bind (hw c rest hlooser) hrest

/-- An operator keeps all limits that its operands keep. -/
theorem Level.breaches_join {left right : Expr} {op : Token} :
    (level.join left op right).breaches = left.breaches + right.breaches := by
  cases level <;> rfl

/-- Operators of one level are taken from the left, so the reader goes on with what it has
joined. -/
theorem tolerated_join {left right : Expr} {op : Token}
    (hu : Tolerated (.binary level) u left) (hop : op.kind ∈ level.operators)
    (hv : Tolerated (.operand level) v right) :
    Tolerated (.binary level) (u ++ op :: v) (level.join left op right) := by
  intro c rest result ts' causes hlooser hrest
  have hnext : Looser level.height (op :: (v ++ rest)) :=
    looser_cons rfl (Nat.le_of_eq (Level.looseness_of_mem hop).symm)
  simp only [List.append_assoc, List.cons_append]
  rw [Level.breaches_join, add_assoc]
  -- behind the left operand the loop sees the operator and goes on with both joined
  refine hu c _ result ts' _ hnext (.succ ?_)
  simp only [binaryRest]
  refine .step (takes_takeIf_some.mpr ⟨Level.mem_operators.mp hop, rfl⟩) ?_
  exact .bind (hv c rest hlooser) hrest

theorem tolerated_connected {left right : Expr} {op : Token}
    (hlevel : level = .or ∨ level = .and) (hu : Tolerated (.binary level) u left)
    (hop : op.kind ∈ level.operators) (hv : Tolerated (.operand level) v right) :
    Tolerated (.binary level) (u ++ op :: v) (.logical left op right) := by
  rcases level.join_cases left op right with ⟨-, heq⟩ | ⟨⟨hor, hand⟩, -⟩
  · rw [← heq]
    exact tolerated_join hu hop hv
  · exact absurd hlevel (not_or.mpr ⟨hor, hand⟩)

theorem tolerated_joined {left right : Expr} {op : Token}
    (hlevel : level ≠ .or ∧ level ≠ .and) (hu : Tolerated (.binary level) u left)
    (hop : op.kind ∈ level.operators) (hv : Tolerated (.operand level) v right) :
    Tolerated (.binary level) (u ++ op :: v) (.binary left op right) := by
  rcases level.join_cases left op right with ⟨hconnects, -⟩ | ⟨-, heq⟩
  · exact absurd hconnects (not_or.mpr hlevel)
  · rw [← heq]
    exact tolerated_join hu hop hv

/-- A call is an expression of every level. -/
theorem tolerated_level (hw : Tolerated .call w e) (level : Level) :
    Tolerated (.binary level) w e := by
  have hproduct : Tolerated (.binary .product) w e :=
    tolerated_single (tolerated_innermost (tolerated_unsigned hw))
  have hsum : Tolerated (.binary .sum) w e :=
    tolerated_single (tolerated_tighter (by decide) hproduct)
  have hcomparison : Tolerated (.binary .comparison) w e :=
    tolerated_single (tolerated_tighter (by decide) hsum)
  have hequality : Tolerated (.binary .equality) w e :=
    tolerated_single (tolerated_tighter (by decide) hcomparison)
  have hand : Tolerated (.binary .and) w e :=
    tolerated_single (tolerated_tighter (by decide) hequality)
  have hor : Tolerated (.binary .or) w e := tolerated_single (tolerated_tighter (by decide) hand)
  cases level <;> assumption

/-- Before an equals sign the loosest level has been read. -/
theorem notes_target {target : Expr} {c : Cursor} {equals : Token} {rest : List Token}
    (hw : Tolerated (.binary .or) w target) (hequals : equals.kind = .equal) :
    Notes (binary · .or) c (w ++ equals :: rest) target (equals :: rest) target.breaches := by
  have hlooser : Looser 7 (equals :: rest) := looser_cons hequals (Nat.le_refl 7)
  refine (hw c _ target _ 0 (hlooser.mono (by decide)) (.succ ?_)).of_eq (add_zero _)
  simp only [binaryRest]
  exact .step (takes_takeIf_none.mpr ⟨rfl, Looser.not_has hlooser⟩) (.pure target)

/-- A target that is assigned to is read as any expression is, with all that is wrong in it. -/
theorem breaches_of_assignment {target value result : Expr}
    (h : assignment? target value = some result) :
    result.breaches = target.breaches + value.breaches := by
  cases target <;> cases h
  · exact (zero_add _).symm
  · rfl

/-- What stands to the left of an equals sign is read before the sign is seen, and made a target
afterwards. -/
theorem tolerated_assignment {target value result : Expr} {equals : Token}
    (hu : Tolerated (.binary .or) u target) (hequals : equals.kind = .equal)
    (hw : Tolerated .expression w value) (hassign : assignment? target value = some result) :
    Tolerated .expression (u ++ equals :: w) result := by
  intro c rest hlooser
  simp only [List.append_assoc, List.cons_append]
  rw [breaches_of_assignment hassign]
  refine .succ ?_
  simp only [expression]
  refine .bind (notes_target hu hequals) ?_
  have htake : Takes (take? .equal) c (equals :: (w ++ rest)) (some equals) (w ++ rest) :=
    takes_takeIf_some.mpr ⟨beq_iff_eq.mpr hequals, rfl⟩
  refine .step htake (.ends (hw c rest hlooser) ?_)
  rw [hassign]
  exact .pure result

/-- A name is such a target. -/
theorem tolerated_assign {name equals : Token} (hname : name.kind = .identifier)
    (hequals : equals.kind = .equal) (hw : Tolerated .expression w e) :
    Tolerated .expression (name :: equals :: w) (.assign name e) := by
  have hbegins : HeadIs beginsPrimary [name] := .cons hname rfl []
  -- the name is read as any expression is, and found to be a target afterwards
  have htarget : Tolerated (.binary .or) [name] (.variable name) :=
    tolerated_level (tolerated_callee hbegins (tolerated_name hname)) .or
  exact tolerated_assignment htarget hequals hw rfl

theorem tolerated_set {object : Expr} {dot name equals : Token} (hu : Tolerated .call u object)
    (hdot : dot.kind = .dot) (hname : name.kind = .identifier) (hequals : equals.kind = .equal)
    (hw : Tolerated .expression w e) :
    Tolerated .expression (u ++ dot :: name :: equals :: w) (.set object name e) := by
  have htarget : Tolerated (.binary .or) (u ++ [dot, name]) (.get object name) :=
    tolerated_level (tolerated_get hu hdot hname) .or
  have hset := tolerated_assignment htarget hequals hw rfl
  simpa only [List.append_assoc, List.cons_append, List.nil_append] using hset

/-- An expression without an equals sign is one that nothing as loose follows. -/
theorem tolerated_value (hw : Tolerated (.binary .or) w e) : Tolerated .expression w e := by
  intro c rest hlooser
  refine .succ ?_
  simp only [expression]
  -- neither an operator of the loosest level stands behind it nor an equals sign
  have hlevel : Notes (binary · .or) c (w ++ rest) e rest e.breaches := by
    refine (hw c rest e rest 0 (hlooser.mono (by decide)) (.succ ?_)).of_eq (add_zero _)
    simp only [binaryRest]
    have hhas : ∀ t ∈ rest.head?, Level.has .or t.kind = false :=
      Looser.not_has (hlooser.mono (by decide))
    exact .step (takes_takeIf_none.mpr ⟨rfl, hhas⟩) (.pure e)
  have hequal : Takes (take? .equal) c rest none rest := by
    refine takes_takeIf_none.mpr ⟨rfl, fun t ht => ?_⟩
    exact beq_false_of_ne (hlooser.ne_of_looseness (by decide) t ht)
  exact .ends hlevel (.step hequal (.pure e))

theorem tolerated_noArguments : Tolerated .arguments [] [] := by
  intro c r rest hr
  refine .succ ?_
  simp only [argumentList]
  exact .step (takes_at_true hr) (.pure _)

/-- Tokens that a test tells apart are of different kinds. -/
theorem ne_of_begins {test : TokenKind → Bool} {kind kind' : TokenKind}
    (h : test kind = true) (h' : test kind' = false) : kind ≠ kind' := by
  rintro rfl
  rw [h] at h'
  cases h'

/-- A list of arguments that is not empty begins like an expression, and not with the closing
parenthesis. -/
theorem tolerated_arguments {args : List Expr} (hbegins : HeadIs beginsExpression w)
    (hw : Tolerated .someArguments w args) : Tolerated .arguments w args := by
  intro c r rest hr
  obtain ⟨t, w', rfl, ht⟩ := hbegins
  refine .succ ?_
  simp only [argumentList]
  refine .step (takes_at_false (ne_of_begins ht rfl)) ?_
  exact hw c 0 r rest hr

/-- The first argument is complained about where enough have been read before it. -/
theorem notes_arguments {count : Nat} {c : Cursor} {ts ts' : List Token} {args : List Expr}
    {causes : Multiset Cause}
    (h : Notes (fun fuel => do
      let arg ← expression fuel
      if ← skip? .comma then
        return arg :: (← arguments fuel (count + 1))
      else return [arg]) c ts args ts' causes) :
    Notes (arguments · count) c ts args ts'
      (.replicate (excess count 1) .tooManyArguments + causes) := by
  refine .succ ?_
  by_cases hcount : count ≥ maxEntries
  · simp only [arguments, if_pos hcount]
    rw [excess_eq_one hcount]
    exact (Notes.complainHere rfl).bind h
  · simp only [arguments, if_neg hcount]
    rw [excess_eq_zero (Nat.lt_of_not_ge hcount)]
    exact h.of_eq (zero_add causes).symm

/-- The last argument is not followed by a comma. It counts if the limit has been reached. -/
theorem tolerated_lastArgument (hw : Tolerated .expression w e) :
    Tolerated .someArguments w [e] := by
  intro c count r rest hr
  have hcomma : r.kind ≠ .comma := by
    rw [hr]
    decide
  refine notes_arguments ((Notes.ends (hw c (r :: rest) ?_) ?_).of_eq (add_zero _).symm)
  · exact looser_cons hr (Nat.le_refl 8)
  · exact .step (takes_skip_of_ne hcomma) (.pure _)

/-- Any other one counts in the same way, and the list goes on behind the comma. -/
theorem tolerated_argument {comma : Token} {args : List Expr} (hu : Tolerated .expression u e)
    (hcomma : comma.kind = .comma) (hv : Tolerated .someArguments v args) :
    Tolerated .someArguments (u ++ comma :: v) (e :: args) := by
  intro c count r rest hr
  simp only [List.append_assoc, List.cons_append]
  have hcauses : Multiset.replicate (excess count (e :: args).length) Cause.tooManyArguments
      + Expr.breachesEach (e :: args) = .replicate (excess count 1) .tooManyArguments
        + (e.breaches + (.replicate (excess (count + 1) args.length) .tooManyArguments
          + Expr.breachesEach args)) := by
    rw [List.length_cons, excess_add_one, Multiset.replicate_add, Expr.breachesEach]
    abel
  rw [hcauses]
  refine notes_arguments ?_
  refine .bind (hu c _ (looser_cons hcomma (Nat.le_refl 8))) ?_
  refine .step (takes_skip_true.mpr ⟨comma, hcomma, rfl⟩) ?_
  exact .ends (hv c (count + 1) r rest hr) (.pure _)

end Expressions

/-! ## Statements without statements inside -/

section Clauses

variable {u v w : List Token} {e : Expr} {stmt : Stmt}

theorem tolerated_missing : Tolerated .optional [] none := by
  intro c t rest _
  exact .step (takes_at_true rfl) (.pure _)

/-- An expression that may be missing is there if the next token begins one. -/
theorem tolerated_present (hbegins : HeadIs beginsExpression w)
    (hw : Tolerated .expression w e) : Tolerated .optional w (some e) := by
  intro c t rest ht
  obtain ⟨t', w', rfl, ht'⟩ := hbegins
  have hne : t'.kind ≠ t.kind := by
    rcases ht with ht | ht
    · rw [ht]
      exact ne_of_begins ht' rfl
    · rw [ht]
      exact ne_of_begins ht' rfl
  have hlooser : Looser 8 (t :: rest) := by
    rcases ht with ht | ht
    · exact looser_cons ht (Nat.le_refl 8)
    · exact looser_cons ht (Nat.le_refl 8)
  refine .step (takes_at_false hne) ?_
  exact .ends (hw c _ hlooser) (.pure _)

theorem tolerated_uninitialized : Tolerated .initializer [] none := by
  intro c t rest ht
  have hequal : t.kind ≠ .equal := by
    rw [ht]
    decide
  exact .step (takes_skip_of_ne hequal) (.pure _)

/-- An initial value is announced by its equals sign. -/
theorem tolerated_initialized {equals : Token} (hequals : equals.kind = .equal)
    (hw : Tolerated .expression w e) : Tolerated .initializer (equals :: w) (some e) := by
  intro c t rest ht
  refine .step (takes_skip_true.mpr ⟨equals, hequals, rfl⟩) ?_
  exact .ends (hw c _ (looser_cons ht (Nat.le_refl 8))) (.pure _)

/-- An expression and the semicolon behind it. -/
theorem notes_expression_semicolon {slot : Slot} {c : Cursor} {semicolon : Token}
    {rest : List Token} (hslot : slot.kind = .semicolon) (hw : Tolerated .expression w e)
    (hsemicolon : semicolon.kind = .semicolon) (f : Expr → Stmt) :
    Notes (fun fuel => do
      let expr ← expression fuel
      let _ ← expect slot
      return f expr) c (w ++ [semicolon] ++ rest) (f e) rest e.breaches := by
  simp only [List.append_assoc, List.cons_append, List.nil_append]
  refine .ends (hw c _ (looser_cons hsemicolon (Nat.le_refl 8))) ?_
  exact .step (takes_expect.mpr ⟨hsemicolon.trans hslot.symm, rfl⟩) (.pure _)

/-- The semicolon is as loose as a token can be, so that the expression ends there. -/
theorem tolerated_expressionStatement {semicolon : Token} (hw : Tolerated .expression w e)
    (hsemicolon : semicolon.kind = .semicolon) :
    Tolerated .expressionStatement (w ++ [semicolon]) (.expression e) :=
  fun _ _ => notes_expression_semicolon rfl hw hsemicolon .expression

/-- The declaration of a variable is its keyword, its name and its initial value, up to the
semicolon. -/
theorem tolerated_varDeclaration {keyword name semicolon : Token} {init : Option Expr}
    (hkeyword : keyword.kind = .kwVar) (hname : name.kind = .identifier)
    (hw : Tolerated .initializer w init) (hsemicolon : semicolon.kind = .semicolon) :
    Tolerated .varDeclaration (keyword :: name :: (w ++ [semicolon])) (.varDecl name init) := by
  refine ⟨keyword, name :: (w ++ [semicolon]), rfl, hkeyword, fun c rest => ?_⟩
  simp only [List.append_assoc, List.cons_append, List.nil_append]
  refine .step (takes_expect.mpr ⟨hname, rfl⟩) ?_
  refine .ends (hw c semicolon rest hsemicolon) ?_
  exact .step (takes_expect.mpr ⟨hsemicolon, rfl⟩) (.pure _)

theorem tolerated_noClause {semicolon : Token} (hsemicolon : semicolon.kind = .semicolon) :
    Tolerated .firstClause [semicolon] none :=
  fun _ _ => .step (takes_skip_true.mpr ⟨semicolon, hsemicolon, rfl⟩) (.pure _)

theorem tolerated_varClause (hw : Tolerated .varDeclaration w stmt) :
    Tolerated .firstClause w (some stmt) := by
  intro c rest
  obtain ⟨keyword, w', rfl, hkeyword, hnotes⟩ := hw
  have hsemicolon : keyword.kind ≠ .semicolon := by
    rw [hkeyword]
    decide
  refine .step (takes_skip_of_ne hsemicolon) ?_
  refine .step (takes_skip_true.mpr ⟨keyword, hkeyword, rfl⟩) ?_
  exact .ends (hnotes c rest) (.pure _)

/-- The first clause of a loop is an expression if no `var` and no semicolon stands next. -/
theorem tolerated_expressionClause (hbegins : HeadIs beginsExpression w)
    (hw : Tolerated .expressionStatement w stmt) : Tolerated .firstClause w (some stmt) := by
  intro c rest
  have hnotes := hw c rest
  obtain ⟨t, w', rfl, ht⟩ := hbegins
  refine .step (takes_skip_of_ne (ne_of_begins ht rfl)) ?_
  refine .step (takes_skip_of_ne (ne_of_begins ht rfl)) ?_
  exact .ends hnotes (.pure _)

theorem tolerated_noSuperclass : Tolerated .superclass [] none := by
  intro c name l rest hl
  have hne : l.kind ≠ .less := by
    rw [hl]
    decide
  exact .step (takes_skip_of_ne hne) (.pure _)

/-- A superclass is announced by a sign that is an operator elsewhere. -/
theorem tolerated_superclass {less parent : Token} (hless : less.kind = .less)
    (hparent : parent.kind = .identifier) :
    Tolerated .superclass [less, parent] (some (.variable parent)) := by
  intro c name l rest _
  refine .step (takes_skip_true.mpr ⟨less, hless, rfl⟩) ?_
  refine .step (takes_expect.mpr ⟨hparent, rfl⟩) ?_
  rw [Expr.selfInheritance]
  by_cases hself : parent.lexeme = name.lexeme
  · simp only [beq_iff_eq, if_pos hself]
    exact (Notes.complain parent rfl).ends (.pure _)
  · simp only [beq_iff_eq, if_neg hself]
    exact .pure _

theorem tolerated_noParameters : Tolerated .parameters [] [] :=
  fun _ _ _ hr => .step (takes_at_true hr) (.pure _)

/-- A list of parameters that is not empty begins with a name. -/
theorem tolerated_parameters {params : List Token}
    (hbegins : HeadIs (· == .identifier) w) (hw : Tolerated .someParameters w params) :
    Tolerated .parameters w params := by
  intro c r rest hr
  have hnotes := hw c 0 r rest hr
  obtain ⟨t, w', rfl, ht⟩ := hbegins
  have hne : t.kind ≠ .rightParen := by
    rw [eq_of_beq ht]
    decide
  exact .step (takes_at_false hne) hnotes

/-- The first parameter is complained about where enough have been read before it. -/
theorem notes_parameters {count : Nat} {c : Cursor} {ts ts' : List Token} {params : List Token}
    {causes : Multiset Cause}
    (h : Notes (fun fuel => do
      let name ← expect .parameterName
      if ← skip? .comma then
        return name :: (← parameters fuel (count + 1))
      else return [name]) c ts params ts' causes) :
    Notes (parameters · count) c ts params ts'
      (.replicate (excess count 1) .tooManyParameters + causes) := by
  refine .succ ?_
  by_cases hcount : count ≥ maxEntries
  · simp only [parameters, if_pos hcount]
    rw [excess_eq_one hcount]
    exact (Notes.complainHere rfl).bind h
  · simp only [parameters, if_neg hcount]
    rw [excess_eq_zero (Nat.lt_of_not_ge hcount)]
    exact h.of_eq (zero_add causes).symm

/-- The last parameter counts if the limit has been reached. -/
theorem tolerated_lastParameter {name : Token} (hname : name.kind = .identifier) :
    Tolerated .someParameters [name] [name] := by
  intro c count r rest hr
  have hcomma : r.kind ≠ .comma := by
    rw [hr]
    decide
  refine (notes_parameters (.step (takes_expect.mpr ⟨hname, rfl⟩) ?_)).of_eq (add_zero _)
  exact .step (takes_skip_of_ne hcomma) (.pure _)

/-- So does any other one, and the list goes on behind the comma. -/
theorem tolerated_parameter {name comma : Token} {params : List Token}
    (hname : name.kind = .identifier) (hcomma : comma.kind = .comma)
    (hw : Tolerated .someParameters w params) :
    Tolerated .someParameters (name :: comma :: w) (name :: params) := by
  intro c count r rest hr
  rw [List.length_cons, excess_add_one, Multiset.replicate_add]
  refine notes_parameters (.step (takes_expect.mpr ⟨hname, rfl⟩) ?_)
  refine .step (takes_skip_true.mpr ⟨comma, hcomma, rfl⟩) ?_
  exact .ends (hw c (count + 1) r rest hr) (.pure _)

end Clauses

/-! ## Statements with statements inside -/

section Statements

variable {u v w x : List Token} {e condition : Expr} {stmt body : Stmt} {ending : Ending}

/-- A statement that begins like an expression is one. -/
theorem tolerated_simple (hbegins : HeadIs beginsExpression w)
    (hw : Tolerated .expressionStatement w stmt) : Tolerated (.statement .complete) w stmt := by
  intro c rest _
  have hnotes := hw c rest
  obtain ⟨t, w', rfl, ht⟩ := hbegins
  have hlead : Lead.ofKind? t.kind = none := by
    cases hkind : t.kind <;> rw [hkind] at ht <;> first | rfl | cases ht
  have hnone : Takes (take Lead.ofKind?) c (t :: w' ++ rest) none (t :: w' ++ rest) :=
    takes_take_none.mpr ⟨rfl, forall_head?_cons hlead⟩
  refine .succ ?_
  simp only [statement]
  exact .step hnone hnotes

/-- A statement that is known by its first token. -/
theorem notes_statement_of_lead {keyword : Token} {lead : Lead} {c : Cursor}
    {rest ts' : List Token} {causes : Multiset Cause}
    (hlead : Lead.ofKind? keyword.kind = some lead)
    (h : Notes (fun fuel => match lead with
      | .forLoop => forStatement fuel
      | .ifElse => ifStatement fuel
      | .print => printStatement fuel
      | .returnStmt => returnStatement fuel keyword
      | .whileLoop => whileStatement fuel
      | .block => return .block (← block fuel)) c rest stmt ts' causes) :
    Notes statement c (keyword :: rest) stmt ts' causes := by
  refine .succ ?_
  simp only [statement]
  refine .step (takes_take_some.mpr ⟨hlead, rfl⟩) ?_
  cases lead <;> exact h

/-- A keyword leads to its statement. -/
theorem lead_of_kind {t : Token} (lead : Lead) (h : t.kind = lead.keyword) :
    Lead.ofKind? t.kind = some lead := by
  rw [h]
  cases lead <;> rfl

theorem tolerated_print {keyword semicolon : Token} (hkeyword : keyword.kind = .kwPrint)
    (hw : Tolerated .expression w e) (hsemicolon : semicolon.kind = .semicolon) :
    Tolerated (.statement .complete) (keyword :: (w ++ [semicolon])) (.print e) :=
  fun _ _ _ => notes_statement_of_lead (lead_of_kind .print hkeyword)
    (notes_expression_semicolon rfl hw hsemicolon .print)

/-- Outside of functions a `return` is read as well, and counts as a breach. -/
theorem tolerated_return {keyword semicolon : Token} {value : Option Expr}
    (hkeyword : keyword.kind = .kwReturn) (hw : Tolerated .optional w value)
    (hsemicolon : semicolon.kind = .semicolon) :
    Tolerated (.statement .complete) (keyword :: (w ++ [semicolon]))
      (.returnStmt keyword value) := by
  intro c rest _
  have hvalue := hw c semicolon rest (.inl hsemicolon)
  rw [hsemicolon] at hvalue
  simp only [List.cons_append, List.append_assoc, List.nil_append]
  refine notes_statement_of_lead (lead_of_kind .returnStmt hkeyword) ?_
  have hrest : Notes (fun fuel => do
      let value ← expressionBefore fuel .semicolon
      let _ ← expect .returnEnd
      return Stmt.returnStmt keyword value) c (w ++ semicolon :: rest)
      (.returnStmt keyword value) rest (value.elim 0 Expr.breaches) :=
    .ends hvalue (.step (takes_expect.mpr ⟨hsemicolon, rfl⟩) (.pure _))
  refine .step (takes_inFunction.mpr ⟨rfl, rfl⟩) ?_
  rw [Stmt.breaches]
  -- outside of functions there is one complaint more, and the reading goes on all the same
  cases c.depth != 0 with
  | true => exact hrest.of_eq (zero_add _).symm
  | false => exact (Notes.complain keyword rfl).bind hrest

/-- What stands between the braces of a block, and the closing one. -/
theorem notes_block {r : Token} {stmts : List Stmt} {c : Cursor} {rest : List Token}
    (hw : Tolerated .declarations w stmts) (hr : r.kind = .rightBrace) :
    Notes block c (w ++ r :: rest) stmts rest (Stmt.breachesEach (c.depth != 0) stmts) := by
  refine .succ ?_
  simp only [block]
  refine .ends ((hw c).1 r rest hr) ?_
  exact .step (takes_expect.mpr ⟨hr, rfl⟩) (.pure _)

/-- In braces declarations go on up to the closing one, which begins none. -/
theorem tolerated_block {l r : Token} {stmts : List Stmt} (hl : l.kind = .leftBrace)
    (hw : Tolerated .declarations w stmts) (hr : r.kind = .rightBrace) :
    Tolerated (.statement .complete) (l :: (w ++ [r])) (.block stmts) := by
  intro c rest _
  simp only [List.append_assoc, List.cons_append, List.nil_append]
  refine notes_statement_of_lead (lead_of_kind .block hl) ?_
  exact .ends (notes_block hw hr) (.pure _)

/-- A loop ends as its body does, and may want no `else` behind it for that reason. -/
theorem tolerated_while {keyword l r : Token} (hkeyword : keyword.kind = .kwWhile)
    (hl : l.kind = .leftParen) (hu : Tolerated .expression u condition)
    (hr : r.kind = .rightParen) (hv : Tolerated (.statement ending) v body) :
    Tolerated (.statement ending) (keyword :: l :: (u ++ r :: v))
      (.whileLoop condition body) := by
  intro c rest helse
  simp only [List.append_assoc, List.cons_append]
  refine notes_statement_of_lead (lead_of_kind .whileLoop hkeyword) (.succ ?_)
  simp only [whileStatement]
  refine .step (takes_expect.mpr ⟨hl, rfl⟩) ?_
  refine .bind (hu c _ (looser_cons hr (Nat.le_refl 8))) ?_
  refine .step (takes_expect.mpr ⟨hr, rfl⟩) ?_
  exact .ends (hv c rest helse) (.pure _)

/-- A loop with clauses is read into the tree that stands for it, whose breaches are those of
its parts. -/
theorem tolerated_for {keyword l semicolon r : Token} {first : Option Stmt}
    {condition increment : Option Expr} (hkeyword : keyword.kind = .kwFor)
    (hl : l.kind = .leftParen) (hu : Tolerated .firstClause u first)
    (hv : Tolerated .optional v condition) (hsemicolon : semicolon.kind = .semicolon)
    (hw : Tolerated .optional w increment) (hr : r.kind = .rightParen)
    (hx : Tolerated (.statement ending) x body) :
    Tolerated (.statement ending) (keyword :: l :: (u ++ (v ++ semicolon :: (w ++ r :: x))))
      (.forLoop first condition increment body) := by
  intro c rest helse
  have hcondition := hv c semicolon (w ++ r :: (x ++ rest)) (.inl hsemicolon)
  have hincrement := hw c r (x ++ rest) (.inr hr)
  rw [hsemicolon] at hcondition
  rw [hr] at hincrement
  simp only [List.append_assoc, List.cons_append]
  rw [Stmt.breaches_forLoop]
  refine notes_statement_of_lead (lead_of_kind .forLoop hkeyword) (.succ ?_)
  simp only [forStatement]
  refine .step (takes_expect.mpr ⟨hl, rfl⟩) ?_
  refine .bind (hu c _) ?_
  refine .bind hcondition ?_
  refine .step (takes_expect.mpr ⟨hsemicolon, rfl⟩) ?_
  refine .bind hincrement ?_
  refine .step (takes_expect.mpr ⟨hr, rfl⟩) ?_
  exact .ends (hx c rest helse) (.pure _)

/-- Without an `else`, an `if` ends only where none follows. -/
theorem tolerated_ifThen {keyword l r : Token} (hkeyword : keyword.kind = .kwIf)
    (hl : l.kind = .leftParen) (hu : Tolerated .expression u condition)
    (hr : r.kind = .rightParen) (hv : Tolerated (.statement ending) v body) :
    Tolerated (.statement .short) (keyword :: l :: (u ++ r :: v))
      (.ifElse condition body none) := by
  intro c rest helse
  simp only [List.append_assoc, List.cons_append]
  refine notes_statement_of_lead (lead_of_kind .ifElse hkeyword) (.succ ?_)
  simp only [ifStatement]
  refine .step (takes_expect.mpr ⟨hl, rfl⟩) ?_
  refine .bind (hu c _ (looser_cons hr (Nat.le_refl 8))) ?_
  refine .step (takes_expect.mpr ⟨hr, rfl⟩) ?_
  refine .ends (hv c rest fun _ => helse rfl) ?_
  exact .step (takes_skip_false.mpr ⟨rfl, helse rfl⟩) (.pure _)

/-- An `else` belongs to the nearest `if`, so the branch before it has to be complete. -/
theorem tolerated_ifElse {keyword l r otherwise : Token} {elseBranch : Stmt}
    (hkeyword : keyword.kind = .kwIf) (hl : l.kind = .leftParen)
    (hu : Tolerated .expression u condition) (hr : r.kind = .rightParen)
    (hv : Tolerated (.statement .complete) v body) (hotherwise : otherwise.kind = .kwElse)
    (hw : Tolerated (.statement ending) w elseBranch) :
    Tolerated (.statement ending) (keyword :: l :: (u ++ r :: (v ++ otherwise :: w)))
      (.ifElse condition body (some elseBranch)) := by
  intro c rest helse
  simp only [List.append_assoc, List.cons_append]
  refine notes_statement_of_lead (lead_of_kind .ifElse hkeyword) (.succ ?_)
  simp only [ifStatement]
  refine .step (takes_expect.mpr ⟨hl, rfl⟩) ?_
  refine .bind (hu c _ (looser_cons hr (Nat.le_refl 8))) ?_
  refine .step (takes_expect.mpr ⟨hr, rfl⟩) ?_
  -- the branch is complete, so it does not mind the else behind it
  refine .bind (hv c _ fun hending => by cases hending) ?_
  refine .step (takes_skip_true.mpr ⟨otherwise, hotherwise, rfl⟩) ?_
  exact .ends (.map (hw c rest helse)) (.pure _)

end Statements

/-! ## Declarations -/

section Declarations

variable {u v w : List Token} {stmt : Stmt} {stmts : List Stmt}

/-- The parameters and the body of a function. The body is inside a function,
whatever is around it. -/
theorem tolerated_function {name l r lb rb : Token} {params : List Token}
    (hname : name.kind = .identifier) (hl : l.kind = .leftParen)
    (hu : Tolerated .parameters u params) (hr : r.kind = .rightParen)
    (hlb : lb.kind = .leftBrace) (hv : Tolerated .declarations v stmts)
    (hrb : rb.kind = .rightBrace) :
    Tolerated .function (name :: l :: (u ++ r :: lb :: (v ++ [rb]))) ⟨name, params, stmts⟩ := by
  intro c sort rest
  -- one body deeper is never the outermost level
  have hbody : Notes block { c with depth := c.depth + 1 } (v ++ rb :: rest) stmts rest
      (Stmt.breachesEach true stmts) := notes_block hv hrb
  simp only [List.append_assoc, List.cons_append, List.nil_append]
  refine .succ ?_
  simp only [callable]
  refine .step (takes_expect.mpr ⟨hname, rfl⟩) ?_
  refine .step (takes_expect.mpr ⟨hl, rfl⟩) ?_
  refine .bind (hu c r _ hr) ?_
  refine .step (takes_expect.mpr ⟨hr, rfl⟩) ?_
  refine .step (takes_expect.mpr ⟨hlb, rfl⟩) ?_
  exact .ends hbody.insideBody (.pure _)

theorem tolerated_noMethods : Tolerated .methods [] [] := by
  intro c r rest hr
  have hlast : (r.kind != .rightBrace) = false := by
    rw [hr]
    rfl
  refine .succ ?_
  simp only [methods]
  exact .step (takes_nextIs_cons hlast) (.pure _)

/-- Methods follow one another as long as a name stands next. -/
theorem tolerated_method {decl : FunctionDecl} {decls : List FunctionDecl}
    (hbegins : HeadIs (· == .identifier) u) (hu : Tolerated .function u decl)
    (hv : Tolerated .methods v decls) : Tolerated .methods (u ++ v) (decl :: decls) := by
  intro c r rest hr
  have hnotes := hu c .method (v ++ r :: rest)
  obtain ⟨t, w, rfl, ht⟩ := hbegins
  have hanother : (t.kind != .rightBrace) = true := by
    rw [eq_of_beq ht]
    rfl
  simp only [List.append_assoc, List.cons_append] at hnotes ⊢
  refine .succ ?_
  simp only [methods]
  refine .step (takes_nextIs_cons hanother) ?_
  exact .bind hnotes (.ends (hv c r rest hr) (.pure _))

/-- A declaration that is known by its first token. -/
theorem notes_declaration_of_declarator {keyword : Token} (declarator : Declarator) {c : Cursor}
    {rest ts' : List Token} {causes : Multiset Cause} (hkeyword : keyword.kind = declarator.keyword)
    (h : Notes (fun fuel => match declarator with
      | .classDecl => classDeclaration fuel
      | .funDecl => return .funDecl (← callable fuel .function)
      | .varDecl => varDeclaration fuel) c rest stmt ts' causes) :
    Notes declaration c (keyword :: rest) (some stmt) ts' causes := by
  have hdeclarator : Declarator.ofKind? keyword.kind = some declarator := by
    rw [hkeyword]
    cases declarator <;> rfl
  refine .succ ?_
  simp only [declaration]
  refine .recovering (.succ ?_)
  simp only [strictDeclaration]
  refine .step (takes_take_some.mpr ⟨hdeclarator, rfl⟩) ?_
  cases declarator <;> exact h

/-- A class is read with its superclass and its methods, and the reader then looks whether it
inherits from itself. -/
theorem tolerated_classDeclaration {keyword name l r : Token} {superclass : Option Expr}
    {members : List FunctionDecl} (hkeyword : keyword.kind = .kwClass)
    (hname : name.kind = .identifier) (hu : Tolerated .superclass u superclass)
    (hl : l.kind = .leftBrace) (hv : Tolerated .methods v members)
    (hr : r.kind = .rightBrace) :
    Tolerated .declaration (keyword :: name :: (u ++ l :: (v ++ [r])))
      (.classDecl ⟨name, superclass, members⟩) := by
  intro c rest _
  simp only [List.append_assoc, List.cons_append, List.nil_append]
  refine notes_declaration_of_declarator .classDecl hkeyword (.succ ?_)
  simp only [classDeclaration]
  refine .step (takes_expect.mpr ⟨hname, rfl⟩) ?_
  refine .bind (hu c name l _ hl) ?_
  refine .step (takes_expect.mpr ⟨hl, rfl⟩) ?_
  refine .ends (hv c r rest hr) ?_
  exact .step (takes_expect.mpr ⟨hr, rfl⟩) (.pure _)

/-- A function is its keyword and what all functions have in common. -/
theorem tolerated_functionDeclaration {keyword : Token} {decl : FunctionDecl}
    (hkeyword : keyword.kind = .kwFun) (hw : Tolerated .function w decl) :
    Tolerated .declaration (keyword :: w) (.funDecl decl) := by
  intro c rest _
  refine notes_declaration_of_declarator .funDecl hkeyword ?_
  exact .ends (hw c .function rest) (.pure _)

theorem tolerated_variableDeclaration (hw : Tolerated .varDeclaration w stmt) :
    Tolerated .declaration w stmt := by
  intro c rest _
  obtain ⟨keyword, w', rfl, hkeyword, hnotes⟩ := hw
  exact notes_declaration_of_declarator .varDecl hkeyword (hnotes c rest)

/-- A statement is a declaration if it does not begin like another one. -/
theorem tolerated_statement {ending : Ending} (hbegins : HeadIs beginsStatement w)
    (hw : Tolerated (.statement ending) w stmt) : Tolerated .declaration w stmt := by
  intro c rest helse
  have hnotes := hw c rest fun _ => helse
  obtain ⟨t, w', rfl, ht⟩ := hbegins
  have hdeclarator : Declarator.ofKind? t.kind = none := by
    cases hkind : t.kind <;> rw [hkind] at ht <;> first | rfl | cases ht
  have hnone : Takes (take Declarator.ofKind?) c (t :: w' ++ rest) none (t :: w' ++ rest) :=
    takes_take_none.mpr ⟨rfl, forall_head?_cons hdeclarator⟩
  refine .succ ?_
  simp only [declaration]
  refine .recovering (.succ ?_)
  simp only [strictDeclaration]
  exact .step hnone hnotes

theorem tolerated_noDeclarations : Tolerated .declarations [] [] := by
  intro c
  constructor
  · intro r rest hr
    have hlast : (r.kind != .rightBrace) = false := by
      rw [hr]
      rfl
    refine .succ ?_
    simp only [declarations]
    exact .step (takes_nextIs_cons hlast) (.pure _)
  · refine .succ ?_
    simp only [program]
    exact .step (takes_nextIs.mpr ⟨rfl, rfl⟩) (.pure _)

/-- A list of declarations does not begin with `else`. -/
theorem not_else_of_begins {rest : List Token} (hv : v = [] ∨ HeadIs beginsDeclaration v)
    (hrest : ∀ t ∈ rest.head?, t.kind ≠ .kwElse) :
    ∀ t ∈ (v ++ rest).head?, t.kind ≠ .kwElse := by
  rcases hv with rfl | ⟨t, w, rfl, ht⟩
  · exact hrest
  · exact forall_head?_cons (ne_of_begins ht rfl)

/-- Declarations follow one another as long as one can begin. A reader recovers from none of
them. -/
theorem tolerated_declarations (hbegins : HeadIs beginsDeclaration u)
    (hbegins' : v = [] ∨ HeadIs beginsDeclaration v) (hu : Tolerated .declaration u stmt)
    (hv : Tolerated .declarations v stmts) :
    Tolerated .declarations (u ++ v) (stmt :: stmts) := by
  intro c
  obtain ⟨hblock, hprogram⟩ := hv c
  have hfirst : ∀ rest : List Token, (∀ t ∈ rest.head?, t.kind ≠ .kwElse) →
      Notes declaration c (u ++ (v ++ rest)) (some stmt) (v ++ rest)
        (stmt.breaches (c.depth != 0)) := by
    intro rest helse
    exact hu c (v ++ rest) (not_else_of_begins hbegins' helse)
  obtain ⟨t, w, rfl, ht⟩ := hbegins
  -- the loop inside braces stops at the closing one, the outermost one at the end
  constructor
  · intro r rest hr
    have hanother : (t.kind != .rightBrace) = true := bne_iff_ne.mpr (ne_of_begins ht rfl)
    have helse : r.kind ≠ .kwElse := by
      rw [hr]
      decide
    have hnotes := hfirst (r :: rest) (forall_head?_cons helse)
    simp only [List.append_assoc, List.cons_append] at hnotes ⊢
    refine .succ ?_
    simp only [declarations]
    refine .step (takes_nextIs_cons hanother) ?_
    exact .bind hnotes (.ends (hblock r rest hr) (.pure _))
  · have hnotes := hfirst [] (fun t' ht' => by cases ht')
    simp only [List.append_nil, List.cons_append] at hnotes ⊢
    refine .succ ?_
    simp only [program]
    refine .step (takes_nextIs_cons rfl) ?_
    exact .bind hnotes (.ends hprogram (.pure _))

end Declarations

/-! ## All phrases -/

/-- Every phrase is read, with a complaint about each limit that is not kept in it. -/
theorem Derives.tolerated {s : Symbol} {w : List Token} {t : s.Tree} (h : Derives s w t) :
    Tolerated s w t := by
  induction h with
  | literal hkind hvalue => exact tolerated_literal hkind hvalue
  | trueValue hkind => exact tolerated_constant (by rw [hkind]; rfl)
  | falseValue hkind => exact tolerated_constant (by rw [hkind]; rfl)
  | nilValue hkind => exact tolerated_constant (by rw [hkind]; rfl)
  | this hkind => exact tolerated_this hkind
  | name hkind => exact tolerated_name hkind
  | super hkind hdot hmethod => exact tolerated_super hkind hdot hmethod
  | grouping hl _ hr ih => exact tolerated_grouping hl ih hr
  | callee h ih => exact tolerated_callee h.begins ih
  | call _ hl _ hr ih ih' => exact tolerated_call ih hl ih' hr
  | get _ hdot hname ih => exact tolerated_get ih hdot hname
  | noArguments => exact tolerated_noArguments
  | arguments h ih => exact tolerated_arguments h.begins ih
  | lastArgument _ ih => exact tolerated_lastArgument ih
  | argument _ hcomma _ ih ih' => exact tolerated_argument ih hcomma ih'
  | unsigned _ ih => exact tolerated_unsigned ih
  | sign hop _ ih => exact tolerated_sign hop ih
  | innermost _ ih => exact tolerated_innermost ih
  | tighter horder _ ih => exact tolerated_tighter horder ih
  | single _ ih => exact tolerated_single ih
  | connected hlevel _ hop _ ih ih' => exact tolerated_connected hlevel ih hop ih'
  | joined hlevel _ hop _ ih ih' => exact tolerated_joined hlevel ih hop ih'
  | value _ ih => exact tolerated_value ih
  | assign hname hequals _ ih => exact tolerated_assign hname hequals ih
  | set _ hdot hname hequals _ ih ih' => exact tolerated_set ih hdot hname hequals ih'
  | missing => exact tolerated_missing
  | present h ih => exact tolerated_present h.begins ih
  | uninitialized => exact tolerated_uninitialized
  | initialized hequals _ ih => exact tolerated_initialized hequals ih
  | expressionStatement _ hsemicolon ih => exact tolerated_expressionStatement ih hsemicolon
  | varDeclaration hkeyword hname _ hsemicolon ih =>
    exact tolerated_varDeclaration hkeyword hname ih hsemicolon
  | noClause hsemicolon => exact tolerated_noClause hsemicolon
  | varClause _ ih => exact tolerated_varClause ih
  | expressionClause h ih => exact tolerated_expressionClause h.begins ih
  | simple h ih => exact tolerated_simple h.begins ih
  | print hkeyword _ hsemicolon ih => exact tolerated_print hkeyword ih hsemicolon
  | «return» hkeyword _ hsemicolon ih => exact tolerated_return hkeyword ih hsemicolon
  | block hl _ hr ih => exact tolerated_block hl ih hr
  | «while» hkeyword hl _ hr _ ih ih' => exact tolerated_while hkeyword hl ih hr ih'
  | «for» hkeyword hl _ _ hsemicolon _ hr _ ihu ihv ihw ihx =>
    exact tolerated_for hkeyword hl ihu ihv hsemicolon ihw hr ihx
  | ifThen hkeyword hl _ hr _ ih ih' => exact tolerated_ifThen hkeyword hl ih hr ih'
  | ifElse hkeyword hl _ hr _ hotherwise _ ihu ihv ihw =>
    exact tolerated_ifElse hkeyword hl ihu hr ihv hotherwise ihw
  | noParameters => exact tolerated_noParameters
  | parameters h ih => exact tolerated_parameters h.begins ih
  | lastParameter hname => exact tolerated_lastParameter hname
  | parameter hname hcomma _ ih => exact tolerated_parameter hname hcomma ih
  | function hname hl _ hr hlb _ hrb ih ih' =>
    exact tolerated_function hname hl ih hr hlb ih' hrb
  | noMethods => exact tolerated_noMethods
  | method h _ ih ih' => exact tolerated_method h.begins ih ih'
  | noSuperclass => exact tolerated_noSuperclass
  | superclass hless hparent => exact tolerated_superclass hless hparent
  | classDeclaration hkeyword hname _ hl _ hr ih ih' =>
    exact tolerated_classDeclaration hkeyword hname ih hl ih' hr
  | functionDeclaration hkeyword _ ih => exact tolerated_functionDeclaration hkeyword ih
  | variableDeclaration _ ih => exact tolerated_variableDeclaration ih
  | statement h ih => exact tolerated_statement h.begins ih
  | noDeclarations => exact tolerated_noDeclarations
  | declarations h h' ih ih' => exact tolerated_declarations h.begins h'.begins ih ih'

section Proper

variable {α : Type} {f : Nat → TokenReader α} {c : Cursor} {ts ts' : List Token} {a : α}
  {causes : Multiset Cause}

/-- Where nothing is wrong, nothing is complained about. -/
theorem Notes.reads_of_eq (h : Notes f c ts a ts' causes) (hnone : causes = 0) :
    Reads f c ts a ts' :=
  (h.of_eq hnone).reads

/-- The same for a loop that is in the middle of its tokens. -/
theorem Notes.reads_of_imp {g : Nat → TokenReader α} {us : List Token} {causes : Multiset Cause}
    (h : ∀ m, Notes f c ts a ts' m → Notes g c us a ts' (causes + m)) (hnone : causes = 0)
    (hf : Reads f c ts a ts') : Reads g c us a ts' :=
  (h 0 (.of_reads hf)).reads_of_eq (by rw [hnone, add_zero])

/-- What is tolerated is read where the limits are kept. -/
theorem Tolerated.completes {s : Symbol} {w : List Token} {t : s.Tree} (h : Tolerated s w t) :
    Completes s w t := by
  -- a count that has not gone beyond the limit is no breach
  have hnone {n : Nat} {cause : Cause} (hn : n = 0) : Multiset.replicate n cause = 0 := by
    rw [hn, Multiset.replicate_zero]
  cases s with
  | primary => exact fun hproper c rest => (h c rest).reads_of_eq (t.breaches_of_proper hproper)
  | call =>
    exact fun hproper c rest result ts' =>
      Notes.reads_of_imp (h c rest result ts') (t.breaches_of_proper hproper)
  | unary =>
    exact fun hproper c rest hnext => (h c rest hnext).reads_of_eq (t.breaches_of_proper hproper)
  | operand level =>
    exact fun hproper c rest hnext => (h c rest hnext).reads_of_eq (t.breaches_of_proper hproper)
  | binary level =>
    exact fun hproper c rest result ts' hnext =>
      Notes.reads_of_imp (h c rest result ts' · hnext) (t.breaches_of_proper hproper)
  | expression =>
    exact fun hproper c rest hnext => (h c rest hnext).reads_of_eq (t.breaches_of_proper hproper)
  -- lists keep their limit by assumption, and their entries are proper
  | arguments =>
    intro hproper hlength c r rest hr
    refine (h c r rest hr).reads_of_eq ?_
    rw [hnone (Nat.sub_eq_zero_of_le hlength), Expr.breachesEach_of_proper t hproper, add_zero]
  | someArguments =>
    intro hproper c count r rest hcount hr
    refine (h c count r rest hr).reads_of_eq ?_
    rw [hnone (excess_eq_zero hcount), Expr.breachesEach_of_proper t hproper, add_zero]
  | optional =>
    exact fun hproper c next rest hnext =>
      (h c next rest hnext).reads_of_eq (Expr.elim_breaches_of_proper hproper)
  | initializer =>
    exact fun hproper c next rest hnext =>
      (h c next rest hnext).reads_of_eq (Expr.elim_breaches_of_proper hproper)
  | expressionStatement =>
    exact fun c hproper rest => (h c rest).reads_of_eq (t.breaches_of_proper _ hproper)
  | varDeclaration =>
    intro c hproper
    obtain ⟨keyword, w', hw, hkeyword, hnotes⟩ := h
    exact ⟨keyword, w', hw, hkeyword, fun rest =>
      (hnotes c rest).reads_of_eq (t.breaches_of_proper _ hproper)⟩
  -- a clause is a statement, an expression or nothing, and keeps the limits in each case
  | firstClause =>
    intro c hproper rest
    refine (h c rest).reads_of_eq ?_
    cases t with
    | none => rfl
    | some stmt => exact stmt.breaches_of_proper _ (hproper stmt rfl)
  | statement ending =>
    exact fun c hproper rest helse =>
      (h c rest helse).reads_of_eq (t.breaches_of_proper _ hproper)
  | parameters =>
    exact fun hlength c r rest hr =>
      (h c r rest hr).reads_of_eq (hnone (Nat.sub_eq_zero_of_le hlength))
  | someParameters =>
    exact fun c count r rest hcount hr =>
      (h c count r rest hr).reads_of_eq (hnone (excess_eq_zero hcount))
  | function =>
    exact fun hproper c sort rest => (h c sort rest).reads_of_eq (t.breaches_of_proper hproper)
  | methods =>
    exact fun hproper c r rest hr =>
      (h c r rest hr).reads_of_eq (FunctionDecl.breachesEach_of_proper t hproper)
  -- the check for inheritance complains only if the names are the same
  | superclass =>
    intro c name l rest hother hl
    have hreads := (h c name l rest hl).reads_of_eq (Expr.selfInheritance_of_proper hother)
    obtain ⟨n, hn⟩ := hreads
    exact hn n (Nat.le_refl n)
  | declaration =>
    exact fun c hproper rest helse =>
      (h c rest helse).reads_of_eq (t.breaches_of_proper _ hproper)
  | declarations =>
    intro c hproper
    obtain ⟨hblock, hprogram⟩ := h c
    have hkept := Stmt.breachesEach_of_proper _ t hproper
    exact ⟨fun r rest hr => (hblock r rest hr).reads_of_eq hkept, hprogram.reads_of_eq hkept⟩

end Proper

/-- **Completeness.** Every phrase in which the limits are kept is read. -/
theorem Derives.completes {s : Symbol} {w : List Token} {t : s.Tree} (h : Derives s w t) :
    Completes s w t :=
  h.tolerated.completes

end Lox.Grammar
