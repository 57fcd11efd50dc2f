/-
`Lox.Proofs.Grammar.Soundness` -- what is read is a phrase.

Whatever a reader takes without a complaint is a phrase of its sort, and the tree
it returns is what the phrase stands for. The induction is on the bound, which
every reader hands on smaller, and it is on all readers at once.

Two readers start in the middle: the one for the rest of a level and the one for
calls and property accesses have been handed what stands to the left. They are
sound for every phrase that this can be.

An assignment is read as a value with an equals sign behind it. That the value
can be assigned to is found in its tree, and the tree tells how the phrase was
derived (`Derives.target`).
-/
import Lox.Proofs.Grammar.Clean
import Lox.Proofs.Grammar.Derivation

set_option autoImplicit false

namespace Lox.Grammar

/-! ## Tables -/

/-- The operators of a level in the grammar are those that its reader looks for. -/
theorem Level.mem_operators {level : Level} {kind : TokenKind} :
    kind ∈ level.operators ↔ level.has kind = true := by
  cases level <;> cases kind <;> decide

/-- The order of the levels in the grammar is the one that the readers go through. -/
theorem Level.mem_order {level level' : Level} :
    (level, level') ∈ Level.order ↔ level.tighter? = some level' := by
  cases level <;> cases level' <;> decide

/-- Whether the operators of a level connect or join is in its table, too. -/
theorem Level.join_cases (level : Level) (left : Expr) (op : Token) (right : Expr) :
    (level = .or ∨ level = .and) ∧ level.join left op right = .logical left op right ∨
      (level ≠ .or ∧ level ≠ .and) ∧ level.join left op right = .binary left op right := by
  cases level with
  | or => exact .inl ⟨.inl rfl, rfl⟩
  | and => exact .inl ⟨.inr rfl, rfl⟩
  | equality => exact .inr ⟨by decide, rfl⟩
  | comparison => exact .inr ⟨by decide, rfl⟩
  | sum => exact .inr ⟨by decide, rfl⟩
  | product => exact .inr ⟨by decide, rfl⟩

/-- A joined expression is a phrase of its level, whichever kind of tree it is. -/
theorem Derives.join {level : Level} {u v : List Token} {left right : Expr} {op : Token}
    (hu : Derives (.binary level) u left) (hop : op.kind ∈ level.operators)
    (hv : Derives (.operand level) v right) :
    Derives (.binary level) (u ++ op :: v) (level.join left op right) := by
  rcases level.join_cases left op right with ⟨hlevel, heq⟩ | ⟨hlevel, heq⟩
  · rw [heq]
    exact .connected hlevel hu hop hv
  · rw [heq]
    exact .joined hlevel hu hop hv

/-- It is proper if its operands are. -/
theorem Level.proper_join {level : Level} {left right : Expr} {op : Token}
    (hleft : left.Proper) (hright : right.Proper) : (level.join left op right).Proper := by
  cases level <;> exact ⟨hleft, hright⟩

/-- The literals with a value are numbers and strings. -/
theorem isLiteral_iff {kind : TokenKind} :
    kind.isLiteral = true ↔ kind = .number ∨ kind = .string := by
  cases kind <;> decide

/-- The signs are those of the grammar. -/
theorem isSign_iff {kind : TokenKind} : isSign kind = true ↔ kind = .bang ∨ kind = .minus := by
  cases kind <;> decide

/-- The kind of token that an opening is known by, constants apart. -/
def Opening.kind? : Opening → Option TokenKind
  | .super => some .kwSuper
  | .this => some .kwThis
  | .name => some .identifier
  | .group => some .leftParen
  | .constant _ => none

/-- An opening is known by one kind of token. -/
theorem Opening.kind_of_ofKind? {kind kind' : TokenKind} {opening : Opening}
    (h : Opening.ofKind? kind = some opening) (h' : opening.kind? = some kind') :
    kind = kind' := by
  cases kind <;> cases h <;> cases h' <;> rfl

/-- The keyword of a declaration. -/
def Declarator.keyword : Declarator → TokenKind
  | .classDecl => .kwClass
  | .funDecl => .kwFun
  | .varDecl => .kwVar

theorem Declarator.kind_of_ofKind? {kind : TokenKind} {declarator : Declarator}
    (h : Declarator.ofKind? kind = some declarator) : kind = declarator.keyword := by
  cases kind <;> cases h <;> rfl

/-- The first token of a statement. -/
def Lead.keyword : Lead → TokenKind
  | .forLoop => .kwFor
  | .ifElse => .kwIf
  | .print => .kwPrint
  | .returnStmt => .kwReturn
  | .whileLoop => .kwWhile
  | .block => .leftBrace

theorem Lead.kind_of_ofKind? {kind : TokenKind} {lead : Lead}
    (h : Lead.ofKind? kind = some lead) : kind = lead.keyword := by
  cases kind <;> cases h <;> rfl

/-- A word for a constant is a simple expression. -/
theorem derives_constant {t : Token} {value : Constant}
    (h : Opening.ofKind? t.kind = some (.constant value)) :
    Derives .primary [t] (.literal value) := by
  cases hkind : t.kind <;> rw [hkind] at h <;> cases h
  · exact .falseValue hkind
  · exact .nilValue hkind
  · exact .trueValue hkind

/-! ## Targets of assignments -/

/-- What can be assigned to, and what the assignment is. -/
theorem assignment?_eq_some {target value e : Expr} (h : assignment? target value = some e) :
    (∃ name, target = .variable name ∧ e = .assign name value) ∨
      ∃ object name, target = .get object name ∧ e = .set object name value := by
  unfold assignment? at h
  split at h
  · rename_i name
    cases h
    exact .inl ⟨name, rfl, rfl⟩
  · rename_i object name
    cases h
    exact .inr ⟨object, name, rfl, rfl⟩
  · cases h

/-- What the phrase of an expression is, if the expression can be assigned to. -/
def TargetPhrase (w : List Token) : Expr → Prop
  | .variable name => w = [name] ∧ name.kind = .identifier
  | .get object name =>
    ∃ u dot, w = u ++ [dot, name] ∧ dot.kind = .dot ∧ name.kind = .identifier ∧
      Derives .call u object
  | _ => True

/-- The same for the phrases that an equals sign may stand behind. -/
def Symbol.Targets : (s : Symbol) → List Token → s.Tree → Prop
  | .primary, w, e => TargetPhrase w e
  | .call, w, e => TargetPhrase w e
  | .unary, w, e => TargetPhrase w e
  | .operand _, w, e => TargetPhrase w e
  | .binary _, w, e => TargetPhrase w e
  | _, _, _ => True

/-- A phrase whose tree can be assigned to is that of a name or of a property. The induction is
on the derivation. -/
theorem Derives.targets {s : Symbol} {w : List Token} {t : s.Tree} (h : Derives s w t) :
    s.Targets w t := by
  induction h with
  | name hkind => exact ⟨rfl, hkind⟩
  | get hobject hdot hname => exact ⟨_, _, rfl, hdot, hname, hobject⟩
  | callee _ ih => exact ih
  | unsigned _ ih => exact ih
  | innermost _ ih => exact ih
  | tighter _ _ ih => exact ih
  | single _ ih => exact ih
  | _ => trivial

/-- This is what may stand before an equals sign. -/
theorem Derives.target {w : List Token} {e : Expr} (h : Derives (.binary .or) w e) :
    TargetPhrase w e :=
  h.targets

/-! ## Expressions -/

/-- With this bound, what the readers of expressions take is a phrase. -/
structure ExpressionsSound (fuel : Nat) : Prop where
  expression : ∀ {c ts e ts'}, Takes (expression fuel) c ts e ts' →
    ∃ w, ts = w ++ ts' ∧ Derives .expression w e ∧ e.Proper
  binary : ∀ {c level ts e ts'}, Takes (binary fuel level) c ts e ts' →
    ∃ w, ts = w ++ ts' ∧ Derives (.binary level) w e ∧ e.Proper
  binaryRest : ∀ {c level left ts e ts' u}, Takes (binaryRest fuel level left) c ts e ts' →
    Derives (.binary level) u left → left.Proper →
    ∃ w, ts = w ++ ts' ∧ Derives (.binary level) (u ++ w) e ∧ e.Proper
  operand : ∀ {c level ts e ts'}, Takes (operand fuel level) c ts e ts' →
    ∃ w, ts = w ++ ts' ∧ Derives (.operand level) w e ∧ e.Proper
  unary : ∀ {c ts e ts'}, Takes (unary fuel) c ts e ts' →
    ∃ w, ts = w ++ ts' ∧ Derives .unary w e ∧ e.Proper
  postfixes : ∀ {c left ts e ts' u}, Takes (postfixes fuel left) c ts e ts' →
    Derives .call u left → left.Proper →
    ∃ w, ts = w ++ ts' ∧ Derives .call (u ++ w) e ∧ e.Proper
  argumentList : ∀ {c ts args ts'}, Takes (argumentList fuel) c ts args ts' →
    ∃ w, ts = w ++ ts' ∧ Derives .arguments w args ∧ args.length ≤ maxEntries ∧
      Expr.AllProper args
  arguments : ∀ {c count ts args ts'}, Takes (arguments fuel count) c ts args ts' →
    ∃ w, ts = w ++ ts' ∧ Derives .someArguments w args ∧ count + args.length ≤ maxEntries ∧
      Expr.AllProper args
  primary : ∀ {c ts e ts'}, Takes (primary fuel) c ts e ts' →
    ∃ w, ts = w ++ ts' ∧ Derives .primary w e ∧ e.Proper

namespace ExpressionsSound

variable {fuel : Nat} {c : Cursor} {level : Level} {left e : Expr} {args : List Expr}
  {ts ts' u : List Token}

/-- An assignment is a phrase, as what was made its target was one. -/
theorem expression_succ (ih : ExpressionsSound fuel)
    (h : Takes (Grammar.expression (fuel + 1)) c ts e ts') :
    ∃ w, ts = w ++ ts' ∧ Derives .expression w e ∧ e.Proper := by
  rw [Grammar.expression] at h
  obtain ⟨left, us, hleft, h₁⟩ := takes_bind.mp h
  obtain ⟨u, rfl, hu, hproper⟩ := ih.binary hleft
  obtain ⟨found, vs, hequal, h₂⟩ := takes_bind.mp h₁
  cases found with
  | none =>
    obtain ⟨rfl, -⟩ := takes_takeIf_none.mp hequal
    obtain ⟨rfl, rfl⟩ := takes_pure.mp h₂
    exact ⟨u, rfl, .value hu, hproper⟩
  | some equals =>
    obtain ⟨hkind, rfl⟩ := takes_takeIf_some.mp hequal
    have hequals : equals.kind = .equal := eq_of_beq hkind
    obtain ⟨value, xs, hvalue, h₃⟩ := takes_bind.mp h₂
    obtain ⟨w, rfl, hw, hvalueProper⟩ := ih.expression hvalue
    -- what stands to the left is asked for its phrase, not for its tree alone
    have htarget := hu.target
    cases hassign : assignment? left value with
    | none =>
      rw [hassign] at h₃
      obtain ⟨_, _, hcomplain, -⟩ := takes_bind.mp h₃
      exact absurd hcomplain not_takes_complain
    | some result =>
      rw [hassign] at h₃
      obtain ⟨rfl, rfl⟩ := takes_pure.mp h₃
      rcases assignment?_eq_some hassign with ⟨name, rfl, rfl⟩ | ⟨object, name, rfl, rfl⟩
      · obtain ⟨rfl, hname⟩ := htarget
        exact ⟨name :: equals :: w, rfl, .assign hname hequals hw, hvalueProper⟩
      · obtain ⟨u, dot, rfl, hdot, hname, hobject⟩ := htarget
        refine ⟨u ++ dot :: name :: equals :: w, ?_, ?_, hproper, hvalueProper⟩
        · simp only [List.append_assoc, List.cons_append, List.nil_append]
        · exact .set hobject hdot hname hequals hw

/-- A level is its first operand and what follows. -/
theorem binary_succ (ih : ExpressionsSound fuel)
    (h : Takes (Grammar.binary (fuel + 1) level) c ts e ts') :
    ∃ w, ts = w ++ ts' ∧ Derives (.binary level) w e ∧ e.Proper := by
  rw [Grammar.binary] at h
  obtain ⟨left, us, hleft, h₁⟩ := takes_bind.mp h
  obtain ⟨u, rfl, hu, hproper⟩ := ih.operand hleft
  obtain ⟨w, rfl, hw, hproper'⟩ := ih.binaryRest h₁ (.single hu) hproper
  exact ⟨u ++ w, (List.append_assoc u w ts').symm, hw, hproper'⟩

/-- What was taken so far is a phrase of the level, and stays one with each operator. -/
theorem binaryRest_succ (ih : ExpressionsSound fuel)
    (h : Takes (Grammar.binaryRest (fuel + 1) level left) c ts e ts')
    (hu : Derives (.binary level) u left) (hleft : left.Proper) :
    ∃ w, ts = w ++ ts' ∧ Derives (.binary level) (u ++ w) e ∧ e.Proper := by
  rw [Grammar.binaryRest] at h
  obtain ⟨found, us, hfound, h₁⟩ := takes_bind.mp h
  cases found with
  | none =>
    obtain ⟨rfl, -⟩ := takes_takeIf_none.mp hfound
    obtain ⟨rfl, rfl⟩ := takes_pure.mp h₁
    exact ⟨[], rfl, (List.append_nil u).symm ▸ hu, hleft⟩
  | some op =>
    obtain ⟨hop, rfl⟩ := takes_takeIf_some.mp hfound
    obtain ⟨right, vs, hright, h₂⟩ := takes_bind.mp h₁
    obtain ⟨v, rfl, hv, hproper⟩ := ih.operand hright
    -- the operand is joined to what stands to the left, and the loop goes on
    have hjoined := hu.join (Level.mem_operators.mpr hop) hv
    obtain ⟨w, rfl, hw, hproper'⟩ :=
      ih.binaryRest h₂ hjoined (Level.proper_join hleft hproper)
    refine ⟨op :: (v ++ w), ?_, ?_, hproper'⟩
    · simp only [List.append_assoc, List.cons_append]
    · simpa only [List.append_assoc, List.cons_append] using hw

/-- An operand is a phrase of the tighter level. -/
theorem operand_succ (ih : ExpressionsSound fuel)
    (h : Takes (Grammar.operand (fuel + 1) level) c ts e ts') :
    ∃ w, ts = w ++ ts' ∧ Derives (.operand level) w e ∧ e.Proper := by
  rw [Grammar.operand] at h
  cases htighter : level.tighter? with
  | some level' =>
    rw [htighter] at h
    obtain ⟨w, rfl, hw, hproper⟩ := ih.binary h
    exact ⟨w, rfl, .tighter (Level.mem_order.mpr htighter) hw, hproper⟩
  | none =>
    rw [htighter] at h
    obtain ⟨w, rfl, hw, hproper⟩ := ih.unary h
    -- only below the tightest level there are no operators between operands
    have hlevel : level = .product := by
      cases level <;> first | rfl | cases htighter
    rw [hlevel]
    exact ⟨w, rfl, .innermost hw, hproper⟩

theorem unary_succ (ih : ExpressionsSound fuel)
    (h : Takes (Grammar.unary (fuel + 1)) c ts e ts') :
    ∃ w, ts = w ++ ts' ∧ Derives .unary w e ∧ e.Proper := by
  rw [Grammar.unary] at h
  obtain ⟨found, us, hfound, h₁⟩ := takes_bind.mp h
  cases found with
  | some op =>
    obtain ⟨hop, rfl⟩ := takes_takeIf_some.mp hfound
    obtain ⟨operand, vs, hoperand, h₂⟩ := takes_bind.mp h₁
    obtain ⟨w, rfl, hw, hproper⟩ := ih.unary hoperand
    obtain ⟨rfl, rfl⟩ := takes_pure.mp h₂
    exact ⟨op :: w, rfl, .sign (isSign_iff.mp hop) hw, hproper⟩
  | none =>
    obtain ⟨rfl, -⟩ := takes_takeIf_none.mp hfound
    obtain ⟨callee, vs, hcallee, h₂⟩ := takes_bind.mp h₁
    obtain ⟨u, rfl, hu, hproper⟩ := ih.primary hcallee
    obtain ⟨w, rfl, hw, hproper'⟩ := ih.postfixes h₂ (.callee hu) hproper
    exact ⟨u ++ w, (List.append_assoc u w ts').symm, .unsigned hw, hproper'⟩

/-- What was taken so far is a phrase of calls, and stays one with each postfix. -/
theorem postfixes_succ (ih : ExpressionsSound fuel)
    (h : Takes (Grammar.postfixes (fuel + 1) left) c ts e ts')
    (hu : Derives .call u left) (hleft : left.Proper) :
    ∃ w, ts = w ++ ts' ∧ Derives .call (u ++ w) e ∧ e.Proper := by
  rw [Grammar.postfixes] at h
  obtain ⟨isCall, us, hcall, h₁⟩ := takes_bind.mp h
  cases isCall with
  | true =>
    obtain ⟨l, hl, rfl⟩ := takes_skip_true.mp hcall
    obtain ⟨args, vs, hargs, h₂⟩ := takes_bind.mp h₁
    obtain ⟨v, rfl, hv, hlength, hproper⟩ := ih.argumentList hargs
    obtain ⟨r, xs, hr, rfl, h₃⟩ := takes_bind_expect.mp h₂
    -- the call is what the next one is made to
    have hcalled := Derives.call hu hl hv hr
    obtain ⟨w, rfl, hw, hproper'⟩ := ih.postfixes h₃ hcalled ⟨hleft, hlength, hproper⟩
    refine ⟨l :: (v ++ r :: w), ?_, ?_, hproper'⟩
    · simp only [List.append_assoc, List.cons_append]
    · simpa only [List.append_assoc, List.cons_append, List.nil_append] using hw
  | false =>
    obtain ⟨rfl, -⟩ := takes_skip_false.mp hcall
    obtain ⟨isGet, us, hget, h₂⟩ := takes_bind.mp h₁
    cases isGet with
    | true =>
      obtain ⟨dot, hdot, rfl⟩ := takes_skip_true.mp hget
      obtain ⟨name, vs, hkind, rfl, h₃⟩ := takes_bind_expect.mp h₂
      have hgot := Derives.get hu hdot hkind
      obtain ⟨w, rfl, hw, hproper'⟩ := ih.postfixes h₃ hgot hleft
      refine ⟨dot :: name :: w, rfl, ?_, hproper'⟩
      simpa only [List.append_assoc, List.cons_append, List.nil_append] using hw
    | false =>
      obtain ⟨rfl, -⟩ := takes_skip_false.mp hget
      obtain ⟨rfl, rfl⟩ := takes_pure.mp h₂
      exact ⟨[], rfl, (List.append_nil u).symm ▸ hu, hleft⟩

/-- A list without a complaint keeps the limit. -/
theorem argumentList_succ (ih : ExpressionsSound fuel)
    (h : Takes (Grammar.argumentList (fuel + 1)) c ts args ts') :
    ∃ w, ts = w ++ ts' ∧ Derives .arguments w args ∧ args.length ≤ maxEntries ∧
      Expr.AllProper args := by
  rw [Grammar.argumentList] at h
  obtain ⟨closed, us, hclosed, h₁⟩ := takes_bind.mp h
  obtain ⟨rfl, -⟩ := takes_nextIs.mp hclosed
  cases closed with
  | true =>
    obtain ⟨rfl, rfl⟩ := takes_pure.mp h₁
    exact ⟨[], rfl, .noArguments, Nat.zero_le _, trivial⟩
  | false =>
    obtain ⟨w, rfl, hw, hlength, hproper⟩ := ih.arguments h₁
    exact ⟨w, rfl, .arguments hw, by omega, hproper⟩

/-- It does so counted from those that were there before. -/
theorem arguments_succ (ih : ExpressionsSound fuel) {count : Nat}
    (h : Takes (Grammar.arguments (fuel + 1) count) c ts args ts') :
    ∃ w, ts = w ++ ts' ∧ Derives .someArguments w args ∧ count + args.length ≤ maxEntries ∧
      Expr.AllProper args := by
  rw [Grammar.arguments] at h
  by_cases hcount : count ≥ maxEntries
  · dsimp only at h
    rw [if_pos hcount] at h
    obtain ⟨_, _, hcomplain, -⟩ := takes_bind.mp h
    exact absurd hcomplain not_takes_complainHere
  dsimp only at h
  rw [if_neg hcount] at h
  obtain ⟨arg, us, harg, h₁⟩ := takes_bind.mp h
  obtain ⟨u, rfl, hu, hproper⟩ := ih.expression harg
  obtain ⟨another, vs, hcomma, h₂⟩ := takes_bind.mp h₁
  cases another with
  | true =>
    obtain ⟨comma, hkind, rfl⟩ := takes_skip_true.mp hcomma
    obtain ⟨others, xs, hothers, h₃⟩ := takes_bind.mp h₂
    obtain ⟨rfl, rfl⟩ := takes_pure.mp h₃
    obtain ⟨v, rfl, hv, hlength, hproper'⟩ := ih.arguments hothers
    -- the others have been counted from one more
    refine ⟨u ++ comma :: v, ?_, .argument hu hkind hv, ?_, hproper, hproper'⟩
    · simp only [List.append_assoc, List.cons_append]
    · rw [List.length_cons]
      omega
  | false =>
    obtain ⟨rfl, -⟩ := takes_skip_false.mp hcomma
    obtain ⟨rfl, rfl⟩ := takes_pure.mp h₂
    refine ⟨u, rfl, .lastArgument hu, ?_, hproper, trivial⟩
    rw [List.length_singleton]
    omega

/-- A simple expression is told by the token that it begins with. -/
theorem primary_succ (ih : ExpressionsSound fuel)
    (h : Takes (Grammar.primary (fuel + 1)) c ts e ts') :
    ∃ w, ts = w ++ ts' ∧ Derives .primary w e ∧ e.Proper := by
  rw [Grammar.primary] at h
  obtain ⟨found, us, hliteral, h₁⟩ := takes_bind.mp h
  cases found with
  -- a literal is a phrase by itself, and its value is the token's
  | some literal =>
    obtain ⟨t, hkind, hvalue, rfl⟩ := takes_takeLiteral_some.mp hliteral
    obtain ⟨rfl, rfl⟩ := takes_pure.mp h₁
    exact ⟨[t], rfl, .literal (isLiteral_iff.mp hkind) hvalue, trivial⟩
  | none =>
    obtain ⟨rfl, -⟩ := takes_takeLiteral_none.mp hliteral
    obtain ⟨opening, vs, hopening, h₂⟩ := takes_bind.mp h₁
    -- otherwise it depends on the first token, and without one the reader gives up
    rcases opening with _ | ⟨t, opening⟩
    · exact absurd h₂ not_takes_giveUpHere
    obtain ⟨huse, rfl⟩ := takes_take_some.mp hopening
    cases opening with
    | constant value =>
      obtain ⟨rfl, rfl⟩ := takes_pure.mp h₂
      exact ⟨[t], rfl, derives_constant huse, trivial⟩
    | super =>
      obtain ⟨dot, xs, hdot, rfl, h₃⟩ := takes_bind_expect.mp h₂
      obtain ⟨method, xs, hmethod, rfl, h₄⟩ := takes_bind_expect.mp h₃
      obtain ⟨rfl, rfl⟩ := takes_pure.mp h₄
      exact ⟨[t, dot, method], rfl, .super (Opening.kind_of_ofKind? huse rfl) hdot hmethod, trivial⟩
    | this =>
      obtain ⟨rfl, rfl⟩ := takes_pure.mp h₂
      exact ⟨[t], rfl, .this (Opening.kind_of_ofKind? huse rfl), trivial⟩
    | name =>
      obtain ⟨rfl, rfl⟩ := takes_pure.mp h₂
      exact ⟨[t], rfl, .name (Opening.kind_of_ofKind? huse rfl), trivial⟩
    -- the parentheses enclose an expression, which was read with less fuel
    | group =>
      obtain ⟨inner, xs, hinner, h₃⟩ := takes_bind.mp h₂
      obtain ⟨w, rfl, hw, hproper⟩ := ih.expression hinner
      obtain ⟨r, xs, hr, rfl, h₄⟩ := takes_bind_expect.mp h₃
      obtain ⟨rfl, rfl⟩ := takes_pure.mp h₄
      refine ⟨t :: (w ++ [r]), ?_, .grouping (Opening.kind_of_ofKind? huse rfl) hw hr, hproper⟩
      simp only [List.append_assoc, List.cons_append, List.nil_append]

end ExpressionsSound

/-- Whatever readers of expressions take is a phrase, by induction on the fuel. -/
theorem expressionsSound (fuel : Nat) : ExpressionsSound fuel := by
  induction fuel with
  | zero => constructor <;> intros <;> exact absurd ‹_› not_takes_outOfFuel
  | succ fuel ih =>
    exact
      { expression := ih.expression_succ
        binary := ih.binary_succ
        binaryRest := ih.binaryRest_succ
        operand := ih.operand_succ
        unary := ih.unary_succ
        postfixes := ih.postfixes_succ
        argumentList := ih.argumentList_succ
        arguments := ih.arguments_succ
        primary := ih.primary_succ }

/-! ## Statements without statements inside -/

section Clauses

variable {fuel : Nat} {c : Cursor} {ts ts' : List Token} {stmt : Stmt}

theorem expression_sound {e : Expr} (h : Takes (expression fuel) c ts e ts') :
    ∃ w, ts = w ++ ts' ∧ Derives .expression w e ∧ e.Proper :=
  (expressionsSound fuel).expression h

/-- An expression and the semicolon behind it. -/
theorem expression_semicolon_sound {slot : Slot} {f : Expr → Stmt}
    (h : Takes (do
      let expr ← expression fuel
      let _ ← expect slot
      return f expr) c ts stmt ts') :
    ∃ w e semicolon, ts = w ++ [semicolon] ++ ts' ∧ stmt = f e ∧ semicolon.kind = slot.kind ∧
      Derives .expression w e ∧ e.Proper := by
  obtain ⟨e, us, he, h₁⟩ := takes_bind.mp h
  obtain ⟨w, rfl, hw, hproper⟩ := expression_sound he
  obtain ⟨semicolon, vs, hsemicolon, rfl, h₂⟩ := takes_bind_expect.mp h₁
  obtain ⟨rfl, rfl⟩ := takes_pure.mp h₂
  refine ⟨w, e, semicolon, ?_, rfl, hsemicolon, hw, hproper⟩
  simp only [List.append_assoc, List.cons_append, List.nil_append]

theorem expressionStatement_sound (h : Takes (expressionStatement fuel) c ts stmt ts')
    (inside : Bool) :
    ∃ w, ts = w ++ ts' ∧ Derives .expressionStatement w stmt ∧ stmt.Proper inside := by
  obtain ⟨w, e, semicolon, hts, rfl, hsemicolon, hw, hproper⟩ := expression_semicolon_sound h
  exact ⟨w ++ [semicolon], hts, .expressionStatement hw hsemicolon, hproper⟩

theorem printStatement_sound (h : Takes (printStatement fuel) c ts stmt ts') {keyword : Token}
    (hkeyword : keyword.kind = .kwPrint) (inside : Bool) :
    ∃ w, ts = w ++ ts' ∧ Derives (.statement .complete) (keyword :: w) stmt ∧
      stmt.Proper inside := by
  obtain ⟨w, e, semicolon, hts, rfl, hsemicolon, hw, hproper⟩ := expression_semicolon_sound h
  exact ⟨w ++ [semicolon], hts, .print hkeyword hw hsemicolon, hproper⟩

/-- An expression that may be missing is a phrase, or missing. -/
theorem expressionBefore_sound {kind : TokenKind} {found : Option Expr}
    (h : Takes (expressionBefore fuel kind) c ts found ts') :
    ∃ w, ts = w ++ ts' ∧ Derives .optional w found ∧ ∀ e ∈ found, e.Proper := by
  obtain ⟨absent, us, hat, h₁⟩ := takes_bind.mp h
  obtain ⟨rfl, -⟩ := takes_nextIs.mp hat
  cases absent with
  | true =>
    obtain ⟨rfl, rfl⟩ := takes_pure.mp h₁
    exact ⟨[], rfl, .missing, fun e he => by cases he⟩
  | false =>
    obtain ⟨e, us, he, h₂⟩ := takes_bind.mp h₁
    obtain ⟨w, rfl, hw, hproper⟩ := expression_sound he
    obtain ⟨rfl, rfl⟩ := takes_pure.mp h₂
    refine ⟨w, rfl, .present hw, fun e he => ?_⟩
    cases he
    exact hproper

/-- A `return` that is not complained about stands in a function. -/
theorem returnStatement_sound {keyword : Token}
    (h : Takes (returnStatement fuel keyword) c ts stmt ts')
    (hkeyword : keyword.kind = .kwReturn) :
    ∃ w, ts = w ++ ts' ∧ Derives (.statement .complete) (keyword :: w) stmt ∧
      stmt.Proper (c.depth != 0) := by
  obtain ⟨inside, us, hinside, h₁⟩ := takes_bind.mp h
  obtain ⟨hdepth, rfl⟩ := takes_inFunction.mp hinside
  cases inside with
  | false =>
    -- outside of functions the keyword is complained about
    obtain ⟨_, _, hcomplain, -⟩ := takes_bind.mp h₁
    exact absurd hcomplain not_takes_complain
  | true =>
    obtain ⟨value, us, hvalue, h₂⟩ := takes_bind.mp h₁
    obtain ⟨w, rfl, hw, hproper⟩ := expressionBefore_sound hvalue
    obtain ⟨semicolon, vs, hsemicolon, rfl, h₃⟩ := takes_bind_expect.mp h₂
    obtain ⟨rfl, rfl⟩ := takes_pure.mp h₃
    refine ⟨w ++ [semicolon], ?_, .return hkeyword hw hsemicolon, hdepth.symm, hproper⟩
    simp only [List.append_assoc, List.cons_append, List.nil_append]

theorem initialValue_sound {found : Option Expr}
    (h : Takes (initialValue fuel) c ts found ts') :
    ∃ w, ts = w ++ ts' ∧ Derives .initializer w found ∧ ∀ e ∈ found, e.Proper := by
  obtain ⟨present, us, hequal, h₁⟩ := takes_bind.mp h
  cases present with
  | true =>
    obtain ⟨equals, hkind, rfl⟩ := takes_skip_true.mp hequal
    obtain ⟨e, us, he, h₂⟩ := takes_bind.mp h₁
    obtain ⟨w, rfl, hw, hproper⟩ := expression_sound he
    obtain ⟨rfl, rfl⟩ := takes_pure.mp h₂
    refine ⟨equals :: w, rfl, .initialized hkind hw, fun e he => ?_⟩
    cases he
    exact hproper
  | false =>
    obtain ⟨rfl, -⟩ := takes_skip_false.mp hequal
    obtain ⟨rfl, rfl⟩ := takes_pure.mp h₁
    exact ⟨[], rfl, .uninitialized, fun e he => by cases he⟩

/-- The declaration of a variable is a phrase with its keyword. -/
theorem varDeclaration_sound (h : Takes (varDeclaration fuel) c ts stmt ts') {keyword : Token}
    (hkeyword : keyword.kind = .kwVar) (inside : Bool) :
    ∃ w, ts = w ++ ts' ∧ Derives .varDeclaration (keyword :: w) stmt ∧ stmt.Proper inside := by
  obtain ⟨name, us, hname, rfl, h₁⟩ := takes_bind_expect.mp h
  obtain ⟨value, us, hvalue, h₂⟩ := takes_bind.mp h₁
  obtain ⟨w, rfl, hw, hproper⟩ := initialValue_sound hvalue
  obtain ⟨semicolon, vs, hsemicolon, rfl, h₃⟩ := takes_bind_expect.mp h₂
  obtain ⟨rfl, rfl⟩ := takes_pure.mp h₃
  refine ⟨name :: (w ++ [semicolon]), ?_, .varDeclaration hkeyword hname hw hsemicolon, hproper⟩
  simp only [List.append_assoc, List.cons_append, List.nil_append]

/-- A first clause is one of its three phrases. -/
theorem initializerClause_sound {first : Option Stmt}
    (h : Takes (initializerClause fuel) c ts first ts') (inside : Bool) :
    ∃ w, ts = w ++ ts' ∧ Derives .firstClause w first ∧ ∀ stmt ∈ first, stmt.Proper inside := by
  obtain ⟨none', us, hnone, h₁⟩ := takes_bind.mp h
  cases none' with
  | true =>
    obtain ⟨semicolon, hsemicolon, rfl⟩ := takes_skip_true.mp hnone
    obtain ⟨rfl, rfl⟩ := takes_pure.mp h₁
    exact ⟨[semicolon], rfl, .noClause hsemicolon, fun stmt hstmt => by cases hstmt⟩
  | false =>
    obtain ⟨rfl, -⟩ := takes_skip_false.mp hnone
    obtain ⟨isVar, us, hvar, h₂⟩ := takes_bind.mp h₁
    cases isVar with
    | true =>
      obtain ⟨keyword, hkeyword, rfl⟩ := takes_skip_true.mp hvar
      obtain ⟨stmt, us, hstmt, h₃⟩ := takes_bind.mp h₂
      obtain ⟨w, rfl, hw, hproper⟩ := varDeclaration_sound hstmt hkeyword inside
      obtain ⟨rfl, rfl⟩ := takes_pure.mp h₃
      refine ⟨keyword :: w, rfl, .varClause hw, fun stmt hmem => ?_⟩
      cases hmem
      exact hproper
    | false =>
      obtain ⟨rfl, -⟩ := takes_skip_false.mp hvar
      obtain ⟨stmt, us, hstmt, h₃⟩ := takes_bind.mp h₂
      obtain ⟨w, rfl, hw, hproper⟩ := expressionStatement_sound hstmt inside
      obtain ⟨rfl, rfl⟩ := takes_pure.mp h₃
      refine ⟨w, rfl, .expressionClause hw, fun stmt hmem => ?_⟩
      cases hmem
      exact hproper

/-- Parameters are names between commas, and keep the limit. -/
theorem parameters_sound {count : Nat} {params : List Token}
    (h : Takes (parameters fuel count) c ts params ts') :
    ∃ w, ts = w ++ ts' ∧ Derives .someParameters w params ∧
      count + params.length ≤ maxEntries := by
  induction fuel generalizing count ts params with
  | zero => exact absurd h not_takes_outOfFuel
  | succ fuel ih =>
    rw [parameters] at h
    dsimp only at h
    by_cases hcount : count ≥ maxEntries
    · rw [if_pos hcount] at h
      obtain ⟨_, _, hcomplain, -⟩ := takes_bind.mp h
      exact absurd hcomplain not_takes_complainHere
    rw [if_neg hcount] at h
    obtain ⟨name, us, hname, rfl, h₁⟩ := takes_bind_expect.mp h
    obtain ⟨another, vs, hcomma, h₂⟩ := takes_bind.mp h₁
    cases another with
    | true =>
      obtain ⟨comma, hkind, rfl⟩ := takes_skip_true.mp hcomma
      obtain ⟨others, xs, hothers, h₃⟩ := takes_bind.mp h₂
      obtain ⟨rfl, rfl⟩ := takes_pure.mp h₃
      obtain ⟨w, rfl, hw, hlength⟩ := ih hothers
      refine ⟨name :: comma :: w, rfl, .parameter hname hkind hw, ?_⟩
      rw [List.length_cons]
      omega
    | false =>
      obtain ⟨rfl, -⟩ := takes_skip_false.mp hcomma
      obtain ⟨rfl, rfl⟩ := takes_pure.mp h₂
      refine ⟨[name], rfl, .lastParameter hname, ?_⟩
      rw [List.length_singleton]
      omega

/-- So they do between parentheses, where there may be none. -/
theorem parameterList_sound {params : List Token}
    (h : Takes (parameterList fuel) c ts params ts') :
    ∃ w, ts = w ++ ts' ∧ Derives .parameters w params ∧ params.length ≤ maxEntries := by
  obtain ⟨closed, us, hclosed, h₁⟩ := takes_bind.mp h
  obtain ⟨rfl, -⟩ := takes_nextIs.mp hclosed
  cases closed with
  | true =>
    obtain ⟨rfl, rfl⟩ := takes_pure.mp h₁
    exact ⟨[], rfl, .noParameters, Nat.zero_le _⟩
  | false =>
    obtain ⟨w, rfl, hw, hlength⟩ := parameters_sound h₁
    exact ⟨w, rfl, .parameters hw, by omega⟩

/-- A superclass that is not complained about has another name. -/
theorem superclassClause_sound {name : Token} {superclass : Option Expr}
    (h : Takes (superclassClause name) c ts superclass ts') :
    ∃ w, ts = w ++ ts' ∧ Derives .superclass w superclass ∧
      ∀ parent, superclass = some (.variable parent) → parent.lexeme ≠ name.lexeme := by
  obtain ⟨present, us, hless, h₁⟩ := takes_bind.mp h
  cases present with
  | false =>
    obtain ⟨rfl, -⟩ := takes_skip_false.mp hless
    obtain ⟨rfl, rfl⟩ := takes_pure.mp h₁
    exact ⟨[], rfl, .noSuperclass, fun parent heq => by cases heq⟩
  | true =>
    obtain ⟨less, hkind, rfl⟩ := takes_skip_true.mp hless
    obtain ⟨parent, us, hparent, rfl, h₂⟩ := takes_bind_expect.mp h₁
    dsimp only at h₂
    by_cases hself : (parent.lexeme == name.lexeme) = true
    · rw [if_pos hself] at h₂
      obtain ⟨_, _, hcomplain, -⟩ := takes_bind.mp h₂
      exact absurd hcomplain not_takes_complain
    · rw [if_neg hself] at h₂
      obtain ⟨rfl, rfl⟩ := takes_pure.mp h₂
      refine ⟨[less, parent], rfl, .superclass hkind hparent, fun other heq => ?_⟩
      cases heq
      exact fun hname => hself (beq_iff_eq.mpr hname)

end Clauses

/-! ## Statements with statements inside -/

/-- What a reader of a statement has taken, behind a keyword or without one: a
phrase with some ending, and where it could have an `else` it was followed by
none. -/
def StatementTaken (c : Cursor) (before ts : List Token) (stmt : Stmt) (ts' : List Token) :
    Prop :=
  ∃ w ending, ts = w ++ ts' ∧ Derives (.statement ending) (before ++ w) stmt ∧
    stmt.Proper (c.depth != 0) ∧ (ending = .short → ∀ t ∈ ts'.head?, t.kind ≠ .kwElse)

/-- With this bound, what the readers of statements take is a phrase. -/
structure StatementsSound (fuel : Nat) : Prop where
  declaration : ∀ {c ts found ts'}, Takes (declaration fuel) c ts found ts' →
    ∃ stmt w, found = some stmt ∧ ts = w ++ ts' ∧ Derives .declaration w stmt ∧
      stmt.Proper (c.depth != 0)
  strictDeclaration : ∀ {c ts stmt ts'}, Takes (strictDeclaration fuel) c ts stmt ts' →
    ∃ w, ts = w ++ ts' ∧ Derives .declaration w stmt ∧ stmt.Proper (c.depth != 0)
  declarations : ∀ {c ts stmts ts'}, Takes (declarations fuel) c ts stmts ts' →
    ∃ w, ts = w ++ ts' ∧ Derives .declarations w stmts ∧
      Stmt.AllProper (c.depth != 0) stmts
  block : ∀ {c ts body ts'}, Takes (block fuel) c ts body ts' →
    ∃ w r, ts = w ++ r :: ts' ∧ r.kind = .rightBrace ∧ Derives .declarations w body ∧
      Stmt.AllProper (c.depth != 0) body
  callable : ∀ {c sort ts decl ts'}, Takes (callable fuel sort) c ts decl ts' →
    ∃ w, ts = w ++ ts' ∧ Derives .function w decl ∧ decl.Proper
  methods : ∀ {c ts decls ts'}, Takes (methods fuel) c ts decls ts' →
    ∃ w, ts = w ++ ts' ∧ Derives .methods w decls ∧ FunctionDecl.AllProper decls
  classDeclaration : ∀ {c ts stmt ts'}, Takes (classDeclaration fuel) c ts stmt ts' →
    ∀ keyword : Token, keyword.kind = .kwClass →
      ∃ w, ts = w ++ ts' ∧ Derives .declaration (keyword :: w) stmt ∧
        stmt.Proper (c.depth != 0)
  statement : ∀ {c ts stmt ts'}, Takes (statement fuel) c ts stmt ts' →
    StatementTaken c [] ts stmt ts'
  forStatement : ∀ {c ts stmt ts'}, Takes (forStatement fuel) c ts stmt ts' →
    ∀ keyword : Token, keyword.kind = .kwFor → StatementTaken c [keyword] ts stmt ts'
  ifStatement : ∀ {c ts stmt ts'}, Takes (ifStatement fuel) c ts stmt ts' →
    ∀ keyword : Token, keyword.kind = .kwIf → StatementTaken c [keyword] ts stmt ts'
  whileStatement : ∀ {c ts stmt ts'}, Takes (whileStatement fuel) c ts stmt ts' →
    ∀ keyword : Token, keyword.kind = .kwWhile → StatementTaken c [keyword] ts stmt ts'

namespace StatementsSound

variable {fuel : Nat} {c : Cursor} {stmt : Stmt} {stmts : List Stmt} {ts ts' : List Token}

/-- A declaration without a complaint was not given up. -/
theorem declaration_succ (ih : StatementsSound fuel) {found : Option Stmt}
    (h : Takes (Grammar.declaration (fuel + 1)) c ts found ts') :
    ∃ stmt w, found = some stmt ∧ ts = w ++ ts' ∧ Derives .declaration w stmt ∧
      stmt.Proper (c.depth != 0) := by
  rw [Grammar.declaration] at h
  obtain ⟨stmt, rfl, hstmt⟩ := takes_recovering.mp h
  obtain ⟨w, rfl, hw, hproper⟩ := ih.strictDeclaration hstmt
  exact ⟨stmt, w, rfl, rfl, hw, hproper⟩

theorem strictDeclaration_succ (ih : StatementsSound fuel)
    (h : Takes (Grammar.strictDeclaration (fuel + 1)) c ts stmt ts') :
    ∃ w, ts = w ++ ts' ∧ Derives .declaration w stmt ∧ stmt.Proper (c.depth != 0) := by
  rw [Grammar.strictDeclaration] at h
  obtain ⟨found, us, hfound, h₁⟩ := takes_bind.mp h
  rcases found with _ | ⟨keyword, declarator⟩
  · obtain ⟨rfl, -⟩ := takes_take_none.mp hfound
    obtain ⟨w, ending, rfl, hw, hproper, -⟩ := ih.statement h₁
    exact ⟨w, rfl, .statement hw, hproper⟩
  obtain ⟨huse, rfl⟩ := takes_take_some.mp hfound
  cases declarator with
  | classDecl =>
    have hkeyword := Declarator.kind_of_ofKind? huse
    obtain ⟨w, rfl, hw, hproper⟩ := ih.classDeclaration h₁ keyword hkeyword
    exact ⟨keyword :: w, rfl, hw, hproper⟩
  | funDecl =>
    have hkeyword := Declarator.kind_of_ofKind? huse
    obtain ⟨decl, us, hdecl, h₂⟩ := takes_bind.mp h₁
    obtain ⟨w, rfl, hw, hproper⟩ := ih.callable hdecl
    obtain ⟨rfl, rfl⟩ := takes_pure.mp h₂
    exact ⟨keyword :: w, rfl, .functionDeclaration hkeyword hw, hproper⟩
  | varDecl =>
    have hkeyword := Declarator.kind_of_ofKind? huse
    obtain ⟨w, rfl, hw, hproper⟩ := varDeclaration_sound h₁ hkeyword (c.depth != 0)
    exact ⟨keyword :: w, rfl, .variableDeclaration hw, hproper⟩

/-- One round of a loop over declarations, and the loop itself. -/
theorem round (ih : StatementsSound fuel) {rest : TokenReader (List Stmt)}
    (hrest : ∀ {ts stmts ts'}, Takes rest c ts stmts ts' →
      ∃ w, ts = w ++ ts' ∧ Derives .declarations w stmts ∧
        Stmt.AllProper (c.depth != 0) stmts)
    (h : Takes (do
      let stmt ← Grammar.declaration fuel
      return stmt.toList ++ (← rest)) c ts stmts ts') :
    ∃ w, ts = w ++ ts' ∧ Derives .declarations w stmts ∧
      Stmt.AllProper (c.depth != 0) stmts := by
  obtain ⟨found, us, hfound, h₁⟩ := takes_bind.mp h
  obtain ⟨stmt, u, rfl, rfl, hu, hproper⟩ := ih.declaration hfound
  obtain ⟨others, vs, hothers, h₂⟩ := takes_bind.mp h₁
  obtain ⟨v, rfl, hv, hproper'⟩ := hrest hothers
  obtain ⟨rfl, rfl⟩ := takes_pure.mp h₂
  exact ⟨u ++ v, (List.append_assoc u v ts').symm, .declarations hu hv, hproper, hproper'⟩

/-- Declarations in a row are phrases in a row. -/
theorem declarations_succ (ih : StatementsSound fuel)
    (h : Takes (Grammar.declarations (fuel + 1)) c ts stmts ts') :
    ∃ w, ts = w ++ ts' ∧ Derives .declarations w stmts ∧
      Stmt.AllProper (c.depth != 0) stmts := by
  rw [Grammar.declarations] at h
  obtain ⟨another, us, hnext, h₁⟩ := takes_bind.mp h
  obtain ⟨rfl, -⟩ := takes_nextIs.mp hnext
  cases another with
  | true => exact ih.round ih.declarations h₁
  | false =>
    obtain ⟨rfl, rfl⟩ := takes_pure.mp h₁
    exact ⟨[], rfl, .noDeclarations, trivial⟩

/-- A block is its declarations up to the closing brace. -/
theorem block_succ (ih : StatementsSound fuel)
    (h : Takes (Grammar.block (fuel + 1)) c ts stmts ts') :
    ∃ w r, ts = w ++ r :: ts' ∧ r.kind = .rightBrace ∧ Derives .declarations w stmts ∧
      Stmt.AllProper (c.depth != 0) stmts := by
  rw [Grammar.block] at h
  obtain ⟨body, us, hbody, h₁⟩ := takes_bind.mp h
  obtain ⟨w, rfl, hw, hproper⟩ := ih.declarations hbody
  obtain ⟨r, vs, hr, rfl, h₂⟩ := takes_bind_expect.mp h₁
  obtain ⟨rfl, rfl⟩ := takes_pure.mp h₂
  exact ⟨w, r, rfl, hr, hw, hproper⟩

/-- A function is a phrase whose body stands inside of a function. -/
theorem callable_succ (ih : StatementsSound fuel) {sort : Callable} {decl : FunctionDecl}
    (h : Takes (Grammar.callable (fuel + 1) sort) c ts decl ts') :
    ∃ w, ts = w ++ ts' ∧ Derives .function w decl ∧ decl.Proper := by
  rw [Grammar.callable] at h
  obtain ⟨name, us, hname, rfl, h₁⟩ := takes_bind_expect.mp h
  obtain ⟨l, us, hl, rfl, h₂⟩ := takes_bind_expect.mp h₁
  obtain ⟨params, us, hparams, h₃⟩ := takes_bind.mp h₂
  obtain ⟨u, rfl, hu, hlength⟩ := parameterList_sound hparams
  obtain ⟨r, us, hr, rfl, h₄⟩ := takes_bind_expect.mp h₃
  obtain ⟨lb, us, hlb, rfl, h₅⟩ := takes_bind_expect.mp h₄
  obtain ⟨body, us, hblock, h₆⟩ := takes_bind.mp h₅
  obtain ⟨v, rb, rfl, hrb, hv, hproper⟩ := ih.block (takes_insideBody.mp hblock)
  obtain ⟨rfl, rfl⟩ := takes_pure.mp h₆
  refine ⟨name :: l :: (u ++ r :: lb :: (v ++ [rb])), ?_, ?_, hlength, ?_⟩
  · simp only [List.append_assoc, List.cons_append, List.nil_append]
  · exact .function hname hl hu hr hlb hv hrb
  · -- a body is always inside a function
    simpa using hproper

/-- Methods in a row are functions in a row. -/
theorem methods_succ (ih : StatementsSound fuel) {decls : List FunctionDecl}
    (h : Takes (Grammar.methods (fuel + 1)) c ts decls ts') :
    ∃ w, ts = w ++ ts' ∧ Derives .methods w decls ∧ FunctionDecl.AllProper decls := by
  rw [Grammar.methods] at h
  obtain ⟨another, us, hnext, h₁⟩ := takes_bind.mp h
  obtain ⟨rfl, -⟩ := takes_nextIs.mp hnext
  cases another with
  | true =>
    obtain ⟨decl, us, hdecl, h₂⟩ := takes_bind.mp h₁
    obtain ⟨u, rfl, hu, hproper⟩ := ih.callable hdecl
    obtain ⟨others, vs, hothers, h₃⟩ := takes_bind.mp h₂
    obtain ⟨v, rfl, hv, hproper'⟩ := ih.methods hothers
    obtain ⟨rfl, rfl⟩ := takes_pure.mp h₃
    exact ⟨u ++ v, (List.append_assoc u v ts').symm, .method hu hv, hproper, hproper'⟩
  | false =>
    obtain ⟨rfl, rfl⟩ := takes_pure.mp h₁
    exact ⟨[], rfl, .noMethods, trivial⟩

/-- A class without a complaint does not inherit from itself. -/
theorem classDeclaration_succ (ih : StatementsSound fuel)
    (h : Takes (Grammar.classDeclaration (fuel + 1)) c ts stmt ts') (keyword : Token)
    (hkeyword : keyword.kind = .kwClass) :
    ∃ w, ts = w ++ ts' ∧ Derives .declaration (keyword :: w) stmt ∧
      stmt.Proper (c.depth != 0) := by
  rw [Grammar.classDeclaration] at h
  obtain ⟨name, us, hname, rfl, h₁⟩ := takes_bind_expect.mp h
  obtain ⟨superclass, us, hsuper, h₂⟩ := takes_bind.mp h₁
  obtain ⟨u, rfl, hu, hother⟩ := superclassClause_sound hsuper
  obtain ⟨l, us, hl, rfl, h₃⟩ := takes_bind_expect.mp h₂
  obtain ⟨members, us, hmembers, h₄⟩ := takes_bind.mp h₃
  obtain ⟨v, rfl, hv, hproper⟩ := ih.methods hmembers
  obtain ⟨r, us, hr, rfl, h₅⟩ := takes_bind_expect.mp h₄
  obtain ⟨rfl, rfl⟩ := takes_pure.mp h₅
  refine ⟨name :: (u ++ l :: (v ++ [r])), ?_, ?_, hother, hproper⟩
  · simp only [List.append_assoc, List.cons_append, List.nil_append]
  · exact .classDeclaration hkeyword hname hu hl hv hr

/-- A statement is the phrase that its first token leads to. -/
theorem statement_succ (ih : StatementsSound fuel)
    (h : Takes (Grammar.statement (fuel + 1)) c ts stmt ts') :
    StatementTaken c [] ts stmt ts' := by
  rw [Grammar.statement] at h
  obtain ⟨found, us, hfound, h₁⟩ := takes_bind.mp h
  rcases found with _ | ⟨keyword, lead⟩
  · obtain ⟨rfl, -⟩ := takes_take_none.mp hfound
    obtain ⟨w, rfl, hw, hproper⟩ := expressionStatement_sound h₁ (c.depth != 0)
    exact ⟨w, .complete, rfl, .simple hw, hproper, fun hending => by cases hending⟩
  obtain ⟨huse, rfl⟩ := takes_take_some.mp hfound
  -- the keyword has been taken, and what follows has been handed to its own reader
  have hkeyword : StatementTaken c [keyword] us stmt ts' →
      StatementTaken c [] (keyword :: us) stmt ts' := by
    rintro ⟨w, ending, rfl, hw, hproper, helse⟩
    exact ⟨keyword :: w, ending, rfl, hw, hproper, helse⟩
  apply hkeyword
  cases lead with
  | forLoop => exact ih.forStatement h₁ keyword (Lead.kind_of_ofKind? huse)
  | ifElse => exact ih.ifStatement h₁ keyword (Lead.kind_of_ofKind? huse)
  | print =>
    obtain ⟨w, rfl, hw, hproper⟩ :=
      printStatement_sound h₁ (Lead.kind_of_ofKind? huse) (c.depth != 0)
    exact ⟨w, .complete, rfl, hw, hproper, fun hending => by cases hending⟩
  | returnStmt =>
    obtain ⟨w, rfl, hw, hproper⟩ := returnStatement_sound h₁ (Lead.kind_of_ofKind? huse)
    exact ⟨w, .complete, rfl, hw, hproper, fun hending => by cases hending⟩
  | whileLoop => exact ih.whileStatement h₁ keyword (Lead.kind_of_ofKind? huse)
  | block =>
    obtain ⟨body, us, hbody, h₂⟩ := takes_bind.mp h₁
    obtain ⟨w, r, rfl, hr, hw, hproper⟩ := ih.block hbody
    obtain ⟨rfl, rfl⟩ := takes_pure.mp h₂
    refine ⟨w ++ [r], .complete, ?_, ?_, hproper, fun hending => by cases hending⟩
    · simp only [List.append_assoc, List.cons_append, List.nil_append]
    · exact .block (Lead.kind_of_ofKind? huse) hw hr

/-- A loop with clauses is a phrase, and its tree is the one that stands for it. -/
theorem forStatement_succ (ih : StatementsSound fuel)
    (h : Takes (Grammar.forStatement (fuel + 1)) c ts stmt ts') (keyword : Token)
    (hkeyword : keyword.kind = .kwFor) : StatementTaken c [keyword] ts stmt ts' := by
  rw [Grammar.forStatement] at h
  obtain ⟨l, us, hl, rfl, h₁⟩ := takes_bind_expect.mp h
  obtain ⟨first, us, hfirst, h₂⟩ := takes_bind.mp h₁
  obtain ⟨u, rfl, hu, hfirstProper⟩ := initializerClause_sound hfirst (c.depth != 0)
  obtain ⟨condition, us, hcondition, h₃⟩ := takes_bind.mp h₂
  obtain ⟨v, rfl, hv, hconditionProper⟩ := expressionBefore_sound hcondition
  obtain ⟨semicolon, us, hsemicolon, rfl, h₄⟩ := takes_bind_expect.mp h₃
  obtain ⟨increment, us, hincrement, h₅⟩ := takes_bind.mp h₄
  obtain ⟨w, rfl, hw, hincrementProper⟩ := expressionBefore_sound hincrement
  obtain ⟨r, us, hr, rfl, h₆⟩ := takes_bind_expect.mp h₅
  obtain ⟨body, us, hbody, h₇⟩ := takes_bind.mp h₆
  obtain ⟨x, ending, rfl, hx, hbodyProper, helse⟩ := ih.statement hbody
  obtain ⟨rfl, rfl⟩ := takes_pure.mp h₇
  refine ⟨l :: (u ++ (v ++ semicolon :: (w ++ r :: x))), ending, ?_, ?_, ?_, helse⟩
  · simp only [List.append_assoc, List.cons_append]
  · exact .for hkeyword hl hu hv hsemicolon hw hr hx
  · exact Stmt.proper_forLoop.mpr
      ⟨hfirstProper, hconditionProper, hincrementProper, hbodyProper⟩

/-- Without an `else` behind it, a branch alone is a phrase that none may follow. -/
theorem ifStatement_succ (ih : StatementsSound fuel)
    (h : Takes (Grammar.ifStatement (fuel + 1)) c ts stmt ts') (keyword : Token)
    (hkeyword : keyword.kind = .kwIf) : StatementTaken c [keyword] ts stmt ts' := by
  rw [Grammar.ifStatement] at h
  obtain ⟨l, us, hl, rfl, h₁⟩ := takes_bind_expect.mp h
  obtain ⟨condition, us, hcondition, h₂⟩ := takes_bind.mp h₁
  obtain ⟨u, rfl, hu, hconditionProper⟩ := expression_sound hcondition
  obtain ⟨r, us, hr, rfl, h₃⟩ := takes_bind_expect.mp h₂
  obtain ⟨thenBranch, us, hthen, h₄⟩ := takes_bind.mp h₃
  obtain ⟨v, ending, rfl, hv, hthenProper, helse⟩ := ih.statement hthen
  obtain ⟨found, vs, hfound, h₅⟩ := takes_bind.mp h₄
  cases found with
  | false =>
    -- no else stands behind the branch, and none behind the whole
    obtain ⟨rfl, hnone⟩ := takes_skip_false.mp hfound
    obtain ⟨elseBranch, us, hpure, h₆⟩ := takes_bind.mp h₅
    obtain ⟨rfl, rfl⟩ := takes_pure.mp hpure
    obtain ⟨rfl, rfl⟩ := takes_pure.mp h₆
    refine ⟨l :: (u ++ r :: v), .short, ?_, .ifThen hkeyword hl hu hr hv,
      ⟨hconditionProper, hthenProper⟩, fun _ => hnone⟩
    simp only [List.append_assoc, List.cons_append]
  | true =>
    obtain ⟨otherwise, hotherwise, rfl⟩ := takes_skip_true.mp hfound
    -- the branch did not end with an if that the else would belong to
    have hcomplete : ending = .complete := by
      cases ending with
      | complete => rfl
      | short => exact absurd hotherwise (helse rfl otherwise rfl)
    rw [hcomplete] at hv
    obtain ⟨elseBranch, us, hbranch, h₆⟩ := takes_bind.mp h₅
    obtain ⟨branch, us, hbranch, hsome⟩ := takes_bind.mp hbranch
    obtain ⟨w, ending', rfl, hw, hbranchProper, helse'⟩ := ih.statement hbranch
    obtain ⟨rfl, rfl⟩ := takes_pure.mp hsome
    obtain ⟨rfl, rfl⟩ := takes_pure.mp h₆
    refine ⟨l :: (u ++ r :: (v ++ otherwise :: w)), ending', ?_,
      .ifElse hkeyword hl hu hr hv hotherwise hw,
      ⟨hconditionProper, hthenProper, hbranchProper⟩, helse'⟩
    simp only [List.append_assoc, List.cons_append]

/-- A loop ends as its body does. -/
theorem whileStatement_succ (ih : StatementsSound fuel)
    (h : Takes (Grammar.whileStatement (fuel + 1)) c ts stmt ts') (keyword : Token)
    (hkeyword : keyword.kind = .kwWhile) : StatementTaken c [keyword] ts stmt ts' := by
  rw [Grammar.whileStatement] at h
  obtain ⟨l, us, hl, rfl, h₁⟩ := takes_bind_expect.mp h
  obtain ⟨condition, us, hcondition, h₂⟩ := takes_bind.mp h₁
  obtain ⟨u, rfl, hu, hconditionProper⟩ := expression_sound hcondition
  obtain ⟨r, us, hr, rfl, h₃⟩ := takes_bind_expect.mp h₂
  obtain ⟨body, us, hbody, h₄⟩ := takes_bind.mp h₃
  obtain ⟨v, ending, rfl, hv, hbodyProper, helse⟩ := ih.statement hbody
  obtain ⟨rfl, rfl⟩ := takes_pure.mp h₄
  refine ⟨l :: (u ++ r :: v), ending, ?_, .while hkeyword hl hu hr hv,
    ⟨hconditionProper, hbodyProper⟩, helse⟩
  simp only [List.append_assoc, List.cons_append]

end StatementsSound

/-- Whatever readers of statements take is a phrase, by induction on the fuel. -/
theorem statementsSound (fuel : Nat) : StatementsSound fuel := by
  induction fuel with
  | zero => constructor <;> intros <;> exact absurd ‹_› not_takes_outOfFuel
  | succ fuel ih =>
    exact
      { declaration := ih.declaration_succ
        strictDeclaration := ih.strictDeclaration_succ
        declarations := ih.declarations_succ
        block := ih.block_succ
        callable := ih.callable_succ
        methods := ih.methods_succ
        classDeclaration := ih.classDeclaration_succ
        statement := ih.statement_succ
        forStatement := ih.forStatement_succ
        ifStatement := ih.ifStatement_succ
        whileStatement := ih.whileStatement_succ }

/-! ## Programs -/

/-- **Soundness.** A program that is read without a complaint is derived, and the
limits are kept in it. -/
theorem program_sound {fuel : Nat} {c : Cursor} {ts ts' : List Token} {stmts : List Stmt}
    (h : Takes (program fuel) c ts stmts ts') :
    ∃ w, ts = w ++ ts' ∧ Derives .declarations w stmts ∧
      Stmt.AllProper (c.depth != 0) stmts := by
  induction fuel generalizing ts stmts ts' with
  | zero => exact absurd h not_takes_outOfFuel
  | succ fuel ih =>
    rw [program] at h
    obtain ⟨another, us, hnext, h₁⟩ := takes_bind.mp h
    obtain ⟨rfl, -⟩ := takes_nextIs.mp hnext
    cases another with
    | true => exact (statementsSound fuel).round ih h₁
    | false =>
      obtain ⟨rfl, rfl⟩ := takes_pure.mp h₁
      exact ⟨[], rfl, .noDeclarations, trivial⟩

end Lox.Grammar
