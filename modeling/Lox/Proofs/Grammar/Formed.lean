/-
`Lox.Proofs.Grammar.Formed` -- the tokens that trees are made of.

A tree keeps some of the tokens that it was read from, and each of them plays a role
in it: it is a name, an operator, a keyword that a message may point at. Whatever a
list of tokens looks like, mistakes and all, the statements that are read from it
hold none but its tokens, and each of them is of a kind that fits its role. A
superclass is a name besides.

That the tokens come from the list is known of every reader as long as it is known
of the tokens that are left. So the readers are gone through once, and it is said of
each what it yields (`Yields`): trees with any property that goes from the parts of a
tree to the whole (`TreeProperty`). That tokens fit their roles is one of these.
-/
import Lox.Proofs.Grammar.Reader
import Lox.Proofs.Token.Coverage

set_option autoImplicit false

namespace Lox

/-! ## Roles -/

/-- What a token is in a tree. -/
inductive Role where
  /-- The name of a variable, a property, a parameter, a function or a class. -/
  | name
  | sign
  | operator
  /-- An operator that may leave its right side unevaluated. -/
  | connective
  | receiver
  | superclass
  | returning
  /-- The end of a call. -/
  | closing
deriving DecidableEq, Repr

/-- Whether a token of a kind can play the role. -/
def Role.fits : Role → TokenKind → Bool
  | name, kind => kind == .identifier
  | sign, kind => Grammar.isSign kind
  | operator, kind =>
    [Grammar.Level.equality, .comparison, .sum, .product].any fun level => level.has kind
  | connective, kind => [Grammar.Level.or, .and].any fun level => level.has kind
  | receiver, kind => kind == .kwThis
  | superclass, kind => kind == .kwSuper
  | returning, kind => kind == .kwReturn
  | closing, kind => kind == .rightParen

/-! ## Trees whose tokens are in order -/

section Formed

-- what is asked of a token in a role
variable (P : Role → Token → Prop)

mutual

/-- Every token in the expression is as it should be in its role. -/
def Expr.Formed : Expr → Prop
  | .literal _ => True
  | .grouping inner => inner.Formed
  | .unary op operand => P .sign op ∧ operand.Formed
  | .binary left op right => left.Formed ∧ P .operator op ∧ right.Formed
  | .logical left op right => left.Formed ∧ P .connective op ∧ right.Formed
  | .variable name => P .name name
  | .assign name value => P .name name ∧ value.Formed
  | .call callee paren args => callee.Formed ∧ P .closing paren ∧ Expr.AllFormed args
  | .get object name => object.Formed ∧ P .name name
  | .set object name value => object.Formed ∧ P .name name ∧ value.Formed
  | .this keyword => P .receiver keyword
  | .super keyword method => P .superclass keyword ∧ P .name method

def Expr.AllFormed : List Expr → Prop
  | [] => True
  | expr :: rest => expr.Formed ∧ Expr.AllFormed rest

end

mutual

/-- Every token in the statement is as it should be in its role, and superclasses are
names. -/
def Stmt.Formed : Stmt → Prop
  | .expression expr | .print expr => expr.Formed P
  | .varDecl name initializer => P .name name ∧ ∀ expr ∈ initializer, expr.Formed P
  | .block body => Stmt.AllFormed body
  | .ifElse condition thenBranch none => condition.Formed P ∧ thenBranch.Formed
  | .ifElse condition thenBranch (some elseBranch) =>
    condition.Formed P ∧ thenBranch.Formed ∧ elseBranch.Formed
  | .whileLoop condition body => condition.Formed P ∧ body.Formed
  | .funDecl decl => decl.Formed
  | .returnStmt keyword value => P .returning keyword ∧ ∀ expr ∈ value, expr.Formed P
  | .classDecl ⟨name, superclass, methods⟩ =>
    P .name name ∧ (∀ expr ∈ superclass, ∃ parent, expr = .variable parent ∧ P .name parent) ∧
      FunctionDecl.AllFormed methods

def Stmt.AllFormed : List Stmt → Prop
  | [] => True
  | stmt :: rest => stmt.Formed ∧ Stmt.AllFormed rest

def FunctionDecl.Formed : FunctionDecl → Prop
  | ⟨name, params, body⟩ => P .name name ∧ (∀ param ∈ params, P .name param) ∧ Stmt.AllFormed body

def FunctionDecl.AllFormed : List FunctionDecl → Prop
  | [] => True
  | decl :: rest => decl.Formed ∧ FunctionDecl.AllFormed rest

end

variable {P}

/-- Lists of expressions are formed one by one. -/
theorem Expr.allFormed_of_forall {exprs : List Expr} (h : ∀ expr ∈ exprs, expr.Formed P) :
    Expr.AllFormed P exprs := by
  induction exprs with
  | nil => trivial
  | cons expr rest ih =>
    obtain ⟨hexpr, hrest⟩ := List.forall_mem_cons.mp h
    exact ⟨hexpr, ih hrest⟩

theorem Stmt.allFormed_of_forall {stmts : List Stmt} (h : ∀ stmt ∈ stmts, stmt.Formed P) :
    Stmt.AllFormed P stmts := by
  induction stmts with
  | nil => trivial
  | cons stmt rest ih =>
    obtain ⟨hstmt, hrest⟩ := List.forall_mem_cons.mp h
    exact ⟨hstmt, ih hrest⟩

theorem FunctionDecl.allFormed_of_forall {decls : List FunctionDecl}
    (h : ∀ decl ∈ decls, decl.Formed P) : FunctionDecl.AllFormed P decls := by
  induction decls with
  | nil => trivial
  | cons decl rest ih =>
    obtain ⟨hdecl, hrest⟩ := List.forall_mem_cons.mp h
    exact ⟨hdecl, ih hrest⟩

/-- Each statement of a list is formed if the list is. -/
theorem Stmt.AllFormed.of_mem {stmts : List Stmt} {stmt : Stmt} (h : Stmt.AllFormed P stmts)
    (hmem : stmt ∈ stmts) : stmt.Formed P := by
  induction stmts with
  | nil => cases hmem
  | cons first rest ih =>
    rcases List.mem_cons.mp hmem with rfl | hmem
    · exact h.1
    · exact ih h.2 hmem

theorem FunctionDecl.AllFormed.of_mem {decls : List FunctionDecl} {decl : FunctionDecl}
    (h : FunctionDecl.AllFormed P decls) (hmem : decl ∈ decls) : decl.Formed P := by
  induction decls with
  | nil => cases hmem
  | cons first rest ih =>
    rcases List.mem_cons.mp hmem with rfl | hmem
    · exact h.1
    · exact ih h.2 hmem

end Formed

namespace Grammar

/-! ## What a reader yields -/

variable {α β : Type} {P : Token → Prop} {good : α → Prop} {good' : β → Prop}

/-- Where all tokens that are left are of a certain sort, what the reader returns is
good. -/
def Yields (P : Token → Prop) (good : α → Prop) (x : TokenReader α) : Prop :=
  ∀ c a c', (∀ t ∈ c.rest, P t) → x.run c = .ok a c' → good a

namespace Yields

variable {x : TokenReader α} {f : α → TokenReader β}

protected theorem pure {a : α} (ha : good a) : Yields P good (pure a) := by
  intro c a c' _ h
  cases h
  exact ha

/-- What is left behind the first reader was there before it. -/
protected theorem bind (hx : Yields P good x) (hf : ∀ a, good a → Yields P good' (f a)) :
    Yields P good' (x >>= f) := by
  intro c b c'' hc h
  obtain ⟨a, c', hxc, hfc⟩ := TokenReader.run_bind_eq_ok.mp h
  have hrest := (TokenReader.advances hxc).rest
  exact hf a (hx c a c' hc hxc) c' b c'' (fun t ht => hc t (hrest.subset ht)) hfc

/-- A reader that does not matter for what is yielded. -/
theorem skip (hf : ∀ a, Yields P good' (f a)) : Yields P good' (x >>= f) :=
  Yields.bind (fun _ _ _ _ _ => trivial : Yields P (fun _ => True) x) fun a _ => hf a

/-- Without fuel nothing is returned that could be bad. -/
theorem outOfFuel : Yields P good outOfFuel := by
  intro c a c' _ h
  cases h

/-- Nor is it by a reader that gives up. -/
theorem giveUpHere (cause : Cause) (h : cause.isStructural = true) :
    Yields P good (giveUpHere cause h) := by
  intro c a c' _ h
  cases h

/-- What is taken is one of the tokens, and was taken for what it can be used as. -/
theorem take (use : TokenKind → Option α) :
    Yields P (fun found => ∀ t a, found = some (t, a) → P t ∧ use t.kind = some a)
      (take use) := by
  rintro c found c' hc h t a rfl
  obtain ⟨huse, rest, hrest, -⟩ := take_eq_some.mp h
  exact ⟨hc t (hrest ▸ List.mem_cons_self), huse⟩

/-- The token is one of them and passes the test. -/
theorem takeIf (test : TokenKind → Bool) :
    Yields P (fun found => ∀ t ∈ found, P t ∧ test t.kind) (takeIf test) := by
  rintro c found c' hc h t ⟨⟩
  obtain ⟨htest, rest, hrest, -⟩ := takeIf_eq_some.mp h
  exact ⟨hc t (hrest ▸ List.mem_cons_self), htest⟩

/-- The token is one of them, of the kind that was expected. -/
theorem expect (slot : Slot) : Yields P (fun t => P t ∧ t.kind = slot.kind) (expect slot) := by
  intro c t c' hc h
  obtain ⟨hkind, rest, hrest, -⟩ := expect_eq_ok.mp h
  exact ⟨hc t (hrest ▸ List.mem_cons_self), hkind⟩

/-- A literal is the value of one of them. -/
theorem takeLiteral : Yields P
    (fun found => ∀ literal, found = some literal → ∃ t, P t ∧ t.literal = some literal)
    takeLiteral := by
  rintro c found c' hc h literal rfl
  replace h : Step.takeLiteral c = .ok (some literal) c' := h
  unfold Step.takeLiteral at h
  split at h
  · cases h
  · rename_i t rest hrest
    split at h
    · split at h
      · rename_i hliteral
        cases h
        exact ⟨t, hc t (hrest ▸ List.mem_cons_self), hliteral⟩
      · cases h
    · cases h

/-- A declaration that was given up yields nothing. -/
protected theorem recovering (hx : Yields P good x) :
    Yields P (fun found => ∀ a ∈ found, good a) (recovering x) := by
  rintro c found c' hc h a ⟨⟩
  replace h : Step.recovering x.run c = .ok (some a) c' := h
  unfold Step.recovering at h
  cases hrun : x.run c with
  | ok a' c'' =>
    rw [hrun] at h
    cases h
    exact hx c a c' hc hrun
  | error halt c'' =>
    rw [hrun] at h
    cases halt <;> cases h

/-- The body of a function yields what it would yield elsewhere. -/
protected theorem insideBody (hx : Yields P good x) : Yields P good (insideBody x) := by
  intro c a c' hc h
  replace h : Step.insideBody x.run c = .ok a c' := h
  unfold Step.insideBody at h
  cases hrun : x.run { c with depth := c.depth + 1 } with
  | ok a' c'' =>
    rw [hrun] at h
    cases h
    exact hx { c with depth := c.depth + 1 } a c'' hc hrun
  | error halt c'' =>
    rw [hrun] at h
    cases h

end Yields

/-! ## Properties of trees -/

/-- A token of the list that fits its role. -/
def Fitting (P : Token → Prop) (role : Role) (t : Token) : Prop :=
  P t ∧ role.fits t.kind

/-- What holds of both holds of a pair. -/
theorem forall_mem_pair {p : α → Prop} {a b : α} (ha : p a) (hb : p b) : ∀ c ∈ [a, b], p c :=
  List.forall_mem_cons.mpr ⟨ha, List.forall_mem_singleton.mpr hb⟩

theorem forall_mem_none {p : α → Prop} : ∀ a ∈ (none : Option α), p a :=
  fun _ h => by cases h

theorem forall_mem_some {p : α → Prop} {a : α} (ha : p a) : ∀ b ∈ some a, p b := by
  rintro _ ⟨⟩
  exact ha

/-- What holds of what may have been found and of the rest holds of them in a row. -/
theorem forall_mem_toList_append {p : α → Prop} {found : Option α} {rest : List α}
    (hfound : ∀ a ∈ found, p a) (hrest : ∀ a ∈ rest, p a) : ∀ a ∈ found.toList ++ rest, p a :=
  List.forall_mem_append.mpr ⟨fun a ha => hfound a (Option.mem_toList.mp ha), hrest⟩

/-- A token fits a role that its kind can play. -/
theorem Fitting.of_kind {role : Role} {kind : TokenKind} {t : Token}
    (h : P t ∧ t.kind = kind) (hrole : role.fits kind = true) : Fitting P role t :=
  ⟨h.1, h.2.symm ▸ hrole⟩

/-- A property of trees that goes from the parts of a tree to the whole. What is known of the
tokens that are read may be used where a token is put into a tree. -/
structure TreeProperty (P : Token → Prop) where
  expr : Expr → Prop
  stmt : Stmt → Prop
  function : FunctionDecl → Prop
  literal {t : Token} {value : Literal} :
    P t → t.literal = some value → expr (.literal value.toConstant)
  constant {kind : TokenKind} {value : Constant} :
    Opening.ofKind? kind = some (.constant value) → expr (.literal value)
  grouping {inner : Expr} : expr inner → expr (.grouping inner)
  unary {op : Token} {operand : Expr} :
    Fitting P .sign op → expr operand → expr (.unary op operand)
  binary {left right : Expr} {op : Token} :
    expr left → Fitting P .operator op → expr right → expr (.binary left op right)
  logical {left right : Expr} {op : Token} :
    expr left → Fitting P .connective op → expr right → expr (.logical left op right)
  name {name : Token} : Fitting P .name name → expr (.variable name)
  assign {name : Token} {value : Expr} :
    expr (.variable name) → expr value → expr (.assign name value)
  call {callee : Expr} {paren : Token} {args : List Expr} :
    expr callee → Fitting P .closing paren → (∀ arg ∈ args, expr arg) →
    expr (.call callee paren args)
  get {object : Expr} {name : Token} :
    expr object → Fitting P .name name → expr (.get object name)
  set {object value : Expr} {name : Token} :
    expr (.get object name) → expr value → expr (.set object name value)
  this {keyword : Token} : Fitting P .receiver keyword → expr (.this keyword)
  super {keyword method : Token} :
    Fitting P .superclass keyword → Fitting P .name method → expr (.super keyword method)
  expression {value : Expr} : expr value → stmt (.expression value)
  print {value : Expr} : expr value → stmt (.print value)
  varDecl {name : Token} {value : Option Expr} :
    Fitting P .name name → (∀ e ∈ value, expr e) → stmt (.varDecl name value)
  block {body : List Stmt} : (∀ s ∈ body, stmt s) → stmt (.block body)
  ifElse {condition : Expr} {thenBranch : Stmt} {elseBranch : Option Stmt} :
    expr condition → stmt thenBranch → (∀ s ∈ elseBranch, stmt s) →
    stmt (.ifElse condition thenBranch elseBranch)
  whileLoop {condition : Expr} {body : Stmt} :
    expr condition → stmt body → stmt (.whileLoop condition body)
  funDecl {decl : FunctionDecl} : function decl → stmt (.funDecl decl)
  returnStmt {keyword : Token} {value : Option Expr} :
    Fitting P .returning keyword → (∀ e ∈ value, expr e) → stmt (.returnStmt keyword value)
  classDecl {name : Token} {superclass : Option Expr} {methods : List FunctionDecl} :
    Fitting P .name name →
    (∀ e ∈ superclass, ∃ parent, e = .variable parent ∧ Fitting P .name parent) →
    (∀ method ∈ methods, function method) → stmt (.classDecl ⟨name, superclass, methods⟩)
  callable {name : Token} {params : List Token} {body : List Stmt} :
    Fitting P .name name → (∀ param ∈ params, Fitting P .name param) → (∀ s ∈ body, stmt s) →
    function ⟨name, params, body⟩

namespace TreeProperty

variable (K : TreeProperty P)

/-- The property goes to a joined expression, whichever kind of tree its operator makes. -/
theorem join {level : Level} {left right : Expr} {op : Token} (hleft : K.expr left)
    (hop : P op ∧ level.has op.kind) (hright : K.expr right) :
    K.expr (level.join left op right) := by
  obtain ⟨hop, hlevel⟩ := hop
  cases level with
  | or | and => exact K.logical hleft ⟨hop, by simp [Role.fits, hlevel]⟩ hright
  | equality | comparison | sum | product =>
    exact K.binary hleft ⟨hop, by simp [Role.fits, hlevel]⟩ hright

/-- It goes to an assignment, as a target has the parts of what it was read as. -/
theorem assignment {target value result : Expr} (h : assignment? target value = some result)
    (htarget : K.expr target) (hvalue : K.expr value) : K.expr result := by
  unfold assignment? at h
  split at h
  · cases h
    exact K.assign htarget hvalue
  · cases h
    exact K.set htarget hvalue
  · cases h

/-- A loop with clauses is made of nothing but its clauses and its body. -/
theorem forLoop {initializer : Option Stmt} {condition increment : Option Expr} {body : Stmt}
    (hinitializer : ∀ stmt ∈ initializer, K.stmt stmt)
    (hcondition : ∀ expr ∈ condition, K.expr expr)
    (hincrement : ∀ expr ∈ increment, K.expr expr) (hbody : K.stmt body) :
    K.stmt (Stmt.forLoop initializer condition increment body) := by
  have htest : K.expr (condition.getD (.literal (.bool true))) := by
    cases condition with
    | none =>
      exact K.constant (show Opening.ofKind? .kwTrue = some (.constant (.bool true)) from rfl)
    | some expr => exact hcondition expr rfl
  -- an increment makes the body a block, and a first clause the loop
  cases increment with
  | none =>
    have hloop := K.whileLoop htest hbody
    cases initializer with
    | none => exact hloop
    | some first => exact K.block (forall_mem_pair (hinitializer first rfl) hloop)
  | some step =>
    have hround := K.block (forall_mem_pair hbody (K.expression (hincrement step rfl)))
    have hloop := K.whileLoop htest hround
    cases initializer with
    | none => exact hloop
    | some first => exact K.block (forall_mem_pair (hinitializer first rfl) hloop)

end TreeProperty

/-! ## Expressions -/

variable {K : TreeProperty P}

/-- With this bound, the readers of expressions yield ones with the property. -/
structure YieldsExpressions (K : TreeProperty P) (fuel : Nat) : Prop where
  expression : Yields P K.expr (expression fuel)
  binary : ∀ level, Yields P K.expr (binary fuel level)
  binaryRest : ∀ level left, K.expr left →
    Yields P K.expr (binaryRest fuel level left)
  operand : ∀ level, Yields P K.expr (operand fuel level)
  unary : Yields P K.expr (unary fuel)
  postfixes : ∀ left, K.expr left →
    Yields P K.expr (postfixes fuel left)
  argumentList : Yields P (fun args => ∀ arg ∈ args, K.expr arg) (argumentList fuel)
  arguments : ∀ count, Yields P (fun args => ∀ arg ∈ args, K.expr arg) (arguments fuel count)
  primary : Yields P K.expr (primary fuel)

namespace YieldsExpressions

variable {fuel : Nat} (ih : YieldsExpressions K fuel)
include ih

/-- An expression is an assignment, or what stands before the equals sign would be. -/
theorem expression_succ :
    Yields P K.expr (Grammar.expression (fuel + 1)) := by
  refine (ih.binary .or).bind fun left hleft => .skip fun found => ?_
  cases found with
  | none => exact .pure hleft
  | some equals =>
    refine ih.expression.bind fun value hvalue => ?_
    cases hassign : assignment? left value with
    | some result => exact .pure (K.assignment hassign hleft hvalue)
    | none => exact .skip fun _ => .pure hleft

theorem binary_succ (level : Level) :
    Yields P K.expr (Grammar.binary (fuel + 1) level) :=
  (ih.operand level).bind (ih.binaryRest level)

/-- Joining from the left keeps the property of what was joined so far. -/
theorem binaryRest_succ (level : Level) (left : Expr) (hleft : K.expr left) :
    Yields P K.expr (Grammar.binaryRest (fuel + 1) level left) := by
  refine (Yields.takeIf _).bind fun found hfound => ?_
  cases found with
  | none => exact .pure hleft
  | some op =>
    refine (ih.operand level).bind fun right hright => ?_
    exact ih.binaryRest level _ (K.join hleft (hfound op rfl) hright)

theorem operand_succ (level : Level) :
    Yields P K.expr (Grammar.operand (fuel + 1) level) := by
  unfold Grammar.operand
  cases level.tighter? with
  | some level => exact ih.binary level
  | none => exact ih.unary

theorem unary_succ : Yields P K.expr (Grammar.unary (fuel + 1)) := by
  refine (Yields.takeIf _).bind fun found hfound => ?_
  cases found with
  | none => exact ih.primary.bind ih.postfixes
  | some op => exact ih.unary.bind fun operand hoperand => .pure (K.unary (hfound op rfl) hoperand)

/-- So does going on with calls and property accesses. -/
theorem postfixes_succ (left : Expr) (hleft : K.expr left) :
    Yields P K.expr (Grammar.postfixes (fuel + 1) left) := by
  refine .skip fun isCall => ?_
  cases isCall with
  | true =>
    refine ih.argumentList.bind fun args hargs => ?_
    refine (Yields.expect .argumentsClose).bind fun paren hparen => ?_
    exact ih.postfixes _ (K.call hleft (.of_kind hparen rfl) hargs)
  | false =>
    refine .skip fun isGet => ?_
    cases isGet with
    | true =>
      refine (Yields.expect .propertyName).bind fun name hname => ?_
      exact ih.postfixes _ (K.get hleft (.of_kind hname rfl))
    | false => exact .pure hleft

theorem argumentList_succ :
    Yields P (fun args => ∀ arg ∈ args, K.expr arg) (Grammar.argumentList (fuel + 1)) := by
  refine .skip fun closed => ?_
  cases closed with
  | true => exact .pure (List.forall_mem_nil _)
  | false => exact ih.arguments 0

/-- Each argument has the property, however many there are. -/
theorem arguments_succ (count : Nat) :
    Yields P (fun args => ∀ arg ∈ args, K.expr arg) (Grammar.arguments (fuel + 1) count) := by
  have hrest : Yields P (fun args => ∀ arg ∈ args, K.expr arg) (do
      let arg ← Grammar.expression fuel
      if ← skip? .comma then return arg :: (← Grammar.arguments fuel (count + 1))
      else return [arg]) := by
    refine ih.expression.bind fun arg harg => .skip fun another => ?_
    cases another with
    | true =>
      exact (ih.arguments (count + 1)).bind fun rest hrest =>
        .pure (List.forall_mem_cons.mpr ⟨harg, hrest⟩)
    | false => exact .pure (List.forall_mem_singleton.mpr harg)
  unfold Grammar.arguments
  split
  · exact .skip fun _ => hrest
  · exact hrest

/-- A simple expression has it by the token that it begins with. -/
theorem primary_succ : Yields P K.expr (Grammar.primary (fuel + 1)) := by
  refine Yields.takeLiteral.bind fun literal hliteral => ?_
  cases literal with
  | some literal =>
    obtain ⟨t, ht, hvalue⟩ := hliteral literal rfl
    exact .pure (K.literal ht hvalue)
  | none =>
    refine (Yields.take _).bind fun found hfound => ?_
    rcases found with _ | ⟨t, opening⟩
    · exact .giveUpHere _ _
    obtain ⟨ht, huse⟩ := hfound t opening rfl
    cases opening with
    | constant value => exact .pure (K.constant huse)
    | super =>
      refine .skip fun _ => (Yields.expect .superMethod).bind fun method hmethod => ?_
      refine .pure (K.super ⟨ht, ?_⟩ (.of_kind hmethod rfl))
      cases hkind : t.kind <;> rw [hkind] at huse <;> cases huse
      rfl
    | this =>
      refine .pure (K.this ⟨ht, ?_⟩)
      cases hkind : t.kind <;> rw [hkind] at huse <;> cases huse
      rfl
    | name =>
      refine .pure (K.name ⟨ht, ?_⟩)
      cases hkind : t.kind <;> rw [hkind] at huse <;> cases huse
      rfl
    | group =>
      exact ih.expression.bind fun inner hinner => .skip fun _ => .pure (K.grouping hinner)

end YieldsExpressions

/-- Whatever the property is, expressions that were read have it. The induction is on the fuel.
-/
theorem yieldsExpressions (K : TreeProperty P) (fuel : Nat) : YieldsExpressions K fuel := by
  induction fuel with
  | zero => constructor <;> intros <;> exact .outOfFuel
  | succ fuel ih =>
    exact
      { expression := ih.expression_succ
        binary := ih.binary_succ
        binaryRest := ih.binaryRest_succ
        operand := ih.operand_succ
        unary := ih.unary_succ
        postfixes := ih.postfixes_succ
        argumentList := ih.argumentList_succ
        arguments := ih.arguments_succ
        primary := ih.primary_succ }

/-! ## Statements -/

section Clauses

variable (K) (fuel : Nat)

theorem expressionStatement_yields : Yields P K.stmt (expressionStatement fuel) :=
  (yieldsExpressions K fuel).expression.bind fun _ hexpr =>
    .skip fun _ => .pure (K.expression hexpr)

theorem printStatement_yields : Yields P K.stmt (printStatement fuel) :=
  (yieldsExpressions K fuel).expression.bind fun _ hexpr => .skip fun _ => .pure (K.print hexpr)

/-- An expression that may be missing has the property if it is there. -/
theorem expressionBefore_yields (kind : TokenKind) :
    Yields P (fun value => ∀ expr ∈ value, K.expr expr) (expressionBefore fuel kind) := by
  refine .skip fun missing => ?_
  cases missing with
  | true => exact .pure forall_mem_none
  | false =>
    exact (yieldsExpressions K fuel).expression.bind fun _ hexpr =>
      .pure (forall_mem_some hexpr)

/-- A `return` has it by its keyword and by its value. -/
theorem returnStatement_yields {keyword : Token} (hkeyword : Fitting P .returning keyword) :
    Yields P K.stmt (returnStatement fuel keyword) := by
  have hrest : Yields P K.stmt (do
      let value ← expressionBefore fuel .semicolon
      let _ ← expect .returnEnd
      return .returnStmt keyword value) :=
    (expressionBefore_yields K fuel _).bind fun _ hvalue =>
      .skip fun _ => .pure (K.returnStmt hkeyword hvalue)
  refine .skip fun inside => ?_
  cases inside with
  | true => exact hrest
  | false => exact .skip fun _ => hrest

/-- So has an initial value, which may be missing too. -/
theorem initialValue_yields :
    Yields P (fun value => ∀ expr ∈ value, K.expr expr) (initialValue fuel) := by
  refine .skip fun present => ?_
  cases present with
  | true =>
    exact (yieldsExpressions K fuel).expression.bind fun _ hexpr =>
      .pure (forall_mem_some hexpr)
  | false => exact .pure forall_mem_none

theorem varDeclaration_yields : Yields P K.stmt (varDeclaration fuel) := by
  refine (Yields.expect .variableName).bind fun name hname => ?_
  refine (initialValue_yields K fuel).bind fun value hvalue => .skip fun _ => ?_
  exact .pure (K.varDecl (.of_kind hname rfl) hvalue)

/-- The first clause of a loop has it, whichever kind of statement it is. -/
theorem initializerClause_yields :
    Yields P (fun first => ∀ stmt ∈ first, K.stmt stmt) (initializerClause fuel) := by
  refine .skip fun missing => ?_
  cases missing with
  | true => exact .pure forall_mem_none
  | false =>
    refine .skip fun declares => ?_
    cases declares with
    | true =>
      exact (varDeclaration_yields K fuel).bind fun _ hstmt => .pure (forall_mem_some hstmt)
    | false =>
      exact (expressionStatement_yields K fuel).bind fun _ hstmt => .pure (forall_mem_some hstmt)

omit K in

theorem parameters_yields (count : Nat) :
    Yields P (fun params => ∀ param ∈ params, Fitting P .name param) (parameters fuel count) := by
  induction fuel generalizing count with
  | zero => exact .outOfFuel
  | succ fuel ih =>
    have hrest : Yields P (fun params => ∀ param ∈ params, Fitting P .name param) (do
        let name ← expect .parameterName
        if ← skip? .comma then return name :: (← parameters fuel (count + 1))
        else return [name]) := by
      refine (Yields.expect .parameterName).bind fun name hname => .skip fun another => ?_
      have hname : Fitting P .name name := .of_kind hname rfl
      cases another with
      | true =>
        refine (ih (count + 1)).bind fun rest hrest => .pure ?_
        exact List.forall_mem_cons.mpr ⟨hname, hrest⟩
      | false => exact .pure (List.forall_mem_singleton.mpr hname)
    unfold parameters
    split
    · exact .skip fun _ => hrest
    · exact hrest

omit K in
theorem parameterList_yields :
    Yields P (fun params => ∀ param ∈ params, Fitting P .name param) (parameterList fuel) := by
  refine .skip fun closed => ?_
  cases closed with
  | true => exact .pure (List.forall_mem_nil _)
  | false => exact parameters_yields fuel 0

end Clauses

/-- A superclass is a name, and no other expression. -/
theorem superclassClause_yields (name : Token) :
    Yields P (fun superclass => ∀ expr ∈ superclass,
      ∃ parent, expr = Expr.variable parent ∧ Fitting P .name parent) (superclassClause name) := by
  refine .skip fun inherits => ?_
  cases inherits with
  | true =>
    refine (Yields.expect .superclassName).bind fun parent hparent => ?_
    have hrest : Yields P (fun superclass => ∀ expr ∈ superclass,
        ∃ parent, expr = Expr.variable parent ∧ Fitting P .name parent)
        (pure (some (.variable parent))) :=
      .pure (forall_mem_some ⟨parent, rfl, .of_kind hparent rfl⟩)
    dsimp only
    split
    · exact .skip fun _ => hrest
    · exact hrest
  | false => exact .pure forall_mem_none

/-- With this bound, the readers of statements yield ones with the property. -/
structure YieldsStatements (K : TreeProperty P) (fuel : Nat) : Prop where
  declaration :
    Yields P (fun found => ∀ stmt ∈ found, K.stmt stmt) (declaration fuel)
  strictDeclaration : Yields P K.stmt (strictDeclaration fuel)
  declarations : Yields P (fun stmts => ∀ stmt ∈ stmts, K.stmt stmt) (declarations fuel)
  block : Yields P (fun stmts => ∀ stmt ∈ stmts, K.stmt stmt) (block fuel)
  callable : ∀ sort, Yields P K.function (callable fuel sort)
  methods : Yields P (fun methods => ∀ method ∈ methods, K.function method) (methods fuel)
  classDeclaration : Yields P K.stmt (classDeclaration fuel)
  statement : Yields P K.stmt (statement fuel)
  forStatement : Yields P K.stmt (forStatement fuel)
  ifStatement : Yields P K.stmt (ifStatement fuel)
  whileStatement : Yields P K.stmt (whileStatement fuel)

namespace YieldsStatements

variable {fuel : Nat} (ih : YieldsStatements K fuel)
include ih

/-- A declaration that was given up yields nothing, so there is nothing to be shown. -/
theorem declaration_succ : Yields P (fun found => ∀ stmt ∈ found, K.stmt stmt)
    (Grammar.declaration (fuel + 1)) :=
  ih.strictDeclaration.recovering

theorem strictDeclaration_succ :
    Yields P K.stmt (Grammar.strictDeclaration (fuel + 1)) := by
  refine .skip fun found => ?_
  rcases found with _ | ⟨keyword, declarator⟩
  · exact ih.statement
  cases declarator with
  | classDecl => exact ih.classDeclaration
  | funDecl => exact (ih.callable .function).bind fun _ hdecl => .pure (K.funDecl hdecl)
  | varDecl => exact varDeclaration_yields K fuel

theorem declarations_succ :
    Yields P (fun stmts => ∀ stmt ∈ stmts, K.stmt stmt) (Grammar.declarations (fuel + 1)) := by
  refine .skip fun more => ?_
  cases more with
  | true =>
    refine ih.declaration.bind fun found hfound => ih.declarations.bind fun rest hrest => ?_
    exact .pure (forall_mem_toList_append hfound hrest)
  | false => exact .pure (List.forall_mem_nil _)

theorem block_succ : Yields P (fun stmts => ∀ stmt ∈ stmts, K.stmt stmt) (Grammar.block (fuel + 1)) :=
  ih.declarations.bind fun _ hbody => .skip fun _ => .pure hbody

/-- A function has the property by its name, its parameters and its body. -/
theorem callable_succ (sort : Callable) :
    Yields P K.function (Grammar.callable (fuel + 1) sort) := by
  refine (Yields.expect _).bind fun name hname => .skip fun _ => ?_
  refine (parameterList_yields fuel).bind fun params hparams => .skip fun _ => .skip fun _ => ?_
  exact ih.block.insideBody.bind fun body hbody =>
    .pure (K.callable (.of_kind hname rfl) hparams hbody)

theorem methods_succ :
    Yields P (fun methods => ∀ method ∈ methods, K.function method) (Grammar.methods (fuel + 1)) := by
  refine .skip fun more => ?_
  cases more with
  | true =>
    exact (ih.callable .method).bind fun _ hmethod =>
      ih.methods.bind fun _ hrest =>
        .pure (List.forall_mem_cons.mpr ⟨hmethod, hrest⟩)
  | false => exact .pure (List.forall_mem_nil _)

theorem classDeclaration_succ :
    Yields P K.stmt (Grammar.classDeclaration (fuel + 1)) := by
  refine (Yields.expect .className).bind fun name hname => ?_
  refine (superclassClause_yields name).bind fun superclass hsuperclass => .skip fun _ => ?_
  refine ih.methods.bind fun members hmembers => .skip fun _ => ?_
  exact .pure (K.classDecl (.of_kind hname rfl) hsuperclass hmembers)

/-- A statement has it by its first token, which tells the kind. -/
theorem statement_succ : Yields P K.stmt (Grammar.statement (fuel + 1)) := by
  refine (Yields.take _).bind fun found hfound => ?_
  rcases found with _ | ⟨keyword, lead⟩
  · exact expressionStatement_yields K fuel
  cases lead with
  | forLoop => exact ih.forStatement
  | ifElse => exact ih.ifStatement
  | print => exact printStatement_yields K fuel
  | returnStmt =>
    obtain ⟨ht, huse⟩ := hfound keyword _ rfl
    refine returnStatement_yields K fuel ⟨ht, ?_⟩
    cases hkind : keyword.kind <;> rw [hkind] at huse <;> cases huse
    rfl
  | whileLoop => exact ih.whileStatement
  | block => exact ih.block.bind fun _ hbody => .pure (K.block hbody)

theorem forStatement_succ :
    Yields P K.stmt (Grammar.forStatement (fuel + 1)) := by
  refine .skip fun _ => (initializerClause_yields K fuel).bind fun first hfirst => ?_
  refine (expressionBefore_yields K fuel _).bind fun condition hcondition => .skip fun _ => ?_
  refine (expressionBefore_yields K fuel _).bind fun increment hincrement => .skip fun _ => ?_
  exact ih.statement.bind fun body hbody =>
    .pure (K.forLoop hfirst hcondition hincrement hbody)

theorem ifStatement_succ :
    Yields P K.stmt (Grammar.ifStatement (fuel + 1)) := by
  refine .skip fun _ => (yieldsExpressions K fuel).expression.bind fun condition hcondition => ?_
  refine .skip fun _ => ih.statement.bind fun thenBranch hthen => .skip fun otherwise => ?_
  cases otherwise with
  | true =>
    have helse : Yields P (fun branch => ∃ stmt, branch = some stmt ∧ K.stmt stmt)
        (some <$> Grammar.statement fuel) :=
      ih.statement.bind fun stmt hstmt => .pure ⟨stmt, rfl, hstmt⟩
    refine helse.bind ?_
    rintro _ ⟨elseBranch, rfl, hbranch⟩
    exact .pure (K.ifElse hcondition hthen (forall_mem_some hbranch))
  | false =>
    have hnone : Yields P (· = (none : Option Stmt)) (pure none) := .pure rfl
    refine hnone.bind ?_
    rintro _ rfl
    exact .pure (K.ifElse hcondition hthen forall_mem_none)

theorem whileStatement_succ :
    Yields P K.stmt (Grammar.whileStatement (fuel + 1)) := by
  refine .skip fun _ => (yieldsExpressions K fuel).expression.bind fun condition hcondition => ?_
  exact .skip fun _ => ih.statement.bind fun body hbody =>
    .pure (K.whileLoop hcondition hbody)

end YieldsStatements

/-- Statements that were read have the property, by induction on the fuel. -/
theorem yieldsStatements (K : TreeProperty P) (fuel : Nat) : YieldsStatements K fuel := by
  induction fuel with
  | zero => constructor <;> intros <;> exact .outOfFuel
  | succ fuel ih =>
    exact
      { declaration := ih.declaration_succ
        strictDeclaration := ih.strictDeclaration_succ
        declarations := ih.declarations_succ
        block := ih.block_succ
        callable := ih.callable_succ
        methods := ih.methods_succ
        classDeclaration := ih.classDeclaration_succ
        statement := ih.statement_succ
        forStatement := ih.forStatement_succ
        ifStatement := ih.ifStatement_succ
        whileStatement := ih.whileStatement_succ }

/-! ## Programs -/

theorem program_yields (K : TreeProperty P) (fuel : Nat) :
    Yields P (fun stmts => ∀ stmt ∈ stmts, K.stmt stmt) (program fuel) := by
  induction fuel with
  | zero => exact .outOfFuel
  | succ fuel ih =>
    refine .skip fun more => ?_
    cases more with
    | true =>
      refine (yieldsStatements K fuel).declaration.bind fun found hfound => ?_
      refine ih.bind fun rest hrest => ?_
      exact .pure (forall_mem_toList_append hfound hrest)
    | false => exact .pure (List.forall_mem_nil _)

/-- Whatever is wrong with some tokens, the statements that are read from them have the
properties that go from the parts to the whole. -/
theorem TreeProperty.read (K : TreeProperty P) {tokens : List Token} (h : ∀ t ∈ tokens, P t) :
    ∀ stmt ∈ (Grammar.read tokens).program, K.stmt stmt := by
  unfold Grammar.read
  dsimp only
  cases hrun : (program (fuelFor (Cursor.start tokens).rest.length)).run (Cursor.start tokens) with
  | ok stmts c =>
    exact program_yields K _ _ stmts c (fun t ht => h t ((List.takeWhile_sublist _).subset ht)) hrun
  | error halt c => exact List.forall_mem_nil _

/-- That tokens fit their roles is such a property. -/
def TreeProperty.formed (P : Token → Prop) : TreeProperty P where
  expr := Expr.Formed (Fitting P)
  stmt := Stmt.Formed (Fitting P)
  function := FunctionDecl.Formed (Fitting P)
  literal _ _ := trivial
  constant _ := trivial
  grouping hinner := hinner
  unary hop hoperand := ⟨hop, hoperand⟩
  binary hleft hop hright := ⟨hleft, hop, hright⟩
  logical hleft hop hright := ⟨hleft, hop, hright⟩
  name hname := hname
  assign hname hvalue := ⟨hname, hvalue⟩
  call hcallee hparen hargs := ⟨hcallee, hparen, Expr.allFormed_of_forall hargs⟩
  get hobject hname := ⟨hobject, hname⟩
  set hget hvalue := ⟨hget.1, hget.2, hvalue⟩
  this hkeyword := hkeyword
  super hkeyword hmethod := ⟨hkeyword, hmethod⟩
  expression hexpr := hexpr
  print hexpr := hexpr
  varDecl hname hvalue := ⟨hname, hvalue⟩
  block hbody := Stmt.allFormed_of_forall hbody
  ifElse {_ _ elseBranch} hcondition hthen helse := by
    cases elseBranch with
    | none => exact ⟨hcondition, hthen⟩
    | some branch => exact ⟨hcondition, hthen, helse branch rfl⟩
  whileLoop hcondition hbody := ⟨hcondition, hbody⟩
  funDecl hdecl := hdecl
  returnStmt hkeyword hvalue := ⟨hkeyword, hvalue⟩
  classDecl hname hsuperclass hmethods :=
    ⟨hname, hsuperclass, FunctionDecl.allFormed_of_forall hmethods⟩
  callable hname hparams hbody := ⟨hname, hparams, Stmt.allFormed_of_forall hbody⟩

/-- Whatever is wrong with some tokens, the statements that are read from them are made
of them. -/
theorem read_formed {tokens : List Token} (h : ∀ t ∈ tokens, P t) :
    Stmt.AllFormed (Fitting P) (read tokens).program :=
  Stmt.allFormed_of_forall ((TreeProperty.formed P).read h)

end Grammar

/-! ## Texts -/

/-- The token is one of a text. -/
def Token.Scanned (t : Token) : Prop :=
  ∃ source, t ∈ (scan source).tokens

/-- The statements of a text are made of its tokens. -/
theorem Program.ofSource_formed (source : String) :
    Stmt.AllFormed (Grammar.Fitting Token.Scanned) (Program.ofSource source).stmts :=
  Grammar.read_formed fun _ ht => ⟨source, ht⟩

/-- No name in a text is a reserved word. -/
theorem Token.Scanned.not_mem_reserved {t : Token} (h : Grammar.Fitting Token.Scanned .name t)
    (kind : TokenKind) : (t.lexeme, kind) ∉ Lexeme.reserved := by
  obtain ⟨⟨source, hmem⟩, hfits⟩ := h
  have hkind : t.kind = .identifier := by simpa [Role.fits] using hfits
  have hlexeme := lexeme_of_mem_scan hmem (by rw [hkind]; decide)
  rw [hkind] at hlexeme
  have hfree := hlexeme.not_mem_reserved kind
  rwa [String.ofList_toList] at hfree

end Lox
