/-
`Lox.Proofs.Grammar.Derivation` -- the grammar of the language, as rules.

A derivation says that a list of tokens is a phrase of some sort, and which tree
that phrase stands for. The rules do not mention the readers: there is no order
in which they are tried, no token of look-ahead and no bound.

The binary operators associate to the left because their rule recurses on the
left, and the signs and assignments to the right because theirs recurse on the
right. An `else` belongs to the nearest `if` because a statement is derived
together with the way it ends: one that ends with an `if` without an `else` is no
branch before an `else`.

What the rules leave open, because it is no matter of how tokens follow one
another, are the limits (`Stmt.Proper`): how many arguments and parameters there
may be, where a `return` may stand, and what a class may inherit from.
-/
import Lox.Grammar.Program

set_option autoImplicit false

namespace Lox

open Grammar

/-! ## Limits -/

mutual

/-- Every call in the expression has at most as many arguments as are allowed. -/
def Expr.Proper : Expr → Prop
  | .literal _ | .variable _ | .this _ | .super _ _ => True
  | .grouping inner => inner.Proper
  | .unary _ operand => operand.Proper
  | .binary left _ right | .logical left _ right => left.Proper ∧ right.Proper
  | .assign _ value => value.Proper
  | .call callee _ args => callee.Proper ∧ args.length ≤ maxEntries ∧ Expr.AllProper args
  | .get object _ => object.Proper
  | .set object _ value => object.Proper ∧ value.Proper

def Expr.AllProper : List Expr → Prop
  | [] => True
  | expr :: rest => expr.Proper ∧ Expr.AllProper rest

end

mutual

/-- The limits are kept in the statement: as many arguments and parameters as are
allowed, `return` only inside functions, and no class below itself. `inside` says
whether the statement stands in the body of a function. -/
def Stmt.Proper (inside : Bool) : Stmt → Prop
  | .expression expr | .print expr => expr.Proper
  | .varDecl _ initializer => ∀ expr ∈ initializer, expr.Proper
  | .block body => Stmt.AllProper inside body
  | .ifElse condition thenBranch none => condition.Proper ∧ thenBranch.Proper inside
  | .ifElse condition thenBranch (some elseBranch) =>
    condition.Proper ∧ thenBranch.Proper inside ∧ elseBranch.Proper inside
  | .whileLoop condition body => condition.Proper ∧ body.Proper inside
  | .funDecl decl => decl.Proper
  | .returnStmt _ value => inside = true ∧ ∀ expr ∈ value, expr.Proper
  | .classDecl decl => decl.Proper

def Stmt.AllProper (inside : Bool) : List Stmt → Prop
  | [] => True
  | stmt :: rest => stmt.Proper inside ∧ Stmt.AllProper inside rest

/-- The body of a function is inside a function, wherever that one stands. -/
def FunctionDecl.Proper : FunctionDecl → Prop
  | ⟨_, params, body⟩ => params.length ≤ maxEntries ∧ Stmt.AllProper true body

def FunctionDecl.AllProper : List FunctionDecl → Prop
  | [] => True
  | decl :: rest => decl.Proper ∧ FunctionDecl.AllProper rest

def ClassDecl.Proper : ClassDecl → Prop
  | ⟨name, superclass, methods⟩ =>
    (∀ parent, superclass = some (.variable parent) → parent.lexeme ≠ name.lexeme) ∧
      FunctionDecl.AllProper methods

end

/-- The limits are kept in a loop with clauses if they are kept in its parts. -/
theorem Stmt.proper_forLoop {inside : Bool} {first : Option Stmt}
    {condition increment : Option Expr} {body : Stmt} :
    (Stmt.forLoop first condition increment body).Proper inside ↔
      (∀ stmt ∈ first, stmt.Proper inside) ∧ (∀ e ∈ condition, e.Proper) ∧
        (∀ e ∈ increment, e.Proper) ∧ body.Proper inside := by
  cases first <;> cases condition <;> cases increment <;>
    simp [Stmt.forLoop, Stmt.Proper, Stmt.AllProper, Expr.Proper, and_comm]

namespace Grammar

/-! ## Phrases -/

/-- How a statement ends: with an `if` that has no `else`, so that an `else`
behind it would belong to that one, or otherwise. -/
inductive Ending where
  | complete
  | short
deriving DecidableEq, Repr

/-- The sorts of phrases. -/
inductive Symbol where
  | primary
  | call
  | unary
  | operand (level : Level)
  | binary (level : Level)
  | expression
  | arguments
  | someArguments
  | optional
  | initializer
  | expressionStatement
  | varDeclaration
  | firstClause
  | statement (ending : Ending)
  | parameters
  | someParameters
  | function
  | methods
  | superclass
  | declaration
  | declarations
deriving DecidableEq, Repr

/-- What a phrase stands for. -/
@[reducible] def Symbol.Tree : Symbol → Type
  | .primary | .call | .unary | .operand _ | .binary _ | .expression => Expr
  | .arguments | .someArguments => List Expr
  | .optional | .initializer | .superclass => Option Expr
  | .expressionStatement | .varDeclaration | .statement _ | .declaration => Stmt
  | .firstClause => Option Stmt
  | .parameters | .someParameters => List Token
  | .function => FunctionDecl
  | .methods => List FunctionDecl
  | .declarations => List Stmt

/-- The operators of a level. -/
def Level.operators : Level → List TokenKind
  | .or => [.kwOr]
  | .and => [.kwAnd]
  | .equality => [.bangEqual, .equalEqual]
  | .comparison => [.greater, .greaterEqual, .less, .lessEqual]
  | .sum => [.minus, .plus]
  | .product => [.slash, .star]

/-- Each level with the one its operands are of. -/
def Level.order : List (Level × Level) :=
  [(.or, .and), (.and, .equality), (.equality, .comparison), (.comparison, .sum),
    (.sum, .product)]

/-! ## Rules -/

/-- `Derives s w t`: the tokens `w` are a phrase of the sort `s`, which stands for
the tree `t`. Every token of the phrase is used once, in its place. -/
inductive Derives : (s : Symbol) → List Token → s.Tree → Prop
  -- primary → NUMBER | STRING | "true" | "false" | "nil" | "this" | IDENT
  --         | "super" "." IDENT | "(" expression ")"
  | literal {t : Token} {value : Literal} :
    t.kind = .number ∨ t.kind = .string → t.literal = some value →
    Derives .primary [t] (.literal value.toConstant)
  | trueValue {t : Token} : t.kind = .kwTrue → Derives .primary [t] (.literal (.bool true))
  | falseValue {t : Token} : t.kind = .kwFalse → Derives .primary [t] (.literal (.bool false))
  | nilValue {t : Token} : t.kind = .kwNil → Derives .primary [t] (.literal .nil)
  | this {t : Token} : t.kind = .kwThis → Derives .primary [t] (.this t)
  | name {t : Token} : t.kind = .identifier → Derives .primary [t] (.variable t)
  | super {t dot method : Token} :
    t.kind = .kwSuper → dot.kind = .dot → method.kind = .identifier →
    Derives .primary [t, dot, method] (.super t method)
  | grouping {l r : Token} {w : List Token} {inner : Expr} :
    l.kind = .leftParen → Derives .expression w inner → r.kind = .rightParen →
    Derives .primary (l :: (w ++ [r])) (.grouping inner)
  -- call → primary ( "(" arguments ")" | "." IDENT )*
  | callee {w : List Token} {e : Expr} : Derives .primary w e → Derives .call w e
  | call {u v : List Token} {callee : Expr} {args : List Expr} {l r : Token} :
    Derives .call u callee → l.kind = .leftParen → Derives .arguments v args →
    r.kind = .rightParen → Derives .call (u ++ l :: (v ++ [r])) (.call callee r args)
  | get {u : List Token} {object : Expr} {dot name : Token} :
    Derives .call u object → dot.kind = .dot → name.kind = .identifier →
    Derives .call (u ++ [dot, name]) (.get object name)
  -- arguments → ( expression ( "," expression )* )?
  | noArguments : Derives .arguments [] []
  | arguments {w : List Token} {args : List Expr} :
    Derives .someArguments w args → Derives .arguments w args
  | lastArgument {w : List Token} {e : Expr} :
    Derives .expression w e → Derives .someArguments w [e]
  | argument {u v : List Token} {e : Expr} {comma : Token} {args : List Expr} :
    Derives .expression u e → comma.kind = .comma → Derives .someArguments v args →
    Derives .someArguments (u ++ comma :: v) (e :: args)
  -- unary → ( "!" | "-" ) unary | call
  | unsigned {w : List Token} {e : Expr} : Derives .call w e → Derives .unary w e
  | sign {op : Token} {w : List Token} {operand : Expr} :
    op.kind = .bang ∨ op.kind = .minus → Derives .unary w operand →
    Derives .unary (op :: w) (.unary op operand)
  -- a level → operand ( operator operand )*, an operand being of the next level
  | innermost {w : List Token} {e : Expr} :
    Derives .unary w e → Derives (.operand .product) w e
  | tighter {level level' : Level} {w : List Token} {e : Expr} :
    (level, level') ∈ Level.order → Derives (.binary level') w e → Derives (.operand level) w e
  | single {level : Level} {w : List Token} {e : Expr} :
    Derives (.operand level) w e → Derives (.binary level) w e
  | connected {level : Level} {u v : List Token} {left right : Expr} {op : Token} :
    level = .or ∨ level = .and → Derives (.binary level) u left →
    op.kind ∈ level.operators → Derives (.operand level) v right →
    Derives (.binary level) (u ++ op :: v) (.logical left op right)
  | joined {level : Level} {u v : List Token} {left right : Expr} {op : Token} :
    level ≠ .or ∧ level ≠ .and → Derives (.binary level) u left →
    op.kind ∈ level.operators → Derives (.operand level) v right →
    Derives (.binary level) (u ++ op :: v) (.binary left op right)
  -- expression → ( call "." )? IDENT "=" expression | the loosest level
  | value {w : List Token} {e : Expr} : Derives (.binary .or) w e → Derives .expression w e
  | assign {name equals : Token} {w : List Token} {e : Expr} :
    name.kind = .identifier → equals.kind = .equal → Derives .expression w e →
    Derives .expression (name :: equals :: w) (.assign name e)
  | set {u w : List Token} {object e : Expr} {dot name equals : Token} :
    Derives .call u object → dot.kind = .dot → name.kind = .identifier →
    equals.kind = .equal → Derives .expression w e →
    Derives .expression (u ++ dot :: name :: equals :: w) (.set object name e)
  -- expression? and ( "=" expression )?
  | missing : Derives .optional [] none
  | present {w : List Token} {e : Expr} : Derives .expression w e → Derives .optional w (some e)
  | uninitialized : Derives .initializer [] none
  | initialized {equals : Token} {w : List Token} {e : Expr} :
    equals.kind = .equal → Derives .expression w e →
    Derives .initializer (equals :: w) (some e)
  -- exprStmt → expression ";" and varDecl → "var" IDENT ( "=" expression )? ";"
  | expressionStatement {w : List Token} {e : Expr} {semicolon : Token} :
    Derives .expression w e → semicolon.kind = .semicolon →
    Derives .expressionStatement (w ++ [semicolon]) (.expression e)
  | varDeclaration {keyword name semicolon : Token} {w : List Token} {init : Option Expr} :
    keyword.kind = .kwVar → name.kind = .identifier → Derives .initializer w init →
    semicolon.kind = .semicolon →
    Derives .varDeclaration (keyword :: name :: (w ++ [semicolon])) (.varDecl name init)
  -- the first clause of a for → varDecl | exprStmt | ";"
  | noClause {semicolon : Token} :
    semicolon.kind = .semicolon → Derives .firstClause [semicolon] none
  | varClause {w : List Token} {stmt : Stmt} :
    Derives .varDeclaration w stmt → Derives .firstClause w (some stmt)
  | expressionClause {w : List Token} {stmt : Stmt} :
    Derives .expressionStatement w stmt → Derives .firstClause w (some stmt)
  -- statement → exprStmt | forStmt | ifStmt | printStmt | returnStmt | whileStmt | block
  | simple {w : List Token} {stmt : Stmt} :
    Derives .expressionStatement w stmt → Derives (.statement .complete) w stmt
  | print {keyword semicolon : Token} {w : List Token} {e : Expr} :
    keyword.kind = .kwPrint → Derives .expression w e → semicolon.kind = .semicolon →
    Derives (.statement .complete) (keyword :: (w ++ [semicolon])) (.print e)
  | return {keyword semicolon : Token} {w : List Token} {value : Option Expr} :
    keyword.kind = .kwReturn → Derives .optional w value → semicolon.kind = .semicolon →
    Derives (.statement .complete) (keyword :: (w ++ [semicolon])) (.returnStmt keyword value)
  | block {l r : Token} {w : List Token} {body : List Stmt} :
    l.kind = .leftBrace → Derives .declarations w body → r.kind = .rightBrace →
    Derives (.statement .complete) (l :: (w ++ [r])) (.block body)
  | while {keyword l r : Token} {u v : List Token} {condition : Expr} {body : Stmt}
      {ending : Ending} :
    keyword.kind = .kwWhile → l.kind = .leftParen → Derives .expression u condition →
    r.kind = .rightParen → Derives (.statement ending) v body →
    Derives (.statement ending) (keyword :: l :: (u ++ r :: v)) (.whileLoop condition body)
  | for {keyword l semicolon r : Token} {u v w x : List Token} {first : Option Stmt}
      {condition increment : Option Expr} {body : Stmt} {ending : Ending} :
    keyword.kind = .kwFor → l.kind = .leftParen → Derives .firstClause u first →
    Derives .optional v condition → semicolon.kind = .semicolon →
    Derives .optional w increment → r.kind = .rightParen → Derives (.statement ending) x body →
    Derives (.statement ending) (keyword :: l :: (u ++ (v ++ semicolon :: (w ++ r :: x))))
      (.forLoop first condition increment body)
  | ifThen {keyword l r : Token} {u v : List Token} {condition : Expr} {thenBranch : Stmt}
      {ending : Ending} :
    keyword.kind = .kwIf → l.kind = .leftParen → Derives .expression u condition →
    r.kind = .rightParen → Derives (.statement ending) v thenBranch →
    Derives (.statement .short) (keyword :: l :: (u ++ r :: v))
      (.ifElse condition thenBranch none)
  | ifElse {keyword l r otherwise : Token} {u v w : List Token} {condition : Expr}
      {thenBranch elseBranch : Stmt} {ending : Ending} :
    keyword.kind = .kwIf → l.kind = .leftParen → Derives .expression u condition →
    r.kind = .rightParen → Derives (.statement .complete) v thenBranch →
    otherwise.kind = .kwElse → Derives (.statement ending) w elseBranch →
    Derives (.statement ending) (keyword :: l :: (u ++ r :: (v ++ otherwise :: w)))
      (.ifElse condition thenBranch (some elseBranch))
  -- function → IDENT "(" ( IDENT ( "," IDENT )* )? ")" "{" declaration* "}"
  | noParameters : Derives .parameters [] []
  | parameters {w : List Token} {params : List Token} :
    Derives .someParameters w params → Derives .parameters w params
  | lastParameter {name : Token} :
    name.kind = .identifier → Derives .someParameters [name] [name]
  | parameter {name comma : Token} {w : List Token} {params : List Token} :
    name.kind = .identifier → comma.kind = .comma → Derives .someParameters w params →
    Derives .someParameters (name :: comma :: w) (name :: params)
  | function {name l r lb rb : Token} {u v : List Token} {params : List Token}
      {body : List Stmt} :
    name.kind = .identifier → l.kind = .leftParen → Derives .parameters u params →
    r.kind = .rightParen → lb.kind = .leftBrace → Derives .declarations v body →
    rb.kind = .rightBrace →
    Derives .function (name :: l :: (u ++ r :: lb :: (v ++ [rb]))) ⟨name, params, body⟩
  | noMethods : Derives .methods [] []
  | method {u v : List Token} {decl : FunctionDecl} {decls : List FunctionDecl} :
    Derives .function u decl → Derives .methods v decls → Derives .methods (u ++ v) (decl :: decls)
  -- declaration → "class" IDENT ( "<" IDENT )? "{" function* "}" | "fun" function
  --             | varDecl | statement
  | noSuperclass : Derives .superclass [] none
  | superclass {less parent : Token} :
    less.kind = .less → parent.kind = .identifier →
    Derives .superclass [less, parent] (some (.variable parent))
  | classDeclaration {keyword name l r : Token} {u v : List Token} {superclass : Option Expr}
      {members : List FunctionDecl} :
    keyword.kind = .kwClass → name.kind = .identifier → Derives .superclass u superclass →
    l.kind = .leftBrace → Derives .methods v members → r.kind = .rightBrace →
    Derives .declaration (keyword :: name :: (u ++ l :: (v ++ [r])))
      (.classDecl ⟨name, superclass, members⟩)
  | functionDeclaration {keyword : Token} {w : List Token} {decl : FunctionDecl} :
    keyword.kind = .kwFun → Derives .function w decl →
    Derives .declaration (keyword :: w) (.funDecl decl)
  | variableDeclaration {w : List Token} {stmt : Stmt} :
    Derives .varDeclaration w stmt → Derives .declaration w stmt
  | statement {w : List Token} {stmt : Stmt} {ending : Ending} :
    Derives (.statement ending) w stmt → Derives .declaration w stmt
  -- program → declaration*
  | noDeclarations : Derives .declarations [] []
  | declarations {u v : List Token} {stmt : Stmt} {stmts : List Stmt} :
    Derives .declaration u stmt → Derives .declarations v stmts →
    Derives .declarations (u ++ v) (stmt :: stmts)

end Grammar

end Lox
