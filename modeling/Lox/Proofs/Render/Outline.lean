/-
`Lox.Proofs.Render.Outline` -- the text of a tree is the text of a nesting.

Every node of a tree is written as its parts in parentheses, and every name, operator and
constant as one word. Which words these are, and how they are nested, is the outline of the
tree. The text of a tree is the text of its outline (`Stmt.chars_render`), so that all that
is left to say about the text is said about words and nodes.
-/
import Lox.Proofs.Render.Nested
import Lox.Tree.Render

set_option autoImplicit false

namespace Lox

/-- A text as one word. -/
def Nested.ofText (text : String) : Nested :=
  .word text.toList

/-! ## Outlines -/

mutual

/-- The words of an expression, nested as they are written. -/
def Expr.outline : Expr → Nested
  | .literal value => .ofText value.render
  | .grouping inner => .node [.ofText "group", inner.outline]
  | .unary op operand => .node [.ofText op.lexeme, operand.outline]
  | .binary left op right => .node [.ofText op.lexeme, left.outline, right.outline]
  | .logical left op right => .node [.ofText op.lexeme, left.outline, right.outline]
  | .variable name => .ofText name.lexeme
  | .assign name value => .node [.ofText "=", .ofText name.lexeme, value.outline]
  | .call callee _ args => .node (.ofText "call" :: callee.outline :: Expr.outlines args)
  | .get object name => .node [.ofText ".", object.outline, .ofText name.lexeme]
  | .set object name value =>
    .node [.ofText "=", .node [.ofText ".", object.outline, .ofText name.lexeme], value.outline]
  | .this _ => .ofText "this"
  | .super _ method => .node [.ofText "super", .ofText method.lexeme]

def Expr.outlines : List Expr → List Nested
  | [] => []
  | expr :: rest => expr.outline :: Expr.outlines rest

end

/-- The outline of an expression that may be missing, in the parts of a node. -/
def Expr.outlineOption : Option Expr → List Nested
  | none => []
  | some expr => [expr.outline]

mutual

/-- The words of a statement, nested as they are written. -/
def Stmt.outline : Stmt → Nested
  | .expression expr => .node [.ofText "expr", expr.outline]
  | .print expr => .node [.ofText "print", expr.outline]
  | .varDecl name initializer =>
    .node (.ofText "var" :: .ofText name.lexeme :: Expr.outlineOption initializer)
  | .block body => .node (.ofText "block" :: Stmt.outlines body)
  | .ifElse condition thenBranch none =>
    .node [.ofText "if", condition.outline, thenBranch.outline]
  | .ifElse condition thenBranch (some elseBranch) =>
    .node [.ofText "if", condition.outline, thenBranch.outline, elseBranch.outline]
  | .whileLoop condition body => .node [.ofText "while", condition.outline, body.outline]
  | .funDecl decl => decl.outline
  | .returnStmt _ value => .node (.ofText "return" :: Expr.outlineOption value)
  | .classDecl decl => decl.outline

def Stmt.outlines : List Stmt → List Nested
  | [] => []
  | stmt :: rest => stmt.outline :: Stmt.outlines rest

def FunctionDecl.outline : FunctionDecl → Nested
  | ⟨name, params, body⟩ =>
    .node (.ofText "fun" :: .ofText name.lexeme ::
      .node (params.map fun param => .ofText param.lexeme) :: Stmt.outlines body)

def FunctionDecl.outlines : List FunctionDecl → List Nested
  | [] => []
  | decl :: rest => decl.outline :: FunctionDecl.outlines rest

def ClassDecl.outline : ClassDecl → Nested
  | ⟨name, superclass, methods⟩ =>
    .node (.ofText "class" :: .ofText name.lexeme ::
      ((match superclass with
        | some expr => [.ofText "<", expr.outline]
        | none => []) ++ FunctionDecl.outlines methods))

end

/-! ## Texts -/

namespace Nested

/-- One word is written as it is. -/
@[simp] theorem chars_ofText (text : String) : (ofText text).chars = text.toList := by
  rw [ofText, chars]

/-- Some nestings behind a node's first part. -/
@[simp] theorem chars_node_cons (first : Nested) (rest : List Nested) :
    (node (first :: rest)).chars = '(' :: (first.chars ++ (charsEach rest ++ [')'])) := by
  rw [chars]

@[simp] theorem charsEach_nil : charsEach [] = [] := by
  rw [charsEach]

@[simp] theorem charsEach_cons (part : Nested) (rest : List Nested) :
    charsEach (part :: rest) = ' ' :: (part.chars ++ charsEach rest) := by
  rw [charsEach]

/-- Parts in two lists are written one list after the other. -/
@[simp] theorem charsEach_append (parts rest : List Nested) :
    charsEach (parts ++ rest) = charsEach parts ++ charsEach rest := by
  induction parts with
  | nil => rfl
  | cons part parts ih => simp [ih]

end Nested

mutual

/-- Expressions are written as their outlines. The recursion is that of the tree. -/
theorem Expr.chars_render (expr : Expr) : expr.render.toList = expr.outline.chars := by
  match expr with
  | .literal _ | .variable _ | .this _ | .super _ _ => simp [render, outline]
  | .grouping inner => simp [render, outline, inner.chars_render]
  | .unary _ operand => simp [render, outline, operand.chars_render]
  | .binary left _ right | .logical left _ right =>
    simp [render, outline, left.chars_render, right.chars_render]
  | .assign _ value => simp [render, outline, value.chars_render]
  | .call callee _ args => simp [render, outline, callee.chars_render, chars_renderEach args]
  | .get object _ => simp [render, outline, object.chars_render]
  | .set object _ value => simp [render, outline, object.chars_render, value.chars_render]

theorem Expr.chars_renderEach (exprs : List Expr) :
    (renderEach exprs).toList = Nested.charsEach (outlines exprs) := by
  match exprs with
  | [] => simp [renderEach, outlines]
  | expr :: rest => simp [renderEach, outlines, expr.chars_render, chars_renderEach rest]

end

theorem Expr.chars_renderOption (expr : Option Expr) :
    (renderOption expr).toList = Nested.charsEach (outlineOption expr) := by
  cases expr with
  | none => simp [renderOption, outlineOption]
  | some expr => simp [renderOption, outlineOption, expr.chars_render]

/-- Names with spaces between them are a first one and more behind spaces. -/
theorem Nested.chars_intercalate (name : Token) (rest : List Token) :
    (" ".intercalate ((name :: rest).map Token.lexeme)).toList
      = name.lexeme.toList ++ charsEach (rest.map fun name => ofText name.lexeme) := by
  induction rest generalizing name with
  | nil => simp
  | cons next rest ih =>
    rw [List.map_cons, List.map_cons, String.intercalate_cons_cons, String.toList_append,
      String.toList_append, ← List.map_cons, ih]
    simp

/-- In parentheses they are a node. -/
theorem Nested.chars_names (names : List Token) :
    (node (names.map fun name => ofText name.lexeme)).chars
      = '(' :: ((" ".intercalate (names.map Token.lexeme)).toList ++ [')']) := by
  cases names with
  | nil =>
    rw [List.map_nil, chars]
    rfl
  | cons name rest =>
    rw [chars_intercalate, List.map_cons, chars_node_cons, chars_ofText, List.append_assoc]

mutual

/-- **The text of a tree is the text of its outline.** -/
theorem Stmt.chars_render (stmt : Stmt) : stmt.render.toList = stmt.outline.chars := by
  match stmt with
  | .expression expr | .print expr => simp [Stmt.render, Stmt.outline, expr.chars_render]
  | .varDecl _ initializer => simp [Stmt.render, Stmt.outline, Expr.chars_renderOption initializer]
  | .block body => simp [Stmt.render, Stmt.outline, Stmt.chars_renderEach body]
  | .ifElse condition thenBranch none =>
    simp [Stmt.render, Stmt.outline, condition.chars_render, thenBranch.chars_render]
  | .ifElse condition thenBranch (some elseBranch) =>
    simp [Stmt.render, Stmt.outline, condition.chars_render, thenBranch.chars_render,
      elseBranch.chars_render]
  | .whileLoop condition body =>
    simp [Stmt.render, Stmt.outline, condition.chars_render, body.chars_render]
  | .funDecl decl => simp [Stmt.render, Stmt.outline, decl.chars_render]
  | .returnStmt _ value => simp [Stmt.render, Stmt.outline, Expr.chars_renderOption value]
  | .classDecl ⟨_, none, methods⟩ =>
    simp [Stmt.render, Stmt.outline, ClassDecl.render, ClassDecl.outline,
      FunctionDecl.chars_renderEach methods]
  | .classDecl ⟨_, some expr, methods⟩ =>
    simp [Stmt.render, Stmt.outline, ClassDecl.render, ClassDecl.outline, expr.chars_render,
      FunctionDecl.chars_renderEach methods]

theorem Stmt.chars_renderEach (stmts : List Stmt) :
    (Stmt.renderEach stmts).toList = Nested.charsEach (Stmt.outlines stmts) := by
  match stmts with
  | [] => simp [Stmt.renderEach, Stmt.outlines]
  | stmt :: rest =>
    simp [Stmt.renderEach, Stmt.outlines, stmt.chars_render, Stmt.chars_renderEach rest]

theorem FunctionDecl.chars_render (decl : FunctionDecl) :
    decl.render.toList = decl.outline.chars := by
  match decl with
  | ⟨_, params, body⟩ =>
    simp [FunctionDecl.render, FunctionDecl.outline, Stmt.chars_renderEach body,
      Nested.chars_names params]

theorem FunctionDecl.chars_renderEach (decls : List FunctionDecl) :
    (FunctionDecl.renderEach decls).toList = Nested.charsEach (FunctionDecl.outlines decls) := by
  match decls with
  | [] => simp [FunctionDecl.renderEach, FunctionDecl.outlines]
  | decl :: rest =>
    simp [FunctionDecl.renderEach, FunctionDecl.outlines, decl.chars_render,
      FunctionDecl.chars_renderEach rest]

end

/-- A program is the texts of its statements, each with the end of a line behind it. -/
theorem Stmt.chars_renderProgram_cons (stmt : Stmt) (rest : List Stmt) :
    (renderProgram (stmt :: rest)).toList
      = stmt.outline.chars ++ '\n' :: (renderProgram rest).toList := by
  rw [renderProgram, renderProgram, List.map_cons, String.join_cons, String.toList_append,
    String.toList_append, stmt.chars_render, List.append_assoc]
  rfl

end Lox
