/-
`Lox.Proofs.Render.Unambiguous` -- programs with one text are one program.

The text of a program tells its outline, and the outline tells the tree. Which form an
expression has can be seen from the first of its words and from how many parts follow it:
the words for calls, properties and groups are no operators, a constant does not begin like
a name or is a reserved word, and an assignment to a variable has a word where one to a
property has a node. So two trees with one outline have one form, their parts have one
outline each, and tokens with one text are one word.

The texts can only be the same for trees that were read: a token that was put together by
hand may have any text.
-/
import Lox.Proofs.Render.Legible

set_option autoImplicit false

namespace Lox

open Grammar (Fitting)

/-! ## Words -/

/-- What a word begins with. -/
inductive Initial where
  | quote
  | digit
  | other (c : Char)
deriving DecidableEq

/-- The first character of a word, where all digits are one, and so is a sign. -/
def Initial.of : List Char → Option Initial
  | [] => none
  | c :: _ =>
    some (if c = '"' then quote else if c.isDigit || c == '-' then digit else other c)

/-- What constants of a sort begin with. -/
def Constant.initial : Constant → Initial
  | nil => .other 'n'
  | bool true => .other 't'
  | bool false => .other 'f'
  | number _ => .digit
  | text _ => .quote

/-- The sort of a constant is seen by what it begins with. -/
theorem Constant.initial_render {k : Constant} (h : k.IsFinite) :
    Initial.of k.render.toList = some k.initial := by
  cases k with
  | nil => decide
  | bool b => cases b <;> decide
  | number x =>
    obtain ⟨c, cs, hchars, hc, -⟩ := Decimal.numberText_chars h
    have hquote : c ≠ '"' := by
      rintro rfl
      revert hc
      decide
    have hdigit : (c.isDigit || c == '-') = true := by simpa using hc
    show Initial.of (Decimal.numberText x).toList = some .digit
    rw [hchars, Initial.of, if_neg hquote, if_pos hdigit]
  | text s =>
    show Initial.of ("\"" ++ s ++ "\"").toList = _
    rw [String.toList_append, String.toList_append]
    rfl

/-- Finite constants are told by their texts. -/
theorem Constant.render_inj {k k' : Constant} (h : k.IsFinite) (h' : k'.IsFinite)
    (heq : k.render = k'.render) : k = k' := by
  -- constants of different sorts begin differently, apart from the two truth values
  have hinitial : some k.initial = some k'.initial := by
    rw [← initial_render h, ← initial_render h', heq]
  cases k with
  | nil =>
    cases k' with
    | nil => rfl
    | bool b => cases b <;> exact absurd hinitial (by decide)
    | number _ | text _ => cases hinitial
  | bool b =>
    cases k' with
    | bool b' => cases b <;> cases b' <;> first | rfl | exact absurd hinitial (by decide)
    | nil => cases b <;> exact absurd hinitial (by decide)
    | number _ | text _ => cases b <;> cases hinitial
  | number x =>
    cases k' with
    | number y => rw [Decimal.numberText_inj h h' heq]
    | nil | text _ => cases hinitial
    | bool b => cases b <;> cases hinitial
  | text s =>
    cases k' with
    | text s' =>
      have hquoted : "\"" ++ s ++ "\"" = "\"" ++ s' ++ "\"" := heq
      rw [String.append_left_inj, String.append_right_inj] at hquoted
      rw [hquoted]
    | nil | number _ => cases hinitial
    | bool b => cases b <;> cases hinitial

/-- A name does not begin like a constant that is no word. -/
theorem Initial.of_name {t : Token} (h : Fitting Token.Scanned .name t) :
    ∃ c, Initial.of t.lexeme.toList = some (.other c) := by
  have hword := h.isWord
  generalize t.lexeme.toList = text at hword
  obtain _ | ⟨c, cs⟩ := text
  · exact hword.elim
  have hdigit := Lexeme.not_isDigit_of_letter hword.1
  have hmark : c ≠ '"' ∧ c ≠ '-' := by
    constructor <;>
    · rintro rfl
      exact absurd hword.1 (by decide)
  refine ⟨c, ?_⟩
  rw [of, if_neg hmark.1, if_neg (by simp [hdigit, hmark.2])]

/-! ## Forms of expressions -/

/-- The forms of expressions. -/
inductive Form where
  | constant | name | this | grouping | unary | binary | logical | assign | call | get | set | super
deriving DecidableEq

/-- The form of an expression. -/
def Expr.form : Expr → Form
  | .literal _ => .constant
  | .grouping _ => .grouping
  | .unary _ _ => .unary
  | .binary _ _ _ => .binary
  | .logical _ _ _ => .logical
  | .variable _ => .name
  | .assign _ _ => .assign
  | .call _ _ _ => .call
  | .get _ _ => .get
  | .set _ _ _ => .set
  | .this _ => .this
  | .super _ _ => .super

namespace Nested

/-- Words are one if their texts are. -/
theorem ofText_inj {text text' : String} : ofText text = ofText text' ↔ text = text' := by
  rw [ofText, ofText, word.injEq, String.toList_inj]

/-- The form of an expression that is one word. -/
def wordForm (text : String) : Form :=
  match Initial.of text.toList with
  | some (.other _) =>
    if text = "this" then .this
    else if text ∈ ["nil", "true", "false"] then .constant
    else .name
  | _ => .constant

/-- The form of an expression whose parts stand behind this word. -/
def nodeForm (head : String) (parts : List Nested) : Form :=
  if head = "group" then .grouping
  else if head = "call" then .call
  else if head = "." then .get
  else if head = "super" then .super
  else if head = "=" then
    match parts with
    | .word _ :: _ => .assign
    | _ => .set
  else if head = "and" ∨ head = "or" then .logical
  else if parts.length = 1 then .unary
  else .binary

/-- The form of the expressions with an outline. -/
def form : Nested → Form
  | .word text => wordForm (String.ofList text)
  | .node (.word head :: parts) => nodeForm (String.ofList head) parts
  | .node _ => .grouping

/-- The form of one word is seen by its text. -/
@[simp] theorem form_ofText (text : String) : (ofText text).form = wordForm text := by
  rw [ofText, form, String.ofList_toList]

/-- That of a node is seen by its first word and its parts. -/
@[simp] theorem form_node (head : String) (parts : List Nested) :
    (node (ofText head :: parts)).form = nodeForm head parts := by
  rw [ofText, form, String.ofList_toList]

/-- Operators are told from the other first words, and from one another. -/
theorem nodeForm_sign (part : Nested) :
    ∀ text ∈ Role.sign.texts, nodeForm text [part] = .unary := by
  simp [Role.texts, nodeForm]

/-- Between two parts an operator is one of those with two operands. -/
theorem nodeForm_operator (left right : Nested) :
    ∀ text ∈ Role.operator.texts, nodeForm text [left, right] = .binary := by
  simp [Role.texts, nodeForm]

/-- So is a connective, which is told from all operators. -/
theorem nodeForm_connective (left right : Nested) :
    ∀ text ∈ Role.connective.texts, nodeForm text [left, right] = .logical := by
  simp [Role.texts, nodeForm]

/-- A name is no reserved word. -/
theorem wordForm_name {t : Token} (h : Fitting Token.Scanned .name t) :
    wordForm t.lexeme = .name := by
  obtain ⟨c, hc⟩ := Initial.of_name h
  have hfree := Token.Scanned.not_mem_reserved h
  have hne : ∀ kind word, (word, kind) ∈ Lexeme.reserved → t.lexeme ≠ word := by
    rintro kind _ hmem rfl
    exact hfree kind hmem
  have hconstant : t.lexeme ∉ ["nil", "true", "false"] := by
    simp only [List.mem_cons, List.not_mem_nil, or_false, not_or]
    exact ⟨hne .kwNil _ (by decide), hne .kwTrue _ (by decide), hne .kwFalse _ (by decide)⟩
  rw [wordForm, hc]
  dsimp only
  rw [if_neg (hne .kwThis _ (by decide)), if_neg hconstant]

end Nested

/-- **The form of an expression can be seen from its outline.** -/
theorem Expr.form_outline {expr : Expr} (hformed : expr.Formed (Fitting Token.Scanned))
    (hfinite : AllFinite expr.constants) : expr.outline.form = expr.form := by
  cases expr with
  | literal value =>
    have hinitial := Constant.initial_render (hfinite value (List.mem_singleton_self _))
    cases value with
    | nil => decide
    | bool b => cases b <;> decide
    | number _ | text _ => rw [outline, Nested.form_ofText, Nested.wordForm, hinitial]; rfl
  | unary op operand =>
    rw [outline, Nested.form_node, Nested.nodeForm_sign _ _ (hformed.1.mem_texts (by decide)), form]
  | binary left op right =>
    rw [outline, Nested.form_node,
      Nested.nodeForm_operator _ _ _ (hformed.2.1.mem_texts (by decide)), form]
  | logical left op right =>
    rw [outline, Nested.form_node,
      Nested.nodeForm_connective _ _ _ (hformed.2.1.mem_texts (by decide)), form]
  | «variable» name => rw [outline, Nested.form_ofText, Nested.wordForm_name hformed, form]
  | this keyword =>
    rw [outline, Nested.form_ofText, form]
    decide
  | assign name value =>
    rw [outline, Nested.form_node, Nested.ofText]
    simp [Nested.nodeForm, form]
  | grouping _ | call _ _ _ | get _ _ | set _ _ _ | super _ _ =>
    rw [outline, Nested.form_node]
    simp [Nested.nodeForm, form]

/-! ## Expressions with one outline -/

/-- Where a role has one text only, its tokens need not be written to be the same word. -/
theorem Grammar.Fitting.sameWord_of_texts {role : Role} {text : String} {t t' : Token}
    (h : Fitting Token.Scanned role t) (h' : Fitting Token.Scanned role t')
    (htexts : role.texts = [text]) (hrole : role ≠ .name) : t.SameWord t' := by
  have hlexeme := h.mem_texts hrole
  have hlexeme' := h'.mem_texts hrole
  rw [htexts, List.mem_singleton] at hlexeme hlexeme'
  exact h.sameWord h' (hlexeme.trans hlexeme'.symm)

mutual

/-- Expressions with one outline are alike. -/
theorem Expr.alike_of_outline {expr expr' : Expr}
    (hformed : expr.Formed (Fitting Token.Scanned)) (hformed' : expr'.Formed (Fitting Token.Scanned))
    (hfinite : AllFinite expr.constants) (hfinite' : AllFinite expr'.constants)
    (h : expr.outline = expr'.outline) : expr.Alike (fun _ => Token.SameWord) expr' := by
  -- the outline shows the form, so only two expressions of one form are left to compare
  have hform : expr.form = expr'.form := by
    rw [← form_outline hformed hfinite, ← form_outline hformed' hfinite', h]
  match expr with
  | .literal value =>
    cases expr' with
    | literal value' =>
      have hvalue := Constant.render_inj (hfinite value (List.mem_singleton_self _))
        (hfinite' value' (List.mem_singleton_self _)) (Nested.ofText_inj.mp h)
      rw [hvalue]
      exact .literal value'
    | _ => cases hform
  | .grouping inner =>
    cases expr' with
    | grouping inner' =>
      simp only [outline, Nested.node.injEq, List.cons.injEq, and_true, true_and] at h
      exact .grouping (alike_of_outline hformed hformed' hfinite hfinite' h)
    | _ => cases hform
  | .unary op operand =>
    cases expr' with
    | unary op' operand' =>
      simp only [outline, Nested.node.injEq, List.cons.injEq, and_true, Nested.ofText_inj] at h
      exact .unary (hformed.1.sameWord hformed'.1 h.1)
        (alike_of_outline hformed.2 hformed'.2 hfinite hfinite' h.2)
    | _ => cases hform
  | .binary left op right =>
    cases expr' with
    | binary left' op' right' =>
      simp only [outline, Nested.node.injEq, List.cons.injEq, and_true, Nested.ofText_inj] at h
      exact .binary (alike_of_outline hformed.1 hformed'.1 hfinite.left hfinite'.left h.2.1)
        (hformed.2.1.sameWord hformed'.2.1 h.1)
        (alike_of_outline hformed.2.2 hformed'.2.2 hfinite.right hfinite'.right h.2.2)
    | _ => cases hform
  | .logical left op right =>
    cases expr' with
    | logical left' op' right' =>
      simp only [outline, Nested.node.injEq, List.cons.injEq, and_true, Nested.ofText_inj] at h
      exact .logical (alike_of_outline hformed.1 hformed'.1 hfinite.left hfinite'.left h.2.1)
        (hformed.2.1.sameWord hformed'.2.1 h.1)
        (alike_of_outline hformed.2.2 hformed'.2.2 hfinite.right hfinite'.right h.2.2)
    | _ => cases hform
  | .variable name =>
    cases expr' with
    | «variable» name' =>
      exact .variable (hformed.sameWord hformed' (Nested.ofText_inj.mp h))
    | _ => cases hform
  | .assign name value =>
    cases expr' with
    | assign name' value' =>
      simp only [outline, Nested.node.injEq, List.cons.injEq, and_true, true_and,
        Nested.ofText_inj] at h
      exact .assign (hformed.1.sameWord hformed'.1 h.1)
        (alike_of_outline hformed.2 hformed'.2 hfinite hfinite' h.2)
    | _ => cases hform
  | .call callee paren args =>
    cases expr' with
    | call callee' paren' args' =>
      simp only [outline, Nested.node.injEq, List.cons.injEq, true_and] at h
      exact .call (alike_of_outline hformed.1 hformed'.1 hfinite.left hfinite'.left h.1)
        -- a parenthesis is not in the text, but there is only one way to write it
        (hformed.2.1.sameWord_of_texts hformed'.2.1 rfl (by decide))
        (alike_of_outlines hformed.2.2 hformed'.2.2 hfinite.right hfinite'.right h.2)
    | _ => cases hform
  | .get object name =>
    cases expr' with
    | get object' name' =>
      simp only [outline, Nested.node.injEq, List.cons.injEq, and_true, true_and,
        Nested.ofText_inj] at h
      exact .get (alike_of_outline hformed.1 hformed'.1 hfinite hfinite' h.1)
        (hformed.2.sameWord hformed'.2 h.2)
    | _ => cases hform
  | .set object name value =>
    cases expr' with
    | set object' name' value' =>
      simp only [outline, Nested.node.injEq, List.cons.injEq, and_true, true_and,
        Nested.ofText_inj] at h
      exact .set (alike_of_outline hformed.1 hformed'.1 hfinite.left hfinite'.left h.1.1)
        (hformed.2.1.sameWord hformed'.2.1 h.1.2)
        (alike_of_outline hformed.2.2 hformed'.2.2 hfinite.right hfinite'.right h.2)
    | _ => cases hform
  | .this keyword =>
    cases expr' with
    -- there is only one keyword, whatever the outline says
    | this keyword' => exact .this (hformed.sameWord_of_texts hformed' rfl (by decide))
    | _ => cases hform
  | .super keyword method =>
    cases expr' with
    | super keyword' method' =>
      simp only [outline, Nested.node.injEq, List.cons.injEq, and_true, true_and,
        Nested.ofText_inj] at h
      exact .super (hformed.1.sameWord_of_texts hformed'.1 rfl (by decide))
        (hformed.2.sameWord hformed'.2 h)
    | _ => cases hform

/-- Expressions in a row are told apart one by one. -/
theorem Expr.alike_of_outlines {exprs exprs' : List Expr}
    (hformed : Expr.AllFormed (Fitting Token.Scanned) exprs)
    (hformed' : Expr.AllFormed (Fitting Token.Scanned) exprs')
    (hfinite : AllFinite (constantsEach exprs)) (hfinite' : AllFinite (constantsEach exprs'))
    (h : outlines exprs = outlines exprs') :
    List.Forall₂ (Expr.Alike fun _ => Token.SameWord) exprs exprs' := by
  match exprs, exprs' with
  | [], [] => exact .nil
  | [], _ :: _ => cases h
  | _ :: _, [] => cases h
  | expr :: rest, expr' :: rest' =>
    obtain ⟨hexpr, hrest⟩ := List.cons.inj h
    exact .cons (alike_of_outline hformed.1 hformed'.1 hfinite.left hfinite'.left hexpr)
      (alike_of_outlines hformed.2 hformed'.2 hfinite.right hfinite'.right hrest)

end

/-- So is one that may be missing, by whether it is there. -/
theorem Expr.alike_of_outlineOption {expr expr' : Option Expr}
    (hformed : ∀ e ∈ expr, e.Formed (Fitting Token.Scanned))
    (hformed' : ∀ e ∈ expr', e.Formed (Fitting Token.Scanned))
    (hfinite : AllFinite (constantsOption expr)) (hfinite' : AllFinite (constantsOption expr'))
    (h : outlineOption expr = outlineOption expr') :
    Option.Rel (Expr.Alike fun _ => Token.SameWord) expr expr' := by
  cases expr with
  | none =>
    cases expr' with
    | none => exact .none
    | some e' => cases h
  | some e =>
    cases expr' with
    | none => cases h
    | some e' =>
      exact .some (alike_of_outline (hformed e rfl) (hformed' e' rfl) hfinite hfinite'
        (List.cons.inj h).1)

/-- A superclass is a name. -/
theorem Expr.formed_superclass {expr : Expr}
    (h : ∃ parent, expr = .variable parent ∧ Fitting Token.Scanned .name parent) :
    expr.Formed (Fitting Token.Scanned) := by
  obtain ⟨parent, rfl, hparent⟩ := h
  exact hparent

/-! ## Statements with one outline -/

/-- The word that a statement is written with. -/
def Stmt.lead : Stmt → String
  | .expression _ => "expr"
  | .print _ => "print"
  | .varDecl _ _ => "var"
  | .block _ => "block"
  | .ifElse _ _ _ => "if"
  | .whileLoop _ _ => "while"
  | .funDecl _ => "fun"
  | .returnStmt _ _ => "return"
  | .classDecl _ => "class"

/-- A statement is a node behind its own word. -/
theorem Stmt.exists_outline (stmt : Stmt) :
    ∃ parts, stmt.outline = .node (.ofText stmt.lead :: parts) := by
  match stmt with
  | .ifElse _ _ none | .ifElse _ _ (some _) => exact ⟨_, rfl⟩
  | .expression _ | .print _ | .varDecl _ _ | .block _ | .whileLoop _ _ | .funDecl ⟨_, _, _⟩
  | .returnStmt _ _ | .classDecl ⟨_, _, _⟩ => exact ⟨_, rfl⟩

/-- So that word is seen in the outline. -/
theorem Stmt.lead_eq_of_outline {stmt stmt' : Stmt} (h : stmt.outline = stmt'.outline) :
    stmt.lead = stmt'.lead := by
  obtain ⟨parts, hparts⟩ := stmt.exists_outline
  obtain ⟨parts', hparts'⟩ := stmt'.exists_outline
  rw [hparts, hparts', Nested.node.injEq, List.cons.injEq, Nested.ofText_inj] at h
  exact h.1

/-- Names with one text are one word. -/
theorem forall₂_sameWord_of_names {names names' : List Token}
    (h : ∀ name ∈ names, Fitting Token.Scanned .name name)
    (h' : ∀ name ∈ names', Fitting Token.Scanned .name name)
    (heq : (names.map fun name => Nested.ofText name.lexeme)
      = names'.map fun name => Nested.ofText name.lexeme) :
    List.Forall₂ Token.SameWord names names' := by
  rw [← List.forall₂_eq_eq_eq, List.forall₂_map_left_iff, List.forall₂_map_right_iff] at heq
  induction heq with
  | nil => exact .nil
  | cons hname _ ih =>
    obtain ⟨hfirst, hrest⟩ := List.forall_mem_cons.mp h
    obtain ⟨hfirst', hrest'⟩ := List.forall_mem_cons.mp h'
    exact .cons (hfirst.sameWord hfirst' (Nested.ofText_inj.mp hname)) (ih hrest hrest')

/-- A superclass is told from a method, since it stands behind a word. -/
theorem FunctionDecl.outlines_ne (decls : List FunctionDecl) (text : String)
    (parts : List Nested) : outlines decls ≠ .ofText text :: parts := by
  match decls with
  | [] => exact fun h => by cases h
  | ⟨_, _, _⟩ :: _ => exact fun h => by cases (List.cons.inj h).1

mutual

/-- Statements with one outline are alike. -/
theorem Stmt.alike_of_outline {stmt stmt' : Stmt}
    (hformed : stmt.Formed (Fitting Token.Scanned)) (hformed' : stmt'.Formed (Fitting Token.Scanned))
    (hfinite : AllFinite stmt.constants) (hfinite' : AllFinite stmt'.constants)
    (h : stmt.outline = stmt'.outline) : stmt.Alike (fun _ => Token.SameWord) stmt' := by
  have hlead := Stmt.lead_eq_of_outline h
  match stmt with
  | .expression expr =>
    cases stmt' with
    | expression expr' =>
      simp only [Stmt.outline, Nested.node.injEq, List.cons.injEq, and_true, true_and] at h
      exact .expression (Expr.alike_of_outline hformed hformed' hfinite hfinite' h)
    | _ => exact absurd hlead (by simp [Stmt.lead])
  | .print expr =>
    cases stmt' with
    | print expr' =>
      simp only [Stmt.outline, Nested.node.injEq, List.cons.injEq, and_true, true_and] at h
      exact .print (Expr.alike_of_outline hformed hformed' hfinite hfinite' h)
    | _ => exact absurd hlead (by simp [Stmt.lead])
  | .varDecl name initializer =>
    cases stmt' with
    | varDecl name' initializer' =>
      simp only [Stmt.outline, Nested.node.injEq, List.cons.injEq, true_and, Nested.ofText_inj] at h
      exact .varDecl (hformed.1.sameWord hformed'.1 h.1)
        (Expr.alike_of_outlineOption hformed.2 hformed'.2 hfinite hfinite' h.2)
    | _ => exact absurd hlead (by simp [Stmt.lead])
  | .block body =>
    cases stmt' with
    | block body' =>
      simp only [Stmt.outline, Nested.node.injEq, List.cons.injEq, true_and] at h
      exact .block (Stmt.alike_of_outlines hformed hformed' hfinite hfinite' h)
    | _ => exact absurd hlead (by simp [Stmt.lead])
  | .ifElse condition thenBranch none =>
    cases stmt' with
    | ifElse condition' thenBranch' elseBranch' =>
      cases elseBranch' with
      | none =>
        simp only [Stmt.outline, Nested.node.injEq, List.cons.injEq, and_true, true_and] at h
        exact .ifElse
          (Expr.alike_of_outline hformed.1 hformed'.1 hfinite.left hfinite'.left h.1)
          (Stmt.alike_of_outline hformed.2 hformed'.2 hfinite.right hfinite'.right h.2) .none
      | some _ => simp [Stmt.outline] at h
    | _ => exact absurd hlead (by simp [Stmt.lead])
  | .ifElse condition thenBranch (some elseBranch) =>
    cases stmt' with
    | ifElse condition' thenBranch' elseBranch' =>
      cases elseBranch' with
      | none => simp [Stmt.outline] at h
      | some elseBranch' =>
        simp only [Stmt.outline, Nested.node.injEq, List.cons.injEq, and_true, true_and] at h
        exact .ifElse
          (Expr.alike_of_outline hformed.1 hformed'.1 hfinite.left hfinite'.left h.1)
          (Stmt.alike_of_outline hformed.2.1 hformed'.2.1 hfinite.right.left hfinite'.right.left
            h.2.1)
          (.some (Stmt.alike_of_outline hformed.2.2 hformed'.2.2 hfinite.right.right
            hfinite'.right.right h.2.2))
    | _ => exact absurd hlead (by simp [Stmt.lead])
  | .whileLoop condition body =>
    cases stmt' with
    | whileLoop condition' body' =>
      simp only [Stmt.outline, Nested.node.injEq, List.cons.injEq, and_true, true_and] at h
      exact .whileLoop
        (Expr.alike_of_outline hformed.1 hformed'.1 hfinite.left hfinite'.left h.1)
        (Stmt.alike_of_outline hformed.2 hformed'.2 hfinite.right hfinite'.right h.2)
    | _ => exact absurd hlead (by simp [Stmt.lead])
  | .funDecl decl =>
    cases stmt' with
    | funDecl decl' =>
      exact .funDecl (FunctionDecl.alike_of_outline hformed hformed' hfinite hfinite' h)
    | _ => exact absurd hlead (by simp [Stmt.lead])
  | .returnStmt keyword value =>
    cases stmt' with
    | returnStmt keyword' value' =>
      simp only [Stmt.outline, Nested.node.injEq, List.cons.injEq, true_and] at h
      exact .returnStmt (hformed.1.sameWord_of_texts hformed'.1 rfl (by decide))
        (Expr.alike_of_outlineOption hformed.2 hformed'.2 hfinite hfinite' h)
    | _ => exact absurd hlead (by simp [Stmt.lead])
  | .classDecl ⟨name, superclass, methods⟩ =>
    cases stmt' with
    | classDecl decl' =>
      obtain ⟨name', superclass', methods'⟩ := decl'
      simp only [Stmt.outline, ClassDecl.outline, Nested.node.injEq, List.cons.injEq, true_and,
        Nested.ofText_inj] at h
      have hname := hformed.1.sameWord hformed'.1 h.1
      -- the methods are compared behind the superclass, if there is one
      cases superclass with
      | none =>
        cases superclass' with
        | none =>
          exact .classDecl (.intro hname .none (FunctionDecl.alike_of_outlines hformed.2.2
            hformed'.2.2 hfinite.right hfinite'.right h.2))
        | some expr' => exact absurd h.2 (FunctionDecl.outlines_ne _ _ _)
      | some expr =>
        cases superclass' with
        | none => exact absurd h.2.symm (FunctionDecl.outlines_ne _ _ _)
        | some expr' =>
          obtain ⟨hexpr, hmethods⟩ := List.cons.inj (List.cons.inj h.2).2
          exact .classDecl (.intro hname
            (.some (Expr.alike_of_outline (Expr.formed_superclass (hformed.2.1 expr rfl))
              (Expr.formed_superclass (hformed'.2.1 expr' rfl)) hfinite.left hfinite'.left hexpr))
            (FunctionDecl.alike_of_outlines hformed.2.2 hformed'.2.2 hfinite.right hfinite'.right
              hmethods))
    | _ => exact absurd hlead (by simp [Stmt.lead])

/-- Statements in a row are told apart one by one. -/
theorem Stmt.alike_of_outlines {stmts stmts' : List Stmt}
    (hformed : Stmt.AllFormed (Fitting Token.Scanned) stmts)
    (hformed' : Stmt.AllFormed (Fitting Token.Scanned) stmts')
    (hfinite : AllFinite (Stmt.constantsEach stmts))
    (hfinite' : AllFinite (Stmt.constantsEach stmts'))
    (h : Stmt.outlines stmts = Stmt.outlines stmts') :
    List.Forall₂ (Stmt.Alike fun _ => Token.SameWord) stmts stmts' := by
  match stmts, stmts' with
  | [], [] => exact .nil
  | [], _ :: _ => cases h
  | _ :: _, [] => cases h
  | stmt :: rest, stmt' :: rest' =>
    obtain ⟨hstmt, hrest⟩ := List.cons.inj h
    exact .cons (Stmt.alike_of_outline hformed.1 hformed'.1 hfinite.left hfinite'.left hstmt)
      (Stmt.alike_of_outlines hformed.2 hformed'.2 hfinite.right hfinite'.right hrest)

/-- Functions are told apart by their names, their parameters and their bodies. -/
theorem FunctionDecl.alike_of_outline {decl decl' : FunctionDecl}
    (hformed : decl.Formed (Fitting Token.Scanned)) (hformed' : decl'.Formed (Fitting Token.Scanned))
    (hfinite : AllFinite decl.constants) (hfinite' : AllFinite decl'.constants)
    (h : decl.outline = decl'.outline) : decl.Alike (fun _ => Token.SameWord) decl' := by
  match decl, decl' with
  | ⟨name, params, body⟩, ⟨name', params', body'⟩ =>
    simp only [FunctionDecl.outline, Nested.node.injEq, List.cons.injEq, true_and,
      Nested.ofText_inj] at h
    exact .intro (hformed.1.sameWord hformed'.1 h.1)
      (forall₂_sameWord_of_names hformed.2.1 hformed'.2.1 h.2.1)
      (Stmt.alike_of_outlines hformed.2.2 hformed'.2.2 hfinite hfinite' h.2.2)

/-- Methods are told apart one by one. -/
theorem FunctionDecl.alike_of_outlines {decls decls' : List FunctionDecl}
    (hformed : FunctionDecl.AllFormed (Fitting Token.Scanned) decls)
    (hformed' : FunctionDecl.AllFormed (Fitting Token.Scanned) decls')
    (hfinite : AllFinite (FunctionDecl.constantsEach decls))
    (hfinite' : AllFinite (FunctionDecl.constantsEach decls'))
    (h : FunctionDecl.outlines decls = FunctionDecl.outlines decls') :
    List.Forall₂ (FunctionDecl.Alike fun _ => Token.SameWord) decls decls' := by
  match decls, decls' with
  | [], [] => exact .nil
  | [], _ :: _ => cases h
  | _ :: _, [] => cases h
  | decl :: rest, decl' :: rest' =>
    obtain ⟨hdecl, hrest⟩ := List.cons.inj h
    exact .cons (FunctionDecl.alike_of_outline hformed.1 hformed'.1 hfinite.left hfinite'.left hdecl)
      (FunctionDecl.alike_of_outlines hformed.2 hformed'.2 hfinite.right hfinite'.right hrest)

end

/-! ## Programs -/

/-- Statements one behind the other are told from one another. -/
theorem Stmt.alike_of_renderProgram {stmts stmts' : List Stmt}
    (hformed : Stmt.AllFormed (Fitting Token.Scanned) stmts)
    (hformed' : Stmt.AllFormed (Fitting Token.Scanned) stmts')
    (hfinite : ∀ stmt ∈ stmts, AllFinite stmt.constants)
    (hfinite' : ∀ stmt ∈ stmts', AllFinite stmt.constants)
    (hspelled : ∀ stmt ∈ stmts, stmt.outline.WellSpelled)
    (hspelled' : ∀ stmt ∈ stmts', stmt.outline.WellSpelled)
    (h : (Stmt.renderProgram stmts).toList = (Stmt.renderProgram stmts').toList) :
    List.Forall₂ (Stmt.Alike fun _ => Token.SameWord) stmts stmts' := by
  have hne : ∀ (stmt : Stmt) (rest : List Stmt),
      (Stmt.renderProgram []).toList ≠ (Stmt.renderProgram (stmt :: rest)).toList := by
    intro stmt rest heq
    rw [Stmt.chars_renderProgram_cons] at heq
    exact List.cons_ne_nil _ _ (List.append_eq_nil_iff.mp heq.symm).2
  have hends : ∀ rest : List Char, Nested.Ends ('\n' :: rest) := by
    rintro rest _ ⟨⟩
    exact .inr (.inr rfl)
  induction stmts generalizing stmts' with
  | nil =>
    cases stmts' with
    | nil => exact .nil
    | cons stmt' rest' => exact absurd h (hne stmt' rest')
  | cons stmt rest ih =>
    cases stmts' with
    | nil => exact absurd h.symm (hne stmt rest)
    | cons stmt' rest' =>
      rw [Stmt.chars_renderProgram_cons, Stmt.chars_renderProgram_cons] at h
      obtain ⟨hfirst, hrest⟩ := List.forall_mem_cons.mp hfinite
      obtain ⟨hfirst', hrest'⟩ := List.forall_mem_cons.mp hfinite'
      obtain ⟨hword, hwords⟩ := List.forall_mem_cons.mp hspelled
      obtain ⟨hword', hwords'⟩ := List.forall_mem_cons.mp hspelled'
      obtain ⟨houtline, hbehind⟩ := Nested.chars_inj hword hword' (hends _) (hends _) h
      exact .cons (Stmt.alike_of_outline hformed.1 hformed'.1 hfirst hfirst' houtline)
        (ih hformed.2 hformed'.2 hrest hrest' hwords hwords' (List.cons.inj hbehind).2)

/-- **Programs with one text are one program.** If the statements of two sources, whatever is
wrong with the sources, hold no numbers but finite ones and are written as the same text, they
are the same statements but for the places of their tokens. -/
theorem Program.render_unambiguous {source source' : String}
    (hfinite : ∀ stmt ∈ (Program.ofSource source).stmts, AllFinite stmt.constants)
    (hfinite' : ∀ stmt ∈ (Program.ofSource source').stmts, AllFinite stmt.constants)
    (h : Stmt.renderProgram (Program.ofSource source).stmts
      = Stmt.renderProgram (Program.ofSource source').stmts) :
    List.Forall₂ (Stmt.Alike fun _ => Token.SameWord) (Program.ofSource source).stmts
      (Program.ofSource source').stmts :=
  Stmt.alike_of_renderProgram (Program.ofSource_formed source) (Program.ofSource_formed source')
    hfinite hfinite' (fun stmt hmem => Program.wellSpelled source stmt hmem (hfinite stmt hmem))
    (fun stmt hmem => Program.wellSpelled source' stmt hmem (hfinite' stmt hmem))
    (congrArg String.toList h)

/-- A string with parentheses in it, and a number that is written in two ways. -/
theorem Program.render_unambiguous_numeral :
    let source := "class A < B \x7bm(x) \x7breturn;\x7d\x7d\nprint \") (\" + a.b(-1.50);"
    let source' := "class A<B\x7bm(x)\x7breturn;\x7d\x7dprint\") (\"+a.b(-1.5); )"
    (∀ stmt ∈ (Program.ofSource source).stmts, AllFinite stmt.constants) ∧
      (∀ stmt ∈ (Program.ofSource source').stmts, AllFinite stmt.constants) ∧
      Stmt.renderProgram (Program.ofSource source).stmts
        = "(class A < B (fun m (x) (return)))\n(print (+ \") (\" (call (. a b) (- 1.5))))\n" ∧
      List.Forall₂ (Stmt.Alike fun _ => Token.SameWord) (Program.ofSource source).stmts
        (Program.ofSource source').stmts := by
  intro source source'
  have hfinite : ∀ stmt ∈ (Program.ofSource source).stmts, AllFinite stmt.constants := by
    decide +kernel
  have hfinite' : ∀ stmt ∈ (Program.ofSource source').stmts, AllFinite stmt.constants := by
    decide +kernel
  have htext : Stmt.renderProgram (Program.ofSource source).stmts
      = "(class A < B (fun m (x) (return)))\n(print (+ \") (\" (call (. a b) (- 1.5))))\n" := by
    decide +kernel
  have htext' : Stmt.renderProgram (Program.ofSource source').stmts
      = "(class A < B (fun m (x) (return)))\n(print (+ \") (\" (call (. a b) (- 1.5))))\n" := by
    decide +kernel
  exact ⟨hfinite, hfinite', htext,
    Program.render_unambiguous hfinite hfinite' (htext.trans htext'.symm)⟩

/-- An infinite number is written like a name. -/
example : (Expr.literal (.number (1.0 / 0.0))).render
    = (Expr.variable (.madeUp .identifier "Infinity" 1)).render := by
  decide +kernel

end Lox
