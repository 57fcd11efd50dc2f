/-
`Lox.Proofs.Grammar.Overlong` -- lists that are too long.

A list of arguments or of parameters is kept with all of its entries, however many there are,
and what stands behind it is read as if nothing were wrong. It is complained about once for
every entry beyond the limit, and not once for the list: where one entry is too many there is
one complaint, and where two are, there are two. A list in an entry of another one counts by
itself.

So the complaints about long lists can be counted in the tree of a program: they are as many
as there are entries beyond the limit in all of its lists (`Stmt.lists`). That is one for each
list that is too long exactly if none of them is longer than by one entry.
-/
import Lox.Proofs.Grammar.Language
import Mathlib.Data.List.Forall2

set_option autoImplicit false

namespace Lox

open Grammar

/-! ## The lists of a tree -/

mutual

/-- The lengths of the lists of arguments in an expression. -/
def Expr.lists : Expr → List Nat
  | .literal _ | .variable _ | .this _ | .super _ _ => []
  | .grouping inner => inner.lists
  | .unary _ operand => operand.lists
  | .binary left _ right | .logical left _ right => left.lists ++ right.lists
  | .assign _ value => value.lists
  | .call callee _ args => callee.lists ++ args.length :: Expr.listsEach args
  | .get object _ => object.lists
  | .set object _ value => object.lists ++ value.lists

def Expr.listsEach : List Expr → List Nat
  | [] => []
  | expr :: rest => expr.lists ++ Expr.listsEach rest

end

mutual

/-- The lengths of the lists of arguments and of parameters in a statement. -/
def Stmt.lists : Stmt → List Nat
  | .expression expr | .print expr => expr.lists
  | .varDecl _ initializer => initializer.elim [] Expr.lists
  | .block body => Stmt.listsEach body
  | .ifElse condition thenBranch none => condition.lists ++ thenBranch.lists
  | .ifElse condition thenBranch (some elseBranch) =>
    condition.lists ++ (thenBranch.lists ++ elseBranch.lists)
  | .whileLoop condition body => condition.lists ++ body.lists
  | .funDecl decl => decl.lists
  | .returnStmt _ value => value.elim [] Expr.lists
  | .classDecl decl => decl.lists

def Stmt.listsEach : List Stmt → List Nat
  | [] => []
  | stmt :: rest => stmt.lists ++ Stmt.listsEach rest

def FunctionDecl.lists : FunctionDecl → List Nat
  | ⟨_, params, body⟩ => params.length :: Stmt.listsEach body

def FunctionDecl.listsEach : List FunctionDecl → List Nat
  | [] => []
  | decl :: rest => decl.lists ++ FunctionDecl.listsEach rest

def ClassDecl.lists : ClassDecl → List Nat
  | ⟨_, _, methods⟩ => FunctionDecl.listsEach methods

end

/-! ### Entries beyond the limit -/

/-- How many entries are beyond the limit in lists of these lengths. -/
def beyond (lengths : List Nat) : Nat :=
  (lengths.map (· - maxEntries)).sum

@[simp] theorem beyond_cons (n : Nat) (lengths : List Nat) :
    beyond (n :: lengths) = n - maxEntries + beyond lengths := by
  rw [beyond, List.map_cons, List.sum_cons, beyond]

/-- What is beyond the limit adds up. -/
@[simp] theorem beyond_append (lengths lengths' : List Nat) :
    beyond (lengths ++ lengths') = beyond lengths + beyond lengths' := by
  rw [beyond, List.map_append, List.sum_append, beyond, beyond]

/-- Each list that is too long has an entry beyond the limit. -/
theorem countP_le_beyond (lengths : List Nat) :
    lengths.countP (maxEntries < ·) ≤ beyond lengths := by
  induction lengths with
  | nil => exact Nat.le_refl 0
  | cons n rest ih =>
    rw [List.countP_cons, beyond_cons]
    by_cases hlong : maxEntries < n
    · rw [if_pos (decide_eq_true hlong)]
      omega
    · rw [if_neg (by rwa [decide_eq_true_iff])]
      omega

/-- It is the only one exactly if no list is longer than by one entry. -/
theorem beyond_eq_countP_iff (lengths : List Nat) :
    beyond lengths = lengths.countP (maxEntries < ·) ↔ ∀ n ∈ lengths, n ≤ maxEntries + 1 := by
  induction lengths with
  | nil => exact iff_of_true rfl fun n hn => by cases hn
  | cons n rest ih =>
    have hle := countP_le_beyond rest
    rw [List.forall_mem_cons, ← ih, List.countP_cons, beyond_cons]
    by_cases hlong : maxEntries < n
    · rw [if_pos (decide_eq_true hlong)]
      omega
    · rw [if_neg (by rwa [decide_eq_true_iff])]
      omega

/-! ### Breaches of the limit on lists -/

/-- How many of the causes are that a list is too long. -/
def tooLong (causes : Multiset Cause) : Nat :=
  causes.countP (·.code = .tooManyArguments)

@[simp] theorem tooLong_add (causes causes' : Multiset Cause) :
    tooLong (causes + causes') = tooLong causes + tooLong causes' :=
  Multiset.countP_add _ _ _

/-- Causes with that code count each. -/
theorem tooLong_replicate {cause : Cause} (h : cause.code = .tooManyArguments) (n : Nat) :
    tooLong (.replicate n cause) = n := by
  have hall : ∀ other ∈ Multiset.replicate n cause, other.code = .tooManyArguments := by
    intro other hother
    rwa [Multiset.eq_of_mem_replicate hother]
  rw [tooLong, Multiset.countP_eq_card.mpr hall, Multiset.card_replicate]

@[simp] theorem tooLong_arguments (n : Nat) : tooLong (.replicate n .tooManyArguments) = n :=
  tooLong_replicate rfl n

@[simp] theorem tooLong_parameters (n : Nat) : tooLong (.replicate n .tooManyParameters) = n :=
  tooLong_replicate rfl n

mutual

/-- In an expression as many causes are about length as there are arguments beyond the limit. -/
theorem Expr.tooLong_breaches : ∀ expr : Expr, tooLong expr.breaches = beyond expr.lists
  | .literal _ | .variable _ | .this _ | .super _ _ => rfl
  | .grouping inner => Expr.tooLong_breaches inner
  | .unary _ operand => Expr.tooLong_breaches operand
  | .binary left _ right | .logical left _ right => by
    rw [Expr.breaches, Expr.lists, tooLong_add, beyond_append, Expr.tooLong_breaches left,
      Expr.tooLong_breaches right]
  | .assign _ value => Expr.tooLong_breaches value
  | .call callee _ args => by
    rw [Expr.breaches, Expr.lists, tooLong_add, tooLong_add, tooLong_arguments, beyond_append,
      beyond_cons, Expr.tooLong_breaches callee, Expr.tooLong_breachesEach args]
  | .get object _ => Expr.tooLong_breaches object
  | .set object _ value => by
    rw [Expr.breaches, Expr.lists, tooLong_add, beyond_append, Expr.tooLong_breaches object,
      Expr.tooLong_breaches value]

theorem Expr.tooLong_breachesEach :
    ∀ exprs : List Expr, tooLong (Expr.breachesEach exprs) = beyond (Expr.listsEach exprs)
  | [] => rfl
  | expr :: rest => by
    rw [Expr.breachesEach, Expr.listsEach, tooLong_add, beyond_append,
      Expr.tooLong_breaches expr, Expr.tooLong_breachesEach rest]

end

theorem Expr.tooLong_elim_breaches (found : Option Expr) :
    tooLong (found.elim 0 Expr.breaches) = beyond (found.elim [] Expr.lists) := by
  cases found with
  | none => rfl
  | some expr => exact expr.tooLong_breaches

/-- A class that inherits from itself is another matter. -/
theorem Expr.tooLong_selfInheritance (name : Token) (superclass : Option Expr) :
    tooLong (Expr.selfInheritance name superclass) = 0 := by
  unfold Expr.selfInheritance
  split
  · split <;> rfl
  · rfl

mutual

/-- The same for statements. The other limits have other codes and do not count. -/
theorem Stmt.tooLong_breaches :
    ∀ (inside : Bool) (stmt : Stmt), tooLong (stmt.breaches inside) = beyond stmt.lists
  | _, .expression expr | _, .print expr => expr.tooLong_breaches
  | _, .varDecl _ initializer => Expr.tooLong_elim_breaches initializer
  | inside, .block body => Stmt.tooLong_breachesEach inside body
  | inside, .ifElse condition thenBranch none => by
    rw [Stmt.breaches, Stmt.lists, tooLong_add, beyond_append, condition.tooLong_breaches,
      Stmt.tooLong_breaches inside thenBranch]
  | inside, .ifElse condition thenBranch (some elseBranch) => by
    rw [Stmt.breaches, Stmt.lists, tooLong_add, tooLong_add, beyond_append, beyond_append,
      condition.tooLong_breaches, Stmt.tooLong_breaches inside thenBranch,
      Stmt.tooLong_breaches inside elseBranch]
  | inside, .whileLoop condition body => by
    rw [Stmt.breaches, Stmt.lists, tooLong_add, beyond_append, condition.tooLong_breaches,
      Stmt.tooLong_breaches inside body]
  | _, .funDecl decl => FunctionDecl.tooLong_breaches decl
  | inside, .returnStmt _ value => by
    -- that a `return` is outside of functions is another matter, too
    have houtside : tooLong (if inside then 0 else {.returnOutside}) = 0 := by
      cases inside <;> rfl
    rw [Stmt.breaches, Stmt.lists, tooLong_add, houtside, zero_add, Expr.tooLong_elim_breaches]
  | _, .classDecl decl => ClassDecl.tooLong_breaches decl

theorem Stmt.tooLong_breachesEach :
    ∀ (inside : Bool) (stmts : List Stmt),
      tooLong (Stmt.breachesEach inside stmts) = beyond (Stmt.listsEach stmts)
  | _, [] => rfl
  | inside, stmt :: rest => by
    rw [Stmt.breachesEach, Stmt.listsEach, tooLong_add, beyond_append,
      Stmt.tooLong_breaches inside stmt, Stmt.tooLong_breachesEach inside rest]

/-- A function counts its own parameters, and the lists in its body. -/
theorem FunctionDecl.tooLong_breaches :
    ∀ decl : FunctionDecl, tooLong decl.breaches = beyond decl.lists
  | ⟨_, params, body⟩ => by
    rw [FunctionDecl.breaches, FunctionDecl.lists, tooLong_add, tooLong_parameters, beyond_cons,
      Stmt.tooLong_breachesEach true body]

theorem FunctionDecl.tooLong_breachesEach :
    ∀ decls : List FunctionDecl,
      tooLong (FunctionDecl.breachesEach decls) = beyond (FunctionDecl.listsEach decls)
  | [] => rfl
  | decl :: rest => by
    rw [FunctionDecl.breachesEach, FunctionDecl.listsEach, tooLong_add, beyond_append,
      FunctionDecl.tooLong_breaches decl, FunctionDecl.tooLong_breachesEach rest]

/-- A class counts the lists of its methods. -/
theorem ClassDecl.tooLong_breaches : ∀ decl : ClassDecl, tooLong decl.breaches = beyond decl.lists
  | ⟨name, superclass, methods⟩ => by
    rw [ClassDecl.breaches, ClassDecl.lists, tooLong_add, Expr.tooLong_selfInheritance, zero_add,
      FunctionDecl.tooLong_breachesEach methods]

end

namespace Grammar

/-! ## Calls, functions and programs -/

variable {u v w : List Token}

/-- At any place a call is read with all of its arguments. -/
theorem notes_call {callee : Expr} {args : List Expr} {l r : Token} (c : Cursor)
    {rest : List Token} (hu : Derives .call u callee) (hl : l.kind = .leftParen)
    (hv : Derives .arguments v args) (hr : r.kind = .rightParen) (hrest : Looser 8 rest) :
    Notes expression c (u ++ l :: (v ++ r :: rest)) (.call callee r args) rest
      (callee.breaches + (.replicate (args.length - maxEntries) .tooManyArguments
        + Expr.breachesEach args)) := by
  have hcall : Derives .expression (u ++ l :: (v ++ [r])) (.call callee r args) :=
    (Derives.call hu hl hv hr).expression_of_call
  have hnotes := hcall.tolerated c rest hrest
  simp only [List.append_assoc, List.cons_append, List.nil_append] at hnotes
  rwa [Expr.breaches] at hnotes

/-- At any place a function or method is read with all of its parameters. -/
theorem notes_callable {params : List Token} {body : List Stmt} {name l r lb rb : Token}
    (c : Cursor) (sort : Callable) (rest : List Token) (hname : name.kind = .identifier)
    (hl : l.kind = .leftParen) (hv : Derives .parameters v params) (hr : r.kind = .rightParen)
    (hlb : lb.kind = .leftBrace) (hw : Derives .declarations w body)
    (hrb : rb.kind = .rightBrace) :
    Notes (callable · sort) c (name :: l :: (v ++ r :: lb :: (w ++ rb :: rest)))
      ⟨name, params, body⟩ rest
      (.replicate (params.length - maxEntries) .tooManyParameters
        + Stmt.breachesEach true body) := by
  have hnotes := (Derives.function hname hl hv hr hlb hw hrb).tolerated c sort rest
  simp only [List.append_assoc, List.cons_append, List.nil_append] at hnotes
  rwa [FunctionDecl.breaches] at hnotes

/-- How many diagnostics there are about lists that are too long. -/
theorem countP_diagnostics (complaints : Array Complaint) :
    (complaints.toList.map Complaint.diagnostic).countP (·.code = some .tooManyArguments)
      = tooLong (causesOf complaints) := by
  rw [tooLong, causesOf, Multiset.coe_countP, List.countP_map, List.countP_map]
  refine List.countP_congr fun complaint _ => ?_
  rw [Function.comp_apply, Function.comp_apply, decide_eq_true_iff, decide_eq_true_iff]
  exact Option.some_inj

/-- Tokens that a program derives are read as that program, and the diagnostics about length are
as many as the entries beyond the limits. -/
theorem stmts_and_count_of_derives {tokens : List Token} {stmts : List Stmt}
    (hderives : Derives .declarations (tokens.takeWhile fun t => t.kind != .eof) stmts) :
    (Program.ofTokens tokens).stmts = stmts ∧
      (Program.ofTokens tokens).diagnostics.countP (·.code = some .tooManyArguments)
        = beyond (Stmt.listsEach stmts) := by
  obtain ⟨complaints, hread, hcauses⟩ := exists_complaints_of_derives hderives
  rw [Program.ofTokens, hread]
  refine ⟨rfl, ?_⟩
  rw [countP_diagnostics, hcauses, Stmt.tooLong_breachesEach]

/-! ## Calls with any number of arguments -/

/-- The tokens of a call of `f`, with a comma between every two entries. -/
def callOf (entries : List (List Token)) : List Token :=
  .madeUp .identifier "f" 1 :: .madeUp .leftParen "(" 1 ::
    ([.madeUp .comma "," 1].intercalate entries ++ [.madeUp .rightParen ")" 1])

/-- What such a call stands for. -/
def calledOn (args : List Expr) : Expr :=
  .call (.variable (.madeUp .identifier "f" 1)) (.madeUp .rightParen ")" 1) args

/-- Entries that are expressions make up a list of arguments. -/
theorem derives_intercalate {comma : Token} {entry : List Token} {arg : Expr}
    {entries : List (List Token)} {args : List Expr} (hcomma : comma.kind = .comma)
    (h : Derives .expression entry arg)
    (hrest : List.Forall₂ (Derives .expression) entries args) :
    Derives .someArguments ([comma].intercalate (entry :: entries)) (arg :: args) := by
  induction hrest generalizing entry arg with
  | nil =>
    rw [List.intercalate_singleton]
    exact .lastArgument h
  | cons hnext _ ih =>
    rw [List.intercalate_cons_cons, List.append_assoc]
    exact .argument h hcomma (ih hnext)

/-- The tokens of a call are a call of what the entries stand for. -/
theorem derives_callOf {entry : List Token} {arg : Expr} {entries : List (List Token)}
    {args : List Expr} (h : Derives .expression entry arg)
    (hrest : List.Forall₂ (Derives .expression) entries args) :
    Derives .expression (callOf (entry :: entries)) (calledOn (arg :: args)) := by
  have hcallee : Derives .call [.madeUp .identifier "f" 1]
      (.variable (.madeUp .identifier "f" 1)) := .callee (.name rfl)
  have hargs : Derives .someArguments ([.madeUp .comma "," 1].intercalate (entry :: entries))
      (arg :: args) := derives_intercalate rfl h hrest
  have hcall := Derives.call hcallee (l := .madeUp .leftParen "(" 1)
    (r := .madeUp .rightParen ")" 1) rfl (.arguments hargs) rfl
  exact hcall.expression_of_call

/-- An expression with a semicolon is a program. -/
theorem derives_of_expression {e : Expr} (h : Derives .expression w e) :
    Derives .declarations (w ++ [.madeUp .semicolon ";" 1]) [.expression e] := by
  have hdeclaration : Derives .declaration (w ++ [.madeUp .semicolon ";" 1]) (.expression e) :=
    .statement (.simple (.expressionStatement h rfl))
  have hderives := Derives.declarations hdeclaration .noDeclarations
  rwa [List.append_nil] at hderives

/-- The word `nil` as an entry. -/
theorem derives_nil : Derives .expression [.madeUp .kwNil "nil" 1] (.literal .nil) :=
  Derives.expression_of_call (.callee (.nilValue rfl))

/-- Any number of words `nil` are as many arguments. -/
theorem derives_nils (n : Nat) :
    List.Forall₂ (Derives .expression) (.replicate n [.madeUp .kwNil "nil" 1])
      (.replicate n (.literal .nil)) := by
  induction n with
  | zero => exact .nil
  | succ n ih => exact .cons derives_nil ih

/-- There are no lists in such entries. -/
theorem listsEach_nils (n : Nat) : Expr.listsEach (.replicate n (.literal .nil)) = [] := by
  induction n with
  | zero => rfl
  | succ n ih => exact ih

/-- The lists in such a call are its own and those in its arguments. -/
theorem lists_calledOn (args : List Expr) :
    (calledOn args).lists = args.length :: Expr.listsEach args := rfl

end Grammar

/-- **Lists that are too long.** If the grammar derives the tokens up to the end marker, the
statements of the program are the trees of the derivation, so that every list is there with
all of its entries. There are as many diagnostics about lists that are too long as there are entries
beyond the limit in all the lists together, which is one for each list that is too long
exactly if none has more than one such entry. And at any place a call, or a function or
method, is read with all that stands in its list, and is complained about once for each entry
beyond the limit, besides what is complained about in its parts. -/
theorem Program.overlong_lists {tokens : List Token} {stmts : List Stmt}
    (hderives : Derives .declarations (tokens.takeWhile fun t => t.kind != .eof) stmts) :
    let reported := (Program.ofTokens tokens).diagnostics.countP
      (·.code = some .tooManyArguments)
    let lengths := Stmt.listsEach stmts
    (Program.ofTokens tokens).stmts = stmts ∧
      reported = (lengths.map (· - maxEntries)).sum ∧
      (reported = lengths.countP (maxEntries < ·) ↔ ∀ n ∈ lengths, n ≤ maxEntries + 1) ∧
      (∀ (c : Cursor) (u v rest : List Token) (l r : Token) (callee : Expr) (args : List Expr),
        Derives .call u callee → l.kind = .leftParen → Derives .arguments v args →
        r.kind = .rightParen → Looser 8 rest →
        Notes expression c (u ++ l :: (v ++ r :: rest)) (.call callee r args) rest
          (callee.breaches + (.replicate (args.length - maxEntries) .tooManyArguments
            + Expr.breachesEach args))) ∧
      ∀ (c : Cursor) (sort : Callable) (name l r lb rb : Token) (v w rest params : List Token)
        (body : List Stmt),
        name.kind = .identifier → l.kind = .leftParen → Derives .parameters v params →
        r.kind = .rightParen → lb.kind = .leftBrace → Derives .declarations w body →
        rb.kind = .rightBrace →
        Notes (callable · sort) c (name :: l :: (v ++ r :: lb :: (w ++ rb :: rest)))
          ⟨name, params, body⟩ rest
          (.replicate (params.length - maxEntries) .tooManyParameters
            + Stmt.breachesEach true body) := by
  intro reported lengths
  obtain ⟨hstmts, hreported⟩ := stmts_and_count_of_derives hderives
  refine ⟨hstmts, hreported, ?_, ?_, ?_⟩
  · rw [← beyond_eq_countP_iff, ← hreported]
  · intro c u v rest l r callee args hu hl hv hr hrest
    exact notes_call c hu hl hv hr hrest
  · intro c sort name l r lb rb v w rest params body hname hl hv hr hlb hw hrb
    exact notes_callable c sort rest hname hl hv hr hlb hw hrb

/-- The first of two hundred and fifty-seven arguments is a call of the same function with one
argument too many: one complaint is about the inner list, and two are about the outer one. -/
theorem Program.overlong_lists_nested :
    let words := List.replicate 256 [Token.madeUp .kwNil "nil" 1]
    let values := List.replicate 256 (Expr.literal .nil)
    let tokens := callOf (callOf words :: words) ++ [.madeUp .semicolon ";" 1]
    let stmts := [Stmt.expression (calledOn (calledOn values :: values))]
    Derives .declarations (tokens.takeWhile fun t => t.kind != .eof) stmts ∧
      (Program.ofTokens tokens).stmts = stmts ∧ Stmt.listsEach stmts = [257, 256] ∧
      (Program.ofTokens tokens).diagnostics.countP (·.code = some .tooManyArguments) = 3 := by
  intro words values tokens stmts
  have heof : ∀ t ∈ tokens, t.kind ≠ .eof := by decide +kernel
  have hinner : Derives .expression (callOf words) (calledOn values) :=
    derives_callOf derives_nil (derives_nils 255)
  have hderives : Derives .declarations (Cursor.start tokens).rest stmts := by
    rw [start_rest heof]
    exact derives_of_expression (derives_callOf hinner (derives_nils 256))
  have hlengths : Stmt.listsEach stmts = [257, 256] := by
    rw [Stmt.listsEach, Stmt.lists, lists_calledOn, Expr.listsEach, lists_calledOn,
      listsEach_nils, List.length_cons, List.length_replicate]
    rfl
  obtain ⟨hstmts, hreported, -⟩ := Program.overlong_lists hderives
  refine ⟨hderives, hstmts, hlengths, ?_⟩
  rw [hreported, hlengths]
  rfl

/-- A call with two arguments too many is one statement with all of the arguments. It has one
list that is too long, and there are two complaints about it. -/
theorem Program.overlong_call_complained_twice :
    let tokens := callOf (.replicate 257 [.madeUp .kwNil "nil" 1]) ++ [.madeUp .semicolon ";" 1]
    let stmts := [Stmt.expression (calledOn (.replicate 257 (.literal .nil)))]
    (Program.ofTokens tokens).stmts = stmts ∧ Stmt.listsEach stmts = [257] ∧
      (Program.ofTokens tokens).diagnostics.countP (·.code = some .tooManyArguments) = 2 := by
  intro tokens stmts
  have heof : ∀ t ∈ tokens, t.kind ≠ .eof := by decide +kernel
  have hderives : Derives .declarations (Cursor.start tokens).rest stmts := by
    rw [start_rest heof]
    exact derives_of_expression (derives_callOf derives_nil (derives_nils 256))
  have hlengths : Stmt.listsEach stmts = [257] := by
    rw [Stmt.listsEach, Stmt.lists, lists_calledOn, listsEach_nils, List.length_replicate]
    rfl
  obtain ⟨hstmts, hreported⟩ := stmts_and_count_of_derives hderives
  refine ⟨hstmts, hlengths, ?_⟩
  rw [hreported, hlengths]
  rfl

end Lox
