/-
`Lox.Proofs.Render.Legible` -- programs that were read are written in words that can be told apart.

The tokens in a tree that was read are lexemes, and of a kind that fits their role. So names
are words that are not reserved, and in the other roles a token has one of few texts
(`Role.texts`). The constants are what literals denote, so that no text holds a quote. All
these are words that can be told from what is around them, if only the numbers are finite:
an infinite number is written as a word that might be a name.
-/
import Lox.Proofs.Decimal.NumberText
import Lox.Proofs.Likeness.Tree
import Lox.Proofs.Render.Outline
import Lox.Proofs.Token.Respaced

set_option autoImplicit false

namespace Lox

/-! ## Tokens in their roles -/

/-- No role is played by an end marker. -/
theorem Role.not_fits_eof (role : Role) : role.fits .eof = false := by
  cases role <;> rfl

/-- A token that was read is spelled as its kind is. -/
theorem Token.Scanned.spelled {t : Token} (h : t.Scanned) (hkind : t.kind ≠ .eof) : t.Spelled := by
  obtain ⟨source, hmem⟩ := h
  exact spelled_of_mem_words (List.mem_filter.mpr ⟨hmem, decide_eq_true hkind⟩)

namespace Grammar

variable {role : Role} {t t' : Token}

/-- The tokens of a text that fit a role are spelled as they should be. -/
theorem Fitting.spelled (h : Fitting Token.Scanned role t) : t.Spelled := by
  refine h.1.spelled fun heof => ?_
  have hfits := h.2
  rw [heof, role.not_fits_eof] at hfits
  cases hfits

/-- In one role, tokens of one text are one word. -/
theorem Fitting.sameWord (h : Fitting Token.Scanned role t) (h' : Fitting Token.Scanned role t')
    (heq : t.lexeme = t'.lexeme) : t.SameWord t' := by
  have hkind : t.kind = t'.kind := h.spelled.lexeme.kind_unique (heq ▸ h'.spelled.lexeme)
  exact ⟨hkind, heq, by rw [h.spelled.literal, h'.spelled.literal, hkind, heq]⟩

end Grammar

/-- The texts of the tokens that fit a role. Names have texts of their own. -/
def Role.texts : Role → List String
  | name => []
  | sign => ["!", "-"]
  | operator => ["+", "-", "*", "/", ">", ">=", "<", "<=", "==", "!="]
  | connective => ["and", "or"]
  | receiver => ["this"]
  | superclass => ["super"]
  | returning => ["return"]
  | closing => [")"]

/-- So in a role with few kinds it is one of few texts. -/
theorem Lexeme.mem_texts {role : Role} {kind : TokenKind} {text : List Char}
    (h : Lexeme kind text) (hfits : role.fits kind) (hrole : role ≠ .name) :
    String.ofList text ∈ role.texts := by
  cases h with
  | operator hmem =>
    have htable : ∀ entry ∈ operators, ∀ role : Role, role.fits entry.2 →
        String.ofList entry.1 ∈ role.texts := by
      intro entry hentry role
      revert entry
      cases role <;> decide
    exact htable _ hmem role hfits
  | keyword _ hmem =>
    have htable : ∀ entry ∈ reserved, ∀ role : Role, role.fits entry.2 →
        entry.1 ∈ role.texts := by
      intro entry hentry role
      revert entry
      cases role <;> decide
    exact htable _ hmem role hfits
  | name | whole | fraction | string =>
    cases role <;> first | exact absurd rfl hrole | cases hfits

namespace Grammar

variable {role : Role} {t t' : Token}

/-- The same for a token that fits its role. -/
theorem Fitting.mem_texts (h : Fitting Token.Scanned role t) (hrole : role ≠ .name) :
    t.lexeme ∈ role.texts := by
  have hmem := h.spelled.lexeme.mem_texts h.2 hrole
  rwa [String.ofList_toList] at hmem

/-- A name begins with a letter, and goes on with letters and digits. -/
theorem Fitting.isWord (h : Fitting Token.Scanned .name t) : Lexeme.IsWord t.lexeme.toList := by
  have hkind : t.kind = .identifier := by simpa [Role.fits] using h.2
  have hlexeme := h.spelled.lexeme
  generalize t.kind = kind at hkind hlexeme
  generalize t.lexeme.toList = text at hlexeme ⊢
  cases hlexeme with
  | operator hmem =>
    have htable : ∀ entry ∈ Lexeme.operators, entry.2 ≠ .identifier := by decide
    exact absurd hkind (htable _ hmem)
  | keyword hword _ | name hword _ => exact hword
  | whole | fraction | string => cases hkind

end Grammar

/-! ## Constants -/

mutual

/-- The constants in an expression, at every depth. -/
def Expr.constants : Expr → List Constant
  | .literal value => [value]
  | .grouping inner => inner.constants
  | .unary _ operand => operand.constants
  | .binary left _ right | .logical left _ right => left.constants ++ right.constants
  | .variable _ | .this _ | .super _ _ => []
  | .assign _ value => value.constants
  | .call callee _ args => callee.constants ++ Expr.constantsEach args
  | .get object _ => object.constants
  | .set object _ value => object.constants ++ value.constants

def Expr.constantsEach : List Expr → List Constant
  | [] => []
  | expr :: rest => expr.constants ++ Expr.constantsEach rest

end

/-- The constants in an expression that may be missing. -/
def Expr.constantsOption : Option Expr → List Constant
  | none => []
  | some expr => expr.constants

mutual

/-- The constants in a statement, at every depth. -/
def Stmt.constants : Stmt → List Constant
  | .expression expr | .print expr => expr.constants
  | .varDecl _ initializer => Expr.constantsOption initializer
  | .block body => Stmt.constantsEach body
  | .ifElse condition thenBranch none => condition.constants ++ thenBranch.constants
  | .ifElse condition thenBranch (some elseBranch) =>
    condition.constants ++ (thenBranch.constants ++ elseBranch.constants)
  | .whileLoop condition body => condition.constants ++ body.constants
  | .funDecl decl => decl.constants
  | .returnStmt _ value => Expr.constantsOption value
  | .classDecl ⟨_, superclass, methods⟩ =>
    Expr.constantsOption superclass ++ FunctionDecl.constantsEach methods

def Stmt.constantsEach : List Stmt → List Constant
  | [] => []
  | stmt :: rest => stmt.constants ++ Stmt.constantsEach rest

def FunctionDecl.constants : FunctionDecl → List Constant
  | ⟨_, _, body⟩ => Stmt.constantsEach body

def FunctionDecl.constantsEach : List FunctionDecl → List Constant
  | [] => []
  | decl :: rest => decl.constants ++ FunctionDecl.constantsEach rest

end

/-- The constant is no number that is infinite or none at all. -/
def Constant.IsFinite : Constant → Prop
  | .number x => x.isFinite
  | .nil | .bool _ | .text _ => True

instance : DecidablePred Constant.IsFinite
  | .number x => inferInstanceAs (Decidable (x.isFinite = true))
  | .nil | .bool _ | .text _ => .isTrue trivial

/-- The constant is no text with a quote in it. -/
def Constant.IsQuotable : Constant → Prop
  | .text s => '"' ∉ s.toList
  | .nil | .bool _ | .number _ => True

/-- The characters of a string are those between its quotes. -/
theorem Token.Scanned.isQuotable {t : Token} {value : Literal} (h : t.Scanned)
    (hvalue : t.literal = some value) : value.toConstant.IsQuotable := by
  have hkind : t.kind ≠ .eof := by
    intro heof
    obtain ⟨source, hmem⟩ := h
    rcases List.mem_append.mp hmem with hmem | hmem
    · exact (lexeme_of_mem_collect hmem).ne_eof heof
    · rw [List.mem_singleton.mp hmem] at hvalue
      cases hvalue
  obtain ⟨hlexeme, hliteral⟩ := h.spelled hkind
  rw [hvalue] at hliteral
  unfold Piece.literal? at hliteral
  split at hliteral
  · cases hliteral
    trivial
  · rename_i hstring
    rw [hstring] at hlexeme
    obtain ⟨body, hbody⟩ := hlexeme.of_string
    obtain ⟨body', hbody', hnone⟩ := Lexeme.of_quote (hbody ▸ hlexeme)
    cases hliteral
    have hvalue : t.lexeme.toList.tail.dropLast = body' := by
      rw [hbody, hbody']
      simp
    show '"' ∉ (String.ofList _).toList
    rw [String.toList_ofList, hvalue]
    exact hnone
  · cases hliteral

/-! ## Bare words -/

namespace Nested

/-- Letters, digits and some marks need no quotes around them. -/
theorem isBare_of_forall {text : List Char} (hne : text ≠ [])
    (h : ∀ c ∈ text, c.isAlphanum ∨ c ∈ ['_', '.', '-']) : IsBare text := by
  refine ⟨hne, fun c hc => ?_⟩
  have hcases := h c hc
  refine ⟨?_, ?_, ?_⟩
  · rintro (rfl | rfl | rfl) <;> revert hcases <;> decide
  · rintro rfl
    revert hcases
    decide
  · rintro rfl
    revert hcases
    decide

/-- A name can be told from what is around it. -/
theorem isBare_of_isWord {text : List Char} (h : Lexeme.IsWord text) : IsBare text := by
  obtain _ | ⟨c, cs⟩ := text
  · exact h.elim
  have hmark : ∀ d : Char, d = '_' → d ∈ ['_', '.', '-'] := by
    rintro _ rfl
    decide
  refine isBare_of_forall (List.cons_ne_nil _ _) (List.forall_mem_cons.mpr ⟨?_, ?_⟩)
  · exact h.1.imp (fun halpha => by simp [Char.isAlphanum, halpha]) (hmark c)
  · exact fun d hd => (h.2 d hd).imp_right (hmark d)

theorem isBare_of_mem_texts {role : Role} (hrole : role ≠ .closing) :
    ∀ text ∈ role.texts, IsBare text.toList := by
  cases role <;> first | decide | exact absurd rfl hrole

end Nested

/-- The constant is written as a word that can be told from what is around it. -/
theorem Constant.wellSpelled {k : Constant} (h : k.IsFinite ∧ k.IsQuotable) :
    (Nested.ofText k.render).WellSpelled := by
  obtain ⟨hfinite, hquotable⟩ := h
  cases k with
  | nil => exact .inl (by decide)
  | bool b => cases b <;> exact .inl (by decide)
  | number x =>
    obtain ⟨c, cs, hchars, -, hall⟩ := Decimal.numberText_chars hfinite
    refine .inl (?_ : Nested.IsBare (Decimal.numberText x).toList)
    rw [hchars]
    refine Nested.isBare_of_forall (List.cons_ne_nil _ _) fun d hd => ?_
    rcases hall d hd with hdigit | rfl | rfl
    · exact .inl (by simp [Char.isAlphanum, hdigit])
    · exact .inr (by decide)
    · exact .inr (by decide)
  | text s =>
    refine .inr ⟨s.toList, ?_, hquotable⟩
    show ("\"" ++ s ++ "\"").toList = _
    rw [String.toList_append, String.toList_append]
    rfl

/-! ## Legible trees -/

namespace Grammar.Fitting

variable {role : Role} {t : Token}

/-- So a token that is written down is a word of its own. -/
theorem wellSpelled (h : Fitting Token.Scanned role t) (hrole : role ≠ .name)
    (hclosing : role ≠ .closing) : (Nested.ofText t.lexeme).WellSpelled :=
  .inl (Nested.isBare_of_mem_texts hclosing _ (h.mem_texts hrole))

/-- A name is one too. -/
theorem name_wellSpelled (h : Fitting Token.Scanned .name t) :
    (Nested.ofText t.lexeme).WellSpelled :=
  .inl (Nested.isBare_of_isWord h.isWord)

end Grammar.Fitting

/-- The constants in the trees are finite. -/
abbrev AllFinite (constants : List Constant) : Prop :=
  ∀ k ∈ constants, k.IsFinite

/-- Expressions in a row are well spelled one by one. -/
theorem Expr.wellSpelled_outlines {exprs : List Expr}
    (h : ∀ expr ∈ exprs, AllFinite expr.constants → expr.outline.WellSpelled)
    (hfinite : AllFinite (constantsEach exprs)) : Nested.AllWellSpelled (outlines exprs) := by
  induction exprs with
  | nil => trivial
  | cons expr rest ih =>
    obtain ⟨hexpr, hrest⟩ := List.forall_mem_cons.mp h
    obtain ⟨hfirst, hbehind⟩ := List.forall_mem_append.mp hfinite
    exact ⟨hexpr hfirst, ih hrest hbehind⟩

theorem Expr.wellSpelled_outlineOption {expr : Option Expr}
    (h : ∀ e ∈ expr, AllFinite e.constants → e.outline.WellSpelled)
    (hfinite : AllFinite (constantsOption expr)) : Nested.AllWellSpelled (outlineOption expr) := by
  cases expr with
  | none => trivial
  | some e => exact ⟨h e rfl hfinite, trivial⟩

theorem Stmt.wellSpelled_outlines {stmts : List Stmt}
    (h : ∀ stmt ∈ stmts, AllFinite stmt.constants → stmt.outline.WellSpelled)
    (hfinite : AllFinite (constantsEach stmts)) : Nested.AllWellSpelled (outlines stmts) := by
  induction stmts with
  | nil => trivial
  | cons stmt rest ih =>
    obtain ⟨hstmt, hrest⟩ := List.forall_mem_cons.mp h
    obtain ⟨hfirst, hbehind⟩ := List.forall_mem_append.mp hfinite
    exact ⟨hstmt hfirst, ih hrest hbehind⟩

theorem FunctionDecl.wellSpelled_outlines {decls : List FunctionDecl}
    (h : ∀ decl ∈ decls, AllFinite decl.constants → decl.outline.WellSpelled)
    (hfinite : AllFinite (constantsEach decls)) : Nested.AllWellSpelled (outlines decls) := by
  induction decls with
  | nil => trivial
  | cons decl rest ih =>
    obtain ⟨hdecl, hrest⟩ := List.forall_mem_cons.mp h
    obtain ⟨hfirst, hbehind⟩ := List.forall_mem_append.mp hfinite
    exact ⟨hdecl hfirst, ih hrest hbehind⟩

theorem Nested.wellSpelled_names {names : List Token}
    (h : ∀ name ∈ names, Grammar.Fitting Token.Scanned .name name) :
    AllWellSpelled (names.map fun name => ofText name.lexeme) := by
  induction names with
  | nil => trivial
  | cons name rest ih =>
    obtain ⟨hname, hrest⟩ := List.forall_mem_cons.mp h
    exact ⟨hname.name_wellSpelled, ih hrest⟩

/-- Of two lists of constants the first one is finite if both are. -/
theorem AllFinite.left {constants rest : List Constant} (h : AllFinite (constants ++ rest)) :
    AllFinite constants :=
  (List.forall_mem_append.mp h).1

theorem AllFinite.right {constants rest : List Constant} (h : AllFinite (constants ++ rest)) :
    AllFinite rest :=
  (List.forall_mem_append.mp h).2

/-- If its constants are finite, a tree that was read is written in words that can be told
from what is around them. -/
def Grammar.TreeProperty.wellSpelled : TreeProperty Token.Scanned where
  expr e := AllFinite e.constants → e.outline.WellSpelled
  stmt s := AllFinite s.constants → s.outline.WellSpelled
  function decl := AllFinite decl.constants → decl.outline.WellSpelled
  literal ht hvalue h := Constant.wellSpelled ⟨List.forall_mem_singleton.mp h, ht.isQuotable hvalue⟩
  constant {kind value} hkind _ := by cases kind <;> cases hkind <;> exact .inl (by decide)
  grouping hinner h := ⟨.inl (by decide), hinner h, trivial⟩
  unary hop hoperand h := ⟨hop.wellSpelled (by decide) (by decide), hoperand h, trivial⟩
  binary hleft hop hright h :=
    ⟨hop.wellSpelled (by decide) (by decide), hleft h.left, hright h.right, trivial⟩
  logical hleft hop hright h :=
    ⟨hop.wellSpelled (by decide) (by decide), hleft h.left, hright h.right, trivial⟩
  name hname _ := hname.name_wellSpelled
  assign hname hvalue h :=
    ⟨.inl (by decide), hname (List.forall_mem_nil _), hvalue h, trivial⟩
  call hcallee _ hargs h :=
    ⟨.inl (by decide), hcallee h.left, Expr.wellSpelled_outlines hargs h.right⟩
  get hobject hname h := ⟨.inl (by decide), hobject h, hname.name_wellSpelled, trivial⟩
  set hget hvalue h := ⟨.inl (by decide), hget h.left, hvalue h.right, trivial⟩
  this _ _ := .inl (by decide)
  super _ hmethod _ := ⟨.inl (by decide), hmethod.name_wellSpelled, trivial⟩
  expression hexpr h := ⟨.inl (by decide), hexpr h, trivial⟩
  print hexpr h := ⟨.inl (by decide), hexpr h, trivial⟩
  varDecl hname hvalue h :=
    ⟨.inl (by decide), hname.name_wellSpelled, Expr.wellSpelled_outlineOption hvalue h⟩
  block hbody h := ⟨.inl (by decide), Stmt.wellSpelled_outlines hbody h⟩
  ifElse {_ _ elseBranch} hcondition hthen helse h := by
    cases elseBranch with
    | none => exact ⟨.inl (by decide), hcondition h.left, hthen h.right, trivial⟩
    | some branch =>
      exact ⟨.inl (by decide), hcondition h.left, hthen h.right.left,
        helse branch rfl h.right.right, trivial⟩
  whileLoop hcondition hbody h := ⟨.inl (by decide), hcondition h.left, hbody h.right, trivial⟩
  funDecl hdecl h := hdecl h
  returnStmt _ hvalue h := ⟨.inl (by decide), Expr.wellSpelled_outlineOption hvalue h⟩
  classDecl {_ superclass _} hname hsuperclass hmethods h := by
    have hbehind := FunctionDecl.wellSpelled_outlines hmethods h.right
    cases superclass with
    | none => exact ⟨.inl (by decide), hname.name_wellSpelled, hbehind⟩
    | some expr =>
      obtain ⟨parent, rfl, hparent⟩ := hsuperclass expr rfl
      exact ⟨.inl (by decide), hname.name_wellSpelled, .inl (by decide),
        hparent.name_wellSpelled, hbehind⟩
  callable hname hparams hbody h :=
    ⟨.inl (by decide), hname.name_wellSpelled, Nested.wellSpelled_names hparams,
      Stmt.wellSpelled_outlines hbody h⟩

/-- **What was read can be written down legibly**, unless there is an infinite number in it. -/
theorem Program.wellSpelled (source : String) : ∀ stmt ∈ (Program.ofSource source).stmts,
    AllFinite stmt.constants → stmt.outline.WellSpelled :=
  Grammar.TreeProperty.wellSpelled.read fun _ ht => ⟨source, ht⟩

end Lox
