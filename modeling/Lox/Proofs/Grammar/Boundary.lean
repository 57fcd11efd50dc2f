/-
`Lox.Proofs.Grammar.Boundary` -- programs can be read in parts.

Two lists of tokens, read one behind the other, give what they give apart, if the
first one ends where the reading is at a boundary. Nothing of the first part can
be noticed in the second: not its complaints, not the depth, not a recovery that
is still under way.

The reason is that a reader looks at one token ahead only (`Built.run_placed`).
So every declaration of the first part that leaves a token goes the same way with
the second part behind it. The last declaration leaves none, and it is the one to
look at. If it fits, it has taken its last token by then and looks only for an
`else`. If it does not fit, the recovery has passed over the last semicolon, and
behind a semicolon it stops.
-/
import Lox.Proofs.Grammar.Fuel
import Lox.Tree.Render

set_option autoImplicit false

namespace Lox.Grammar

variable {α β : Type}

/-! ## Readers that look no further than their tokens -/

section Seals

/-- The tokens that are put behind do not change what the reader returns, not
even where it takes the last one of its own. -/
def Seals (earlier : Array Complaint) (more : List Token) (finish : Token)
    (x : TokenReader α) : Prop :=
  ∀ c a c', x.run c = .ok a c' →
    x.run (c.placed earlier more finish) = .ok a (c'.placed earlier more finish)

variable {earlier : Array Complaint} {more : List Token} {finish : Token}
  {x : TokenReader α} {f : α → TokenReader β}

/-- A token is passed in the longer list as in the shorter one. -/
theorem Cursor.Passes.placed {c c' : Cursor} {token : Token} (h : c.Passes token c') :
    (c.placed earlier more finish).Passes token (c'.placed earlier more finish) := by
  obtain ⟨rest, hrest, rfl⟩ := h
  exact ⟨rest ++ more, Cursor.placed_of_cons hrest, rfl⟩

/-- A reader that leaves a token looks at no token that is put behind. -/
theorem TokenReader.run_placed_of_ok {c c' : Cursor} {a : α} (h : x.run c = .ok a c')
    (hne : c'.rest ≠ []) :
    x.run (c.placed earlier more finish) = .ok a (c'.placed earlier more finish) := by
  have hhides : (Outcome.cursor (x.run c)).Hides more finish := by
    rw [h]
    exact .inl hne
  rw [x.built.run_placed c hhides, h, Outcome.moved_ok]

/-- A reader does not notice what was complained about before. -/
theorem TokenReader.run_earlier_of_ok {c c' : Cursor} {a : α} (h : x.run c = .ok a c') :
    x.run (c.placed earlier [] c.finish) = .ok a (c'.placed earlier [] c.finish) := by
  rw [x.run_earlier, h, Outcome.moved_ok]

theorem ne_nil_of_length_lt {n : Nat} {ts : List Token} (h : n < ts.length) : ts ≠ [] := by
  intro hnil
  rw [hnil] at h
  exact Nat.not_lt_zero n h

namespace Seals

protected theorem pure (a : α) : Seals earlier more finish (pure a) := by
  intro c a' c' h
  cases h
  rfl

/-- Looking no further than the own tokens is kept from one reader to the next. -/
protected theorem bind (hx : Seals earlier more finish x)
    (hf : ∀ a, Seals earlier more finish (f a)) : Seals earlier more finish (x >>= f) := by
  intro c b c'' h
  obtain ⟨a, c', hrun, hrest⟩ := TokenReader.run_bind_eq_ok.mp h
  rw [TokenReader.run_bind_of_ok (hx c a c' hrun)]
  exact hf a c' b c'' hrest

/-- The first reader may look ahead, because what it looks at is there: the
second one takes a token. -/
theorem bind_of_consumes (hf : ∀ a, Seals earlier more finish (f a))
    (hc : ∀ a, Consumes (f a)) : Seals earlier more finish (x >>= f) := by
  intro c b c'' h
  obtain ⟨a, c', hrun, hrest⟩ := TokenReader.run_bind_eq_ok.mp h
  have hlt : c''.rest.length < c'.rest.length := hc a c' b c'' hrest
  rw [TokenReader.run_bind_of_ok (TokenReader.run_placed_of_ok hrun (ne_nil_of_length_lt hlt))]
  exact hf a c' b c'' hrest

/-- Where a token is taken, it is there; where none is, the rest takes one. -/
theorem take_bind {use : TokenKind → Option α} {f : Option (Token × α) → TokenReader β}
    (hsome : ∀ token a, Seals earlier more finish (f (some (token, a))))
    (hnone : Seals earlier more finish (f none)) (hc : Consumes (f none)) :
    Seals earlier more finish (take use >>= f) := by
  intro c b c'' h
  obtain ⟨found, c', hrun, hrest⟩ := TokenReader.run_bind_eq_ok.mp h
  rcases found with _ | ⟨token, a⟩
  · have hlt : c''.rest.length < c'.rest.length := hc c' b c'' hrest
    rw [TokenReader.run_bind_of_ok (TokenReader.run_placed_of_ok hrun (ne_nil_of_length_lt hlt))]
    exact hnone c' b c'' hrest
  · obtain ⟨huse, hpass⟩ := take_eq_some.mp hrun
    rw [TokenReader.run_bind_of_ok (take_eq_some.mpr ⟨huse, hpass.placed⟩)]
    exact hsome token a c' b c'' hrest

/-- The depth of functions has nothing to do with it. -/
protected theorem insideBody (hx : Seals earlier more finish x) :
    Seals earlier more finish (insideBody x) := by
  intro c a c' h
  replace h : Step.insideBody x.run c = _ := h
  unfold Step.insideBody at h
  cases hrun : x.run { c with depth := c.depth + 1 } with
  | error halt c₁ =>
    rw [hrun] at h
    cases h
  | ok a' c₁ =>
    rw [hrun] at h
    cases h
    have hplaced := hx { c with depth := c.depth + 1 } a c₁ hrun
    exact congrArg (Outcome.moved fun c => { c with depth := c.depth - 1 }) hplaced

end Seals

/-- An expected token is either there, or the reader gives up and returns nothing. -/
theorem expect_seals (slot : Slot) : Seals earlier more finish (expect slot) := by
  intro c token c' h
  obtain ⟨hkind, hpass⟩ := expect_eq_ok.mp h
  exact expect_eq_ok.mpr ⟨hkind, hpass.placed⟩

theorem inFunction_seals : Seals earlier more finish inFunction := by
  intro c inside c' h
  cases h
  rfl

/-- A complaint that goes on takes no token. -/
theorem complain_seals (cause : Cause) (token : Token) (h : cause.isStructural = false) :
    Seals earlier more finish (complain cause token h) := by
  intro c a c' hrun
  cases hrun
  exact congrArg (EStateM.Result.ok ()) (c.complain_placed cause token)

/-- Where the tokens end without an `else`, none may be put behind them. -/
theorem skipElse_seals (hmore : ∀ token ∈ more.head?, token.kind ≠ .kwElse) :
    Seals earlier more finish (skip? .kwElse) := by
  intro c found c' h
  cases found with
  | true =>
    obtain ⟨token, hkind, hpass⟩ := skip_eq_true.mp h
    exact skip_eq_true.mpr ⟨token, hkind, hpass.placed⟩
  | false =>
    obtain ⟨rfl, hnone⟩ := skip_eq_false.mp h
    refine skip_eq_false.mpr ⟨rfl, fun token hmem => ?_⟩
    cases hrest : c'.rest with
    | nil =>
      rw [Cursor.placed, hrest] at hmem
      exact hmore token hmem
    | cons head rest =>
      rw [Cursor.placed_of_cons hrest] at hmem
      rw [hrest] at hnone
      exact hnone token hmem

end Seals

/-! ## Statements -/

section Statements

variable {earlier : Array Complaint} {more : List Token} {finish : Token} (fuel : Nat)

/-- A reader without fuel returns nothing, so there is nothing to be changed. -/
theorem outOfFuel_seals : Seals earlier more finish (outOfFuel : TokenReader α) :=
  fun _ _ _ h => by cases h

/-- The last token of a reader, and what it makes of it. -/
theorem expect_bind_seals (slot : Slot) (a : α) :
    Seals earlier more finish (do let _ ← expect slot; return a) :=
  (expect_seals slot).bind fun _ => .pure a

/-- A simple statement ends at its semicolon, and so looks no further. -/
theorem expressionStatement_seals : Seals earlier more finish (expressionStatement fuel) :=
  .bind_of_consumes (fun _ => expect_bind_seals _ _) fun _ => (expect_consumes _).bind

theorem printStatement_seals : Seals earlier more finish (printStatement fuel) :=
  .bind_of_consumes (fun _ => expect_bind_seals _ _) fun _ => (expect_consumes _).bind

/-- So does a `return`, with a value or without. -/
theorem returnStatement_seals (keyword : Token) :
    Seals earlier more finish (returnStatement fuel keyword) := by
  have hrest : Seals earlier more finish (do
      let value ← expressionBefore fuel .semicolon
      let _ ← expect .returnEnd
      return Stmt.returnStmt keyword value) :=
    .bind_of_consumes (fun _ => expect_bind_seals _ _) fun _ => (expect_consumes _).bind
  refine inFunction_seals.bind fun inside => ?_
  cases inside with
  | true => exact hrest
  | false => exact (complain_seals _ _ _).bind fun _ => hrest

theorem varDeclaration_seals : Seals earlier more finish (varDeclaration fuel) := by
  refine (expect_seals _).bind fun name => ?_
  exact .bind_of_consumes (fun _ => expect_bind_seals _ _) fun _ => (expect_consumes _).bind

/-- A block ends at its brace, whatever the declarations in it would have taken next. -/
theorem block_seals : Seals earlier more finish (block fuel) := by
  cases fuel with
  | zero => exact outOfFuel_seals
  | succ fuel =>
    rw [block]
    exact .bind_of_consumes (fun _ => expect_bind_seals _ _) fun _ => (expect_consumes _).bind

/-- So does the body of a function, and with it the function. -/
theorem callable_seals (sort : Callable) : Seals earlier more finish (callable fuel sort) := by
  cases fuel with
  | zero => exact outOfFuel_seals
  | succ fuel =>
    rw [callable]
    refine (expect_seals _).bind fun name => (expect_seals _).bind fun _ => ?_
    -- the closing parenthesis is still to be taken, so looking for it is safe
    refine .bind_of_consumes (fun params => ?_) fun _ => (expect_consumes _).bind
    refine (expect_seals _).bind fun _ => (expect_seals _).bind fun _ => ?_
    exact (block_seals fuel).insideBody.bind fun _ => .pure _

theorem classDeclaration_seals : Seals earlier more finish (classDeclaration fuel) := by
  cases fuel with
  | zero => exact outOfFuel_seals
  | succ fuel =>
    rw [classDeclaration]
    refine (expect_seals _).bind fun name => ?_
    refine .bind_of_consumes (fun superclass => ?_) fun _ => (expect_consumes _).bind
    refine (expect_seals _).bind fun _ => ?_
    exact .bind_of_consumes (fun _ => expect_bind_seals _ _) fun _ => (expect_consumes _).bind

/-- With this fuel, the readers of statements that hold statements look no
further than their tokens. -/
structure StatementsSeal (earlier : Array Complaint) (more : List Token) (finish : Token)
    (fuel : Nat) : Prop where
  statement : Seals earlier more finish (statement fuel)
  forStatement : Seals earlier more finish (forStatement fuel)
  ifStatement : Seals earlier more finish (ifStatement fuel)
  whileStatement : Seals earlier more finish (whileStatement fuel)

namespace StatementsSeal

variable {fuel}

/-- A statement ends as the statements do that it may consist of. -/
theorem statement_succ (ih : StatementsSeal earlier more finish fuel) :
    Seals earlier more finish (Grammar.statement (fuel + 1)) := by
  rw [Grammar.statement]
  refine .take_bind (fun keyword lead => ?_) (expressionStatement_seals fuel)
    (expressionStatement_consumes fuel)
  cases lead with
  | forLoop => exact ih.forStatement
  | ifElse => exact ih.ifStatement
  | print => exact printStatement_seals fuel
  | returnStmt => exact returnStatement_seals fuel keyword
  | whileLoop => exact ih.whileStatement
  | block => exact (block_seals fuel).bind fun _ => .pure _

/-- A loop with clauses ends as its body does. -/
theorem forStatement_succ (ih : StatementsSeal earlier more finish fuel) :
    Seals earlier more finish (Grammar.forStatement (fuel + 1)) := by
  rw [Grammar.forStatement]
  refine (expect_seals _).bind fun _ => ?_
  -- each clause is followed by something that takes a token
  refine .bind_of_consumes (fun initializer => ?_)
    fun _ => .of_rest fun _ => (expect_consumes _).bind
  refine .bind_of_consumes (fun condition => ?_) fun _ => (expect_consumes _).bind
  refine (expect_seals _).bind fun _ => ?_
  refine .bind_of_consumes (fun increment => ?_) fun _ => (expect_consumes _).bind
  refine (expect_seals _).bind fun _ => ?_
  exact ih.statement.bind fun body => .pure _

/-- Only here it matters what comes next, as an `else` would be taken. -/
theorem ifStatement_succ (ih : StatementsSeal earlier more finish fuel)
    (hmore : ∀ token ∈ more.head?, token.kind ≠ .kwElse) :
    Seals earlier more finish (Grammar.ifStatement (fuel + 1)) := by
  rw [Grammar.ifStatement]
  refine (expect_seals _).bind fun _ => ?_
  refine .bind_of_consumes (fun condition => ?_) fun _ => (expect_consumes _).bind
  refine (expect_seals _).bind fun _ => ih.statement.bind fun thenBranch => ?_
  refine (skipElse_seals hmore).bind fun found => ?_
  cases found with
  | true => exact (ih.statement.bind fun _ => .pure _).bind fun _ => .pure _
  | false => exact .pure _

/-- A loop ends as its body does. -/
theorem whileStatement_succ (ih : StatementsSeal earlier more finish fuel) :
    Seals earlier more finish (Grammar.whileStatement (fuel + 1)) := by
  rw [Grammar.whileStatement]
  refine (expect_seals _).bind fun _ => ?_
  refine .bind_of_consumes (fun condition => ?_) fun _ => (expect_consumes _).bind
  refine (expect_seals _).bind fun _ => ?_
  exact ih.statement.bind fun body => .pure _

end StatementsSeal

variable {fuel}

/-- By induction on the fuel, statements look no further if no `else` comes next. -/
theorem statementsSeal (hmore : ∀ token ∈ more.head?, token.kind ≠ .kwElse) :
    StatementsSeal earlier more finish fuel := by
  induction fuel with
  | zero => exact ⟨outOfFuel_seals, outOfFuel_seals, outOfFuel_seals, outOfFuel_seals⟩
  | succ fuel ih =>
    exact ⟨ih.statement_succ, ih.forStatement_succ, ih.ifStatement_succ hmore,
      ih.whileStatement_succ⟩

/-- A declaration that fits looks no further than its tokens, for an `else` apart. -/
theorem strictDeclaration_seals (hmore : ∀ token ∈ more.head?, token.kind ≠ .kwElse) :
    Seals earlier more finish (strictDeclaration fuel) := by
  cases fuel with
  | zero => exact outOfFuel_seals
  | succ fuel =>
    rw [strictDeclaration]
    refine .take_bind (fun keyword declarator => ?_) (statementsSeal hmore).statement
      (statement_consumes fuel)
    cases declarator with
    | classDecl => exact classDeclaration_seals fuel
    | funDecl => exact (callable_seals fuel .function).bind fun _ => .pure _
    | varDecl => exact varDeclaration_seals fuel

end Statements

/-! ## The recovery at the end of a part -/

/-- Where the recovery has passed over everything, the last token being one that
ends a statement, it stops before the tokens that are put behind. -/
theorem Step.fromBoundary_append_of_nil {last : Token} {ts : List Token}
    (hnil : fromBoundary last ts = [])
    (hends : ∀ token ∈ (last :: ts).getLast?, token.kind.endsStatement) (more : List Token) :
    fromBoundary last (ts ++ more) = more := by
  induction ts generalizing last with
  | nil =>
    have hlast : last.kind.endsStatement := hends last rfl
    cases more with
    | nil => rfl
    | cons token rest =>
      rw [List.nil_append, fromBoundary, if_pos]
      rw [hlast, Bool.true_or]
  | cons token rest ih =>
    rw [fromBoundary] at hnil
    by_cases hstop : last.kind.endsStatement || token.kind.startsStatement
    · rw [if_pos hstop] at hnil
      cases hnil
    · rw [if_neg hstop] at hnil
      rw [List.cons_append, fromBoundary, if_neg hstop]
      rw [List.getLast?_cons_cons] at hends
      exact ih hnil hends

/-- How a part of a program has to end for another one to follow: nothing is
complained about at its end, and either its last token is a semicolon or no
declaration of it was given up. -/
structure Closes (tokens : List Token) (complaints : Array Complaint) : Prop where
  notAtEnd : ∀ complaint ∈ complaints, complaint.token.kind ≠ .eof
  closed : (∀ last ∈ tokens.getLast?, last.kind = .semicolon) ∨
    ∀ complaint ∈ complaints, complaint.cause.isStructural = false

/-- The last token of an end is the last one of the whole. -/
theorem getLast?_of_suffix {ts ts' : List Token} {last : Token} (h : ts' <:+ ts)
    (hlast : last ∈ ts'.getLast?) : last ∈ ts.getLast? := by
  obtain ⟨before, rfl⟩ := h
  rw [Option.mem_def] at hlast ⊢
  rw [List.getLast?_append, hlast, Option.some_or]

/-- What holds of a part holds of the rest of it and of what has been complained
about so far. -/
theorem Closes.mono {ts ts' : List Token} {complaints complaints' new : Array Complaint}
    (h : Closes ts complaints) (hrest : ts' <:+ ts) (hnew : complaints = complaints' ++ new) :
    Closes ts' complaints' := by
  have hmem : ∀ complaint ∈ complaints', complaint ∈ complaints := by
    intro complaint hcomplaint
    rw [hnew]
    exact Array.mem_append_left new hcomplaint
  refine ⟨fun complaint hcomplaint => h.notAtEnd complaint (hmem complaint hcomplaint), ?_⟩
  rcases h.closed with hlast | hpassing
  · exact .inl fun last hl => hlast last (getLast?_of_suffix hrest hl)
  · exact .inr fun complaint hcomplaint => hpassing complaint (hmem complaint hcomplaint)

section Parts

variable {earlier : Array Complaint} {more : List Token} {finish : Token} {fuel : Nat}

/-- A declaration that was given up in a part that closes was given up before the
last token of the part. -/
theorem rest_ne_nil_of_givenUp {x : TokenReader α} {c c' : Cursor}
    (hfinish : c.finish.kind = .eof) (hclose : Closes c.rest c'.complaints)
    (h : x.run c = .error .givenUp c') :
    c'.rest ≠ [] ∧ ∀ last ∈ c.rest.getLast?, last.kind = .semicolon := by
  obtain ⟨new, cause, token, hcomplaints, hcause, htoken⟩ := x.built.givenUp c c' h
  have hmem : (⟨cause, token⟩ : Complaint) ∈ c'.complaints := by
    rw [hcomplaints]
    exact Array.mem_push_self
  have hsemicolon : ∀ last ∈ c.rest.getLast?, last.kind = .semicolon := by
    rcases hclose.closed with hlast | hpassing
    · exact hlast
    · have hfalse := hpassing _ hmem
      rw [hcause] at hfalse
      cases hfalse
  refine ⟨fun hnil => ?_, hsemicolon⟩
  rcases htoken with rfl | ⟨hliteral, hsuffix⟩
  · -- the complaint would be about the end
    have hadv := x.built.advances c
    rw [h] at hadv
    have hfinish' : c'.finish = c.finish := hadv.finish
    apply hclose.notAtEnd _ hmem
    show (c'.rest.headD c'.finish).kind = .eof
    rw [hnil, hfinish']
    exact hfinish
  · -- the literal would be the last token
    rw [hnil] at hsuffix
    have hkind := hsemicolon token (getLast?_of_suffix hsuffix rfl)
    rw [hkind] at hliteral
    cases hliteral

/-- A declaration in a part that closes does the same with another part behind. -/
theorem declaration_placed {c c' : Cursor} {stmt : Option Stmt}
    (hmore : ∀ token ∈ more.head?, token.kind ≠ .kwElse) (hfinish : c.finish.kind = .eof)
    (hclose : Closes c.rest c'.complaints) (h : (declaration fuel).run c = .ok stmt c') :
    (declaration fuel).run (c.placed earlier more finish)
      = .ok stmt (c'.placed earlier more finish) := by
  cases fuel with
  | zero => cases h
  | succ fuel =>
    replace h : Step.recovering (strictDeclaration fuel).run c = _ := h
    show Step.recovering (strictDeclaration fuel).run (c.placed earlier more finish) = _
    unfold Step.recovering at h ⊢
    cases hrun : (strictDeclaration fuel).run c with
    | ok stmt' c₁ =>
      rw [hrun] at h
      cases h
      rw [strictDeclaration_seals hmore c stmt' _ hrun]
    | error halt c₁ =>
      rw [hrun] at h
      cases halt with
      | outOfFuel => cases h
      -- only here the two parts could meet: the reading resumes behind what is dropped
      | givenUp =>
        cases h
        have hclose' : Closes c.rest c₁.complaints := hclose
        obtain ⟨hne, hsemicolon⟩ := rest_ne_nil_of_givenUp hfinish hclose' hrun
        have hhides : (Outcome.cursor ((strictDeclaration fuel).run c)).Hides more finish := by
          rw [hrun]
          exact .inl hne
        rw [(strictDeclaration fuel).built.run_placed c hhides, hrun]
        have hresume : Step.resume (c₁.rest ++ more) = Step.resume c₁.rest ++ more := by
          cases hrest : c₁.rest with
          | nil => exact absurd hrest hne
          | cons token rest =>
            -- without a boundary in the first part its last token has to be one
            by_cases hnil : Step.fromBoundary token rest = []
            · have hadv := (strictDeclaration fuel).built.advances c
              rw [hrun] at hadv
              have hsuffix : token :: rest <:+ c.rest := hrest ▸ hadv.rest
              rw [List.cons_append, Step.resume, Step.resume, hnil, List.nil_append]
              refine Step.fromBoundary_append_of_nil hnil (fun last hlast => ?_) more
              rw [hsemicolon last (getLast?_of_suffix hsuffix hlast)]
              rfl
            · exact Step.resume_append hnil
        dsimp only [Outcome.moved, Cursor.placed]
        rw [hresume]

/-! ## Programs in parts -/

/-- **Reading in parts.** Where a part closes, the reading goes on with what is
put behind it, as if it began there. -/
theorem program_placed {c c' c'' : Cursor} {stmts stmts' : List Stmt}
    (hmore : ∀ token ∈ more.head?, token.kind ≠ .kwElse) (hfinish : c.finish.kind = .eof)
    (hclose : Closes c.rest c'.complaints)
    (hfuel : fuelFor (c.rest.length + more.length) ≤ fuel)
    (h : (program fuel).run c = .ok stmts c')
    (h' : ∀ fuel, fuelFor more.length ≤ fuel →
      (program fuel).run (c'.placed earlier more finish) = .ok stmts' c'') :
    (program fuel).run (c.placed earlier more finish) = .ok (stmts ++ stmts') c'' := by
  induction fuel generalizing c stmts with
  | zero => cases h
  | succ fuel ih =>
    have hall := h' (fuel + 1) (Nat.le_trans (by unfold fuelFor; omega) hfuel)
    rw [program] at h
    obtain ⟨another, c₁, hnext, hrest⟩ := TokenReader.run_bind_eq_ok.mp h
    cases another with
    | false =>
      obtain ⟨rfl, -⟩ := nextIs_eq_false hnext
      cases hrest
      rw [List.nil_append]
      exact hall
    | true =>
      obtain ⟨rfl, token, rest, htoken, -⟩ := nextIs_eq_true hnext
      obtain ⟨stmt, c₂, hdecl, hrest⟩ := TokenReader.run_bind_eq_ok.mp hrest
      obtain ⟨stmts₂, c₃, hprogram, hpure⟩ := TokenReader.run_bind_eq_ok.mp hrest
      cases hpure
      have hadv := TokenReader.advances hdecl
      obtain ⟨new, hnew⟩ := (TokenReader.advances hprogram).complaints
      have hlt : c₂.rest.length < c₁.rest.length :=
        declaration_length_lt (htoken ▸ List.cons_ne_nil token rest) hdecl
      -- the declaration first, then the rest of the part with what is behind it
      have hfirst : (declaration fuel).run (c₁.placed earlier more finish)
          = .ok stmt (c₂.placed earlier more finish) :=
        declaration_placed hmore hfinish (hclose.mono List.suffix_rfl hnew) hdecl
      have hothers := ih (hadv.finish ▸ hfinish) (hclose.mono hadv.rest Array.append_empty.symm)
        (by unfold fuelFor at hfuel ⊢; omega) hprogram
      rw [program]
      have hplaced : (nextIs fun _ => true).run (c₁.placed earlier more finish)
          = .ok true (c₁.placed earlier more finish) := by
        refine nextIs_eq_ok.mpr ⟨rfl, ?_⟩
        rw [Cursor.placed_of_cons htoken]
        rfl
      rw [TokenReader.run_bind_of_ok hplaced, if_pos rfl, TokenReader.run_bind_of_ok hfirst,
        TokenReader.run_bind_of_ok hothers, List.append_assoc]
      rfl

end Parts

/-! ## Lists of tokens -/

/-- The codes of structural complaints. -/
theorem Cause.isStructural_eq_false_of_code {complaint : Complaint}
    (h : complaint.diagnostic.code ≠ some .unexpectedToken ∧
      complaint.diagnostic.code ≠ some .expectedExpression ∧
      complaint.diagnostic.code ≠ some .missingSemicolon) :
    complaint.cause.isStructural = false := by
  obtain ⟨cause, token⟩ := complaint
  obtain ⟨hunexpected, hexpression, hsemicolon⟩ := h
  cases cause with
  | missing slot =>
    by_cases hslot : slot.kind = .semicolon
    · exact absurd (congrArg some (if_pos hslot)) hsemicolon
    · exact absurd (congrArg some (if_neg hslot)) hunexpected
  | noExpression => exact absurd rfl hexpression
  | noLiteral => exact absurd rfl hunexpected
  | tooManyParameters => rfl
  | tooManyArguments => rfl
  | returnOutside => rfl
  | selfInheritance => rfl
  | assignmentTarget => rfl

/-- What stands for the end is an end marker, given or made up. -/
theorem endMarker_kind (tokens : List Token) : (endMarker tokens).kind = .eof := by
  unfold endMarker
  cases hfind : tokens.find? fun t => t.kind == .eof with
  | none => rfl
  | some token =>
    have htoken := List.find?_some hfind
    exact eq_of_beq htoken

/-- A list without end markers is given one on the line of its last token. -/
theorem endMarker_of_no_eof {tokens : List Token} (h : ∀ t ∈ tokens, t.kind ≠ .eof) :
    endMarker tokens = .madeUp .eof "" (tokens.getLast?.elim 1 Token.line) := by
  have hfind : (tokens.find? fun t => t.kind == .eof) = none := by
    rw [List.find?_eq_none]
    intro t ht
    rw [beq_iff_eq]
    exact h t ht
  rw [endMarker, hfind, Option.getD_none]

/-- Tokens without an end marker leave the end to those behind them. -/
theorem endMarker_append {a b : List Token} (ha : ∀ t ∈ a, t.kind ≠ .eof)
    (hb : ∀ t ∈ b, t.kind ≠ .eof) (hne : b ≠ []) : endMarker (a ++ b) = endMarker b := by
  have hab : ∀ t ∈ a ++ b, t.kind ≠ .eof := by
    intro t ht
    rcases List.mem_append.mp ht with h | h
    · exact ha t h
    · exact hb t h
  rw [endMarker_of_no_eof hab, endMarker_of_no_eof hb]
  obtain ⟨last, hlast⟩ := Option.isSome_iff_exists.mp (List.getLast?_isSome.mpr hne)
  rw [List.getLast?_append, hlast, Option.some_or]

/-- Behind other tokens a list is read as if it stood alone: what was complained about
before and the end marker of the whole list make no difference. -/
theorem exists_program_run_behind {a b : List Token} (ha : ∀ t ∈ a, t.kind ≠ .eof)
    (hb : ∀ t ∈ b, t.kind ≠ .eof) (earlier : Array Complaint) :
    ∃ c, c.complaints = earlier ++ (read b).complaints.toArray ∧
      ∀ fuel, fuelFor b.length ≤ fuel →
        (program fuel).run ((Cursor.start b).placed earlier [] (endMarker (a ++ b)))
          = .ok (read b).program c := by
  by_cases hne : b = []
  · subst hne
    refine ⟨(Cursor.start []).placed earlier [] (endMarker (a ++ [])), rfl, fun fuel hfuel => ?_⟩
    obtain ⟨fuel, rfl⟩ : ∃ k, fuel = k + 1 := ⟨fuel - 1, by unfold fuelFor at hfuel; omega⟩
    rfl
  · obtain ⟨stmts, c, hrest, hrun⟩ := exists_program_run (Cursor.start b)
    rw [read_eq_of_run hrun, endMarker_append ha hb hne]
    refine ⟨c.placed earlier [] (endMarker b), rfl, fun fuel hfuel => ?_⟩
    exact TokenReader.run_earlier_of_ok (hrun fuel (by rw [start_rest hb]; exact hfuel))

/-- Reading both parts in one go is reading one after the other, if the first part is closed and
the second does not begin with `else`. -/
theorem read_append {a b : List Token} (ha : ∀ t ∈ a, t.kind ≠ .eof)
    (hb : ∀ t ∈ b, t.kind ≠ .eof) (helse : ∀ t ∈ b.head?, t.kind ≠ .kwElse)
    (hclose : Closes a (read a).complaints.toArray) :
    read (a ++ b) = ⟨(read a).program ++ (read b).program,
      (read a).complaints ++ (read b).complaints⟩ := by
  obtain ⟨stmtsA, cA, hrestA, hrunA⟩ := exists_program_run (Cursor.start a)
  rw [read_eq_of_run hrunA] at hclose ⊢
  obtain ⟨cB, hcomplaints, hrunB⟩ := exists_program_run_behind ha hb cA.complaints
  have hab : ∀ t ∈ a ++ b, t.kind ≠ .eof := List.forall_mem_append.mpr ⟨ha, hb⟩
  -- the whole list is the first part with the second one behind it
  have hstart : Cursor.start (a ++ b)
      = (Cursor.start a).placed #[] b (endMarker (a ++ b)) := by
    have hall := start_rest hab
    have hpart := start_rest ha
    simp only [Cursor.start, Cursor.placed, Cursor.mk.injEq] at hall hpart ⊢
    rw [hall, hpart]
    exact ⟨rfl, trivial, trivial, rfl⟩
  -- where the first part has been read, the second one begins
  have hmiddle : cA.placed #[] b (endMarker (a ++ b))
      = (Cursor.start b).placed cA.complaints [] (endMarker (a ++ b)) := by
    have hdepth : cA.depth = 0 := (TokenReader.advances (hrunA _ (Nat.le_refl _))).depth
    have hpart := start_rest hb
    simp only [Cursor.start, Cursor.placed, Cursor.mk.injEq] at hpart ⊢
    rw [hrestA, hpart, hdepth, List.nil_append, List.append_nil, Array.empty_append,
      Array.append_empty]
    exact ⟨rfl, trivial, rfl, rfl⟩
  rw [← hmiddle] at hrunB
  have hwhole : ∀ fuel, fuelFor (Cursor.start (a ++ b)).rest.length ≤ fuel →
      (program fuel).run (Cursor.start (a ++ b)) = .ok (stmtsA ++ (read b).program) cB := by
    intro fuel hfuel
    rw [start_rest hab, List.length_append] at hfuel
    have hfirst := hrunA fuel (by rw [start_rest ha]; unfold fuelFor at hfuel ⊢; omega)
    rw [hstart]
    refine program_placed helse (endMarker_kind a) ?_ ?_ hfirst hrunB
    · rw [start_rest ha]
      exact hclose
    · rw [start_rest ha]
      exact hfuel
  rw [read_eq_of_run hwhole, hcomplaints, Array.toList_append, List.toList_toArray]

end Lox.Grammar

namespace Lox

open Grammar

/-! ## Programs -/

/-- Behind a part of a program at whose end nothing is wrong, and which ends with
a semicolon or has no structural mistakes, another part is read as if it stood
alone. What the end of the whole program is pointed at by is the end marker of
the second part, so the diagnostics agree in their places, too. -/
theorem Program.ofTokens_append {a b : List Token} (ha : ∀ t ∈ a, t.kind ≠ .eof)
    (hb : ∀ t ∈ b, t.kind ≠ .eof) (helse : ∀ t ∈ b.head?, t.kind ≠ .kwElse)
    (hend : ∀ d ∈ (Program.ofTokens a).diagnostics, d.location ≠ some "at end")
    (hclosed : (∃ t ∈ a.getLast?, t.kind = .semicolon) ∨
      ∀ d ∈ (Program.ofTokens a).diagnostics, d.code ≠ some .unexpectedToken ∧
        d.code ≠ some .expectedExpression ∧ d.code ≠ some .missingSemicolon) :
    Program.ofTokens (a ++ b) =
      ⟨(Program.ofTokens a).stmts ++ (Program.ofTokens b).stmts,
        (Program.ofTokens a).diagnostics ++ (Program.ofTokens b).diagnostics⟩ := by
  have hdiagnostic : ∀ complaint ∈ (read a).complaints.toArray,
      complaint.diagnostic ∈ (Program.ofTokens a).diagnostics := by
    intro complaint hmem
    exact List.mem_map_of_mem (List.mem_toArray.mp hmem)
  have hclose : Closes a (read a).complaints.toArray := by
    constructor
    · intro complaint hmem heof
      apply hend _ (hdiagnostic complaint hmem)
      show some complaint.token.location = some "at end"
      rw [Token.location, if_pos heof]
    · rcases hclosed with ⟨t, hlast, hkind⟩ | hpassing
      · left
        intro last hmem
        rw [Option.mem_def] at hlast hmem
        rw [hlast, Option.some.injEq] at hmem
        rw [← hmem, hkind]
      · right
        intro complaint hmem
        have hcode := hpassing _ (hdiagnostic complaint hmem)
        exact Cause.isStructural_eq_false_of_code hcode
  unfold Program.ofTokens
  dsimp only
  rw [read_append ha hb helse hclose, List.map_append]

/-- A stray operator, passed over up to the semicolon, and behind it a `return`
outside of functions: two parts that both are complained about. -/
theorem Program.ofTokens_append_stray_return :
    let stray : List Token := [.madeUp .star "*" 1, .madeUp .semicolon ";" 1]
    let outside : List Token := [.madeUp .kwReturn "return" 2, .madeUp .semicolon ";" 2]
    Program.ofTokens (stray ++ outside) =
      ⟨(Program.ofTokens stray).stmts ++ (Program.ofTokens outside).stmts,
        (Program.ofTokens stray).diagnostics ++ (Program.ofTokens outside).diagnostics⟩ ∧
    (Program.ofTokens stray).stmts = [] ∧
    (Program.ofTokens stray).diagnostics.map Diagnostic.text
      = ["[line 1] Error at '*': Expect expression."] ∧
    (Program.ofTokens outside).stmts.map Stmt.render = ["(return)"] ∧
    (Program.ofTokens outside).diagnostics.map Diagnostic.text
      = ["[line 2] Error at 'return': Can't return from top-level code."] := by
  intro stray outside
  have hstray : ∀ t ∈ stray, t.kind ≠ .eof := by decide
  have houtside : ∀ t ∈ outside, t.kind ≠ .eof := by decide
  have helse : ∀ t ∈ outside.head?, t.kind ≠ .kwElse := by decide
  have hend : ∀ d ∈ (Program.ofTokens stray).diagnostics, d.location ≠ some "at end" := by
    decide
  have hclosed : ∃ t ∈ stray.getLast?, t.kind = .semicolon := by decide
  exact ⟨Program.ofTokens_append hstray houtside helse hend (.inl hclosed), by rfl,
    by decide +kernel, by decide +kernel, by decide +kernel⟩

end Lox
