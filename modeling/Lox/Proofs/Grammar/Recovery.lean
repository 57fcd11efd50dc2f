/-
`Lox.Proofs.Grammar.Recovery` -- a statement without its semicolon.

That a semicolon is missing is noticed at the token that stands in its place. The
statement before it comes out as nothing, with one complaint about that token, and the
reading resumes at the next boundary *behind* it: the token itself is passed over, even
if it is the closing brace of the block around or a keyword that begins the next
statement. So it is the statement that is lost, and with it all that `Step.resume`
passes over; where nothing worse happens, that is the next statement.

A reader that gives up is described as one that takes tokens is: by what it leaves, and
with every bound that is high enough (`Misses`). Up to the place where it gives up it
takes what the completeness of the grammar says. What stands before the statement plays
no part in this, so it is the same in the program, in a block and in the body of a
function, however deep inside.
-/
import Lox.Proofs.Grammar.Boundary
import Lox.Proofs.Grammar.Element
import Lox.Proofs.Grammar.Language
import Lox.Tree.Render

set_option autoImplicit false

namespace Lox

/-- The statements that end with a semicolon of their own. -/
def Stmt.EndsItself : Stmt → Prop
  | .expression _ | .print _ | .varDecl _ _ | .returnStmt _ _ => True
  | .block _ | .ifElse _ _ _ | .whileLoop _ _ | .funDecl _ | .classDecl _ => False

namespace Grammar

variable {α β : Type}

/-! ## Giving up -/

/-- At the tokens `ts` the reader takes those before `next`, complains about this one and
gives up. -/
def Rejects (x : TokenReader α) (c : Cursor) (ts : List Token) (cause : Cause) (next : Token)
    (rest : List Token) : Prop :=
  x.run { c with rest := ts }
    = .error .givenUp (Cursor.complain { c with rest := next :: rest } cause next)

section Rejects

variable {x : TokenReader α} {f : α → TokenReader β} {c : Cursor} {ts ts' rest : List Token}
  {a : α} {cause : Cause} {next : Token}

/-- A reader that gives up ends the readers after it. -/
theorem Rejects.bind (h : Rejects x c ts cause next rest) :
    Rejects (x >>= f) c ts cause next rest :=
  TokenReader.run_bind_of_error h

/-- Behind one that takes its tokens, the next one may give up. -/
theorem Rejects.of_takes (hx : Takes x c ts a ts') (hf : Rejects (f a) c ts' cause next rest) :
    Rejects (x >>= f) c ts cause next rest :=
  (TokenReader.run_bind_of_ok hx).trans hf

/-- Giving up is complaining about the next token. -/
theorem rejects_giveUpHere (h : cause.isStructural = true) :
    Rejects (giveUpHere cause h : TokenReader α) c (next :: rest) cause next rest :=
  rfl

/-- An expected token that does not come is missed at the one that does. -/
theorem rejects_expect {slot : Slot} (h : next.kind ≠ slot.kind) :
    Rejects (expect slot) c (next :: rest) (.missing slot) next rest := by
  have htake : Takes (take? slot.kind) c (next :: rest) none (next :: rest) :=
    takes_takeIf_none.mpr ⟨rfl, forall_head?_cons (beq_false_of_ne h)⟩
  exact .of_takes htake (rejects_giveUpHere rfl)

end Rejects

/-- With every bound from some one on, the reader gives up. -/
def Misses (f : Nat → TokenReader α) (c : Cursor) (ts : List Token) (cause : Cause) (next : Token)
    (rest : List Token) : Prop :=
  ∃ n, ∀ fuel, n ≤ fuel → Rejects (f fuel) c ts cause next rest

namespace Misses

variable {f : Nat → TokenReader α} {g : Nat → α → TokenReader β} {c : Cursor}
  {ts ts' rest : List Token} {a : α} {cause : Cause} {next : Token}

/-- A reader that has no need of fuel gives up with any. -/
theorem of_rejects (h : ∀ fuel, Rejects (f fuel) c ts cause next rest) :
    Misses f c ts cause next rest :=
  ⟨0, fun fuel _ => h fuel⟩

/-- Giving up ends the readers after it, with every bound from the same on. -/
protected theorem bind (h : Misses f c ts cause next rest) :
    Misses (fun fuel => f fuel >>= g fuel) c ts cause next rest := by
  obtain ⟨n, hn⟩ := h
  exact ⟨n, fun fuel hfuel => (hn fuel hfuel).bind⟩

/-- What was taken before does not matter. -/
theorem of_reads (hf : Reads f c ts a ts')
    (hg : Misses (fun fuel => g fuel a) c ts' cause next rest) :
    Misses (fun fuel => f fuel >>= g fuel) c ts cause next rest := by
  obtain ⟨n, hn⟩ := hf
  obtain ⟨m, hm⟩ := hg
  refine ⟨max n m, fun fuel hfuel => ?_⟩
  exact .of_takes (hn fuel (Nat.le_trans (Nat.le_max_left n m) hfuel))
    (hm fuel (Nat.le_trans (Nat.le_max_right n m) hfuel))

/-- A reader without a bound can be gone past before. -/
theorem step {x : TokenReader α} (hx : Takes x c ts a ts')
    (hg : Misses (fun fuel => g fuel a) c ts' cause next rest) :
    Misses (fun fuel => x >>= g fuel) c ts cause next rest :=
  of_reads (.of_takes fun _ => hx) hg

/-- One unit of fuel less in the bound makes no difference. -/
theorem succ (h : Misses (fun fuel => f (fuel + 1)) c ts cause next rest) :
    Misses f c ts cause next rest := by
  obtain ⟨n, hn⟩ := h
  refine ⟨n + 1, fun fuel hfuel => ?_⟩
  obtain ⟨fuel, rfl⟩ : ∃ k, fuel = k + 1 := ⟨fuel - 1, by omega⟩
  exact hn fuel (by omega)

end Misses

/-! ## Tokens that are not in expressions -/

/-- The token neither begins an expression nor goes on with one, and ends no
statement. -/
structure Outside (t : Token) : Prop where
  looser : looseness t.kind = 8
  fresh : beginsExpression t.kind = false
  noEnd : t.kind ≠ .semicolon

/-- Such are closing braces and the keywords that begin statements. -/
theorem outside_of_boundary {t : Token}
    (h : t.kind = .rightBrace ∨ t.kind.startsStatement = true) : Outside t := by
  rcases h with h | h
  · exact ⟨by rw [h]; rfl, by rw [h]; rfl, by rw [h]; decide⟩
  · have hkind : looseness t.kind = 8 ∧ beginsExpression t.kind = false ∧ t.kind ≠ .semicolon := by
      cases hkind : t.kind <;> rw [hkind] at h <;> first | decide | cases h
    exact ⟨hkind.1, hkind.2.1, hkind.2.2⟩

section Outside

variable {c : Cursor} {next : Token} {rest : List Token}

/-- Such a token is looser than all that go on with an expression. -/
theorem Outside.looser_cons (h : Outside next) : Looser 8 (next :: rest) :=
  Grammar.looser_cons rfl (Nat.le_of_eq h.looser.symm)

/-- No simple expression begins with it. -/
theorem misses_primary (h : Outside next) :
    Misses primary c (next :: rest) .noExpression next rest := by
  have hfresh := h.fresh
  simp only [beginsExpression, beginsPrimary, Bool.or_eq_false_iff, Option.isSome_eq_false_iff,
    Option.isNone_iff_eq_none] at hfresh
  obtain ⟨⟨hliteral, hopening⟩, -⟩ := hfresh
  have hnoLiteral : Takes takeLiteral c (next :: rest) none (next :: rest) :=
    takes_takeLiteral_none.mpr ⟨rfl, forall_head?_cons hliteral⟩
  have hnoOpening : Takes (take Opening.ofKind?) c (next :: rest) none (next :: rest) :=
    takes_take_none.mpr ⟨rfl, forall_head?_cons hopening⟩
  refine .succ (.of_rejects fun fuel => ?_)
  simp only [primary]
  exact .of_takes hnoLiteral (.of_takes hnoOpening (rejects_giveUpHere rfl))

/-- So no operand does, which goes level by level from the tightest. -/
theorem misses_operand (h : Outside next) (level : Level) :
    Misses (operand · level) c (next :: rest) .noExpression next rest := by
  have hunary : Misses unary c (next :: rest) .noExpression next rest := by
    have hfresh := h.fresh
    rw [beginsExpression, Bool.or_eq_false_iff] at hfresh
    refine .succ ?_
    simp only [unary]
    exact .step (takes_takeIf_none.mpr ⟨rfl, forall_head?_cons hfresh.2⟩) (misses_primary h).bind
  have hproduct : Misses (operand · .product) c (next :: rest) .noExpression next rest :=
    .succ hunary
  -- each level is read through the next tighter one
  have hlooser : ∀ level level' : Level, level.tighter? = some level' →
      Misses (operand · level') c (next :: rest) .noExpression next rest →
      Misses (operand · level) c (next :: rest) .noExpression next rest := by
    intro level level' htighter hmisses
    refine .succ ?_
    simp only [operand, htighter]
    refine .succ ?_
    simp only [binary]
    exact hmisses.bind
  have hsum := hlooser .sum .product rfl hproduct
  have hcomparison := hlooser .comparison .sum rfl hsum
  have hequality := hlooser .equality .comparison rfl hcomparison
  have hand := hlooser .and .equality rfl hequality
  have hor := hlooser .or .and rfl hand
  cases level <;> assumption

/-- So no expression does. -/
theorem misses_expression (h : Outside next) :
    Misses expression c (next :: rest) .noExpression next rest := by
  refine .succ ?_
  simp only [expression]
  refine .bind (.succ ?_)
  simp only [binary]
  exact (misses_operand h .or).bind

end Outside

/-! ## Statements that end with a semicolon -/

/-- The tokens would be the statement if a semicolon stood behind them; and without one,
this is what is wrong with what stands there instead. A `return` without a value can be
told from one with a value by the semicolon alone. -/
inductive Unended : List Token → Cause → Stmt → Prop
  | expression {w : List Token} {e : Expr} :
    Derives .expression w e → Unended w (.missing .expressionEnd) (.expression e)
  | print {keyword : Token} {w : List Token} {e : Expr} :
    keyword.kind = .kwPrint → Derives .expression w e →
    Unended (keyword :: w) (.missing .printEnd) (.print e)
  | variable {keyword name : Token} {w : List Token} {init : Option Expr} :
    keyword.kind = .kwVar → name.kind = .identifier → Derives .initializer w init →
    Unended (keyword :: name :: w) (.missing .variableEnd) (.varDecl name init)
  | return {keyword : Token} {w : List Token} {e : Expr} :
    keyword.kind = .kwReturn → Derives .expression w e →
    Unended (keyword :: w) (.missing .returnEnd) (.returnStmt keyword (some e))
  | bareReturn {keyword : Token} :
    keyword.kind = .kwReturn → Unended [keyword] .noExpression (.returnStmt keyword none)

/-- A statement that ends itself is its tokens up to the semicolon, and these would have been
the statement with it. -/
theorem exists_unended_of_statement {ending : Ending} {v : List Token} {stmt : Stmt}
    (h : Derives (.statement ending) v stmt) (hends : stmt.EndsItself) :
    ∃ w semicolon cause, v = w ++ [semicolon] ∧ semicolon.kind = .semicolon ∧
      Unended w cause stmt := by
  cases h with
  | simple hw =>
    cases hw with
    | expressionStatement hw hsemicolon => exact ⟨_, _, _, rfl, hsemicolon, .expression hw⟩
  | print hkeyword hw hsemicolon => exact ⟨_, _, _, rfl, hsemicolon, .print hkeyword hw⟩
  | «return» hkeyword hw hsemicolon =>
    cases hw with
    | missing => exact ⟨_, _, _, rfl, hsemicolon, .bareReturn hkeyword⟩
    | present hw => exact ⟨_, _, _, rfl, hsemicolon, .return hkeyword hw⟩
  | @«for» _ _ _ _ _ _ _ _ first condition increment body =>
    -- the tree of such a loop is a block or another loop
    cases first <;> cases increment <;> exact hends.elim
  | block | «while» | ifThen | ifElse => exact hends.elim

/-- What ends with a semicolon of its own is such a statement. -/
theorem exists_unended {v : List Token} {stmt : Stmt} (h : Derives .declaration v stmt)
    (hends : stmt.EndsItself) :
    ∃ w semicolon cause, v = w ++ [semicolon] ∧ semicolon.kind = .semicolon ∧
      Unended w cause stmt := by
  cases h with
  | variableDeclaration hw =>
    cases hw with
    | varDeclaration hkeyword hname hw hsemicolon =>
      exact ⟨_, _, _, rfl, hsemicolon, .variable hkeyword hname hw⟩
  | statement hw => exact exists_unended_of_statement hw hends
  | classDeclaration | functionDeclaration => exact hends.elim

section Unended

variable {c : Cursor} {w ts rest : List Token} {e : Expr} {next t : Token} {cause : Cause}
  {stmt : Stmt}

/-- If such a token stands where the semicolon should, this is complained about. -/
theorem misses_semicolon {slot : Slot} (hslot : slot.kind = .semicolon)
    (hw : Derives .expression w e) (hproper : e.Proper) (hnext : Outside next) (f : Expr → Stmt) :
    Misses (fun fuel => do
      let expr ← expression fuel
      let _ ← expect slot
      return f expr) c (w ++ next :: rest) (.missing slot) next rest := by
  have hreads : Reads expression c (w ++ next :: rest) e (next :: rest) :=
    hw.completes hproper c _ hnext.looser_cons
  have hmissing : next.kind ≠ slot.kind := hslot ▸ hnext.noEnd
  exact .of_reads hreads (.of_rejects fun _ => (rejects_expect hmissing).bind)

/-- A declaration without a keyword of its own misses what the statement misses. -/
theorem misses_strictDeclaration (ht : Declarator.ofKind? t.kind = none)
    (h : Misses statement c (t :: ts) cause next rest) :
    Misses strictDeclaration c (t :: ts) cause next rest := by
  refine .succ ?_
  simp only [strictDeclaration]
  exact .step (takes_take_none.mpr ⟨rfl, forall_head?_cons ht⟩) h

/-- An initial value is read up to such a token. -/
theorem reads_initialValue {init : Option Expr} (hw : Derives .initializer w init)
    (hproper : ∀ e ∈ init, e.Proper) (hnext : Outside next) :
    Reads initialValue c (w ++ next :: rest) init (next :: rest) := by
  cases hw with
  | uninitialized =>
    have hequal : next.kind ≠ .equal := by
      intro hkind
      have hlooser := hnext.looser
      rw [hkind] at hlooser
      cases hlooser
    exact .step (takes_skip_of_ne hequal) (.pure _)
  | initialized hequals hw =>
    refine .step (takes_skip_true.mpr ⟨_, hequals, rfl⟩) ?_
    exact .bind (hw.completes (hproper _ rfl) c _ hnext.looser_cons) (.pure _)

/-- The reader gives up at what stands in the place of the semicolon. -/
theorem Unended.misses (h : Unended w cause stmt) (hproper : stmt.Proper (c.depth != 0))
    (hnext : Outside next) : Misses strictDeclaration c (w ++ next :: rest) cause next rest := by
  cases h with
  | expression hw =>
    have hmisses : Misses expressionStatement c (w ++ next :: rest) _ next rest :=
      misses_semicolon rfl hw hproper hnext .expression
    -- an expression begins with none of the keywords, so the reader of statements gets it
    obtain ⟨t, w', rfl, ht⟩ := hw.begins
    have hkinds : Declarator.ofKind? t.kind = none ∧ Lead.ofKind? t.kind = none := by
      cases hkind : t.kind <;> rw [hkind] at ht <;> first | exact ⟨rfl, rfl⟩ | cases ht
    refine misses_strictDeclaration hkinds.1 (.succ ?_)
    simp only [statement]
    exact .step (takes_take_none.mpr ⟨rfl, forall_head?_cons hkinds.2⟩) hmisses
  | print hkeyword hw =>
    refine misses_strictDeclaration (by rw [hkeyword]; rfl) (.succ ?_)
    simp only [statement]
    refine .step (takes_take_some.mpr ⟨lead_of_kind .print hkeyword, rfl⟩) ?_
    exact misses_semicolon rfl hw hproper hnext .print
  | «variable» hkeyword hname hw =>
    refine .succ ?_
    simp only [strictDeclaration]
    refine .step (takes_take_some.mpr ⟨by rw [hkeyword]; rfl, rfl⟩) ?_
    refine .step (takes_expect.mpr ⟨hname, rfl⟩) ?_
    refine .of_reads (reads_initialValue hw hproper hnext) (.of_rejects fun _ => ?_)
    exact (rejects_expect hnext.noEnd).bind
  | «return» hkeyword hw =>
    obtain ⟨hinside, hproper⟩ := hproper
    -- the value is read because what comes first in it is no semicolon
    obtain ⟨t, w', rfl, ht⟩ := hw.begins
    refine misses_strictDeclaration (by rw [hkeyword]; rfl) (.succ ?_)
    simp only [statement]
    refine .step (takes_take_some.mpr ⟨lead_of_kind .returnStmt hkeyword, rfl⟩) ?_
    refine .step (takes_inFunction.mpr ⟨hinside.symm, rfl⟩) ?_
    refine .of_reads (.step (takes_at_false (ne_of_begins ht rfl)) (.bind
      (hw.completes (hproper _ rfl) c _ hnext.looser_cons) (.pure _))) ?_
    exact .of_rejects fun _ => (rejects_expect hnext.noEnd).bind
  -- what stands behind the keyword begins no expression, so it is complained about
  | bareReturn hkeyword =>
    refine misses_strictDeclaration (by rw [hkeyword]; rfl) (.succ ?_)
    simp only [statement]
    refine .step (takes_take_some.mpr ⟨lead_of_kind .returnStmt hkeyword, rfl⟩) ?_
    refine .step (takes_inFunction.mpr ⟨hproper.1.symm, rfl⟩) (.bind ?_)
    exact .step (takes_at_false hnext.noEnd) (misses_expression hnext).bind

end Unended

/-! ## Resuming -/

/-- Where the reader gives up, the declaration comes out as nothing, and the reading
resumes behind the token that is complained about. -/
theorem Misses.declaration {c : Cursor} {ts rest : List Token} {cause : Cause} {next : Token}
    (h : Misses strictDeclaration c ts cause next rest) :
    ∃ n, ∀ fuel, n ≤ fuel → (Grammar.declaration fuel).run { c with rest := ts }
      = .ok none (Cursor.complain { c with rest := Step.resume (next :: rest) } cause next) := by
  obtain ⟨n, hn⟩ := h
  refine ⟨n + 1, fun fuel hfuel => ?_⟩
  obtain ⟨fuel, rfl⟩ : ∃ k, fuel = k + 1 := ⟨fuel - 1, by omega⟩
  have hrejects := hn fuel (by omega)
  show Step.recovering (strictDeclaration fuel).run _ = _
  rw [Step.recovering, hrejects]
  rfl

/-- A declaration that has come out as nothing adds nothing to a list. -/
theorem run_none_append (x : TokenReader (List Stmt)) (c : Cursor) :
    (do return (none : Option Stmt).toList ++ (← x) : TokenReader (List Stmt)).run c = x.run c := by
  show Step.bind x.run _ c = _
  unfold Step.bind
  cases x.run c <;> rfl

/-- In a list of declarations, what is passed over might as well not be there, once it has
been complained about. -/
theorem Listing.alike_lost {loop : Nat → TokenReader (List Stmt)} (h : Listing loop) {c : Cursor}
    {ts rest : List Token} {cause : Cause} {next : Token} (hts : HeadIs (· != .rightBrace) ts)
    (hmisses : Misses strictDeclaration c ts cause next rest) :
    Alike loop c ts #[⟨cause, next⟩] (Step.resume (next :: rest)) := by
  obtain ⟨test, htest, hloop⟩ := h.round
  obtain ⟨n, hn⟩ := hmisses.declaration
  obtain ⟨t, w, rfl, ht⟩ := hts
  have hanother : Takes (nextIs test) c (t :: w) true (t :: w) :=
    takes_nextIs_cons (htest _ (bne_iff_ne.mp ht))
  let left := Step.resume (next :: rest)
  refine ⟨max (n + 1) (32 * left.length + 20), fun fuel hfuel => ?_⟩
  obtain ⟨fuel, rfl⟩ : ∃ k, fuel = k + 1 := ⟨fuel - 1, by omega⟩
  -- the list has taken one round more here than there
  have hsettled : Settled left.length (loop fuel) (loop (fuel + 1)) := h.settled (by omega)
  calc (loop (fuel + 1)).run { c with rest := t :: w }
    _ = (loop fuel).run (Cursor.complain { c with rest := left } cause next) := by
        rw [hloop, TokenReader.run_bind_of_ok hanother, if_pos rfl,
          TokenReader.run_bind_of_ok (hn fuel (by omega)), run_none_append]
    _ = (loop (fuel + 1)).run (Cursor.complain { c with rest := left } cause next) :=
        (hsettled _ (Nat.le_refl _)).1

/-- `Recovers ts complaints left`: where the reading resumes at the tokens, it goes on at
those that are left. An `else` at the boundary has lost its `if`. It is complained about
and passed over, up to the next boundary. -/
inductive Recovers : List Token → List Complaint → List Token → Prop
  | here {left : List Token} : (∀ t ∈ left.head?, t.kind ≠ .kwElse) → Recovers left [] left
  | stray {otherwise : Token} {ts left : List Token} {complaints : List Complaint} :
    otherwise.kind = .kwElse → Recovers (Step.resume (otherwise :: ts)) complaints left →
    Recovers (otherwise :: ts) (⟨.noExpression, otherwise⟩ :: complaints) left

/-- Where the reading goes on, no `else` comes next. -/
theorem Recovers.head {ts left : List Token} {complaints : List Complaint}
    (h : Recovers ts complaints left) : ∀ t ∈ left.head?, t.kind ≠ .kwElse := by
  induction h with
  | here hleft => exact hleft
  | stray _ _ ih => exact ih

/-- If no `else` stands at the boundary, nothing more is lost. -/
theorem Recovers.eq_of_head {ts left : List Token} {complaints : List Complaint}
    (h : Recovers ts complaints left) (hts : ∀ t ∈ ts.head?, t.kind ≠ .kwElse) :
    complaints = [] ∧ left = ts := by
  cases h with
  | here => exact ⟨rfl, rfl⟩
  | stray hkind => exact absurd hkind (hts _ rfl)

/-- It goes on at the tokens, or behind some of them. -/
theorem Recovers.suffix {ts left : List Token} {complaints : List Complaint}
    (h : Recovers ts complaints left) : left <:+ ts := by
  induction h with
  | here => exact List.suffix_refl _
  | stray _ _ ih => exact ih.trans (Step.resume_suffix _)

/-- It always goes on somewhere. The recursion is on the tokens, as each `else` is passed. -/
theorem exists_recovers : (ts : List Token) → ∃ complaints left, Recovers ts complaints left
  | [] => ⟨[], [], .here fun t ht => by cases ht⟩
  | token :: rest => by
    by_cases hkind : token.kind = .kwElse
    · obtain ⟨complaints, left, hrecovers⟩ := exists_recovers (Step.resume (token :: rest))
      exact ⟨_, left, .stray hkind hrecovers⟩
    · exact ⟨[], _, .here (forall_head?_cons hkind)⟩
termination_by ts => ts.length
decreasing_by exact Step.length_resume_lt (List.cons_ne_nil token rest)

/-- No statement begins with `else`. -/
theorem misses_else {c : Cursor} {otherwise : Token} {rest : List Token}
    (h : otherwise.kind = .kwElse) :
    Misses strictDeclaration c (otherwise :: rest) .noExpression otherwise rest := by
  have hnext : Outside otherwise := ⟨by rw [h]; rfl, by rw [h]; rfl, by rw [h]; decide⟩
  have hlead : Lead.ofKind? otherwise.kind = none := by rw [h]; rfl
  refine misses_strictDeclaration (by rw [h]; rfl) (.succ ?_)
  simp only [statement]
  refine .step (takes_take_none.mpr ⟨rfl, forall_head?_cons hlead⟩) ?_
  exact (misses_expression hnext).bind

section Lists

variable {loop : Nat → TokenReader (List Stmt)} {w ts left b : List Token} {cause : Cause}
  {next : Token} {stmt : Stmt} {complaints : List Complaint}

/-- So the reader of a list does the same at the boundary as at the tokens where it goes on. -/
theorem Recovers.alike (h : Recovers ts complaints left) (hloop : Listing loop) (c : Cursor) :
    Alike loop c ts complaints.toArray left := by
  induction h generalizing c with
  | here => exact .refl
  | @stray otherwise ts left complaints hkind _ ih =>
    have hfirst : HeadIs (· != .rightBrace) (otherwise :: ts) := .cons hkind rfl ts
    rw [List.toArray_cons]
    exact (hloop.alike_lost hfirst (misses_else hkind)).trans (ih _)

/-- A statement that lacks its semicolon begins like a declaration. -/
theorem Unended.begins (h : Unended w cause stmt) : HeadIs beginsDeclaration w := by
  cases h with
  | expression hw =>
    exact hw.begins.imp fun _ hkind =>
      beginsDeclaration_of_statement (beginsStatement_of_expression hkind)
  | print hkeyword _ | «variable» hkeyword _ _ | «return» hkeyword _ | bareReturn hkeyword =>
    exact .cons hkeyword rfl _

theorem Unended.not_else (h : Unended w cause stmt) (v : List Token) :
    ∀ t ∈ (w ++ v).head?, t.kind ≠ .kwElse := by
  obtain ⟨t, w', rfl, ht⟩ := h.begins
  exact forall_head?_cons (ne_of_begins ht rfl)

/-- In whatever list of declarations it stands: a statement without its semicolon might as
well not be there, nor what is passed over behind it, but for the complaints. -/
theorem Unended.alike {c : Cursor} (h : Unended w cause stmt)
    (hproper : stmt.Proper (c.depth != 0)) (hnext : Outside next)
    (hleft : Recovers (Step.resume (next :: b)) complaints left) (hloop : Listing loop) :
    Alike loop c (w ++ next :: b) (⟨cause, next⟩ :: complaints).toArray left := by
  have hhead := h.begins.ne_rightBrace.append (next :: b)
  rw [List.toArray_cons]
  exact (hloop.alike_lost hhead (h.misses hproper hnext)).trans (hleft.alike hloop _)

end Lists

/-! ## Passing over a statement -/

/-- The token neither ends a statement nor begins one, so that the reading does not resume
at it. -/
def Unbroken (t : Token) : Prop :=
  t.kind.endsStatement = false ∧ t.kind.startsStatement = false

/-- Whether a token is unbroken is seen by its kind. -/
theorem unbroken_of_kind {t : Token} {kind : TokenKind} (h : t.kind = kind)
    (hkind : (kind.endsStatement || kind.startsStatement) = false) : Unbroken t := by
  subst h
  exact Bool.or_eq_false_iff.mp hkind

/-- Operators are. -/
theorem unbroken_of_mem {t : Token} {level : Level} (h : t.kind ∈ level.operators) :
    Unbroken t := by
  refine unbroken_of_kind rfl ?_
  cases level <;> cases hkind : t.kind <;> rw [hkind] at h <;> first | rfl | (revert h; decide)

/-- The phrases that are inside of statements and have none inside. -/
def Symbol.isSimple : Symbol → Bool
  | .primary | .call | .unary | .operand _ | .binary _ | .expression | .arguments
  | .someArguments | .optional | .initializer => true
  | _ => false

/-- In an expression no token ends a statement or begins one. -/
theorem Derives.unbroken {s : Symbol} {w : List Token} {tree : s.Tree} (h : Derives s w tree)
    (hs : s.isSimple = true) : ∀ t ∈ w, Unbroken t := by
  induction h with
  | literal hkind =>
    rcases hkind with hkind | hkind
    · exact List.forall_mem_singleton.mpr (unbroken_of_kind hkind rfl)
    · exact List.forall_mem_singleton.mpr (unbroken_of_kind hkind rfl)
  | trueValue hkind | falseValue hkind | nilValue hkind | this hkind | name hkind =>
    exact List.forall_mem_singleton.mpr (unbroken_of_kind hkind rfl)
  | super hkind hdot hmethod =>
    simp only [List.forall_mem_cons]
    exact ⟨unbroken_of_kind hkind rfl, unbroken_of_kind hdot rfl, unbroken_of_kind hmethod rfl,
      List.forall_mem_nil _⟩
  | grouping hl _ hr ih =>
    simp only [List.forall_mem_cons, List.forall_mem_append]
    exact ⟨unbroken_of_kind hl rfl, ih rfl, unbroken_of_kind hr rfl, List.forall_mem_nil _⟩
  | call _ hl _ hr ih ih' =>
    simp only [List.forall_mem_cons, List.forall_mem_append]
    exact ⟨ih rfl, unbroken_of_kind hl rfl, ih' rfl, unbroken_of_kind hr rfl, List.forall_mem_nil _⟩
  | get _ hdot hname ih =>
    simp only [List.forall_mem_cons, List.forall_mem_append]
    exact ⟨ih rfl, unbroken_of_kind hdot rfl, unbroken_of_kind hname rfl, List.forall_mem_nil _⟩
  | argument _ hcomma _ ih ih' =>
    simp only [List.forall_mem_cons, List.forall_mem_append]
    exact ⟨ih rfl, unbroken_of_kind hcomma rfl, ih' rfl⟩
  | sign hop _ ih =>
    refine List.forall_mem_cons.mpr ⟨?_, ih rfl⟩
    rcases hop with hop | hop
    · exact unbroken_of_kind hop rfl
    · exact unbroken_of_kind hop rfl
  | connected _ _ hop _ ih ih' | joined _ _ hop _ ih ih' =>
    simp only [List.forall_mem_cons, List.forall_mem_append]
    exact ⟨ih rfl, unbroken_of_mem hop, ih' rfl⟩
  | assign hname hequals _ ih =>
    simp only [List.forall_mem_cons]
    exact ⟨unbroken_of_kind hname rfl, unbroken_of_kind hequals rfl, ih rfl⟩
  | set _ hdot hname hequals _ ih ih' =>
    simp only [List.forall_mem_cons, List.forall_mem_append]
    exact ⟨ih rfl, unbroken_of_kind hdot rfl, unbroken_of_kind hname rfl,
      unbroken_of_kind hequals rfl, ih' rfl⟩
  | initialized hequals _ ih =>
    exact List.forall_mem_cons.mpr ⟨unbroken_of_kind hequals rfl, ih rfl⟩
  -- phrases that are nothing but another one
  | callee _ ih | arguments _ ih | lastArgument _ ih | unsigned _ ih | innermost _ ih
  | tighter _ _ ih | single _ ih | value _ ih | present _ ih => exact ih rfl
  | noArguments | missing | uninitialized => exact List.forall_mem_nil _
  | _ => cases hs

/-- Within a statement that ends itself the reading does not resume. -/
theorem Unended.unbroken {keyword : Token} {v : List Token} {cause : Cause} {stmt : Stmt}
    (h : Unended (keyword :: v) cause stmt) (hkeyword : keyword.kind.startsStatement = true) :
    ∀ t ∈ v, Unbroken t := by
  generalize hw : keyword :: v = w at h
  cases h with
  | expression hw' =>
    -- an expression does not begin with a keyword of a statement
    subst hw
    have hnone := (hw'.unbroken rfl keyword List.mem_cons_self).2
    exact absurd (hnone.symm.trans hkeyword) Bool.false_ne_true
  | print _ hw' | «return» _ hw' =>
    cases hw
    exact hw'.unbroken rfl
  | «variable» _ hname hw' =>
    cases hw
    exact List.forall_mem_cons.mpr ⟨unbroken_of_kind hname rfl, hw'.unbroken rfl⟩
  | bareReturn =>
    cases hw
    exact List.forall_mem_nil _

/-- So the next boundary behind it is the one at the semicolon. -/
theorem fromBoundary_of_unbroken {v b : List Token} {last semicolon : Token}
    (hlast : last.kind.endsStatement = false) (hv : ∀ t ∈ v, Unbroken t)
    (hsemicolon : semicolon.kind = .semicolon) :
    Step.fromBoundary last (v ++ semicolon :: b) = b := by
  induction v generalizing last with
  | nil =>
    have hends : semicolon.kind.endsStatement = true := by rw [hsemicolon]; rfl
    have hstarts : semicolon.kind.startsStatement = false := by rw [hsemicolon]; rfl
    rw [List.nil_append, Step.fromBoundary, hlast, hstarts, Bool.or_self, if_neg Bool.false_ne_true]
    cases b with
    | nil => rfl
    | cons t b => rw [Step.fromBoundary, hends, Bool.true_or, if_pos rfl]
  | cons t v ih =>
    obtain ⟨ht, hv⟩ := List.forall_mem_cons.mp hv
    rw [List.cons_append, Step.fromBoundary, hlast, ht.2, Bool.or_self, if_neg Bool.false_ne_true]
    exact ih ht.1 hv

/-! ## Programs -/

/-- A list of tokens is read up to its end marker. -/
theorem start_append_marker {ts : List Token} (h : ∀ t ∈ ts, t.kind ≠ .eof) {marker : Token}
    (hmarker : marker.kind = .eof) : Cursor.start (ts ++ [marker]) = ⟨ts, marker, 0, #[]⟩ := by
  have hpasses : ∀ t ∈ ts, (t.kind != .eof) = true := fun t ht => bne_iff_ne.mpr (h t ht)
  have hnone : (ts.find? fun t => t.kind == .eof) = none :=
    List.find?_eq_none.mpr fun t ht heof => h t ht (eq_of_beq heof)
  rw [Cursor.start, List.takeWhile_append_of_pos hpasses, endMarker, List.find?_append, hnone]
  simp [hmarker]

/-- If two ways to go on come to the same, so do the readings of two whole lists of tokens,
with the end marker of the first one behind the second. -/
theorem read_of_alike {whole other : List Token} {complaints : List Complaint}
    (hwhole : ∀ t ∈ whole, t.kind ≠ .eof) (hother : ∀ t ∈ other, t.kind ≠ .eof)
    (h : Alike program (Cursor.start whole) whole complaints.toArray other) :
    read whole = ⟨(read (other ++ [endMarker whole])).program,
      complaints ++ (read (other ++ [endMarker whole])).complaints⟩ := by
  obtain ⟨n, hn⟩ := h
  rw [start_with_rest hwhole] at hn
  let start : Cursor := ⟨other, endMarker whole, 0, #[]⟩
  have hstart : Cursor.start (other ++ [endMarker whole]) = start :=
    start_append_marker hother (endMarker_kind whole)
  obtain ⟨stmts, c, -, hrun⟩ := exists_program_run start
  -- one bound that is high enough for both
  let fuel := max n
    (max (fuelFor (Cursor.start whole).rest.length) (fuelFor start.rest.length))
  have hplaced : { Cursor.start whole with
        rest := other, complaints := (Cursor.start whole).complaints ++ complaints.toArray }
      = start.placed complaints.toArray [] (endMarker whole) := by
    simp [Cursor.start, Cursor.placed, start]
  have hwholeRun : (program fuel).run (Cursor.start whole)
      = .ok stmts (c.placed complaints.toArray [] (endMarker whole)) := by
    rw [hn fuel (Nat.le_max_left _ _), hplaced]
    exact TokenReader.run_earlier_of_ok (hrun fuel (by omega))
  rw [← hstart] at hrun
  rw [read_eq_of_run hrun, read_eq_of_run_at (by omega) hwholeRun, Cursor.placed,
    Array.toList_append, List.toList_toArray]

/-- A statement without its semicolon, as an element of a list of declarations in a
program. -/
theorem Unended.read {before w b left : List Token} {next : Token} {cause : Cause} {stmt : Stmt}
    {complaints : List Complaint} {inside : Bool} (h : Unended w cause stmt)
    (hbefore : Reaches .declarations false inside before) (hproper : stmt.Proper inside)
    (hnext : Outside next) (hleft : Recovers (Step.resume (next :: b)) complaints left)
    (heof : ∀ t ∈ before ++ (w ++ next :: b), t.kind ≠ .eof) :
    let other := Grammar.read (before ++ left ++ [endMarker (before ++ (w ++ next :: b))])
    Grammar.read (before ++ (w ++ next :: b))
      = ⟨other.program, ⟨cause, next⟩ :: complaints ++ other.complaints⟩ := by
  intro other
  have hpassed : left.Sublist (w ++ next :: b) :=
    (hleft.suffix.trans (Step.resume_suffix _)).sublist.trans (List.sublist_append_right w _)
  have hother : ∀ t ∈ before ++ left, t.kind ≠ .eof :=
    fun t ht => heof t ((hpassed.append_left before).subset ht)
  have helement : ReadAlike .declarations inside (w ++ next :: b)
      (⟨cause, next⟩ :: complaints).toArray left := by
    rintro loop hloop c rfl
    exact h.alike hproper hnext hleft hloop
  have hprogram : Alike program (Cursor.start (before ++ (w ++ next :: b)))
      (before ++ (w ++ next :: b)) (⟨cause, next⟩ :: complaints).toArray (before ++ left) :=
    hbefore.alike (h.not_else _) hleft.head helement program program_listing _ rfl
  exact read_of_alike heof hother hprogram

end Grammar

open Grammar

/-- A statement that ends with a semicolon, as an element of a list of declarations, and
behind it a closing brace or a keyword that begins a statement. Without the semicolon that
token is complained about, and what is read is what would be read if the statement and
all up to the boundary at which the reading resumes were not there. -/
theorem Program.ofTokens_missing_semicolon {before w b : List Token} {semicolon next : Token}
    {stmt : Stmt} {inside : Bool}
    (heof : ∀ t ∈ before ++ (w ++ semicolon :: next :: b), t.kind ≠ .eof)
    (hbefore : Reaches .declarations false inside before)
    (hstmt : Derives .declaration (w ++ [semicolon]) stmt) (hends : stmt.EndsItself)
    (hproper : stmt.Proper inside)
    (hnext : next.kind = .rightBrace ∨ next.kind.startsStatement = true) :
    let without := before ++ (w ++ next :: b)
    ∃ cause complaints left, Unended w cause stmt ∧
      Recovers (Step.resume (next :: b)) complaints left ∧
      let other := Program.ofTokens (before ++ left ++ [endMarker without])
      Program.ofTokens without = ⟨other.stmts,
        (⟨cause, next⟩ :: complaints).map Complaint.diagnostic ++ other.diagnostics⟩ := by
  intro without
  obtain ⟨w', semicolon', cause, hw, -, hunended⟩ := exists_unended hstmt hends
  obtain ⟨rfl, -⟩ := List.append_inj' hw rfl
  obtain ⟨complaints, left, hleft⟩ := exists_recovers (Step.resume (next :: b))
  refine ⟨cause, complaints, left, hunended, hleft, ?_⟩
  have hlost : without.Sublist (before ++ (w ++ semicolon :: next :: b)) :=
    ((List.sublist_cons_self semicolon (next :: b)).append_left w).append_left before
  have hwithout : ∀ t ∈ without, t.kind ≠ .eof := fun t ht => heof t (hlost.subset ht)
  have hread := hunended.read hbefore hproper (outside_of_boundary hnext) hleft hwithout
  unfold Program.ofTokens
  dsimp only
  rw [hread, List.map_append]

/-- `fun f() {print nil; print true print false; print nil;}`: of the body of the function
the statement is lost that has no semicolon, and the one behind it. -/
theorem Program.ofTokens_missing_semicolon_function :
    let print : Token := .madeUp .kwPrint "print" 1
    let semicolon : Token := .madeUp .semicolon ";" 1
    let first : List Token := [print, .madeUp .kwNil "nil" 1, semicolon]
    let second : List Token := [print, .madeUp .kwTrue "true" 1]
    let third : List Token := [.madeUp .kwFalse "false" 1, semicolon]
    let before : List Token := [.madeUp .kwFun "fun" 1, .madeUp .identifier "f" 1,
      .madeUp .leftParen "(" 1, .madeUp .rightParen ")" 1, .madeUp .leftBrace "\x7b" 1] ++ first
    let behind : List Token := first ++ [.madeUp .rightBrace "\x7d" 1]
    let without := before ++ (second ++ print :: (third ++ behind))
    (Program.ofTokens (before ++ (second ++ semicolon :: print :: (third ++ behind)))).diagnostics
        = [] ∧
      (Program.ofTokens without).stmts
        = (Program.ofTokens (before ++ behind ++ [endMarker without])).stmts ∧
      (Program.ofTokens without).diagnostics.map Diagnostic.location = [some "at 'print'"] := by
  intro print semicolon first second third before behind without
  have heof : ∀ t ∈ before ++ (second ++ semicolon :: print :: (third ++ behind)),
      t.kind ≠ .eof := by decide
  have hfirst : Derives .declaration first (.print (.literal .nil)) :=
    .statement (.print (w := [.madeUp .kwNil "nil" 1]) rfl
      (Derives.expression_of_call (.callee (.nilValue rfl))) rfl)
  have hsecond : Derives .declaration (second ++ [semicolon]) (.print (.literal (.bool true))) :=
    .statement (.print (w := [.madeUp .kwTrue "true" 1]) rfl
      (Derives.expression_of_call (.callee (.trueValue rfl))) rfl)
  have hbody : Reaches .declarations true true (first ++ []) := .behind hfirst trivial .here
  have hbefore : Reaches .declarations false true before :=
    .element (.functionDeclaration rfl
      (.function (u := []) rfl rfl .noParameters (Nat.zero_le _) rfl rfl hbody))
  obtain ⟨cause, complaints, left, -, hleft, hread⟩ :=
    Program.ofTokens_missing_semicolon heof hbefore hsecond trivial trivial (.inr rfl)
  have hresume : Step.resume (print :: (third ++ behind)) = behind := rfl
  obtain ⟨rfl, rfl⟩ := (hresume ▸ hleft).eq_of_head (by decide)
  have hstmts := congrArg Program.stmts hread
  exact ⟨by decide +kernel, hstmts, by decide +kernel⟩

/-- Between two statements that end with a semicolon, of which the second begins with a
keyword: without the semicolon both are lost, and nothing else, for one complaint. -/
theorem Program.ofTokens_missing_semicolon_between {before w v b : List Token}
    {semicolon keyword last : Token} {stmt stmt' : Stmt} {inside : Bool}
    (heof : ∀ t ∈ before ++ (w ++ keyword :: (v ++ last :: b)), t.kind ≠ .eof)
    (hbefore : Reaches .declarations false inside before)
    (hstmt : Derives .declaration (w ++ [semicolon]) stmt) (hends : stmt.EndsItself)
    (hproper : stmt.Proper inside) (hkeyword : keyword.kind.startsStatement = true)
    (hstmt' : Derives .declaration (keyword :: (v ++ [last])) stmt') (hends' : stmt'.EndsItself)
    (helse : ∀ t ∈ b.head?, t.kind ≠ .kwElse) :
    let without := before ++ (w ++ keyword :: (v ++ last :: b))
    let other := Program.ofTokens (before ++ b ++ [endMarker without])
    ∃ cause, Unended w cause stmt ∧ Program.ofTokens without =
      ⟨other.stmts, Complaint.diagnostic ⟨cause, keyword⟩ :: other.diagnostics⟩ := by
  intro without other
  obtain ⟨w', semicolon', cause, hw, -, hunended⟩ := exists_unended hstmt hends
  obtain ⟨rfl, -⟩ := List.append_inj' hw rfl
  obtain ⟨v', last', cause', hv, hlast, hunended'⟩ := exists_unended hstmt' hends'
  rw [← List.cons_append] at hv
  obtain ⟨rfl, hlasts⟩ := List.append_inj' hv rfl
  cases hlasts
  have hnoEnd : keyword.kind.endsStatement = false := by
    cases hkind : keyword.kind <;> rw [hkind] at hkeyword <;> first | rfl | cases hkeyword
  have hresume : Step.resume (keyword :: (v ++ last :: b)) = b :=
    fromBoundary_of_unbroken hnoEnd (hunended'.unbroken hkeyword) hlast
  have hleft : Recovers (Step.resume (keyword :: (v ++ last :: b))) [] b := by
    rw [hresume]
    exact .here helse
  have hread := hunended.read hbefore hproper (outside_of_boundary (.inr hkeyword)) hleft heof
  refine ⟨cause, hunended, ?_⟩
  unfold Program.ofTokens
  dsimp only
  rw [hread, List.singleton_append, List.map_cons]
  rfl

/-- Two texts in which nothing is wrong, and what is read of them when a semicolon is
taken away: in the first one the statement behind it is lost as well, and in the second
one the block around it and what stands behind the block, with a second complaint. -/
theorem Program.missing_semicolon_costs_more :
    let statements := (scan "print nil;print true;print false;print nil;").tokens.dropLast
    let block := (scan "\x7bprint nil;\x7dprint true;").tokens.dropLast
    (Program.ofTokens statements).diagnostics = [] ∧
      (Program.ofTokens statements).stmts.map Stmt.render =
        ["(print nil)", "(print true)", "(print false)", "(print nil)"] ∧
      (Program.ofTokens (statements.eraseIdx 5)).diagnostics.length = 1 ∧
      (Program.ofTokens (statements.eraseIdx 5)).stmts.map Stmt.render =
        ["(print nil)", "(print nil)"] ∧
      (Program.ofTokens block).diagnostics = [] ∧
      (Program.ofTokens block).stmts.length = 2 ∧
      (Program.ofTokens (block.eraseIdx 3)).diagnostics.length = 2 ∧
      (Program.ofTokens (block.eraseIdx 3)).stmts.length = 0 := by
  decide +kernel

end Lox
