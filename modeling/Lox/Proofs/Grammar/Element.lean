/-
`Lox.Proofs.Grammar.Element` -- where the elements of lists of declarations begin.

A program is a list of declarations, and so is what stands in a block and in the body of
a function. `Reaches` says what may stand before an element of such a list, however deep
inside: there is one rule for each rule of the grammar that has a list inside, and the
phrases that have been passed are whole.

A reader looks at one token only, so it comes to the element in the same way whatever
follows. If there are two ways to go on from there that come to the same but for some
complaints, it makes no difference what stands before, which is the result of this module
(`Reaches.alike`).
-/
import Lox.Proofs.Grammar.Completeness

set_option autoImplicit false

namespace Lox.Grammar

variable {α β : Type}

/-! ## Tokens before an element -/

/-- `Reaches s outer inner w`: the tokens begin a phrase of the sort `s`, and end where
an element of a list of declarations in it may begin. Whether a function is around the
phrase is said by `outer`, and whether one is around the element by `inner`. -/
inductive Reaches : Symbol → Bool → Bool → List Token → Prop
  -- declaration*
  | here {inside : Bool} : Reaches .declarations inside inside []
  | element {outer inner : Bool} {w : List Token} :
    Reaches .declaration outer inner w → Reaches .declarations outer inner w
  | behind {outer inner : Bool} {u v : List Token} {stmt : Stmt} :
    Derives .declaration u stmt → stmt.Proper outer → Reaches .declarations outer inner v →
    Reaches .declarations outer inner (u ++ v)
  -- the statements with statements inside
  | block {outer inner : Bool} {ending : Ending} {l : Token} {w : List Token} :
    l.kind = .leftBrace → Reaches .declarations outer inner w →
    Reaches (.statement ending) outer inner (l :: w)
  | while {outer inner : Bool} {ending : Ending} {keyword l r : Token} {u w : List Token}
      {condition : Expr} :
    keyword.kind = .kwWhile → l.kind = .leftParen → Derives .expression u condition →
    condition.Proper → r.kind = .rightParen → Reaches (.statement ending) outer inner w →
    Reaches (.statement ending) outer inner (keyword :: l :: (u ++ r :: w))
  | for {outer inner : Bool} {ending : Ending} {keyword l semicolon r : Token}
      {u v x w : List Token} {first : Option Stmt} {condition increment : Option Expr} :
    keyword.kind = .kwFor → l.kind = .leftParen → Derives .firstClause u first →
    (∀ stmt ∈ first, stmt.Proper outer) → Derives .optional v condition →
    (∀ e ∈ condition, e.Proper) → semicolon.kind = .semicolon → Derives .optional x increment →
    (∀ e ∈ increment, e.Proper) → r.kind = .rightParen → Reaches (.statement ending) outer inner w →
    Reaches (.statement ending) outer inner
      (keyword :: l :: (u ++ (v ++ semicolon :: (x ++ r :: w))))
  | thenBranch {outer inner : Bool} {ending : Ending} {keyword l r : Token} {u w : List Token}
      {condition : Expr} :
    keyword.kind = .kwIf → l.kind = .leftParen → Derives .expression u condition →
    condition.Proper → r.kind = .rightParen → Reaches (.statement ending) outer inner w →
    Reaches (.statement ending) outer inner (keyword :: l :: (u ++ r :: w))
  | elseBranch {outer inner : Bool} {ending : Ending} {keyword l r otherwise : Token}
      {u v w : List Token} {condition : Expr} {thenBranch : Stmt} :
    keyword.kind = .kwIf → l.kind = .leftParen → Derives .expression u condition →
    condition.Proper → r.kind = .rightParen → Derives (.statement .complete) v thenBranch →
    thenBranch.Proper outer → otherwise.kind = .kwElse →
    Reaches (.statement ending) outer inner w →
    Reaches (.statement ending) outer inner (keyword :: l :: (u ++ r :: (v ++ otherwise :: w)))
  -- functions and classes
  | function {outer inner : Bool} {name l r lb : Token} {u w params : List Token} :
    name.kind = .identifier → l.kind = .leftParen → Derives .parameters u params →
    params.length ≤ maxEntries → r.kind = .rightParen → lb.kind = .leftBrace →
    Reaches .declarations true inner w →
    Reaches .function outer inner (name :: l :: (u ++ r :: lb :: w))
  | method {outer inner : Bool} {w : List Token} :
    Reaches .function outer inner w → Reaches .methods outer inner w
  | laterMethod {outer inner : Bool} {u w : List Token} {decl : FunctionDecl} :
    Derives .function u decl → decl.Proper → Reaches .methods outer inner w →
    Reaches .methods outer inner (u ++ w)
  | statement {outer inner : Bool} {ending : Ending} {w : List Token} :
    Reaches (.statement ending) outer inner w → Reaches .declaration outer inner w
  | functionDeclaration {outer inner : Bool} {keyword : Token} {w : List Token} :
    keyword.kind = .kwFun → Reaches .function outer inner w →
    Reaches .declaration outer inner (keyword :: w)
  | classDeclaration {outer inner : Bool} {keyword name l : Token} {u w : List Token}
      {superclass : Option Expr} :
    keyword.kind = .kwClass → name.kind = .identifier → Derives .superclass u superclass →
    (∀ parent, superclass = some (.variable parent) → parent.lexeme ≠ name.lexeme) →
    l.kind = .leftBrace → Reaches .methods outer inner w →
    Reaches .declaration outer inner (keyword :: name :: (u ++ l :: w))

/-- The tokens up to an element begin like the phrase that they begin. -/
theorem Reaches.begins {s : Symbol} {outer inner : Bool} {w : List Token}
    (h : Reaches s outer inner w) : s.Begins w := by
  induction h with
  | here => exact .inl rfl
  | element _ ih => exact .inr ih
  | behind hu => exact .inr (hu.begins.append _)
  | block hkind | «while» hkind | «for» hkind | thenBranch hkind | elseBranch hkind =>
    exact .cons hkind rfl _
  | function hkind => exact ⟨_, _, rfl, beq_iff_eq.mpr hkind⟩
  | method | laterMethod => trivial
  | statement _ ih => exact ih.imp fun _ => beginsDeclaration_of_statement
  | functionDeclaration hkind | classDeclaration hkind => exact .cons hkind rfl _

/-! ## Readers that do the same -/

/-- At both lists of tokens the reader does the same with every bound from some one on, if
the complaints have been made before the second one. -/
def Alike (f : Nat → TokenReader α) (c : Cursor) (ts : List Token) (complaints : Array Complaint)
    (ts' : List Token) : Prop :=
  ∃ n, ∀ fuel, n ≤ fuel → (f fuel).run { c with rest := ts }
    = (f fuel).run { c with rest := ts', complaints := c.complaints ++ complaints }

namespace Alike

variable {f : Nat → TokenReader α} {g : Nat → α → TokenReader β} {c : Cursor}
  {ts ts' u u' : List Token} {a : α} {complaints : Array Complaint}

/-- A reader does the same at the same tokens. -/
theorem refl : Alike f c ts #[] ts :=
  ⟨0, fun fuel _ => by rw [Array.append_empty]⟩

/-- Doing the same goes on from the second list of tokens to a third, with the complaints of
both ways. -/
theorem trans {later : Array Complaint} (h : Alike f c ts complaints ts')
    (h' : Alike f { c with complaints := c.complaints ++ complaints } ts' later u) :
    Alike f c ts (complaints ++ later) u := by
  obtain ⟨n, hn⟩ := h
  obtain ⟨m, hm⟩ := h'
  refine ⟨max n m, fun fuel hfuel => ?_⟩
  rw [hn fuel (by omega), ← Array.append_assoc]
  exact hm fuel (by omega)

/-- If the first reader does the same at both places, so does what follows it. -/
protected theorem bind (h : Alike f c ts complaints ts') :
    Alike (fun fuel => f fuel >>= g fuel) c ts complaints ts' := by
  obtain ⟨n, hn⟩ := h
  refine ⟨n, fun fuel hfuel => ?_⟩
  show Step.bind _ _ _ = Step.bind _ _ _
  rw [Step.bind, hn fuel hfuel, Step.bind]

/-- Both begin with the same phrase. -/
theorem of_reads (hu : ∀ earlier : Array Complaint,
      Reads f { c with complaints := earlier } ts a u ∧
        Reads f { c with complaints := earlier } ts' a u')
    (h : Alike (fun fuel => g fuel a) c u complaints u') :
    Alike (fun fuel => f fuel >>= g fuel) c ts complaints ts' := by
  obtain ⟨k, hk⟩ := (hu c.complaints).1
  obtain ⟨m, hm⟩ := (hu (c.complaints ++ complaints)).2
  obtain ⟨n, hn⟩ := h
  refine ⟨max k (max m n), fun fuel hfuel => ?_⟩
  rw [TokenReader.run_bind_of_ok (hk fuel (by omega)),
    TokenReader.run_bind_of_ok (hm fuel (by omega))]
  exact hn fuel (by omega)

/-- A reader that takes its tokens without a complaint can be gone past, and the rest compared.
-/
theorem step {x : TokenReader α} (hx : ∀ earlier : Array Complaint,
      Takes x { c with complaints := earlier } ts a u ∧
        Takes x { c with complaints := earlier } ts' a u')
    (h : Alike (fun fuel => g fuel a) c u complaints u') :
    Alike (fun fuel => x >>= g fuel) c ts complaints ts' :=
  of_reads (fun earlier => ⟨.of_takes fun _ => (hx earlier).1, .of_takes fun _ => (hx earlier).2⟩) h

/-- A phrase that may end before any token. -/
theorem phrase {w : List Token}
    (hw : ∀ (earlier : Array Complaint) rest,
      Reads f { c with complaints := earlier } (w ++ rest) a rest)
    (h : Alike (fun fuel => g fuel a) c u complaints u') :
    Alike (fun fuel => f fuel >>= g fuel) c (w ++ u) complaints (w ++ u') :=
  of_reads (fun earlier => ⟨hw earlier u, hw earlier u'⟩) h

/-- A phrase that may end before this token. -/
theorem phrase_before {w : List Token} {t : Token}
    (hw : ∀ (earlier : Array Complaint) rest,
      Reads f { c with complaints := earlier } (w ++ t :: rest) a (t :: rest))
    (h : Alike (fun fuel => g fuel a) c (t :: u) complaints (t :: u')) :
    Alike (fun fuel => f fuel >>= g fuel) c (w ++ t :: u) complaints (w ++ t :: u') :=
  of_reads (fun earlier => ⟨hw earlier u, hw earlier u'⟩) h

/-- A token is taken. -/
theorem taking {x : TokenReader α} {t : Token}
    (hx : ∀ (earlier : Array Complaint) rest,
      Takes x { c with complaints := earlier } (t :: rest) a rest)
    (h : Alike (fun fuel => g fuel a) c u complaints u') :
    Alike (fun fuel => x >>= g fuel) c (t :: u) complaints (t :: u') :=
  step (fun earlier => ⟨hx earlier u, hx earlier u'⟩) h

/-- This holds for a token that is expected and there. -/
theorem expect {slot : Slot} {t : Token} {g : Nat → Token → TokenReader β}
    (hkind : t.kind = slot.kind) (h : Alike (fun fuel => g fuel t) c u complaints u') :
    Alike (fun fuel => Grammar.expect slot >>= g fuel) c (t :: u) complaints (t :: u') :=
  taking (fun _ _ => takes_expect.mpr ⟨hkind, rfl⟩) h

/-- One step of fuel makes no difference, as there is enough. -/
theorem succ (h : Alike (fun fuel => f (fuel + 1)) c ts complaints ts') :
    Alike f c ts complaints ts' := by
  obtain ⟨n, hn⟩ := h
  refine ⟨n + 1, fun fuel hfuel => ?_⟩
  obtain ⟨fuel, rfl⟩ : ∃ k, fuel = k + 1 := ⟨fuel - 1, by omega⟩
  exact hn fuel (by omega)

/-- Nor does what is done with the result. -/
protected theorem map {g : α → β} (h : Alike f c ts complaints ts') :
    Alike (fun fuel => g <$> f fuel) c ts complaints ts' :=
  h.bind

/-- Two readers that do the same recover in the same way. -/
protected theorem recovering (h : Alike f c ts complaints ts') :
    Alike (fun fuel => recovering (f fuel)) c ts complaints ts' := by
  obtain ⟨n, hn⟩ := h
  refine ⟨n, fun fuel hfuel => ?_⟩
  show Step.recovering _ _ = Step.recovering _ _
  rw [Step.recovering, hn fuel hfuel, Step.recovering]

/-- Inside of a function they do the same as one deeper. -/
protected theorem insideBody
    (h : Alike f { c with depth := c.depth + 1 } ts complaints ts') :
    Alike (fun fuel => insideBody (f fuel)) c ts complaints ts' := by
  obtain ⟨n, hn⟩ := h
  refine ⟨n, fun fuel hfuel => ?_⟩
  exact congrArg (Outcome.moved fun c => { c with depth := c.depth - 1 }) (hn fuel hfuel)

end Alike

/-! ## Lists of declarations -/

/-- A reader of a list of declarations: the one inside of braces, or that of the whole
program. They differ in whether a closing brace ends the list. -/
structure Listing (loop : Nat → TokenReader (List Stmt)) : Prop where
  round : ∃ test : TokenKind → Bool, (∀ kind, kind ≠ .rightBrace → test kind = true) ∧
    ∀ fuel, loop (fuel + 1) = do
      if ← nextIs test then
        let stmt ← declaration fuel
        return stmt.toList ++ (← loop fuel)
      else return []
  settled : ∀ {fuel n : Nat}, 32 * n + 19 ≤ fuel → Settled n (loop fuel) (loop (fuel + 1))

/-- The declarations of a block end at a brace. -/
theorem declarations_listing : Listing declarations where
  round := ⟨(· != .rightBrace), fun _ => bne_iff_ne.mpr, fun _ => by rw [declarations]⟩
  settled hfuel := (statementsSettled _).declarations _ hfuel

/-- Those of a program do not. -/
theorem program_listing : Listing program where
  round := ⟨fun _ => true, fun _ _ => rfl, fun _ => by rw [program]⟩
  settled := program_settled

section Listing

variable {loop : Nat → TokenReader (List Stmt)} {c : Cursor} {u ts ts' : List Token} {stmt : Stmt}
  {complaints : Array Complaint}

/-- What begins a declaration is no closing brace. -/
theorem HeadIs.ne_rightBrace (h : HeadIs beginsDeclaration u) : HeadIs (· != .rightBrace) u := by
  obtain ⟨t, w, rfl, ht⟩ := h
  exact ⟨t, w, rfl, bne_iff_ne.mpr (ne_of_begins ht rfl)⟩

/-- Where the list does not end, another declaration is read. -/
theorem Listing.alike_round (h : Listing loop) (hts : HeadIs (· != .rightBrace) ts)
    (hts' : HeadIs (· != .rightBrace) ts')
    (hround : Alike (fun fuel => do
      let stmt ← declaration fuel
      return stmt.toList ++ (← loop fuel)) c ts complaints ts') :
    Alike loop c ts complaints ts' := by
  obtain ⟨test, htest, hloop⟩ := h.round
  obtain ⟨t, w, rfl, ht⟩ := hts
  obtain ⟨t', w', rfl, ht'⟩ := hts'
  refine .succ ?_
  simp only [hloop]
  exact .step (fun _ => ⟨takes_nextIs_cons (htest _ (bne_iff_ne.mp ht)),
    takes_nextIs_cons (htest _ (bne_iff_ne.mp ht'))⟩) hround

/-- Inside of the first declaration. -/
theorem Listing.alike_element (h : Listing loop) (hts : HeadIs (· != .rightBrace) ts)
    (hts' : HeadIs (· != .rightBrace) ts') (hfirst : Alike declaration c ts complaints ts') :
    Alike loop c ts complaints ts' :=
  h.alike_round hts hts' hfirst.bind

/-- Behind a declaration, which does not end with an `if` that an `else` follows. -/
theorem Listing.alike_behind (h : Listing loop) (hu : Derives .declaration u stmt)
    (hproper : stmt.Proper (c.depth != 0)) (hts : ∀ t ∈ ts.head?, t.kind ≠ .kwElse)
    (hts' : ∀ t ∈ ts'.head?, t.kind ≠ .kwElse) (hrest : Alike loop c ts complaints ts') :
    Alike loop c (u ++ ts) complaints (u ++ ts') := by
  have hhead := hu.begins.ne_rightBrace
  have hreads : ∀ earlier : Array Complaint,
      Reads declaration { c with complaints := earlier } (u ++ ts) (some stmt) ts ∧
        Reads declaration { c with complaints := earlier } (u ++ ts') (some stmt) ts' :=
    fun earlier => ⟨hu.completes { c with complaints := earlier } hproper ts hts,
      hu.completes { c with complaints := earlier } hproper ts' hts'⟩
  exact h.alike_round (hhead.append ts) (hhead.append ts') (.of_reads hreads hrest.bind)

end Listing

/-! ## What stands before makes no difference -/

/-- The reader of the phrases of a sort does the same at both lists of tokens, if the
complaints have been made before the second one. Only of phrases with lists of
declarations in them something is said. -/
def ReadAlike : Symbol → Bool → List Token → Array Complaint → List Token → Prop
  | .declarations, inside, ts, complaints, ts' => ∀ loop, Listing loop →
    ∀ c : Cursor, (c.depth != 0) = inside → Alike loop c ts complaints ts'
  | .declaration, inside, ts, complaints, ts' =>
    ∀ c : Cursor, (c.depth != 0) = inside → Alike declaration c ts complaints ts'
  | .statement _, inside, ts, complaints, ts' =>
    ∀ c : Cursor, (c.depth != 0) = inside → Alike statement c ts complaints ts'
  | .function, _, ts, complaints, ts' => ∀ c sort, Alike (callable · sort) c ts complaints ts'
  | .methods, _, ts, complaints, ts' => ∀ c, Alike methods c ts complaints ts'
  | _, _, _, _, _ => True

section Phrases

variable {c : Cursor} {ts ts' : List Token} {complaints : Array Complaint} {inside : Bool}

/-- A statement that is known by its first token. -/
theorem alike_statement_of_lead {keyword : Token} (lead : Lead)
    (hkind : keyword.kind = lead.keyword) (h : Alike (fun fuel => match lead with
      | .forLoop => forStatement fuel
      | .ifElse => ifStatement fuel
      | .print => printStatement fuel
      | .returnStmt => returnStatement fuel keyword
      | .whileLoop => whileStatement fuel
      | .block => return .block (← block fuel)) c ts complaints ts') :
    Alike statement c (keyword :: ts) complaints (keyword :: ts') := by
  have hlead := lead_of_kind lead hkind
  refine .succ ?_
  simp only [statement]
  refine .taking (fun _ _ => takes_take_some.mpr ⟨hlead, rfl⟩) ?_
  cases lead <;> exact h

/-- A declaration that is known by its first token. -/
theorem alike_declaration_of_declarator {keyword : Token} (declarator : Declarator)
    (hkind : keyword.kind = declarator.keyword)
    (h : Alike (fun fuel => match declarator with
      | .classDecl => classDeclaration fuel
      | .funDecl => return .funDecl (← callable fuel .function)
      | .varDecl => varDeclaration fuel) c ts complaints ts') :
    Alike declaration c (keyword :: ts) complaints (keyword :: ts') := by
  have hdeclarator : Declarator.ofKind? keyword.kind = some declarator := by
    rw [hkind]
    cases declarator <;> rfl
  refine .succ ?_
  simp only [declaration]
  refine .recovering (.succ ?_)
  simp only [strictDeclaration]
  refine .taking (fun _ _ => takes_take_some.mpr ⟨hdeclarator, rfl⟩) ?_
  cases declarator <;> exact h

/-- A statement as a declaration. -/
theorem alike_declaration_of_statement {w : List Token} (hbegins : HeadIs beginsStatement w)
    (h : Alike statement c (w ++ ts) complaints (w ++ ts')) :
    Alike declaration c (w ++ ts) complaints (w ++ ts') := by
  obtain ⟨t, w', rfl, ht⟩ := hbegins
  have hdeclarator : Declarator.ofKind? t.kind = none := by
    cases hkind : t.kind <;> rw [hkind] at ht <;> first | rfl | cases ht
  refine .succ ?_
  simp only [declaration]
  refine .recovering (.succ ?_)
  simp only [strictDeclaration]
  exact .step (fun _ => ⟨takes_take_none.mpr ⟨rfl, forall_head?_cons hdeclarator⟩,
    takes_take_none.mpr ⟨rfl, forall_head?_cons hdeclarator⟩⟩) h

/-- In a block the reader does the same if it does so at its declarations. -/
theorem alike_block (h : ReadAlike .declarations inside ts complaints ts')
    (hc : (c.depth != 0) = inside) : Alike block c ts complaints ts' := by
  refine .succ ?_
  simp only [block]
  exact .bind (h declarations declarations_listing c hc)

/-- Another method is read. -/
theorem alike_methods {w : List Token} (hbegins : HeadIs (· == .identifier) w)
    (h : Alike (fun fuel => do
      let method ← callable fuel .method
      return method :: (← methods fuel)) c (w ++ ts) complaints (w ++ ts')) :
    Alike methods c (w ++ ts) complaints (w ++ ts') := by
  obtain ⟨t, w', rfl, ht⟩ := hbegins
  have hanother : (t.kind != .rightBrace) = true := by
    rw [eq_of_beq ht]
    rfl
  refine .succ ?_
  simp only [methods]
  exact .step (fun _ => ⟨takes_nextIs_cons hanother, takes_nextIs_cons hanother⟩) h

end Phrases

/-- A condition in parentheses. -/
theorem reads_condition {u : List Token} {e : Expr} {r : Token} (hu : Derives .expression u e)
    (hproper : e.Proper) (hr : r.kind = .rightParen) (c : Cursor) (rest : List Token) :
    Reads expression c (u ++ r :: rest) e (r :: rest) :=
  hu.completes hproper c _ (looser_cons hr (Nat.le_refl 8))

/-- A clause of a loop, before the token that ends it. -/
theorem reads_clause {u : List Token} {found : Option Expr} {t : Token} {kind : TokenKind}
    (hu : Derives .optional u found) (hproper : ∀ e ∈ found, e.Proper) (ht : t.kind = kind)
    (hkind : kind = .semicolon ∨ kind = .rightParen) (c : Cursor) (rest : List Token) :
    Reads (expressionBefore · kind) c (u ++ t :: rest) found (t :: rest) := by
  subst ht
  exact hu.completes hproper c t rest hkind

section Reaching

variable {ts ts' : List Token} {complaints : Array Complaint}

/-- **What stands before makes no difference.** If it is the same whichever of two lists
of tokens is read where an element begins, it is the same behind all that stands before
the element. -/
theorem Reaches.alike {s : Symbol} {outer inner : Bool} {w : List Token}
    (h : Reaches s outer inner w) (hts : ∀ t ∈ ts.head?, t.kind ≠ .kwElse)
    (hts' : ∀ t ∈ ts'.head?, t.kind ≠ .kwElse)
    (helement : ReadAlike .declarations inner ts complaints ts') :
    ReadAlike s outer (w ++ ts) complaints (w ++ ts') := by
  induction h with
  | here => exact helement
  -- the element begins a list of declarations, so it is read as one of these
  | element hw ih =>
    intro loop hloop c hc
    have hhead := hw.begins.ne_rightBrace
    exact hloop.alike_element (hhead.append ts) (hhead.append ts') (ih helement c hc)
  -- declarations before the element are read alike, because they are read without complaints
  | behind hu hproper hv ih =>
    intro loop hloop c hc
    subst hc
    simp only [List.append_assoc]
    exact hloop.alike_behind hu hproper (not_else_of_begins hv.begins hts)
      (not_else_of_begins hv.begins hts') (ih helement loop hloop c rfl)
  | block hl _ ih =>
    intro c hc
    exact alike_statement_of_lead .block hl (alike_block (ih helement) hc).bind
  -- of a loop all is read alike up to its body, in which the element stands
  | «while» hkeyword hl hu hproper hr _ ih =>
    intro c hc
    simp only [List.append_assoc, List.cons_append]
    refine alike_statement_of_lead .whileLoop hkeyword (.succ ?_)
    simp only [whileStatement]
    refine .expect hl (.phrase_before (fun _ => reads_condition hu hproper hr _) ?_)
    exact .expect hr (ih helement c hc).bind
  -- the clauses of a loop are read in the order in which they are written
  | «for» hkeyword hl hu hfirst hv hcondition hsemicolon hx hincrement hr _ ih =>
    intro c hc
    subst hc
    simp only [List.append_assoc, List.cons_append]
    refine alike_statement_of_lead .forLoop hkeyword (.succ ?_)
    simp only [forStatement]
    refine .expect hl ?_
    refine .phrase (fun earlier => hu.completes { c with complaints := earlier } hfirst) ?_
    refine .phrase_before (fun _ => reads_clause hv hcondition hsemicolon (.inl rfl) _) ?_
    refine .expect hsemicolon ?_
    refine .phrase_before (fun _ => reads_clause hx hincrement hr (.inr rfl) _) ?_
    exact .expect hr (ih helement c rfl).bind
  | thenBranch hkeyword hl hu hproper hr _ ih =>
    intro c hc
    simp only [List.append_assoc, List.cons_append]
    refine alike_statement_of_lead .ifElse hkeyword (.succ ?_)
    simp only [ifStatement]
    refine .expect hl (.phrase_before (fun _ => reads_condition hu hproper hr _) ?_)
    exact .expect hr (ih helement c hc).bind
  | elseBranch hkeyword hl hu hproper hr hv hthen hotherwise _ ih =>
    intro c hc
    subst hc
    simp only [List.append_assoc, List.cons_append]
    refine alike_statement_of_lead .ifElse hkeyword (.succ ?_)
    simp only [ifStatement]
    refine .expect hl (.phrase_before (fun _ => reads_condition hu hproper hr _) (.expect hr ?_))
    -- the branch is complete, so it does not mind the else behind it
    have hbranch := fun earlier rest =>
      hv.completes { c with complaints := earlier } hthen rest fun hending => by cases hending
    refine .phrase_before (fun earlier rest => hbranch earlier (_ :: rest)) ?_
    refine .taking (fun _ _ => takes_skip_true.mpr ⟨_, hotherwise, rfl⟩) ?_
    exact ((ih helement c rfl).map).bind
  -- the parameters are read alike, and the element stands in the body
  | function hname hl hu hlength hr hlb _ ih =>
    intro c sort
    simp only [List.append_assoc, List.cons_append]
    refine .succ ?_
    simp only [callable]
    refine .expect hname (.expect hl ?_)
    refine .phrase_before (fun _ rest => hu.completes hlength _ _ rest hr) ?_
    refine .expect hr (.expect hlb (.bind (.insideBody ?_)))
    -- one body deeper is never the outermost level
    exact alike_block (ih helement) rfl
  | method hw ih =>
    intro c
    exact alike_methods hw.begins (ih helement c .method).bind
  -- methods before the one with the element are read as whole functions
  | laterMethod hu hproper _ ih =>
    intro c
    simp only [List.append_assoc]
    refine alike_methods hu.begins ?_
    refine .phrase (fun _ => hu.completes hproper _ .method) ?_
    exact (ih helement c).bind
  | statement hw ih =>
    intro c hc
    exact alike_declaration_of_statement hw.begins (ih helement c hc)
  | functionDeclaration hkeyword _ ih =>
    intro c hc
    exact alike_declaration_of_declarator .funDecl hkeyword (ih helement c .function).bind
  | classDeclaration hkeyword hname hu hother hl _ ih =>
    intro c hc
    simp only [List.append_assoc, List.cons_append]
    refine alike_declaration_of_declarator .classDecl hkeyword (.succ ?_)
    simp only [Grammar.classDeclaration]
    refine .expect hname ?_
    refine .phrase_before (fun _ rest => .of_takes fun _ => hu.completes _ _ _ rest hother hl) ?_
    exact .expect hl (ih helement c).bind

end Reaching

end Lox.Grammar
