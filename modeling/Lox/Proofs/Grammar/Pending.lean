/-
`Lox.Proofs.Grammar.Pending` -- what is still awaited.

While a program is read, what has been read is behind, and what is still awaited
is a stack: the rest of the construct in hand, on top of the rest of the one
around it. One token of look-ahead says what becomes of the top. Either the token
is taken for the first of the part that is awaited there, or the part is replaced
by the parts it consists of without a token being taken, or nothing fits and the
reading is stuck.

The readers keep no such stack, and `Lox.Proofs.Grammar.Predict` shows that they
do what it says. What is in this module is about stacks alone:

* a stack that leads to its end leads nowhere else (`Leads.not_stuck`);
* where a stack is stuck depends on the token there and on those before it, but
  on none behind it (`Leads.ahead`, `Stuck.ahead`);
* every stack that comes up can be led to its end by some tokens, which can be
  read off the stack (`Leads.behind`, `leads_completion`).
-/
import Lox.Grammar.Program

set_option autoImplicit false

namespace Lox.Grammar

/-! ## Parts -/

/-- The parts that may be awaited. A part that ends in `Tail` or `Rest` goes on
with what is behind a part of the other name, if anything is. -/
inductive Pending where
  | slot (kind : TokenKind)
  | primary
  | unary
  | postfixes
  | operand (level : Level)
  | binary (level : Level)
  | binaryRest (level : Level)
  | expression
  | assignmentTail
  | argumentList
  | arguments
  | argumentsTail
  | optional (stop : TokenKind)
  | initializer
  | firstClause
  | parameterList
  | parameters
  | parametersTail
  | superclass
  | callable
  | methods
  | statement
  | elseTail
  | declaration
  | declarations
  | program
deriving DecidableEq, Repr

/-- What is awaited behind the first token of an expression without operators. -/
def Opening.pending : Opening → List Pending
  | .constant _ | .this | .name => []
  | .super => [.slot .dot, .slot .identifier]
  | .group => [.expression, .slot .rightParen]

/-- What is awaited behind the first token of a statement. -/
def Lead.pending : Lead → List Pending
  | .forLoop =>
    [.slot .leftParen, .firstClause, .optional .semicolon, .slot .semicolon,
      .optional .rightParen, .slot .rightParen, .statement]
  | .ifElse =>
    [.slot .leftParen, .expression, .slot .rightParen, .statement, .elseTail]
  | .print => [.expression, .slot .semicolon]
  | .returnStmt => [.optional .semicolon, .slot .semicolon]
  | .whileLoop => [.slot .leftParen, .expression, .slot .rightParen, .statement]
  | .block => [.declarations, .slot .rightBrace]

/-- What is awaited behind the keyword of a variable. -/
def Pending.variable : List Pending :=
  [.slot .identifier, .initializer, .slot .semicolon]

/-- What is awaited behind the keyword of a declaration. -/
def Declarator.pending : Declarator → List Pending
  | .classDecl =>
    [.slot .identifier, .superclass, .slot .leftBrace, .methods, .slot .rightBrace]
  | .funDecl => [.callable]
  | .varDecl => Pending.variable

namespace Pending

/-- What is awaited behind a token that is taken for the first of a part, if it
can be. -/
def take (p : Pending) (t : Token) : Option (List Pending) :=
  match p with
  | slot kind => if t.kind = kind then some [] else none
  | primary =>
    if t.kind.isLiteral then t.literal.map fun _ => []
    else (Opening.ofKind? t.kind).map Opening.pending
  | unary => if isSign t.kind then some [unary] else none
  | postfixes =>
    if t.kind = .leftParen then some [argumentList, slot .rightParen, postfixes]
    else if t.kind = .dot then some [slot .identifier, postfixes]
    else none
  | binaryRest level => if level.has t.kind then some [operand level, binaryRest level] else none
  | assignmentTail | initializer => if t.kind = .equal then some [expression] else none
  | argumentsTail => if t.kind = .comma then some [arguments] else none
  | firstClause =>
    if t.kind = .semicolon then some []
    else if t.kind = .kwVar then some Pending.variable
    else none
  | parametersTail => if t.kind = .comma then some [parameters] else none
  | superclass => if t.kind = .less then some [slot .identifier] else none
  | statement => (Lead.ofKind? t.kind).map Lead.pending
  | elseTail => if t.kind = .kwElse then some [statement] else none
  | declaration => (Declarator.ofKind? t.kind).map Declarator.pending
  | _ => none

/-- What a part consists of before a token that is not taken for its first, or
before the end. -/
def skip (p : Pending) (next : Option TokenKind) : Option (List Pending) :=
  match p with
  | slot _ | primary => none
  | unary => some [primary, postfixes]
  | operand level => some [level.tighter?.elim unary binary]
  | binary level => some [operand level, binaryRest level]
  | expression => some [binary .or, assignmentTail]
  | argumentList => some (if next.any (· == .rightParen) then [] else [arguments])
  | arguments => some [expression, argumentsTail]
  | optional stop => some (if next.any (· == stop) then [] else [expression])
  | firstClause => some [expression, slot .semicolon]
  | parameterList => some (if next.any (· == .rightParen) then [] else [parameters])
  | parameters => some [slot .identifier, parametersTail]
  | callable =>
    some [slot .identifier, slot .leftParen, parameterList, slot .rightParen, slot .leftBrace,
      declarations, slot .rightBrace]
  | methods => some (if next.any (· != .rightBrace) then [callable, methods] else [])
  | statement => some [expression, slot .semicolon]
  | declaration => some [statement]
  | declarations =>
    some (if next.any (· != .rightBrace) then [declaration, declarations] else [])
  | program => some (if next.any fun _ => true then [declaration, program] else [])
  | postfixes | binaryRest _ | assignmentTail | argumentsTail | initializer | parametersTail
  | superclass | elseTail => some []

/-- A dot is followed by a name and by further postfixes. -/
theorem take_postfixes_dot {t : Token} (h : t.kind = .dot) :
    postfixes.take t = some [slot .identifier, postfixes] := by
  rw [take, h]
  rfl

/-- A `var` begins the first clause of a loop. -/
theorem take_firstClause_var {t : Token} (h : t.kind = .kwVar) :
    firstClause.take t = some Pending.variable := by
  rw [take, h]
  rfl

/-- What becomes of a part: what is awaited instead, and the tokens that are left. -/
def next (p : Pending) (ts : List Token) : Option (List Pending × List Token) :=
  match ts with
  | [] => (p.skip none).map fun more => (more, [])
  | t :: rest =>
    match p.take t with
    | some more => some (more, rest)
    | none => (p.skip (some t.kind)).map fun more => (more, t :: rest)

section Next

variable {p : Pending} {t : Token} {ts ts' : List Token} {more : List Pending}

/-- If a token is taken, the parts behind it are awaited. -/
theorem next_of_take (h : p.take t = some more) : p.next (t :: ts) = some (more, ts) := by
  simp only [next, h]

/-- Without a token being taken, only the kind of the next one matters. -/
theorem next_of_not_take (h : ∀ t ∈ ts.head?, p.take t = none) :
    p.next ts = (p.skip (ts.head?.map Token.kind)).map fun more => (more, ts) := by
  cases ts with
  | nil => rfl
  | cons t rest => simp only [next, h t rfl, List.head?_cons, Option.map_some]

/-- If it is not, the part may consist of others, and the token is left. -/
theorem next_of_skip (h : ∀ t ∈ ts.head?, p.take t = none)
    (hskip : p.skip (ts.head?.map Token.kind) = some more) : p.next ts = some (more, ts) := by
  rw [next_of_not_take h, hskip, Option.map_some]

/-- Either the next token is taken, or nothing is. -/
theorem next_cases (h : p.next ts = some (more, ts')) :
    (∃ t, ts = t :: ts' ∧ p.take t = some more) ∨
      ts' = ts ∧ (∀ t ∈ ts.head?, p.take t = none) ∧
        p.skip (ts.head?.map Token.kind) = some more := by
  by_cases hnone : ∀ t ∈ ts.head?, p.take t = none
  · rw [next_of_not_take hnone, Option.map_eq_some_iff] at h
    obtain ⟨more', hskip, heq⟩ := h
    rw [Prod.mk.injEq] at heq
    obtain ⟨rfl, rfl⟩ := heq
    exact .inr ⟨rfl, hnone, hskip⟩
  · cases ts with
    | nil => exact absurd (fun t ht => by cases ht) hnone
    | cons t rest =>
      cases htake : p.take t with
      | none =>
        refine absurd (fun t' ht' => ?_) hnone
        cases ht'
        exact htake
      | some more' =>
        rw [next_of_take htake, Option.some.injEq, Prod.mk.injEq] at h
        obtain ⟨rfl, rfl⟩ := h
        exact .inl ⟨t, rfl, htake⟩

/-- A part does not fit a token if it can neither be begun by it nor be gone over. -/
theorem next_eq_none :
    p.next (t :: ts) = none ↔ p.take t = none ∧ p.skip (some t.kind) = none := by
  cases htake : p.take t <;> simp [next, htake]

end Next

end Pending

/-! ## Stacks -/

/-- Reading the tokens `ts`, the stack `K` becomes `K'` where `ts'` are left. -/
inductive Leads : List Pending → List Token → List Pending → List Token → Prop
  | refl (K : List Pending) (ts : List Token) : Leads K ts K ts
  | step {p : Pending} {more K K' : List Pending} {ts ts' ts'' : List Token} :
    p.next ts = some (more, ts') → Leads (more ++ K) ts' K' ts'' → Leads (p :: K) ts K' ts''

/-- The top of the stack does not fit the tokens. -/
def Stuck (K : List Pending) (ts : List Token) : Prop :=
  ∃ p K', K = p :: K' ∧ p.next ts = none

section Leads

variable {p : Pending} {more K K' K'' : List Pending} {t : Token} {ts ts' ts'' : List Token}

/-- Reading on is reading. -/
theorem Leads.trans (h : Leads K ts K' ts') (h' : Leads K' ts' K'' ts'') : Leads K ts K'' ts'' := by
  induction h with
  | refl => exact h'
  | step hnext _ ih => exact .step hnext (ih h')

/-- A token is taken for the part on top. -/
theorem Leads.take (htake : p.take t = some more) (h : Leads (more ++ K) ts K' ts') :
    Leads (p :: K) (t :: ts) K' ts' :=
  .step (Pending.next_of_take htake) h

/-- The part on top is replaced by what it consists of. -/
theorem Leads.skip (hnone : ∀ t ∈ ts.head?, p.take t = none)
    (hskip : p.skip (ts.head?.map Token.kind) = some more) (h : Leads (more ++ K) ts K' ts') :
    Leads (p :: K) ts K' ts' :=
  .step (Pending.next_of_skip hnone hskip) h

/-- What becomes of a stack is determined: one that can be led to its end is not
stuck on the way. -/
theorem Leads.not_stuck (hend : Leads K ts [] ts') (h : Leads K ts K'' ts'') :
    ¬ Stuck K'' ts'' := by
  induction h with
  | refl =>
    rintro ⟨p, K', rfl, hnone⟩
    cases hend with
    | step hnext _ =>
      rw [hnone] at hnext
      cases hnext
  | step hnext _ ih =>
    cases hend with
    | step hnext' hend =>
      rw [hnext, Option.some.injEq, Prod.mk.injEq] at hnext'
      obtain ⟨rfl, rfl⟩ := hnext'
      exact ih hend

/-- **Look-ahead.** What becomes of a stack before a token does not depend on what
is behind the token. -/
theorem Leads.ahead (h : Leads K ts K' (t :: ts')) :
    ∃ past, ts = past ++ t :: ts' ∧ ∀ vs, Leads K (past ++ t :: vs) K' (t :: vs) := by
  generalize hlast : t :: ts' = last at h
  induction h with
  | refl =>
    subst hlast
    exact ⟨[], rfl, fun vs => .refl _ _⟩
  | step hnext _ ih =>
    obtain ⟨past, hpast, hvs⟩ := ih hlast
    rcases Pending.next_cases hnext with ⟨u, rfl, htake⟩ | ⟨rfl, hnone, hskip⟩
    · refine ⟨u :: past, ?_, fun vs => .take htake (hvs vs)⟩
      rw [hpast, List.cons_append]
    · -- the token that was looked at is still the next one
      refine ⟨past, hpast, fun vs => ?_⟩
      have hhead : (past ++ t :: vs).head? = (past ++ t :: ts').head? := by
        cases past <;> rfl
      rw [hlast, ← hpast] at hhead
      exact .skip (hhead ▸ hnone) (hhead ▸ hskip) (hvs vs)

/-- A stack is stuck by the next token alone, whatever stands behind it. -/
theorem Stuck.ahead (h : Stuck K (t :: ts)) (vs : List Token) : Stuck K (t :: vs) := by
  obtain ⟨p, K', rfl, hnone⟩ := h
  exact ⟨p, K', rfl, Pending.next_eq_none.mpr (Pending.next_eq_none.mp hnone)⟩

end Leads

/-! ## Completions -/

namespace Pending

/-- The kinds of tokens that a part may be made of, few of them. -/
def filler : Pending → List TokenKind
  | slot kind => [kind]
  | primary | unary | operand _ | binary _ | expression | arguments => [.kwNil]
  | parameters => [.identifier]
  | firstClause => [.semicolon]
  | callable => [.identifier, .leftParen, .rightParen, .leftBrace, .rightBrace]
  | statement | declaration => [.kwNil, .semicolon]
  | _ => []

/-- Before a token of which kind, if before any, a part that has been filled is
over. Only parts that may be empty or longer than their filling care. -/
def Fits (p : Pending) (next : Option TokenKind) : Prop :=
  match p with
  | slot kind => kind ≠ .eof
  | primary | firstClause | callable => True
  | unary | postfixes | operand _ | binary _ | binaryRest _ | expression | assignmentTail =>
    next = some .rightParen ∨ next = some .semicolon
  | argumentList | arguments | argumentsTail | parameterList | parameters | parametersTail =>
    next = some .rightParen
  | optional stop => next = some stop ∧ (stop = .rightParen ∨ stop = .semicolon)
  | initializer => next = some .semicolon
  | superclass => next = some .leftBrace
  | methods => next = some .rightBrace
  | statement | elseTail | declaration | declarations => next = none ∨ next = some .rightBrace
  | program => next = none

end Pending

/-- The kinds of tokens that complete what is awaited. -/
def completion (K : List Pending) : List TokenKind :=
  K.flatMap Pending.filler

/-- Every part of the stack is over where its filling ends. -/
def Fit : List Pending → Prop
  | [] => True
  | p :: K => p.Fits (completion K).head? ∧ Fit K

/-- Tokens of some kinds. They stand in no text. -/
def filling (kinds : List TokenKind) : List Token :=
  kinds.map fun kind => .madeUp kind "" 1

section Completion

variable {p : Pending} {more K K' : List Pending} {t : Token} {ts ts' : List Token}
  {next : Option TokenKind} {level : Level}

@[simp] theorem completion_nil : completion [] = [] := rfl

@[simp] theorem completion_cons : completion (p :: K) = p.filler ++ completion K := by
  simp only [completion, List.flatMap_cons]

@[simp] theorem fit_nil : Fit [] := trivial

@[simp] theorem fit_cons : Fit (p :: K) ↔ p.Fits (completion K).head? ∧ Fit K := Iff.rfl

/-- What is awaited behind a token fits where the part that began with it did. -/
theorem Fit.take (h : Fit (p :: K)) (htake : p.take t = some more) : Fit (more ++ K) := by
  obtain ⟨hp, hK⟩ := h
  cases p <;> simp only [Pending.take, reduceCtorEq] at htake
  case primary =>
    split at htake
    · obtain ⟨_, -, rfl⟩ := Option.map_eq_some_iff.mp htake
      exact hK
    · obtain ⟨opening, -, rfl⟩ := Option.map_eq_some_iff.mp htake
      cases opening <;> simp [Opening.pending, Pending.Fits, Pending.filler, hK]
  case statement =>
    obtain ⟨lead, -, rfl⟩ := Option.map_eq_some_iff.mp htake
    cases lead <;> simp_all [Lead.pending, Pending.Fits, Pending.filler]
  case declaration =>
    obtain ⟨declarator, -, rfl⟩ := Option.map_eq_some_iff.mp htake
    cases declarator <;>
      simp [Declarator.pending, Pending.variable, Pending.Fits, Pending.filler, hK]
  all_goals
    repeat' split at htake
    all_goals cases htake
    all_goals simp_all [Pending.Fits, Pending.filler, Pending.variable]

/-- The parts of a part fit where it did. -/
theorem Fit.skip (h : Fit (p :: K)) (hskip : p.skip next = some more) : Fit (more ++ K) := by
  obtain ⟨hp, hK⟩ := h
  cases p <;> simp only [Pending.skip, reduceCtorEq, Option.some.injEq] at hskip <;> subst hskip
  case operand level =>
    refine fit_cons.mpr ⟨?_, hK⟩
    cases level.tighter? <;> exact hp
  all_goals
    repeat' split
    all_goals simp_all [Pending.Fits, Pending.filler]

/-- **The tokens behind.** Whatever the next token is, the tokens that have been
passed over lead to a stack, and that stack fits if the first one did. -/
theorem Leads.behind (h : Leads K ts K' ts') :
    ∃ past, ts = past ++ ts' ∧
      ∃ K₁, (Fit K → Fit K₁) ∧ ∀ vs, Leads K (past ++ vs) K₁ vs := by
  induction h with
  | refl K ts => exact ⟨[], rfl, K, id, fun vs => .refl K vs⟩
  | @step q more K K' ts ts' ts'' hnext _ ih =>
    obtain ⟨past, rfl, K₁, hfit, hvs⟩ := ih
    rcases Pending.next_cases hnext with ⟨u, rfl, htake⟩ | ⟨heq, hnone, hskip⟩
    · refine ⟨u :: past, rfl, K₁, fun hK => hfit (hK.take htake), fun vs => ?_⟩
      exact .take htake (hvs vs)
    · cases past with
      | nil =>
        -- nothing has been passed over, so what was looked at may change: the stack stays
        exact ⟨[], heq.symm, q :: K, id, fun vs => .refl _ _⟩
      | cons u past =>
        rw [← heq] at hnone hskip
        refine ⟨u :: past, heq.symm, K₁, fun hK => hfit (hK.skip hskip), fun vs => ?_⟩
        exact .skip hnone hskip (hvs vs)

end Completion

/-! ## Filling a stack -/

section Filling

variable {p : Pending} {K : List Pending} {ts : List Token} {kind : TokenKind}
  {kinds : List TokenKind} {level : Level}

/-- A part that consists of nothing before the next token. -/
theorem leads_nothing (hnone : p.take (.madeUp kind "" 1) = none)
    (hskip : p.skip (some kind) = some []) :
    Leads (p :: K) (filling (kind :: kinds)) K (filling (kind :: kinds)) := by
  refine .skip (fun t ht => ?_) hskip (.refl K _)
  cases ht
  exact hnone

/-- A slot is filled by a token of its kind. -/
theorem leads_slot : Leads (.slot kind :: K) (filling (kind :: kinds)) K (filling kinds) :=
  .take (if_pos rfl) (.refl K _)

/-- A part that is replaced by others before the next token. -/
theorem leads_parts {more K' : List Pending} (hnone : p.take (.madeUp kind "" 1) = none)
    (hskip : p.skip (some kind) = some more)
    (h : Leads (more ++ K) (filling (kind :: kinds)) K' ts) :
    Leads (p :: K) (filling (kind :: kinds)) K' ts := by
  refine .skip (fun t ht => ?_) hskip h
  cases ht
  exact hnone

/-! ### Expressions -/

/-- An expression is over before this token. -/
def Closing (kind : TokenKind) : Prop :=
  kind = .rightParen ∨ kind = .semicolon

/-- What closes an expression is no operator. -/
theorem Closing.has (h : Closing kind) : level.has kind = false := by
  rcases h with rfl | rfl <;> cases level <;> rfl

/-- The word `nil` may stand for the part, where an expression is over behind it. -/
def TakesNil (p : Pending) : Prop :=
  ∀ K kind kinds, Closing kind →
    Leads (p :: K) (filling (.kwNil :: kind :: kinds)) K (filling (kind :: kinds))

namespace TakesNil

/-- A part that consists of one that `nil` may stand for, and of another one that
is empty before what closes an expression. -/
theorem of_skip {q tail : Pending} (hq : TakesNil q)
    (hnone : p.take (.madeUp .kwNil "" 1) = none)
    (hskip : p.skip (some .kwNil) = some [q, tail])
    (htail : ∀ kind, Closing kind →
      tail.take (.madeUp kind "" 1) = none ∧ tail.skip (some kind) = some []) :
    TakesNil p := by
  intro K kind kinds hkind
  obtain ⟨htake, hempty⟩ := htail kind hkind
  exact leads_parts hnone hskip ((hq _ _ _ hkind).trans (leads_nothing htake hempty))

/-- A part takes the word if it consists of one that does. -/
theorem of_skip_one {q : Pending} (hq : TakesNil q)
    (hnone : p.take (.madeUp .kwNil "" 1) = none) (hskip : p.skip (some .kwNil) = some [q]) :
    TakesNil p :=
  fun K _ _ hkind => leads_parts hnone hskip (hq K _ _ hkind)

/-- The word is a simple expression. -/
theorem primary : TakesNil .primary :=
  fun K _ _ _ => .take rfl (.refl K _)

/-- It is an operand without signs. -/
theorem unary : TakesNil .unary :=
  primary.of_skip rfl rfl fun kind hkind => by rcases hkind with rfl | rfl <;> exact ⟨rfl, rfl⟩

/-- It is an expression of each level without operators. -/
theorem binary (h : TakesNil (.operand level)) : TakesNil (.binary level) :=
  h.of_skip rfl rfl fun _ hkind => ⟨if_neg (ne_true_of_eq_false hkind.has), rfl⟩

/-- It is an operand of each level, which goes level by level from the tightest. -/
theorem operand (level : Level) : TakesNil (.operand level) := by
  have hnext : ∀ {level level' : Level}, level.tighter? = some level' →
      TakesNil (.operand level') → TakesNil (.operand level) := by
    intro level level' htighter h
    refine h.binary.of_skip_one rfl ?_
    rw [Pending.skip, htighter, Option.elim_some]
  -- the levels from the tightest outwards
  have hproduct : TakesNil (.operand .product) := unary.of_skip_one rfl rfl
  have hsum : TakesNil (.operand .sum) := hnext rfl hproduct
  have hcomparison : TakesNil (.operand .comparison) := hnext rfl hsum
  have hequality : TakesNil (.operand .equality) := hnext rfl hcomparison
  have hand : TakesNil (.operand .and) := hnext rfl hequality
  cases level with
  | or => exact hnext rfl hand
  | and => exact hand
  | equality => exact hequality
  | comparison => exact hcomparison
  | sum => exact hsum
  | product => exact hproduct

/-- It is an expression. -/
theorem expression : TakesNil .expression :=
  (operand .or).binary.of_skip rfl rfl fun kind hkind => by
    rcases hkind with rfl | rfl <;> exact ⟨rfl, rfl⟩

/-- It is a list of one argument. -/
theorem arguments : TakesNil .arguments :=
  expression.of_skip rfl rfl fun kind hkind => by
    rcases hkind with rfl | rfl <;> exact ⟨rfl, rfl⟩

/-- The filling of a part that `nil` may stand for. -/
theorem leads (h : TakesNil p) (hkinds : ∃ kind ∈ kinds.head?, Closing kind) :
    Leads (p :: K) (filling (.kwNil :: kinds)) K (filling kinds) := by
  obtain ⟨kind, hhead, hkind⟩ := hkinds
  cases kinds with
  | nil => cases hhead
  | cons kind kinds =>
    cases hhead
    exact h K kind kinds hkind

end TakesNil

/-! ### All parts -/

/-- An expression and its semicolon. -/
theorem leads_statement :
    Leads (.statement :: K) (filling (.kwNil :: .semicolon :: kinds)) K (filling kinds) :=
  leads_parts rfl rfl ((TakesNil.expression _ _ _ (.inr rfl)).trans leads_slot)

/-- A part that may consist of nothing does before what fits behind it. -/
theorem leads_rest (h : p.Fits kinds.head?) (hfiller : p.filler = []) :
    Leads (p :: K) (filling kinds) K (filling kinds) := by
  have hskip : p.skip kinds.head? = some [] := by
    cases p with
    | declarations => rcases h with h | h <;> rw [h] <;> rfl
    | _ => simp_all [Pending.Fits, Pending.filler, Pending.skip]
  cases kinds with
  | nil => exact .step (congrArg (Option.map _) hskip) (.refl K [])
  | cons kind kinds =>
    refine leads_nothing ?_ hskip
    have hkind : (Token.madeUp kind "" 1).kind = kind := rfl
    cases p with
    | postfixes => rcases h with h | h <;> cases h <;> rfl
    | assignmentTail => rcases h with h | h <;> cases h <;> rfl
    | binaryRest level =>
      have hclosing : Closing kind := by simpa [Pending.Fits, Closing] using h
      exact if_neg (ne_true_of_eq_false hclosing.has)
    | _ => simp_all [Pending.Fits, Pending.filler, Pending.take]

/-- A function without parameters and without a body. -/
theorem leads_callable :
    Leads (.callable :: K)
      (filling (.identifier :: .leftParen :: .rightParen :: .leftBrace :: .rightBrace :: kinds)) K
      (filling kinds) := by
  refine leads_parts rfl rfl (leads_slot.trans (leads_slot.trans ?_))
  refine leads_parts rfl rfl (leads_slot.trans (leads_slot.trans ?_))
  exact leads_parts rfl rfl leads_slot

/-- One name is a list of parameters. -/
theorem leads_parameters (h : kinds.head? = some .rightParen) :
    Leads (.parameters :: K) (filling (.identifier :: kinds)) K (filling kinds) :=
  leads_parts rfl rfl (leads_slot.trans (leads_rest h rfl))

/-- A part is filled by its filling. -/
theorem leads_filler (h : p.Fits kinds.head?) :
    Leads (p :: K) (filling (p.filler ++ kinds)) K (filling kinds) := by
  have hclosing : kinds.head? = some .rightParen ∨ kinds.head? = some .semicolon →
      ∃ kind ∈ kinds.head?, Closing kind := by
    rintro (hhead | hhead)
    · exact ⟨_, hhead, .inl rfl⟩
    · exact ⟨_, hhead, .inr rfl⟩
  cases p with
  | slot kind => exact leads_slot
  | primary => exact .take rfl (.refl K _)
  | unary => exact TakesNil.unary.leads (hclosing h)
  | operand level => exact (TakesNil.operand level).leads (hclosing h)
  | binary level => exact (TakesNil.operand level).binary.leads (hclosing h)
  | expression => exact TakesNil.expression.leads (hclosing h)
  | arguments => exact TakesNil.arguments.leads (hclosing (.inl h))
  | statement => exact leads_statement
  | declaration => exact leads_parts rfl rfl leads_statement
  | callable => exact leads_callable
  | firstClause => exact .take rfl (.refl K _)
  | parameters => exact leads_parameters h
  | _ => exact leads_rest h rfl

/-- **Completion.** A stack that fits is led to its end by its completion. -/
theorem leads_completion (h : Fit K) : Leads K (filling (completion K)) [] [] := by
  induction K with
  | nil => exact .refl [] []
  | cons p K ih =>
    rw [completion_cons]
    exact (leads_filler h.1).trans (ih h.2)

/-- No end marker is awaited inside a program. -/
theorem Fit.eof_not_mem (h : Fit K) : .eof ∉ completion K := by
  induction K with
  | nil => exact List.not_mem_nil
  | cons p K ih =>
    rw [completion_cons, List.mem_append]
    rintro (hp | hK)
    · have hfits := h.1
      cases p <;> simp_all [Pending.filler, Pending.Fits]
    · exact ih h.2 hK

end Filling

end Lox.Grammar
