/-
`Lox.Proofs.Grammar.Predict` -- what the readers await.

Each reader does with the tokens what the stack of awaited parts does that has the
part it reads on top: it ends where that part is over, and if it complains about
the structure, it does so at the token where the stack is stuck (`Follows`). From
its first structural complaint on nothing is said about a reader, which recovers
in ways of its own.

The proof is by induction on the bound, on all readers at once, and in each of
them step by step: a token that is taken, a part that is replaced by its parts,
one part after the other.
-/
import Lox.Proofs.Grammar.Pending
import Lox.Proofs.Grammar.Reader

set_option autoImplicit false

namespace Lox.Grammar

variable {α β : Type}

/-! ## Following a stack -/

/-- Nothing has been complained about that concerns the structure. -/
def Cursor.Whole (c : Cursor) : Prop :=
  ∀ complaint ∈ c.complaints.toList, complaint.cause.isStructural = false

/-- The stack is stuck at a token, and the first structural complaint is about
that token, or about the end if none is left. -/
def Fails (K : List Pending) (c c' : Cursor) : Prop :=
  ∃ K' us cause, Leads K c.rest K' us ∧ Stuck K' us ∧
    c'.complaints.toList.find? (·.cause.isStructural) = some ⟨cause, us.headD c.finish⟩

/-- The outcome is what becomes of the stack `K`: either the part on top is over
and `K'` is left, or the stack is stuck. -/
def Outcome.Agrees (K K' : List Pending) (c : Cursor) : Outcome α → Prop
  | .ok _ c' => c'.Whole ∧ Leads K c.rest K' c'.rest ∨ Fails K c c'
  | .error .givenUp c' => Fails K c c'
  | .error .outOfFuel _ => True

/-- At the cursor, the reader does what becomes of the parts `S`. -/
def FollowsAt (x : TokenReader α) (S : List Pending) (c : Cursor) : Prop :=
  c.Whole → ∀ K, Outcome.Agrees (S ++ K) K c (x.run c)

/-- The reader does what becomes of the parts `S`, wherever it begins. -/
def Follows (x : TokenReader α) (S : List Pending) : Prop :=
  ∀ c, FollowsAt x S c

section Fails

variable {K K' more : List Pending} {p : Pending} {c c' c'' : Cursor} {t : Token}
  {rest : List Token}

/-- Later complaints do not change which one was the first. -/
theorem Fails.of_advances (h : Fails K c c') (hadv : c'.Advances c'') : Fails K c c'' := by
  obtain ⟨K', us, cause, hleads, hstuck, hfind⟩ := h
  obtain ⟨new, hnew⟩ := hadv.complaints
  refine ⟨K', us, cause, hleads, hstuck, ?_⟩
  rw [hnew, Array.toList_append, List.find?_append, hfind, Option.some_or]

/-- A failure further on is a failure of what leads there. -/
theorem Fails.of_leads (hleads : Leads K c.rest K' c'.rest) (hfinish : c'.finish = c.finish)
    (h : Fails K' c' c'') : Fails K c c'' := by
  obtain ⟨K'', us, cause, hleads', hstuck, hfind⟩ := h
  exact ⟨K'', us, cause, hleads.trans hleads', hstuck, hfinish ▸ hfind⟩

/-- The first structural complaint, made where the stack is stuck. -/
theorem Fails.of_stuck {cause : Cause} (hwhole : c.Whole) (hcause : cause.isStructural = true)
    (hstuck : Stuck K c.rest) (hcomplaints : c'.complaints = (c.complain cause c.current).complaints) :
    Fails K c c' := by
  refine ⟨K, c.rest, cause, .refl K _, hstuck, ?_⟩
  have hnone : c.complaints.toList.find? (·.cause.isStructural) = none :=
    List.find?_eq_none.mpr fun complaint hmem => ne_true_of_eq_false (hwhole complaint hmem)
  rw [hcomplaints, Cursor.complain, Array.toList_push, List.find?_append, hnone, Option.none_or]
  exact List.find?_cons_of_pos hcause

end Fails

/-! ## Steps -/

namespace FollowsAt

variable {x y : TokenReader α} {f : α → TokenReader β} {S S' more : List Pending} {p : Pending}
  {c : Cursor}

protected theorem pure {a : α} : FollowsAt (pure a) [] c :=
  fun hwhole K => .inl ⟨hwhole, .refl K _⟩

/-- Nothing is said about readers without fuel. -/
theorem outOfFuel : FollowsAt (outOfFuel : TokenReader α) S c :=
  fun _ _ => trivial

/-- Two readers one after another. -/
theorem append (hx : FollowsAt x S c) (hf : ∀ a, Follows (f a) S') :
    FollowsAt (x >>= f) (S ++ S') c := by
  intro hwhole K
  have hagrees := hx hwhole (S' ++ K)
  rw [List.append_assoc]
  cases hrun : x.run c with
  | error halt c' =>
    rw [hrun] at hagrees
    rw [TokenReader.run_bind_of_error hrun]
    cases halt with
    | givenUp => exact hagrees
    | outOfFuel => trivial
  | ok a c' =>
    rw [hrun] at hagrees
    rw [TokenReader.run_bind_of_ok hrun]
    have hfinish := (TokenReader.advances hrun).finish
    rcases hagrees with ⟨hwhole', hleads⟩ | hfails
    · have hagrees' := hf a c' hwhole' K
      cases hrun' : (f a).run c' with
      | ok b c'' =>
        rw [hrun'] at hagrees'
        rcases hagrees' with ⟨hwhole'', hleads'⟩ | hfails
        · exact .inl ⟨hwhole'', hleads.trans hleads'⟩
        · exact .inr (hfails.of_leads hleads hfinish)
      | error halt c'' =>
        rw [hrun'] at hagrees'
        cases halt with
        | givenUp => exact hagrees'.of_leads hleads hfinish
        | outOfFuel => trivial
    · -- whatever is read after the first mistake, it stays the first
      have hadv := (f a).built.advances c'
      cases hrun' : (f a).run c' with
      | ok b c'' =>
        rw [hrun'] at hadv
        exact .inr (hfails.of_advances hadv)
      | error halt c'' =>
        rw [hrun'] at hadv
        cases halt with
        | givenUp => exact hfails.of_advances hadv
        | outOfFuel => trivial

/-- One part, and then the others. -/
protected theorem bind (hx : FollowsAt x [p] c) (hf : ∀ a, Follows (f a) S) :
    FollowsAt (x >>= f) (p :: S) c :=
  hx.append hf

/-- What a reader does at a cursor, another one does at the next. -/
theorem of_leads {c' : Cursor} (hrun : x.run c = y.run c') (hwhole : c.Whole → c'.Whole)
    (hfinish : c'.finish = c.finish) (hleads : ∀ K, Leads (S ++ K) c.rest (S' ++ K) c'.rest)
    (h : FollowsAt y S' c') : FollowsAt x S c := by
  intro hc K
  have hagrees := h (hwhole hc) K
  rw [hrun]
  cases hrun' : y.run c' with
  | ok a c'' =>
    rw [hrun'] at hagrees
    exact hagrees.imp (.imp_right (hleads K).trans) (.of_leads (hleads K) hfinish)
  | error halt c'' =>
    rw [hrun'] at hagrees
    cases halt with
    | givenUp => exact hagrees.of_leads (hleads K) hfinish
    | outOfFuel => trivial

/-- A reader follows what another one follows that runs in the same way. -/
theorem congr (hrun : x.run c = y.run c) (h : FollowsAt y S c) : FollowsAt x S c :=
  h.of_leads hrun id rfl fun _ => .refl _ _

/-- A token is taken for the first of the part. -/
theorem taking {t : Token} {rest : List Token} (hrest : c.rest = t :: rest)
    (hrun : x.run c = y.run { c with rest }) (htake : p.take t = some more)
    (h : FollowsAt y (more ++ S) { c with rest }) : FollowsAt x (p :: S) c := by
  refine h.of_leads hrun id rfl fun K => ?_
  rw [hrest, List.append_assoc]
  exact .take htake (.refl _ _)

/-- The part is replaced by its parts. -/
theorem parts (hnone : ∀ t ∈ c.rest.head?, p.take t = none)
    (hskip : p.skip (c.rest.head?.map Token.kind) = some more) (h : FollowsAt x (more ++ S) c) :
    FollowsAt x (p :: S) c := by
  refine h.of_leads rfl id rfl fun K => ?_
  rw [List.append_assoc]
  exact .skip hnone hskip (.refl _ _)

/-- The part is nothing. -/
theorem nothing {a : α} (hnone : ∀ t ∈ c.rest.head?, p.take t = none)
    (hskip : p.skip (c.rest.head?.map Token.kind) = some []) : FollowsAt (pure a) [p] c :=
  parts hnone hskip .pure

end FollowsAt

namespace Follows

variable {x : TokenReader α} {f : α → TokenReader β} {S more : List Pending} {p : Pending}

protected theorem pure {a : α} : Follows (pure a) [] :=
  fun _ => .pure

/-- Readers after one another follow the parts after one another. -/
protected theorem bind (hx : Follows x [p]) (hf : ∀ a, Follows (f a) S) :
    Follows (x >>= f) (p :: S) :=
  fun c => (hx c).bind hf

/-- A reader that awaits nothing, and then the others. -/
theorem bind_passing (hx : Follows x []) (hf : ∀ a, Follows (f a) S) : Follows (x >>= f) S :=
  fun c => (hx c).append hf

/-- The part is replaced by its parts whatever the next token is. -/
theorem parts (hnone : ∀ t, p.take t = none) (hskip : ∀ next, p.skip next = some more)
    (h : Follows x (more ++ S)) : Follows x (p :: S) :=
  fun c => .parts (fun t _ => hnone t) (hskip _) (h c)

/-- The part that is awaited is read, and something is made of it. -/
theorem map_pure {g : α → β} (hx : Follows x S) : Follows (x >>= fun a => pure (g a)) S := by
  intro c
  have h := (hx c).append fun a => Follows.pure (a := g a)
  rwa [List.append_nil] at h

end Follows

section Tokens

/-- Either the next token is of some sort, or there is none of that sort next. -/
theorem head_cases (sort : Token → Prop) (ts : List Token) :
    (∃ t rest, ts = t :: rest ∧ sort t) ∨ ∀ t ∈ ts.head?, ¬ sort t := by
  cases ts with
  | nil => exact .inr fun t ht => by cases ht
  | cons t rest =>
    by_cases ht : sort t
    · exact .inl ⟨t, rest, rfl, ht⟩
    · refine .inr fun t' ht' => ?_
      cases ht'
      exact ht

variable {use : TokenKind → Option α} {test : TokenKind → Bool} {kind : TokenKind} {slot : Slot}
  {S more : List Pending} {p : Pending} {c : Cursor}

/-- What a part consists of is seen from the next token. -/
theorem nextIs_bind_follows {f : Bool → TokenReader β} {yes no : List Pending}
    (hnone : ∀ t, p.take t = none)
    (hskip : ∀ next, p.skip next = some (if next.any test then yes else no))
    (htrue : Follows (f true) (yes ++ S)) (hfalse : Follows (f false) (no ++ S)) :
    Follows (nextIs test >>= f) (p :: S) := by
  intro c
  have hrun : (nextIs test).run c = .ok ((c.rest.head?.map Token.kind).any test) c :=
    nextIs_eq_ok.mpr ⟨rfl, by rw [Option.any_map]⟩
  refine .parts (fun t _ => hnone t) (hskip _) (.congr (TokenReader.run_bind_of_ok hrun) ?_)
  cases (c.rest.head?.map Token.kind).any test with
  | true => exact htrue c
  | false => exact hfalse c

/-- A token that there is a use for is taken for the first of the part. -/
theorem take_bind_follows {pending : α → List Pending} {f : Option (Token × α) → TokenReader β}
    (htake : ∀ t ∈ c.rest.head?, p.take t = (use t.kind).map pending)
    (hsome : ∀ t a, Follows (f (some (t, a))) (pending a ++ S))
    (hnone : (∀ t ∈ c.rest.head?, use t.kind = none) → FollowsAt (f none) (p :: S) c) :
    FollowsAt (take use >>= f) (p :: S) c := by
  rcases head_cases (fun t => ∃ a, use t.kind = some a) c.rest with ⟨t, rest, hrest, a, ha⟩ | hhead
  · have hrun : (take use).run c = .ok (some (t, a)) { c with rest } :=
      take_eq_some.mpr ⟨ha, rest, hrest, rfl⟩
    have ht : t ∈ c.rest.head? := by rw [hrest]; rfl
    exact .taking hrest (TokenReader.run_bind_of_ok hrun)
      (by rw [htake t ht, ha, Option.map_some]) (hsome t a _)
  · replace hhead : ∀ t ∈ c.rest.head?, use t.kind = none :=
      fun t ht => Option.eq_none_iff_forall_ne_some.mpr fun a ha => hhead t ht ⟨a, ha⟩
    exact .congr (TokenReader.run_bind_of_ok (take_eq_none.mpr ⟨rfl, hhead⟩)) (hnone hhead)

/-- A reader that takes a token follows the part that takes the same, and otherwise what remains
to be shown. -/
theorem takeIf_bind_follows {f : Option Token → TokenReader β}
    (htake : ∀ t, test t.kind = true → p.take t = some more)
    (hsome : ∀ t, Follows (f (some t)) (more ++ S))
    (hnone : (∀ t ∈ c.rest.head?, test t.kind = false) → FollowsAt (f none) (p :: S) c) :
    FollowsAt (takeIf test >>= f) (p :: S) c := by
  rcases head_cases (test ·.kind = true) c.rest with ⟨t, rest, hrest, htest⟩ | hhead
  · have hrun : (takeIf test).run c = .ok (some t) { c with rest } :=
      takeIf_eq_some.mpr ⟨htest, rest, hrest, rfl⟩
    exact .taking hrest (TokenReader.run_bind_of_ok hrun) (htake t htest) (hsome t _)
  · replace hhead : ∀ t ∈ c.rest.head?, test t.kind = false :=
      fun t ht => eq_false_of_ne_true (hhead t ht)
    exact .congr (TokenReader.run_bind_of_ok (takeIf_eq_none.mpr ⟨rfl, hhead⟩)) (hnone hhead)

theorem skip_bind_follows {f : Bool → TokenReader β}
    (htake : ∀ t, t.kind = kind → p.take t = some more)
    (htrue : Follows (f true) (more ++ S))
    (hfalse : (∀ t ∈ c.rest.head?, t.kind ≠ kind) → FollowsAt (f false) (p :: S) c) :
    FollowsAt (skip? kind >>= f) (p :: S) c := by
  rcases head_cases (·.kind = kind) c.rest with ⟨t, rest, hrest, hkind⟩ | hhead
  · have hrun : (skip? kind).run c = .ok true { c with rest } :=
      skip_eq_true.mpr ⟨t, hkind, rest, hrest, rfl⟩
    exact .taking hrest (TokenReader.run_bind_of_ok hrun) (htake t hkind) (htrue _)
  · exact .congr (TokenReader.run_bind_of_ok (skip_eq_false.mpr ⟨rfl, hhead⟩)) (hfalse hhead)

/-- Giving up where nothing fits. -/
theorem giveUpHere_follows {cause : Cause} (hcause : cause.isStructural = true)
    (hnone : ∀ t ∈ c.rest.head?, p.take t = none) (hskip : ∀ next, p.skip next = none) :
    FollowsAt (giveUpHere cause hcause : TokenReader α) (p :: S) c := by
  intro hwhole K
  refine Fails.of_stuck hwhole hcause ⟨p, S ++ K, rfl, ?_⟩ rfl
  rw [Pending.next_of_not_take hnone, hskip, Option.map_none]

/-- A literal that does not say what it denotes is where the stack is stuck. -/
theorem takeLiteral_bind_follows {f : Option Literal → TokenReader β}
    (hsome : ∀ literal, Follows (f (some literal)) S)
    (hnone : (∀ t ∈ c.rest.head?, t.kind.isLiteral = false) →
      FollowsAt (f none) (.primary :: S) c) :
    FollowsAt (takeLiteral >>= f) (.primary :: S) c := by
  have hrun : takeLiteral.run c = Step.takeLiteral c := rfl
  unfold Step.takeLiteral at hrun
  rcases head_cases (·.kind.isLiteral = true) c.rest with ⟨t, rest, hrest, hliteral⟩ | hhead
  · have htake : Pending.primary.take t = t.literal.map fun _ => [] := if_pos hliteral
    rw [hrest] at hrun
    dsimp only at hrun
    rw [if_pos hliteral] at hrun
    cases hvalue : t.literal with
    | some literal =>
      rw [hvalue] at hrun htake
      exact .taking hrest (TokenReader.run_bind_of_ok hrun) htake (hsome literal _)
    | none =>
      rw [hvalue] at hrun htake
      intro hwhole K
      rw [TokenReader.run_bind_of_error hrun]
      have hcurrent : c.current = t := by rw [Cursor.current, hrest, List.headD_cons]
      -- the stack is stuck here, as it takes no literal without a value
      refine Fails.of_stuck hwhole rfl ⟨.primary, S ++ K, rfl, ?_⟩ (by rw [hcurrent]; rfl)
      refine Pending.next_of_not_take fun t' ht' => ?_
      rw [hrest] at ht'
      cases ht'
      exact htake
  -- without a literal the reader leaves everything as it was
  · replace hhead : ∀ t ∈ c.rest.head?, t.kind.isLiteral = false :=
      fun t ht => eq_false_of_ne_true (hhead t ht)
    refine .congr (TokenReader.run_bind_of_ok (hrun.trans ?_)) (hnone hhead)
    cases hrest : c.rest with
    | nil => rfl
    | cons t rest =>
      rw [hrest] at hhead
      exact if_neg (ne_true_of_eq_false (hhead t rfl))

/-- An expected token is a slot, and its absence is where both fail. -/
theorem expect_follows : Follows (expect slot) [.slot slot.kind] := by
  intro c
  refine takeIf_bind_follows (fun t htest => if_pos (eq_of_beq htest)) (fun t => .pure) ?_
  intro hhead
  refine giveUpHere_follows rfl (fun t ht => ?_) fun _ => rfl
  exact if_neg (ne_of_beq_false (hhead t ht))

/-- A complaint that is not about the structure is nothing that was awaited. -/
theorem complain_follows {cause : Cause} {token : Token} {h : cause.isStructural = false} :
    Follows (complain cause token h) [] := by
  intro c hwhole K
  refine .inl ⟨?_, .refl K _⟩
  intro complaint hmem
  rw [Cursor.complain, Array.toList_push, List.mem_append, List.mem_singleton] at hmem
  rcases hmem with hmem | rfl
  · exact hwhole complaint hmem
  · exact h

theorem complainHere_follows {cause : Cause} {h : cause.isStructural = false} :
    Follows (complainHere cause h) [] := by
  intro c
  have hcomplain : Follows (complain cause c.current h) [] := complain_follows
  exact hcomplain c

theorem inFunction_follows : Follows inFunction [] :=
  fun _ hwhole K => .inl ⟨hwhole, .refl K _⟩

/-- Bodies are awaited like anything else. -/
theorem insideBody_follows {x : TokenReader α} (hx : Follows x S) : Follows (insideBody x) S := by
  intro c hwhole K
  have hagrees := hx { c with depth := c.depth + 1 } hwhole K
  show Outcome.Agrees (S ++ K) K c
    (Outcome.moved _ (x.run { c with depth := c.depth + 1 }))
  cases hrun : x.run { c with depth := c.depth + 1 } with
  | ok a c' =>
    rw [hrun] at hagrees
    exact hagrees
  | error halt c' =>
    rw [hrun] at hagrees
    cases halt <;> exact hagrees

/-- The recovery does not hide the mistake. -/
theorem recovering_follows {x : TokenReader α} (hx : Follows x S) : Follows (recovering x) S := by
  intro c hwhole K
  have hagrees := hx c hwhole K
  show Outcome.Agrees (S ++ K) K c (Step.recovering x.run c)
  unfold Step.recovering
  cases hrun : x.run c with
  | ok a c' =>
    rw [hrun] at hagrees
    exact hagrees
  | error halt c' =>
    rw [hrun] at hagrees
    cases halt with
    | givenUp => exact .inr hagrees
    | outOfFuel => trivial

end Tokens

/-! ## Expressions -/

/-- With this bound, the readers of expressions follow the stack. -/
structure ExpressionsFollow (fuel : Nat) : Prop where
  expression : Follows (expression fuel) [.expression]
  binary : ∀ level, Follows (binary fuel level) [.binary level]
  binaryRest : ∀ level left, Follows (binaryRest fuel level left) [.binaryRest level]
  operand : ∀ level, Follows (operand fuel level) [.operand level]
  unary : Follows (unary fuel) [.unary]
  postfixes : ∀ left, Follows (postfixes fuel left) [.postfixes]
  argumentList : Follows (argumentList fuel) [.argumentList]
  arguments : ∀ count, Follows (arguments fuel count) [.arguments]
  primary : Follows (primary fuel) [.primary]

namespace ExpressionsFollow

variable {fuel : Nat}

/-- An assignment is read as what stands before the equals sign and what stands behind it. -/
theorem expression_succ (ih : ExpressionsFollow fuel) :
    Follows (Grammar.expression (fuel + 1)) [.expression] := by
  rw [Grammar.expression]
  refine .parts (fun _ => rfl) (fun _ => rfl) ((ih.binary .or).bind fun left => ?_)
  intro c
  refine takeIf_bind_follows (fun t htest => if_pos (eq_of_beq htest)) (fun equals => ?_) ?_
  · refine ih.expression.bind fun value => ?_
    cases assignment? left value with
    | some result => exact .pure
    | none => exact complain_follows.bind_passing fun _ => .pure
  · exact fun hnone => .nothing (fun t ht => if_neg (ne_of_beq_false (hnone t ht))) rfl

theorem binary_succ (ih : ExpressionsFollow fuel) (level : Level) :
    Follows (Grammar.binary (fuel + 1) level) [.binary level] := by
  rw [Grammar.binary]
  refine .parts (fun _ => rfl) (fun _ => rfl) ((ih.operand level).bind fun left => ?_)
  exact ih.binaryRest level left

/-- Operators of a level are awaited as long as they come. -/
theorem binaryRest_succ (ih : ExpressionsFollow fuel) (level : Level) (left : Expr) :
    Follows (Grammar.binaryRest (fuel + 1) level left) [.binaryRest level] := by
  rw [Grammar.binaryRest]
  intro c
  refine takeIf_bind_follows (fun t htest => if_pos htest) (fun op => ?_) ?_
  · exact (ih.operand level).bind fun right => ih.binaryRest level _
  · exact fun hnone => .nothing (fun t ht => if_neg (ne_true_of_eq_false (hnone t ht))) rfl

/-- An operand is what it consists of, level by level. -/
theorem operand_succ (ih : ExpressionsFollow fuel) (level : Level) :
    Follows (Grammar.operand (fuel + 1) level) [.operand level] := by
  rw [Grammar.operand]
  refine .parts (fun _ => rfl) (fun _ => rfl) ?_
  cases level.tighter? with
  | some level' => exact ih.binary level'
  | none => exact ih.unary

/-- Signs are taken one by one. -/
theorem unary_succ (ih : ExpressionsFollow fuel) : Follows (Grammar.unary (fuel + 1)) [.unary] := by
  rw [Grammar.unary]
  intro c
  refine takeIf_bind_follows (fun t htest => if_pos htest) (fun op => ?_) fun hnone => ?_
  · exact ih.unary.map_pure
  · refine .parts (fun t ht => if_neg (ne_true_of_eq_false (hnone t ht))) rfl ?_
    exact (ih.primary.bind fun callee => ih.postfixes callee) c

theorem postfixes_succ (ih : ExpressionsFollow fuel) (left : Expr) :
    Follows (Grammar.postfixes (fuel + 1) left) [.postfixes] := by
  rw [Grammar.postfixes]
  intro c
  refine skip_bind_follows (fun t hkind => if_pos hkind) ?_ fun hparen => ?_
  · refine ih.argumentList.bind fun args => ?_
    exact expect_follows.bind fun paren => ih.postfixes _
  · refine skip_bind_follows (fun t hkind => Pending.take_postfixes_dot hkind) ?_ fun hdot => ?_
    · exact expect_follows.bind fun name => ih.postfixes _
    · refine .nothing (fun t ht => ?_) rfl
      exact (if_neg (hparen t ht)).trans (if_neg (hdot t ht))

theorem argumentList_succ (ih : ExpressionsFollow fuel) :
    Follows (Grammar.argumentList (fuel + 1)) [.argumentList] := by
  rw [Grammar.argumentList]
  exact nextIs_bind_follows (fun _ => rfl) (fun _ => rfl) .pure (ih.arguments 0)

/-- Arguments are awaited as long as commas come. -/
theorem arguments_succ (ih : ExpressionsFollow fuel) (count : Nat) :
    Follows (Grammar.arguments (fuel + 1) count) [.arguments] := by
  have hrest : Follows
      (do let arg ← Grammar.expression fuel
          if ← skip? .comma then
            return arg :: (← Grammar.arguments fuel (count + 1))
          else return [arg])
      [.arguments] := by
    refine .parts (fun _ => rfl) (fun _ => rfl) (ih.expression.bind fun arg c => ?_)
    refine skip_bind_follows (fun t hkind => if_pos hkind) ?_ fun hcomma => ?_
    · exact (ih.arguments _).map_pure
    · exact .nothing (fun t ht => if_neg (hcomma t ht)) rfl
  rw [Grammar.arguments]
  dsimp only
  split
  · exact complainHere_follows.bind_passing fun _ => hrest
  · exact hrest

/-- A simple expression is told by its first token, and if none fits, both are stuck. -/
theorem primary_succ (ih : ExpressionsFollow fuel) :
    Follows (Grammar.primary (fuel + 1)) [.primary] := by
  rw [Grammar.primary]
  intro c
  refine takeLiteral_bind_follows (fun literal => .pure) fun hliteral => ?_
  have htake : ∀ t ∈ c.rest.head?,
      Pending.primary.take t = (Opening.ofKind? t.kind).map Opening.pending :=
    fun t ht => if_neg (ne_true_of_eq_false (hliteral t ht))
  refine take_bind_follows htake (fun t opening => ?_) fun hopening => ?_
  · cases opening with
    | constant value => exact .pure
    | super => exact expect_follows.bind fun _ => expect_follows.map_pure
    | this => exact .pure
    | name => exact .pure
    | group => exact ih.expression.bind fun inner => expect_follows.map_pure
  · refine giveUpHere_follows rfl (fun t ht => ?_) fun _ => rfl
    rw [htake t ht, hopening t ht, Option.map_none]

end ExpressionsFollow

/-- All readers of expressions follow the stack, by induction on the fuel. -/
theorem expressionsFollow (fuel : Nat) : ExpressionsFollow fuel := by
  induction fuel with
  | zero => constructor <;> intros <;> exact fun c => .outOfFuel
  | succ fuel ih =>
    exact
      { expression := ih.expression_succ
        binary := ih.binary_succ
        binaryRest := ih.binaryRest_succ
        operand := ih.operand_succ
        unary := ih.unary_succ
        postfixes := ih.postfixes_succ
        argumentList := ih.argumentList_succ
        arguments := ih.arguments_succ
        primary := ih.primary_succ }

/-! ## Statements without statements inside -/

section Clauses

variable {fuel : Nat}

theorem expression_follows : Follows (expression fuel) [.expression] :=
  (expressionsFollow fuel).expression

/-- A simple statement awaits an expression and its semicolon. -/
theorem expressionStatement_follows :
    Follows (expressionStatement fuel) [.expression, .slot .semicolon] :=
  expression_follows.bind fun _ => expect_follows.map_pure

theorem printStatement_follows : Follows (printStatement fuel) [.expression, .slot .semicolon] :=
  expression_follows.bind fun _ => expect_follows.map_pure

/-- An expression may be missing before a token of that kind only. -/
theorem expressionBefore_follows (kind : TokenKind) :
    Follows (expressionBefore fuel kind) [.optional kind] :=
  nextIs_bind_follows (fun _ => rfl) (fun _ => rfl) .pure expression_follows.map_pure

/-- A `return` may have a value before its semicolon. -/
theorem returnStatement_follows (keyword : Token) :
    Follows (returnStatement fuel keyword) [.optional .semicolon, .slot .semicolon] := by
  have hrest : Follows
      (do let value ← expressionBefore fuel .semicolon
          let _ ← expect .returnEnd
          return Stmt.returnStmt keyword value)
      [.optional .semicolon, .slot .semicolon] :=
    (expressionBefore_follows .semicolon).bind fun _ => expect_follows.map_pure
  refine inFunction_follows.bind_passing fun inside => ?_
  cases inside with
  | true => exact hrest
  | false => exact complain_follows.bind_passing fun _ => hrest

/-- An initial value is awaited behind an equals sign only. -/
theorem initialValue_follows : Follows (initialValue fuel) [.initializer] := by
  intro c
  refine skip_bind_follows (fun t hkind => if_pos hkind) ?_ fun hequal => ?_
  · exact expression_follows.map_pure
  · exact .nothing (fun t ht => if_neg (hequal t ht)) rfl

theorem varDeclaration_follows : Follows (varDeclaration fuel) Pending.variable :=
  expect_follows.bind fun _ => initialValue_follows.bind fun _ => expect_follows.map_pure

/-- A first clause is told by its first token. -/
theorem initializerClause_follows : Follows (initializerClause fuel) [.firstClause] := by
  intro c
  refine skip_bind_follows (fun t hkind => if_pos hkind) .pure fun hsemicolon => ?_
  refine skip_bind_follows (fun t hkind => Pending.take_firstClause_var hkind) ?_ fun hvar => ?_
  · exact varDeclaration_follows.map_pure
  · refine .parts (fun t ht => ?_) rfl (expressionStatement_follows.map_pure c)
    exact (if_neg (hsemicolon t ht)).trans (if_neg (hvar t ht))

/-- Parameters are awaited as long as commas come. -/
theorem parameters_follows (count : Nat) : Follows (parameters fuel count) [.parameters] := by
  induction fuel generalizing count with
  | zero => exact fun c => .outOfFuel
  | succ fuel ih =>
    have hrest : Follows
        (do let name ← expect .parameterName
            if ← skip? .comma then
              return name :: (← parameters fuel (count + 1))
            else return [name])
        [.parameters] := by
      refine .parts (fun _ => rfl) (fun _ => rfl) (expect_follows.bind fun name c => ?_)
      refine skip_bind_follows (fun t hkind => if_pos hkind) ?_ fun hcomma => ?_
      · exact (ih _).map_pure
      · exact .nothing (fun t ht => if_neg (hcomma t ht)) rfl
    rw [parameters]
    dsimp only
    split
    · exact complainHere_follows.bind_passing fun _ => hrest
    · exact hrest

theorem parameterList_follows : Follows (parameterList fuel) [.parameterList] :=
  nextIs_bind_follows (fun _ => rfl) (fun _ => rfl) .pure (parameters_follows 0)

/-- A superclass is awaited behind its sign only. -/
theorem superclassClause_follows (name : Token) :
    Follows (superclassClause name) [.superclass] := by
  intro c
  refine skip_bind_follows (fun t hkind => if_pos hkind) ?_ fun hless => ?_
  · refine expect_follows.bind fun parent => ?_
    dsimp only
    split
    · exact complain_follows.bind_passing fun _ => .pure
    · exact .pure
  · exact .nothing (fun t ht => if_neg (hless t ht)) rfl

end Clauses

/-! ## Statements with statements inside -/

/-- With this bound, the readers of statements and declarations follow the stack. -/
structure StatementsFollow (fuel : Nat) : Prop where
  declaration : Follows (declaration fuel) [.declaration]
  strictDeclaration : Follows (strictDeclaration fuel) [.declaration]
  declarations : Follows (declarations fuel) [.declarations]
  block : Follows (block fuel) [.declarations, .slot .rightBrace]
  callable : ∀ sort, Follows (callable fuel sort) [.callable]
  methods : Follows (methods fuel) [.methods]
  classDeclaration : Follows (classDeclaration fuel) Declarator.classDecl.pending
  statement : Follows (statement fuel) [.statement]
  forStatement : Follows (forStatement fuel) Lead.forLoop.pending
  ifStatement : Follows (ifStatement fuel) Lead.ifElse.pending
  whileStatement : Follows (whileStatement fuel) Lead.whileLoop.pending

namespace StatementsFollow

variable {fuel : Nat}

/-- A declaration that is recovered from has failed before, and the stack is stuck there for
good. -/
theorem declaration_succ (ih : StatementsFollow fuel) :
    Follows (Grammar.declaration (fuel + 1)) [.declaration] := by
  rw [Grammar.declaration]
  exact recovering_follows ih.strictDeclaration

theorem strictDeclaration_succ (ih : StatementsFollow fuel) :
    Follows (Grammar.strictDeclaration (fuel + 1)) [.declaration] := by
  rw [Grammar.strictDeclaration]
  intro c
  refine take_bind_follows (fun t _ => rfl) (fun t declarator => ?_) fun hnone => ?_
  · cases declarator with
    | classDecl => exact ih.classDeclaration
    | funDecl => exact (ih.callable .function).map_pure
    | varDecl => exact varDeclaration_follows
  · refine .parts (fun t ht => ?_) rfl (ih.statement c)
    rw [Pending.take, hnone t ht, Option.map_none]

/-- Declarations are awaited as long as no closing brace comes. -/
theorem declarations_succ (ih : StatementsFollow fuel) :
    Follows (Grammar.declarations (fuel + 1)) [.declarations] := by
  rw [Grammar.declarations]
  refine nextIs_bind_follows (fun _ => rfl) (fun _ => rfl) ?_ .pure
  exact ih.declaration.bind fun stmt => ih.declarations.map_pure

theorem block_succ (ih : StatementsFollow fuel) :
    Follows (Grammar.block (fuel + 1)) [.declarations, .slot .rightBrace] := by
  rw [Grammar.block]
  exact ih.declarations.bind fun body => expect_follows.map_pure

/-- A function awaits its name, its parameters and its body. -/
theorem callable_succ (ih : StatementsFollow fuel) (sort : Callable) :
    Follows (Grammar.callable (fuel + 1) sort) [.callable] := by
  rw [Grammar.callable]
  refine .parts (fun _ => rfl) (fun _ => rfl) (expect_follows.bind fun name => ?_)
  refine expect_follows.bind fun _ => parameterList_follows.bind fun params => ?_
  refine expect_follows.bind fun _ => expect_follows.bind fun _ => ?_
  exact (insideBody_follows ih.block).map_pure

theorem methods_succ (ih : StatementsFollow fuel) :
    Follows (Grammar.methods (fuel + 1)) [.methods] := by
  rw [Grammar.methods]
  refine nextIs_bind_follows (fun _ => rfl) (fun _ => rfl) ?_ .pure
  exact (ih.callable .method).bind fun method => ih.methods.map_pure

theorem classDeclaration_succ (ih : StatementsFollow fuel) :
    Follows (Grammar.classDeclaration (fuel + 1)) Declarator.classDecl.pending := by
  rw [Grammar.classDeclaration]
  refine expect_follows.bind fun name => (superclassClause_follows name).bind fun superclass => ?_
  exact expect_follows.bind fun _ => ih.methods.bind fun members => expect_follows.map_pure

/-- A statement is told by its first token. -/
theorem statement_succ (ih : StatementsFollow fuel) :
    Follows (Grammar.statement (fuel + 1)) [.statement] := by
  rw [Grammar.statement]
  intro c
  refine take_bind_follows (fun t _ => rfl) (fun t lead => ?_) fun hnone => ?_
  · cases lead with
    | forLoop => exact ih.forStatement
    | ifElse => exact ih.ifStatement
    | print => exact printStatement_follows
    | returnStmt => exact returnStatement_follows t
    | whileLoop => exact ih.whileStatement
    | block => exact ih.block.map_pure
  · refine .parts (fun t ht => ?_) rfl (expressionStatement_follows c)
    rw [Pending.take, hnone t ht, Option.map_none]

theorem forStatement_succ (ih : StatementsFollow fuel) :
    Follows (Grammar.forStatement (fuel + 1)) Lead.forLoop.pending := by
  rw [Grammar.forStatement]
  refine expect_follows.bind fun _ => initializerClause_follows.bind fun initializer => ?_
  refine (expressionBefore_follows _).bind fun condition => expect_follows.bind fun _ => ?_
  refine (expressionBefore_follows _).bind fun increment => expect_follows.bind fun _ => ?_
  exact ih.statement.map_pure

/-- An `else` is taken if it comes, so no other part waits for it. -/
theorem ifStatement_succ (ih : StatementsFollow fuel) :
    Follows (Grammar.ifStatement (fuel + 1)) Lead.ifElse.pending := by
  rw [Grammar.ifStatement]
  refine expect_follows.bind fun _ => expression_follows.bind fun condition => ?_
  refine expect_follows.bind fun _ => ih.statement.bind fun thenBranch c => ?_
  refine skip_bind_follows (fun t hkind => if_pos hkind) ?_ fun helse => ?_
  · have helseBranch : Follows (some <$> Grammar.statement fuel) [.statement] :=
      ih.statement.map_pure
    exact helseBranch.map_pure
  · exact .nothing (fun t ht => if_neg (helse t ht)) rfl

theorem whileStatement_succ (ih : StatementsFollow fuel) :
    Follows (Grammar.whileStatement (fuel + 1)) Lead.whileLoop.pending := by
  rw [Grammar.whileStatement]
  refine expect_follows.bind fun _ => expression_follows.bind fun condition => ?_
  exact expect_follows.bind fun _ => ih.statement.map_pure

end StatementsFollow

/-- All readers of statements follow the stack, by induction on the fuel. -/
theorem statementsFollow (fuel : Nat) : StatementsFollow fuel := by
  induction fuel with
  | zero => constructor <;> intros <;> exact fun c => .outOfFuel
  | succ fuel ih =>
    exact
      { declaration := ih.declaration_succ
        strictDeclaration := ih.strictDeclaration_succ
        declarations := ih.declarations_succ
        block := ih.block_succ
        callable := ih.callable_succ
        methods := ih.methods_succ
        classDeclaration := ih.classDeclaration_succ
        statement := ih.statement_succ
        forStatement := ih.forStatement_succ
        ifStatement := ih.ifStatement_succ
        whileStatement := ih.whileStatement_succ }

/-! ## Programs -/

theorem program_follows (fuel : Nat) : Follows (program fuel) [.program] := by
  induction fuel with
  | zero => exact fun c => .outOfFuel
  | succ fuel ih =>
    rw [program]
    refine nextIs_bind_follows (fun _ => rfl) (fun _ => rfl) ?_ .pure
    exact (statementsFollow fuel).declaration.bind fun stmt => ih.map_pure

end Lox.Grammar
