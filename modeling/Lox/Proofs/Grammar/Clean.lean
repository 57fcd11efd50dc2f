/-
`Lox.Proofs.Grammar.Clean` -- reading without a complaint.

A reader takes some tokens if it returns something and adds no complaint. Then
the tokens that are left are all that has changed, and a reader that is put
together from steps takes what the steps take, one after the other: a complaint
that was made on the way would still be there at the end.

Each reader has a bound on its depth, so what is to be said of it is that it takes
the tokens with every bound that is high enough (`Reads`).
-/
import Lox.Proofs.Grammar.Reader

set_option autoImplicit false

namespace Lox.Grammar

variable {α β : Type}

/-! ## Taking tokens -/

/-- At the tokens `ts` the reader returns `a`, leaves `ts'` and adds no complaint.
Of the cursor `c` all but the tokens matters. -/
def Takes (x : TokenReader α) (c : Cursor) (ts : List Token) (a : α) (ts' : List Token) : Prop :=
  x.run { c with rest := ts } = .ok a { c with rest := ts' }

section Takes

variable {x : TokenReader α} {f : α → TokenReader β} {c : Cursor} {ts ts' : List Token} {a : α}
  {b : β} {token : Token}

/-- Returning a value takes nothing. -/
theorem takes_pure {a' : α} : Takes (pure a) c ts a' ts' ↔ a' = a ∧ ts' = ts := by
  constructor
  · intro h
    unfold Takes at h
    rw [TokenReader.run_pure, EStateM.Result.ok.injEq, Cursor.mk.injEq] at h
    exact ⟨h.1.symm, h.2.1.symm⟩
  · rintro ⟨rfl, rfl⟩
    rfl

/-- A run that adds no complaint in the end has added none in the middle. -/
theorem takes_bind :
    Takes (x >>= f) c ts b ts' ↔ ∃ a us, Takes x c ts a us ∧ Takes (f a) c us b ts' := by
  constructor
  · intro h
    obtain ⟨a, c', hx, hf⟩ := TokenReader.run_bind_eq_ok.mp h
    have hadv := TokenReader.advances hx
    have hadv' := TokenReader.advances hf
    obtain ⟨new, hnew⟩ := hadv.complaints
    obtain ⟨new', hnew'⟩ := hadv'.complaints
    have hnone : new = #[] := by
      have hsize : c.complaints.size = c'.complaints.size + new'.size := by
        rw [← Array.size_append, ← hnew']
      have hsize' : c'.complaints.size = c.complaints.size + new.size := by
        rw [hnew, Array.size_append]
      exact Array.eq_empty_of_size_eq_zero (by omega)
    have hc' : c' = { c with rest := c'.rest } := by
      rw [hnone, Array.append_empty] at hnew
      obtain ⟨rest, finish, depth, complaints⟩ := c'
      simp only [Cursor.mk.injEq, true_and]
      exact ⟨hadv.finish, hadv.depth, hnew⟩
    refine ⟨a, c'.rest, ?_, ?_⟩
    · rw [Takes, hx, ← hc']
    · rw [Takes, ← hc', hf]
  · rintro ⟨a, us, hx, hf⟩
    rw [Takes, TokenReader.run_bind_of_ok hx]
    exact hf

/-- A reader without fuel takes nothing, for it does not come through. -/
theorem not_takes_outOfFuel : ¬ Takes (outOfFuel : TokenReader α) c ts a ts' :=
  fun h => by cases h

/-- A complaint would be seen at the end. -/
theorem not_takes_complain {cause : Cause} {h : cause.isStructural = false} {u : Unit} :
    ¬ Takes (complain cause token h) c ts u ts' := by
  intro hrun
  have hcomplaints : c.complaints.push ⟨cause, token⟩ = c.complaints := by
    injection hrun with _ hc
    exact congrArg Cursor.complaints hc
  have hsize := congrArg Array.size hcomplaints
  rw [Array.size_push] at hsize
  omega

/-- One that complains is not clean. -/
theorem not_takes_complainHere {cause : Cause} {h : cause.isStructural = false} {u : Unit} :
    ¬ Takes (complainHere cause h) c ts u ts' := by
  intro hrun
  have htoken : ¬ Takes (complain cause (Cursor.current { c with rest := ts }) h) c ts u ts' :=
    not_takes_complain
  exact htoken hrun

theorem not_takes_giveUpHere {cause : Cause} {h : cause.isStructural = true} :
    ¬ Takes (giveUpHere cause h : TokenReader α) c ts a ts' :=
  fun hrun => by cases hrun

/-! ### Single tokens -/

/-- Passing a token is having it in front. -/
theorem passes_iff :
    Cursor.Passes { c with rest := ts } token { c with rest := ts' } ↔ ts = token :: ts' := by
  constructor
  · rintro ⟨rest, hrest, hc⟩
    have hts : ts' = rest := congrArg Cursor.rest hc
    rw [hts]
    exact hrest
  · intro h
    exact ⟨ts', h, rfl⟩

/-- Two cursors that differ in their tokens at most are told apart by them. -/
theorem rest_eq_iff :
    ({ c with rest := ts' } : Cursor) = { c with rest := ts } ↔ ts' = ts := by
  constructor
  · intro h
    exact congrArg Cursor.rest h
  · rintro rfl
    rfl

variable {test : TokenKind → Bool} {use : TokenKind → Option α} {kind : TokenKind} {slot : Slot}

/-- Looking at the next token says whether it passes, and takes nothing. -/
theorem takes_nextIs {found : Bool} :
    Takes (nextIs test) c ts found ts' ↔ ts' = ts ∧ found = ts.head?.any (test ·.kind) := by
  rw [Takes, nextIs_eq_ok, rest_eq_iff]

theorem takes_nextIs_cons {found : Bool} (h : test token.kind = found) :
    Takes (nextIs test) c (token :: ts) found (token :: ts) :=
  takes_nextIs.mpr ⟨rfl, h.symm⟩

theorem takes_at_true (h : token.kind = kind) :
    Takes (at? kind) c (token :: ts) true (token :: ts) :=
  takes_nextIs_cons (beq_iff_eq.mpr h)

theorem takes_at_false (h : token.kind ≠ kind) :
    Takes (at? kind) c (token :: ts) false (token :: ts) :=
  takes_nextIs_cons (beq_false_of_ne h)

/-- A token is taken for what it can be used as. -/
theorem takes_take_some :
    Takes (take use) c ts (some (token, a)) ts' ↔
      use token.kind = some a ∧ ts = token :: ts' := by
  rw [Takes, take_eq_some, passes_iff]

/-- None is taken exactly if the next one cannot be used. -/
theorem takes_take_none :
    Takes (take use) c ts none ts' ↔
      ts' = ts ∧ ∀ token ∈ ts.head?, use token.kind = none := by
  rw [Takes, take_eq_none, rest_eq_iff]

/-- One that passes the test is taken. -/
theorem takes_takeIf_some :
    Takes (takeIf test) c ts (some token) ts' ↔ test token.kind ∧ ts = token :: ts' := by
  rw [Takes, takeIf_eq_some, passes_iff]

/-- None is taken exactly if the next one does not pass. -/
theorem takes_takeIf_none :
    Takes (takeIf test) c ts none ts' ↔
      ts' = ts ∧ ∀ token ∈ ts.head?, test token.kind = false := by
  rw [Takes, takeIf_eq_none, rest_eq_iff]

/-- A token of the kind is passed. -/
theorem takes_skip_true :
    Takes (skip? kind) c ts true ts' ↔ ∃ token, token.kind = kind ∧ ts = token :: ts' := by
  rw [Takes, skip_eq_true]
  simp only [passes_iff]

/-- None is passed exactly if the next one is of another kind. -/
theorem takes_skip_false :
    Takes (skip? kind) c ts false ts' ↔ ts' = ts ∧ ∀ token ∈ ts.head?, token.kind ≠ kind := by
  rw [Takes, skip_eq_false, rest_eq_iff]

/-- Without a complaint an expected token was there. -/
theorem takes_expect :
    Takes (expect slot) c ts token ts' ↔ token.kind = slot.kind ∧ ts = token :: ts' := by
  rw [Takes, expect_eq_ok, passes_iff]

/-- So a reader that goes on behind one goes on behind a token of its kind. -/
theorem takes_bind_expect {f : Token → TokenReader α} :
    Takes (expect slot >>= f) c ts a ts' ↔
      ∃ token us, token.kind = slot.kind ∧ ts = token :: us ∧ Takes (f token) c us a ts' := by
  rw [takes_bind]
  simp only [takes_expect, and_assoc]

/-- A literal is taken with its value. -/
theorem takes_takeLiteral_some {literal : Literal} :
    Takes takeLiteral c ts (some literal) ts' ↔
      ∃ token, token.kind.isLiteral ∧ token.literal = some literal ∧ ts = token :: ts' := by
  show Step.takeLiteral { c with rest := ts } = _ ↔ _
  unfold Step.takeLiteral
  constructor
  · intro h
    dsimp only at h
    split at h
    · cases h
    · rename_i token rest
      split at h
      · rename_i hliteral
        split at h
        · rename_i value hvalue
          rw [EStateM.Result.ok.injEq, Option.some.injEq, Cursor.mk.injEq] at h
          obtain ⟨rfl, rfl, -⟩ := h
          exact ⟨token, hliteral, hvalue, rfl⟩
        · cases h
      · cases h
  · rintro ⟨token, hliteral, hvalue, rfl⟩
    dsimp only
    rw [if_pos hliteral, hvalue]

/-- No literal is taken exactly if the next token is none. -/
theorem takes_takeLiteral_none :
    Takes takeLiteral c ts none ts' ↔
      ts' = ts ∧ ∀ token ∈ ts.head?, token.kind.isLiteral = false := by
  show Step.takeLiteral { c with rest := ts } = _ ↔ _
  unfold Step.takeLiteral
  cases ts with
  | nil =>
    constructor
    · intro h
      rw [EStateM.Result.ok.injEq, Cursor.mk.injEq] at h
      exact ⟨h.2.1.symm, fun token hmem => by cases hmem⟩
    · rintro ⟨rfl, -⟩
      rfl
  | cons head rest =>
    by_cases hliteral : head.kind.isLiteral
    · constructor
      · intro h
        dsimp only at h
        rw [if_pos hliteral] at h
        split at h <;> cases h
      · rintro ⟨-, hnone⟩
        rw [hnone head rfl] at hliteral
        cases hliteral
    · constructor
      · intro h
        dsimp only at h
        rw [if_neg hliteral, EStateM.Result.ok.injEq, Cursor.mk.injEq] at h
        refine ⟨h.2.1.symm, fun token hmem => ?_⟩
        cases hmem
        exact eq_false_of_ne_true hliteral
      · rintro ⟨rfl, -⟩
        dsimp only
        rw [if_neg hliteral]

/-! ### Bodies and declarations -/

/-- The depth is looked at and kept. -/
theorem takes_inFunction {inside : Bool} :
    Takes inFunction c ts inside ts' ↔ inside = (c.depth != 0) ∧ ts' = ts := by
  constructor
  · intro h
    replace h : (EStateM.Result.ok (c.depth != 0) { c with rest := ts } : Outcome Bool)
      = .ok inside { c with rest := ts' } := h
    rw [EStateM.Result.ok.injEq, Cursor.mk.injEq] at h
    exact ⟨h.1.symm, h.2.1.symm⟩
  · rintro ⟨rfl, rfl⟩
    rfl

/-- A reader comes through inside of a body as it does one deeper. -/
theorem takes_insideBody :
    Takes (insideBody x) c ts a ts' ↔ Takes x { c with depth := c.depth + 1 } ts a ts' := by
  show Outcome.moved _ (x.run { c with rest := ts, depth := c.depth + 1 }) = _ ↔
    x.run { c with rest := ts, depth := c.depth + 1 } = _
  cases hrun : x.run { c with rest := ts, depth := c.depth + 1 } with
  | error halt c' =>
    constructor <;> intro h <;> cases h
  | ok a' c' =>
    have hdepth : c'.depth = c.depth + 1 := (TokenReader.advances hrun).depth
    obtain ⟨rest, finish, depth, complaints⟩ := c'
    replace hdepth : depth = c.depth + 1 := hdepth
    subst hdepth
    rw [Outcome.moved_ok]
    dsimp only
    rw [Nat.add_sub_cancel]
    constructor
    · intro h
      rw [EStateM.Result.ok.injEq, Cursor.mk.injEq] at h
      obtain ⟨rfl, rfl, rfl, -, rfl⟩ := h
      rfl
    · intro h
      rw [EStateM.Result.ok.injEq, Cursor.mk.injEq] at h
      obtain ⟨rfl, rfl, rfl, -, rfl⟩ := h
      rfl

/-- A declaration that is read without a complaint fits. -/
theorem takes_recovering {found : Option α} :
    Takes (recovering x) c ts found ts' ↔ ∃ a, found = some a ∧ Takes x c ts a ts' := by
  show Step.recovering x.run { c with rest := ts } = _ ↔ _
  unfold Step.recovering
  constructor
  · intro h
    cases hrun : x.run { c with rest := ts } with
    | ok a c' =>
      rw [hrun] at h
      cases h
      exact ⟨a, rfl, hrun⟩
    | error halt c' =>
      rw [hrun] at h
      cases halt with
      | outOfFuel => cases h
      | givenUp =>
        -- whoever gives up has complained
        obtain ⟨new, cause, token, hcomplaints, -⟩ := x.built.givenUp _ c' hrun
        replace h : (EStateM.Result.ok none { c' with rest := Step.resume c'.rest } :
          Outcome (Option α)) = .ok found { c with rest := ts' } := h
        rw [EStateM.Result.ok.injEq, Cursor.mk.injEq] at h
        have hsize := congrArg Array.size (h.2.2.2.2.symm.trans hcomplaints)
        rw [Array.size_push, Array.size_append] at hsize
        dsimp only at hsize
        omega
  · rintro ⟨a, rfl, hrun⟩
    rw [hrun]

end Takes

/-! ## Bounds that are high enough -/

/-- With every bound from some one on, the reader takes the tokens. -/
def Reads (f : Nat → TokenReader α) (c : Cursor) (ts : List Token) (a : α) (ts' : List Token) :
    Prop :=
  ∃ n, ∀ fuel, n ≤ fuel → Takes (f fuel) c ts a ts'

namespace Reads

variable {f : Nat → TokenReader α} {c : Cursor} {ts ts' ts'' : List Token} {a : α} {b : β}

/-- A reader that has no need of fuel reads with any. -/
theorem of_takes (h : ∀ fuel, Takes (f fuel) c ts a ts') : Reads f c ts a ts' :=
  ⟨0, fun fuel _ => h fuel⟩

protected theorem pure (a : α) : Reads (fun _ => pure a) c ts a ts :=
  of_takes fun _ => rfl

/-- Readers after one another read with the larger bound of both. -/
protected theorem bind {g : Nat → α → TokenReader β} (hf : Reads f c ts a ts')
    (hg : Reads (fun fuel => g fuel a) c ts' b ts'') :
    Reads (fun fuel => f fuel >>= g fuel) c ts b ts'' := by
  obtain ⟨n, hn⟩ := hf
  obtain ⟨m, hm⟩ := hg
  refine ⟨max n m, fun fuel hfuel => ?_⟩
  have hnfuel : n ≤ fuel := Nat.le_trans (Nat.le_max_left n m) hfuel
  have hmfuel : m ≤ fuel := Nat.le_trans (Nat.le_max_right n m) hfuel
  exact takes_bind.mpr ⟨a, ts', hn fuel hnfuel, hm fuel hmfuel⟩

/-- A step that needs no bound, and then the rest. -/
theorem step {x : TokenReader α} {g : Nat → α → TokenReader β} (hx : Takes x c ts a ts')
    (hg : Reads (fun fuel => g fuel a) c ts' b ts'') :
    Reads (fun fuel => x >>= g fuel) c ts b ts'' :=
  (of_takes fun _ => hx).bind hg

protected theorem map {g : α → β} (hf : Reads f c ts a ts') :
    Reads (fun fuel => g <$> f fuel) c ts (g a) ts' :=
  hf.bind (.pure (g a))

protected theorem insideBody (hf : Reads f { c with depth := c.depth + 1 } ts a ts') :
    Reads (fun fuel => insideBody (f fuel)) c ts a ts' := by
  obtain ⟨n, hn⟩ := hf
  exact ⟨n, fun fuel hfuel => takes_insideBody.mpr (hn fuel hfuel)⟩

protected theorem recovering (hf : Reads f c ts a ts') :
    Reads (fun fuel => recovering (f fuel)) c ts (some a) ts' := by
  obtain ⟨n, hn⟩ := hf
  exact ⟨n, fun fuel hfuel => takes_recovering.mpr ⟨a, rfl, hn fuel hfuel⟩⟩

/-- The reader hands a smaller bound on than the one it was given. -/
theorem succ (h : Reads (fun fuel => f (fuel + 1)) c ts a ts') : Reads f c ts a ts' := by
  obtain ⟨n, hn⟩ := h
  refine ⟨n + 1, fun fuel hfuel => ?_⟩
  obtain ⟨fuel, rfl⟩ : ∃ k, fuel = k + 1 := ⟨fuel - 1, by omega⟩
  exact hn fuel (by omega)

end Reads

end Lox.Grammar
