/-
`Lox.Proofs.Grammar.Loss` -- nothing is left out in silence.

A reader that gives up has said why, and where a declaration is given up the reading goes
on. So a declaration can come to nothing in the middle of another one, and that one can be
given up in its turn, together with what was read in it. All these losses are to be found
in the complaints: each has one that is about the structure of the program, and there are
no others.

What is lost in the run of a reader is said along the steps that it is put together from
(`Loses`). So there is one rule for each sort of step, and one induction tells what was
complained about in the run (`Loses.accounts`). Where no declaration is read nothing can be
lost (`Lossless`): a reader of expressions that returns something has made no structural
complaint, and one that gives up has made exactly one, its last.
-/
import Lox.Proofs.Grammar.FirstMistake

set_option autoImplicit false

namespace Lox

namespace Grammar

variable {α β : Type}

/-! ## Losses -/

/-- A declaration that came to nothing: the token at which it begins, and the complaint
with which it was given up. -/
structure Loss where
  first : Token
  complaint : Complaint

/-- In the run of the reader from the cursor these declarations come to nothing, whatever
they stand in. They are listed in the order in which they are given up, so one that stands
in another comes before it. -/
inductive Loses : {α : Type} → (Cursor → Outcome α) → Cursor → List Loss → Prop
  | pure {α : Type} (a : α) (c : Cursor) : Loses (.ok a) c []
  | goesOn {α β : Type} {x : Cursor → Outcome α} {f : α → Cursor → Outcome β} {a : α}
    {c c' : Cursor} {lost lost' : List Loss} :
    Loses x c lost → x c = .ok a c' → Loses (f a) c' lost' →
    Loses (Step.bind x f) c (lost ++ lost')
  | endsEarly {α β : Type} {x : Cursor → Outcome α} {f : α → Cursor → Outcome β} {halt : Halt}
    {c c' : Cursor} {lost : List Loss} :
    Loses x c lost → x c = .error halt c' → Loses (Step.bind x f) c lost
  | outOfFuel {α : Type} (c : Cursor) : Loses (.error .outOfFuel : Cursor → Outcome α) c []
  | nextIs (test : TokenKind → Bool) (c : Cursor) : Loses (Step.nextIs test) c []
  | take {α : Type} (use : TokenKind → Option α) (c : Cursor) : Loses (Step.take use) c []
  | takeLiteral (c : Cursor) : Loses Step.takeLiteral c []
  | inFunction (c : Cursor) : Loses Step.inFunction c []
  | complain {cause : Cause} (token : Token) (c : Cursor) :
    cause.isStructural = false → Loses (Step.complain cause token) c []
  | complainHere {cause : Cause} (c : Cursor) :
    cause.isStructural = false → Loses (Step.complainHere cause) c []
  | giveUpHere {α : Type} {cause : Cause} (c : Cursor) :
    cause.isStructural = true → Loses (Step.giveUpHere cause : Cursor → Outcome α) c []
  -- only here something can be lost: where a declaration is expected and none is returned
  | kept {α : Type} {read : Cursor → Outcome α} {a : α} {c c' : Cursor} {lost : List Loss} :
    Loses read c lost → Step.recovering read c = .ok (some a) c' →
    Loses (Step.recovering read) c lost
  | dropped {α : Type} {read : Cursor → Outcome α} {c c' : Cursor} {lost : List Loss}
    {earlier : Array Complaint} {complaint : Complaint} :
    Loses read c lost → Step.recovering read c = .ok none c' →
    c'.complaints = earlier.push complaint →
    Loses (Step.recovering read) c (lost ++ [⟨c.current, complaint⟩])
  | unfinished {α : Type} {read : Cursor → Outcome α} {halt : Halt} {c c' : Cursor}
    {lost : List Loss} :
    Loses read c lost → Step.recovering read c = .error halt c' →
    Loses (Step.recovering read) c lost
  | insideBody {α : Type} {read : Cursor → Outcome α} {c : Cursor} {lost : List Loss} :
    Loses read { c with depth := c.depth + 1 } lost → Loses (Step.insideBody read) c lost

/-! ### Recovering -/

section Recovering

variable {read : Cursor → Outcome α} {c c' : Cursor}

/-- Something is returned exactly if the declaration was read. -/
theorem Step.recovering_eq_some {a : α} :
    Step.recovering read c = .ok (some a) c' ↔ read c = .ok a c' := by
  unfold Step.recovering
  constructor
  · intro h
    split at h <;> cases h
    assumption
  · intro h
    rw [h]

/-- Nothing is returned exactly if it was given up, and then the reading resumes from there. -/
theorem Step.recovering_eq_none :
    Step.recovering read c = .ok none c' ↔
      ∃ c₁, read c = .error .givenUp c₁ ∧ c' = { c₁ with rest := Step.resume c₁.rest } := by
  unfold Step.recovering
  constructor
  · intro h
    split at h <;> cases h
    exact ⟨_, by assumption, rfl⟩
  · rintro ⟨c₁, h, rfl⟩
    rw [h]

/-- From a lack of fuel there is no recovery. -/
theorem Step.recovering_eq_error {halt : Halt} :
    Step.recovering read c = .error halt c' ↔
      halt = .outOfFuel ∧ read c = .error .outOfFuel c' := by
  unfold Step.recovering
  constructor
  · intro h
    split at h <;> cases h
    exact ⟨rfl, by assumption⟩
  · rintro ⟨rfl, h⟩
    rw [h]

end Recovering

/-- Of every run it can be said what is lost in it. -/
theorem Built.exists_loses {x : Cursor → Outcome α} (hx : Built x) (c : Cursor) :
    ∃ lost, Loses x c lost := by
  induction hx generalizing c with
  | pure a => exact ⟨[], .pure a c⟩
  | @bind α β x f _ _ ihx ihf =>
    obtain ⟨lost, hlost⟩ := ihx c
    cases hrun : x c with
    | ok a c' =>
      obtain ⟨lost', hlost'⟩ := ihf a c'
      exact ⟨lost ++ lost', .goesOn hlost hrun hlost'⟩
    | error halt c' => exact ⟨lost, .endsEarly hlost hrun⟩
  | outOfFuel => exact ⟨[], .outOfFuel c⟩
  | nextIs test => exact ⟨[], .nextIs test c⟩
  | take use => exact ⟨[], .take use c⟩
  | takeLiteral => exact ⟨[], .takeLiteral c⟩
  | inFunction => exact ⟨[], .inFunction c⟩
  | complain token hcause => exact ⟨[], .complain token c hcause⟩
  | complainHere hcause => exact ⟨[], .complainHere c hcause⟩
  | giveUpHere hcause => exact ⟨[], .giveUpHere c hcause⟩
  | @recovering α read hread ih =>
    obtain ⟨lost, hlost⟩ := ih c
    cases hrun : read c with
    | ok a c' => exact ⟨lost, .kept hlost (Step.recovering_eq_some.mpr hrun)⟩
    | error halt c' =>
      cases halt with
      | outOfFuel =>
        exact ⟨lost, .unfinished hlost (Step.recovering_eq_error.mpr ⟨rfl, hrun⟩)⟩
      | givenUp =>
        -- a reader that gives up has complained last, and that is what the declaration is lost
        -- for
        obtain ⟨new, cause, token, hcomplaints, -⟩ := hread.givenUp c c' hrun
        have hnone := Step.recovering_eq_none.mpr ⟨c', hrun, rfl⟩
        exact ⟨_, .dropped hlost hnone hcomplaints⟩
  | insideBody _ ih =>
    obtain ⟨lost, hlost⟩ := ih { c with depth := c.depth + 1 }
    exact ⟨lost, .insideBody hlost⟩

/-! ## Complaints about losses -/

/-- The complaints that are about the structure of a program. -/
def structural (complaints : Array Complaint) : List Complaint :=
  complaints.toList.filter (·.cause.isStructural)

/-- Structural complaints are made one after the other. -/
theorem structural_append (complaints complaints' : Array Complaint) :
    structural (complaints ++ complaints') = structural complaints ++ structural complaints' := by
  rw [structural, Array.toList_append, List.filter_append]
  rfl

/-- One that is made is the last. -/
theorem structural_push {k : Complaint} (hk : k.cause.isStructural = true)
    (complaints : Array Complaint) : structural (complaints.push k) = structural complaints ++ [k] := by
  rw [Array.push_eq_append, structural_append]
  congr 1
  exact List.filter_cons_of_pos hk

/-- The structural complaints that were made are those about the losses, and one more where
the reader has given up, which is its last. -/
def Outcome.Accounts (c : Cursor) (lost : List Loss) : Outcome α → Prop
  | .ok _ c' => ∃ new, c'.complaints = c.complaints ++ new ∧ structural new = lost.map Loss.complaint
  | .error .givenUp c' => ∃ new k, c'.complaints = (c.complaints ++ new).push k ∧
      k.cause.isStructural = true ∧ structural new = lost.map Loss.complaint
  | .error .outOfFuel _ => True

namespace Outcome.Accounts

variable {c c' : Cursor} {lost lost' : List Loss} {a : α} {o : Outcome β}

/-- Where no complaint is made nothing is lost. -/
theorem silent (h : c'.complaints = c.complaints) : Outcome.Accounts c [] (.ok a c') :=
  ⟨#[], by rw [h, Array.append_empty], rfl⟩

/-- A complaint in passing is about no loss. -/
theorem passing {cause : Cause} (h : cause.isStructural = false) (token : Token) :
    Outcome.Accounts c [] (.ok a (c.complain cause token)) := by
  refine ⟨#[⟨cause, token⟩], Array.push_eq_append, ?_⟩
  exact List.filter_cons_of_neg (by rw [h]; exact Bool.false_ne_true)

/-- With this complaint the reader gives up. -/
theorem givenUp {cause : Cause} (h : cause.isStructural = true) (token : Token)
    (hc : c'.complaints = c.complaints.push ⟨cause, token⟩) :
    Outcome.Accounts c [] (.error .givenUp c' : Outcome α) :=
  ⟨#[], ⟨cause, token⟩, by rw [hc, Array.append_empty], h, rfl⟩

/-- What was complained about on the way to a cursor stands before what is complained about
from there on. -/
theorem trans (h : Outcome.Accounts c lost (.ok a c')) (ho : Outcome.Accounts c' lost' o) :
    Outcome.Accounts c (lost ++ lost') o := by
  obtain ⟨new, hnew, hlost⟩ := h
  cases o with
  | ok b c'' =>
    obtain ⟨new', hnew', hlost'⟩ := ho
    refine ⟨new ++ new', ?_, ?_⟩
    · rw [hnew', hnew, Array.append_assoc]
    · rw [structural_append, hlost, hlost', List.map_append]
  | error halt c'' =>
    cases halt with
    | outOfFuel => exact trivial
    | givenUp =>
      obtain ⟨new', k, hnew', hk, hlost'⟩ := ho
      refine ⟨new ++ new', k, ?_, hk, ?_⟩
      · rw [hnew', hnew, Array.append_assoc]
      · rw [structural_append, hlost, hlost', List.map_append]

/-- A reader that has given up has one loss more to account for when the reading goes on. -/
theorem dropped {earlier : Array Complaint} {complaint : Complaint} {found : Option α}
    {rest : List Token} (h : Outcome.Accounts c lost (.error .givenUp c' : Outcome α))
    (hlast : c'.complaints = earlier.push complaint) (first : Token) :
    Outcome.Accounts c (lost ++ [⟨first, complaint⟩]) (.ok found { c' with rest }) := by
  obtain ⟨new, k, hnew, hk, hlost⟩ := h
  obtain rfl : k = complaint := Array.back_eq_of_push_eq (hnew.symm.trans hlast)
  refine ⟨new.push k, ?_, ?_⟩
  · rw [Array.append_push]
    exact hnew
  · rw [structural_push hk, hlost, List.map_append]
    rfl

end Outcome.Accounts

/-- **Losses and complaints.** What is lost in a run is what was complained about in it, as
far as the structure is concerned; if the reader has given up, one complaint is behind those,
and it is the last of all. -/
theorem Loses.accounts {x : Cursor → Outcome α} {c : Cursor} {lost : List Loss}
    (h : Loses x c lost) : Outcome.Accounts c lost (x c) := by
  induction h with
  | pure a c => exact .silent rfl
  | @goesOn α β x f a c c' lost lost' _ hrun _ ih ih' =>
    unfold Step.bind
    rw [hrun] at ih ⊢
    exact ih.trans ih'
  | @endsEarly α β x f halt c c' lost _ hrun ih =>
    unfold Step.bind
    rw [hrun] at ih ⊢
    cases halt with
    | outOfFuel => exact trivial
    | givenUp => exact ih
  | outOfFuel c => exact trivial
  | nextIs test c =>
    unfold Step.nextIs
    split <;> exact .silent rfl
  -- what the first reader lost is all that is lost, as the second one does not run
  | take use c =>
    unfold Step.take
    split
    · exact .silent rfl
    · split <;> exact .silent rfl
  | takeLiteral c =>
    unfold Step.takeLiteral
    split
    · exact .silent rfl
    · split
      · split
        · exact .silent rfl
        · exact .givenUp rfl _ rfl
      · exact .silent rfl
  | inFunction c => exact .silent rfl
  | complain token c hcause => exact .passing hcause token
  | complainHere c hcause => exact .passing hcause c.current
  | giveUpHere c hcause => exact .givenUp hcause c.current rfl
  -- the declaration is kept, so the losses are those inside of it
  | @kept α read a c c' lost _ hrun ih =>
    rw [hrun]
    rw [Step.recovering_eq_some.mp hrun] at ih
    exact ih
  -- the complaint that the declaration is dropped for is the last one up to here
  | @dropped α read c c' lost earlier complaint _ hrun hlast ih =>
    rw [hrun]
    obtain ⟨c₁, hread, rfl⟩ := Step.recovering_eq_none.mp hrun
    rw [hread] at ih
    exact ih.dropped hlast c.current
  | @unfinished α read halt c c' lost _ hrun ih =>
    rw [hrun]
    obtain ⟨rfl, -⟩ := Step.recovering_eq_error.mp hrun
    exact trivial
  | @insideBody α read c lost _ ih =>
    unfold Step.insideBody
    cases hrun : read { c with depth := c.depth + 1 } with
    | ok a c' =>
      rw [hrun] at ih
      exact ih
    | error halt c' =>
      rw [hrun] at ih
      cases halt with
      | outOfFuel => exact trivial
      | givenUp => exact ih

/-! ## Readers that read no declaration -/

/-- Nothing is lost when the reader runs. -/
def Lossless (x : TokenReader α) : Prop :=
  ∀ c, Loses x.run c []

namespace Lossless

variable {x : TokenReader α} {f : α → TokenReader β}

protected theorem pure (a : α) : Lossless (pure a : TokenReader α) :=
  fun c => .pure a c

/-- Without fuel nothing is read, and nothing lost. -/
protected theorem outOfFuel : Lossless (outOfFuel : TokenReader α) :=
  fun c => .outOfFuel c

/-- Nothing is lost in readers after one another if nothing is in either. -/
protected theorem bind (hx : Lossless x) (hf : ∀ a, Lossless (f a)) : Lossless (x >>= f) := by
  intro c
  cases hrun : x.run c with
  | ok a c' =>
    have hgoes : Loses (x >>= f).run c ([] ++ []) := .goesOn (hx c) hrun (hf a c')
    exact hgoes
  | error halt c' => exact .endsEarly (hx c) hrun

/-- Looking at a token loses nothing. -/
protected theorem nextIs (test : TokenKind → Bool) : Lossless (nextIs test) :=
  fun c => .nextIs test c

protected theorem take (use : TokenKind → Option α) : Lossless (take use) :=
  fun c => .take use c

protected theorem takeLiteral : Lossless takeLiteral :=
  fun c => .takeLiteral c

theorem takeIf (test : TokenKind → Bool) : Lossless (takeIf test) :=
  (Lossless.take _).bind fun _ => .pure _

theorem skip (kind : TokenKind) : Lossless (skip? kind) :=
  (takeIf _).bind fun _ => .pure _

/-- A complaint that goes on loses nothing. -/
protected theorem complain {cause : Cause} (token : Token) (h : cause.isStructural = false) :
    Lossless (complain cause token h) :=
  fun c => .complain token c h

protected theorem complainHere {cause : Cause} (h : cause.isStructural = false) :
    Lossless (complainHere cause h) :=
  fun c => .complainHere c h

/-- A reader that gives up loses nothing itself. The declaration is lost where it is recovered
from. -/
protected theorem giveUpHere {cause : Cause} (h : cause.isStructural = true) :
    Lossless (giveUpHere cause h : TokenReader α) :=
  fun c => .giveUpHere c h

/-- Nothing else is done by one that misses a token. -/
theorem expect (slot : Slot) : Lossless (expect slot) := by
  refine (takeIf _).bind fun found => ?_
  cases found with
  | some token => exact .pure token
  | none => exact .giveUpHere rfl

end Lossless

/-! ### Expressions -/

/-- With this bound, nothing is lost in the readers of expressions. -/
structure ExpressionsLossless (fuel : Nat) : Prop where
  expression : Lossless (expression fuel)
  binary : ∀ level, Lossless (binary fuel level)
  binaryRest : ∀ level left, Lossless (binaryRest fuel level left)
  operand : ∀ level, Lossless (operand fuel level)
  unary : Lossless (unary fuel)
  postfixes : ∀ left, Lossless (postfixes fuel left)
  argumentList : Lossless (argumentList fuel)
  arguments : ∀ count, Lossless (arguments fuel count)
  primary : Lossless (primary fuel)

namespace ExpressionsLossless

variable {fuel : Nat} (ih : ExpressionsLossless fuel)
include ih

/-- An assignment is complained about after it was read, so nothing is lost by it. -/
theorem expression_succ : Lossless (Grammar.expression (fuel + 1)) := by
  refine (ih.binary .or).bind fun left => (Lossless.takeIf _).bind fun found => ?_
  cases found with
  | none => exact .pure left
  | some equals =>
    refine ih.expression.bind fun value => ?_
    cases assignment? left value with
    | some result => exact .pure result
    | none => exact (Lossless.complain equals rfl).bind fun _ => .pure left

theorem binary_succ (level : Level) : Lossless (Grammar.binary (fuel + 1) level) :=
  (ih.operand level).bind (ih.binaryRest level)

theorem binaryRest_succ (level : Level) (left : Expr) :
    Lossless (Grammar.binaryRest (fuel + 1) level left) := by
  refine (Lossless.takeIf _).bind fun found => ?_
  cases found with
  | none => exact .pure left
  | some op => exact (ih.operand level).bind fun right => ih.binaryRest level _

theorem operand_succ (level : Level) : Lossless (Grammar.operand (fuel + 1) level) := by
  unfold Grammar.operand
  cases level.tighter? with
  | some level => exact ih.binary level
  | none => exact ih.unary

theorem unary_succ : Lossless (Grammar.unary (fuel + 1)) := by
  refine (Lossless.takeIf _).bind fun found => ?_
  cases found with
  | none => exact ih.primary.bind ih.postfixes
  | some op => exact ih.unary.bind fun operand => .pure _

/-- Calls go on one after the other, and lose nothing. -/
theorem postfixes_succ (left : Expr) : Lossless (Grammar.postfixes (fuel + 1) left) := by
  refine (Lossless.skip _).bind fun isCall => ?_
  cases isCall with
  | true =>
    exact ih.argumentList.bind fun args => (Lossless.expect _).bind fun paren => ih.postfixes _
  | false =>
    refine (Lossless.skip _).bind fun isGet => ?_
    cases isGet with
    | true => exact (Lossless.expect _).bind fun name => ih.postfixes _
    | false => exact .pure left

theorem argumentList_succ : Lossless (Grammar.argumentList (fuel + 1)) := by
  refine (Lossless.nextIs _).bind fun closed => ?_
  cases closed with
  | true => exact .pure []
  | false => exact ih.arguments 0

/-- Arguments beyond the limit are complained about and kept. -/
theorem arguments_succ (count : Nat) : Lossless (Grammar.arguments (fuel + 1) count) := by
  have hrest : Lossless (do
      let arg ← Grammar.expression fuel
      if ← skip? .comma then return arg :: (← Grammar.arguments fuel (count + 1))
      else return [arg]) := by
    refine ih.expression.bind fun arg => (Lossless.skip _).bind fun another => ?_
    cases another with
    | true => exact (ih.arguments (count + 1)).bind fun rest => .pure _
    | false => exact .pure _
  unfold Grammar.arguments
  split
  · exact (Lossless.complainHere rfl).bind fun _ => hrest
  · exact hrest

theorem primary_succ : Lossless (Grammar.primary (fuel + 1)) := by
  refine Lossless.takeLiteral.bind fun literal => ?_
  cases literal with
  | some literal => exact .pure _
  | none =>
    refine (Lossless.take _).bind fun found => ?_
    cases found with
    | none => exact .giveUpHere rfl
    | some found =>
      obtain ⟨token, opening⟩ := found
      cases opening with
      | constant value => exact .pure _
      | super =>
        exact (Lossless.expect _).bind fun _ => (Lossless.expect _).bind fun method => .pure _
      | this => exact .pure _
      | name => exact .pure _
      | group => exact ih.expression.bind fun inner => (Lossless.expect _).bind fun _ => .pure _

end ExpressionsLossless

/-- In expressions nothing is lost, by induction on the fuel: there are no declarations in them.
-/
theorem expressionsLossless (fuel : Nat) : ExpressionsLossless fuel := by
  induction fuel with
  | zero => constructor <;> intros <;> exact .outOfFuel
  | succ fuel ih =>
    exact
      { expression := ih.expression_succ
        binary := ih.binary_succ
        binaryRest := ih.binaryRest_succ
        operand := ih.operand_succ
        unary := ih.unary_succ
        postfixes := ih.postfixes_succ
        argumentList := ih.argumentList_succ
        arguments := ih.arguments_succ
        primary := ih.primary_succ }

/-- The readers that an expression is read with: of whole expressions, of one level and of
its operands, with signs, of calls, and of what stands in them. -/
inductive ReadsExpressions : {α : Type} → (Nat → TokenReader α) → Prop
  | expression : ReadsExpressions expression
  | binary (level : Level) : ReadsExpressions (binary · level)
  | binaryRest (level : Level) (left : Expr) : ReadsExpressions (binaryRest · level left)
  | operand (level : Level) : ReadsExpressions (operand · level)
  | unary : ReadsExpressions unary
  | call : ReadsExpressions fun fuel => do postfixes fuel (← primary fuel)
  | postfixes (left : Expr) : ReadsExpressions (postfixes · left)
  | argumentList : ReadsExpressions argumentList
  | arguments (count : Nat) : ReadsExpressions (arguments · count)
  | callEnd (callee : Expr) : ReadsExpressions fun fuel => do
    let args ← argumentList fuel
    let paren ← expect .argumentsClose
    return Expr.call callee paren args
  | primary : ReadsExpressions primary

namespace ReadsExpressions

variable {reader : Nat → TokenReader α}

/-- So every reader that expressions are read with loses nothing. -/
theorem lossless (h : ReadsExpressions reader) (fuel : Nat) : Lossless (reader fuel) := by
  have hall := expressionsLossless fuel
  cases h with
  | expression => exact hall.expression
  | binary level => exact hall.binary level
  | binaryRest level left => exact hall.binaryRest level left
  | operand level => exact hall.operand level
  | unary => exact hall.unary
  | call => exact hall.primary.bind hall.postfixes
  | postfixes left => exact hall.postfixes left
  | argumentList => exact hall.argumentList
  | arguments count => exact hall.arguments count
  | callEnd callee =>
    exact hall.argumentList.bind fun args => (Lossless.expect _).bind fun paren => .pure _
  | primary => exact hall.primary

/-- Such a reader comes to an end. -/
theorem not_outOfFuel (h : ReadsExpressions reader) {fuel : Nat} {c : Cursor}
    (hfuel : fuelFor c.rest.length ≤ fuel) (c' : Cursor) :
    (reader fuel).run c ≠ .error .outOfFuel c' := by
  unfold fuelFor at hfuel
  have hall := expressionsSettled fuel
  have hends : ∃ other, Settled c.rest.length (reader fuel) other := by
    cases h with
    | expression => exact ⟨_, hall.expression _ (by omega)⟩
    | binary level =>
      have hheight := level.height_le
      exact ⟨_, hall.binary _ level (by omega)⟩
    | binaryRest level left => exact ⟨_, hall.binaryRest _ level left (by omega)⟩
    | operand level =>
      have hheight := level.height_le
      exact ⟨_, hall.operand _ level (by omega)⟩
    | unary => exact ⟨_, hall.unary _ (by omega)⟩
    | call =>
      exact ⟨_, (hall.primary _ (by omega)).bind fun callee => hall.postfixes _ callee (by omega)⟩
    | postfixes left => exact ⟨_, hall.postfixes _ left (by omega)⟩
    | argumentList => exact ⟨_, hall.argumentList _ (by omega)⟩
    | arguments count => exact ⟨_, hall.arguments _ count (by omega)⟩
    | callEnd callee =>
      exact ⟨_, (hall.argumentList _ (by omega)).bind fun args =>
        (expect_settled _).bind fun paren => .pure _⟩
    | primary => exact ⟨_, hall.primary _ (by omega)⟩
  obtain ⟨other, hsettled⟩ := hends
  exact (hsettled c (Nat.le_refl _)).2 c'

end ReadsExpressions

/-! ## Diagnostics -/

/-- The reader that was run from the cursor has returned something and made no structural
complaint, or it has given up and made exactly one, its last. -/
def Outcome.SaysOnce (c : Cursor) : Outcome α → Prop
  | .ok _ c' => ∃ new, c'.complaints = c.complaints ++ new ∧
      ∀ k ∈ new, ¬ k.diagnostic.IsStructural
  | .error halt c' => halt = .givenUp ∧ ∃ new k,
      c'.complaints = (c.complaints ++ new).push k ∧ k.diagnostic.IsStructural ∧
      ∀ k ∈ new, ¬ k.diagnostic.IsStructural

/-- Without structural complaints no diagnostic is structural. -/
theorem not_structural_of_nil {complaints : Array Complaint} (h : structural complaints = [])
    {k : Complaint} (hk : k ∈ complaints) : ¬ k.diagnostic.IsStructural := by
  rw [Complaint.isStructural_diagnostic]
  exact List.filter_eq_nil_iff.mp h k (Array.mem_toList_iff.mpr hk)

/-- A reader that loses nothing makes its one structural complaint when it gives up. -/
theorem Lossless.saysOnce {x : TokenReader α} (hx : Lossless x) {c : Cursor}
    (hends : ∀ c', x.run c ≠ .error .outOfFuel c') : Outcome.SaysOnce c (x.run c) := by
  have haccounts := (hx c).accounts
  cases hrun : x.run c with
  | ok a c' =>
    rw [hrun] at haccounts
    obtain ⟨new, hnew, hnone⟩ := haccounts
    exact ⟨new, hnew, fun k hk => not_structural_of_nil hnone hk⟩
  | error halt c' =>
    cases halt with
    | outOfFuel => exact absurd hrun (hends c')
    | givenUp =>
      rw [hrun] at haccounts
      obtain ⟨new, k, hnew, hk, hnone⟩ := haccounts
      refine ⟨rfl, new, k, hnew, Complaint.isStructural_diagnostic.mpr hk, ?_⟩
      exact fun k hk => not_structural_of_nil hnone hk

/-- What is lost when a list of tokens is read. -/
def LosesIn (tokens : List Token) (lost : List Loss) : Prop :=
  Loses (program (fuelFor (Cursor.start tokens).rest.length)).run (Cursor.start tokens) lost

/-- The structural complaints about a list of tokens are those about the losses, one each and in
order. -/
theorem LosesIn.complaints {tokens : List Token} {lost : List Loss} (h : LosesIn tokens lost) :
    (read tokens).complaints.filter (·.cause.isStructural) = lost.map Loss.complaint := by
  obtain ⟨stmts, c', -, hrun⟩ := exists_program_run (Cursor.start tokens)
  have haccounts := Loses.accounts h
  rw [hrun _ (Nat.le_refl _)] at haccounts
  obtain ⟨new, hnew, hlost⟩ := haccounts
  rw [read_eq_of_run hrun, ← hlost, hnew]
  exact congrArg structural Array.empty_append

end Grammar

open Grammar in
/-- **Nothing is left out in silence.** From whatever cursor it starts, a reader of
expressions returns something and makes no structural complaint, or it gives up and makes
exactly one, its last. When a list of tokens is read, the structural diagnostics are those
with which declarations were given up, at any depth, one for each and in this order. So
there are as many as declarations were dropped, and where nothing is diagnosed none was. -/
theorem Program.losses_are_reported (tokens : List Token) :
    (∀ {α : Type} (reader : Nat → TokenReader α), ReadsExpressions reader →
      ∀ c fuel, fuelFor c.rest.length ≤ fuel → Outcome.SaysOnce c ((reader fuel).run c)) ∧
    (∃ lost, LosesIn tokens lost) ∧
    ∀ lost, LosesIn tokens lost →
      let diagnostics := (Program.ofTokens tokens).diagnostics
      diagnostics.filter (·.IsStructural) = lost.map (·.complaint.diagnostic) ∧
        diagnostics.countP (·.IsStructural) = lost.length ∧
        (diagnostics = [] → lost = []) := by
  refine ⟨fun reader hreader c fuel hfuel => ?_, ?_, fun lost hlost => ?_⟩
  · exact (hreader.lossless fuel).saysOnce (hreader.not_outOfFuel hfuel)
  · exact (program _).built.exists_loses _
  · have hdiagnostics : (Program.ofTokens tokens).diagnostics.filter (·.IsStructural)
        = lost.map (·.complaint.diagnostic) := by
      show ((Grammar.read tokens).complaints.map Complaint.diagnostic).filter _ = _
      rw [filter_diagnostics, hlost.complaints, List.map_map]
      rfl
    refine ⟨hdiagnostics, ?_, fun hnone => ?_⟩
    · rw [List.countP_eq_length_filter, hdiagnostics, List.length_map]
    · rw [hnone, List.filter_nil] at hdiagnostics
      exact List.map_eq_nil_iff.mp hdiagnostics.symm

/-- A declaration is dropped in a block that is dropped, too, because it does not end:
`{ print; nil;`. -/
theorem Program.losses_are_reported_nested :
    let tokens : List Token :=
      [.madeUp .leftBrace "\x7b" 1, .madeUp .kwPrint "print" 1, .madeUp .semicolon ";" 1,
        .madeUp .kwNil "nil" 1, .madeUp .semicolon ";" 1]
    let start := Grammar.Cursor.start tokens
    let fuel := Grammar.fuelFor start.rest.length
    Grammar.ReadsExpressions Grammar.expression ∧ Grammar.fuelFor start.rest.length ≤ fuel ∧
      Grammar.Outcome.SaysOnce start ((Grammar.expression fuel).run start) ∧
      ∃ lost, Grammar.LosesIn tokens lost ∧ lost.length = 2 ∧
        lost.map (·.complaint.diagnostic.message)
          = ["Expect expression.", "Expect '\x7d' after block."] := by
  intro tokens start fuel
  obtain ⟨hexpressions, ⟨lost, hlost⟩, hreported⟩ := Program.losses_are_reported tokens
  obtain ⟨hdiagnostics, hcount, -⟩ := hreported lost hlost
  refine ⟨.expression, Nat.le_refl _, ?_, lost, hlost, ?_, ?_⟩
  · exact hexpressions _ .expression start fuel (Nat.le_refl _)
  · rw [← hcount]
    decide +kernel
  · have hmessages := congrArg (List.map Diagnostic.message) hdiagnostics
    rw [List.map_map] at hmessages
    refine Eq.trans hmessages.symm ?_
    decide +kernel

end Lox
