/-
`Lox.Proofs.Grammar.Reader` -- what every reader does.

A reader is put together from steps, so a fact about readers is proved once, by
induction on how they are put together, with one case for each step. Three facts
carry the theory of the grammar:

* `Built.advances`: a reader passes over tokens in order, adds to the complaints,
  and leaves the rest of the cursor alone;
* `Built.run_placed`: it does not notice what was complained about before, and it
  looks at no token behind the next one, so if some are left at the end, tokens
  behind them change nothing;
* `Built.givenUp`: it gives up with a structural complaint about the place where
  it stands, or about a literal that it has just passed.

Of some readers more is known: when they return something, they have taken a
token (`Consumes`).
-/
import Lox.Grammar.Program

set_option autoImplicit false

namespace Lox.Grammar

variable {α β : Type}

/-! ## Outcomes -/

/-- Where the reading ended. -/
def Outcome.cursor : Outcome α → Cursor
  | .ok _ c => c
  | .error _ c => c

@[simp] theorem Outcome.moved_ok (move : Cursor → Cursor) (a : α) (c : Cursor) :
    Outcome.moved move (.ok a c) = .ok a (move c) := rfl

@[simp] theorem Outcome.cursor_moved (move : Cursor → Cursor) (o : Outcome α) :
    Outcome.cursor (Outcome.moved move o) = move (Outcome.cursor o) := by
  cases o <;> rfl

/-! ## Passing over tokens -/

/-- The second cursor can be reached from the first by reading. -/
structure Cursor.Advances (c c' : Cursor) : Prop where
  finish : c'.finish = c.finish
  depth : c'.depth = c.depth
  rest : c'.rest <:+ c.rest
  complaints : ∃ new, c'.complaints = c.complaints ++ new

namespace Cursor.Advances

protected theorem refl (c : Cursor) : c.Advances c :=
  ⟨rfl, rfl, List.suffix_rfl, #[], by rw [Array.append_empty]⟩

/-- Reading on is reading. -/
protected theorem trans {c c' c'' : Cursor} (h : c.Advances c') (h' : c'.Advances c'') :
    c.Advances c'' := by
  obtain ⟨new, hnew⟩ := h.complaints
  obtain ⟨new', hnew'⟩ := h'.complaints
  refine ⟨h'.finish.trans h.finish, h'.depth.trans h.depth, h'.rest.trans h.rest, new ++ new', ?_⟩
  rw [hnew', hnew, Array.append_assoc]

/-- Taking tokens from the front is reading. -/
theorem of_suffix (c : Cursor) {rest : List Token} (h : rest <:+ c.rest) :
    c.Advances { c with rest } :=
  ⟨rfl, rfl, h, #[], by rw [Array.append_empty]⟩

theorem complain (c : Cursor) (cause : Cause) (token : Token) :
    c.Advances (c.complain cause token) :=
  ⟨rfl, rfl, List.suffix_rfl, #[⟨cause, token⟩], by rw [Cursor.complain, Array.push_eq_append]⟩

/-- One body deeper on the way and back out of it at the end. -/
theorem of_deeper {c c' : Cursor} (h : Cursor.Advances { c with depth := c.depth + 1 } c') :
    c.Advances { c' with depth := c'.depth - 1 } := by
  refine ⟨h.finish, ?_, h.rest, h.complaints⟩
  have hdepth : c'.depth = c.depth + 1 := h.depth
  rw [hdepth, Nat.add_sub_cancel]

end Cursor.Advances

namespace Step

/-- The boundary is among the tokens, or behind them. -/
theorem fromBoundary_suffix (last : Token) (ts : List Token) : fromBoundary last ts <:+ ts := by
  induction ts generalizing last with
  | nil => exact List.suffix_rfl
  | cons token rest ih =>
    unfold fromBoundary
    split
    · exact List.suffix_rfl
    · exact (ih token).trans (List.suffix_cons token rest)

/-- Resuming only passes tokens over. -/
theorem resume_suffix (ts : List Token) : resume ts <:+ ts := by
  cases ts with
  | nil => exact List.suffix_rfl
  | cons token rest => exact (fromBoundary_suffix token rest).trans (List.suffix_cons token rest)

/-- Recovering makes progress: of tokens that are left it passes over one. -/
theorem length_resume_lt {ts : List Token} (h : ts ≠ []) : (resume ts).length < ts.length := by
  cases ts with
  | nil => exact absurd rfl h
  | cons token rest =>
    have hle := (fromBoundary_suffix token rest).length_le
    rw [List.length_cons, resume]
    omega

end Step

namespace Built

open Step

/-- A reader passes over tokens in order and adds to the complaints. The depth,
which `insideBody` changes on the way, is what it was at the beginning. -/
theorem advances {x : Cursor → Outcome α} (hx : Built x) (c : Cursor) :
    c.Advances (Outcome.cursor (x c)) := by
  induction hx generalizing c with
  | pure a => exact .refl c
  | bind hx hf ihx ihf =>
    rename_i x f
    have hxc := ihx c
    unfold Step.bind
    cases hrun : x c with
    | ok a c' =>
      rw [hrun] at hxc
      exact hxc.trans (ihf a c')
    | error halt c' =>
      rw [hrun] at hxc
      exact hxc
  | outOfFuel => exact .refl c
  | nextIs test =>
    unfold Step.nextIs
    split <;> exact .refl c
  | take use =>
    unfold Step.take
    split
    · exact .refl c
    · rename_i token rest hrest
      split
      · exact .of_suffix c (hrest ▸ List.suffix_cons token rest)
      · exact .refl c
  | takeLiteral =>
    unfold Step.takeLiteral
    split
    · exact .refl c
    · rename_i token rest hrest
      have hpass : c.Advances { c with rest } := .of_suffix c (hrest ▸ List.suffix_cons token rest)
      split
      · split
        · exact hpass
        -- a literal without a value is passed over, and complained about
        · exact hpass.trans (.complain _ _ _)
      · exact .refl c
  | inFunction => exact .refl c
  | complain token h => exact .complain c _ _
  | complainHere h => exact .complain c _ _
  | giveUpHere h => exact .complain c _ _
  | recovering hread ih =>
    rename_i read
    have hc := ih c
    unfold Step.recovering
    split
    · rename_i a c' hrun
      rw [hrun] at hc
      exact hc
    · rename_i c' hrun
      -- where the reading resumes is further on than where the reader gave up
      rw [hrun] at hc
      exact hc.trans (.of_suffix c' (resume_suffix c'.rest))
    · rename_i c' hrun
      rw [hrun] at hc
      exact hc
  | insideBody hread ih =>
    unfold Step.insideBody
    rw [Outcome.cursor_moved]
    -- the body is read at another depth, which is set back behind it
    exact (ih { c with depth := c.depth + 1 }).of_deeper

end Built

/-! ## What a reader does not notice -/

/-- The cursor with complaints from before, and with other tokens and another
end marker behind its own. -/
def Cursor.placed (earlier : Array Complaint) (more : List Token) (finish : Token) (c : Cursor) :
    Cursor :=
  { c with rest := c.rest ++ more, finish, complaints := earlier ++ c.complaints }

section Placed

variable (earlier : Array Complaint) (more : List Token) (finish : Token)

/-- The change cannot be noticed at the place where the cursor stands: a token
hides what is behind it, or nothing else is there. -/
def Cursor.Hides (c : Cursor) : Prop :=
  c.rest ≠ [] ∨ more = [] ∧ finish = c.finish

variable {earlier more finish}

/-- What is hidden further on was hidden before. -/
theorem Cursor.Hides.of_advances {c c' : Cursor} (h : c.Advances c')
    (h' : c'.Hides more finish) : c.Hides more finish := by
  rcases h' with hrest | ⟨hmore, hfinish⟩
  · exact .inl fun hnil => hrest (List.suffix_nil.mp (hnil ▸ h.rest))
  · exact .inr ⟨hmore, hfinish.trans h.finish⟩

/-- A complaint comes behind those from before. -/
theorem Cursor.complain_placed (c : Cursor) (cause : Cause) (token : Token) :
    (c.placed earlier more finish).complain cause token
      = (c.complain cause token).placed earlier more finish := by
  simp only [Cursor.placed, Cursor.complain, Array.push_append]

/-- Where the change is hidden the next token is the same. -/
theorem Cursor.current_placed {c : Cursor} (h : c.Hides more finish) :
    (c.placed earlier more finish).current = c.current := by
  obtain ⟨rest, end_, depth, complaints⟩ := c
  cases rest with
  | cons token rest => rfl
  | nil =>
    rcases h with hrest | ⟨rfl, rfl⟩
    · exact absurd rfl hrest
    · rfl

/-- Where nothing is left, nothing is behind it either. -/
theorem Cursor.placed_of_nil {c : Cursor} (h : c.Hides more finish) (hnil : c.rest = []) :
    (c.placed earlier more finish).rest = [] := by
  rcases h with hrest | ⟨rfl, -⟩
  · exact absurd hnil hrest
  · rw [Cursor.placed, hnil, List.append_nil]

/-- A token that comes next comes next with others behind. -/
theorem Cursor.placed_of_cons {c : Cursor} {token : Token} {rest : List Token}
    (hcons : c.rest = token :: rest) :
    (c.placed earlier more finish).rest = token :: (rest ++ more) := by
  rw [Cursor.placed, hcons, List.cons_append]

namespace Step

/-- A boundary that was found is found with more tokens behind. -/
theorem fromBoundary_append {last : Token} {ts : List Token} (h : fromBoundary last ts ≠ []) :
    fromBoundary last (ts ++ more) = fromBoundary last ts ++ more := by
  induction ts generalizing last with
  | nil => exact absurd rfl h
  | cons token rest ih =>
    rw [fromBoundary] at h
    rw [List.cons_append, fromBoundary, fromBoundary]
    by_cases hstop : last.kind.endsStatement || token.kind.startsStatement
    · rw [if_pos hstop, if_pos hstop, List.cons_append]
    · rw [if_neg hstop] at h ⊢
      rw [if_neg hstop]
      exact ih h

/-- So is the place where reading resumes. -/
theorem resume_append {ts : List Token} (h : resume ts ≠ []) :
    resume (ts ++ more) = resume ts ++ more := by
  cases ts with
  | nil => exact absurd rfl h
  | cons token rest => exact fromBoundary_append h

end Step

/-- **One token of look-ahead.** A reader does the same with other complaints
before it, and with other tokens behind those that it leaves. -/
theorem Built.run_placed {x : Cursor → Outcome α} (hx : Built x) (c : Cursor)
    (h : (Outcome.cursor (x c)).Hides more finish) :
    x (c.placed earlier more finish)
      = Outcome.moved (Cursor.placed earlier more finish) (x c) := by
  induction hx generalizing c with
  | pure a => rfl
  | @bind α β x f hx hf ihx ihf =>
    unfold Step.bind at h ⊢
    -- a reader that ends the others hides nothing more than they would
    cases hrun : x c with
    | ok a c' =>
      have hadv := (hf a).advances c'
      rw [hrun] at h
      -- what is hidden at the end was hidden where the first reader ended
      have hc' : (Outcome.cursor (x c)).Hides more finish := by
        rw [hrun]
        exact .of_advances hadv h
      rw [ihx c hc', hrun]
      exact ihf a c' h
    | error halt c' =>
      rw [hrun] at h
      have hc' : (Outcome.cursor (x c)).Hides more finish := by
        rw [hrun]
        exact h
      rw [ihx c hc', hrun]
      rfl
  | outOfFuel => rfl
  | nextIs test =>
    unfold Step.nextIs at h ⊢
    cases hrest : c.rest with
    -- at the end of the own tokens others may come next, if they are hidden they do not
    | nil =>
      rw [hrest] at h
      rw [Cursor.placed_of_nil (c := c) h hrest]
      rfl
    | cons token rest =>
      rw [Cursor.placed_of_cons hrest]
      rfl
  | take use =>
    unfold Step.take at h ⊢
    cases hrest : c.rest with
    | nil =>
      rw [hrest] at h
      rw [Cursor.placed_of_nil (c := c) h hrest]
      rfl
    | cons token rest =>
      rw [Cursor.placed_of_cons hrest]
      dsimp only
      split <;> rfl
  | takeLiteral =>
    unfold Step.takeLiteral at h ⊢
    cases hrest : c.rest with
    | nil =>
      rw [hrest] at h
      rw [Cursor.placed_of_nil (c := c) h hrest]
      rfl
    | cons token rest =>
      rw [Cursor.placed_of_cons hrest]
      dsimp only
      split
      · cases token.literal with
        | some literal => rfl
        | none => exact congrArg _ (Cursor.complain_placed { c with rest } _ _)
      · rfl
  | inFunction => rfl
  | complain token hcause => exact congrArg _ (c.complain_placed _ token)
  | complainHere hcause =>
    unfold Step.complainHere
    rw [Cursor.current_placed (c := c) h, Cursor.complain_placed]
    rfl
  -- complaints about the next token are the same, as it is the same token
  | giveUpHere hcause =>
    unfold Step.giveUpHere
    rw [Cursor.current_placed (c := c) h, Cursor.complain_placed]
    rfl
  | @recovering α read hread ih =>
    unfold Step.recovering at h ⊢
    cases hrun : read c with
    | ok a c' =>
      rw [ih c (by rw [hrun] at h ⊢; exact h), hrun]
      rfl
    | error halt c' =>
      cases halt with
      | outOfFuel =>
        rw [ih c (by rw [hrun] at h ⊢; exact h), hrun]
        rfl
      | givenUp =>
        rw [hrun] at h
        -- the recovery only passes over tokens, so what is hidden behind it was hidden before
        have hc' : (Outcome.cursor (read c)).Hides more finish := by
          rw [hrun]
          exact .of_advances (.of_suffix c' (Step.resume_suffix c'.rest)) h
        have hresume : Step.resume (c'.rest ++ more) = Step.resume c'.rest ++ more := by
          rcases h with hrest | ⟨rfl, -⟩
          · exact Step.resume_append hrest
          · rw [List.append_nil, List.append_nil]
        rw [ih c hc', hrun]
        dsimp only [Outcome.moved, Cursor.placed]
        rw [hresume]
  | @insideBody α read hread ih =>
    unfold Step.insideBody at h ⊢
    rw [Outcome.cursor_moved] at h
    -- the depth is no part of what was changed
    have hread := ih { c with depth := c.depth + 1 } h
    rw [show { c.placed earlier more finish with depth := (c.placed earlier more finish).depth + 1 }
      = Cursor.placed earlier more finish { c with depth := c.depth + 1 } from rfl, hread]
    cases read { c with depth := c.depth + 1 } <;> rfl

end Placed

/-! ## Giving up -/

/-- A reader gives up with a structural complaint, its last one. It is about the
place where the reader stands, or about a literal that it has just passed. -/
theorem Built.givenUp {x : Cursor → Outcome α} (hx : Built x) (c c' : Cursor)
    (h : x c = .error .givenUp c') :
    ∃ new cause token, c'.complaints = (c.complaints ++ new).push ⟨cause, token⟩ ∧
      cause.isStructural ∧
      (token = c'.current ∨ token.kind.isLiteral ∧ token :: c'.rest <:+ c.rest) := by
  induction hx generalizing c c' with
  | pure a => cases h
  | @bind α β x f hx hf ihx ihf =>
    unfold Step.bind at h
    cases hrun : x c with
    | ok a c₁ =>
      rw [hrun] at h
      have hadv := hx.advances c
      rw [hrun] at hadv
      obtain ⟨new₁, hnew₁⟩ := hadv.complaints
      -- the second reader has given up: the complaints of the first stand before
      obtain ⟨new, cause, token, hnew, hcause, htoken⟩ := ihf a c₁ c' h
      refine ⟨new₁ ++ new, cause, token, ?_, hcause, ?_⟩
      · rw [hnew, show c₁.complaints = c.complaints ++ new₁ from hnew₁, Array.append_assoc]
      · exact htoken.imp_right fun h => ⟨h.1, h.2.trans hadv.rest⟩
    -- the first reader has given up, and nothing came after
    | error halt c₁ =>
      rw [hrun] at h
      cases h
      exact ihx c c' hrun
  | outOfFuel => cases h
  | nextIs test =>
    unfold Step.nextIs at h
    split at h <;> cases h
  | take use =>
    -- taking a token never gives up
    unfold Step.take at h
    split at h
    · cases h
    · split at h <;> cases h
  | takeLiteral =>
    unfold Step.takeLiteral at h
    split at h
    · cases h
    · rename_i token rest hrest
      split at h
      -- a literal without a value is the one that is complained about behind its token
      · rename_i hliteral
        split at h
        · cases h
        · cases h
          refine ⟨#[], .noLiteral, token, ?_, rfl, .inr ⟨hliteral, ?_⟩⟩
          · rw [Array.append_empty]
            rfl
          · rw [hrest]
            exact List.suffix_rfl
      · cases h
  | inFunction => cases h
  | complain token hcause => cases h
  | complainHere hcause => cases h
  | @giveUpHere α cause hcause =>
    cases h
    exact ⟨#[], cause, c.current, by rw [Array.append_empty]; rfl, hcause, .inl rfl⟩
  -- what is recovered from has not given up any more
  | @recovering α read hread ih =>
    unfold Step.recovering at h
    split at h <;> cases h
  | @insideBody α read hread ih =>
    unfold Step.insideBody at h
    cases hrun : read { c with depth := c.depth + 1 } with
    | ok a c₁ =>
      rw [hrun] at h
      cases h
    | error halt c₁ =>
      rw [hrun] at h
      cases h
      exact ih { c with depth := c.depth + 1 } c₁ hrun

/-! ## Readers one after another -/

namespace TokenReader

variable {x : TokenReader α} {f : α → TokenReader β} {c c' c'' : Cursor} {a : α} {b : β}

/-- Whatever a reader returns, its cursor has only gone on. -/
theorem advances (h : x.run c = .ok a c') : c.Advances c' := by
  have hadv := x.built.advances c
  rwa [h] at hadv

/-- It leaves no more tokens than there were. -/
theorem length_le (h : x.run c = .ok a c') : c'.rest.length ≤ c.rest.length :=
  (advances h).rest.length_le

/-- What was complained about before is kept and changes nothing else. -/
theorem run_earlier (x : TokenReader α) (c : Cursor) (earlier : Array Complaint) :
    x.run (c.placed earlier [] c.finish)
      = (x.run c).moved (Cursor.placed earlier [] c.finish) :=
  x.built.run_placed c (.inr ⟨rfl, (x.built.advances c).finish.symm⟩)

theorem run_pure : (pure a : TokenReader α).run c = .ok a c := rfl

/-- A reader that comes through hands its value and its cursor to the next. -/
theorem run_bind_of_ok (h : x.run c = .ok a c') : (x >>= f).run c = (f a).run c' := by
  show Step.bind x.run (fun a => (f a).run) c = _
  rw [Step.bind, h]

/-- One that does not ends the readers after it. -/
theorem run_bind_of_error {halt : Halt} (h : x.run c = .error halt c') :
    (x >>= f).run c = .error halt c' := by
  show Step.bind x.run (fun a => (f a).run) c = _
  rw [Step.bind, h]

/-- Readers after one another come through exactly if both do. -/
theorem run_bind_eq_ok :
    (x >>= f).run c = .ok b c'' ↔ ∃ a c', x.run c = .ok a c' ∧ (f a).run c' = .ok b c'' := by
  constructor
  · intro h
    cases hx : x.run c with
    | ok a c' => exact ⟨a, c', rfl, run_bind_of_ok hx ▸ h⟩
    | error halt c' =>
      rw [run_bind_of_error hx] at h
      cases h
  · rintro ⟨a, c', hx, hf⟩
    rw [run_bind_of_ok hx, hf]

end TokenReader

/-! ## Taking a token -/

/-- Whatever the reader returns, it has taken a token for it. -/
def Consumes (x : TokenReader α) : Prop :=
  ∀ c a c', x.run c = .ok a c' → c'.rest.length < c.rest.length

namespace Consumes

variable {x : TokenReader α} {f : α → TokenReader β}

/-- A reader takes a token if its first part does. -/
theorem bind (hx : Consumes x) : Consumes (x >>= f) := by
  intro c b c'' h
  obtain ⟨a, c', hxc, hfc⟩ := TokenReader.run_bind_eq_ok.mp h
  exact Nat.lt_of_le_of_lt (TokenReader.length_le hfc) (hx c a c' hxc)

/-- Or if what follows does. -/
theorem of_rest (hf : ∀ a, Consumes (f a)) : Consumes (x >>= f) := by
  intro c b c'' h
  obtain ⟨a, c', hxc, hfc⟩ := TokenReader.run_bind_eq_ok.mp h
  exact Nat.lt_of_lt_of_le (hf a c' b c'' hfc) (TokenReader.length_le hxc)

end Consumes

section Taking

variable {use : TokenKind → Option α} {test : TokenKind → Bool} {kind : TokenKind} {slot : Slot}
  {c c' : Cursor} {token : Token} {a : α}

/-- The token is the next one, and it is passed over. -/
def Cursor.Passes (c : Cursor) (token : Token) (c' : Cursor) : Prop :=
  ∃ rest, c.rest = token :: rest ∧ c' = { c with rest }

/-- A token that was passed is gone. -/
theorem Cursor.Passes.length_lt (h : c.Passes token c') : c'.rest.length < c.rest.length := by
  obtain ⟨rest, hrest, rfl⟩ := h
  rw [hrest, List.length_cons]
  exact Nat.lt_succ_self _

/-- Looking at the next token leaves the cursor where it is. -/
theorem nextIs_eq_ok {found : Bool} :
    (nextIs test).run c = .ok found c' ↔ c' = c ∧ found = c.rest.head?.any (test ·.kind) := by
  show Step.nextIs test c = _ ↔ _
  unfold Step.nextIs
  cases hrest : c.rest with
  | nil =>
    constructor
    · intro h
      cases h
      exact ⟨rfl, rfl⟩
    · rintro ⟨rfl, rfl⟩
      rfl
  | cons token rest =>
    constructor
    · intro h
      cases h
      exact ⟨rfl, rfl⟩
    · rintro ⟨rfl, rfl⟩
      rfl

/-- If it passes the test, there is one. -/
theorem nextIs_eq_true (h : (nextIs test).run c = .ok true c') :
    c' = c ∧ ∃ token rest, c.rest = token :: rest ∧ test token.kind := by
  obtain ⟨hc, htest⟩ := nextIs_eq_ok.mp h
  refine ⟨hc, ?_⟩
  cases hrest : c.rest with
  | nil =>
    rw [hrest] at htest
    cases htest
  | cons token rest =>
    rw [hrest] at htest
    exact ⟨token, rest, rfl, htest.symm⟩

/-- So there are tokens left. -/
theorem nextIs_length_pos (h : (nextIs test).run c = .ok true c') : 0 < c'.rest.length := by
  obtain ⟨rfl, token, rest, hrest, -⟩ := nextIs_eq_true h
  rw [hrest, List.length_cons]
  exact Nat.succ_pos _

/-- If not, there is none or it does not pass. -/
theorem nextIs_eq_false (h : (nextIs test).run c = .ok false c') :
    c' = c ∧ ∀ token ∈ c.rest.head?, test token.kind = false := by
  obtain ⟨hc, htest⟩ := nextIs_eq_ok.mp h
  refine ⟨hc, fun token hmem => ?_⟩
  rw [Option.mem_def] at hmem
  rw [hmem] at htest
  exact htest.symm

/-- A token that is taken is the next one. -/
theorem take_eq_some :
    (take use).run c = .ok (some (token, a)) c' ↔
      use token.kind = some a ∧ c.Passes token c' := by
  show Step.take use c = _ ↔ _
  unfold Step.take
  constructor
  · intro h
    split at h
    · cases h
    · rename_i token rest hrest
      split at h
      · rename_i a huse
        cases h
        exact ⟨huse, rest, hrest, rfl⟩
      · cases h
  · rintro ⟨huse, rest, hrest, rfl⟩
    rw [hrest]
    dsimp only
    rw [huse]

/-- Where no token is taken, there is none or no use for it. -/
theorem take_eq_none :
    (take use).run c = .ok none c' ↔
      c' = c ∧ ∀ token ∈ c.rest.head?, use token.kind = none := by
  show Step.take use c = _ ↔ _
  unfold Step.take
  cases hrest : c.rest with
  | nil =>
    constructor
    · intro h
      cases h
      exact ⟨rfl, fun token hmem => by cases hmem⟩
    · rintro ⟨rfl, -⟩
      rfl
  | cons token rest =>
    constructor
    · intro h
      dsimp only at h
      split at h
      · cases h
      · rename_i huse
        cases h
        refine ⟨rfl, fun t hmem => ?_⟩
        cases hmem
        exact huse
    · rintro ⟨rfl, hnone⟩
      dsimp only
      rw [hnone token rfl]

/-- A token is taken exactly if it comes next and passes the test. -/
theorem takeIf_eq_some :
    (takeIf test).run c = .ok (some token) c' ↔ test token.kind ∧ c.Passes token c' := by
  constructor
  · intro h
    obtain ⟨found, c₁, hfound, hpure⟩ := TokenReader.run_bind_eq_ok.mp h
    cases found with
    | none => cases hpure
    | some found =>
      cases hpure
      obtain ⟨huse, hpass⟩ := take_eq_some.mp hfound
      exact ⟨by simpa using huse, hpass⟩
  · rintro ⟨htest, hpass⟩
    refine TokenReader.run_bind_eq_ok.mpr ⟨some (token, ()), c', take_eq_some.mpr ⟨?_, hpass⟩, rfl⟩
    rw [if_pos htest]

/-- None is taken exactly if the next one does not pass, and then nothing has moved. -/
theorem takeIf_eq_none :
    (takeIf test).run c = .ok none c' ↔
      c' = c ∧ ∀ token ∈ c.rest.head?, test token.kind = false := by
  constructor
  · intro h
    obtain ⟨found, c₁, hfound, hpure⟩ := TokenReader.run_bind_eq_ok.mp h
    cases found with
    | some found => cases hpure
    | none =>
      cases hpure
      obtain ⟨rfl, hnone⟩ := take_eq_none.mp hfound
      exact ⟨rfl, fun token hmem => by simpa using hnone token hmem⟩
  · rintro ⟨rfl, hnone⟩
    refine TokenReader.run_bind_eq_ok.mpr ⟨none, c', take_eq_none.mpr ⟨rfl, ?_⟩, rfl⟩
    intro token hmem
    rw [hnone token hmem]
    rfl

/-- A token is passed exactly if one of the kind comes next. -/
theorem skip_eq_true :
    (skip? kind).run c = .ok true c' ↔ ∃ token, token.kind = kind ∧ c.Passes token c' := by
  constructor
  · intro h
    obtain ⟨found, c₁, hfound, hpure⟩ := TokenReader.run_bind_eq_ok.mp h
    cases found with
    | none => cases hpure
    | some token =>
      cases hpure
      obtain ⟨htest, hpass⟩ := takeIf_eq_some.mp hfound
      exact ⟨token, eq_of_beq htest, hpass⟩
  · rintro ⟨token, rfl, hpass⟩
    refine TokenReader.run_bind_eq_ok.mpr ⟨some token, c', takeIf_eq_some.mpr ⟨?_, hpass⟩, rfl⟩
    exact beq_self_eq_true token.kind

/-- None is passed exactly if another one does, or none. -/
theorem skip_eq_false :
    (skip? kind).run c = .ok false c' ↔ c' = c ∧ ∀ token ∈ c.rest.head?, token.kind ≠ kind := by
  constructor
  · intro h
    obtain ⟨found, c₁, hfound, hpure⟩ := TokenReader.run_bind_eq_ok.mp h
    cases found with
    | some token => cases hpure
    | none =>
      cases hpure
      obtain ⟨rfl, hnone⟩ := takeIf_eq_none.mp hfound
      exact ⟨rfl, fun token hmem => ne_of_beq_false (hnone token hmem)⟩
  · rintro ⟨rfl, hnone⟩
    refine TokenReader.run_bind_eq_ok.mpr ⟨none, c', takeIf_eq_none.mpr ⟨rfl, ?_⟩, rfl⟩
    exact fun token hmem => beq_false_of_ne (hnone token hmem)

/-- An expected token is returned exactly if it comes next. -/
theorem expect_eq_ok :
    (expect slot).run c = .ok token c' ↔ token.kind = slot.kind ∧ c.Passes token c' := by
  constructor
  · intro h
    obtain ⟨found, c₁, hfound, hrest⟩ := TokenReader.run_bind_eq_ok.mp h
    cases found with
    | none => cases hrest
    | some found =>
      cases hrest
      obtain ⟨htest, hpass⟩ := takeIf_eq_some.mp hfound
      exact ⟨eq_of_beq htest, hpass⟩
  · rintro ⟨hkind, hpass⟩
    refine TokenReader.run_bind_eq_ok.mpr ⟨some token, c', takeIf_eq_some.mpr ⟨?_, hpass⟩, rfl⟩
    exact beq_iff_eq.mpr hkind

/-- It is taken then. -/
theorem expect_consumes (slot : Slot) : Consumes (expect slot) :=
  fun _ _ _ h => (expect_eq_ok.mp h).2.length_lt

end Taking

end Lox.Grammar
