/-
`Lox.Proofs.Grammar.Progress` -- the reading goes on, and comes to the end.

Three things could keep the reading of a list of tokens from coming to an end: a loop of
the grammar that takes no token, a recovery that stops where the mistake was found, and a
mistake that is found again after it. None of them happens. A declaration takes a token
whenever there is one (`declaration_length_lt`); a recovery passes over at least one, and
stops at the first boundary behind it (`Step.resume_eq_drop`); and the structural mistakes
are found at ever later tokens (`Built.inOrder`), the end marker apart.

The place of a mistake is no part of a complaint, which holds a token only. But where
tokens stand is of no account to the reading. So the places can be told from a list of
the same words that carry their numbers, and they are the same for all lists of these
words (`exists_places`).
-/
import Lox.Proofs.Grammar.Recovery
import Lox.Proofs.Likeness.Reading

set_option autoImplicit false

namespace Lox.Grammar

variable {α β : Type}

/-! ## The next boundary -/

/-- The reading may resume before the token with this number: it is the first of a
statement, or the one before it the last of a statement, or there is none. -/
def IsBoundary (ts : List Token) (q : Nat) : Prop :=
  q = ts.length ∨ (∃ t, ts[q - 1]? = some t ∧ t.kind = .semicolon) ∨
    ∃ t, ts[q]? = some t ∧ t.kind.startsStatement

/-- The first boundary that is not the beginning of the tokens. -/
structure NextBoundary (ts : List Token) (q : Nat) : Prop where
  positive : 0 < q
  boundary : IsBoundary ts q
  least : ∀ p, 0 < p → p < q → ¬ IsBoundary ts p

/-- A boundary behind the first token is one of the other tokens. -/
theorem isBoundary_cons {t : Token} {ts : List Token} {q : Nat} (hq : 0 < q) :
    IsBoundary (t :: ts) (q + 1) ↔ IsBoundary ts q := by
  obtain ⟨q, rfl⟩ := Nat.exists_eq_add_one_of_ne_zero (Nat.ne_of_gt hq)
  simp [IsBoundary]

/-- Only a semicolon ends a statement. -/
theorem endsStatement_iff {kind : TokenKind} : kind.endsStatement ↔ kind = .semicolon := by
  cases kind <;> decide

namespace Step

/-- Going to the boundary is dropping the tokens before the next one. -/
theorem fromBoundary_eq_drop (last : Token) (ts : List Token) :
    ∃ q, NextBoundary (last :: ts) q ∧ fromBoundary last ts = (last :: ts).drop q := by
  induction ts generalizing last with
  | nil => exact ⟨1, ⟨Nat.one_pos, .inl rfl, fun p hp hlt => by omega⟩, rfl⟩
  | cons t rest ih =>
    rw [fromBoundary]
    by_cases hstop : last.kind.endsStatement || t.kind.startsStatement
    · refine ⟨1, ⟨Nat.one_pos, .inr ?_, fun p hp hlt => by omega⟩, if_pos hstop⟩
      rcases Bool.or_eq_true_iff.mp hstop with hends | hstarts
      · exact .inl ⟨last, rfl, endsStatement_iff.mp hends⟩
      · exact .inr ⟨t, rfl, hstarts⟩
    · obtain ⟨q, hq, hdrop⟩ := ih t
      refine ⟨q + 1, ⟨Nat.succ_pos q, (isBoundary_cons hq.positive).mpr hq.boundary, ?_⟩, ?_⟩
      · intro p hp hlt hboundary
        obtain ⟨p, rfl⟩ := Nat.exists_eq_add_one_of_ne_zero (Nat.ne_of_gt hp)
        cases p with
        | succ p =>
          exact hq.least (p + 1) (Nat.succ_pos p) (by omega)
            ((isBoundary_cons (Nat.succ_pos p)).mp hboundary)
        | zero =>
          -- there is a token behind the first one, and it is not there that it stops
          rcases hboundary with hlength | ⟨u, hu, hends⟩ | ⟨u, hu, hstarts⟩
          · simp at hlength
          · cases hu
            exact hstop (by rw [endsStatement_iff.mpr hends, Bool.true_or])
          · cases hu
            exact hstop (by rw [hstarts, Bool.or_true])
      · rw [if_neg hstop, List.drop_succ_cons]
        exact hdrop

/-- A recovery stops at the first boundary behind the token where it begins. -/
theorem resume_eq_drop {ts : List Token} (h : ts ≠ []) :
    ∃ q, NextBoundary ts q ∧ resume ts = ts.drop q := by
  cases ts with
  | nil => exact absurd rfl h
  | cons t rest => exact fromBoundary_eq_drop t rest

end Step

/-! ## Declarations -/

/-- A declaration comes to its end. -/
theorem exists_declaration_run (c : Cursor) :
    ∃ found c', ∀ fuel, 32 * c.rest.length + 18 ≤ fuel →
      (declaration fuel).run c = .ok found c' := by
  let enough := 32 * c.rest.length + 18
  have hsettled : ∀ fuel, enough ≤ fuel →
      (declaration fuel).run c = (declaration enough).run c := by
    intro fuel hfuel
    induction hfuel with
    | refl => rfl
    | @step fuel hfuel ih =>
      rw [← ((statementsSettled fuel).declaration _ hfuel c (Nat.le_refl _)).1, ih]
  cases hrun : (declaration enough).run c with
  | ok found c' => exact ⟨found, c', fun fuel hfuel => (hsettled fuel hfuel).trans hrun⟩
  | error halt c' =>
    cases halt with
    | givenUp => exact absurd hrun declaration_not_givenUp
    | outOfFuel =>
      have hends := (statementsSettled enough).declaration _ (Nat.le_refl _) c (Nat.le_refl _)
      exact absurd hrun (hends.2 c')

/-- A declaration that is given up ends at the first boundary behind the place where that
was noticed. -/
theorem declaration_of_givenUp {fuel : Nat} {c c' : Cursor}
    (h : (strictDeclaration fuel).run c = .error .givenUp c') (hne : c'.rest ≠ []) :
    ∃ q, NextBoundary c'.rest q ∧
      (declaration (fuel + 1)).run c = .ok none { c' with rest := c'.rest.drop q } := by
  obtain ⟨q, hq, hdrop⟩ := Step.resume_eq_drop hne
  refine ⟨q, hq, ?_⟩
  show Step.recovering (strictDeclaration fuel).run c = _
  rw [Step.recovering, h]
  dsimp only
  rw [hdrop]

/-! ## Mistakes in order -/

/-- Whether a complaint is about the structure, and not about the end of the tokens. -/
def Complaint.isMistake (k : Complaint) : Bool :=
  k.cause.isStructural && k.token.kind != .eof

/-- The tokens in which mistakes were found. -/
def mistakes (complaints : List Complaint) : List Token :=
  (complaints.filter Complaint.isMistake).map Complaint.token

/-- Mistakes are found one after the other. -/
theorem mistakes_append (complaints complaints' : List Complaint) :
    mistakes (complaints ++ complaints') = mistakes complaints ++ mistakes complaints' := by
  rw [mistakes, List.filter_append, List.map_append]
  rfl

/-- A complaint that the reading goes on from is no mistake. -/
theorem mistakes_of_passing {cause : Cause} (h : cause.isStructural = false) (t : Token) :
    mistakes [⟨cause, t⟩] = [] := by
  simp [mistakes, Complaint.isMistake, h]

/-- A complaint about the end is none at a token. -/
theorem mistakes_of_eof (cause : Cause) {t : Token} (h : t.kind = .eof) :
    mistakes [⟨cause, t⟩] = [] := by
  simp [mistakes, Complaint.isMistake, h]

/-- One complaint is one mistake at most, at its token. -/
theorem mistakes_sublist (cause : Cause) (t : Token) :
    (mistakes [⟨cause, t⟩]).Sublist [t] := by
  unfold mistakes
  exact List.filter_sublist.map Complaint.token

/-- On the way from the first cursor to the second, mistakes are found at tokens that are
passed over and at those of `next`, each of them once at most, and in their order. -/
def Cursor.InOrder (c c' : Cursor) (next : List Token) : Prop :=
  ∃ passed new, c.rest = passed ++ c'.rest ∧ c'.complaints = c.complaints ++ new ∧
    (mistakes new.toList).Sublist (passed ++ next)

/-- Only a reader that gives up finds a mistake in the token where it stands. -/
def Outcome.InOrder (c : Cursor) : Outcome α → Prop
  | .ok _ c' => c.InOrder c' []
  | .error _ c' => c.InOrder c' (c'.rest.take 1)

namespace Cursor.InOrder

variable {c c' c'' : Cursor} {next : List Token}

/-- Where nothing is read, nothing is found. -/
theorem refl (c : Cursor) (next : List Token) : c.InOrder c next :=
  ⟨[], #[], rfl, Array.append_empty.symm, List.nil_sublist _⟩

/-- What is found on the way goes before what is found later. -/
theorem trans (h : c.InOrder c' []) (h' : c'.InOrder c'' next) : c.InOrder c'' next := by
  obtain ⟨passed, new, hrest, hnew, hsublist⟩ := h
  obtain ⟨passed', new', hrest', hnew', hsublist'⟩ := h'
  refine ⟨passed ++ passed', new ++ new', ?_, ?_, ?_⟩
  · rw [hrest, hrest', List.append_assoc]
  · rw [hnew', hnew, Array.append_assoc]
  · rw [Array.toList_append, mistakes_append, List.append_assoc]
    rw [List.append_nil] at hsublist
    exact hsublist.append hsublist'

/-- A token can be passed over without a mistake. -/
theorem passes {t : Token} {rest : List Token} (h : c.rest = t :: rest) (next : List Token) :
    c.InOrder { c with rest } next :=
  ⟨[t], #[], h, Array.append_empty.symm, List.nil_sublist _⟩

/-- A complaint about the next token leaves that token for no later one. -/
theorem complain {cause : Cause} {t : Token} (c : Cursor)
    (h : (mistakes [⟨cause, t⟩]).Sublist next) : c.InOrder (c.complain cause t) next :=
  ⟨[], #[⟨cause, t⟩], rfl, Array.push_eq_append, h⟩

/-- The recovery passes over the token in which the mistake was found. -/
theorem resume (h : c.InOrder c' (c'.rest.take 1)) :
    c.InOrder { c' with rest := Step.resume c'.rest } [] := by
  obtain ⟨passed, new, hrest, hnew, hsublist⟩ := h
  obtain ⟨skipped, hskipped⟩ := Step.resume_suffix c'.rest
  refine ⟨passed ++ skipped, new, ?_, hnew, ?_⟩
  · rw [hrest, List.append_assoc, hskipped]
  · have hfirst : (c'.rest.take 1).Sublist skipped := by
      by_cases hnil : c'.rest = []
      · rw [hnil]
        exact List.nil_sublist _
      · have hlt := Step.length_resume_lt hnil
        generalize Step.resume c'.rest = left at hskipped hlt
        rw [← hskipped, List.length_append] at hlt
        rw [← hskipped, List.take_append_of_le_length (by omega)]
        exact List.take_sublist 1 skipped
    rw [List.append_nil]
    exact hsublist.trans (hfirst.append_left passed)

end Cursor.InOrder

/-- Whatever a reader makes of its tokens, it finds the mistakes in them in order. -/
theorem Built.inOrder {x : Cursor → Outcome α} (hx : Built x) (c : Cursor)
    (hfinish : c.finish.kind = .eof) : Outcome.InOrder c (x c) := by
  induction hx generalizing c with
  | pure a => exact .refl c _
  | @bind α β x f hx hf ihx ihf =>
    have hfirst := ihx c hfinish
    have hadv := hx.advances c
    unfold Step.bind
    -- the second reader begins where the first one ends, so its mistakes come later
    cases hrun : x c with
    | ok a c' =>
      rw [hrun] at hfirst hadv
      have hsecond := ihf a c' (hadv.finish ▸ hfinish)
      dsimp only
      cases hrun' : f a c' with
      | ok b c'' =>
        rw [hrun'] at hsecond
        exact hfirst.trans hsecond
      | error halt c'' =>
        rw [hrun'] at hsecond
        exact hfirst.trans hsecond
    | error halt c' =>
      rw [hrun] at hfirst
      exact hfirst
  | outOfFuel => exact .refl c _
  | nextIs test =>
    unfold Step.nextIs
    split <;> exact .refl c _
  | take use =>
    unfold Step.take
    split
    · exact .refl c _
    · rename_i token rest hrest
      split
      · exact .passes hrest _
      · exact .refl c _
  | takeLiteral =>
    unfold Step.takeLiteral
    split
    · exact .refl c _
    · rename_i token rest hrest
      split
      · split
        · exact .passes hrest _
        · -- the literal has been passed over when the complaint about it is made
          refine ⟨[token], #[⟨.noLiteral, token⟩], hrest, Array.push_eq_append, ?_⟩
          exact (mistakes_sublist _ _).trans (List.sublist_append_left _ _)
      · exact .refl c _
  | inFunction => exact .refl c _
  | complain token h => exact .complain c (by rw [mistakes_of_passing h])
  | complainHere h => exact .complain c (by rw [mistakes_of_passing h])
  | @giveUpHere α cause h =>
    -- the mistake is at the next token, which is left for no one else
    refine .complain c ?_
    unfold Cursor.complain Cursor.current
    dsimp only
    cases hrest : c.rest with
    | nil => rw [List.headD_nil, mistakes_of_eof cause hfinish, List.take_nil]
    | cons token rest => exact mistakes_sublist cause token
  | @recovering α read hread ih =>
    have hinner := ih c hfinish
    -- a reader that comes through has found nothing that would be passed over again
    unfold Step.recovering
    cases hrun : read c with
    | ok a c' =>
      rw [hrun] at hinner
      exact hinner
    | error halt c' =>
      rw [hrun] at hinner
      cases halt with
      -- only here is a token passed over that has been complained about
      | givenUp => exact Cursor.InOrder.resume hinner
      | outOfFuel => exact hinner
  | @insideBody α read hread ih =>
    have hinner := ih { c with depth := c.depth + 1 } hfinish
    unfold Step.insideBody
    cases hrun : read { c with depth := c.depth + 1 } with
    | ok a c' =>
      rw [hrun] at hinner
      exact hinner
    | error halt c' =>
      rw [hrun] at hinner
      exact hinner

/-- The structural mistakes in a list are found in the order of the tokens, and at no
token twice. -/
theorem mistakes_read_sublist (tokens : List Token) :
    (mistakes (read tokens).complaints).Sublist (Cursor.start tokens).rest := by
  obtain ⟨stmts, c, hrest, hrun⟩ := exists_program_run (Cursor.start tokens)
  have horder := (program (fuelFor (Cursor.start tokens).rest.length)).built.inOrder
    (Cursor.start tokens) (endMarker_kind tokens)
  rw [hrun _ (Nat.le_refl _)] at horder
  obtain ⟨passed, new, hpassed, hnew, hsublist⟩ := horder
  have hcomplaints : c.complaints = new := hnew.trans Array.empty_append
  rw [read_eq_of_run hrun, hcomplaints, hpassed, hrest]
  exact hsublist

/-! ## The places of complaints -/

/-- The tokens up to the end marker, each with its number in place of its span. -/
def numbered (tokens : List Token) : List Token :=
  (Cursor.start tokens).rest.mapIdx fun i t => { t with span := ⟨i, i, .first⟩ }

/-- The number of a token that carries one. The end marker carries none, but stands
behind all tokens that do. -/
def numberOf (tokens : List Token) (t : Token) : Nat :=
  if t.kind = .eof then (Cursor.start tokens).rest.length else t.span.start

/-- The second token is the one in the list that the first one carries the number of. -/
structure Numbers (tokens tokens' : List Token) (t t' : Token) : Prop where
  word : t.SameWord t'
  place : t' = tokens'[numberOf tokens t]?.getD (endMarker tokens')

/-- The tokens that are read stand before the end marker. -/
theorem kind_of_mem_start {tokens : List Token} {t : Token}
    (h : t ∈ (Cursor.start tokens).rest) : t.kind ≠ .eof := by
  have hkind := List.mem_takeWhile_imp h
  exact bne_iff_ne.mp hkind

/-- The marker stands behind as many tokens as are read. -/
theorem getElem?_marker (tokens : List Token) :
    tokens[(Cursor.start tokens).rest.length]? = tokens.find? fun t => t.kind == .eof := by
  unfold Cursor.start
  dsimp only
  induction tokens with
  | nil => rfl
  | cons t rest ih =>
    by_cases heof : t.kind = .eof
    · simp [heof]
    · simp [heof, ih]

/-- Whether it is there or made up, it is the marker. -/
theorem getD_marker (tokens : List Token) :
    tokens[(Cursor.start tokens).rest.length]?.getD (endMarker tokens) = endMarker tokens := by
  rw [getElem?_marker]
  unfold endMarker
  cases tokens.find? fun t => t.kind == .eof <;> rfl

/-- Numbering the tokens does not change how many are read. -/
theorem start_numbered (tokens : List Token) :
    Cursor.start (numbered tokens ++ [endMarker tokens])
      = ⟨numbered tokens, endMarker tokens, 0, #[]⟩ := by
  refine start_append_marker (fun t ht => ?_) (endMarker_kind tokens)
  obtain ⟨i, hi, rfl⟩ := List.mem_mapIdx.mp ht
  have hkind := kind_of_mem_start (List.getElem_mem hi)
  exact hkind

/-- The numbers are those of the words in any list of the same words. -/
theorem numbered_alike {tokens tokens' : List Token}
    (h : List.Forall₂ Token.SameWord tokens tokens') :
    (Cursor.start (numbered tokens ++ [endMarker tokens])).Alike (Numbers tokens tokens')
      (Cursor.start tokens') := by
  have hrest : List.Forall₂ Token.SameWord (Cursor.start tokens).rest (Cursor.start tokens').rest :=
    takeWhile_alike (fun _ _ hword => hword) h
  have hlength := hrest.length_eq
  have hmarker : (endMarker tokens).SameWord (endMarker tokens') := by
    have hfound := find?_eof_alike (fun _ _ hword => hword) h
    unfold endMarker
    generalize (tokens.find? fun t => t.kind == .eof) = found at hfound
    generalize (tokens'.find? fun t => t.kind == .eof) = found' at hfound
    cases hfound with
    | none => exact ⟨rfl, rfl, rfl⟩
    | some hword => exact hword
  rw [start_numbered]
  refine ⟨?_, ⟨hmarker, ?_⟩, rfl, .nil⟩
  · rw [List.forall₂_iff_get] at hrest ⊢
    refine ⟨by rw [numbered, List.length_mapIdx, hlength], fun i hi hi' => ?_⟩
    rw [numbered, List.length_mapIdx] at hi
    have hword := hrest.2 i hi hi'
    have hkind := kind_of_mem_start (List.getElem_mem hi)
    have hprefix : (Cursor.start tokens').rest <+: tokens' := List.takeWhile_prefix _
    simp only [numbered, List.get_eq_getElem, List.getElem_mapIdx] at hword ⊢
    refine ⟨⟨hword.kind, hword.lexeme, hword.literal⟩, ?_⟩
    rw [numberOf, if_neg hkind, List.getElem?_eq_getElem (hi'.trans_le hprefix.length_le),
      Option.getD_some, hprefix.getElem]
  · rw [numberOf, if_pos (endMarker_kind tokens), hlength, getD_marker]
    rfl

/-- The numbers go up. -/
theorem numbered_pairwise (tokens : List Token) :
    (numbered tokens).Pairwise fun t t' => t.span.start < t'.span.start := by
  rw [List.pairwise_iff_getElem]
  intro i j hi hj hlt
  simp only [numbered, List.getElem_mapIdx]
  exact hlt

/-- The number of a mistake is the one that its token carries. -/
theorem numberOf_of_isMistake (tokens : List Token) {k : Complaint} (h : k.isMistake) :
    numberOf tokens k.token = k.token.span.start := by
  obtain ⟨-, hkind⟩ := Bool.and_eq_true_iff.mp h
  rw [numberOf, if_neg (bne_iff_ne.mp hkind)]

/-- Complaints about tokens that differ in their spans only are mistakes both or neither. -/
theorem Complaint.Alike.isMistake_eq {tokens tokens' : List Token} {k k' : Complaint}
    (h : k.Alike (Numbers tokens tokens') k') : k.isMistake = k'.isMistake := by
  unfold Complaint.isMistake
  rw [h.cause, h.token.word.kind]

/-- An order of values goes over to a list that they are paired with. -/
theorem pairwise_zip_map {γ : Type} {A : α → β → Prop} {Q : β × γ → β × γ → Prop} {f : α → γ}
    {as : List α} {bs : List β} (h : List.Forall₂ A as bs)
    (hQ : as.Pairwise fun a a' => ∀ b b', A a b → A a' b' → Q (b, f a) (b', f a')) :
    (bs.zip (as.map f)).Pairwise Q := by
  induction h with
  | nil => exact .nil
  | @cons a b as bs hab hrest ih =>
    obtain ⟨hfirst, hQ⟩ := List.pairwise_cons.mp hQ
    rw [List.map_cons, List.zip_cons_cons, List.pairwise_cons]
    refine ⟨fun pair hpair => ?_, ih hQ⟩
    rw [List.zip_map_right, List.mem_map] at hpair
    obtain ⟨⟨b', a'⟩, hmem, rfl⟩ := hpair
    exact hfirst a' (List.of_mem_zip hmem).2 b b' hab (List.forall₂_zip hrest.flip hmem)

/-- The complaints about a list have places in it, which are the same for all lists of the
same words. Those of the structural ones, made before the end, only ever increase. -/
theorem exists_places (tokens : List Token) :
    ∃ places : List Nat,
      (∀ tokens', List.Forall₂ Token.SameWord tokens tokens' →
        List.Forall₂ (fun k i => k.token = tokens'[i]?.getD (endMarker tokens'))
          (read tokens').complaints places) ∧
      (((read tokens).complaints.zip places).filter (·.1.isMistake)).Pairwise (·.2 < ·.2) := by
  let counted := (read (numbered tokens ++ [endMarker tokens])).complaints
  have halike : ∀ tokens', List.Forall₂ Token.SameWord tokens tokens' →
      List.Forall₂ (Complaint.Alike (Numbers tokens tokens')) counted (read tokens').complaints :=
    fun tokens' h => (read_alike_of_start (fun _ _ hnumbers => hnumbers.word) (numbered_alike h)).2
  have hself : List.Forall₂ Token.SameWord tokens tokens :=
    List.forall₂_same.mpr fun _ _ => ⟨rfl, rfl, rfl⟩
  refine ⟨counted.map fun k => numberOf tokens k.token, fun tokens' h => ?_, ?_⟩
  · rw [List.forall₂_map_right_iff]
    exact (halike tokens' h).flip.imp fun _ _ hk => hk.token.place
  · have hsublist := mistakes_read_sublist (numbered tokens ++ [endMarker tokens])
    rw [start_numbered] at hsublist
    have hsorted := (numbered_pairwise tokens).sublist hsublist
    rw [mistakes, List.pairwise_map, List.pairwise_filter] at hsorted
    rw [List.pairwise_filter]
    refine pairwise_zip_map (halike tokens hself) (hsorted.imp ?_)
    intro k k' hlt j j' hj hj' hmistake hmistake'
    rw [← hj.isMistake_eq] at hmistake
    rw [← hj'.isMistake_eq] at hmistake'
    -- a mistake is not at the end marker, and so its token carries its number
    rw [numberOf_of_isMistake tokens hmistake, numberOf_of_isMistake tokens hmistake']
    exact hlt hmistake hmistake'

/-! ## Programs -/

/-- What stands behind an end marker is not looked at. -/
theorem start_append_cons {before after after' : List Token} {marker : Token}
    (h : marker.kind = .eof) :
    Cursor.start (before ++ marker :: after) = Cursor.start (before ++ marker :: after') := by
  have hmarker : ∀ more, endMarker (before ++ marker :: more)
      = (before.find? fun t => t.kind == .eof).getD marker := by
    intro more
    rw [endMarker, List.find?_append, List.find?_cons_of_pos (by simp [h])]
    cases before.find? fun t => t.kind == .eof <;> rfl
  unfold Cursor.start
  rw [hmarker after, hmarker after', List.takeWhile_append, List.takeWhile_append,
    List.takeWhile_cons_of_neg (by simp [h]), List.takeWhile_cons_of_neg (by simp [h])]

end Grammar

open Grammar

/-- **The reading always goes on.** Whatever tokens there are, the reading of them comes to
the first end marker, and what stands behind that is of no account. On the way, each
declaration that begins before the marker takes a token; a recovery that begins before it
ends at the next boundary; and the structural complaints that are not about the marker are
made at ever later tokens. The places of complaints are those that all lists of the same
words have in common. -/
theorem Program.ofTokens_progress (tokens : List Token) :
    (∃ stmts c, (Cursor.start tokens).rest = tokens.takeWhile (·.kind != .eof) ∧
      (∀ fuel, fuelFor (Cursor.start tokens).rest.length ≤ fuel →
        (program fuel).run (Cursor.start tokens) = .ok stmts c) ∧
      c.rest = [] ∧ c.current = endMarker tokens ∧
      Program.ofTokens tokens = ⟨stmts, c.complaints.toList.map Complaint.diagnostic⟩) ∧
    (∀ before marker after after', tokens = before ++ marker :: after → marker.kind = .eof →
      Program.ofTokens tokens = Program.ofTokens (before ++ marker :: after')) ∧
    (∀ c : Cursor, c.rest ≠ [] →
      (∃ found c', ∀ fuel, 32 * c.rest.length + 18 ≤ fuel →
        (declaration fuel).run c = .ok found c') ∧
      ∀ fuel found c', (declaration fuel).run c = .ok found c' →
        c'.rest <:+ c.rest ∧ c'.rest.length < c.rest.length) ∧
    (∀ fuel c c', (strictDeclaration fuel).run c = .error .givenUp c' → c'.rest ≠ [] →
      ∃ q, NextBoundary c'.rest q ∧
        (declaration (fuel + 1)).run c = .ok none { c' with rest := c'.rest.drop q }) ∧
    ∃ places : List Nat,
      (∀ tokens', List.Forall₂ Token.SameWord tokens tokens' →
        List.Forall₂ (fun k i => k.token = tokens'[i]?.getD (endMarker tokens'))
          (read tokens').complaints places) ∧
      (((read tokens).complaints.zip places).filter (·.1.isMistake)).Pairwise (·.2 < ·.2) := by
  refine ⟨?_, ?_, fun c hne => ⟨exists_declaration_run c, fun fuel found c' hrun => ?_⟩,
    fun fuel c c' hrun hne => declaration_of_givenUp hrun hne, exists_places tokens⟩
  -- the run exists and ends with no tokens left, so what is looked at is the marker
  · obtain ⟨stmts, c, hrest, hrun⟩ := exists_program_run (Cursor.start tokens)
    have hfinish : c.finish = endMarker tokens :=
      (TokenReader.advances (hrun _ (Nat.le_refl _))).finish
    refine ⟨stmts, c, rfl, hrun, hrest, ?_, ?_⟩
    · rw [Cursor.current, hrest, List.headD_nil, hfinish]
    · rw [Program.ofTokens, read_eq_of_run hrun]
  -- both lists begin with the same tokens up to the marker
  · rintro before marker after after' rfl hmarker
    have hstart : Cursor.start (before ++ marker :: after)
      = Cursor.start (before ++ marker :: after') := start_append_cons hmarker
    unfold Program.ofTokens Grammar.read
    rw [hstart]
  · exact ⟨(TokenReader.advances hrun).rest, declaration_length_lt hne hrun⟩

/-- A number that does not say which one it is, an end marker, and a name behind it. -/
theorem Program.ofTokens_progress_marker :
    let number : Token := .madeUp .number "1" 1
    let marker : Token := .madeUp .eof "" 1
    let name : Token := .madeUp .identifier "a" 1
    marker.kind = .eof ∧ (Cursor.start [number, marker, name]).rest = [number] ∧
      (∃ stmts c, (∀ fuel, fuelFor 1 ≤ fuel →
          (program fuel).run (Cursor.start [number, marker, name]) = .ok stmts c) ∧
        c.rest = [] ∧ c.current = marker ∧
        Program.ofTokens [number, marker, name]
          = ⟨stmts, c.complaints.toList.map Complaint.diagnostic⟩) ∧
      (Program.ofTokens [number, marker, name]).diagnostics.map Diagnostic.text
        = ["[line 1] Error at '1': Expect literal value."] ∧
      Program.ofTokens [number, marker, name] = Program.ofTokens [number, marker] := by
  intro number marker name
  obtain ⟨⟨stmts, c, hstart, hrun, hend⟩, hbehind, -⟩ :=
    Program.ofTokens_progress [number, marker, name]
  exact ⟨rfl, hstart, ⟨stmts, c, hrun, hend⟩, by decide +kernel,
    hbehind [number] marker [name] [] rfl rfl⟩

end Lox
