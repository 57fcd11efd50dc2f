/-
`Lox.Proofs.Grammar.FirstMistake` -- where the first mistake is reported.

What is wrong with the structure of a program is found at the first token from
which on nothing could be put right: the tokens before it are the beginning of a
program with a sound structure, and with the token they are not, whatever may
follow. If the tokens are such a beginning to the last one, it is found at the end.

Both follow from the stack of awaited parts that the readers follow. Before the
token the stack can be led to its end, by the tokens that complete it; and at the
token it is stuck, which does not depend on what is behind.
-/
import Lox.Proofs.Grammar.Boundary
import Lox.Proofs.Grammar.Predict

set_option autoImplicit false

namespace Lox

open Grammar

/-! ## Soundness of structure -/

/-- The diagnostic is about the structure of a program: a token in a wrong place,
or one that is missing. -/
def Diagnostic.IsStructural (d : Diagnostic) : Prop :=
  d.code = some .unexpectedToken ∨ d.code = some .expectedExpression ∨
    d.code = some .missingSemicolon

instance : DecidablePred Diagnostic.IsStructural :=
  fun _ => inferInstanceAs (Decidable (_ ∨ _ ∨ _))

/-- Nothing is wrong with the structure of the program that the tokens are. -/
def StructurallyClean (tokens : List Token) : Prop :=
  ∀ d ∈ (Program.ofTokens tokens).diagnostics, ¬ d.IsStructural

instance (tokens : List Token) : Decidable (StructurallyClean tokens) :=
  inferInstanceAs (Decidable (∀ d ∈ _, _))

namespace Grammar

/-- The codes of the structural causes are theirs alone. -/
theorem Complaint.isStructural_diagnostic {complaint : Complaint} :
    complaint.diagnostic.IsStructural ↔ complaint.cause.isStructural = true := by
  constructor
  · intro h
    by_contra hcause
    obtain ⟨cause, token⟩ := complaint
    cases cause <;> first | exact hcause rfl | (rcases h with h | h | h <;> cases h)
  · intro h
    by_contra hnone
    rw [Diagnostic.IsStructural, not_or, not_or] at hnone
    rw [Cause.isStructural_eq_false_of_code hnone] at h
    cases h

/-- The first structural diagnostic is that of the first structural complaint. -/
theorem find?_diagnostics (complaints : List Complaint) :
    (complaints.map Complaint.diagnostic).find? (·.IsStructural)
      = (complaints.find? (·.cause.isStructural)).map Complaint.diagnostic := by
  rw [List.find?_map]
  congr 2
  funext complaint
  rw [Function.comp_apply, Bool.eq_iff_iff, decide_eq_true_iff]
  exact complaint.isStructural_diagnostic

/-- The structural diagnostics are those of the structural complaints. -/
theorem filter_diagnostics (complaints : List Complaint) :
    (complaints.map Complaint.diagnostic).filter (·.IsStructural)
      = (complaints.filter (·.cause.isStructural)).map Complaint.diagnostic := by
  rw [List.filter_map]
  congr 1
  refine List.filter_congr fun complaint _ => ?_
  rw [Function.comp_apply, Bool.eq_iff_iff, decide_eq_true_iff]
  exact complaint.isStructural_diagnostic

/-! ## Beginnings of programs -/

section Beginnings

variable {tokens past rest : List Token} {t : Token}

/-- Reading a list of tokens, the stack comes to its end, or it is stuck where the
first structural diagnostic points. -/
theorem leads_or_fails (tokens : List Token) :
    (StructurallyClean tokens ∧ Leads [.program] (Cursor.start tokens).rest [] []) ∨
      ∃ K us cause, Leads [.program] (Cursor.start tokens).rest K us ∧ Stuck K us ∧
        (Program.ofTokens tokens).diagnostics.find? (·.IsStructural)
          = some (Complaint.mk cause (us.headD (endMarker tokens))).diagnostic := by
  obtain ⟨stmts, c', hrest, hrun⟩ := exists_program_run (Cursor.start tokens)
  have hfollows := program_follows (fuelFor (Cursor.start tokens).rest.length)
    (Cursor.start tokens) (fun complaint hmem => by cases hmem) []
  rw [hrun _ (Nat.le_refl _)] at hfollows
  have hdiagnostics : (Program.ofTokens tokens).diagnostics
      = c'.complaints.toList.map Complaint.diagnostic := by
    rw [Program.ofTokens, read_eq_of_run hrun]
  rcases hfollows with ⟨hwhole, hleads⟩ | ⟨K, us, cause, hleads, hstuck, hfind⟩
  · left
    rw [hrest] at hleads
    refine ⟨fun d hd hstructural => ?_, hleads⟩
    rw [hdiagnostics, List.mem_map] at hd
    obtain ⟨complaint, hmem, rfl⟩ := hd
    have htrue := Complaint.isStructural_diagnostic.mp hstructural
    rw [hwhole complaint hmem] at htrue
    cases htrue
  · right
    refine ⟨K, us, cause, hleads, hstuck, ?_⟩
    rw [hdiagnostics, find?_diagnostics, hfind]
    rfl

/-- Without structural diagnostics the stack is emptied by the tokens. -/
theorem leads_of_clean (h : StructurallyClean tokens) :
    Leads [.program] (Cursor.start tokens).rest [] [] := by
  rcases leads_or_fails tokens with ⟨-, hleads⟩ | ⟨K, us, cause, -, -, hfind⟩
  · exact hleads
  · have hstructural := List.find?_some hfind
    exact absurd (of_decide_eq_true hstructural) (h _ (List.mem_of_find?_eq_some hfind))

/-- If it is emptied, nothing was wrong with the structure, as there is one way only for a stack
to go. -/
theorem clean_of_leads (h : Leads [.program] (Cursor.start tokens).rest [] []) :
    StructurallyClean tokens := by
  rcases leads_or_fails tokens with ⟨hclean, -⟩ | ⟨K, us, cause, hleads, hstuck, -⟩
  · exact hclean
  · exact absurd hstuck (h.not_stuck hleads)

/-- The tokens before which the stack stands begin a program with a sound
structure. -/
theorem exists_clean {K : List Pending} (heof : ∀ u ∈ past, u.kind ≠ .eof)
    (h : Leads [.program] (past ++ rest) K rest) :
    ∃ more, (∀ u ∈ more, u.kind ≠ .eof) ∧ StructurallyClean (past ++ more) := by
  obtain ⟨past', hpast, K', hfit, hleads⟩ := h.behind
  obtain rfl := List.append_cancel_right hpast
  have hK' : Fit K' := hfit ⟨rfl, trivial⟩
  have hmore : ∀ u ∈ filling (completion K'), u.kind ≠ .eof := by
    intro u hu
    obtain ⟨kind, hkind, rfl⟩ := List.mem_map.mp hu
    exact fun heq => hK'.eof_not_mem (heq ▸ hkind)
  refine ⟨filling (completion K'), hmore, clean_of_leads ?_⟩
  rw [start_rest fun u hu => (List.mem_append.mp hu).elim (heof u) (hmore u)]
  exact (hleads _).trans (leads_completion hK')

/-- With the token at which the stack is stuck, they do not. -/
theorem not_clean {K : List Pending} (heof : ∀ u ∈ past ++ [t], u.kind ≠ .eof)
    (h : Leads [.program] (past ++ t :: rest) K (t :: rest)) (hstuck : Stuck K (t :: rest))
    (more : List Token) : ¬ StructurallyClean (past ++ t :: more) := by
  intro hclean
  obtain ⟨past', hpast, hleads⟩ := h.ahead
  obtain rfl := List.append_cancel_right hpast
  -- what follows is read up to an end marker, which does not stand before the token
  obtain ⟨vs, hvs⟩ : ∃ vs, (Cursor.start (past ++ t :: more)).rest = past ++ t :: vs := by
    have hsplit : past ++ t :: more = (past ++ [t]) ++ more := by
      rw [List.append_assoc, List.singleton_append]
    refine ⟨more.takeWhile fun u => u.kind != .eof, ?_⟩
    rw [Cursor.start, hsplit, List.takeWhile_append_of_pos, List.append_assoc,
      List.singleton_append]
    exact fun u hu => bne_iff_ne.mpr (heof u hu)
  have hend := leads_of_clean hclean
  rw [hvs] at hend
  exact hend.not_stuck (hleads vs) (hstuck.ahead vs)

end Beginnings

end Grammar

/-! ## Programs -/

/-- **The first mistake.** If something is wrong with the structure of a program,
the first diagnostic about it points at a token, or at the end of the tokens. The
tokens before that place are the beginning of a program whose structure is sound;
and with the token there, whatever follows, they are not. -/
theorem Program.first_mistake {tokens : List Token} (heof : ∀ t ∈ tokens, t.kind ≠ .eof)
    (hmistake : ¬ StructurallyClean tokens) :
    ∃ k ≤ tokens.length,
      (∃ cause, (Program.ofTokens tokens).diagnostics.find? (·.IsStructural)
        = some (Complaint.mk cause (tokens[k]?.getD (endMarker tokens))).diagnostic) ∧
      (∃ more, (∀ t ∈ more, t.kind ≠ .eof) ∧ StructurallyClean (tokens.take k ++ more)) ∧
      (k < tokens.length → ∀ more, ¬ StructurallyClean (tokens.take (k + 1) ++ more)) := by
  rcases leads_or_fails tokens with ⟨hclean, -⟩ | ⟨K, us, cause, hleads, hstuck, hfind⟩
  · exact absurd hclean hmistake
  rw [start_rest heof] at hleads
  obtain ⟨past, rfl, -⟩ := hleads.behind
  have hpast : ∀ t ∈ past, t.kind ≠ .eof := fun t ht => heof t (List.mem_append_left us ht)
  refine ⟨past.length, ?_, ⟨cause, ?_⟩, ?_, fun hlt more => ?_⟩
  · rw [List.length_append]
    exact Nat.le_add_right _ _
  · rw [hfind, List.getElem?_append_right (Nat.le_refl _), Nat.sub_self, List.headD_eq_head?_getD,
      List.head?_eq_getElem?]
  · rw [List.take_left']
    · exact exists_clean hpast hleads
    · rfl
  · cases us with
    | nil =>
      rw [List.append_nil] at hlt
      exact absurd hlt (Nat.lt_irrefl _)
    | cons t rest =>
      have htake : (past ++ t :: rest).take (past.length + 1) = past ++ [t] := by
        rw [List.take_length_add_append, List.take_succ_cons, List.take_zero]
      rw [htake, List.append_assoc, List.singleton_append]
      refine not_clean (fun u hu => heof u ?_) hleads hstuck more
      exact htake ▸ List.take_subset _ _ <| hu

/-- A parenthesis that nothing has opened: `print nil )` could have been put right
until then. -/
theorem Program.first_mistake_parenthesis :
    let tokens : List Token :=
      [.madeUp .kwPrint "print" 1, .madeUp .kwNil "nil" 1, .madeUp .rightParen ")" 1]
    (∀ t ∈ tokens, t.kind ≠ .eof) ∧ ¬ StructurallyClean tokens ∧
    (Program.ofTokens tokens).diagnostics.find? (·.IsStructural)
      = some (Complaint.mk (.missing .printEnd) (.madeUp .rightParen ")" 1)).diagnostic ∧
    (∃ more, (∀ t ∈ more, t.kind ≠ .eof) ∧ StructurallyClean (tokens.take 2 ++ more)) ∧
    ∀ more, ¬ StructurallyClean (tokens ++ more) := by
  intro tokens
  have heof : ∀ t ∈ tokens, t.kind ≠ .eof := by decide
  have hmistake : ¬ StructurallyClean tokens := by decide
  have hfirst : (Program.ofTokens tokens).diagnostics.find? (·.IsStructural)
      = some (Complaint.mk (.missing .printEnd) (.madeUp .rightParen ")" 1)).diagnostic := by
    decide +kernel
  obtain ⟨k, hk, ⟨cause, hfound⟩, hmore, hhopeless⟩ := Program.first_mistake heof hmistake
  -- the complaint tells which of the four places it is
  have hplace : k = 2 := by
    have hlocation : (Token.madeUp .rightParen ")" 1).location
        = (tokens[k]?.getD (endMarker tokens)).location :=
      Option.some.inj (congrArg (Option.bind · Diagnostic.location) (hfirst.symm.trans hfound))
    have hk : k ≤ 3 := hk
    rcases (by omega : k = 0 ∨ k = 1 ∨ k = 2 ∨ k = 3) with rfl | rfl | rfl | rfl
    · exact absurd hlocation (by decide +kernel)
    · exact absurd hlocation (by decide +kernel)
    · rfl
    · exact absurd hlocation (by decide +kernel)
  rw [hplace] at hmore hhopeless
  exact ⟨heof, hmistake, hfirst, hmore, hhopeless (by decide)⟩

end Lox
