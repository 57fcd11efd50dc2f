/-
`Lox.Proofs.Likeness.Layout` -- only places depend on the layout.

Two texts with the same words may differ in their blanks, their comments and the ends of
their lines. Their tokens then have counterparts by number: the first token of the one is
the same word as the first of the other, and so on. So they are read alike, and what is
read from them runs alike. The trees are equal but for the spans in them, which the
evaluator hands on in failures and never looks at.
-/
import Lox.Proofs.Likeness.Reading
import Lox.Proofs.Likeness.Run

set_option autoImplicit false

namespace Lox

/-! ## Counterparts by number -/

/-- The tokens are one word, and they have one number in the two lists. -/
structure Matched (tokens tokens' : List Token) (t t' : Token) : Prop where
  word : t.SameWord t'
  number : ∃ i : Nat, tokens[i]? = some t ∧ tokens'[i]? = some t'

/-- Tokens that fit a role and are counterparts by number. -/
abbrev Matched.In (tokens tokens' : List Token) (role : Role) (t t' : Token) : Prop :=
  Grammar.Counterparts (Matched tokens tokens') role t t'

/-- Lists of the same words match word by word. -/
theorem forall₂_matched {tokens tokens' : List Token}
    (h : List.Forall₂ Token.SameWord tokens tokens') :
    List.Forall₂ (Matched tokens tokens') tokens tokens' := by
  obtain ⟨hlength, hwords⟩ := List.forall₂_iff_get.mp h
  refine List.forall₂_iff_get.mpr ⟨hlength, fun i hi hi' => ⟨hwords i hi hi', i, ?_, ?_⟩⟩
  · rw [List.getElem?_eq_getElem hi, List.get_eq_getElem]
  · rw [List.getElem?_eq_getElem hi', List.get_eq_getElem]

/-- A text has an end marker of its own. -/
theorem find?_eof_scan (source : String) :
    ((scan source).tokens.find? fun t => t.kind == .eof).isSome := by
  rw [List.find?_isSome]
  exact ⟨Token.endOf source.toList, List.mem_append_right _ (List.mem_singleton_self _), rfl⟩

/-! ## Failures -/

/-- A failure at a token of the text points at the token, or at the `this` that is missing
at a `super`. -/
inductive PointsAt (t : Token) : Token → Prop
  | token : PointsAt t t
  | missingThis : t.kind = .kwSuper → PointsAt t (.plain .kwThis "this" t.span)

/-- The failures point at tokens that are counterparts by number. -/
def SamePlace (tokens tokens' : List Token) (t t' : Token) : Prop :=
  ∃ u u', Matched tokens tokens' u u' ∧ PointsAt u t ∧ PointsAt u' t'

/-- The failures are of one sort with one message, at the same places of the two texts. -/
structure SameFailure (tokens tokens' : List Token) (failure failure' : Failure) : Prop where
  alike : failure.Alike (Matched.In tokens tokens') failure'
  message : failure.message = failure'.message
  token? : Option.Rel (SamePlace tokens tokens') failure.token? failure'.token?

namespace Failure.Alike

variable {tokens tokens' : List Token} {failure failure' : Failure}

/-- Failures that match have one message, as messages are made of lexemes. -/
theorem message (h : failure.Alike (Matched.In tokens tokens') failure') :
    failure.message = failure'.message := by
  cases h with
  | undefinedVariable hname =>
    exact congrArg (fun name => "Undefined variable '" ++ name ++ "'.") hname.1.word.lexeme
  | undefinedProperty hname =>
    exact congrArg (fun name => "Undefined property '" ++ name ++ "'.") hname.1.word.lexeme
  | _ => rfl

/-- They blame tokens at the same place of both lists. -/
theorem token? (h : failure.Alike (Matched.In tokens tokens') failure') :
    Option.Rel (SamePlace tokens tokens') failure.token? failure'.token? := by
  have hpoints : ∀ {role : Role} {t t' : Token}, Matched.In tokens tokens' role t t' →
      Option.Rel (SamePlace tokens tokens') (some t) (some t') :=
    fun ht => .some ⟨_, _, ht.1, .token, .token⟩
  cases h with
  | missingReceiver hkeyword =>
    have hkind : ∀ {t : Token}, Role.superclass.fits t.kind → t.kind = .kwSuper :=
      fun hfits => eq_of_beq hfits
    have hsame := hkeyword.1.word.kind
    exact .some ⟨_, _, hkeyword.1, .missingThis (hkind hkeyword.2),
      .missingThis (hsame ▸ hkind hkeyword.2)⟩
  | undefinedVariable ht => exact hpoints ht
  | undefinedProperty ht => exact hpoints ht
  | operand ht _ => exact hpoints ht
  | notCallable ht => exact hpoints ht
  | arity _ _ ht => exact hpoints ht
  | notAnInstance _ ht => exact hpoints ht
  | superclassNotClass ht => exact hpoints ht
  | host _ _ | output _ => exact .none

end Failure.Alike

/-- The runs ended in one way, and if they failed, at the same places. -/
def SameEnd (tokens tokens' : List Token) : Verdict Unit → Verdict Unit → Prop
  | .done _, .done _ | .outOfFuel, .outOfFuel => True
  | .failed failure, .failed failure' => SameFailure tokens tokens' failure failure'
  | _, _ => False

/-! ## Texts -/

/-- What is said of a diagnostic where its place in the text is not told. -/
def Diagnostic.words (d : Diagnostic) : Option Code × String × Option String :=
  (d.code, d.message, d.location)

/-- Complaints about the same words are told in the same words. -/
theorem Grammar.Complaint.Alike.words {R : Token → Token → Prop}
    (hR : ∀ t t', R t t' → t.SameWord t') {k k' : Complaint} (h : k.Alike R k') :
    k.diagnostic.words = k'.diagnostic.words := by
  have hlocation := (hR _ _ h.token).location
  unfold Diagnostic.words Complaint.diagnostic
  simp only [Diagnostic.withLabel, Diagnostic.withLocation, Diagnostic.withCode, Diagnostic.bare]
  rw [h.cause, hlocation]

open Machine

/-- **Only places depend on the layout.** If two texts without faults consist of the same
words, they are read as statements that are equal but for the spans of their tokens, with
the same complaints about them: of the same codes, in the same words, about the same
tokens. On a machine as every program finds it, with the same reading of the clock and the
same sink, the runs go in step, so that one of them comes to an end only if the other does.
They print the same bytes, and both come to the end of the program, or fail in one way,
with one message, at tokens that have one number in their texts. -/
theorem Program.layout_is_immaterial {source source' : String}
    (hfaults : (scan source).diagnostics = []) (hfaults' : (scan source').diagnostics = [])
    (hwords : List.Forall₂ Token.SameWord (scan source).tokens (scan source').tokens) :
    List.Forall₂ (Stmt.Alike (Matched.In (scan source).tokens (scan source').tokens))
        (Program.ofSource source).stmts (Program.ofSource source').stmts ∧
      (Program.ofSource source).diagnostics.map Diagnostic.words
        = (Program.ofSource source').diagnostics.map Diagnostic.words ∧
      ∀ clock sink fuel,
        let result := (boot clock sink).perform (runProgram fuel (Program.ofSource source).stmts)
        let result' := (boot clock sink).perform (runProgram fuel (Program.ofSource source').stmts)
        result.2.sink = result'.2.sink ∧
          SameEnd (scan source).tokens (scan source').tokens result.1 result'.1 := by
  have hmatched := forall₂_matched hwords
  have hword : ∀ t t', Matched (scan source).tokens (scan source').tokens t t' → t.SameWord t' :=
    fun _ _ h => h.word
  have hend := Grammar.endMarker_matched hword hmatched (find?_eof_scan source)
  obtain ⟨hstmts, hcomplaints⟩ := Grammar.read_alike hword hmatched hend
  refine ⟨hstmts, ?_, fun clock sink fuel => ?_⟩
  · unfold Program.ofSource Program.ofTokens
    dsimp only
    rw [hfaults, hfaults', List.nil_append, List.nil_append, List.map_map, List.map_map,
      ← List.forall₂_eq_eq_eq, List.forall₂_map_left_iff, List.forall₂_map_right_iff]
    exact hcomplaints.imp fun _ _ h => h.words hword
  · intro result result'
    -- one bound serves both runs: they are out of it at the same step
    have hrun := runProgram_parallel (fun _ _ _ h => hword _ _ h.1) fuel hstmts
    have hends : Verdict.Alike _ Eq result.1 result'.1 ∧ result.2.Alike _ result'.2 :=
      (hrun _ _ (boot_alike clock sink)).perform
    refine ⟨hends.2.sink, ?_⟩
    have hverdict := hends.1
    generalize result.1 = verdict at hverdict
    generalize result'.1 = verdict' at hverdict
    cases hverdict with
    | done _ => trivial
    | failed h => exact ⟨h, h.message, h.token?⟩
    | outOfFuel => trivial

/-- Words without a value are told by their kind and their text. -/
theorem forall₂_sameWord_of_plain {tokens tokens' : List Token}
    (h : tokens.map (fun t => (t.kind, t.lexeme)) = tokens'.map fun t => (t.kind, t.lexeme))
    (hplain : ∀ t ∈ tokens, t.literal = none) (hplain' : ∀ t ∈ tokens', t.literal = none) :
    List.Forall₂ Token.SameWord tokens tokens' := by
  rw [← List.forall₂_eq_eq_eq, List.forall₂_map_left_iff, List.forall₂_map_right_iff] at h
  induction h with
  | nil => exact .nil
  | cons hword _ ih =>
    obtain ⟨hnone, hplain⟩ := List.forall_mem_cons.mp hplain
    obtain ⟨hnone', hplain'⟩ := List.forall_mem_cons.mp hplain'
    obtain ⟨hkind, hlexeme⟩ := Prod.mk.inj hword
    exact .cons ⟨hkind, hlexeme, hnone.trans hnone'.symm⟩ (ih hplain hplain')

/-- Three statements on one line, and on three with a remark. The last one fails, in both texts
at the name behind the dot, and behind what has been printed. -/
theorem Program.layout_is_immaterial_remark :
    let source := "var a=nil;print a;a.b();"
    let source' := "var a = nil;\n// nothing yet\nprint a;a . b ( ) ;\n"
    let report : Verdict Unit → Option (String × Option Nat) := fun verdict => match verdict with
      | .failed failure => some (failure.report, failure.token?.map fun t => t.span.start)
      | _ => none
    (scan source).diagnostics = [] ∧ (scan source').diagnostics = [] ∧
      List.Forall₂ Token.SameWord (scan source).tokens (scan source').tokens ∧
      (scan source).tokens ≠ (scan source').tokens ∧
      List.Forall₂ (Stmt.Alike (Matched.In (scan source).tokens (scan source').tokens))
        (Program.ofSource source).stmts (Program.ofSource source').stmts ∧
      (∀ clock sink fuel,
        let result := (boot clock sink).perform (runProgram fuel (Program.ofSource source).stmts)
        let result' := (boot clock sink).perform (runProgram fuel (Program.ofSource source').stmts)
        result.2.sink = result'.2.sink ∧
          SameEnd (scan source).tokens (scan source').tokens result.1 result'.1) ∧
      (Program.ofSource source').stmts.map Stmt.render
        = ["(var a nil)", "(print a)", "(expr (call (. a b)))"] ∧
      let result := (boot 0 .unlimited).perform (runProgram 20 (Program.ofSource source).stmts)
      let result' := (boot 0 .unlimited).perform (runProgram 20 (Program.ofSource source').stmts)
      result.2.sink.contents = "nil\n" ∧
        report result.1 = some ("Only instances have properties.\n[line 1]", some 20) ∧
        report result'.1 = some ("Only instances have properties.\n[line 3]", some 40) := by
  intro source source' report
  have hfaults : (scan source).diagnostics = [] := by decide +kernel
  have hfaults' : (scan source').diagnostics = [] := by decide +kernel
  have hwords : List.Forall₂ Token.SameWord (scan source).tokens (scan source').tokens :=
    forall₂_sameWord_of_plain (by decide +kernel) (by decide +kernel) (by decide +kernel)
  have hdiffer : (scan source).tokens ≠ (scan source').tokens := fun h =>
    absurd (congrArg (List.map Token.span) h) (by decide +kernel)
  have hspec := Program.layout_is_immaterial hfaults hfaults' hwords
  exact ⟨hfaults, hfaults', hwords, hdiffer, hspec.1, hspec.2.2, by decide +kernel,
    by decide +kernel, by decide +kernel, by decide +kernel⟩

end Lox
