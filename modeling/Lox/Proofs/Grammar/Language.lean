/-
`Lox.Proofs.Grammar.Language` -- the programs nothing is wrong with.

Soundness and completeness together say which programs those are: the ones that
the grammar derives and in which the limits are kept. They come out as the trees
of their derivations, so a program has only one derivation within the limits.

The grammar knows a loop with clauses, and trees do not. What the tree of such a
loop is can be said in the language itself: it is that of a loop which has the
first clause before it and the last one behind its body, in braces where there
is more than one statement (`asWhile`).
-/
import Lox.Proofs.Grammar.Completeness

set_option autoImplicit false

namespace Lox.Grammar

/-! ## Loops with clauses, written without them -/

section Loops

/-- Tokens between braces. Of the tokens that are written down only the kinds
matter, and `mark` gives one of each kind. -/
def braced (mark : TokenKind → Token) (w : List Token) : List Token :=
  mark .leftBrace :: (w ++ [mark .rightBrace])

/-- The tokens of one round of such a loop: the body, and the increment behind it
if there is one. -/
def roundTokens (mark : TokenKind → Token) (increment : Option (List Token))
    (body : List Token) : List Token :=
  match increment with
  | some w => braced mark (body ++ (w ++ [mark .semicolon]))
  | none => body

/-- The tokens of a loop that does what a loop with clauses does: the first clause
with its semicolon, the condition and the increment, as far as they are there, and
the body. Where no condition is given, one that always holds is written down. -/
def asWhile (mark : TokenKind → Token) (first condition increment : Option (List Token))
    (body : List Token) : List Token :=
  let loop := mark .kwWhile :: mark .leftParen ::
    (condition.getD [mark .kwTrue] ++ mark .rightParen :: roundTokens mark increment body)
  match first with
  | some w => braced mark (w ++ loop)
  | none => loop

variable {mark : TokenKind → Token} {u v w x : List Token} {first : Option Stmt}
  {condition increment : Option Expr} {body stmt : Stmt} {ending : Ending}

/-- A first clause that is there is a declaration. -/
theorem Derives.of_firstClause (h : Derives .firstClause w (some stmt)) :
    Derives .declaration w stmt := by
  cases h with
  | varClause hw => exact .variableDeclaration hw
  | expressionClause hw => exact .statement (.simple hw)

/-- An optional expression that is there is an expression. -/
theorem Derives.of_optional {e : Expr} (h : Derives .optional w (some e)) :
    Derives .expression w e := by
  cases h with
  | present hw => exact hw

/-- Two declarations between braces. -/
theorem derives_braced {u : List Token} {stmt stmt' : Stmt} (hmark : ∀ kind, (mark kind).kind = kind)
    (hu : Derives .declaration u stmt) (hw : Derives .declaration w stmt') :
    Derives (.statement .complete) (braced mark (u ++ w)) (.block [stmt, stmt']) := by
  have hboth : Derives .declarations (u ++ (w ++ [])) [stmt, stmt'] :=
    .declarations hu (.declarations hw .noDeclarations)
  rw [List.append_nil] at hboth
  exact .block (hmark .leftBrace) hboth (hmark .rightBrace)

/-- A call without operators is an expression. -/
theorem Derives.expression_of_call {e : Expr} (h : Derives .call w e) :
    Derives .expression w e := by
  have hproduct : Derives (.binary .product) w e := .single (.innermost (.unsigned h))
  have hsum : Derives (.binary .sum) w e := .single (.tighter (by decide) hproduct)
  have hcomparison : Derives (.binary .comparison) w e := .single (.tighter (by decide) hsum)
  have hequality : Derives (.binary .equality) w e := .single (.tighter (by decide) hcomparison)
  have hand : Derives (.binary .and) w e := .single (.tighter (by decide) hequality)
  exact .value (.single (.tighter (by decide) hand))

/-- The tokens of one round are a statement: the body, or a block of the body and the increment.
-/
theorem derives_roundTokens (hmark : ∀ kind, (mark kind).kind = kind)
    (hw : Derives .optional w increment) (hx : Derives (.statement ending) x body) :
    ∃ ending', (ending' = ending ∨ ending' = .complete) ∧
      Derives (.statement ending') (roundTokens mark (increment.map fun _ => w) x)
        (increment.elim body fun step => .block [body, .expression step]) := by
  cases increment with
  | none => exact ⟨ending, .inl rfl, hx⟩
  | some step =>
    have hstep : Derives .expressionStatement (w ++ [mark .semicolon]) (.expression step) :=
      .expressionStatement hw.of_optional (hmark .semicolon)
    exact ⟨.complete, .inr rfl, derives_braced hmark (.statement hx) (.statement (.simple hstep))⟩

/-- A loop with clauses stands for what the loop without them stands for that is
written down for it. That one can stand wherever the other can: it ends in the
same way, or in braces. -/
theorem derives_asWhile (hmark : ∀ kind, (mark kind).kind = kind)
    (hu : Derives .firstClause u first) (hv : Derives .optional v condition)
    (hw : Derives .optional w increment) (hx : Derives (.statement ending) x body) :
    ∃ ending', (ending' = ending ∨ ending' = .complete) ∧
      Derives (.statement ending')
        (asWhile mark (first.map fun _ => u) (condition.map fun _ => v)
          (increment.map fun _ => w) x)
        (.forLoop first condition increment body) := by
  have hcondition : Derives .expression ((condition.map fun _ => v).getD [mark .kwTrue])
      (condition.getD (.literal (.bool true))) := by
    cases condition with
    | none => exact Derives.expression_of_call (.callee (.trueValue (hmark .kwTrue)))
    | some e => exact hv.of_optional
  obtain ⟨ending', hending, hround⟩ := derives_roundTokens hmark hw hx
  have hloop := Derives.while (hmark .kwWhile) (hmark .leftParen) hcondition (hmark .rightParen)
    hround
  cases first with
  | none => cases increment <;> exact ⟨ending', hending, hloop⟩
  | some stmt =>
    have hboth := derives_braced hmark hu.of_firstClause (.statement hloop)
    cases increment <;> exact ⟨.complete, .inr rfl, hboth⟩

end Loops

/-! ## Programs -/

/-- What is read without a complaint is derived: the tokens up to the first end
marker. -/
theorem derives_of_complaints_nil {tokens : List Token} (h : (read tokens).complaints = []) :
    Derives .declarations (Cursor.start tokens).rest (read tokens).program ∧
      Stmt.AllProper false (read tokens).program := by
  obtain ⟨stmts, c', hrest, hrun⟩ := exists_program_run (Cursor.start tokens)
  rw [read_eq_of_run hrun] at h ⊢
  have hrun' := hrun _ (Nat.le_refl _)
  have hadv := TokenReader.advances hrun'
  have hcomplaints : c'.complaints = #[] := Array.toList_eq_nil_iff.mp h
  -- nothing was complained about, so only the tokens have changed
  have htakes : Takes (program (fuelFor (Cursor.start tokens).rest.length)) (Cursor.start tokens)
      (Cursor.start tokens).rest stmts [] := by
    have hc' : c' = { Cursor.start tokens with rest := [] } := by
      obtain ⟨rest, finish, depth, complaints⟩ := c'
      simp only [Cursor.mk.injEq]
      exact ⟨hrest, hadv.finish, hadv.depth, hcomplaints⟩
    rw [Takes, ← hc']
    exact hrun'
  obtain ⟨w, hw, hderives, hproper⟩ := program_sound htakes
  rw [List.append_nil] at hw
  rw [hw]
  exact ⟨hderives, hproper⟩

/-- A program that nothing is complained about is derived. -/
theorem derives_of_read {tokens : List Token} (heof : ∀ t ∈ tokens, t.kind ≠ .eof)
    (h : (read tokens).complaints = []) :
    Derives .declarations tokens (read tokens).program ∧
      Stmt.AllProper false (read tokens).program := by
  have hderives := derives_of_complaints_nil h
  rwa [start_rest heof] at hderives

/-- What is derived, up to the first end marker, is read as its tree, with a complaint about
each limit that is not kept. -/
theorem exists_complaints_of_derives {tokens : List Token} {stmts : List Stmt}
    (hderives : Derives .declarations (Cursor.start tokens).rest stmts) :
    ∃ complaints : Array Complaint, read tokens = ⟨stmts, complaints.toList⟩ ∧
      causesOf complaints = Stmt.breachesEach false stmts := by
  obtain ⟨n, new, hnew, hn⟩ := (hderives.tolerated (Cursor.start tokens)).2
  have hrun := hn (max n (fuelFor (Cursor.start tokens).rest.length)) (Nat.le_max_left _ _) #[]
  rw [Array.empty_append] at hrun
  exact ⟨new, read_eq_of_run_at (Nat.le_max_right _ _) hrun, hnew⟩

/-- A program that is derived is read as its tree, and nothing is complained
about if the limits are kept in it. -/
theorem read_of_derives {tokens : List Token} {stmts : List Stmt}
    (heof : ∀ t ∈ tokens, t.kind ≠ .eof) (hderives : Derives .declarations tokens stmts)
    (hproper : Stmt.AllProper false stmts) : read tokens = ⟨stmts, []⟩ := by
  have hstart : Derives .declarations (Cursor.start tokens).rest stmts := by
    rwa [start_rest heof]
  obtain ⟨complaints, hread, hcauses⟩ := exists_complaints_of_derives hstart
  rw [Stmt.breachesEach_of_proper false stmts hproper] at hcauses
  rw [hread, eq_empty_of_causesOf hcauses]

end Lox.Grammar

namespace Lox

open Grammar

/-- **The language.** Nothing is wrong with a list of tokens exactly if the grammar
derives it as a program in which the limits are kept, and then the statements are
the trees of that derivation. In such a derivation every loop with clauses stands
for what a loop without them stands for, whose tokens are those of the clauses and
of the body with keywords, parentheses and braces written around them. -/
theorem Program.ofTokens_language {tokens : List Token} (heof : ∀ t ∈ tokens, t.kind ≠ .eof) :
    ((Program.ofTokens tokens).diagnostics = [] ↔
      ∃ stmts, Derives .declarations tokens stmts ∧ Stmt.AllProper false stmts) ∧
    (∀ stmts, Derives .declarations tokens stmts → Stmt.AllProper false stmts →
      (Program.ofTokens tokens).stmts = stmts) ∧
    ∀ (mark : TokenKind → Token) (u v w x : List Token) (first : Option Stmt)
      (condition increment : Option Expr) (body : Stmt) (ending : Ending),
      (∀ kind, (mark kind).kind = kind) → Derives .firstClause u first →
      Derives .optional v condition → Derives .optional w increment →
      Derives (.statement ending) x body →
      ∃ ending', (ending' = ending ∨ ending' = .complete) ∧
        Derives (.statement ending')
          (asWhile mark (first.map fun _ => u) (condition.map fun _ => v)
            (increment.map fun _ => w) x)
          (.forLoop first condition increment body) := by
  refine ⟨⟨fun hnone => ?_, ?_⟩, ?_, ?_⟩
  · have hcomplaints : (Grammar.read tokens).complaints = [] := List.map_eq_nil_iff.mp hnone
    exact ⟨_, derives_of_read heof hcomplaints⟩
  · rintro ⟨stmts, hderives, hproper⟩
    show (Grammar.read tokens).complaints.map Complaint.diagnostic = []
    rw [read_of_derives heof hderives hproper]
    rfl
  · intro stmts hderives hproper
    show (Grammar.read tokens).program = stmts
    rw [read_of_derives heof hderives hproper]
  · intro mark u v w x first condition increment body ending hmark hu hv hw hx
    exact derives_asWhile hmark hu hv hw hx

/-- Of two conditional statements the inner one has the `else`:
`if (nil) if (nil) nil; else nil;`. -/
theorem Program.ofTokens_language_else :
    let condition : List Token :=
      [.madeUp .kwIf "if" 1, .madeUp .leftParen "(" 1, .madeUp .kwNil "nil" 1,
        .madeUp .rightParen ")" 1]
    let simple : List Token := [.madeUp .kwNil "nil" 1, .madeUp .semicolon ";" 1]
    let otherwise : Token := .madeUp .kwElse "else" 1
    let tokens := condition ++ (condition ++ (simple ++ otherwise :: simple))
    let nil : Expr := .literal .nil
    (∀ t ∈ tokens, t.kind ≠ .eof) ∧
      (Program.ofTokens tokens).diagnostics = [] ∧
      (Program.ofTokens tokens).stmts =
        [.ifElse nil (.ifElse nil (.expression nil) (some (.expression nil))) none] := by
  intro condition simple otherwise tokens nil
  have hnil : Derives .expression [.madeUp .kwNil "nil" 1] nil :=
    Derives.expression_of_call (.callee (.nilValue rfl))
  have hsimple : Derives (.statement .complete) simple (.expression nil) :=
    .simple (.expressionStatement hnil rfl)
  -- the `if` whose branch ends with `;` is complete and takes the `else`
  have hinner : Derives (.statement .complete) (condition ++ (simple ++ otherwise :: simple))
      (.ifElse nil (.expression nil) (some (.expression nil))) :=
    Derives.ifElse (u := [.madeUp .kwNil "nil" 1]) (v := simple) rfl rfl hnil rfl hsimple rfl
      hsimple
  have houter : Derives (.statement .short) tokens
      (.ifElse nil (.ifElse nil (.expression nil) (some (.expression nil))) none) :=
    Derives.ifThen (u := [.madeUp .kwNil "nil" 1]) rfl rfl hnil rfl hinner
  have hderives : Derives .declarations (tokens ++ [])
      [.ifElse nil (.ifElse nil (.expression nil) (some (.expression nil))) none] :=
    .declarations (.statement houter) .noDeclarations
  rw [List.append_nil] at hderives
  have hproper : Stmt.AllProper false
      [.ifElse nil (.ifElse nil (.expression nil) (some (.expression nil))) none] := by
    simp [Stmt.AllProper, Stmt.Proper, Expr.Proper, nil]
  have heof : ∀ t ∈ tokens, t.kind ≠ .eof := by decide
  have hlanguage := Program.ofTokens_language heof
  exact ⟨heof, hlanguage.1.mpr ⟨_, hderives, hproper⟩, hlanguage.2.1 _ hderives hproper⟩

end Lox
