/-
`Lox.Grammar.Program` -- reading whole programs.

A program is read to its first end marker: what follows it is not looked at, and
a list without one is given one. At the top of a program a closing brace closes
nothing, so it is a mistake like any other, and the reading always comes to the
end.
-/
import Lox.Grammar.Statement
import Lox.Token.Scan

set_option autoImplicit false

namespace Lox.Grammar

/-! ## Programs -/

/-- The declarations up to the end of the tokens. -/
def program (fuel : Nat) : TokenReader (List Stmt) :=
  match fuel with
  | 0 => outOfFuel
  | fuel + 1 => do
    if ← nextIs fun _ => true then
      let stmt ← declaration fuel
      return stmt.toList ++ (← program fuel)
    else return []

/-- The end marker of a list of tokens: the first one in it, or one made up on
the line of the last token. -/
def endMarker (tokens : List Token) : Token :=
  (tokens.find? fun t => t.kind == .eof).getD
    (.madeUp .eof "" (tokens.getLast?.elim 1 Token.line))

/-- The cursor at the beginning of a list of tokens. -/
def Cursor.start (tokens : List Token) : Cursor :=
  { rest := tokens.takeWhile fun t => t.kind != .eof
    finish := endMarker tokens
    depth := 0
    complaints := #[] }

/-- A bound on the depth of reading so many tokens. Fewer than thirty readers
call one another before one of them takes a token. -/
def fuelFor (tokens : Nat) : Nat :=
  32 * (tokens + 1)

/-- What was made of a list of tokens: the statements that fit, and complaints
about the rest. -/
structure Reading where
  program : List Stmt
  complaints : List Complaint

/-- The reading of a list of tokens. -/
def read (tokens : List Token) : Reading :=
  let start := Cursor.start tokens
  match (program (fuelFor start.rest.length)).run start with
  | .ok stmts c => ⟨stmts, c.complaints.toList⟩
  | .error _ c => ⟨[], c.complaints.toList⟩

end Lox.Grammar

namespace Lox

/-! ## Sources -/

/-- A program with everything that is wrong with it. -/
structure Program where
  stmts : List Stmt
  diagnostics : List Diagnostic

/-- The program that some tokens are. -/
def Program.ofTokens (tokens : List Token) : Program :=
  let reading := Grammar.read tokens
  ⟨reading.program, reading.complaints.map Grammar.Complaint.diagnostic⟩

/-- The program that a text is. What is wrong with its characters comes before
what is wrong with its tokens. -/
def Program.ofSource (source : String) : Program :=
  let found := scan source
  let program := Program.ofTokens found.tokens
  ⟨program.stmts, found.diagnostics ++ program.diagnostics⟩

end Lox
