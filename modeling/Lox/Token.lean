/-
`Lox.Token` -- the words of the language.

A token is a kind, the text it was written as, the value that text denotes if it
is a literal, and its place. Kind and text are separate fields: the grammar and
the evaluator look at the kind, and messages, names and printed trees at the
text, so a token that was put together by hand may call a plus sign `add`.
-/
import Lox.Span

set_option autoImplicit false

namespace Lox

/-! ## Kinds -/

/-- The kinds of tokens. `eof` marks the end of a text. -/
inductive TokenKind where
  | leftParen | rightParen | leftBrace | rightBrace
  | comma | dot | semicolon
  | minus | plus | slash | star
  | bang | bangEqual | equal | equalEqual | greater | greaterEqual | less | lessEqual
  | identifier | string | number
  | kwAnd | kwClass | kwElse | kwFalse | kwFun | kwFor | kwIf | kwNil | kwOr | kwPrint
  | kwReturn | kwSuper | kwThis | kwTrue | kwVar | kwWhile
  | eof
deriving DecidableEq, Repr, Inhabited

namespace TokenKind

/-- The reserved words with their kinds. -/
def keywords : List (String × TokenKind) :=
  [("and", kwAnd), ("class", kwClass), ("else", kwElse), ("false", kwFalse), ("fun", kwFun),
    ("for", kwFor), ("if", kwIf), ("nil", kwNil), ("or", kwOr), ("print", kwPrint),
    ("return", kwReturn), ("super", kwSuper), ("this", kwThis), ("true", kwTrue), ("var", kwVar),
    ("while", kwWhile)]

/-- The kind of a reserved word. Words are told apart by case. -/
def ofKeyword? (word : String) : Option TokenKind :=
  keywords.lookup word

/-- The kind of a word: that of the reserved word it is, or a name. -/
def ofWord (word : String) : TokenKind :=
  (ofKeyword? word).getD identifier

/-- Whether a token of this kind denotes a value, which it has to carry. -/
def isLiteral : TokenKind → Bool
  | string | number => true
  | _ => false

/-- Whether a token of this kind can only be the first of a statement. After a
mistake the reading of a program resumes before such a token. -/
def startsStatement : TokenKind → Bool
  | kwClass | kwFun | kwVar | kwFor | kwIf | kwWhile | kwPrint | kwReturn => true
  | _ => false

/-- Whether a token of this kind is the last of a statement. After a mistake the
reading of a program resumes behind such a token. -/
def endsStatement : TokenKind → Bool
  | semicolon => true
  | _ => false

end TokenKind

/-! ## Tokens -/

/-- The value that a token denotes by itself. -/
inductive Literal where
  | number (value : Float)
  | text (value : String)
deriving Repr

/-- A word of a program. A token is made with its span, and its line is always that of the span,
so it is not kept a second time (`Token.line`). -/
structure Token where
  kind : TokenKind
  lexeme : String
  literal : Option Literal
  span : Span
deriving Repr

namespace Token

/-- A token that denotes no value. -/
def plain (kind : TokenKind) (lexeme : String) (span : Span) : Token :=
  ⟨kind, lexeme, none, span⟩

/-- A token that stands in no text: empty, at the beginning of a line. -/
def madeUp (kind : TokenKind) (lexeme : String) (line : Nat) : Token :=
  plain kind lexeme (Span.point 0 line)

/-- The line a token is reported on, which is the one where it begins. -/
def line (t : Token) : Nat :=
  t.span.line

/-- The place of a token in words. -/
def location (t : Token) : String :=
  if t.kind = .eof then "at end" else "at '" ++ t.lexeme ++ "'"

end Token

end Lox
