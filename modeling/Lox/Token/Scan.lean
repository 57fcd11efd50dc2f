/-
`Lox.Token.Scan` -- the tokens of a text, with their places.

A place is a byte offset and a line, and reading a character moves both on. The
line is counted in a word of 32 bits, which is wide enough for all texts with
offsets in reach but one: a text of nothing but 2³² - 1 line feeds ends on line
zero (`Place.line_origin_after`). Going
through the pieces of a text from its beginning gives each token its span; what
is not a token and not a gap becomes a fault. The list of tokens always ends with
one end marker, at the end of the text.
-/
import Lox.Decimal.Numeral
import Lox.Diagnostic
import Lox.Token.Piece

set_option autoImplicit false

namespace Lox

/-! ## Places -/

/-- A place in a text: the bytes before it, and its line, counted from one. -/
structure Place where
  offset : Nat
  line : LineNumber
deriving DecidableEq, Repr

namespace Place

/-- The beginning of a text. -/
def origin : Place := ⟨0, .first⟩

/-- The place behind a character. -/
def next (p : Place) (c : Char) : Place :=
  ⟨p.offset + c.utf8Size, if c = '\n' then p.line.below 1 else p.line⟩

/-- The place behind some characters. -/
def after (p : Place) (cs : List Char) : Place :=
  cs.foldl next p

end Place

/-! ## Faults -/

/-- What can be wrong with a text before its tokens are looked at. -/
inductive ScanFault where
  | unexpectedCharacter
  | unterminatedString
deriving DecidableEq, Repr

namespace ScanFault

/-- The code of a fault. -/
def code : ScanFault → Code
  | unexpectedCharacter => .unexpectedCharacter
  | unterminatedString => .unterminatedString

/-- The message for a fault. -/
def message : ScanFault → String
  | unexpectedCharacter => "Unexpected character."
  | unterminatedString => "Unterminated string."

/-- The label that points at a fault. -/
def label : ScanFault → String
  | unexpectedCharacter => "unexpected character here"
  | unterminatedString => "string starts here"

/-- The diagnostic for a fault at a span. -/
def diagnostic (f : ScanFault) (span : Span) : Diagnostic :=
  ((Diagnostic.bare .lexing span f.message).withCode f.code).withLabel span f.label

end ScanFault

/-! ## Placing the pieces -/

namespace Piece

/-- The value that a lexeme denotes: a number its value, a string its characters
between the quotes, and anything else none. -/
def literal? (kind : TokenKind) (text : List Char) : Option Literal :=
  match kind with
  | .number => some (.number (Decimal.unsignedValue text))
  | .string => some (.text (String.ofList text.tail.dropLast))
  | _ => none

/-- The token that a piece is, if it begins at `p`. -/
def token? (p : Place) : Piece → Option Token
  | token kind text =>
    some ⟨kind, String.ofList text, literal? kind text,
      .ofOffsets p.offset (p.after text).offset p.line⟩
  | _ => none

/-- The fault that a piece is, if it begins at `p`. A string that is not closed
is noticed only at the end of the text, and it is reported on that line. -/
def diagnostic? (p : Place) : Piece → Option Diagnostic
  | stray c =>
    some (ScanFault.unexpectedCharacter.diagnostic
      (.ofOffsets p.offset (p.next c).offset p.line))
  | unclosed text =>
    -- the line at the end of the text, not the one of the quote
    some (ScanFault.unterminatedString.diagnostic
      (.ofOffsets p.offset (p.after text).offset (p.after text).line))
  | _ => none

/-- The results of `f` for the pieces for which it has one, each at its place. -/
def collect {α : Type} (f : Place → Piece → Option α) (p : Place) : List Piece → List α
  | [] => []
  | piece :: rest =>
    (f p piece).toList ++ collect f (p.after piece.chars) rest

end Piece

/-! ## Scanning a text -/

/-- The end marker of a text. -/
def Token.endOf (source : List Char) : Token :=
  let p := Place.origin.after source
  .plain .eof "" (.point p.offset p.line)

/-- The tokens of a text and the diagnostics of what is none. -/
structure Scan where
  tokens : List Token
  diagnostics : List Diagnostic

/-- The scan of a text. -/
def scan (source : String) : Scan :=
  let found := pieces source.toList
  { tokens := Piece.collect Piece.token? .origin found ++ [Token.endOf source.toList]
    diagnostics := Piece.collect Piece.diagnostic? .origin found }

end Lox
