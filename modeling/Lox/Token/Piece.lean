/-
`Lox.Token.Piece` -- cutting a text into pieces.

A text is cut from left to right into the lexemes of tokens, gaps between them,
characters that begin nothing, and perhaps one string that is never closed. A
piece knows its characters but not its place; places are counted afterwards, in
`Lox.Token.Scan`. Nothing is dropped on the way: the characters of the pieces,
put together, are the text (`flatMap_chars_pieces`), so every character of a
program is accounted for.

A piece is as long as it can be. Names and numbers are ASCII, gaps are made of
any blank space and of comments, and a string runs to the next quote, over line
breaks and without escapes.
-/
import Lox.Text.Blank
import Lox.Token

set_option autoImplicit false

namespace Lox

/-! ## Pieces -/

/-- A piece of a text. -/
inductive Piece where
  /-- Blank space or a comment. -/
  | gap (text : List Char)
  /-- A lexeme. -/
  | token (kind : TokenKind) (text : List Char)
  /-- A character that begins nothing. -/
  | stray (c : Char)
  /-- A string without a closing quote, up to the end of the text. -/
  | unclosed (text : List Char)
deriving DecidableEq, Repr

namespace Piece

/-- The characters of a piece. -/
def chars : Piece → List Char
  | gap text => text
  | token _ text => text
  | stray c => [c]
  | unclosed text => text

/-! ## Character classes -/

/-- Whether a word can begin with this character. -/
def beginsWord (c : Char) : Bool :=
  c.isAlpha || c == '_'

/-- Whether a word can go on with this character. -/
def continuesWord (c : Char) : Bool :=
  c.isAlphanum || c == '_'

/-- The kind of a character that is a lexeme alone, whatever follows. -/
def ofSingle? : Char → Option TokenKind
  | '(' => some .leftParen
  | ')' => some .rightParen
  | '\x7b' => some .leftBrace
  | '\x7d' => some .rightBrace
  | ',' => some .comma
  | '.' => some .dot
  | '-' => some .minus
  | '+' => some .plus
  | ';' => some .semicolon
  | '*' => some .star
  | '/' => some .slash
  | _ => none

/-- The kinds of a character that is one lexeme alone and another together with
an equals sign. -/
def ofPaired? : Char → Option (TokenKind × TokenKind)
  | '!' => some (.bang, .bangEqual)
  | '=' => some (.equal, .equalEqual)
  | '<' => some (.less, .lessEqual)
  | '>' => some (.greater, .greaterEqual)
  | _ => none

/-! ## The first piece of a text -/

/-- A string whose opening quote has been read, and what follows it. -/
def afterQuote (cs : List Char) : Piece × List Char :=
  let body := cs.takeWhile (· != '"')
  match cs.dropWhile (· != '"') with
  | quote :: rest => (.token .string ('"' :: body ++ [quote]), rest)
  | [] => (.unclosed ('"' :: body), [])

/-- A number whose first digit has been read, and what follows it. A point
belongs to it only if a digit stands behind the point. -/
def afterDigit (c : Char) (cs : List Char) : Piece × List Char :=
  let whole := c :: cs.takeWhile Char.isDigit
  match cs.dropWhile Char.isDigit with
  -- two characters have to be seen: a point alone is a token of its own
  | '.' :: d :: rest =>
    if d.isDigit then
      (.token .number (whole ++ '.' :: d :: rest.takeWhile Char.isDigit),
        rest.dropWhile Char.isDigit)
    else (.token .number whole, '.' :: d :: rest)
  | rest => (.token .number whole, rest)

/-- A word whose first character has been read, and what follows it. -/
def afterLetter (c : Char) (cs : List Char) : Piece × List Char :=
  let word := c :: cs.takeWhile continuesWord
  (.token (.ofWord (String.ofList word)) word, cs.dropWhile continuesWord)

/-- An operator that an equals sign may extend, and what follows it. -/
def afterPaired (c : Char) (single paired : TokenKind) : List Char → Piece × List Char
  | '=' :: rest => (.token paired [c, '='], rest)
  | rest => (.token single [c], rest)

/-- The first piece of a text that begins with `c` and goes on with `cs`, and the
characters after it. Comments are looked for before the slash as an operator. -/
def first (c : Char) (cs : List Char) : Piece × List Char :=
  if Text.isBlank c then (.gap [c], cs)
  else if c = '/' ∧ cs.head? = some '/' then
    (.gap (c :: cs.takeWhile (· != '\n')), cs.dropWhile (· != '\n'))
  else if c = '"' then afterQuote cs
  else if c.isDigit then afterDigit c cs
  else if beginsWord c then afterLetter c cs
  else match ofSingle? c, ofPaired? c with
    | some kind, _ => (.token kind [c], cs)
    | none, some (single, paired) => afterPaired c single paired cs
    | none, none => (.stray c, cs)

/-! ## No character is lost -/

/-- A string takes its quote and what follows off the text, and drops nothing on the way. -/
private theorem afterQuote_chars (cs : List Char) :
    (afterQuote cs).1.chars ++ (afterQuote cs).2 = '"' :: cs := by
  have h : cs.takeWhile (· != '"') ++ cs.dropWhile (· != '"') = cs :=
    List.takeWhile_append_dropWhile
  unfold afterQuote
  split <;> rename_i hd <;> rw [hd] at h <;> simp [chars] at h ⊢ <;> exact h

/-- Neither does a number, with or without decimals. -/
private theorem afterDigit_chars (c : Char) (cs : List Char) :
    (afterDigit c cs).1.chars ++ (afterDigit c cs).2 = c :: cs := by
  have h : cs.takeWhile Char.isDigit ++ cs.dropWhile Char.isDigit = cs :=
    List.takeWhile_append_dropWhile
  unfold afterDigit
  split
  · rename_i d rest hd
    rw [hd] at h
    split <;> simp [chars, List.takeWhile_append_dropWhile, h]
  · simp [chars, h]

/-- Nor does a word. -/
private theorem afterLetter_chars (c : Char) (cs : List Char) :
    (afterLetter c cs).1.chars ++ (afterLetter c cs).2 = c :: cs := by
  simp [afterLetter, chars, List.takeWhile_append_dropWhile]

/-- Nor does an operator, whether it takes one character or two. -/
private theorem afterPaired_chars (c : Char) (single paired : TokenKind) (cs : List Char) :
    (afterPaired c single paired cs).1.chars ++ (afterPaired c single paired cs).2 = c :: cs := by
  unfold afterPaired
  split <;> simp [chars]

/-- A text is its first piece and what follows it. -/
theorem chars_first_append (c : Char) (cs : List Char) :
    (first c cs).1.chars ++ (first c cs).2 = c :: cs := by
  unfold first
  split
  · simp [chars]
  split
  · simp [chars, List.takeWhile_append_dropWhile]
  split
  · rename_i h
    rw [h]
    exact afterQuote_chars cs
  split
  · exact afterDigit_chars c cs
  split
  · exact afterLetter_chars c cs
  split
  · simp [chars]
  · exact afterPaired_chars c _ _ cs
  · simp [chars]

/-- Each piece holds the character it begins with. -/
theorem chars_first_ne_nil (c : Char) (cs : List Char) : (first c cs).1.chars ≠ [] := by
  unfold first afterQuote afterDigit afterLetter afterPaired
  repeat' split
  all_goals simp [chars]

/-- What follows the first piece is shorter than the text. -/
theorem length_first_lt (c : Char) (cs : List Char) :
    (first c cs).2.length < (c :: cs).length := by
  have h := congrArg List.length (chars_first_append c cs)
  have hne := List.length_pos_iff.mpr (chars_first_ne_nil c cs)
  rw [List.length_append] at h
  omega

end Piece

/-! ## All pieces of a text -/

/-- The pieces of a text, in order. -/
def pieces : List Char → List Piece
  | [] => []
  | c :: cs => (Piece.first c cs).1 :: pieces (Piece.first c cs).2
termination_by cs => cs.length
decreasing_by exact Piece.length_first_lt c cs

/-- The pieces of a text are the text, cut. -/
theorem flatMap_chars_pieces (cs : List Char) : (pieces cs).flatMap Piece.chars = cs := by
  fun_induction pieces cs with
  | case1 => rfl
  | case2 c cs ih => rw [List.flatMap_cons, ih, Piece.chars_first_append]

end Lox
