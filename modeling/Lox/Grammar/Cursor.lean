/-
`Lox.Grammar.Cursor` -- reading tokens one by one.

The cursor holds the tokens that have not been read, none of which is an end
marker, and the marker itself, which is what a complaint points at when the list
is empty. So the tokens only ever get fewer, and the marker is never taken.

A reader either returns something, or gives up with the cursor where it was
noticed that the tokens do not fit. A third outcome, that the bound on its depth
was too low, is kept apart from both: `Lox.Grammar.Program` starts with a bound
that the tokens cannot exhaust.

Readers are put together from few steps, and a reader carries the evidence that
it is (`Built`). What every step does is therefore what every reader does: it
looks at no token but the next one, passes over tokens only in order, leaves the
complaints that were made before it alone, and returns to the depth it began at.
-/
import Lox.Grammar.Complaint

set_option autoImplicit false

namespace Lox.Grammar

/-! ## State and outcomes -/

/-- How far the reading has come. `depth` counts the function bodies around the
next token. -/
structure Cursor where
  rest : List Token
  finish : Token
  depth : Nat
  complaints : Array Complaint

namespace Cursor

/-- The token that a complaint about this place points at. -/
def current (c : Cursor) : Token :=
  c.rest.headD c.finish

/-- The cursor with a further complaint. -/
def complain (c : Cursor) (cause : Cause) (token : Token) : Cursor :=
  { c with complaints := c.complaints.push ⟨cause, token⟩ }

end Cursor

/-- Why a reader returned nothing. -/
inductive Halt where
  /-- The tokens do not fit; the complaint has been made. -/
  | givenUp
  /-- The bound on the depth was too low. -/
  | outOfFuel
deriving DecidableEq, Repr

/-- How a reader ends: with a value or without one, and where. What it has read
and complained about stays, also when it gives up. -/
abbrev Outcome (α : Type) := EStateM.Result Halt Cursor α

/-- The outcome with the cursor changed. -/
def Outcome.moved {α : Type} (move : Cursor → Cursor) : Outcome α → Outcome α
  | .ok a c => .ok a (move c)
  | .error halt c => .error halt (move c)

/-! ## Steps -/

namespace Step

variable {α β : Type}

/-- Goes on with the value that the first step returns, if it returns one. -/
def bind (x : Cursor → Outcome α) (f : α → Cursor → Outcome β) (c : Cursor) : Outcome β :=
  match x c with
  | .ok a c => f a c
  | .error halt c => .error halt c

/-- Whether a token of a certain kind stands next. -/
def nextIs (test : TokenKind → Bool) (c : Cursor) : Outcome Bool :=
  match c.rest with
  | [] => .ok false c
  | token :: _ => .ok (test token.kind) c

/-- Takes the next token if there is a use for its kind, and returns both. -/
def take (use : TokenKind → Option α) (c : Cursor) : Outcome (Option (Token × α)) :=
  match c.rest with
  | [] => .ok none c
  | token :: rest =>
    match use token.kind with
    | some a => .ok (some (token, a)) { c with rest }
    | none => .ok none c

/-- Takes the next token if it is a number or a string, and returns what it
denotes. A token that does not say so has been taken when that is noticed, so the
recovery passes over one more. -/
def takeLiteral (c : Cursor) : Outcome (Option Literal) :=
  match c.rest with
  | [] => .ok none c
  | token :: rest =>
    if token.kind.isLiteral then
      match token.literal with
      | some literal => .ok (some literal) { c with rest }
      | none => .error .givenUp ({ c with rest }.complain .noLiteral token)
    else .ok none c

/-- Whether a function body is being read. -/
def inFunction (c : Cursor) : Outcome Bool :=
  .ok (c.depth != 0) c

/-- Makes a complaint about a token and goes on. -/
def complain (cause : Cause) (token : Token) (c : Cursor) : Outcome Unit :=
  .ok () (c.complain cause token)

/-- Makes a complaint about this place and goes on. -/
def complainHere (cause : Cause) (c : Cursor) : Outcome Unit :=
  .ok () (c.complain cause c.current)

/-- Makes a complaint about this place and gives up. -/
def giveUpHere (cause : Cause) (c : Cursor) : Outcome α :=
  .error .givenUp (c.complain cause c.current)

/-- The tokens after `last` from the next boundary on: behind a token that ends
a statement, or before one that starts a statement. -/
def fromBoundary (last : Token) : List Token → List Token
  | [] => []
  | token :: rest =>
    if last.kind.endsStatement || token.kind.startsStatement then token :: rest
    else fromBoundary token rest

/-- The tokens at which the reading resumes after a mistake. At least one is
passed over, so that the same mistake is not met again. -/
def resume : List Token → List Token
  | [] => []
  | token :: rest => fromBoundary token rest

/-- Reads a declaration; if the reader gives up, resumes at the next boundary
without it. -/
def recovering (read : Cursor → Outcome α) (c : Cursor) : Outcome (Option α) :=
  match read c with
  | .ok a c => .ok (some a) c
  | .error .givenUp c => .ok none { c with rest := resume c.rest }
  | .error .outOfFuel c => .error .outOfFuel c

/-- Reads the body of a function, with the depth one higher until its end,
whether it is a good one or not. -/
def insideBody (read : Cursor → Outcome α) (c : Cursor) : Outcome α :=
  Outcome.moved (fun c => { c with depth := c.depth - 1 })
    (read { c with depth := c.depth + 1 })

end Step

/-- The functions of the cursor that are put together from steps. Whoever gives
up complains about the structure; a complaint in passing is of another sort. -/
inductive Built : {α : Type} → (Cursor → Outcome α) → Prop
  | pure {α : Type} (a : α) : Built (.ok a)
  | bind {α β : Type} {x : Cursor → Outcome α} {f : α → Cursor → Outcome β} :
    Built x → (∀ a, Built (f a)) → Built (Step.bind x f)
  | outOfFuel {α : Type} : Built (.error .outOfFuel : Cursor → Outcome α)
  | nextIs (test : TokenKind → Bool) : Built (Step.nextIs test)
  | take {α : Type} (use : TokenKind → Option α) : Built (Step.take use)
  | takeLiteral : Built Step.takeLiteral
  | inFunction : Built Step.inFunction
  | complain {cause : Cause} (token : Token) :
    cause.isStructural = false → Built (Step.complain cause token)
  | complainHere {cause : Cause} :
    cause.isStructural = false → Built (Step.complainHere cause)
  | giveUpHere {α : Type} {cause : Cause} :
    cause.isStructural = true → Built (Step.giveUpHere cause : Cursor → Outcome α)
  | recovering {α : Type} {read : Cursor → Outcome α} :
    Built read → Built (Step.recovering read)
  | insideBody {α : Type} {read : Cursor → Outcome α} :
    Built read → Built (Step.insideBody read)

/-! ## Readers -/

/-- A reader of tokens. -/
structure TokenReader (α : Type) where
  run : Cursor → Outcome α
  built : Built run

namespace TokenReader

variable {α : Type}

instance : Monad TokenReader where
  pure a := ⟨.ok a, .pure a⟩
  bind x f := ⟨Step.bind x.run fun a => (f a).run, .bind x.built fun a => (f a).built⟩

end TokenReader

section Readers

variable {α : Type}

/-- Ends the reading because the bound on the depth was too low. -/
def outOfFuel : TokenReader α := ⟨.error .outOfFuel, .outOfFuel⟩

/-- Whether a token of a certain kind stands next. -/
def nextIs (test : TokenKind → Bool) : TokenReader Bool := ⟨Step.nextIs test, .nextIs test⟩

/-- Whether the next token is of a kind. -/
def at? (kind : TokenKind) : TokenReader Bool := nextIs (· == kind)

/-- Takes the next token if there is a use for its kind, and returns both. -/
def take (use : TokenKind → Option α) : TokenReader (Option (Token × α)) :=
  ⟨Step.take use, .take use⟩

/-- Takes the next token if its kind passes a test. -/
def takeIf (test : TokenKind → Bool) : TokenReader (Option Token) :=
  return (← take fun kind => if test kind then some () else none).map Prod.fst

/-- Takes the next token if it is of a kind. -/
def take? (kind : TokenKind) : TokenReader (Option Token) := takeIf (· == kind)

/-- Takes the next token if it is of a kind, and says whether it was. -/
def skip? (kind : TokenKind) : TokenReader Bool :=
  return (← take? kind).isSome

/-- Takes the next token if it is a number or a string, and returns what it
denotes. -/
def takeLiteral : TokenReader (Option Literal) := ⟨Step.takeLiteral, .takeLiteral⟩

/-- Whether a function body is being read. -/
def inFunction : TokenReader Bool := ⟨Step.inFunction, .inFunction⟩

/-- Makes a complaint about a token and goes on. -/
def complain (cause : Cause) (token : Token) (h : cause.isStructural = false := by rfl) :
    TokenReader Unit :=
  ⟨Step.complain cause token, .complain token h⟩

/-- Makes a complaint about this place and goes on. -/
def complainHere (cause : Cause) (h : cause.isStructural = false := by rfl) :
    TokenReader Unit :=
  ⟨Step.complainHere cause, .complainHere h⟩

/-- Makes a complaint about this place and gives up. -/
def giveUpHere (cause : Cause) (h : cause.isStructural = true := by rfl) : TokenReader α :=
  ⟨Step.giveUpHere cause, .giveUpHere h⟩

/-- Takes the token that a slot asks for. -/
def expect (slot : Slot) : TokenReader Token := do
  match ← take? slot.kind with
  | some token => return token
  | none => giveUpHere (.missing slot)

/-- Reads a declaration; if the reader gives up, resumes at the next boundary
without it. -/
def recovering (read : TokenReader α) : TokenReader (Option α) :=
  ⟨Step.recovering read.run, .recovering read.built⟩

/-- Reads the body of a function, with the depth one higher until its end. -/
def insideBody (read : TokenReader α) : TokenReader α :=
  ⟨Step.insideBody read.run, .insideBody read.built⟩

end Readers

end Lox.Grammar
