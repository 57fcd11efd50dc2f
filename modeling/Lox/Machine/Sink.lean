/-
`Lox.Machine.Sink` -- where printed text goes.

A sink stores bytes. It may have room for only so many: then it stores what still
fits and reports that it is full, and it keeps reporting that for every byte
more. It may also refuse to be flushed. What it stored can be read as text at
any time, even if the last character was cut.
-/

set_option autoImplicit false

namespace Lox

/-- A place for printed text. No `capacity` means room for any amount. -/
structure Sink where
  stored : ByteArray
  capacity : Option Nat
  flushFails : Bool

namespace Sink

/-- A sink with room for any amount. -/
def unlimited : Sink := ⟨.empty, none, false⟩

/-- What a full sink reports. -/
def fullMessage : String := "sink full"

/-- What a sink reports that cannot be flushed. -/
def flushMessage : String := "flush failed"

/-- Whether a sink has room for so many bytes more. -/
def fits (s : Sink) (more : Nat) : Bool :=
  match s.capacity with
  | some capacity => s.stored.size + more ≤ capacity || more == 0
  | none => true

/-- The sink with as much of a text as fits. -/
def write (s : Sink) (text : String) : Sink :=
  match s.capacity with
  | some capacity =>
    { s with stored := s.stored ++ text.toUTF8.extract 0 (capacity - s.stored.size) }
  | none => { s with stored := s.stored ++ text.toUTF8 }

/-- The sink emptied; what it has stored still counts against its room. -/
def cleared (s : Sink) : Sink :=
  { s with stored := .empty, capacity := s.capacity.map (· - s.stored.size) }

/-- Bytes as text, if at most `cut` of the last ones have to be dropped for it.
Dropped bytes, being the beginning of a character, show as one replacement
character. -/
def decodeDropping (bytes : ByteArray) (cut dropped : Nat) : String :=
  match String.fromUTF8? (bytes.extract 0 (bytes.size - dropped)) with
  | some text => if dropped = 0 then text else text.push '\ufffd'
  | none =>
    match cut with
    | 0 => ""
    | cut + 1 => decodeDropping bytes cut (dropped + 1)

/-- What a sink has stored, as text. Only whole texts are written to it, so at
most the last three bytes belong to a cut character. -/
def contents (s : Sink) : String :=
  decodeDropping s.stored 3 0

end Sink

end Lox
