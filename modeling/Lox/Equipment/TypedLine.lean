/-
`Lox.Equipment.TypedLine` -- what a typed line says once its backspaces have acted.

A backspace takes back the cluster of characters before it: one press, one
character as a reader counts them. At the beginning of a line it does nothing.
A line without backspaces says what was typed (`afterBackspaces_of_not_mem`).
-/
import Lox.Equipment.Cluster

set_option autoImplicit false

namespace Lox.Equipment

/-- The character that takes another one back. -/
def backspace : Char := '\u0008'

/-- A line while it is typed: its characters and the sizes in bytes of its
clusters, both last one first. -/
structure TypedLine where
  chars : List Char
  sizes : List Nat
deriving Repr

namespace TypedLine

/-- The line before anything is typed. -/
def empty : TypedLine := ⟨[], []⟩

/-- The size of a cluster in bytes. It is kept in one byte, so a cluster of 256
bytes or more counts only for what is over. -/
def sizeOf (cluster : List Char) : Nat :=
  (String.ofList cluster).utf8ByteSize % 256

/-- Characters without so many bytes of them, the first ones. -/
def dropBytes : Nat → List Char → List Char
  | _, [] => []
  | n, c :: cs => if c.utf8Size ≤ n then dropBytes (n - c.utf8Size) cs else c :: cs

/-- The line without its last cluster. -/
def erase (line : TypedLine) : TypedLine :=
  match line.sizes with
  | [] => line
  | size :: sizes => ⟨dropBytes size line.chars, sizes⟩

/-- The line after one more cluster has been typed. -/
def type (line : TypedLine) (cluster : List Char) : TypedLine :=
  if cluster = [backspace] then line.erase
  else ⟨cluster.reverse ++ line.chars, sizeOf cluster :: line.sizes⟩

theorem chars_foldl_type (clusters : List (List Char)) (line : TypedLine)
    (h : [backspace] ∉ clusters) :
    (clusters.foldl type line).chars = clusters.flatten.reverse ++ line.chars := by
  induction clusters generalizing line with
  | nil => simp
  | cons cluster rest ih =>
    rw [List.mem_cons, not_or] at h
    rw [List.foldl_cons, ih _ h.2, type, if_neg (Ne.symm h.1)]
    simp

end TypedLine

/-- The characters of a line once its backspaces have acted. -/
def afterBackspaces (cs : List Char) : List Char :=
  ((clusters cs).foldl TypedLine.type .empty).chars.reverse

/-- Without a backspace, a line says what was typed. -/
theorem afterBackspaces_of_not_mem (cs : List Char) (h : backspace ∉ cs) :
    afterBackspaces cs = cs := by
  have hne : [backspace] ∉ clusters cs := fun hmem =>
    h (flatten_clusters cs ▸ List.mem_flatten_of_mem hmem (List.mem_singleton.mpr rfl))
  rw [afterBackspaces, TypedLine.chars_foldl_type _ _ hne, flatten_clusters]
  simp [TypedLine.empty]

/-- A backspace takes back an accent with its letter, and nothing from an empty
line. -/
example : afterBackspaces ['a', 'e', '\u0301', backspace, 'b'] = ['a', 'b']
    ∧ afterBackspaces [backspace, 'a'] = ['a'] := by
  decide +kernel

end Lox.Equipment
