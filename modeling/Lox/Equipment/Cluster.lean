/-
`Lox.Equipment.Cluster` -- the characters of a text as a reader counts them.

A text is cut into clusters, the runs of characters that a reader sees as one.
Whether a cluster goes on depends on the classes of its last character and of
the next one; in three cases it depends on more, on whether the cluster ends in
half of a flag, in a joined pictograph, or in a linked consonant. How a cluster
ends is therefore carried along as a `Tail`, and one pass from left to right is
enough. Nothing is lost: the clusters of a text, put together, are the text
(`flatten_clusters`).
-/
import Lox.Equipment.ClusterClass

set_option autoImplicit false

namespace Lox.Equipment

open Text

/-! ## How a cluster ends -/

/-- What a cluster ends in that may go on by itself. -/
inductive Tail where
  | plain
  /-- Half of a flag that has no other half. -/
  | halfFlag
  /-- A pictograph and marks on it. -/
  | pictograph
  /-- A pictograph, marks on it, and a joiner. -/
  | joinedPictograph
  /-- A consonant and marks on it. -/
  | consonant
  /-- A consonant and marks on it, one of which is a linker. -/
  | linkedConsonant
deriving DecidableEq, Repr

/-- How a cluster ends after one more character of a class. -/
def Tail.next : Tail → ClusterClass → Tail
  | .halfFlag, .flag => .plain
  | _, .flag => .halfFlag
  | _, .pictograph => .pictograph
  | _, .consonant => .consonant
  | .pictograph, .extending => .pictograph
  | .pictograph, .linker => .pictograph
  | .pictograph, .nonJoiner => .pictograph
  | .pictograph, .joiner => .joinedPictograph
  | .consonant, .linker => .linkedConsonant
  | .consonant, .extending => .consonant
  | .consonant, .joiner => .consonant
  | .linkedConsonant, .linker => .linkedConsonant
  | .linkedConsonant, .extending => .linkedConsonant
  | .linkedConsonant, .joiner => .linkedConsonant
  | _, _ => .plain

/-! ## Where a cluster ends -/

/-- Whether a cluster that ends so, with a last character of the first class, goes
on with a character of the second. The rules are in the order of precedence. -/
def joins (tail : Tail) : ClusterClass → ClusterClass → Bool
  | .carriageReturn, .lineFeed => true
  | .carriageReturn, _ | .lineFeed, _ | .control, _ => false
  | _, .carriageReturn | _, .lineFeed | _, .control => false
  | .leading, .leading | .leading, .vowel | .leading, .openSyllable
  | .leading, .closedSyllable => true
  | .openSyllable, .vowel | .openSyllable, .trailing => true
  | .vowel, .vowel | .vowel, .trailing => true
  | .closedSyllable, .trailing | .trailing, .trailing => true
  | _, .extending | _, .linker | _, .nonJoiner | _, .joiner | _, .spacing => true
  | .prepended, _ => true
  | _, .consonant => tail == .linkedConsonant
  | _, .pictograph => tail == .joinedPictograph
  | _, .flag => tail == .halfFlag
  | _, _ => false

/-- The clusters of a text that begins within one: `cluster` has the characters of
that one, last one first, `tail` says how it ends so far, and `last` is the class
of its last character. -/
def clustersFrom (tail : Tail) (last : ClusterClass) (cluster : List Char) :
    List Char → List (List Char)
  | [] => [cluster.reverse]
  | c :: rest =>
    let k := ClusterClass.ofChar c
    if joins tail last k then clustersFrom (tail.next k) k (c :: cluster) rest
    else cluster.reverse :: clustersFrom (Tail.plain.next k) k [c] rest

/-- The clusters of a text, in order. -/
def clusters : List Char → List (List Char)
  | [] => []
  | c :: rest =>
    let k := ClusterClass.ofChar c
    clustersFrom (Tail.plain.next k) k [c] rest

theorem flatten_clustersFrom (tail : Tail) (last : ClusterClass) (cluster cs : List Char) :
    (clustersFrom tail last cluster cs).flatten = cluster.reverse ++ cs := by
  fun_induction clustersFrom tail last cluster cs with
  | case1 => simp
  | case2 tail last cluster c rest k h ih => simp [ih]
  | case3 tail last cluster c rest k h ih => simp [ih]

/-- The clusters of a text are the text, cut. -/
theorem flatten_clusters (cs : List Char) : (clusters cs).flatten = cs := by
  cases cs with
  | nil => rfl
  | cons c rest => simp [clusters, flatten_clustersFrom]

/-! ## Examples -/

/-- A letter with an accent is one cluster, and so is a flag, but three halves of
flags are two. -/
example : clusters ['e', '\u0301', 'x'] = [['e', '\u0301'], ['x']]
    ∧ clusters ['🇩', '🇪', '🇫'] = [['🇩', '🇪'], ['🇫']] := by
  decide +kernel

/-- Joined pictographs are one cluster, letters around a joiner are not. -/
example : clusters ['👩', '\u200D', '👧'] = [['👩', '\u200D', '👧']]
    ∧ clusters ['a', '\u200D', 'b'] = [['a', '\u200D'], ['b']] := by
  decide +kernel

end Lox.Equipment
