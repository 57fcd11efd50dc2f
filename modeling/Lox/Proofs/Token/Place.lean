/-
`Lox.Proofs.Token.Place` -- what places count, and slices of a text.

The place behind some characters is where their bytes end, on the line that the
newlines among them lead to (`Place.after_eq`). A place is reached in any number
of steps, so it depends on all the characters before it and on nothing else.

A slice is what an implementation cuts out of the bytes of a text when it is
given two offsets. It can be given any two numbers, and `IsSlice` says that these
two can be cut at: they ascend, no character is cut into pieces, and the bytes
between them are those of the slice.
-/
import Lox.Token.Scan

set_option autoImplicit false

namespace Lox

/-! ## Counting bytes -/

/-- The number of bytes that characters take. -/
def byteCount (cs : List Char) : Nat :=
  (String.ofList cs).utf8ByteSize

/-- Bytes are counted piece by piece. -/
@[simp] theorem byteCount_append (cs ds : List Char) :
    byteCount (cs ++ ds) = byteCount cs + byteCount ds := by
  rw [byteCount, String.ofList_append, String.utf8ByteSize_append]
  rfl

/-- A character counts for the bytes that it takes. -/
theorem byteCount_singleton (c : Char) : byteCount [c] = c.utf8Size := by
  rw [byteCount, ← String.singleton_eq_ofList, String.utf8ByteSize_singleton]

/-- The characters of a text take the bytes that it has. -/
theorem byteCount_toList (s : String) : byteCount s.toList = s.utf8ByteSize := by
  rw [byteCount, String.ofList_toList]

/-- The first character counts for its own bytes. -/
theorem byteCount_cons (c : Char) (cs : List Char) :
    byteCount (c :: cs) = c.utf8Size + byteCount cs := by
  rw [← List.singleton_append, byteCount_append, byteCount_singleton]

/-- Each character takes a byte at least. -/
theorem byteCount_pos {cs : List Char} (h : cs ≠ []) : 0 < byteCount cs := by
  obtain ⟨c, cs, rfl⟩ := List.exists_cons_of_ne_nil h
  rw [byteCount_cons]
  exact Nat.add_pos_left c.utf8Size_pos _

/-- So no character is met more often than there are bytes. -/
theorem count_le_byteCount (c : Char) (cs : List Char) : cs.count c ≤ byteCount cs := by
  induction cs with
  | nil => exact Nat.le_refl 0
  | cons d cs ih =>
    have hsize := d.utf8Size_pos
    rw [byteCount_cons, List.count_cons]
    split <;> omega

/-- A text with no more bytes than newlines, say, consists of newlines. -/
theorem eq_replicate_of_byteCount_le_count {c : Char} {cs : List Char}
    (h : byteCount cs ≤ cs.count c) : cs = List.replicate cs.length c := by
  induction cs with
  | nil => rfl
  | cons d cs ih =>
    have hsize := d.utf8Size_pos
    have hrest := count_le_byteCount c cs
    rw [byteCount_cons] at h
    by_cases hd : d = c
    · subst hd
      rw [List.count_cons_self] at h
      rw [List.length_cons, List.replicate_succ, ← ih (by omega)]
    · rw [List.count_cons_of_ne hd] at h
      omega

/-! ## Places -/

/-- The place behind two texts is that behind the second one, begun where the first one ends. -/
theorem Place.after_append (p : Place) (cs ds : List Char) :
    p.after (cs ++ ds) = (p.after cs).after ds := by
  simp only [Place.after, List.foldl_append]

/-- The place behind characters is further by their bytes, and lower by the
newlines among them. -/
theorem Place.after_eq (p : Place) (cs : List Char) :
    p.after cs = ⟨p.offset + byteCount cs, p.line.below (cs.count '\n')⟩ := by
  induction cs generalizing p with
  | nil =>
    rw [List.count_nil, LineNumber.below_zero]
    rfl
  | cons c cs ih =>
    have hline : (p.next c).line.below (cs.count '\n') = p.line.below ((c :: cs).count '\n') := by
      by_cases hc : c = '\n'
      · have hnext : (p.next c).line = p.line.below 1 := if_pos hc
        rw [hnext, LineNumber.below_below, hc, List.count_cons_self, Nat.add_comm]
      · have hnext : (p.next c).line = p.line := if_neg hc
        rw [hnext, List.count_cons_of_ne hc]
    show (p.next c).after cs = _
    rw [ih, byteCount_cons, hline]
    simp only [Place.next, Nat.add_assoc]

/-- The place in a text behind its first characters. -/
theorem Place.origin_after (cs : List Char) :
    Place.origin.after cs = ⟨byteCount cs, LineNumber.first.below (cs.count '\n')⟩ := by
  rw [Place.after_eq, Place.origin, Nat.zero_add]

/-- Before a character there is room for one more newline, so its line is the number that it
should be. -/
theorem Place.line_origin_after {cs : List Char} (h : byteCount cs < Span.maxOffset) :
    ((Place.origin.after cs).line : Nat) = 1 + cs.count '\n' := by
  have hcount := count_le_byteCount '\n' cs
  rw [Place.origin_after]
  refine LineNumber.first.val_below_of_lt _ ?_
  show 1 + cs.count '\n' < UInt32.size
  unfold Span.maxOffset at h
  omega

/-- Offsets that are in reach are kept as they are. -/
theorem Span.ofOffsets_of_le {start stop : Nat} {line : LineNumber} (h : start ≤ stop)
    (hstop : stop ≤ maxOffset) : Span.ofOffsets start stop line = ⟨start, stop, line⟩ := by
  rw [Span.ofOffsets, Nat.min_eq_left (Nat.le_trans h hstop), Nat.min_eq_left hstop,
    LineNumber.ofNat_val]

/-! ## Slices -/

/-- The bytes of a text between two offsets are those of the slice, and both
offsets are boundaries between characters. -/
structure IsSlice (source : String) (start stop : Nat) (slice : String) : Prop where
  ordered : start ≤ stop
  start_isValid : String.Pos.Raw.IsValid source ⟨start⟩
  stop_isValid : String.Pos.Raw.IsValid source ⟨stop⟩
  bytes : source.toByteArray.extract start stop = slice.toByteArray

/-- The place of characters within others is one that they can be cut out at. -/
theorem isSlice_of_append (before text after : List Char) :
    IsSlice (String.ofList (before ++ (text ++ after))) (byteCount before)
      (byteCount (before ++ text)) (String.ofList text) where
  ordered := by
    rw [byteCount_append]
    omega
  start_isValid := by
    rw [String.Pos.Raw.isValid_ofList]
    refine ⟨before.length, ?_⟩
    rw [List.take_left]
    rfl
  stop_isValid := by
    rw [String.Pos.Raw.isValid_ofList]
    refine ⟨(before ++ text).length, ?_⟩
    rw [← List.append_assoc, List.take_left]
    rfl
  bytes := by
    have hbytes : (String.ofList (before ++ (text ++ after))).toByteArray =
        (String.ofList before).toByteArray ++
          ((String.ofList text).toByteArray ++ (String.ofList after).toByteArray) := by
      rw [String.ofList_append, String.ofList_append, String.toByteArray_append,
        String.toByteArray_append]
    -- first what stands before the slice is dropped, then what stands behind it
    have hdrop : ∀ after : ByteArray,
        ((String.ofList before).toByteArray ++ after).extract (byteCount before)
          (byteCount before + byteCount text) = after.extract 0 (byteCount text) :=
      fun after => ByteArray.extract_append_size_add (i := 0) (j := byteCount text)
    rw [hbytes, byteCount_append, hdrop]
    exact ByteArray.extract_append_eq_left rfl

end Lox
