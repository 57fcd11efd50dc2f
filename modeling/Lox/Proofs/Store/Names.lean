/-
`Lox.Proofs.Store.Names` -- in which order the names of a table are listed.

A table puts a new name before the first one that is greater, by code points, so that
its names are in strict order and none is there twice. To a reader outside of the
program a name is a row of bytes; UTF-8 is made in such a way that rows of bytes
compare as the code points do, whatever stands behind the first difference.
-/
import Mathlib.Data.List.Sort
import Mathlib.Data.String.Basic
import Lox.Proofs.Machine.Binding

set_option autoImplicit false

namespace Lox

/-! ## Code points and bytes -/

/-- The bytes of a text. -/
def byteList (text : String) : List UInt8 := text.toUTF8.data.toList

/-- The bytes of a text are those of its characters, one after the other. -/
theorem byteList_eq (text : String) : byteList text = text.toList.flatMap String.utf8EncodeChar := by
  rw [byteList, String.toUTF8_eq_toByteArray]
  conv => lhs; rw [← String.ofList_toList (s := text), String.toByteArray_ofList]
  simp [List.utf8Encode]

/-- The bytes of two characters are in the order of the characters, also with further
bytes behind them. -/
theorem utf8EncodeChar_append_lt {c d : Char} (h : c < d) (after after' : List UInt8) :
    String.utf8EncodeChar c ++ after < String.utf8EncodeChar d ++ after' := by
  have hlt : c.val.toNat < d.val.toNat := h
  have hlast : d.val.toNat < 0x110000 := by
    rcases d.valid with hlow | hhigh
    · have hsmall : d.val.toNat < 0xd800 := hlow
      omega
    · exact hhigh.2
  have hbyte : ∀ i j : Nat, UInt8.ofNat i < UInt8.ofNat j ↔ i % 256 < j % 256 := by
    intro i j
    simp [UInt8.lt_iff_toNat_lt]
  have hsame : ∀ i j : Nat, UInt8.ofNat i = UInt8.ofNat j ↔ i % 256 = j % 256 := by
    intro i j
    simp [← UInt8.toNat_inj]
  -- the digits to base 64, each of the one before, as arithmetic sees them
  have htwo : ∀ k : Nat, k / 4096 = k / 64 / 64 := fun k => (Nat.div_div_eq_div_mul k 64 64).symm
  have hthree : ∀ k : Nat, k / 262144 = k / 64 / 64 / 64 := by
    intro k
    rw [Nat.div_div_eq_div_mul, Nat.div_div_eq_div_mul]
  unfold String.utf8EncodeChar
  generalize c.val.toNat = m at hlt
  generalize d.val.toNat = n at hlt hlast
  simp only [htwo, hthree]
  -- by how many bytes either character has
  split_ifs <;>
    simp only [List.cons_append, List.nil_append, List.cons_lt_cons_iff, hbyte, hsame] <;> omega

/-- A character has a byte at least. -/
theorem utf8EncodeChar_ne_nil (c : Char) : String.utf8EncodeChar c ≠ [] := by
  unfold String.utf8EncodeChar
  simp only
  split_ifs <;> exact List.cons_ne_nil _ _

/-- Texts are ordered as their bytes are. -/
theorem flatMap_utf8EncodeChar_lt {cs ds : List Char} (h : cs < ds) :
    cs.flatMap String.utf8EncodeChar < ds.flatMap String.utf8EncodeChar := by
  induction cs generalizing ds with
  | nil =>
    cases ds with
    | nil => exact absurd h (List.lt_irrefl _)
    | cons d ds =>
      obtain ⟨byte, bytes, hbytes⟩ := List.exists_cons_of_ne_nil (utf8EncodeChar_ne_nil d)
      rw [List.flatMap_nil, List.flatMap_cons, hbytes, List.cons_append]
      exact List.nil_lt_cons byte _
  | cons c cs ih =>
    cases ds with
    | nil => exact absurd h (List.not_lt_nil _)
    | cons d ds =>
      rw [List.flatMap_cons, List.flatMap_cons]
      rcases List.cons_lt_cons_iff.mp h with hfirst | ⟨rfl, hrest⟩
      · exact utf8EncodeChar_append_lt hfirst _ _
      · exact List.append_left_lt (ih hrest)

/-- Texts are in the order of their bytes. -/
theorem byteList_lt {s t : String} (h : s < t) : byteList s < byteList t := by
  rw [byteList_eq, byteList_eq]
  exact flatMap_utf8EncodeChar_lt (String.lt_iff_toList_lt.mp h)

/-! ## Tables in order -/

namespace Table

variable {α : Type} {t : Table α} {name : String} {value : α}

/-- The names are in strict order. -/
def Ordered (t : Table α) : Prop := t.names.Pairwise (· < ·)

theorem ordered_empty : (empty : Table α).Ordered := List.Pairwise.nil

/-- Putting an entry in adds its name and no other. -/
private theorem mem_map_fst_insertEntry {entries : List (String × α)} {key : String} :
    key ∈ (insertEntry name value entries).map Prod.fst ↔
      key = name ∨ key ∈ entries.map Prod.fst :=
  mem_names_insert (t := ⟨entries⟩)

/-- An entry is put in where its name belongs, so the order is kept. -/
private theorem pairwise_insertEntry {entries : List (String × α)}
    (h : (entries.map Prod.fst).Pairwise (· < ·)) :
    ((insertEntry name value entries).map Prod.fst).Pairwise (· < ·) := by
  induction entries with
  | nil => exact List.pairwise_singleton _ _
  | cons entry rest ih =>
    obtain ⟨other, old⟩ := entry
    rw [List.map_cons, List.pairwise_cons] at h
    obtain ⟨hfirst, hrest⟩ := h
    unfold insertEntry
    by_cases hsame : name = other
    · subst hsame
      rw [if_pos rfl, List.map_cons, List.pairwise_cons]
      exact ⟨hfirst, hrest⟩
    · rw [if_neg hsame]
      -- otherwise the entry stands before this one, or somewhere behind it
      by_cases hbefore : name < other
      · rw [if_pos hbefore, List.map_cons, List.map_cons, List.pairwise_cons]
        refine ⟨fun key hkey => ?_, List.pairwise_cons.mpr ⟨hfirst, hrest⟩⟩
        rcases List.mem_cons.mp hkey with rfl | hlater
        · exact hbefore
        · exact lt_trans hbefore (hfirst key hlater)
      · rw [if_neg hbefore, List.map_cons, List.pairwise_cons]
        refine ⟨fun key hkey => ?_, ih hrest⟩
        rcases mem_map_fst_insertEntry.mp hkey with rfl | hlater
        · exact lt_of_le_of_ne (not_lt.mp hbefore) (Ne.symm hsame)
        · exact hfirst key hlater

/-- So binding a name keeps a table in order. -/
theorem Ordered.insert (h : t.Ordered) : (t.insert name value).Ordered :=
  pairwise_insertEntry h

/-- A name that has a value already is put in no other place. -/
theorem Ordered.names_insert_of_mem (h : t.Ordered) (hmem : name ∈ t.names) :
    (t.insert name value).names = t.names := by
  refine List.Pairwise.eq_of_mem_iff h.insert h fun key => ?_
  rw [mem_names_insert, or_iff_right_iff_imp]
  rintro rfl
  exact hmem

/-- A table in order lists its names by their bytes, each once. -/
theorem Ordered.byteList (h : t.Ordered) :
    t.names.Pairwise fun a b => byteList a < byteList b :=
  h.imp byteList_lt

end Table

end Lox
