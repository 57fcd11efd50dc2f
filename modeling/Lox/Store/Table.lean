/-
`Lox.Store.Table` -- finite maps from names.

A table keeps its entries in the order of their names, by code points, which is
also the order of their bytes. Each name occurs once, so two tables that answer
every look-up alike are the same table, and listing the names needs no sorting.
-/

set_option autoImplicit false

namespace Lox

/-- A finite map from names. -/
structure Table (α : Type) where
  entries : List (String × α)
deriving Repr

namespace Table

variable {α : Type}

/-- The table without names. -/
def empty : Table α := ⟨[]⟩

instance : Inhabited (Table α) := ⟨empty⟩

/-- The value of the first entry with a name. -/
def search? (name : String) : List (String × α) → Option α
  | [] => none
  | (other, value) :: rest => if name = other then some value else search? name rest

/-- The value of a name. -/
def find? (t : Table α) (name : String) : Option α :=
  search? name t.entries

/-- Whether a name has a value. -/
def has (t : Table α) (name : String) : Bool :=
  (t.find? name).isSome

/-- The names, in order. -/
def names (t : Table α) : List String :=
  t.entries.map Prod.fst

/-- The entries with a value for a name: in place of the one it had, or else
before the first later name. -/
def insertEntry (name : String) (value : α) : List (String × α) → List (String × α)
  | [] => [(name, value)]
  | (other, old) :: rest =>
    if name = other then (name, value) :: rest
    -- the order is that of code points
    else if name < other then (name, value) :: (other, old) :: rest
    else (other, old) :: insertEntry name value rest

/-- The table with a value for a name. -/
def insert (t : Table α) (name : String) (value : α) : Table α :=
  ⟨insertEntry name value t.entries⟩

/-! ## What the operations do to look-ups -/

@[simp] theorem find?_empty (name : String) : (empty : Table α).find? name = none := rfl

/-- Putting an entry in changes the search for its own name and for no other. -/
private theorem search?_insertEntry (name key : String) (value : α)
    (entries : List (String × α)) :
    search? key (insertEntry name value entries)
      = if key = name then some value else search? key entries := by
  induction entries with
  | nil => simp [insertEntry, search?]
  | cons entry rest ih =>
    obtain ⟨other, old⟩ := entry
    unfold insertEntry
    by_cases hsame : name = other
    · subst hsame
      by_cases h : key = name <;> simp [search?, h]
    · by_cases hbefore : name < other
      · simp [hsame, hbefore, search?]
      · by_cases h : key = name
        · subst h
          simp [hsame, hbefore, search?, ih]
        · simp [hsame, hbefore, search?, ih, h]

/-- A value that has been put in is found again, and no other look-up notices. -/
theorem find?_insert (t : Table α) (name key : String) (value : α) :
    (t.insert name value).find? key = if key = name then some value else t.find? key :=
  search?_insertEntry name key value t.entries

/-- What was put in last under a name is what is found under it. -/
@[simp] theorem find?_insert_self (t : Table α) (name : String) (value : α) :
    (t.insert name value).find? name = some value := by
  simp [find?_insert]

/-- An entry that is put in leaves the other names as they were. -/
theorem find?_insert_of_ne (t : Table α) {name key : String} (value : α) (h : key ≠ name) :
    (t.insert name value).find? key = t.find? key := by
  simp [find?_insert, h]

/-! ## Inserting twice -/

/-- Of two entries under one name the later one counts. -/
private theorem insertEntry_insertEntry (name : String) (first second : α)
    (entries : List (String × α)) :
    insertEntry name second (insertEntry name first entries) = insertEntry name second entries := by
  induction entries with
  | nil => simp [insertEntry]
  | cons entry rest ih =>
    obtain ⟨other, old⟩ := entry
    unfold insertEntry
    by_cases hsame : name = other
    · simp [hsame, insertEntry]
    · by_cases hbefore : name < other
      · simp [hsame, hbefore, insertEntry]
      · simp [hsame, hbefore, insertEntry, ih]

/-- Of two values for one name the later one is left. -/
theorem insert_insert (t : Table α) (name : String) (first second : α) :
    (t.insert name first).insert name second = t.insert name second :=
  congrArg mk (insertEntry_insertEntry name first second t.entries)

end Table

end Lox
