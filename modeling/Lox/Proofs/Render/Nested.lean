/-
`Lox.Proofs.Render.Nested` -- words in parentheses, as text.

A tree is written as words and parentheses with single spaces between them. This is all
that there is to reading the text: which nesting of words it is can be told from it without
knowing what the words mean, and also where it ends, so that more text may follow. The one
thing to look out for are quoted words, which may hold spaces and parentheses of their own,
but end with the first quote behind the one that they begin with.
-/

set_option autoImplicit false

namespace Lox

/-- Words, nested by parentheses. -/
inductive Nested where
  | word (text : List Char)
  | node (parts : List Nested)

namespace Nested

mutual

/-- A nesting as text. -/
def chars : Nested → List Char
  | .word text => text
  | .node [] => ['(', ')']
  | .node (first :: rest) => '(' :: (first.chars ++ (charsEach rest ++ [')']))

/-- Some nestings as text, each behind a space. -/
def charsEach : List Nested → List Char
  | [] => []
  | part :: rest => ' ' :: (part.chars ++ charsEach rest)

end

/-! ## Words -/

/-- The character ends a word. -/
def EndsWord (c : Char) : Prop :=
  c = ' ' ∨ c = ')' ∨ c = '\n'

instance : DecidablePred EndsWord :=
  fun _ => inferInstanceAs (Decidable (_ ∨ _ ∨ _))

/-- The word is written without quotes. -/
def IsBare (text : List Char) : Prop :=
  text ≠ [] ∧ ∀ c ∈ text, ¬ EndsWord c ∧ c ≠ '(' ∧ c ≠ '"'

-- the characters of the word are gone through, not all that there are
instance : DecidablePred IsBare := fun text =>
  have : Decidable (∀ c ∈ text, ¬ EndsWord c ∧ c ≠ '(' ∧ c ≠ '"') := List.decidableBAll _ text
  inferInstanceAs (Decidable (text ≠ [] ∧ ∀ c ∈ text, ¬ EndsWord c ∧ c ≠ '(' ∧ c ≠ '"'))

/-- The word stands in quotes, which are the only ones in it. -/
def IsQuoted (text : List Char) : Prop :=
  ∃ body, text = '"' :: (body ++ ['"']) ∧ '"' ∉ body

mutual

/-- All words can be told from what is around them. -/
def WellSpelled : Nested → Prop
  | .word text => IsBare text ∨ IsQuoted text
  | .node parts => AllWellSpelled parts

def AllWellSpelled : List Nested → Prop
  | [] => True
  | part :: rest => part.WellSpelled ∧ AllWellSpelled rest

end

/-- A word does not go on with what follows. -/
def Ends (after : List Char) : Prop :=
  ∀ c ∈ after.head?, EndsWord c

variable {text text' after after' : List Char}

/-- Two lists are split at the first element of a sort in the same way. -/
theorem append_inj_of_ends {α : Type} {p : α → Prop} {cs cs' rest rest' : List α}
    (hcs : ∀ c ∈ cs, ¬ p c) (hcs' : ∀ c ∈ cs', ¬ p c) (hrest : ∀ c ∈ rest.head?, p c)
    (hrest' : ∀ c ∈ rest'.head?, p c) (h : cs ++ rest = cs' ++ rest') :
    cs = cs' ∧ rest = rest' := by
  induction cs generalizing cs' with
  | nil =>
    cases cs' with
    | nil => exact ⟨rfl, h⟩
    | cons c' cs' =>
      rw [List.nil_append] at h
      exact absurd (hrest c' (h ▸ rfl)) (hcs' c' List.mem_cons_self)
  | cons c cs ih =>
    cases cs' with
    | nil =>
      rw [List.nil_append] at h
      exact absurd (hrest' c (h ▸ rfl)) (hcs c List.mem_cons_self)
    | cons c' cs' =>
      obtain ⟨rfl, htail⟩ := List.cons.inj h
      obtain ⟨rfl, hbehind⟩ := ih (fun d hd => hcs d (List.mem_cons_of_mem _ hd))
        (fun d hd => hcs' d (List.mem_cons_of_mem _ hd)) htail
      exact ⟨rfl, hbehind⟩

/-- Where a word without quotes ends is seen by what follows it. -/
theorem IsBare.append_inj (h : IsBare text) (h' : IsBare text') (hafter : Ends after)
    (hafter' : Ends after') (heq : text ++ after = text' ++ after') :
    text = text' ∧ after = after' :=
  append_inj_of_ends (fun c hc => (h.2 c hc).1) (fun c hc => (h'.2 c hc).1) hafter hafter' heq

/-- A word in quotes ends at the second one, whatever follows. -/
theorem IsQuoted.append_inj (h : IsQuoted text) (h' : IsQuoted text')
    (heq : text ++ after = text' ++ after') : text = text' ∧ after = after' := by
  obtain ⟨body, rfl, hbody⟩ := h
  obtain ⟨body', rfl, hbody'⟩ := h'
  rw [List.cons_append, List.cons_append, List.append_assoc, List.append_assoc] at heq
  have hquote : ∀ (rest : List Char), ∀ c ∈ (['"'] ++ rest).head?, c = '"' := by
    rintro rest c ⟨⟩
    rfl
  obtain ⟨rfl, hrest⟩ := append_inj_of_ends (fun c hc (heq : c = '"') => hbody (heq ▸ hc))
    (fun c hc (heq : c = '"') => hbody' (heq ▸ hc)) (hquote after) (hquote after')
    (List.cons.inj heq).2
  exact ⟨rfl, List.append_cancel_left hrest⟩

/-- Bare words begin with no quote. -/
theorem IsBare.not_quoted (h : IsBare text) (h' : IsQuoted text') :
    text ++ after ≠ text' ++ after' := by
  obtain ⟨hne, hchars⟩ := h
  obtain ⟨body, rfl, -⟩ := h'
  obtain ⟨c, cs, rfl⟩ := List.exists_cons_of_ne_nil hne
  intro heq
  exact (hchars c List.mem_cons_self).2.2 (List.cons.inj heq).1

/-! ## Nestings -/

/-- No word begins with a parenthesis or with what ends one. -/
theorem WellSpelled.head {n : Nested} (h : n.WellSpelled) :
    ∃ c cs, n.chars = c :: cs ∧ ¬ EndsWord c ∧ ∀ text, n = .word text → c ≠ '(' := by
  cases n with
  | word text =>
    rcases h with ⟨hne, hchars⟩ | ⟨body, rfl, -⟩
    · obtain ⟨c, cs, rfl⟩ := List.exists_cons_of_ne_nil hne
      have hc := hchars c List.mem_cons_self
      exact ⟨c, cs, rfl, hc.1, fun _ _ => hc.2.1⟩
    · exact ⟨'"', _, rfl, by simp [EndsWord], fun _ _ => by decide⟩
  | node parts =>
    refine ⟨'(', ?_⟩
    cases parts with
    | nil => exact ⟨[')'], rfl, by simp [EndsWord], fun _ h => by cases h⟩
    | cons first rest => exact ⟨_, rfl, by simp [EndsWord], fun _ h => by cases h⟩

/-- Behind a part there is a space or a parenthesis, both of which end a word. -/
theorem ends_charsEach (parts : List Nested) : Ends (charsEach parts ++ ')' :: after) := by
  cases parts with
  | nil => rintro c ⟨⟩; exact .inr (.inl rfl)
  | cons part rest => rintro c ⟨⟩; exact .inl rfl

/-- A node with text behind it is its first part, the others behind spaces, and the parenthesis.
-/
theorem chars_node_append (first : Nested) (rest : List Nested) (after : List Char) :
    (node (first :: rest)).chars ++ after
      = '(' :: (first.chars ++ (charsEach rest ++ ')' :: after)) := by
  simp [chars]

/-- Some parts with text behind them are the first one behind its space, and then the others. -/
theorem charsEach_cons_append (part : Nested) (rest : List Nested) (after : List Char) :
    charsEach (part :: rest) ++ after = ' ' :: (part.chars ++ (charsEach rest ++ after)) := by
  simp [charsEach]

/-- A word is told from a node by its first character. -/
theorem WellSpelled.word_ne_node {parts : List Nested} (h : (word text).WellSpelled) :
    (word text).chars ++ after ≠ (node parts).chars ++ after' := by
  obtain ⟨c, cs, hcons, -, hparen⟩ := h.head
  rw [hcons]
  intro heq
  cases parts with
  | nil => exact hparen text rfl (List.cons.inj heq).1
  | cons first rest => exact hparen text rfl (List.cons.inj heq).1

/-- A node without parts is told from one with parts by its second character. -/
theorem WellSpelled.nil_ne_cons {first : Nested} {rest : List Nested} (h : first.WellSpelled) :
    (node []).chars ++ after ≠ (node (first :: rest)).chars ++ after' := by
  obtain ⟨c, cs, hcons, hends, -⟩ := h.head
  rw [chars_node_append, hcons]
  intro heq
  have hclose := (List.cons.inj (List.cons.inj heq).2).1
  exact hends (.inr (.inl hclose.symm))

mutual

/-- **A nesting can be told from its text**, and so can where it ends. -/
theorem chars_inj {n n' : Nested} {after after' : List Char} (h : n.WellSpelled)
    (h' : n'.WellSpelled) (hafter : Ends after) (hafter' : Ends after')
    (heq : n.chars ++ after = n'.chars ++ after') :
    n = n' ∧ after = after' := by
  match n, n' with
  -- a word ends where something begins that cannot stand in it, or at its second quote
  | .word text, .word text' =>
    have hsplit : text = text' ∧ after = after' := by
      rcases h with h | h
      · rcases h' with h' | h'
        · exact h.append_inj h' hafter hafter' heq
        · exact absurd heq (h.not_quoted h')
      · rcases h' with h' | h'
        · exact absurd heq.symm (h'.not_quoted h)
        · exact h.append_inj h' heq
    exact ⟨congrArg word hsplit.1, hsplit.2⟩
  | .word _, .node _ => exact absurd heq h.word_ne_node
  | .node _, .word _ => exact absurd heq.symm h'.word_ne_node
  | .node [], .node [] => exact ⟨rfl, (List.cons.inj (List.cons.inj heq).2).2⟩
  | .node [], .node (_ :: _) => exact absurd heq h'.1.nil_ne_cons
  | .node (_ :: _), .node [] => exact absurd heq.symm h.1.nil_ne_cons
  -- the first parts are told apart with the others behind them, and then these are
  | .node (first :: rest), .node (first' :: rest') =>
    rw [chars_node_append, chars_node_append] at heq
    obtain ⟨hfirst, hrest⟩ := chars_inj h.1 h'.1 (ends_charsEach rest) (ends_charsEach rest')
      (List.cons.inj heq).2
    obtain ⟨hrest, hbehind⟩ := charsEach_inj h.2 h'.2 hrest
    exact ⟨by rw [hfirst, hrest], hbehind⟩

/-- The parts up to the closing parenthesis. -/
theorem charsEach_inj {parts parts' : List Nested} {after after' : List Char}
    (h : AllWellSpelled parts) (h' : AllWellSpelled parts')
    (heq : charsEach parts ++ ')' :: after = charsEach parts' ++ ')' :: after') :
    parts = parts' ∧ after = after' := by
  match parts, parts' with
  | [], [] => exact ⟨rfl, (List.cons.inj heq).2⟩
  | [], _ :: _ => exact absurd (List.cons.inj heq).1 (by decide)
  | _ :: _, [] => exact absurd (List.cons.inj heq).1 (by decide)
  | part :: rest, part' :: rest' =>
    rw [charsEach_cons_append, charsEach_cons_append] at heq
    obtain ⟨hpart, hrest⟩ := chars_inj h.1 h'.1 (ends_charsEach rest) (ends_charsEach rest')
      (List.cons.inj heq).2
    obtain ⟨hrest, hafter⟩ := charsEach_inj h.2 h'.2 hrest
    exact ⟨by rw [hpart, hrest], hafter⟩

end

end Nested

end Lox
