/-
`Lox.Proofs.Failure.Origin` -- failures point at tokens of the texts that were run.

A session may read any number of texts, and what one of them declares is run by later
ones. Whatever fails, and wherever, the token that is blamed is one that the scanner found
in one of the texts, so it can be cut out of that text at its span and its line can be
counted there.

Two things are put together for this. All trees in the machine consist of tokens of the
texts, which is said by likeness; so what is blamed is such a token, or the `this` that a
`super` has to do without. And in the story of the session each moment has its frames in
order, so that where `super` is found `this` is found as well, as an instance.
-/
import Lox.Proofs.Failure.Raised
import Lox.Proofs.Likeness.KnownOperator
import Lox.Proofs.Likeness.Layout
import Lox.Proofs.Token.Coverage

set_option autoImplicit false

namespace Lox

/-! ## Tokens of texts -/

/-- The token is one of the text. It can be cut out there at its span, and its line is
counted by the newlines before it. -/
structure Token.FoundIn (source : String) (t : Token) : Prop where
  mem : t ∈ (scan source).tokens
  slice : IsSlice source t.span.start t.span.stop t.lexeme
  line : ∃ before after, source.toList = before ++ after ∧ byteCount before = t.span.start ∧
    t.line = 1 + before.count '\n'

/-- The token is one of one of these texts. -/
def Token.DrawnFrom (sources : List String) (t : Token) : Prop :=
  ∃ source ∈ sources, t ∈ (scan source).tokens

/-- A token that is no end marker stands where it says that it does. -/
theorem Token.stands_of_mem {source : String} {t : Token}
    (hsize : source.utf8ByteSize < UInt32.size) (h : t ∈ (scan source).tokens)
    (hkind : t.kind ≠ .eof) : t.StandsIn [] source.toList := by
  have hmax : source.utf8ByteSize ≤ Span.maxOffset := Nat.le_sub_one_of_lt hsize
  have hcovers := covers_pieces [] source.toList (by rwa [List.nil_append, byteCount_toList])
  rcases List.mem_append.mp h with hmem | hmem
  · exact hcovers.standsIn t hmem
  · exact absurd (congrArg Token.kind (List.mem_singleton.mp hmem)) hkind

/-- A token that the text was cut into is found in it, at its span and on its line. -/
theorem Token.foundIn_of_mem {source : String} {t : Token}
    (hsize : source.utf8ByteSize < UInt32.size) (h : t ∈ (scan source).tokens)
    (hkind : t.kind ≠ .eof) : t.FoundIn source := by
  have hstands := Token.stands_of_mem hsize h hkind
  refine ⟨h, hstands.isIn.slice, ?_⟩
  obtain ⟨before, text, after, hsource, -, hstands⟩ := hstands
  rw [List.nil_append] at hstands
  exact ⟨before, text ++ after, hsource, hstands.start.symm, hstands.line⟩

/-- An end marker has no role in a tree. -/
theorem Role.ne_eof_of_fits {role : Role} {kind : TokenKind} (h : role.fits kind) :
    kind ≠ .eof := by
  rintro rfl
  cases role <;> cases h

/-- A reserved word is spelled in one way only. -/
theorem Lexeme.eq_of_mem_reserved {kind : TokenKind} {text : List Char} {word : String}
    (h : Lexeme kind text) (hmem : (word, kind) ∈ Lexeme.reserved) :
    String.ofList text = word := by
  have hkinds : ∀ entry ∈ Lexeme.reserved,
      entry.2 ≠ .identifier ∧ entry.2 ≠ .number ∧ entry.2 ≠ .string := by decide
  cases h with
  | operator hoperator =>
    have htable : ∀ entry ∈ Lexeme.operators, ∀ other ∈ Lexeme.reserved, entry.2 ≠ other.2 := by
      decide
    exact absurd rfl (htable _ hoperator _ hmem)
  | keyword _ hreserved =>
    have htable : ∀ entry ∈ Lexeme.reserved, ∀ other ∈ Lexeme.reserved,
        entry.2 = other.2 → entry.1 = other.1 := by decide
    exact htable _ hreserved _ hmem rfl
  | name _ _ => exact absurd rfl (hkinds _ hmem).1
  | whole _ | fraction _ _ => exact absurd rfl (hkinds _ hmem).2.1
  | string _ => exact absurd rfl (hkinds _ hmem).2.2

/-- The bytes that a span covers are not more than those of the lexeme, also where a text
is too long for all of its places to be in reach. -/
theorem span_le_of_mem_scan {source : String} {t : Token} (h : t ∈ (scan source).tokens) :
    t.span.stop ≤ t.span.start + t.lexeme.utf8ByteSize := by
  have hpieces : ∀ (p : Place) (found : List Piece), ∀ t ∈ Piece.collect Piece.token? p found,
      t.span.stop ≤ t.span.start + t.lexeme.utf8ByteSize := by
    intro p found
    induction found generalizing p with
    | nil => exact List.forall_mem_nil _
    | cons piece rest ih =>
      refine List.forall_mem_append.mpr ⟨fun t ht => ?_, ih _⟩
      cases piece with
      | token kind text =>
        cases List.mem_singleton.mp ht
        show min (p.after text).offset Span.maxOffset
          ≤ min p.offset Span.maxOffset + byteCount text
        rw [Place.after_eq]
        dsimp only
        omega
      | _ => cases ht
  rcases List.mem_append.mp h with hmem | hmem
  · exact hpieces _ _ t hmem
  · rw [List.mem_singleton.mp hmem]
    exact Nat.le_add_right _ _

/-- A `this` that is put in the place of a `super` is no token of any text: it would have
to have five letters. -/
theorem Token.Scanned.ne_missingThis {source : String} {t keyword : Token}
    (hsize : source.utf8ByteSize < UInt32.size) (hmem : keyword ∈ (scan source).tokens)
    (hkind : keyword.kind = .kwSuper) (ht : t.Scanned) :
    t ≠ .plain .kwThis "this" keyword.span := by
  rintro rfl
  obtain ⟨text, ht⟩ := ht
  have hshort : keyword.span.stop ≤ keyword.span.start + 4 := span_le_of_mem_scan ht
  obtain ⟨before, word, after, -, hlexeme, hstands⟩ :=
    Token.stands_of_mem hsize hmem (by rw [hkind]; decide)
  rw [hkind] at hlexeme
  have hword : String.ofList word = "super" := hlexeme.eq_of_mem_reserved (by decide)
  have hbytes : byteCount word = 5 := by
    rw [byteCount, hword]
    decide
  have hstop := hstands.stop
  rw [byteCount_append, hbytes, ← hstands.start] at hstop
  omega

namespace Machine

open Surroundings (note)

/-! ## What requests are made of -/

/-- What is run in the request was read from one of these texts. -/
def Request.ReadFrom (sources : List String) : Request → Prop
  | .interpret stmts => ∃ source ∈ sources, stmts = (Program.ofSource source).stmts
  | .execute stmt => ∃ source ∈ sources, stmt ∈ (Program.ofSource source).stmts
  | .evaluate expr => ∃ source ∈ sources, .expression expr ∈ (Program.ofSource source).stmts
  | _ => True

/-- The tokens are one token of these texts, which fits the role. -/
abbrev Drawn (sources : List String) (role : Role) (t t' : Token) : Prop :=
  Grammar.Counterparts (fun t t' => t = t' ∧ t.DrawnFrom sources) role t t'

variable {sources : List String}

/-- A token that was drawn is like itself only. -/
theorem Drawn.eq {role : Role} {t t' : Token} (h : Drawn sources role t t') : t = t' :=
  h.1.1

/-- So both are the same word. -/
theorem Drawn.sameWord {role : Role} {t t' : Token} (h : Drawn sources role t t') :
    t.SameWord t' := by
  rw [h.eq]
  exact ⟨rfl, rfl, rfl⟩

/-- The statements of one of the texts are like themselves. -/
theorem ofSource_alike {source : String} (hsource : source ∈ sources) :
    List.Forall₂ (Stmt.Alike (Drawn sources)) (Program.ofSource source).stmts
      (Program.ofSource source).stmts := by
  have hself : List.Forall₂ (fun t t' => t = t' ∧ t.DrawnFrom sources) (scan source).tokens
      (scan source).tokens := List.forall₂_same.mpr fun t ht => ⟨rfl, source, hsource, ht⟩
  have hword : ∀ t t' : Token, t = t' ∧ t.DrawnFrom sources → t.SameWord t' := by
    rintro t _ ⟨rfl, -⟩
    exact ⟨rfl, rfl, rfl⟩
  exact (Grammar.read_alike hword hself
    (Grammar.endMarker_matched hword hself (find?_eof_scan source))).1

/-- So is a request, if nothing but these texts is read. -/
theorem Request.Ordinary.alike {m : Machine} {request : Request}
    (hm : m.Alike (Drawn sources) m) (h : request.Ordinary m)
    (hread : request.ReadFrom sources) : request.Alike (Drawn sources) request := by
  have hoffers : ∀ {value : Value}, m.Offers value → value.Alike (Drawn sources) value :=
    fun hvalue => hm.of_knows (List.forall_mem_nil _) (.inl hvalue)
  cases request with
  | interpret stmts =>
    obtain ⟨source, hsource, rfl⟩ := hread
    exact .interpret (ofSource_alike hsource)
  | execute stmt =>
    obtain ⟨source, hsource, hmem⟩ := hread
    exact .execute (List.forall₂_same.mp (ofSource_alike hsource) _ hmem)
  | evaluate expr =>
    obtain ⟨source, hsource, hmem⟩ := hread
    have hstmt := List.forall₂_same.mp (ofSource_alike hsource) _ hmem
    cases hstmt with
    | expression hexpr => exact .evaluate hexpr
  | invoke callee args =>
    obtain ⟨⟨value, hvalue, hcallee⟩, hargs⟩ := h
    exact .invoke (Callee.alike_of_ofValue? hcallee (hoffers hvalue))
      (List.forall₂_same.mpr fun arg harg => hoffers (hargs arg harg))
  | define frame name value => exact .define frame name (hoffers h.2.2)
  | defineHost name arity body =>
    have hbody : ∀ args value, body args = .ok value → value ∈ args ∨ m.Knows [] value :=
      fun args value hresult => (h.2 args value hresult).imp_right .inl
    exact .defineHost name arity
      (hostBody_alike (fun _ _ _ => (·.eq)) hm (List.forall_mem_nil _) hbody)
  | takeOutput => exact .takeOutput
  | executeIn frame stmts => exact h.elim
  | frameInside parent => exact h.elim

/-! ## The story of a request -/

variable {U : SuperUse → Prop} {w : Story Surroundings} {s : Scene Surroundings}

/-- Functions that are called come from texts. -/
theorem Story.Sound.orderly (h : w.Sound U) : w.Orderly Ordered := by
  intro mo hmo
  have hlawful := (h.moments mo hmo).2
  cases hevent : mo.event with
  | calls callee args =>
    rw [hevent] at hlawful
    cases callee with
    | function fn => exact (Closure.Rooted.lawful hlawful.2.1).body.formed
    | _ => trivial
  | _ => trivial

/-- What is explained of a run is so of a request that does nothing else. -/
theorem Explained.serves {P : Role → Token → Prop} {α β : Type} {given : Prop}
    {x : Telling Surroundings α} {y : Run α} {g : α → β}
    (hx : Explained P given (fun _ => False) x) (hxy : Retells x y)
    (hgiven : given) (horderly : (w.perform x).Orderly P) :
    (∀ failure, (w.machine.perform (g <$> y)).1 = .failed failure →
      failure.token? = none ∨ ∃ mo ∈ (w.perform x).moments, mo.Raises failure) ∧
    ∀ mo ∈ (w.perform x).moments, mo ∈ w.moments ∨ mo.event.Formed P := by
  refine ⟨fun failure hfailed => ?_, hx.formed hgiven w horderly⟩
  replace hfailed : (w.machine.perform (EStateM.map g y)).1 = .failed failure := hfailed
  have huntold := hxy w
  unfold Machine.perform EStateM.map at hfailed
  unfold Story.perform
  cases hrun : x w with
  | ok a w' =>
    rw [hrun] at huntold
    rw [← huntold] at hfailed
    cases hfailed
  | error halt w' =>
    rw [hrun] at huntold
    rw [← huntold] at hfailed
    cases halt with
    | outOfFuel => cases hfailed
    | failed failure' =>
      cases hfailed
      rcases hx.reason w _ w' hrun with hnone | hfalse | hraised
      · exact .inl hnone
      · exact hfalse.elim
      · exact .inr hraised

/-- A request blames what a moment of its story raises. If what it runs and all functions that
are called are as they should be, so is everything that is executed or evaluated. -/
theorem serve_explained {P : Role → Token → Prop} (fuel : Nat) {request : Request}
    (h : request.Ordinary w.machine) (hformed : Stmt.AllFormed P request.stmts)
    (horderly : (w.serve note fuel request).Orderly P) :
    (∀ failure, (w.machine.perform (request.work fuel)).1 = .failed failure →
      failure.token? = none ∨ ∃ mo ∈ (w.serve note fuel request).moments, mo.Raises failure) ∧
    ∀ mo ∈ (w.serve note fuel request).moments, mo ∈ w.moments ∨ mo.event.Formed P := by
  have hall : ExplainedAt note P fuel := .all fuel
  have hretells := (tell_transparent note).erasesAt fuel
  -- what the host does by itself does not fail, and executes nothing
  have hstep : ∀ {m : Machine}, ∀ mo ∈ (w.step note m).moments,
      mo ∈ w.moments ∨ mo.event.Formed P := by
    intro m mo hmo
    rcases List.mem_cons.mp hmo with rfl | hmo
    · exact .inr trivial
    · exact .inl hmo
  cases request with
  | interpret stmts =>
    exact (runProgram_explained fuel stmts).serves
      ((tell_transparent note).runProgram_erases fuel stmts) hformed horderly
  | execute stmt => exact (hall.execute stmt).serves (hretells.execute stmt) hformed.1 horderly
  | evaluate expr => exact (hall.evaluate expr).serves (hretells.evaluate expr) hformed.1 horderly
  | invoke callee args =>
    exact (hall.invoke callee args).serves (hretells.invoke callee args) trivial horderly
  | define frame name value =>
    have hdefine : Explained P True (fun _ => False)
        (Machine.tacit note (define frame name value)) := .tacit (.modify _)
    exact hdefine.serves (Retells.tacit _) trivial horderly
  | defineHost name arity body => exact ⟨fun _ hfailed => (by cases hfailed), hstep⟩
  | takeOutput => exact ⟨fun _ hfailed => (by cases hfailed), hstep⟩
  | executeIn frame stmts => exact h.elim
  | frameInside parent => exact h.elim

/-- Where there is a class to look in for `super`, there is a receiver. -/
theorem Scene.Sound.receiver_of_super {parent : Class} (h : s.Sound U)
    (hsuper : s.machine.forest.lookup s.machine.current "super" = some (.classRef parent)) :
    ∃ cls id, s.machine.forest.lookup s.machine.current "this" = some (.instanceOf cls id) := by
  have hseated := h.seated_current
  rw [hseated.super] at hsuper
  rw [hseated.this]
  cases haround : s.account.around s.machine.current with
  | nil =>
    rw [haround] at hsuper
    cases hsuper
  | cons a outer => exact ⟨a.cls, a.id, rfl⟩

/-- What a moment blames is a token of what is begun, or a `this` that a `super` has to do
without. -/
theorem Moment.Raises.token {P : Role → Token → Prop} {mo : Moment Surroundings}
    {failure : Failure} {t : Token} (h : mo.Raises failure) (hformed : mo.event.Formed P)
    (htoken : failure.token? = some t) :
    (∃ role, P role t) ∨ ∃ keyword parent, P .superclass keyword ∧
      t = .plain .kwThis "this" keyword.span ∧
      mo.machine.forest.lookup mo.machine.current "super" = some (.classRef parent) ∧
      ∀ cls id, mo.machine.forest.lookup mo.machine.current "this" ≠ some (.instanceOf cls id) := by
  cases h with
  | expression hevent hblamed =>
    rw [hevent] at hformed
    exact .inl (hblamed.token hformed htoken)
  | receiver hevent hsuper hnone =>
    rw [hevent] at hformed
    cases htoken
    exact .inr ⟨_, _, hformed.1, rfl, hsuper, hnone⟩
  | @declaration decl _ hevent hblamed =>
    rw [hevent] at hformed
    exact .inl (hblamed.token hformed htoken)

/-- So the name that is not defined has been written in some text. -/
theorem Moment.Raises.scanned {mo : Moment Surroundings} {failure : Failure} {t : Token}
    (h : mo.Raises failure) (htoken : failure.token? = some t) (hsound : mo.toScene.Sound U)
    (hformed : mo.event.Formed Ordered) : t.Scanned := by
  rcases h.token hformed htoken with ⟨role, hfits⟩ | ⟨keyword, parent, -, -, hsuper, hnone⟩
  · exact hfits.1
  · obtain ⟨cls, id, hthis⟩ := hsound.receiver_of_super hsuper
    exact absurd hthis (hnone cls id)

/-- A class that is declared in a text names its superclass. -/
theorem Event.Formed.superclass {P : Role → Token → Prop} {event : Event} {decl : ClassDecl}
    {superclass : Expr} (h : event.Formed P) (hevent : event = .executes (.classDecl decl))
    (hsome : decl.superclass = some superclass) : ∃ name, superclass = .variable name := by
  rw [hevent] at h
  obtain ⟨name, superclass', methods⟩ := decl
  obtain ⟨parent, hparent, -⟩ := h.2.1 superclass hsome
  exact ⟨parent, hparent⟩

/-- So it is the superclass that is blamed, and not the name of the class. -/
theorem Moment.Raises.superclass {P : Role → Token → Prop} {mo : Moment Surroundings} {t : Token}
    (h : mo.Raises (.superclassNotClass t)) (hformed : mo.event.Formed P) :
    ∃ decl, mo.event = .executes (.classDecl decl) ∧ decl.superclass = some (.variable t) := by
  cases h with
  | expression _ hblamed => cases hblamed
  | @declaration decl _ hevent hblamed =>
    obtain ⟨name, superclass, methods⟩ := decl
    cases hblamed with
    | superclass hsome =>
      obtain ⟨parent, rfl⟩ := hformed.superclass hevent hsome
      exact ⟨_, hevent, hsome⟩

/-- The failure blames a token of one of the texts. The token is not one that was put in the
place of a `super`, and a class that was not found was looked for as the superclass of a
class that was being declared. -/
structure Blames (sources : List String) (moments : List (Moment Surroundings))
    (failure : Failure) (t : Token) : Prop where
  token : failure.token? = some t
  found : ∃ source ∈ sources, t.FoundIn source
  written : ∀ source ∈ sources, ∀ keyword ∈ (scan source).tokens, keyword.kind = .kwSuper →
    t ≠ .plain .kwThis "this" keyword.span
  superclass : ∀ name, failure = .superclassNotClass name → ∃ mo ∈ moments, ∃ decl,
    mo.event = .executes (.classDecl decl) ∧ decl.superclass = some (.variable name)

/-- What earlier moments account for is accounted for by all that come later. -/
theorem Blames.mono {moments moments' : List (Moment Surroundings)} {failure : Failure} {t : Token}
    (h : Blames sources moments failure t) (hmoments : moments ⊆ moments') :
    Blames sources moments' failure t :=
  ⟨h.token, h.found, h.written, fun name hname =>
    let ⟨mo, hmo, hdecl⟩ := h.superclass name hname
    ⟨mo, hmoments hmo, hdecl⟩⟩

/-- A failure at a token that was drawn from a text blames a token of that text, if a wrong
superclass can be led back to its declaration. -/
theorem Drawn.blames {role : Role} {t t' : Token} {failure : Failure}
    {moments : List (Moment Surroundings)} (h : Drawn sources role t t')
    (hsize : ∀ source ∈ sources, source.utf8ByteSize < UInt32.size)
    (htoken : failure.token? = some t)
    (hsuperclass : ∀ name, failure = .superclassNotClass name → ∃ mo ∈ moments, ∃ decl,
      mo.event = .executes (.classDecl decl) ∧ decl.superclass = some (.variable name)) :
    Blames sources moments failure t := by
  obtain ⟨⟨-, source, hsource, hmem⟩, hfits⟩ := h
  refine ⟨htoken, ⟨source, hsource, Token.foundIn_of_mem (hsize source hsource) hmem
    (Role.ne_eof_of_fits hfits)⟩, ?_, hsuperclass⟩
  intro source' hsource' keyword hkeyword hsuper
  exact Token.Scanned.ne_missingThis (hsize source' hsource') hkeyword hsuper ⟨source, hmem⟩

/-- Also a `this` that nobody wrote is blamed at the place of a token of the texts. -/
theorem drawn_of_failure_alike {failure failure' : Failure} {t : Token}
    (h : failure.Alike (Drawn sources) failure') (htoken : failure.token? = some t) :
    ∃ u : Token, u.DrawnFrom sources ∧ u.kind ≠ .eof ∧ t.span = u.span := by
  have hdrawn : ∀ {role : Role} {u u' : Token}, Drawn sources role u u' → t.span = u.span →
      ∃ u : Token, u.DrawnFrom sources ∧ u.kind ≠ .eof ∧ t.span = u.span :=
    fun hu hspan => ⟨_, hu.1.2, Role.ne_eof_of_fits hu.2, hspan⟩
  cases h with
  | undefinedVariable hu | undefinedProperty hu | operand hu _ | notCallable hu | arity _ _ hu
  | notAnInstance _ hu | superclassNotClass hu | missingReceiver hu =>
    cases htoken
    exact hdrawn hu rfl
  | host | output => cases htoken

/-- The failure comes from a function of the host or from the output. -/
def FromOutside (failure : Failure) : Prop :=
  (∃ name message, failure = .host name message) ∨ ∃ problem, failure = .output problem

/-! ## Sessions -/

/-- The story of a host that works with these texts. The machine is idle between requests,
it holds only what was read from the texts, and only such statements have been executed. -/
structure Story.OfTexts (sources : List String) (w : Story Surroundings) : Prop where
  sound : w.Sound fun _ => True
  idle : w.Idle
  executed : ∀ mo ∈ w.moments, mo.event.Formed Ordered
  drawn : w.machine.Alike (Drawn sources) w.machine

/-- A machine that has only been booted knows nothing but what is in the texts, for it knows
nothing. -/
theorem begin_ofTexts (clock : Float) (sink : Sink) : (boot clock sink).begin.OfTexts sources :=
  ⟨begin_sound clock sink, begin_idle clock sink, List.forall_mem_nil _, boot_alike clock sink⟩

namespace Story.OfTexts

variable {fuel : Nat} {request : Request} {failure : Failure} {session : List (Nat × Request)}

/-- An ordinary request leads from closures of the texts to closures of the texts. -/
theorem leads (hw : w.OfTexts sources) (h : request.Ordinary w.machine) :
    w.Leads (fun _ => True) (w.serve note fuel request) :=
  serve_leads hw.sound hw.idle h fun _ _ => trivial

/-- A request runs in parallel with itself. -/
theorem ended (hw : w.OfTexts sources) (fuel : Nat) (h : request.Ordinary w.machine)
    (hread : request.ReadFrom sources) :
    Ended (Drawn sources) (Option.Rel (Value.Alike (Drawn sources)))
      (request.work fuel w.machine) (request.work fuel w.machine) :=
  (h.alike hw.drawn hread).work (fun _ _ _ => (·.sameWord)) fuel _ _ hw.drawn

/-- Whatever is run was read from a text, and so are the functions that are called. -/
theorem explained (hw : w.OfTexts sources) (fuel : Nat) (h : request.Ordinary w.machine) :
    (∀ failure, (w.machine.perform (request.work fuel)).1 = .failed failure →
      failure.token? = none ∨ ∃ mo ∈ (w.serve note fuel request).moments, mo.Raises failure) ∧
    ∀ mo ∈ (w.serve note fuel request).moments, mo ∈ w.moments ∨ mo.event.Formed Ordered :=
  have hlawful : Stmt.AllLawful (fun _ => True) [] request.stmts := h.lawful fun _ _ => trivial
  serve_explained fuel h hlawful.formed (hw.leads h).sound.orderly

/-- So what was drawn from the texts stays so over a request that was read from them. -/
theorem serve (hw : w.OfTexts sources) (fuel : Nat) (h : request.Ordinary w.machine)
    (hread : request.ReadFrom sources) : (w.serve note fuel request).OfTexts sources := by
  have hleads : w.Leads (fun _ => True) (w.serve note fuel request) := hw.leads h
  have hnew := (hw.explained fuel h).2
  have hafter := (hw.ended fuel h hread).perform.2
  rw [perform_work_snd, ← machine_serve note] at hafter
  exact ⟨hleads.sound, hw.idle.leads hw.sound hleads,
    fun mo hmo => (hnew mo hmo).elim (hw.executed mo) id, hafter⟩

/-- A failure has a counterpart, which is itself. -/
theorem failed_alike (hw : w.OfTexts sources) (h : request.Ordinary w.machine)
    (hread : request.ReadFrom sources)
    (hfailed : (w.machine.perform (request.work fuel)).1 = .failed failure) :
    ∃ failure', failure.Alike (Drawn sources) failure' := by
  have hends := (hw.ended fuel h hread).perform.1
  rw [hfailed] at hends
  cases hends with
  | failed halike => exact ⟨_, halike⟩

/-- A request that fails blames a token of the texts. -/
theorem serve_blames (hw : w.OfTexts sources)
    (hsize : ∀ source ∈ sources, source.utf8ByteSize < UInt32.size)
    (h : request.Ordinary w.machine) (hread : request.ReadFrom sources)
    (hfailed : (w.machine.perform (request.work fuel)).1 = .failed failure) :
    (∃ t, Blames sources (w.serve note fuel request).moments failure t) ∨ FromOutside failure := by
  have hafter : (w.serve note fuel request).OfTexts sources := hw.serve fuel h hread
  have hmoment := (hw.explained fuel h).1 failure hfailed
  obtain ⟨failure', halike⟩ := hw.failed_alike h hread hfailed
  have hblames : ∀ {role t t'}, Drawn sources role t t' → failure.token? = some t →
      (∀ name, failure ≠ .superclassNotClass name) →
      ∃ t, Blames sources (w.serve note fuel request).moments failure t :=
    fun ht htoken hother => ⟨_, ht.blames hsize htoken fun name hname => absurd hname (hother name)⟩
  cases halike with
  | undefinedVariable ht => exact .inl (hblames ht rfl fun _ => nofun)
  | missingReceiver hkeyword =>
    -- no moment raises this, because nobody has written the token
    obtain ⟨⟨-, source, hsource, hmem⟩, hfits⟩ := hkeyword
    rcases hmoment with hnone | ⟨mo, hmo, hraises⟩
    · cases hnone
    have hscanned := hraises.scanned rfl (hafter.sound.moments mo hmo).1 (hafter.executed mo hmo)
    exact absurd rfl (Token.Scanned.ne_missingThis (hsize source hsource) hmem
      (eq_of_beq hfits) hscanned)
  | undefinedProperty ht => exact .inl (hblames ht rfl fun _ => nofun)
  | operand ht _ => exact .inl (hblames ht rfl fun _ => nofun)
  | notCallable ht => exact .inl (hblames ht rfl fun _ => nofun)
  | arity _ _ ht => exact .inl (hblames ht rfl fun _ => nofun)
  | notAnInstance _ ht => exact .inl (hblames ht rfl fun _ => nofun)
  | @superclassNotClass name _ ht =>
    refine .inl ⟨name, ht.blames hsize rfl ?_⟩
    rintro _ ⟨⟩
    rcases hmoment with hnone | ⟨mo, hmo, hraises⟩
    · cases hnone
    exact ⟨mo, hmo, hraises.superclass (hafter.executed mo hmo)⟩
  | host name message => exact .inr (.inl ⟨name, message, rfl⟩)
  | output problem => exact .inr (.inr ⟨problem, rfl⟩)

theorem serveAll (hw : w.OfTexts sources) (h : w.machine.Ordinary session)
    (hread : ∀ step ∈ session, step.2.ReadFrom sources) :
    (w.serveAll note session).OfTexts sources := by
  induction session generalizing w with
  | nil => exact hw
  | cons step rest ih =>
    obtain ⟨hreadFirst, hreadRest⟩ := List.forall_mem_cons.mp hread
    have hordinary := h.2
    rw [← machine_serve note] at hordinary
    exact ih (hw.serve step.1 h.1 hreadFirst) hordinary hreadRest

/-- Each failure that a session answers with blames a token of its texts, or comes from outside
of the language. -/
theorem answers_blame (hw : w.OfTexts sources)
    (hsize : ∀ source ∈ sources, source.utf8ByteSize < UInt32.size)
    (h : w.machine.Ordinary session) (hread : ∀ step ∈ session, step.2.ReadFrom sources)
    (hfailed : .failed failure ∈ w.machine.answers session) :
    (∃ t, Blames sources (w.serveAll note session).moments failure t) ∨ FromOutside failure := by
  induction session generalizing w with
  | nil => cases hfailed
  | cons step rest ih =>
    obtain ⟨hreadFirst, hreadRest⟩ := List.forall_mem_cons.mp hread
    have hafter := hw.serve step.1 h.1 hreadFirst
    have hordinary := h.2
    rw [← machine_serve note] at hordinary
    have hlater := serveAll_leads hafter.sound hafter.idle hordinary fun _ _ => trivial
    rcases List.mem_cons.mp hfailed with hnow | hthen
    · refine (hw.serve_blames hsize h.1 hreadFirst hnow.symm).imp_left fun ⟨t, ht⟩ => ?_
      exact ⟨t, ht.mono hlater.kept⟩
    · rw [← machine_serve note] at hthen
      exact ih hafter hordinary hreadRest hthen

end Story.OfTexts

/-- **Failures point at tokens of the texts that were run.** In a session in which nothing is
run but what was read from texts of less than 2³² bytes, each failure blames a token that
the scanner found in one of these texts, unless it comes from a function of the host or
from the output. At no moment is a class executed whose superclass is no name, or `super`
evaluated where it stands for a class and there is no receiver. -/
theorem failures_point_at_tokens {sources : List String}
    (hsize : ∀ source ∈ sources, source.utf8ByteSize < UInt32.size) {clock : Float} {sink : Sink}
    {session : List (Nat × Request)} (h : (boot clock sink).Ordinary session)
    (hread : ∀ step ∈ session, step.2.ReadFrom sources) :
    let story := (boot clock sink).begin.serveAll note session
    (∀ failure, .failed failure ∈ (boot clock sink).answers session →
      (∃ t, Blames sources story.moments failure t) ∨
        (∃ name message, failure = .host name message) ∨ ∃ problem, failure = .output problem) ∧
    ∀ mo ∈ story.moments,
      (∀ decl superclass, mo.event = .executes (.classDecl decl) →
        decl.superclass = some superclass → ∃ name, superclass = .variable name) ∧
      ∀ keyword method parent, mo.event = .evaluates (.super keyword method) →
        mo.machine.forest.lookup mo.machine.current "super" = some (.classRef parent) →
        ∃ cls id, mo.machine.forest.lookup mo.machine.current "this" = some (.instanceOf cls id) := by
  intro story
  have hbegin : (boot clock sink).begin.OfTexts sources := begin_ofTexts clock sink
  have hstory : story.OfTexts sources := hbegin.serveAll h hread
  refine ⟨fun failure hfailed => hbegin.answers_blame hsize h hread hfailed, fun mo hmo => ⟨?_, ?_⟩⟩
  · intro decl superclass hevent hsome
    exact (hstory.executed mo hmo).superclass hevent hsome
  · intro keyword method parent _ hsuper
    exact (hstory.sound.moments mo hmo).1.receiver_of_super hsuper

/-- A function that the first text declares fails when the second one calls it, and then a
method of a class in the first text does, which uses `super`. -/
theorem failures_point_at_tokens_later :
    let first := "fun f(x)\x7breturn -x;\x7d\nclass A\x7b\x7dclass B<A\x7bm()\x7bsuper.m();\x7d\x7d"
    let second := "f(\"a\");"
    let third := "B().m();"
    let session : List (Nat × Request) := [first, second, third].map fun source =>
      (20, .interpret (Program.ofSource source).stmts)
    let story := (boot 0 .unlimited).begin.serveAll note session
    (boot 0 .unlimited).Ordinary session ∧
      ((boot 0 .unlimited).answers session).filterMap (fun answer => match answer with
        | .failed failure => failure.token?.map fun t => (t.lexeme, t.span)
        | _ => none) = [("-", ⟨16, 17, 1⟩), ("m", ⟨50, 51, 2⟩)] ∧
      (∀ failure, .failed failure ∈ (boot 0 .unlimited).answers session →
        (∃ t, Blames [first, second, third] story.moments failure t) ∨
          (∃ name message, failure = .host name message) ∨
          ∃ problem, failure = .output problem) := by
  intro first second third session story
  have hsize : ∀ source ∈ [first, second, third], source.utf8ByteSize < UInt32.size := by decide
  have hordinary : (boot 0 .unlimited).Ordinary session :=
    ⟨⟨_, rfl⟩, ⟨_, rfl⟩, ⟨_, rfl⟩, trivial⟩
  have hread : ∀ step ∈ session, step.2.ReadFrom [first, second, third] := by
    refine List.forall_mem_map.mpr fun source hsource => ?_
    exact ⟨source, hsource, rfl⟩
  exact ⟨hordinary, by decide +kernel, (failures_point_at_tokens hsize hordinary hread).1⟩

end Machine

end Lox
