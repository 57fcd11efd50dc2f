/-
`Lox.Proofs.Likeness.KnownOperator` -- programs that were read hold no unknown operators.

The evaluator takes any token for an operator, and complains about those that it does not
know. The readers put none of these into a tree, whatever the tokens look like and
whatever is complained about (`Role.kinds`). That no run ever meets an unknown operator
is more than that, because functions are run later than they are read, and from a store
that other sources have written to.

It is said here by likeness. Where a token has no counterpart but itself, and only if it
fits its role, a tree that is like itself holds no unknown operator; and neither does a
machine that is like itself. The run of such a tree on such a machine goes in parallel
with itself, which leaves the machine as it was in this respect, and there is no way in
which a known operator fails as an unknown one.
-/
import Lox.Proofs.Likeness.Reading
import Lox.Proofs.Likeness.Run
import Lox.Proofs.Method.Session

set_option autoImplicit false

namespace Lox

/-! ## Roles and kinds -/

/-- The kinds of tokens that play a role in a program that was read. -/
def Role.kinds : Role → List TokenKind
  | name => [.identifier]
  | sign => [.bang, .minus]
  | operator =>
    [.plus, .minus, .star, .slash, .greater, .greaterEqual, .less, .lessEqual, .equalEqual,
      .bangEqual]
  | connective => [.kwAnd, .kwOr]
  | receiver => [.kwThis]
  | superclass => [.kwSuper]
  | returning => [.kwReturn]
  | closing => [.rightParen]

/-- A role is fitted by a list of kinds. -/
theorem Role.fits_iff_mem_kinds {role : Role} {kind : TokenKind} :
    role.fits kind ↔ kind ∈ role.kinds := by
  cases role <;> cases kind <;> decide

/-- Whatever is wrong with some tokens, the statements that are read from them are well
formed at every depth. -/
theorem Program.ofTokens_formed (tokens : List Token) :
    Stmt.AllFormed (fun role t => t.kind ∈ role.kinds) (Program.ofTokens tokens).stmts := by
  have hfitting : Grammar.Fitting (fun _ => True) = fun role t => t.kind ∈ role.kinds := by
    funext role t
    simp [Grammar.Fitting, Role.fits_iff_mem_kinds]
  rw [← hfitting]
  exact Grammar.read_formed fun _ _ => trivial

/-! ## Trees without unknown operators -/

/-- The tokens are one token, which fits the role. -/
abbrev Role.Played (role : Role) (t t' : Token) : Prop :=
  Grammar.Counterparts Eq role t t'

/-- The counterpart of a token is that token. -/
theorem Role.Played.eq {role : Role} {t t' : Token} (h : role.Played t t') : t = t' :=
  h.1

theorem Role.Played.sameWord {role : Role} {t t' : Token} (h : role.Played t t') :
    t.SameWord t' := by
  rw [h.eq]
  exact ⟨rfl, rfl, rfl⟩

/-- The statement was read from some tokens, with or without mistakes in them. -/
def Stmt.IsParsed (stmt : Stmt) : Prop :=
  ∃ tokens, stmt ∈ (Program.ofTokens tokens).stmts

/-- What was read is like itself. -/
theorem Stmt.IsParsed.alike {stmt : Stmt} (h : stmt.IsParsed) : stmt.Alike Role.Played stmt := by
  obtain ⟨tokens, hmem⟩ := h
  have hself : List.Forall₂ Eq tokens tokens := List.forall₂_same.mpr fun _ _ => rfl
  have hword : ∀ t t' : Token, t = t' → t.SameWord t' := by
    rintro t _ rfl
    exact ⟨rfl, rfl, rfl⟩
  have hread := (Grammar.read_alike hword hself rfl).1
  exact List.forall₂_same.mp hread stmt hmem

/-- Statements that were read are like themselves, one by one. -/
theorem Stmt.forall₂_alike_of_isParsed {stmts : List Stmt} (h : ∀ stmt ∈ stmts, stmt.IsParsed) :
    List.Forall₂ (Stmt.Alike Role.Played) stmts stmts :=
  List.forall₂_same.mpr fun stmt hmem => (h stmt hmem).alike

/-- An operator that fits its role is known, so a failure with an unknown one is not even like
itself. -/
theorem Failure.Alike.not_unknownOperator {op : Token} {failure : Failure}
    (h : Failure.Alike Role.Played (.operand op .unknownOperator) failure) : False := by
  cases h with
  | operand hop hunknown =>
    have hfits : Role.fits _ op.kind = true := hop.2
    rw [hunknown rfl] at hfits
    cases hfits

/-! ## Sessions of programs that were read -/

/-- The value that a statement returned. -/
def Completion.value? : Completion → Option Value
  | .normal => none
  | .returned value => some value

/-- Completions that are alike return values that are. -/
theorem Completion.Alike.value? {P : Role → Token → Token → Prop}
    {completion completion' : Completion} (h : completion.Alike P completion') :
    Option.Rel (Value.Alike P) completion.value? completion'.value? := by
  cases h with
  | normal => exact .none
  | returned hvalue => exact .some hvalue

/-- The values that the host has got by a piece of work. -/
def Verdict.values : Verdict (Option Value) → List Value
  | .done value => value.toList
  | .failed _ | .outOfFuel => []

namespace Machine

/-- A request as a piece of work. It gives the host a value, if there is one to give. -/
def Request.work (fuel : Nat) : Request → Run (Option Value)
  | .interpret stmts => (fun _ => none) <$> runProgram fuel stmts
  | .execute stmt => Completion.value? <$> Machine.execute fuel stmt
  | .executeIn frame stmts => Completion.value? <$> Machine.executeIn fuel frame stmts
  | .evaluate expr => some <$> Machine.evaluate fuel expr
  | .invoke callee args => some <$> Machine.invoke fuel callee args
  | .frameInside parent => (fun _ => none) <$> newFrame parent
  | .define frame name value => (fun _ => none) <$> Machine.define frame name value
  | .defineHost name arity body =>
    (fun _ => none) <$> (modify fun m => m.defineHost name arity body : Run Unit)
  | .takeOutput => (fun _ => none) <$> (modify fun m => m.takeOutput.2 : Run Unit)

/-- What is done with the result leaves the machine alone. -/
theorem perform_map_snd {α β : Type} (m : Machine) (f : α → β) (x : Run α) :
    (m.perform (f <$> x)).2 = (m.perform x).2 := by
  show (m.perform (EStateM.map f x)).2 = _
  unfold perform EStateM.map
  cases x m with
  | ok a m' => rfl
  | error halt m' => cases halt <;> rfl

/-- To serve a request is to do this work. -/
theorem perform_work_snd (m : Machine) (fuel : Nat) (request : Request) :
    (m.perform (request.work fuel)).2 = m.serve fuel request := by
  cases request <;> exact perform_map_snd m _ _

/-- What the requests hand to the machine is alike: statements and expressions, callees and
arguments, values and functions of the host. -/
inductive Request.Alike (P : Role → Token → Token → Prop) : Request → Request → Prop
  | interpret {stmts stmts' : List Stmt} :
    List.Forall₂ (Stmt.Alike P) stmts stmts' → Alike P (.interpret stmts) (.interpret stmts')
  | execute {stmt stmt' : Stmt} : stmt.Alike P stmt' → Alike P (.execute stmt) (.execute stmt')
  | executeIn (frame : FrameId) {stmts stmts' : List Stmt} :
    List.Forall₂ (Stmt.Alike P) stmts stmts' →
    Alike P (.executeIn frame stmts) (.executeIn frame stmts')
  | evaluate {expr expr' : Expr} : expr.Alike P expr' → Alike P (.evaluate expr) (.evaluate expr')
  | invoke {callee callee' : Callee} {args args' : List Value} :
    callee.Alike P callee' → List.Forall₂ (Value.Alike P) args args' →
    Alike P (.invoke callee args) (.invoke callee' args')
  | frameInside (parent : FrameId) : Alike P (.frameInside parent) (.frameInside parent)
  | define (frame : FrameId) (name : String) {value value' : Value} :
    value.Alike P value' → Alike P (.define frame name value) (.define frame name value')
  | defineHost (name : String) (arity : Nat) {body body' : HostBody} :
    body.Alike P body' → Alike P (.defineHost name arity body) (.defineHost name arity body')
  | takeOutput : Alike P .takeOutput .takeOutput

/-- Results may be mapped on both sides. -/
theorem Ended.map {P : Role → Token → Token → Prop} {α α' β β' : Type} {good : α → α' → Prop}
    {good' : β → β' → Prop} {x : Run α} {x' : Run α'} {m m' : Machine} {f : α → β} {f' : α' → β'}
    (h : Ended P good (x m) (x' m')) (hf : ∀ a a', good a a' → good' (f a) (f' a')) :
    Ended P good' ((f <$> x) m) ((f' <$> x') m') := by
  show Ended P good' (EStateM.map f x m) (EStateM.map f' x' m')
  unfold EStateM.map
  generalize x m = result at h
  generalize x' m' = result' at h
  cases h with
  | ok hgood hm => exact .ok (hf _ _ hgood) hm
  | error hhalt hm => exact .error hhalt hm

/-- Alike requests are served alike. -/
theorem Request.Alike.work {P : Role → Token → Token → Prop}
    (hP : ∀ role t t', P role t t' → t.SameWord t') (fuel : Nat) {request request' : Request}
    (h : request.Alike P request') :
    Parallel P (Option.Rel (Value.Alike P)) (request.work fuel) (request'.work fuel) := by
  intro m m' hm
  have hall := ParallelAt.all hP fuel
  have hnone : ∀ {α : Type} (a a' : α), a = a' → Option.Rel (Value.Alike P) none none :=
    fun _ _ _ => .none
  cases h with
  | interpret hstmts => exact (runProgram_parallel hP fuel hstmts m m' hm).map hnone
  | execute hstmt => exact (hall.execute hstmt m m' hm).map fun _ _ => (·.value?)
  | executeIn frame hstmts =>
    exact ((hall.executeEach hstmts).within frame m m' hm).map fun _ _ => (·.value?)
  | evaluate hexpr => exact (hall.evaluate hexpr m m' hm).map fun _ _ => .some
  | invoke hcallee hargs => exact (hall.invoke hcallee hargs m m' hm).map fun _ _ => .some
  | frameInside parent => exact (newFrame_parallel parent m m' hm).map hnone
  | define frame name hvalue => exact (define_parallel frame name hvalue m m' hm).map hnone
  | defineHost name arity hbody => exact .ok .none (defineHost_alike hm hbody name arity)
  | takeOutput =>
    refine .ok .none ⟨hm.forest, hm.current, hm.fields, hm.hosts, hm.nextSerial, ?_⟩
    show Sink.cleared _ = Sink.cleared _
    rw [hm.sink]

/-- How the requests of a session end. -/
def answers (m : Machine) : List (Nat × Request) → List (Verdict (Option Value))
  | [] => []
  | (fuel, request) :: rest =>
    (m.perform (request.work fuel)).1 :: (m.serve fuel request).answers rest

/-- A value that the host can have when it has got hold of some. -/
def Knows (m : Machine) (had : List Value) (value : Value) : Prop :=
  m.Offers value ∨ value ∈ had

/-- The statements and expressions of the request were read, and the host makes no
functions or classes by itself. -/
def Request.OnlyParsed (m : Machine) (had : List Value) : Request → Prop
  | .interpret stmts | .executeIn _ stmts => ∀ stmt ∈ stmts, stmt.IsParsed
  | .execute stmt => stmt.IsParsed
  | .evaluate expr => (Stmt.expression expr).IsParsed
  | .invoke callee args =>
    (∃ value, m.Knows had value ∧ Callee.ofValue? value = some callee) ∧
      ∀ arg ∈ args, m.Knows had arg
  | .define _ _ value => m.Knows had value
  | .defineHost _ _ body =>
    ∀ args value, body args = .ok value → value ∈ args ∨ m.Knows had value
  | .frameInside _ | .takeOutput => True

/-- All requests of the session are such ones. -/
def OnlyParsed (m : Machine) (had : List Value) : List (Nat × Request) → Prop
  | [] => True
  | (fuel, request) :: rest => request.OnlyParsed m had ∧
    (m.serve fuel request).OnlyParsed (had ++ (m.perform (request.work fuel)).1.values) rest

section Sessions

variable {m : Machine} {had : List Value} {value : Value}

/-- What a machine holds that is like itself is like itself. -/
theorem Alike.of_holds {P : Role → Token → Token → Prop} (hm : m.Alike P m)
    (h : m.Holds value) : value.Alike P value := by
  cases h with
  | @name id name value hlocal =>
    have hvalue := hm.forest.local? id name
    rw [hlocal] at hvalue
    cases hvalue with
    | some hvalue => exact hvalue
  | @field i fields name value hfields hfind =>
    have htable := hm.fields.get? i
    rw [hfields] at htable
    cases htable with
    | some htable =>
      have hvalue := htable.find? name
      rw [hfind] at hvalue
      cases hvalue with
      | some hvalue => exact hvalue

theorem Alike.of_knows {P : Role → Token → Token → Prop} (hm : m.Alike P m)
    (hhad : ∀ value ∈ had, value.Alike P value) (h : m.Knows had value) :
    value.Alike P value := by
  rcases h with (hplain | hheld) | hmem
  · exact .plain hplain
  · exact hm.of_holds hheld
  · exact hhad value hmem

/-- A function of the host that hands on what it knows or was given. -/
theorem hostBody_alike {P : Role → Token → Token → Prop} (hP : ∀ role t t', P role t t' → t = t')
    {body : HostBody} (hm : m.Alike P m) (hhad : ∀ value ∈ had, value.Alike P value)
    (h : ∀ args value, body args = .ok value → value ∈ args ∨ m.Knows had value) :
    body.Alike P body := by
  intro args args' hargs
  -- a value is like itself only, so there is but one list of arguments to look at
  have heq : args = args' := eq_of_forall₂ (fun _ _ => Value.Alike.eq hP) hargs
  subst heq
  cases hresult : body args with
  | error message => exact .error rfl
  | ok value =>
    rcases h args value hresult with hmem | hknown
    · exact .ok (List.forall₂_same.mp hargs value hmem)
    · exact .ok (hm.of_knows hhad hknown)

/-- What is called is alike if the value is. -/
theorem Callee.alike_of_ofValue? {P : Role → Token → Token → Prop} {callee : Callee}
    (h : Callee.ofValue? value = some callee) (hvalue : value.Alike P value) :
    callee.Alike P callee := by
  have hfound := Callee.ofValue?_alike hvalue
  rw [h] at hfound
  cases hfound with
  | some hcallee => exact hcallee

/-- Such a request is like itself. -/
theorem Request.OnlyParsed.alike {request : Request} (hm : m.Alike Role.Played m)
    (hhad : ∀ value ∈ had, value.Alike Role.Played value) (h : request.OnlyParsed m had) :
    request.Alike Role.Played request := by
  cases request with
  | interpret stmts => exact .interpret (Stmt.forall₂_alike_of_isParsed h)
  | execute stmt => exact .execute (Stmt.IsParsed.alike h)
  | executeIn frame stmts => exact .executeIn frame (Stmt.forall₂_alike_of_isParsed h)
  | evaluate expr =>
    have hstmt := Stmt.IsParsed.alike h
    cases hstmt with
    | expression hexpr => exact .evaluate hexpr
  | invoke callee args =>
    obtain ⟨⟨value, hvalue, hcallee⟩, hargs⟩ := h
    have hknown := List.forall₂_same.mpr fun arg harg => hm.of_knows hhad (hargs arg harg)
    exact .invoke (Callee.alike_of_ofValue? hcallee (hm.of_knows hhad hvalue)) hknown
  | frameInside parent => exact .frameInside parent
  | define frame name value => exact .define frame name (hm.of_knows hhad h)
  | defineHost name arity body =>
    exact .defineHost name arity (hostBody_alike (fun _ _ _ => (·.eq)) hm hhad h)
  | takeOutput => exact .takeOutput

/-- No answer of a session says that an operator is unknown. The induction is on the session,
with what the host has got so far. -/
theorem answers_known {session : List (Nat × Request)} (hm : m.Alike Role.Played m)
    (hhad : ∀ value ∈ had, value.Alike Role.Played value) (h : m.OnlyParsed had session) :
    ∀ answer ∈ m.answers session, ∀ op, answer ≠ .failed (.operand op .unknownOperator) := by
  induction session generalizing m had with
  | nil => exact List.forall_mem_nil _
  | cons step rest ih =>
    obtain ⟨fuel, request⟩ := step
    have hwork := (h.1.alike hm hhad).work (fun _ _ _ => (·.sameWord)) fuel m m hm
    obtain ⟨hverdict, hafter⟩ := hwork.perform
    rw [perform_work_snd] at hafter
    -- what the host gets for a request, it may use in all later ones
    refine List.forall_mem_cons.mpr ⟨?_, ih hafter ?_ h.2⟩
    · intro op hop
      rw [hop] at hverdict
      cases hverdict with
      | failed hfailure => exact hfailure.not_unknownOperator
    · refine List.forall_mem_append.mpr ⟨hhad, ?_⟩
      generalize (m.perform (request.work fuel)).1 = answer at hverdict
      cases hverdict with
      | done hvalue =>
        cases hvalue with
        | none => exact List.forall_mem_nil _
        | some hvalue => exact List.forall_mem_singleton.mpr hvalue
      | failed _ | outOfFuel => exact List.forall_mem_nil _

end Sessions

end Machine

open Machine

/-- **No operator is unknown.** Whatever a list of tokens looks like, in the statements that
are read from it every token is of a kind that fits its role, at every depth, and
superclasses are names. And whatever is done in a session in which only such statements are
run, be it in any order and with mistakes in the sources, no request in it fails because of
an unknown operator. -/
theorem Program.operators_are_known :
    (∀ tokens,
      Stmt.AllFormed (fun role t => t.kind ∈ role.kinds) (Program.ofTokens tokens).stmts) ∧
    ∀ clock sink session, (boot clock sink).OnlyParsed [] session →
      ∀ answer ∈ (boot clock sink).answers session,
        ∀ op, answer ≠ .failed (.operand op .unknownOperator) :=
  ⟨Program.ofTokens_formed, fun clock sink _ h =>
    answers_known (boot_alike clock sink) (List.forall_mem_nil _) h⟩

/-- A function and a class are left of a text with two mistakes, and are called from another
one through a function of the host that hands its argument back. -/
theorem Program.operators_are_known_mistakes :
    let first := Program.ofTokens
      (scan "fun f(x)\x7breturn -x;\x7d ) var; class A\x7bm()\x7breturn f;\x7d\x7d").tokens
    let second := Program.ofTokens (scan "id(A().m())(\"a\");").tokens
    let session : List (Nat × Request) :=
      [(20, .interpret first.stmts), (0, .defineHost "id" 1 fun args => .ok (args.headD .nil)),
        (20, .interpret second.stmts)]
    first.diagnostics.length = 2 ∧
      Stmt.AllFormed (fun role t => t.kind ∈ role.kinds) first.stmts ∧
      (boot 0 .unlimited).OnlyParsed [] session ∧
      ∀ answer ∈ (boot 0 .unlimited).answers session,
        ∀ op, answer ≠ .failed (.operand op .unknownOperator) := by
  dsimp only
  suffices honly : _ from
    ⟨by decide +kernel, Program.operators_are_known.1 _, honly,
      Program.operators_are_known.2 0 .unlimited _ honly⟩
  refine ⟨fun stmt hmem => ⟨_, hmem⟩, ?_, fun stmt hmem => ⟨_, hmem⟩, trivial⟩
  rintro (_ | ⟨arg, args⟩) value ⟨⟩
  · exact .inr (.inl (.inl trivial))
  · exact .inl List.mem_cons_self

end Lox
