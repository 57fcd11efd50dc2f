/-
`Lox.Proofs.Failure.Raised` -- the moment at which a failure is raised.

A failure that points at a token is raised where that token is looked at: in the
evaluation of the expression that the token belongs to, or in the declaration of a class.
Which one it was can be said when the run is told (`Moment.Raises`). Two failures blame a
token that is not where the mistake is: a `super` without a receiver blames a `this` that
nobody wrote, and a superclass that is no name leaves the name of the class to be blamed.

The evaluator blames nothing else (`ExplainedAt`). Along with it goes that all statements
that are executed and all expressions that are evaluated are in order, as long as the
functions that are called are; a superclass is then a name. Whether a receiver can be
missing is a question about the frames of that moment, and not for here.
-/
import Lox.Proofs.Grammar.Formed
import Lox.Proofs.Machine.Story

set_option autoImplicit false

namespace Lox

/-- The failure blames a token of the expression itself, and none in a part of it. -/
inductive Expr.Blamed : Expr → Failure → Prop
  | unary {op : Token} {operand : Expr} (problem : OperandProblem) :
    Blamed (.unary op operand) (.operand op problem)
  | binary {left right : Expr} {op : Token} (problem : OperandProblem) :
    Blamed (.binary left op right) (.operand op problem)
  | logical {left right : Expr} {op : Token} (problem : OperandProblem) :
    Blamed (.logical left op right) (.operand op problem)
  | variable {name : Token} : Blamed (.variable name) (.undefinedVariable name)
  | assign {name : Token} {value : Expr} : Blamed (.assign name value) (.undefinedVariable name)
  | notCallable {callee : Expr} {paren : Token} {args : List Expr} :
    Blamed (.call callee paren args) (.notCallable paren)
  | arity {callee : Expr} {paren : Token} {args : List Expr} (expected got : Nat) :
    Blamed (.call callee paren args) (.arity paren expected got)
  | get {object : Expr} {name : Token} : Blamed (.get object name) (.undefinedProperty name)
  | read {object : Expr} {name : Token} : Blamed (.get object name) (.notAnInstance name .read)
  | write {object value : Expr} {name : Token} :
    Blamed (.set object name value) (.notAnInstance name .write)
  | this {keyword : Token} : Blamed (.this keyword) (.undefinedVariable keyword)
  | super {keyword method : Token} : Blamed (.super keyword method) (.undefinedVariable keyword)
  | method {keyword method : Token} : Blamed (.super keyword method) (.undefinedProperty method)

/-- The failure blames a token in the head of the declaration. -/
inductive ClassDecl.Blamed (decl : ClassDecl) : Failure → Prop
  | name : Blamed decl (.undefinedVariable decl.name)
  | superclass {superclass : Expr} : decl.superclass = some superclass →
    Blamed decl (.superclassNotClass (Machine.superclassToken decl superclass))

section Formed

variable {P : Role → Token → Prop} {failure : Failure} {t : Token}

/-- What is blamed has a role in the expression. -/
theorem Expr.Blamed.token {expr : Expr} (h : expr.Blamed failure) (hformed : expr.Formed P)
    (htoken : failure.token? = some t) : ∃ role, P role t := by
  cases h with
  | unary _ | «variable» | assign | this | super =>
    cases htoken
    exact ⟨_, by first | exact hformed | exact hformed.1⟩
  | binary _ | logical _ | notCallable | arity _ _ | write =>
    cases htoken
    exact ⟨_, hformed.2.1⟩
  | get | read | method =>
    cases htoken
    exact ⟨_, hformed.2⟩

/-- The tokens that a class declaration may blame were formed with it. -/
theorem ClassDecl.Blamed.token {decl : ClassDecl} (h : decl.Blamed failure)
    (hformed : (Stmt.classDecl decl).Formed P) (htoken : failure.token? = some t) :
    ∃ role, P role t := by
  obtain ⟨name, superclass, methods⟩ := decl
  cases h with
  | name =>
    cases htoken
    exact ⟨_, hformed.1⟩
  | superclass hsome =>
    obtain ⟨parent, rfl, hparent⟩ := hformed.2.1 _ hsome
    cases htoken
    exact ⟨_, hparent⟩

end Formed

namespace Machine

variable {G : Type} {α β : Type}

/-- At this moment something is begun that the failure is about. -/
inductive Moment.Raises (mo : Moment G) : Failure → Prop
  | expression {expr : Expr} {failure : Failure} :
    mo.event = .evaluates expr → expr.Blamed failure → Raises mo failure
  /-- There is a class to look in, and no receiver. -/
  | receiver {keyword method : Token} {parent : Class} :
    mo.event = .evaluates (.super keyword method) →
    mo.machine.forest.lookup mo.machine.current "super" = some (.classRef parent) →
    (∀ cls id, mo.machine.forest.lookup mo.machine.current "this" ≠ some (.instanceOf cls id)) →
    Raises mo (.undefinedVariable (.plain .kwThis "this" keyword.span))
  | declaration {decl : ClassDecl} {failure : Failure} :
    mo.event = .executes (.classDecl decl) → decl.Blamed failure → Raises mo failure

/-! ## Steps that fail -/

/-- If the step fails, then in one of these ways. -/
def FailsOnly (own : Failure → Prop) (y : Run α) : Prop :=
  ∀ m failure m', y m = .error (.failed failure) m' → own failure

namespace FailsOnly

variable {own : Failure → Prop} {y : Run α} {f : α → Run β}

protected theorem pure (a : α) : FailsOnly own (pure a : Run α) :=
  fun _ _ _ h => by cases h

protected theorem modify (g : Machine → Machine) : FailsOnly own (modify g : Run Unit) :=
  fun _ _ _ h => by cases h

protected theorem modifyGet (g : Machine → α × Machine) : FailsOnly own (modifyGet g : Run α) :=
  fun _ _ _ h => by cases h

protected theorem fail {failure : Failure} (h : own failure) :
    FailsOnly own (fail failure : Run α) := by
  intro m failure' m' hfailed
  cases hfailed
  exact h

/-- Two runs after one another fail only as one of the two does. -/
protected theorem bind (hy : FailsOnly own y) (hf : ∀ a, FailsOnly own (f a)) :
    FailsOnly own (y >>= f) := by
  intro m failure m' hfailed
  cases hrun : y m with
  | ok a m₁ =>
    rw [bind_of_ok hrun] at hfailed
    exact hf a m₁ failure m' hfailed
  | error halt m₁ =>
    rw [bind_of_error hrun] at hfailed
    cases hfailed
    exact hy m failure m' hrun

/-- Failing in fewer ways is failing in more. -/
theorem imp {own' : Failure → Prop} (h : FailsOnly own y)
    (himp : ∀ {failure : Failure}, own failure → own' failure) : FailsOnly own' y :=
  fun m failure m' hfailed => himp (h m failure m' hfailed)

/-- A run that looks at the machine fails as what it does with it. -/
theorem get {f : Machine → Run β} (hf : ∀ m, FailsOnly own (f m)) :
    FailsOnly own (MonadState.get >>= f) :=
  fun m => hf m m

/-- A computed result fails as it was computed. -/
theorem liftExcept {result : Except Failure α} (h : ∀ failure, result = .error failure → own failure) :
    FailsOnly own (liftExcept result) := by
  cases result with
  | ok a => exact .pure a
  | error failure => exact .fail (h failure rfl)

end FailsOnly

section Steps

variable {own : Failure → Prop}

/-- A variable that is read blames its name. -/
theorem readVariable_failsOnly {name : Token} (h : own (.undefinedVariable name)) :
    FailsOnly own (readVariable name) := by
  refine .bind (.get fun _ => .get fun _ => .pure _) fun found => ?_
  cases found with
  | some value => exact .pure value
  | none => exact .fail h

theorem writeVariable_failsOnly {name : Token} (value : Value)
    (h : own (.undefinedVariable name)) : FailsOnly own (writeVariable name value) := by
  refine .get fun m => ?_
  cases m.forest.owner? m.current name.lexeme with
  | some owner => exact .modify _
  | none => exact .fail h

/-- Making a closure cannot fail. -/
theorem newClosure_failsOnly (fn : Closure) : FailsOnly own (newClosure fn) :=
  (FailsOnly.modifyGet _).bind fun _ => .pure _

/-- Neither can binding a method to its receiver. -/
theorem bind_failsOnly (method : Closure) (receiver : Value) :
    FailsOnly own (bind method receiver) :=
  (FailsOnly.modifyGet _).bind fun _ => (FailsOnly.modify _).bind fun _ => .pure _

/-- A property that is missing blames its name. -/
theorem readProperty_failsOnly (cls : Class) (id : InstanceId) {name : Token}
    (h : own (.undefinedProperty name)) : FailsOnly own (readProperty cls id name) := by
  refine .get fun m => ?_
  split
  · exact .pure _
  · split
    · exact (bind_failsOnly _ _).bind fun _ => newClosure_failsOnly _
    · exact .fail h

/-- What a function of the host fails with names no token. -/
theorem callHost_failsOnly (fn : HostFunction) (args : List Value) :
    FailsOnly (·.token? = none) (callHost fn args) := by
  refine .get fun m => ?_
  split
  · split
    · exact .pure _
    · exact .fail rfl
  · exact .pure _

/-- Parameters are bound without failing, their number having been checked before. -/
theorem bindParameters_failsOnly (frame : FrameId) (params : List Token) (args : List Value) :
    FailsOnly own (bindParameters frame params args) := by
  unfold bindParameters
  induction params.zip args with
  | nil => exact .pure _
  | cons pair rest ih => exact (FailsOnly.modify _).bind fun _ => ih

/-- A line that cannot be printed names no token either. -/
theorem printLine_failsOnly (text : String) : FailsOnly (·.token? = none) (printLine text) := by
  intro m failure m' h
  unfold printLine at h
  dsimp only at h
  split at h
  · cases h
  · cases h
    rfl

/-- Nor does a sink that cannot be flushed. -/
theorem flush_failsOnly : FailsOnly (·.token? = none) flush := by
  refine .get fun m => ?_
  split
  · exact .fail rfl
  · exact .pure _

/-- A class declaration fails at its name at most, when it comes to be assigned. -/
theorem declareClass_failsOnly (decl : ClassDecl) (parent : Option Class)
    (h : own (.undefinedVariable decl.name)) : FailsOnly own (declareClass decl parent) := by
  have hmade : ∀ frame ancestors, FailsOnly own (do
      let own : ClassBody := ⟨← newSerial, decl.name.lexeme, methodTable frame decl.methods⟩
      writeVariable decl.name (.classRef ⟨own, ancestors⟩)) :=
    fun _ _ => (FailsOnly.modifyGet _).bind fun _ => writeVariable_failsOnly _ h
  refine (FailsOnly.modify _).bind fun _ => ?_
  cases parent with
  | none => exact .get fun m => hmade m.current []
  | some parent =>
    exact .get fun m => (FailsOnly.modifyGet _).bind fun frame =>
      (FailsOnly.modify _).bind fun _ => hmade frame parent.lineage

/-- An operator that fails blames itself. -/
theorem unaryResult_error {op : Token} {operand : Value} {failure : Failure}
    (h : unaryResult op operand = .error failure) : ∃ problem, failure = .operand op problem := by
  unfold unaryResult at h
  split at h <;> cases h <;> exact ⟨_, rfl⟩

theorem onNumbers_error {op : Token} {f : Float → Float → Value} {left right : Value}
    {failure : Failure} (h : onNumbers op f left right = .error failure) :
    ∃ problem, failure = .operand op problem := by
  unfold onNumbers at h
  split at h <;> cases h
  exact ⟨_, rfl⟩

/-- So does every operator between two operands. -/
theorem binaryResult_error {op : Token} {left right : Value} {failure : Failure}
    (h : binaryResult op left right = .error failure) :
    ∃ problem, failure = .operand op problem := by
  unfold binaryResult at h
  split at h
  · unfold sumOrJoin at h
    split at h <;> cases h
    exact ⟨_, rfl⟩
  iterate 7 exact onNumbers_error h
  iterate 2 cases h
  cases h
  exact ⟨_, rfl⟩

/-- And one that decides by its left operand. -/
theorem shortCircuits_error {op : Token} {left : Value} {failure : Failure}
    (h : shortCircuits op left = .error failure) : ∃ problem, failure = .operand op problem := by
  unfold shortCircuits at h
  split at h <;> cases h
  exact ⟨_, rfl⟩

/-- The three ways in which `super` and a name can fail. -/
theorem readSuper_error {keyword method : Token} {m m' : Machine} {failure : Failure}
    (h : readSuper keyword method m = .error (.failed failure) m') :
    failure = .undefinedVariable keyword ∨ failure = .undefinedProperty method ∨
      failure = .undefinedVariable (.plain .kwThis "this" keyword.span) ∧
        ∃ parent, m.forest.lookup m.current "super" = some (.classRef parent) ∧
          ∀ cls id, m.forest.lookup m.current "this" ≠ some (.instanceOf cls id) := by
  unfold readSuper at h
  rw [bind_of_ok (lookupHere_run "super")] at h
  -- what is found as `super`, and then what is found as `this`
  rcases hsuper : m.forest.lookup m.current "super" with _ | value
  · rw [hsuper] at h
    cases h
    exact .inl rfl
  rw [hsuper] at h
  cases value with
  | classRef parent =>
    dsimp only at h
    rw [bind_of_ok (lookupHere_run "this")] at h
    by_cases hreceiver : ∃ cls id, m.forest.lookup m.current "this" = some (.instanceOf cls id)
    · obtain ⟨cls, id, hthis⟩ := hreceiver
      rw [hthis] at h
      dsimp only at h
      rcases hmethod : parent.findMethod? method.lexeme with _ | found
      · rw [hmethod] at h
        cases h
        exact .inr (.inl rfl)
      · rw [hmethod] at h
        have hnever : FailsOnly (fun _ => False)
            (Machine.bind found (.instanceOf cls id) >>= newClosure) :=
          (bind_failsOnly _ _).bind fun _ => newClosure_failsOnly _
        exact (hnever m failure m' h).elim
    · have hnone : ∀ cls id, m.forest.lookup m.current "this" ≠ some (.instanceOf cls id) :=
        fun cls id hthis => hreceiver ⟨cls, id, hthis⟩
      refine .inr (.inr ⟨?_, parent, rfl, hnone⟩)
      rcases hthis : m.forest.lookup m.current "this" with _ | receiver
      · rw [hthis] at h
        cases h
        rfl
      · rw [hthis] at h
        cases receiver with
        | instanceOf cls id => exact absurd hthis (hnone cls id)
        | _ =>
          cases h
          rfl
  | _ =>
    cases h
    exact .inl rfl

end Steps

/-! ## Told runs -/

/-- A function that is called has a body whose tokens are as they should be. -/
def Event.Orderly (P : Role → Token → Prop) : Event → Prop
  | .calls (.function fn) _ => Stmt.AllFormed P fn.decl.body
  | _ => True

/-- A statement that is executed, or an expression that is evaluated, is as it should be. -/
def Event.Formed (P : Role → Token → Prop) : Event → Prop
  | .executes stmt => stmt.Formed P
  | .evaluates expr => expr.Formed P
  | _ => True

def Story.Orderly (P : Role → Token → Prop) (w : Story G) : Prop :=
  ∀ mo ∈ w.moments, mo.event.Orderly P

/-- Moments are only added. If the run fails for a token, it fails in one of these ways, or
there is a moment that raises the failure. And if what was given is as it should be, and so
are all functions that are called, so is everything that is executed or evaluated. -/
structure Explained (P : Role → Token → Prop) (given : Prop) (own : Failure → Prop)
    (x : Telling G α) : Prop where
  kept : ∀ w, w.moments ⊆ (storyOf (x w)).moments
  reason : ∀ w failure w', x w = .error (.failed failure) w' →
    failure.token? = none ∨ own failure ∨ ∃ mo ∈ w'.moments, mo.Raises failure
  formed : given → ∀ w, (storyOf (x w)).Orderly P →
    ∀ mo ∈ (storyOf (x w)).moments, mo ∈ w.moments ∨ mo.event.Formed P

namespace Explained

variable {note : Event → Machine → G → G} {P : Role → Token → Prop} {given given' : Prop}
  {own : Failure → Prop} {x : Telling G α} {f : α → Telling G β}

/-- What is explained on weaker grounds is explained on stronger ones. -/
theorem of_given (h : Explained P given own x) (hgiven : given' → given) :
    Explained P given' own x :=
  ⟨h.kept, h.reason, fun hg => h.formed (hgiven hg)⟩

protected theorem pure (a : α) : Explained P given own (pure a : Telling G α) :=
  ⟨fun _ => List.Subset.refl _, fun _ _ _ h => (by cases h), fun _ _ _ _ hmo => .inl hmo⟩

/-- Running out of fuel needs no explanation. -/
theorem outOfFuel : Explained P given own (throw .outOfFuel : Telling G α) :=
  ⟨fun _ => List.Subset.refl _, fun _ _ _ h => (by cases h), fun _ _ _ _ hmo => .inl hmo⟩

/-- A run that tells nothing is explained if all its failures are. -/
theorem tacit {y : Run α} (h : FailsOnly (fun failure => failure.token? = none ∨ own failure) y) :
    Explained P given own (tacit note y) := by
  -- all that is told is that a step was made
  have hmoments : ∀ w, ∃ s : Scene G,
      (storyOf (Machine.tacit note y w)).moments = ⟨s, .stepped⟩ :: w.moments := by
    intro w
    unfold Machine.tacit
    cases y w.machine <;> exact ⟨_, rfl⟩
  refine ⟨fun w => ?_, fun w failure w' hfailed => ?_, fun _ w _ mo hmo => ?_⟩
  · obtain ⟨s, hs⟩ := hmoments w
    rw [hs]
    exact List.subset_cons_self _ _
  · unfold Machine.tacit at hfailed
    cases hrun : y w.machine with
    | ok a m =>
      rw [hrun] at hfailed
      cases hfailed
    | error halt m =>
      rw [hrun] at hfailed
      cases hfailed
      exact (h _ _ _ hrun).imp_right .inl
  · obtain ⟨s, hs⟩ := hmoments w
    rw [hs] at hmo
    rcases List.mem_cons.mp hmo with rfl | hmo
    · exact .inr trivial
    · exact .inl hmo

/-- What is explained piece by piece is explained as a whole. -/
protected theorem bind (hx : Explained P given own x) (hf : ∀ a, Explained P given own (f a)) :
    Explained P given own (x >>= f) := by
  -- how the two parts run one after the other is used in each of the three clauses
  have hok : ∀ {w a w₁}, x w = .ok a w₁ → (x >>= f) w = f a w₁ := by
    intro w a w₁ hrun
    show EStateM.bind x f w = _
    rw [EStateM.bind, hrun]
  have herror : ∀ {w halt w₁}, x w = .error halt w₁ → (x >>= f) w = .error halt w₁ := by
    intro w halt w₁ hrun
    show EStateM.bind x f w = _
    rw [EStateM.bind, hrun]
  refine ⟨fun w => ?_, fun w failure w' => ?_, fun hg w => ?_⟩
  -- moments that were told of are kept by both parts
  · have hfirst := hx.kept w
    cases hrun : x w with
    | ok a w₁ =>
      rw [hrun] at hfirst
      rw [hok hrun]
      exact List.Subset.trans hfirst ((hf a).kept w₁)
    | error halt w₁ =>
      rw [hrun] at hfirst
      rw [herror hrun]
      exact hfirst
  -- a failure is one of the second part if the first one went well
  · cases hrun : x w with
    | ok a w₁ =>
      rw [hok hrun]
      exact (hf a).reason w₁ failure w'
    | error halt w₁ =>
      rw [herror hrun]
      rintro ⟨⟩
      exact hx.reason w failure w' hrun
  -- moments of the second part are as the first one has left them
  · have hfirst := hx.formed hg w
    cases hrun : x w with
    | ok a w₁ =>
      rw [hrun] at hfirst
      rw [hok hrun]
      intro horderly mo hmo
      rcases (hf a).formed hg w₁ horderly mo hmo with hmo | hformed
      · exact hfirst (fun mo hmo => horderly mo ((hf a).kept w₁ hmo)) mo hmo
      · exact .inr hformed
    | error halt w₁ =>
      rw [hrun] at hfirst
      rw [herror hrun]
      exact hfirst

/-- A run that goes on with a part of the machine. -/
theorem get {g : Story G → Telling G β} (hg : ∀ w, Explained P given own (g w)) :
    Explained P given own ((MonadState.get : Telling G (Story G)) >>= g) :=
  ⟨fun w => (hg w).kept w, fun w => (hg w).reason w, fun h w => (hg w).formed h w⟩

/-- Working in another frame raises nothing of its own. -/
protected theorem within (frame : FrameId) (hx : Explained P given own x) :
    Explained P given own (Tell.within frame x) := by
  have hmoments : ∀ w, (storyOf (Tell.within frame x w)).moments =
      (storyOf (x { w with machine := { w.machine with current := frame } })).moments := by
    intro w
    unfold Tell.within
    cases x { w with machine := { w.machine with current := frame } } <;> rfl
  refine ⟨fun w => ?_, fun w failure w' hfailed => ?_, fun hg w horderly mo hmo => ?_⟩
  · rw [hmoments]
    exact hx.kept { w with machine := { w.machine with current := frame } }
  · unfold Tell.within at hfailed
    cases hrun : x { w with machine := { w.machine with current := frame } } with
    | ok a w₁ =>
      rw [hrun] at hfailed
      cases hfailed
    | error halt w₁ =>
      rw [hrun] at hfailed
      cases hfailed
      exact hx.reason _ failure w₁ hrun
  · unfold Story.Orderly at horderly
    rw [hmoments] at horderly hmo
    exact hx.formed hg { w with machine := { w.machine with current := frame } } horderly mo hmo

/-- When something has been told, the rest may fail in the ways that are raised by this. If
it is a call, the function that is called is as it should be. -/
theorem tell {event : Event} (hevent : given → event.Formed P)
    (hx : ∀ s : Scene G, Explained P (given ∧ event.Orderly P)
      (fun failure => own failure ∨ Moment.Raises ⟨s, event⟩ failure) x) :
    Explained P given own (Machine.tell note event >>= fun _ => x) := by
  have hstep : ∀ w, (Machine.tell note event >>= fun _ => x) w = x (w.with note event) :=
    fun _ => rfl
  have hkept : ∀ w : Story G, (w.with note event).moments ⊆
      (storyOf (x (w.with note event))).moments := fun w => (hx w.toScene).kept _
  refine ⟨fun w => ?_, fun w failure w' hfailed => ?_, fun hg w horderly mo hmo => ?_⟩
  · rw [hstep]
    exact List.Subset.trans (List.subset_cons_self _ _) (hkept w)
  · rw [hstep] at hfailed
    have hmem := hkept w List.mem_cons_self
    rw [hfailed] at hmem
    rcases (hx _).reason _ failure w' hfailed with hnone | (hown | hraised) | hearlier
    · exact .inl hnone
    · exact .inr (.inl hown)
    · exact .inr (.inr ⟨_, hmem, hraised⟩)
    · exact .inr (.inr hearlier)
  · rw [hstep] at horderly hmo
    have hcalled : event.Orderly P := horderly _ (hkept w List.mem_cons_self)
    rcases (hx w.toScene).formed ⟨hg, hcalled⟩ _ horderly mo hmo with hmo | hformed
    · rcases List.mem_cons.mp hmo with rfl | hmo
      · exact .inr (hevent hg)
      · exact .inl hmo
    · exact .inr hformed

/-- A use of `super` fails on the machine at which it is evaluated. -/
theorem super {keyword method : Token} (hgiven : given → (Expr.super keyword method).Formed P) :
    Explained P given own (Machine.tell note (.evaluates (.super keyword method)) >>= fun _ =>
      Machine.tell note (.defers method) >>= fun _ =>
      Machine.tacit note (readSuper keyword method)) := by
  -- what is told, and in which order, does not depend on how it fails
  have hall : Explained P given (fun _ => True)
      (Machine.tell note (.evaluates (.super keyword method)) >>= fun _ =>
        Machine.tell note (.defers method) >>= fun _ =>
        Machine.tacit note (readSuper keyword method)) :=
    .tell hgiven fun _ => .tell (fun _ => trivial) fun _ =>
      .tacit fun _ _ _ _ => .inr (.inl (.inl trivial))
  refine ⟨hall.kept, fun w failure w' hfailed => ?_, hall.formed⟩
  let told := (w.with note (.evaluates (.super keyword method))).with note (.defers method)
  replace hfailed : Machine.tacit note (readSuper keyword method) told
    = .error (.failed failure) w' := hfailed
  unfold Machine.tacit at hfailed
  cases hrun : readSuper keyword method told.machine with
  | ok a m =>
    rw [hrun] at hfailed
    cases hfailed
  | error halt m =>
    rw [hrun] at hfailed
    cases hfailed
    have hmem : ⟨⟨w.machine, _⟩, .evaluates (.super keyword method)⟩ ∈
        (told.step note m).moments := List.mem_cons_of_mem _
      (List.mem_cons_of_mem _ List.mem_cons_self)
    rcases readSuper_error hrun with rfl | rfl | ⟨rfl, parent, hsuper, hthis⟩
    · exact .inr (.inr ⟨_, hmem, .expression rfl .super⟩)
    · exact .inr (.inr ⟨_, hmem, .expression rfl .method⟩)
    · exact .inr (.inr ⟨_, hmem, .receiver rfl hsuper hthis⟩)

end Explained

/-! ## The evaluator -/

/-- What the evaluator fails for is explained, with one bound on the depth. A call blames the
parenthesis that it was given. -/
structure ExplainedAt (note : Event → Machine → G → G) (P : Role → Token → Prop)
    (fuel : Nat) : Prop where
  evaluate : ∀ expr {own}, Explained P (expr.Formed P) own (Tell.evaluate note fuel expr)
  evaluateEach : ∀ exprs {own},
    Explained P (Expr.AllFormed P exprs) own (Tell.evaluateEach note fuel exprs)
  call : ∀ callee paren args {given own}, own (.notCallable paren) →
    (∀ expected got, own (.arity paren expected got)) →
    Explained P given own (Tell.call note fuel callee paren args)
  invoke : ∀ callee args {given own}, Explained P given own (Tell.invoke note fuel callee args)
  execute : ∀ stmt {own}, Explained P (stmt.Formed P) own (Tell.execute note fuel stmt)
  executeEach : ∀ stmts {own},
    Explained P (Stmt.AllFormed P stmts) own (Tell.executeEach note fuel stmts)
  repeatWhile : ∀ condition body {own}, Explained P (condition.Formed P ∧ body.Formed P) own
    (Tell.repeatWhile note fuel condition body)

namespace ExplainedAt

variable {note : Event → Machine → G → G} {P : Role → Token → Prop}

/-- Without fuel there is nothing to be explained. -/
theorem zero : ExplainedAt note P 0 where
  evaluate _ _ := .outOfFuel
  evaluateEach _ _ := .outOfFuel
  call _ _ _ _ _ _ _ := .outOfFuel
  invoke _ _ _ _ := .outOfFuel
  execute _ _ := .outOfFuel
  executeEach _ _ := .outOfFuel
  repeatWhile _ _ _ := .outOfFuel

section Step

variable {fuel : Nat} (ih : ExplainedAt note P fuel) {given : Prop} {own : Failure → Prop}
include ih

/-- Expressions explain their failures if everything with less fuel does. There is one case for
each kind. -/
theorem evaluate_succ (expr : Expr) :
    Explained P (expr.Formed P) own (Tell.evaluate note (fuel + 1) expr) := by
  by_cases hsuper : ∃ keyword method, expr = .super keyword method
  · obtain ⟨keyword, method, rfl⟩ := hsuper
    exact .super id
  refine .tell id fun s => ?_
  -- whatever blames the expression is raised now
  have hraises : ∀ {failure : Failure}, expr.Blamed failure →
      failure.token? = none ∨ own failure ∨ Moment.Raises ⟨s, .evaluates expr⟩ failure :=
    fun hblamed => .inr (.inr (.expression rfl hblamed))
  cases expr with
  | literal value => exact .pure _
  | grouping inner => exact (ih.evaluate inner).of_given (·.1)
  | unary op operand =>
    refine ((ih.evaluate operand).of_given (·.1.2)).bind fun value =>
      .tacit (.liftExcept fun failure hfailure => ?_)
    obtain ⟨problem, rfl⟩ := unaryResult_error hfailure
    exact hraises (.unary problem)
  | binary left op right =>
    refine ((ih.evaluate left).of_given (·.1.1)).bind fun l =>
      ((ih.evaluate right).of_given (·.1.2.2)).bind fun r =>
        .tacit (.liftExcept fun failure hfailure => ?_)
    obtain ⟨problem, rfl⟩ := binaryResult_error hfailure
    exact hraises (.binary problem)
  | logical left op right =>
    refine ((ih.evaluate left).of_given (·.1.1)).bind fun l =>
      .bind (.tacit (.liftExcept fun failure hfailure => ?_)) fun short => ?_
    · obtain ⟨problem, rfl⟩ := shortCircuits_error hfailure
      exact hraises (.logical problem)
    · cases short with
      | true => exact .pure _
      | false => exact (ih.evaluate right).of_given (·.1.2.2)
  | «variable» name => exact .tacit (readVariable_failsOnly (hraises .variable))
  | assign name value =>
    exact ((ih.evaluate value).of_given (·.1.2)).bind fun _ =>
      (Explained.tacit (writeVariable_failsOnly _ (hraises .assign))).bind fun _ => .pure _
  | call callee paren args =>
    exact ((ih.evaluate callee).of_given (·.1.1)).bind fun _ =>
      ((ih.evaluateEach args).of_given (·.1.2.2)).bind fun _ =>
        ih.call _ _ _ (.inr (.expression rfl .notCallable)) fun expected got =>
          .inr (.expression rfl (.arity expected got))
  | get object name =>
    refine ((ih.evaluate object).of_given (·.1.1)).bind fun value => ?_
    cases value with
    | instanceOf cls id =>
      exact .tell (fun _ => trivial) fun _ =>
        .tacit (readProperty_failsOnly cls id (.inr (.inl (.inr (.expression rfl .get)))))
    | _ => exact .tacit (.fail (hraises .read))
  | set object name value =>
    refine ((ih.evaluate object).of_given (·.1.1)).bind fun target => ?_
    cases target with
    | instanceOf cls id =>
      exact ((ih.evaluate value).of_given (·.1.2.2)).bind fun _ =>
        (Explained.tacit (.modify _)).bind fun _ => .pure _
    | _ => exact .tacit (.fail (hraises .write))
  | this keyword => exact .tacit (readVariable_failsOnly (hraises .this))
  | super keyword method => exact absurd ⟨keyword, method, rfl⟩ hsuper

theorem evaluateEach_succ (exprs : List Expr) :
    Explained P (Expr.AllFormed P exprs) own (Tell.evaluateEach note (fuel + 1) exprs) := by
  cases exprs with
  | nil => exact .pure _
  | cons expr rest =>
    exact ((ih.evaluate expr).of_given (·.1)).bind fun _ =>
      ((ih.evaluateEach rest).of_given (·.2)).bind fun _ => .pure _

/-- A call blames its parenthesis, or fails as the callee does. -/
theorem call_succ (callee : Value) (paren : Token) (args : List Value)
    (hnotCallable : own (.notCallable paren))
    (harity : ∀ expected got, own (.arity paren expected got)) :
    Explained P given own (Tell.call note (fuel + 1) callee paren args) := by
  unfold Tell.call Followed.call
  cases Callee.ofValue? callee with
  | none => exact .tacit (.fail (.inr hnotCallable))
  | some callee =>
    dsimp only
    split
    · exact ih.invoke callee args
    · exact .tacit (.fail (.inr (harity _ _)))

/-- A callee is explained by its body, which was formed when it was declared. -/
theorem invoke_succ (callee : Callee) (args : List Value) :
    Explained P given own (Tell.invoke note (fuel + 1) callee args) := by
  refine .tell (fun _ => trivial) fun s => ?_
  cases callee with
  | host fn => exact .tacit ((callHost_failsOnly fn args).imp .inl)
  | function fn =>
    refine .tell (fun _ => trivial) fun _ => (Explained.tacit (.modifyGet _)).bind fun frame => ?_
    refine (Explained.tacit (bindParameters_failsOnly frame _ args)).bind fun _ => ?_
    -- the body is one that has been called, and so it is in order
    refine .bind (((ih.executeEach fn.decl.body).of_given fun h => h.1.2).within frame)
      fun completion => ?_
    split
    · exact .get fun _ => .pure _
    · cases completion with
      | normal => exact .pure _
      | returned value => exact .pure _
  | classRef cls =>
    refine (Explained.tacit (.modifyGet _)).bind fun id => ?_
    cases cls.findMethod? "init" with
    | some init =>
      exact .tell (fun _ => trivial) fun _ => (Explained.tacit (bind_failsOnly init _)).bind
        fun _ => (ih.invoke _ _).bind fun _ => .pure _
    | none => exact .pure _

/-- Statements explain their failures in the same way as expressions. -/
theorem execute_succ (stmt : Stmt) :
    Explained P (stmt.Formed P) own (Tell.execute note (fuel + 1) stmt) := by
  refine .tell id fun s => ?_
  cases stmt with
  | expression expr => exact ((ih.evaluate expr).of_given (·.1)).bind fun _ => .pure _
  | print expr =>
    exact ((ih.evaluate expr).of_given (·.1)).bind fun _ =>
      (Explained.tacit ((printLine_failsOnly _).imp .inl)).bind fun _ => .pure _
  | varDecl name initializer =>
    cases initializer with
    | some expr =>
      exact ((ih.evaluate expr).of_given (·.1.2 expr rfl)).bind fun _ =>
        (Explained.tacit (.modify _)).bind fun _ => .pure _
    | none =>
      exact (Explained.pure _).bind fun _ => (Explained.tacit (.modify _)).bind fun _ => .pure _
  | block body =>
    exact .get fun w => .tell (fun _ => trivial) fun _ => (Explained.tacit (.modifyGet _)).bind
      fun frame => ((ih.executeEach body).of_given (·.1.1)).within frame
  | ifElse condition thenBranch elseBranch =>
    cases elseBranch with
    | some elseBranch =>
      refine ((ih.evaluate condition).of_given (·.1.1)).bind fun value => ?_
      dsimp only
      split
      · exact (ih.execute thenBranch).of_given (·.1.2.1)
      · exact (ih.execute elseBranch).of_given (·.1.2.2)
    | none =>
      refine ((ih.evaluate condition).of_given (·.1.1)).bind fun value => ?_
      dsimp only
      split
      · exact (ih.execute thenBranch).of_given (·.1.2)
      · exact .pure _
  | whileLoop condition body => exact (ih.repeatWhile condition body).of_given (·.1)
  | funDecl decl =>
    exact .get fun w => (Explained.tacit (newClosure_failsOnly _)).bind fun _ =>
      (Explained.tacit (.modify _)).bind fun _ => .pure _
  | returnStmt keyword value =>
    cases value with
    | some expr => exact ((ih.evaluate expr).of_given (·.1.2 expr rfl)).bind fun _ => .pure _
    | none => exact .pure _
  | classDecl decl =>
    obtain ⟨name, superclass, methods⟩ := decl
    have hraises : ∀ {failure : Failure}, ClassDecl.Blamed ⟨name, superclass, methods⟩ failure →
        own failure ∨ Moment.Raises ⟨s, .executes (.classDecl ⟨name, superclass, methods⟩)⟩
          failure :=
      fun hblamed => .inr (.declaration rfl hblamed)
    have hdeclare : ∀ parent, FailsOnly (ClassDecl.Blamed ⟨name, superclass, methods⟩)
        (declareClass ⟨name, superclass, methods⟩ parent) :=
      fun parent => declareClass_failsOnly _ parent .name
    cases superclass with
    | none =>
      exact .tell (fun _ => trivial) fun _ => (Explained.tacit ((hdeclare none).imp
        fun hblamed => .inr (.inl (hraises hblamed)))).bind fun _ => .pure _
    | some superclass =>
      have hname : (Stmt.classDecl ⟨name, some superclass, methods⟩).Formed P →
          superclass.Formed P := by
        rintro ⟨-, hparent, -⟩
        obtain ⟨parent, rfl, hname⟩ := hparent superclass rfl
        exact hname
      refine ((ih.evaluate superclass).of_given (hname ·.1)).bind fun value => ?_
      cases value with
      | classRef parent =>
        exact .tell (fun _ => trivial) fun _ => (Explained.tacit ((hdeclare (some parent)).imp
          fun hblamed => .inr (.inl (hraises hblamed)))).bind fun _ => .pure _
      | _ => exact .tacit (.fail (.inr (hraises (.superclass rfl))))

theorem executeEach_succ (stmts : List Stmt) :
    Explained P (Stmt.AllFormed P stmts) own (Tell.executeEach note (fuel + 1) stmts) := by
  cases stmts with
  | nil => exact .pure _
  | cons stmt rest =>
    refine .bind ((ih.execute stmt).of_given fun h => h.1) fun completion => ?_
    cases completion with
    | normal => exact (ih.executeEach rest).of_given fun h => h.2
    | returned value => exact .pure _

/-- So does a loop, by its condition and its body. -/
theorem repeatWhile_succ (condition : Expr) (body : Stmt) :
    Explained P (condition.Formed P ∧ body.Formed P) own
      (Tell.repeatWhile note (fuel + 1) condition body) := by
  refine ((ih.evaluate condition).of_given (·.1)).bind fun value => ?_
  split
  · refine ((ih.execute body).of_given (·.2)).bind fun completion => ?_
    cases completion with
    | normal => exact ih.repeatWhile condition body
    | returned value => exact .pure _
  · exact .pure _

/-- The five together carry the explanation from one fuel to the next. -/
theorem succ : ExplainedAt note P (fuel + 1) where
  evaluate expr _ := ih.evaluate_succ expr
  evaluateEach exprs _ := ih.evaluateEach_succ exprs
  call callee paren args _ _ := ih.call_succ callee paren args
  invoke callee args _ _ := ih.invoke_succ callee args
  execute stmt _ := ih.execute_succ stmt
  executeEach stmts _ := ih.executeEach_succ stmts
  repeatWhile condition body _ := ih.repeatWhile_succ condition body

end Step

/-- With any fuel all failures are explained. -/
protected theorem all (fuel : Nat) : ExplainedAt note P fuel := by
  induction fuel with
  | zero => exact zero
  | succ fuel ih => exact ih.succ

end ExplainedAt

/-- A program is explained by the statements that it consists of. -/
theorem runProgram_explained {note : Event → Machine → G → G} {P : Role → Token → Prop}
    {own : Failure → Prop} (fuel : Nat) (stmts : List Stmt) :
    Explained P (Stmt.AllFormed P stmts) own (Tell.runProgram note fuel stmts) := by
  induction stmts with
  | nil => exact .tacit (flush_failsOnly.imp .inl)
  | cons stmt rest ih =>
    exact .bind (((ExplainedAt.all fuel).execute stmt).of_given fun h => h.1) fun _ =>
      ih.of_given fun h => h.2

end Machine

end Lox
