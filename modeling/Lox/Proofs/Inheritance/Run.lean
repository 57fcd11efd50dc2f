/-
`Lox.Proofs.Inheritance.Run` -- all moments of a run.

A run is told, and at each moment of it the machine is looked at: which classes it holds, and
which ones are spoken of in what happens then. All of them descend (`Story.Descending`). The
numbers that are given out only get higher, so what has been seen of a class at one moment
holds at all later ones, wherever the class is by then.
-/
import Lox.Proofs.Inheritance.Descent

set_option autoImplicit false

namespace Lox.Machine

/-! ## Moments -/

/-- The class is spoken of in what happens. -/
inductive Event.Names : Event → Class → Prop
  | callee {cls : Class} {args : List Value} : Names (.calls (.classRef cls) args) cls
  | argument {callee : Callee} {args : List Value} {arg : Value} {cls : Class} :
    arg ∈ args → arg.class? = some cls → Names (.calls callee args) cls
  | receiver {cls : Class} {id : InstanceId} {name : String} : Names (.selects cls id name) cls
  | parent {decl : ClassDecl} {cls : Class} : Names (.declares decl (some cls)) cls

/-- In a call these are what is called, and the arguments. -/
theorem Event.names_calls {m : Machine} {callee : Callee} {args : List Value}
    (hcallee : callee.Descends m) (hargs : ∀ arg ∈ args, arg.Descends m) :
    ∀ cls, Event.Names (.calls callee args) cls → cls.Descends m.nextSerial := by
  intro cls hnamed
  cases hnamed with
  | callee => exact hcallee
  | argument hmem hclass => exact hargs _ hmem cls hclass

section

variable {G : Type}

/-- The class is there at the moment: the machine has it, or it is spoken of. -/
def Moment.Has (mo : Moment G) (cls : Class) : Prop :=
  mo.machine.HasClass cls ∨ mo.event.Names cls

/-- All classes that are there at the moment descend below the next number. -/
structure Moment.Descending (mo : Moment G) : Prop where
  machine : mo.machine.Descending
  named : ∀ cls, mo.event.Names cls → cls.Descends mo.machine.nextSerial

/-- The classes of a moment descend below the number that was next then. -/
theorem Moment.Descending.has {mo : Moment G} {cls : Class} (h : mo.Descending)
    (hcls : mo.Has cls) : cls.Descends mo.machine.nextSerial :=
  hcls.elim h.machine.hasClass (h.named cls)

/-! ## Stories -/

namespace Story

/-- All classes have descended at all moments so far, and no number gets lower. -/
structure Descending (w : Story G) : Prop where
  machine : w.machine.Descending
  moments : ∀ mo ∈ w.moments, mo.Descending ∧ mo.machine.nextSerial ≤ w.machine.nextSerial

/-- The second story is the first one told on. -/
structure Advances (w w' : Story G) : Prop where
  descending : w'.Descending
  machine : w.machine.Advances w'.machine

/-- How a run ends: with a story that has been told on, and if it returns something then with
a value for which `post` holds. -/
def Descent {α : Type} (w : Story G) (post : Machine → α → Prop) :
    EStateM.Result Halt (Story G) α → Prop :=
  Outcome Advances w fun w' a => post w'.machine a

variable {w w' w'' : Story G}

/-- A story is one told on by nothing. -/
protected theorem Descending.refl (h : w.Descending) : w.Advances w :=
  ⟨h, h.machine.refl⟩

/-- A story that is told on twice is told on. -/
theorem Advances.trans (h : w.Advances w') (h' : w'.Advances w'') : w.Advances w'' :=
  ⟨h'.descending, h.machine.trans h'.machine⟩

/-- The story with a later machine, and the moment at which that is the machine. -/
theorem Descending.on {m : Machine} {account : G} {event : Event} (h : w.Descending)
    (hadv : w.machine.Advances m) (hnamed : ∀ cls, event.Names cls → cls.Descends m.nextSerial) :
    w.Advances ⟨⟨m, account⟩, ⟨⟨m, account⟩, event⟩ :: w.moments⟩ := by
  refine ⟨⟨hadv.descending, List.forall_mem_cons.mpr ⟨⟨⟨hadv.descending, hnamed⟩, Nat.le_refl _⟩,
    fun mo hmo => ?_⟩⟩, hadv⟩
  obtain ⟨hmo, hserial⟩ := h.moments mo hmo
  exact ⟨hmo, Nat.le_trans hserial hadv.serial⟩

/-! ## Runs that are put together -/

namespace Descent

variable {α β : Type} {note : Event → Machine → G → G} {x : Telling G α} {f : α → Telling G β}
  {post post' : Machine → α → Prop} {next : Machine → β → Prop}

/-- Returning something tells nothing. -/
protected theorem pure {a : α} (hw : w.Descending) (hpost : post w.machine a) :
    w.Descent post ((pure a : Telling G α) w) :=
  ⟨hw.refl, hpost⟩

protected theorem throw {halt : Halt} (hw : w.Descending) :
    w.Descent post ((throw halt : Telling G α) w) :=
  hw.refl

/-- What is told of a run that begins where another one has ended. -/
theorem after {result : EStateM.Result Halt (Story G) α} (hadv : w.Advances w')
    (h : w'.Descent post result) : w.Descent post result :=
  Outcome.after (R := Advances) Advances.trans hadv h

/-- Two runs after one another. -/
protected theorem bind (hx : w.Descent post (x w))
    (hf : ∀ a w', w.Advances w' → post w'.machine a → w'.Descent next (f a w')) :
    w.Descent next ((x >>= f) w) :=
  Outcome.bind (R := Advances) Advances.trans hx hf

/-- Looking at the machine. -/
protected theorem get {g : Story G → Telling G β} (h : w.Descent next (g w w)) :
    w.Descent next (((MonadState.get : Telling G (Story G)) >>= g) w) :=
  h

/-- It is told what happens, and then the run goes on. -/
theorem tell {event : Event} (hw : w.Descending)
    (hnamed : ∀ cls, event.Names cls → cls.Descends w.machine.nextSerial)
    (h : ∀ w' : Story G, w'.machine = w.machine → w'.Descending → w'.Descent post (x w')) :
    w.Descent post ((Machine.tell note event >>= fun _ => x) w) := by
  have hadv : w.Advances (w.with note event) := hw.on hw.machine.refl hnamed
  exact (h (w.with note event) rfl hadv.descending).after hadv

/-- A step of the machine. -/
theorem tacit {run : Run α} (hw : w.Descending)
    (h : w.machine.Descent post (run w.machine)) : w.Descent post (Machine.tacit note run w) := by
  have hstepped : ∀ m, w.machine.Advances m → w.Advances (w.step note m) :=
    fun m hadv => hw.on hadv fun _ hnamed => by cases hnamed
  unfold Machine.tacit
  cases hrun : run w.machine with
  | ok a m =>
    rw [hrun] at h
    exact ⟨hstepped m h.1, h.2⟩
  | error halt m =>
    rw [hrun] at h
    exact hstepped m h

/-- A name that is declared here, by a statement that does nothing else after it. -/
theorem declaring {name : String} {value : Value} (hw : w.Descending)
    (hvalue : value.Descends w.machine) :
    w.Descent Completion.Descends
      ((Machine.tacit note (defineHere name value) >>= fun _ => pure .normal) w) := by
  have hdefine : w.machine.Descent Whatever (defineHere name value w.machine) :=
    ⟨hw.machine.define hvalue, trivial⟩
  exact (Descent.tacit hw hdefine).bind fun _ _ hadv _ => .pure hadv.descending trivial

end Descent

/-! ## Other frames -/

/-- Another frame that is there may be the current one. -/
theorem Descending.inFrame {frame : FrameId} (h : w.Descending)
    (hframe : w.machine.forest.Present frame) :
    Descending { w with machine := { w.machine with current := frame } } := by
  refine ⟨⟨hframe, fun value hvalue => h.machine.values value ?_, h.machine.hosts⟩, h.moments⟩
  cases hvalue with
  | name hlocal => exact .name hlocal
  | field hfields hfind => exact .field hfields hfind

/-- A run in another frame, which is left again. -/
theorem Descent.within {α : Type} {x : Telling G α} {post : Machine → α → Prop} {frame : FrameId}
    (hw : w.Descending) (hframe : w.machine.forest.Present frame)
    (hpost : ∀ m a, post m a → post { m with current := w.machine.current } a)
    (h : ∀ w' : Story G, w'.Descending → w'.Descent post (x w')) :
    w.Descent post (Tell.within frame x w) := by
  have hleft : ∀ w', Advances { w with machine := { w.machine with current := frame } } w' →
      w.Advances { w' with machine := { w'.machine with current := w.machine.current } } := by
    intro w' hinner
    -- no frame is ever taken away, so the one that was current before is still there
    have hback := hinner.descending.inFrame (hinner.machine.present hw.machine.current)
    exact ⟨hback, hback.machine, hinner.machine.present, rfl, hinner.machine.serial⟩
  have hrun := h _ (hw.inFrame hframe)
  unfold Tell.within
  dsimp only
  cases hresult : x { w with machine := { w.machine with current := frame } } with
  | ok a w' =>
    rw [hresult] at hrun
    exact ⟨hleft w' hrun.1, hpost _ a hrun.2⟩
  | error halt w' =>
    rw [hresult] at hrun
    exact hleft w' hrun

end Story

/-! ## The evaluator -/

open Story

/-- The functions of the evaluator lead to stories in which all classes descend, with one
bound on their depth. -/
structure DescentAt (note : Event → Machine → G → G) (fuel : Nat) : Prop where
  evaluate : ∀ {w : Story G} (expr : Expr), w.Descending →
    w.Descent Value.Descends (Tell.evaluate note fuel expr w)
  evaluateEach : ∀ {w : Story G} (exprs : List Expr), w.Descending →
    w.Descent (fun m values => ∀ value ∈ values, value.Descends m)
      (Tell.evaluateEach note fuel exprs w)
  call : ∀ {w : Story G} (callee : Value) (paren : Token) (args : List Value), w.Descending →
    callee.Descends w.machine → (∀ arg ∈ args, arg.Descends w.machine) →
    w.Descent Value.Descends (Tell.call note fuel callee paren args w)
  invoke : ∀ {w : Story G} (callee : Callee) (args : List Value), w.Descending →
    callee.Descends w.machine → (∀ arg ∈ args, arg.Descends w.machine) →
    w.Descent Value.Descends (Tell.invoke note fuel callee args w)
  execute : ∀ {w : Story G} (stmt : Stmt), w.Descending →
    w.Descent Completion.Descends (Tell.execute note fuel stmt w)
  executeEach : ∀ {w : Story G} (stmts : List Stmt), w.Descending →
    w.Descent Completion.Descends (Tell.executeEach note fuel stmts w)
  repeatWhile : ∀ {w : Story G} (condition : Expr) (body : Stmt), w.Descending →
    w.Descent Completion.Descends (Tell.repeatWhile note fuel condition body w)

namespace DescentAt

variable {note : Event → Machine → G → G} {w : Story G}

/-- Without fuel nothing is told. -/
theorem zero : DescentAt note 0 where
  evaluate _ hw := .throw hw
  evaluateEach _ hw := .throw hw
  call _ _ _ hw _ _ := .throw hw
  invoke _ _ hw _ _ := .throw hw
  execute _ hw := .throw hw
  executeEach _ hw := .throw hw
  repeatWhile _ _ hw := .throw hw

section Step

variable {fuel : Nat} (ih : DescentAt note fuel)
include ih

/-! ### Expressions -/

/-- Expressions lead to values whose classes descend, if everything with less fuel does. -/
theorem evaluate_succ (expr : Expr) (hw : w.Descending) :
    w.Descent Value.Descends (Tell.evaluate note (fuel + 1) expr w) := by
  refine .tell hw (fun _ hnamed => by cases hnamed) fun w _ hw => ?_
  cases expr with
  | literal value =>
    refine .pure hw (.of_none ?_)
    cases value <;> rfl
  | grouping inner => exact ih.evaluate inner hw
  | unary op operand =>
    refine (ih.evaluate operand hw).bind fun value w' hadv _ => ?_
    exact .tacit hadv.descending (liftExcept_descent hadv.descending.machine
      fun result hresult => .of_none (unaryResult_plain hresult).class?_eq)
  | binary left op right =>
    refine (ih.evaluate left hw).bind fun _ w' hadv _ => ?_
    refine (ih.evaluate right hadv.descending).bind fun _ w'' hadv' _ => ?_
    exact .tacit hadv'.descending (liftExcept_descent hadv'.descending.machine
      fun result hresult => .of_none (binaryResult_plain hresult).class?_eq)
  | logical left op right =>
    refine (ih.evaluate left hw).bind fun value w' hadv hvalue => ?_
    -- the value of the left side is the result, or it is not used any more
    have hshort : w'.Descent (fun m (_ : Bool) => value.Descends m)
        (Machine.tacit note (liftExcept (shortCircuits op value)) w') :=
      .tacit hadv.descending (liftExcept_descent hadv.descending.machine fun _ _ => hvalue)
    refine hshort.bind fun short w'' hadv' hvalue' => ?_
    cases short with
    | true => exact .pure hadv'.descending hvalue'
    | false => exact ih.evaluate right hadv'.descending
  | «variable» name => exact .tacit hw (readVariable_descent hw.machine name)
  | assign name value =>
    refine (ih.evaluate value hw).bind fun result w' hadv hresult => ?_
    refine (Descent.tacit hadv.descending
      (writeVariable_descent hadv.descending.machine hresult)).bind fun _ w'' hadv' _ => ?_
    -- the value was computed before the assignment, and its class descends as before
    exact .pure hadv'.descending (hresult.later hadv'.machine.serial)
  | call callee paren args =>
    refine (ih.evaluate callee hw).bind fun value w' hadv hvalue => ?_
    refine (ih.evaluateEach args hadv.descending).bind fun values w'' hadv' hvalues => ?_
    exact ih.call value paren values hadv'.descending (hvalue.later hadv'.machine.serial) hvalues
  | get object name =>
    refine (ih.evaluate object hw).bind fun value w' hadv hvalue => ?_
    cases value with
    | instanceOf cls i =>
      have hcls : cls.Descends w'.machine.nextSerial := hvalue cls rfl
      refine .tell hadv.descending ?_ fun w'' hmachine hw'' => ?_
      · rintro _ ⟨⟩
        exact hcls
      · rw [← hmachine] at hcls
        exact .tacit hw'' (readProperty_descent hw''.machine hcls)
    | _ => exact .tacit hadv.descending (.fail hadv.descending.machine _)
  | set object name value =>
    refine (ih.evaluate object hw).bind fun target w' hadv _ => ?_
    -- a method is looked up in the class of the instance, so the event names it
    cases target with
    | instanceOf cls i =>
      refine (ih.evaluate value hadv.descending).bind fun result w'' hadv' hresult => ?_
      refine (Descent.tacit hadv'.descending
        (writeField_descent hadv'.descending.machine hresult)).bind fun _ w₃ hadv₃ _ => ?_
      exact .pure hadv₃.descending (hresult.later hadv₃.machine.serial)
    | _ => exact .tacit hadv.descending (.fail hadv.descending.machine _)
  | this keyword => exact .tacit hw (readVariable_descent hw.machine keyword)
  | super keyword method =>
    exact .tell hw (fun _ hnamed => by cases hnamed) fun w' _ hw' =>
      .tacit hw' (readSuper_descent hw'.machine keyword method)

/-- So do expressions in a row, where later ones leave the values of earlier ones as they are.
-/
theorem evaluateEach_succ (exprs : List Expr) (hw : w.Descending) :
    w.Descent (fun m values => ∀ value ∈ values, value.Descends m)
      (Tell.evaluateEach note (fuel + 1) exprs w) := by
  cases exprs with
  | nil => exact .pure hw (List.forall_mem_nil _)
  | cons expr rest =>
    refine (ih.evaluate expr hw).bind fun value w' hadv hvalue => ?_
    refine (ih.evaluateEach rest hadv.descending).bind fun values w'' hadv' hvalues => ?_
    exact .pure hadv'.descending
      (List.forall_mem_cons.mpr ⟨hvalue.later hadv'.machine.serial, hvalues⟩)

/-! ### Calls -/

/-- A call hands over values that descend, and what comes back descends. -/
theorem call_succ (callee : Value) (paren : Token) (args : List Value) (hw : w.Descending)
    (hcallee : callee.Descends w.machine) (hargs : ∀ arg ∈ args, arg.Descends w.machine) :
    w.Descent Value.Descends (Tell.call note (fuel + 1) callee paren args w) := by
  unfold Tell.call Followed.call
  cases hfound : Callee.ofValue? callee with
  | none => exact .tacit hw (.fail hw.machine _)
  | some found =>
    dsimp only
    split
    · exact ih.invoke found args hw (Callee.ofValue?_descends hfound hcallee) hargs
    · exact .tacit hw (.fail hw.machine _)

/-- The body of a function is run in a new frame, which exists even if the function is
closed over one that does not. -/
theorem invoke_function (fn : Closure) (args : List Value) (hw : w.Descending)
    (hargs : ∀ arg ∈ args, arg.Descends w.machine) :
    w.Descent Value.Descends (Tell.invoke note (fuel + 1) (.function fn) args w) := by
  refine .tell hw (Event.names_calls trivial hargs) fun w₁ hmachine₁ hw₁ =>
    .tell hw₁ (fun _ hnamed => by cases hnamed) fun w₂ hmachine₂ hw₂ => ?_
  rw [← hmachine₁, ← hmachine₂] at hargs
  refine (Descent.tacit hw₂ (newFrame_descent hw₂.machine fn.frame)).bind
    fun frame w₃ hadv₃ hframe => ?_
  have hargs₃ : ∀ arg ∈ args, arg.Descends w₃.machine :=
    fun arg harg => (hargs arg harg).later hadv₃.machine.serial
  refine (Descent.tacit hadv₃.descending (bindParameters_descent hadv₃.descending.machine
    hargs₃)).bind fun _ w₄ hadv₄ _ => ?_
  refine (Descent.within hadv₄.descending (hadv₄.machine.present hframe) (fun _ _ ha => ha)
    fun _ hw₅ => ih.executeEach fn.decl.body hw₅).bind fun completion w₆ hadv₆ hcompletion => ?_
  -- an initializer returns what is bound to `this`, any other function what it completed with
  split
  · refine .get (.pure hadv₆.descending ?_)
    cases hthis : w₆.machine.forest.lookup fn.frame "this" with
    | none => exact .of_none rfl
    | some value => exact hadv₆.descending.machine.values value (holds_of_lookup hthis)
  · cases completion with
    | normal => exact .pure hadv₆.descending (.of_none rfl)
    | returned value => exact .pure hadv₆.descending hcompletion

/-- An instance is made of a class that descends, and its initializer is a method of it. -/
theorem invoke_class (cls : Class) (args : List Value) (hw : w.Descending)
    (hcls : cls.Descends w.machine.nextSerial) (hargs : ∀ arg ∈ args, arg.Descends w.machine) :
    w.Descent Value.Descends (Tell.invoke note (fuel + 1) (.classRef cls) args w) := by
  refine .tell hw (Event.names_calls hcls hargs) fun w₁ hmachine₁ hw₁ => ?_
  rw [← hmachine₁] at hcls hargs
  refine (Descent.tacit hw₁ (newInstance_descent hw₁.machine)).bind fun i w₂ hadv₂ _ => ?_
  have hreceiver : (Value.instanceOf cls i).Descends w₂.machine := by
    rintro _ ⟨⟩
    exact hcls.mono hadv₂.machine.serial
  cases cls.findMethod? "init" with
  | none => exact .pure hadv₂.descending hreceiver
  | some init =>
    refine .tell hadv₂.descending ?_ fun w₃ hmachine₃ hw₃ => ?_
    · rintro _ ⟨⟩
      exact hreceiver cls rfl
    rw [← hmachine₃] at hreceiver
    have hserial : w₁.machine.nextSerial ≤ w₃.machine.nextSerial := hmachine₃ ▸ hadv₂.machine.serial
    refine (Descent.tacit hw₃ (bind_descent hw₃.machine init hreceiver)).bind
      fun fn w₄ hadv₄ _ => ?_
    have hargs₄ : ∀ arg ∈ args, arg.Descends w₄.machine := fun arg harg =>
      ((hargs arg harg).later hserial).later hadv₄.machine.serial
    refine (ih.invoke (.function fn) args hadv₄.descending trivial hargs₄).bind
      fun _ w₅ hadv₅ _ => ?_
    exact .pure hadv₅.descending ((hreceiver.later hadv₄.machine.serial).later hadv₅.machine.serial)

/-- A function, a class or one of the host: each is called on a frame that is there. -/
theorem invoke_succ (callee : Callee) (args : List Value) (hw : w.Descending)
    (hcallee : callee.Descends w.machine) (hargs : ∀ arg ∈ args, arg.Descends w.machine) :
    w.Descent Value.Descends (Tell.invoke note (fuel + 1) callee args w) := by
  cases callee with
  | function fn => exact ih.invoke_function fn args hw hargs
  | classRef cls => exact ih.invoke_class cls args hw hcallee hargs
  | host fn =>
    refine .tell hw (Event.names_calls trivial hargs) fun w' hmachine hw' => ?_
    rw [← hmachine] at hargs
    exact .tacit hw' (callHost_descent hw'.machine hargs)

/-! ### Statements -/

/-- Only a class declaration makes a class, and it takes the next number. -/
theorem execute_succ (stmt : Stmt) (hw : w.Descending) :
    w.Descent Completion.Descends (Tell.execute note (fuel + 1) stmt w) := by
  refine .tell hw (fun _ hnamed => by cases hnamed) fun w _ hw => ?_
  cases stmt with
  | expression expr =>
    exact (ih.evaluate expr hw).bind fun _ _ hadv _ => .pure hadv.descending trivial
  | print expr =>
    refine (ih.evaluate expr hw).bind fun value w' hadv _ => ?_
    exact (Descent.tacit hadv.descending (printLine_descent hadv.descending.machine _)).bind
      fun _ _ hadv' _ => .pure hadv'.descending trivial
  | varDecl name initializer =>
    cases initializer with
    | some expr =>
      exact (ih.evaluate expr hw).bind fun value w' hadv hvalue =>
        .declaring hadv.descending hvalue
    | none => exact .declaring hw (.of_none rfl)
  | block body =>
    refine .get (.tell hw (fun _ hnamed => by cases hnamed) fun w₁ _ hw₁ => ?_)
    refine (Descent.tacit hw₁ (newFrame_descent hw₁.machine _)).bind fun frame w₂ hadv₂ hframe => ?_
    exact .within hadv₂.descending hframe (fun _ _ ha => ha) fun _ hw₃ => ih.executeEach body hw₃
  | ifElse condition thenBranch elseBranch =>
    refine (ih.evaluate condition hw).bind fun value w' hadv _ => ?_
    split
    · exact ih.execute thenBranch hadv.descending
    · cases elseBranch with
      | some elseBranch => exact ih.execute elseBranch hadv.descending
      | none => exact .pure hadv.descending trivial
  | whileLoop condition body => exact ih.repeatWhile condition body hw
  | funDecl decl =>
    exact .get ((Descent.tacit hw (newClosure_descent hw.machine _)).bind
      fun value w' hadv hvalue => .declaring hadv.descending hvalue)
  | returnStmt keyword value =>
    cases value with
    | some expr =>
      exact (ih.evaluate expr hw).bind fun value w' hadv hvalue => .pure hadv.descending hvalue
    | none => exact .pure hw (Value.Descends.of_none rfl)
  | classDecl decl =>
    obtain ⟨name, superclass, methods⟩ := decl
    cases superclass with
    | none =>
      refine .tell hw (fun _ hnamed => by cases hnamed) fun w₁ _ hw₁ => ?_
      exact (Descent.tacit hw₁ (declareClass_descent hw₁.machine fun _ hcls => by cases hcls)).bind
        fun _ _ hadv _ => .pure hadv.descending trivial
    | some superclass =>
      refine (ih.evaluate superclass hw).bind fun value w' hadv hvalue => ?_
      cases value with
      | classRef parent =>
        -- the superclass descends from what there was before, and the class gets a later number
        have hparent : ∀ cls ∈ some parent, cls.Descends w'.machine.nextSerial := hvalue
        refine .tell hadv.descending ?_ fun w₁ hmachine hw₁ => ?_
        · rintro _ ⟨⟩
          exact hparent parent rfl
        rw [← hmachine] at hparent
        exact (Descent.tacit hw₁ (declareClass_descent hw₁.machine hparent)).bind
          fun _ _ hadv' _ => .pure hadv'.descending trivial
      | _ => exact .tacit hadv.descending (.fail hadv.descending.machine _)

/-- Statements in a row tell one after the other. -/
theorem executeEach_succ (stmts : List Stmt) (hw : w.Descending) :
    w.Descent Completion.Descends (Tell.executeEach note (fuel + 1) stmts w) := by
  cases stmts with
  | nil => exact .pure hw trivial
  | cons stmt rest =>
    refine (ih.execute stmt hw).bind fun completion w' hadv hcompletion => ?_
    cases completion with
    | normal => exact ih.executeEach rest hadv.descending
    | returned value => exact .pure hadv.descending hcompletion

theorem repeatWhile_succ (condition : Expr) (body : Stmt) (hw : w.Descending) :
    w.Descent Completion.Descends (Tell.repeatWhile note (fuel + 1) condition body w) := by
  refine (ih.evaluate condition hw).bind fun value w' hadv _ => ?_
  split
  · refine (ih.execute body hadv.descending).bind fun completion w'' hadv' hcompletion => ?_
    cases completion with
    | normal => exact ih.repeatWhile condition body hadv'.descending
    | returned value => exact .pure hadv'.descending hcompletion
  · exact .pure hadv.descending trivial

/-- Together they carry the property from one bound to the next. -/
theorem succ : DescentAt note (fuel + 1) where
  evaluate := ih.evaluate_succ
  evaluateEach := ih.evaluateEach_succ
  call := ih.call_succ
  invoke := ih.invoke_succ
  execute := ih.execute_succ
  executeEach := ih.executeEach_succ
  repeatWhile := ih.repeatWhile_succ

end Step

/-- It holds with any bound. -/
protected theorem all (fuel : Nat) : DescentAt note fuel := by
  induction fuel with
  | zero => exact zero
  | succ fuel ih => exact ih.succ

end DescentAt

/-- The statements of a program are run after one another. -/
theorem runProgram_descent {note : Event → Machine → G → G} {w : Story G} (fuel : Nat)
    (stmts : List Stmt) (hw : w.Descending) :
    w.Descent Whatever (Tell.runProgram note fuel stmts w) := by
  induction stmts generalizing w with
  | nil => exact .tacit hw (flush_descent hw.machine)
  | cons stmt rest ih =>
    exact ((DescentAt.all fuel).execute stmt hw).bind fun _ _ hadv _ => ih hadv.descending

end

end Lox.Machine
