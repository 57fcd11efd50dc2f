/-
`Lox.Proofs.Method.Run` -- all code finds its receiver and its superclass.

By induction on the bound of the evaluator: whatever is run, as long as it is a piece
of a text inside of the classes whose activations are around the current frame, or a
function that is rooted, leads from moment to moment in which everything is in order
(`RunsAt`). Along with it goes what calls give: an initializer gives its receiver, and
a class an instance that was not there before.
-/
import Lox.Proofs.Method.Telling

set_option autoImplicit false

namespace Lox.Machine

open Surroundings (note)

/-- What a statement returns is rooted. -/
def Completion.Rooted (U : SuperUse → Prop) (s : Scene Surroundings) : Completion → Prop
  | .normal => True
  | .returned value => value.Rooted U s

/-- What a call gives, besides that it is rooted: an initializer its receiver, and a
class the next instance. -/
def Callee.Gives (s s' : Scene Surroundings) (value : Value) : Callee → Prop
  | .function fn =>
    fn.isInitializer = true → s.machine.forest.local? fn.frame "this" = some value
  | .classRef cls =>
    value = .instanceOf cls ⟨s.machine.fields.size⟩ ∧
      s.machine.fields.size < s'.machine.fields.size
  | .host _ => True

variable {U : SuperUse → Prop} {w : Story Surroundings} {s s' : Scene Surroundings}

/-- What is called is as rooted as the value. -/
theorem Callee.ofValue?_rooted {value : Value} {callee : Callee}
    (h : Callee.ofValue? value = some callee) (hvalue : value.Rooted U s) :
    callee.Rooted U s := by
  cases value <;> cases h
  · exact hvalue
  · trivial
  · exact hvalue

/-! ## What is told -/

section Told

variable {α : Type} {next : Scene Surroundings → α → Prop}
  {g : Unit → Telling Surroundings α}

/-- Something that makes no difference to the activations. -/
theorem Runs.mention {event : Event} (hw : w.Sound U)
    (hnote : note event w.machine w.account = w.account)
    (hevent : event.Lawful U w.toScene)
    (hcreates : ¬ event.Creates)
    (h : ∀ w', w'.toScene = w.toScene → w'.Sound U → Runs U w' next (g () w')) :
    Runs U w next ((Machine.tell note event >>= g) w) := by
  have hscene : (⟨w.machine, note event w.machine w.account⟩ : Scene Surroundings)
      = w.toScene := by rw [hnote]
  have hleads : w.Leads U (w.with note event) := by
    unfold Story.with
    rw [hscene]
    exact hw.on hw.scene.leads hw.fresh hevent hcreates rfl
  exact .tell hleads (h _ hscene hleads.sound)

/-- The next frame is going to be one for code inside of these activations. -/
theorem Runs.announce {event : Event} (hw : w.Sound U) (activations : List Activation)
    (hnote : note event w.machine w.account
      = w.account.seat w.machine.forest.next activations)
    (hevent : ∀ s, event.Lawful U s) (hcreates : ¬ event.Creates)
    (h : ∀ w', w'.machine = w.machine →
      w'.account = w.account.seat w.machine.forest.next activations → w.Leads U w' →
      Runs U w' next (g () w')) :
    Runs U w next ((Machine.tell note event >>= g) w) := by
  have hleads : w.Leads U (w.with note event) := by
    unfold Story.with
    rw [hnote]
    exact hw.on (hw.scene.seat activations) hw.fresh (hevent _) hcreates rfl
  exact .tell hleads (h _ rfl hnote hleads)

/-- A frame for a block or for the body of a function. Code in it is run inside of the
activations of the frame around it. -/
theorem enters_runs {parent : FrameId} {f : FrameId → Telling Surroundings α} (hw : w.Sound U)
    (hparent : w.machine.forest.Present parent)
    (hsuper : w.machine.forest.local? parent "super" = none)
    (h : ∀ frame w', w.Leads U w' → w'.machine.forest.Present frame →
      (∀ key ∈ keywords, w'.machine.forest.local? frame key = none) →
      w'.account.around frame = w.account.around parent → Runs U w' next (f frame w')) :
    Runs U w next ((Machine.tell note (.enters parent) >>= fun _ =>
      Machine.tacit note (newFrame parent) >>= f) w) := by
  refine .announce hw _ rfl (fun _ => trivial) id fun w' hmachine haccount hleads => ?_
  have haround : w'.account.around w'.machine.forest.next = w.account.around parent := by
    rw [haccount, hmachine, Surroundings.around_seat_self]
  have hsame : w'.account.around parent = w.account.around parent := hleads.onward.around hparent
  rw [← hmachine] at hparent hsuper
  have hframe := hleads.sound.scene.newFrame hparent hsuper (haround.trans hsame.symm)
  have hsteps : Steps U w'.toScene (fun s frame => s.machine.forest.Present frame ∧
      (∀ key ∈ keywords, s.machine.forest.local? frame key = none) ∧
      s.account.around frame = w.account.around parent) (newFrame parent w'.machine) := by
    refine ⟨hframe, Forest.present_addChild.mpr (.inr rfl), fun key _ => ?_, haround⟩
    show (w'.machine.forest.addChild parent).local? w'.machine.forest.next key = none
    rw [Forest.local?_addChild, Forest.local?, Forest.frame?_next, Option.bind_none]
  refine (Runs.tacit hleads.sound hsteps).bind fun frame w'' hleads' hpost => ?_
  exact h frame w'' (hleads.trans hleads') hpost.1 hpost.2.1 hpost.2.2

/-- A name that is declared here, by a statement that does nothing else after it. -/
theorem declaring_runs {name : String} {value : Value} (hw : w.Sound U) (hname : name ∉ keywords)
    (hvalue : value.Rooted U w.toScene) :
    Runs U w (Completion.Rooted U)
      ((Machine.tacit note (defineHere name value) >>= fun _ => pure .normal) w) :=
  (Runs.tacit hw (defineHere_steps hw.scene hname hvalue)).bind
    fun _ _ hleads _ => .pure hleads.sound trivial

/-- The declaration of a class: it is told which number the class will get, and then it
gets it. -/
theorem declares_runs {decl : ClassDecl} {parent : Option Class}
    {f : Unit → Telling Surroundings α} (hw : w.Sound U)
    (hname : decl.name.lexeme ∉ keywords) (hparent : ∀ cls ∈ parent, cls.Rooted U w.toScene)
    (hsuperclass : decl.superclass.isSome = parent.isSome)
    (hmethods : ∀ method ∈ decl.methods, method.Lawful U (decl :: w.toScene.classes))
    (h : ∀ w', w.Leads U w' → Runs U w' next (f () w')) :
    Runs U w next ((Machine.tell note (.declares decl parent) >>= fun _ =>
      Machine.tacit note (declareClass decl parent) >>= f) w) := by
  let e : Execution := ⟨decl, parent, w.account.around w.machine.current⟩
  have he : e.Sound U := ⟨hsuperclass, hw.scene.seated_current.activations⟩
  -- the number that the class will get is new, as all that were told of are smaller
  have hnew : w.account.execution? w.machine.nextSerial = none := by
    by_contra hold
    obtain ⟨e', he'⟩ := Option.ne_none_iff_exists'.mp hold
    exact Nat.lt_irrefl _ (hw.fresh _ e' he')
  have htold := hw.scene.declare he hnew
  obtain ⟨m, hrun, hscene, hserial⟩ := declareClass_steps htold.sound hname
    (fun cls hcls => (hparent cls hcls).onward htold.onward)
    Surroundings.execution?_declare_self hmethods
  let w' := w.with note (.declares decl parent)
  let w'' := w'.step note m
  have hleads : w.Leads U w'' := by
    -- of what was declared only the new class has the number that was next
    refine hw.promise htold hscene (fun serial e' he' => ?_) trivial False.elim
      fun serial e' he' => ?_
    · show serial < m.nextSerial
      rw [hserial]
      by_cases hkey : serial = w.machine.nextSerial
      · exact hkey ▸ Nat.lt_succ_self _
      · exact Nat.lt_succ_of_lt (hw.fresh serial e'
          ((Surroundings.execution?_declare_of_ne hkey).symm.trans he'))
    · by_cases hkey : serial = w.machine.nextSerial
      · subst hkey
        cases Surroundings.execution?_declare_self.symm.trans he'
        exact .inr ⟨rfl, rfl, rfl⟩
      · exact .inl ((Surroundings.execution?_declare_of_ne hkey).symm.trans he')
  have hstep : Machine.tacit note (declareClass decl parent) w' = .ok () w'' := by
    unfold Machine.tacit
    have hmachine : w'.machine = w.machine := rfl
    rw [hmachine, hrun]
  -- the two steps as one, so that what follows starts behind both
  show Runs U w next (EStateM.bind (Machine.tacit note (declareClass decl parent)) f w')
  rw [EStateM.bind, hstep]
  exact (h w'' hleads).after hleads

/-- A call of a class, up to the instance that it creates. -/
theorem creates_runs {cls : Class} {args : List Value}
    {f : InstanceId → Telling Surroundings α} (hw : w.Sound U) (hcls : cls.Rooted U w.toScene)
    (hargs : ∀ arg ∈ args, arg.Rooted U w.toScene)
    (h : ∀ w', w.Leads U w' → w.machine.fields.size < w'.machine.fields.size →
      Runs U w' next (f ⟨w.machine.fields.size⟩ w')) :
    Runs U w next ((Machine.tell note (.calls (.classRef cls) args) >>= fun _ =>
      Machine.tacit note newInstance >>= f) w) := by
  have hsize : w.machine.fields.size < (w.machine.fields.push Table.empty).size := by
    rw [Array.size_push]
    exact Nat.lt_succ_self _
  have hevent : Event.Lawful U w.toScene (.calls (.classRef cls) args) :=
    ⟨hw.fresh, hcls, hargs⟩
  have hleads := hw.promise hw.scene.leads hw.scene.newInstance hw.fresh hevent (fun _ => hsize)
    fun _ _ he => .inl he
  exact (h _ hleads hsize).after hleads

end Told

/-! ## The evaluator -/

/-- The functions of the evaluator lead to stories in which everything is in order, with
one bound on their depth. -/
structure RunsAt (U : SuperUse → Prop) (fuel : Nat) : Prop where
  evaluate : ∀ {w : Story Surroundings} (expr : Expr), w.Sound U →
    expr.Lawful U w.toScene.classes →
    Runs U w (Value.Rooted U) (Tell.evaluate note fuel expr w)
  evaluateEach : ∀ {w : Story Surroundings} (exprs : List Expr), w.Sound U →
    Expr.AllLawful U w.toScene.classes exprs →
    Runs U w (fun s values => ∀ value ∈ values, value.Rooted U s)
      (Tell.evaluateEach note fuel exprs w)
  call : ∀ {w : Story Surroundings} (callee : Value) (paren : Token) (args : List Value),
    w.Sound U → callee.Rooted U w.toScene → (∀ arg ∈ args, arg.Rooted U w.toScene) →
    Runs U w (Value.Rooted U) (Tell.call note fuel callee paren args w)
  invoke : ∀ {w : Story Surroundings} (callee : Callee) (args : List Value),
    w.Sound U → callee.Rooted U w.toScene → (∀ arg ∈ args, arg.Rooted U w.toScene) →
    Runs U w (fun s value => value.Rooted U s ∧ callee.Gives w.toScene s value)
      (Tell.invoke note fuel callee args w)
  execute : ∀ {w : Story Surroundings} (stmt : Stmt), w.Sound U →
    stmt.Lawful U w.toScene.classes →
    Runs U w (Completion.Rooted U) (Tell.execute note fuel stmt w)
  executeEach : ∀ {w : Story Surroundings} (stmts : List Stmt), w.Sound U →
    Stmt.AllLawful U w.toScene.classes stmts →
    Runs U w (Completion.Rooted U) (Tell.executeEach note fuel stmts w)
  repeatWhile : ∀ {w : Story Surroundings} (condition : Expr) (body : Stmt), w.Sound U →
    condition.Lawful U w.toScene.classes → body.Lawful U w.toScene.classes →
    Runs U w (Completion.Rooted U) (Tell.repeatWhile note fuel condition body w)

namespace RunsAt

/-- Without fuel nothing is told. -/
theorem zero : RunsAt U 0 where
  evaluate _ hw _ := .throw hw
  evaluateEach _ hw _ := .throw hw
  call _ _ _ hw _ _ := .throw hw
  invoke _ _ hw _ _ := .throw hw
  execute _ hw _ := .throw hw
  executeEach _ hw _ := .throw hw
  repeatWhile _ _ hw _ _ := .throw hw

section Step

variable {fuel : Nat} (ih : RunsAt U fuel)
include ih

/-! ### Expressions -/

/-- Expressions lead to rooted values, if everything with less fuel does. For `super` the
activations say what is found. -/
theorem evaluate_succ {w₀ : Story Surroundings} (expr : Expr) (hw₀ : w₀.Sound U)
    (h : expr.Lawful U w₀.toScene.classes) :
    Runs U w₀ (Value.Rooted U) (Tell.evaluate note (fuel + 1) expr w₀) := by
  refine .mention hw₀ rfl ⟨hw₀.fresh, h⟩ id fun w hscene hw => ?_
  rw [← hscene] at h
  obtain ⟨hformed, hsupers⟩ := h
  cases expr with
  | literal value =>
    refine .pure hw ?_
    cases value <;> trivial
  | grouping inner => exact ih.evaluate inner hw ⟨hformed, hsupers⟩
  | unary op operand =>
    refine (ih.evaluate operand hw ⟨hformed.2, hsupers⟩).bind fun value w' hleads _ => ?_
    -- operators on values give plain ones, which are rooted anywhere
    exact .tacit hleads.sound (liftExcept_steps hleads.sound.scene
      fun result hresult => (unaryResult_plain hresult).rooted)
  | binary left op right =>
    obtain ⟨hleft, hright⟩ := List.forall_mem_append.mp hsupers
    refine (ih.evaluate left hw ⟨hformed.1, hleft⟩).bind fun _ w' hleads _ => ?_
    refine (ih.evaluate right hleads.sound (hleads.classes hw ▸ ⟨hformed.2.2, hright⟩)).bind
      fun _ w'' hleads' _ => ?_
    exact .tacit hleads'.sound (liftExcept_steps hleads'.sound.scene
      fun result hresult => (binaryResult_plain hresult).rooted)
  | logical left op right =>
    obtain ⟨hleft, hright⟩ := List.forall_mem_append.mp hsupers
    refine (ih.evaluate left hw ⟨hformed.1, hleft⟩).bind fun value w' hleads hvalue => ?_
    -- deciding by the left value keeps it rooted, as nothing has happened
    have hshort : Runs U w' (fun s (_ : Bool) => value.Rooted U s)
        (Machine.tacit note (liftExcept (shortCircuits op value)) w') :=
      .tacit hleads.sound (liftExcept_steps hleads.sound.scene fun _ _ => hvalue)
    refine hshort.bind fun short w'' hleads' hvalue' => ?_
    cases short with
    | true => exact .pure hleads'.sound hvalue'
    | false =>
      refine ih.evaluate right hleads'.sound ?_
      rw [hleads'.classes hleads.sound, hleads.classes hw]
      exact ⟨hformed.2.2, hright⟩
  | «variable» name => exact .tacit hw (readVariable_steps hw.scene name)
  | assign name value =>
    refine (ih.evaluate value hw ⟨hformed.2, hsupers⟩).bind fun result w' hleads hresult => ?_
    -- a name in a program is never one of the keywords, so no receiver is assigned to
    have hwrite := (writeVariable_steps hleads.sound.scene hformed.1.not_mem_keywords hresult)
    refine (Runs.tacit hleads.sound hwrite).bind fun _ w'' hleads' _ => ?_
    exact .pure hleads'.sound (hresult.onward hleads'.onward)
  | call callee paren args =>
    obtain ⟨hcallee, hargs⟩ := List.forall_mem_append.mp hsupers
    refine (ih.evaluate callee hw ⟨hformed.1, hcallee⟩).bind fun value w' hleads hvalue => ?_
    refine (ih.evaluateEach args hleads.sound (hleads.classes hw ▸ ⟨hformed.2.2, hargs⟩)).bind
      fun values w'' hleads' hvalues => ?_
    exact ih.call value paren values hleads'.sound (hvalue.onward hleads'.onward) hvalues
  | get object name =>
    refine (ih.evaluate object hw ⟨hformed.1, hsupers⟩).bind fun value w' hleads hvalue => ?_
    -- a property is read only from an instance; the frame for its method is announced before
    cases value with
    | instanceOf cls i =>
      refine .announce hleads.sound _ rfl (fun _ => trivial) id fun w'' hmachine haccount hleads' => ?_
      refine .tacit hleads'.sound ?_
      refine readProperty_steps hleads'.sound.scene (hvalue.onward hleads'.onward) ?_
      rw [haccount, hmachine, Surroundings.around_seat_self]
      rfl
    | _ => exact .tacit hleads.sound (.fail hleads.sound.scene _)
  | set object name value =>
    obtain ⟨hobject, hvalue⟩ := List.forall_mem_append.mp hsupers
    refine (ih.evaluate object hw ⟨hformed.1, hobject⟩).bind fun target w' hleads _ => ?_
    cases target with
    | instanceOf cls i =>
      refine (ih.evaluate value hleads.sound (hleads.classes hw ▸ ⟨hformed.2.2, hvalue⟩)).bind
        fun result w'' hleads' hresult => ?_
      have hwrite : Steps U w''.toScene (fun _ (_ : Unit) => True)
          (writeField i name.lexeme result w''.machine) :=
        ⟨hleads'.sound.scene.writeField hresult, trivial⟩
      refine (Runs.tacit hleads'.sound hwrite).bind fun _ w''' hleads'' _ => ?_
      exact .pure hleads''.sound (hresult.onward hleads''.onward)
    | _ => exact .tacit hleads.sound (.fail hleads.sound.scene _)
  | this keyword => exact .tacit hw (readVariable_steps hw.scene keyword)
  | super keyword method =>
    -- whether the method is found is settled by the machine before the expression is evaluated
    have hu : U ⟨keyword, method, w.toScene.classes⟩ := hsupers _ List.mem_cons_self
    by_cases hfound : ∃ parent cls i,
        w.machine.forest.lookup w.machine.current "super" = some (.classRef parent) ∧
        w.machine.forest.lookup w.machine.current "this" = some (.instanceOf cls i)
    · obtain ⟨parent, cls, i, hparent, hthis⟩ := hfound
      refine .announce hw _ (Surroundings.note_defers_of_some hparent hthis) (fun _ => trivial) id
        fun w' hmachine haccount hleads => ?_
      refine .tacit hleads.sound (readSuper_steps hleads.sound.scene hu (hleads.classes hw).symm
        fun parent' cls' i' hparent' hthis' => ?_)
      rw [hmachine] at hparent' hthis'
      cases hparent.symm.trans hparent'
      cases hthis.symm.trans hthis'
      rw [haccount, hmachine, Surroundings.around_seat_self]
      rfl
    -- without a receiver or a superclass the look-up fails, and no frame is made
    · refine .mention hw (Surroundings.note_defers_of_not hfound) trivial id fun w' hscene' hw' => ?_
      refine .tacit hw' (readSuper_steps hw'.scene hu (by rw [hscene']; rfl)
        fun parent cls i hparent hthis => ?_)
      rw [hscene'] at hparent hthis
      exact absurd ⟨parent, cls, i, hparent, hthis⟩ hfound

/-- So do expressions in a row, where the values of earlier ones stay rooted. -/
theorem evaluateEach_succ (exprs : List Expr) (hw : w.Sound U)
    (h : Expr.AllLawful U w.toScene.classes exprs) :
    Runs U w (fun s values => ∀ value ∈ values, value.Rooted U s)
      (Tell.evaluateEach note (fuel + 1) exprs w) := by
  cases exprs with
  | nil => exact .pure hw (List.forall_mem_nil _)
  | cons expr rest =>
    obtain ⟨hfirst, hrest⟩ := List.forall_mem_append.mp h.supers
    refine (ih.evaluate expr hw ⟨h.formed.1, hfirst⟩).bind fun value w' hleads hvalue => ?_
    refine (ih.evaluateEach rest hleads.sound (hleads.classes hw ▸ ⟨h.formed.2, hrest⟩)).bind
      fun values w'' hleads' hvalues => ?_
    exact .pure hleads'.sound (List.forall_mem_cons.mpr ⟨hvalue.onward hleads'.onward, hvalues⟩)

/-! ### Calls -/

/-- Before a callee is run, it is told what is called. -/
theorem call_succ (callee : Value) (paren : Token) (args : List Value) (hw : w.Sound U)
    (hcallee : callee.Rooted U w.toScene) (hargs : ∀ arg ∈ args, arg.Rooted U w.toScene) :
    Runs U w (Value.Rooted U) (Tell.call note (fuel + 1) callee paren args w) := by
  unfold Tell.call Followed.call
  cases hvalue : Callee.ofValue? callee with
  | none => exact .tacit hw (.fail hw.scene _)
  | some callee =>
    dsimp only
    split
    · exact (ih.invoke callee args hw (Callee.ofValue?_rooted hvalue hcallee) hargs).imp
        fun _ _ _ hpost => hpost.1
    · exact .tacit hw (.fail hw.scene _)

/-- The statements of a block or of the body of a function are run in the frame that was
created for them. -/
theorem within_runs {frame : FrameId} {stmts : List Stmt} (hw : w.Sound U)
    (hframe : w.machine.forest.Present frame)
    (hplain : ∀ key ∈ keywords, w.machine.forest.local? frame key = none)
    (hlawful : Stmt.AllLawful U ((w.account.around frame).map Activation.decl) stmts) :
    Runs U w (Completion.Rooted U)
      (Tell.within frame (Tell.executeEach note fuel stmts) w) := by
  refine .within hw ?_ (ih.executeEach stmts (hw.inFrame hframe hplain) hlawful)
  intro s completion hcompletion
  cases completion with
  | normal => trivial
  | returned value => exact Value.Rooted.onward hcompletion (s.onward_inFrame _)

/-- What the body has returned is the result of a call, unless the function is an
initializer: then that is the receiver, which is seen from the frame of the function. -/
theorem invoke_function {w₀ : Story Surroundings} (fn : Closure) (args : List Value)
    (hw₀ : w₀.Sound U) (hfn : fn.Rooted U w₀.toScene)
    (hargs : ∀ arg ∈ args, arg.Rooted U w₀.toScene) :
    Runs U w₀ (fun s value => value.Rooted U s ∧ (Callee.function fn).Gives w₀.toScene s value)
      (Tell.invoke note (fuel + 1) (.function fn) args w₀) := by
  refine .mention hw₀ rfl ⟨hw₀.fresh, hfn, hargs⟩ id fun w hscene hw => ?_
  rw [← hscene] at hfn hargs ⊢
  refine enters_runs hw hfn.present hfn.super fun frame w₁ hleads₁ hframe hplain haround => ?_
  have hlawful := hfn.lawful
  rw [← haround] at hlawful
  have hbound := bindParameters_steps hleads₁.sound.scene hframe hplain hlawful.params
    fun arg harg => (hargs arg harg).onward hleads₁.onward
  refine (Runs.tacit hleads₁.sound hbound).bind fun _ w₂ hleads₂ _ => ?_
  have hplain₂ : ∀ key ∈ keywords, w₂.machine.forest.local? frame key = none := by
    intro key hkey
    rw [hleads₂.onward.bound hframe key hkey, hplain key hkey]
  rw [← hleads₂.onward.around hframe] at hlawful
  refine (ih.within_runs hleads₂.sound (hleads₂.onward.present hframe) hplain₂ hlawful.body).bind
    fun completion w₃ hleads₃ hcompletion => ?_
  have honward := (hleads₁.onward.trans hleads₂.onward).trans hleads₃.onward
  split
  · rename_i hinit
    refine .get (.pure hleads₃.sound ?_)
    obtain ⟨hfree, -⟩ | ⟨a, ha⟩ := hfn.sort
    · exact absurd hinit (by rw [hfree]; decide)
    -- nothing has changed what is seen from that frame
    have hseated := (hw.scene.seated hfn.present hfn.super).onward hfn.present honward
    have hthis : w₃.machine.forest.lookup fn.frame "this" = some a.receiver := by
      rw [hseated.this, honward.around hfn.present, ha.around, Option.map_some]
    rw [hthis]
    exact ⟨hleads₃.sound.scene.values _ (holds_of_lookup hthis), fun _ => ha.this⟩
  · rename_i hplainFunction
    cases completion with
    | returned value =>
      exact .pure hleads₃.sound ⟨hcompletion, fun hinit => absurd hinit hplainFunction⟩
    | normal => exact .pure hleads₃.sound ⟨trivial, fun hinit => absurd hinit hplainFunction⟩

/-- A class creates the next instance, and runs its initializer on it. -/
theorem invoke_class (cls : Class) (args : List Value) (hw : w.Sound U)
    (hcls : cls.Rooted U w.toScene) (hargs : ∀ arg ∈ args, arg.Rooted U w.toScene) :
    Runs U w (fun s value => value.Rooted U s ∧ (Callee.classRef cls).Gives w.toScene s value)
      (Tell.invoke note (fuel + 1) (.classRef cls) args w) := by
  refine creates_runs hw hcls hargs fun w₁ hleads₁ hsize => ?_
  have hreceiver : (Value.instanceOf cls ⟨w.machine.fields.size⟩).Rooted U w₁.toScene :=
    ⟨hcls.onward hleads₁.onward, hsize⟩
  cases hmethod : cls.findMethod? "init" with
  | none => exact .pure hleads₁.sound ⟨hreceiver, rfl, hsize⟩
  | some init =>
    refine .announce hleads₁.sound _ rfl (fun _ => trivial) id fun w₂ hmachine haccount hleads₂ => ?_
    have hbind := bind_steps hleads₂.sound.scene (hreceiver.onward hleads₂.onward).1 hmethod
      (hreceiver.onward hleads₂.onward) (fun _ => List.suffix_refl _)
      (by rw [haccount, hmachine, Surroundings.around_seat_self]; rfl)
    refine (Runs.tacit hleads₂.sound hbind).bind fun fn w₃ hleads₃ hfn => ?_
    have honward := (hleads₁.trans hleads₂).trans hleads₃
    refine (ih.invoke (.function fn) args hleads₃.sound hfn fun arg harg =>
      (hargs arg harg).onward honward.onward).bind fun _ w₄ hleads₄ _ => ?_
    have hlater := (hleads₂.trans hleads₃).trans hleads₄
    exact .pure hleads₄.sound ⟨hreceiver.onward hlater.onward, rfl,
      Nat.lt_of_lt_of_le hsize hlater.onward.fields⟩

/-- A callee is run in a frame with the activations that it was rooted with. -/
theorem invoke_succ (callee : Callee) (args : List Value) (hw : w.Sound U)
    (hcallee : callee.Rooted U w.toScene) (hargs : ∀ arg ∈ args, arg.Rooted U w.toScene) :
    Runs U w (fun s value => value.Rooted U s ∧ callee.Gives w.toScene s value)
      (Tell.invoke note (fuel + 1) callee args w) := by
  cases callee with
  | function fn => exact ih.invoke_function fn args hw hcallee hargs
  | classRef cls => exact ih.invoke_class cls args hw hcallee hargs
  | host fn =>
    refine .mention hw rfl ⟨hw.fresh, hcallee, hargs⟩ id fun w' hscene hw' => ?_
    rw [← hscene] at hargs
    exact (Runs.tacit hw' (callHost_steps hw'.scene hargs)).imp fun _ _ _ hvalue => ⟨hvalue, trivial⟩

/-! ### Statements -/

/-- Statements keep the story in order. A class declaration adds its execution to the account.
-/
theorem execute_succ {w₀ : Story Surroundings} (stmt : Stmt) (hw₀ : w₀.Sound U)
    (h : stmt.Lawful U w₀.toScene.classes) :
    Runs U w₀ (Completion.Rooted U) (Tell.execute note (fuel + 1) stmt w₀) := by
  refine .mention hw₀ rfl trivial id fun w hscene hw => ?_
  rw [← hscene] at h
  have hformed := h.formed
  have hsupers := h.supers
  cases stmt with
  | expression expr =>
    refine (ih.evaluate expr hw (.of_supers hformed hsupers)).bind fun _ w' hleads _ => ?_
    exact .pure hleads.sound trivial
  | print expr =>
    refine (ih.evaluate expr hw (.of_supers hformed hsupers)).bind fun value w' hleads _ => ?_
    refine (Runs.tacit hleads.sound (printLine_steps hleads.sound.scene value.display)).bind
      fun _ w'' hleads' _ => ?_
    exact .pure hleads'.sound trivial
  | varDecl name initializer =>
    cases initializer with
    | some expr =>
      refine (ih.evaluate expr hw (.of_supers (hformed.2 expr rfl) hsupers)).bind
        fun value w' hleads hvalue => ?_
      exact declaring_runs hleads.sound hformed.1.not_mem_keywords hvalue
    | none => exact declaring_runs hw hformed.1.not_mem_keywords trivial
  | block body =>
    -- the frame of a block is inside of the activations that the current one is in
    refine .get (enters_runs hw hw.scene.present (hw.scene.plain _ (by decide))
      fun frame w' hleads hframe hplain haround => ?_)
    exact ih.within_runs hleads.sound hframe hplain (haround ▸ ⟨hformed, hsupers⟩)
  | ifElse condition thenBranch elseBranch =>
    cases elseBranch with
    | none =>
      obtain ⟨hcondition, hthen⟩ := List.forall_mem_append.mp hsupers
      refine (ih.evaluate condition hw (.of_supers hformed.1 hcondition)).bind
        fun value w' hleads _ => ?_
      split
      · exact ih.execute thenBranch hleads.sound (hleads.classes hw ▸ ⟨hformed.2, hthen⟩)
      · exact .pure hleads.sound trivial
    | some elseBranch =>
      obtain ⟨hcondition, hbranches⟩ := List.forall_mem_append.mp hsupers
      obtain ⟨hthen, helse⟩ := List.forall_mem_append.mp hbranches
      refine (ih.evaluate condition hw (.of_supers hformed.1 hcondition)).bind
        fun value w' hleads _ => ?_
      split
      · exact ih.execute thenBranch hleads.sound (hleads.classes hw ▸ ⟨hformed.2.1, hthen⟩)
      · exact ih.execute elseBranch hleads.sound (hleads.classes hw ▸ ⟨hformed.2.2, helse⟩)
  | whileLoop condition body =>
    obtain ⟨hcondition, hbody⟩ := List.forall_mem_append.mp hsupers
    exact ih.repeatWhile condition body hw (.of_supers hformed.1 hcondition) ⟨hformed.2, hbody⟩
  | funDecl decl =>
    have hdecl : decl.Lawful U w.toScene.classes := ⟨hformed, hsupers⟩
    -- a function is closed over the current frame, which binds no keyword
    have hfn : Closure.Rooted U w.toScene ⟨decl, w.machine.current, false⟩ :=
      ⟨hw.scene.present, hw.scene.plain _ (by decide), hdecl,
        .inl ⟨rfl, hw.scene.plain _ (by decide)⟩⟩
    refine .get ((Runs.tacit hw (newClosure_steps hw.scene hfn)).bind
      fun value w' hleads hvalue => ?_)
    exact declaring_runs hleads.sound hdecl.name hvalue
  | returnStmt keyword value =>
    cases value with
    | some expr =>
      refine (ih.evaluate expr hw (.of_supers (hformed.2 expr rfl) hsupers)).bind
        fun value w' hleads hvalue => ?_
      exact .pure hleads.sound hvalue
    | none => exact .pure hw trivial
  | classDecl decl =>
    obtain ⟨hname, hsuperclass, hmethods⟩ := h.classDecl
    obtain ⟨name, superclass, methods⟩ := decl
    cases superclass with
    | none =>
      exact declares_runs hw hname (fun _ hcls => by cases hcls) rfl hmethods
        fun w' hleads => .pure hleads.sound trivial
    | some superclass =>
      refine (ih.evaluate superclass hw (hsuperclass superclass rfl)).bind
        fun value w' hleads hvalue => ?_
      rw [← hleads.classes hw] at hmethods
      -- anything but a class ends the declaration with a failure
      cases value with
      | classRef parent =>
        refine declares_runs hleads.sound hname (fun cls hcls => ?_) rfl hmethods
          fun w'' hleads' => .pure hleads'.sound trivial
        cases hcls
        exact hvalue
      | _ => exact .tacit hleads.sound (.fail hleads.sound.scene _)

theorem executeEach_succ (stmts : List Stmt) (hw : w.Sound U)
    (h : Stmt.AllLawful U w.toScene.classes stmts) :
    Runs U w (Completion.Rooted U) (Tell.executeEach note (fuel + 1) stmts w) := by
  cases stmts with
  | nil => exact .pure hw trivial
  | cons stmt rest =>
    obtain ⟨hfirst, hrest⟩ := List.forall_mem_append.mp h.supers
    refine (ih.execute stmt hw ⟨h.formed.1, hfirst⟩).bind fun completion w' hleads hcompletion => ?_
    cases completion with
    | returned value => exact .pure hleads.sound hcompletion
    | normal =>
      exact ih.executeEach rest hleads.sound (hleads.classes hw ▸ ⟨h.formed.2, hrest⟩)

theorem repeatWhile_succ (condition : Expr) (body : Stmt) (hw : w.Sound U)
    (hcondition : condition.Lawful U w.toScene.classes)
    (hbody : body.Lawful U w.toScene.classes) :
    Runs U w (Completion.Rooted U) (Tell.repeatWhile note (fuel + 1) condition body w) := by
  refine (ih.evaluate condition hw hcondition).bind fun value w' hleads _ => ?_
  rw [← hleads.classes hw] at hcondition hbody
  split
  · refine (ih.execute body hleads.sound hbody).bind fun completion w'' hleads' hcompletion => ?_
    rw [← hleads'.classes hleads.sound] at hcondition hbody
    cases completion with
    | returned value => exact .pure hleads'.sound hcompletion
    | normal => exact ih.repeatWhile condition body hleads'.sound hcondition hbody
  · exact .pure hleads.sound trivial

/-- Together they keep it in order with one unit more of the bound. -/
theorem succ : RunsAt U (fuel + 1) where
  evaluate := ih.evaluate_succ
  evaluateEach := ih.evaluateEach_succ
  call := ih.call_succ
  invoke := ih.invoke_succ
  execute := ih.execute_succ
  executeEach := ih.executeEach_succ
  repeatWhile := ih.repeatWhile_succ

end Step

/-- They do so with any bound. -/
protected theorem all (fuel : Nat) : RunsAt U fuel := by
  induction fuel with
  | zero => exact zero
  | succ fuel ih => exact ih.succ

end RunsAt

/-- The statements of a program are run after one another. -/
theorem runProgram_runs (fuel : Nat) {stmts : List Stmt} (hw : w.Sound U)
    (h : Stmt.AllLawful U w.toScene.classes stmts) :
    Runs U w (fun _ _ => True) (Tell.runProgram note fuel stmts w) := by
  induction stmts generalizing w with
  | nil => exact .tacit hw (flush_steps hw.scene)
  | cons stmt rest ih =>
    obtain ⟨hfirst, hrest⟩ := List.forall_mem_append.mp h.supers
    refine ((RunsAt.all fuel).execute stmt hw ⟨h.formed.1, hfirst⟩).bind fun _ w' hleads _ => ?_
    exact ih hleads.sound (hleads.classes hw ▸ ⟨h.formed.2, hrest⟩)

end Lox.Machine
