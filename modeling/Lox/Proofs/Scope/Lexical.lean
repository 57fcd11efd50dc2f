/-
`Lox.Proofs.Scope.Lexical` -- names mean what the text says.

Wherever code is run, the frames mirror the scopes around it. That is kept by an
induction on the bound of the evaluator, along with the order of all that the
machine holds (`KeepsAt`): a block and a call create the frame for one more scope,
a declaration binds the name that it adds to the innermost one, and everything else
leaves the frames alone. A function takes the scopes around its body with it, so the
induction can go on where it is called, whatever is around the call.

From this it follows that a variable that is seen in a run is found in the frame of
the scope that it belongs to.
-/
import Lox.Proofs.Inheritance.Lineage
import Lox.Proofs.Scope.Occurrence
import Lox.Proofs.Scope.Order

set_option autoImplicit false

namespace Lox

/-! ## The functions of a declaration -/

section Declarations

variable {around : Nesting} {decl : FunctionDecl} {decls : List FunctionDecl}

/-- What a method uses, the methods of its class use. -/
theorem FunctionDecl.mem_usesEach {u : Use} (hmem : decl ∈ decls) (hu : u ∈ decl.uses around) :
    u ∈ FunctionDecl.usesEach around decls := by
  induction decls with
  | nil => cases hmem
  | cons first rest ih =>
    rcases List.mem_cons.mp hmem with rfl | hmem
    · exact List.mem_append_left _ hu
    · exact List.mem_append_right _ (ih hmem)

/-- Each method of a list is contained if the list is. -/
theorem FunctionDecl.AllContained.of_mem (h : FunctionDecl.AllContained decls)
    (hmem : decl ∈ decls) : decl.Contained := by
  induction decls with
  | nil => cases hmem
  | cons first rest ih =>
    rcases List.mem_cons.mp hmem with rfl | hmem
    · exact h.1
    · exact ih h.2 hmem

end Declarations

/-- What a statement returns is in order. -/
def Completion.Placed (U : Use → Prop) (V : Vocabulary) (f : Forest Value) : Completion → Prop
  | .normal => True
  | .returned value => value.Placed U V f

namespace Machine

/-- What is called is in order. -/
def Callee.Placed (U : Use → Prop) (V : Vocabulary) (f : Forest Value) : Callee → Prop
  | .function fn => fn.Placed U V f
  | .classRef cls => cls.Placed U V f
  | .host _ => True

variable {U : Use → Prop} {V : Vocabulary} {w : Watched} {ids : List FrameId} {around : Nesting}

/-- What is called is in order if the value is. -/
theorem Callee.ofValue?_placed {value : Value} {callee : Callee} {f : Forest Value}
    (h : Callee.ofValue? value = some callee) (hvalue : value.Placed U V f) :
    callee.Placed U V f := by
  cases value <;> cases h
  · exact hvalue
  · trivial
  · exact hvalue

/-! ## Declarations -/

/-- The methods in the table of a class are those of its declaration, closed over
one frame. They have the names they were declared with, and those called `init` are
initializers. -/
theorem methodTable_find? {frame : FrameId} {methods : List FunctionDecl} {name : String}
    {fn : Closure} (h : (methodTable frame methods).find? name = some fn) :
    fn.frame = frame ∧ fn.decl ∈ methods ∧ fn.name = name ∧
      fn.isInitializer = (name == "init") := by
  rw [methodTable_find?_eq] at h
  obtain ⟨method, hmethod, rfl⟩ := Option.map_eq_some_iff.mp h
  have hname := List.find?_some hmethod
  exact ⟨rfl, List.mem_reverse.mp (List.mem_of_find?_eq_some hmethod), beq_iff_eq.mp hname, rfl⟩

/-- A class whose methods are closed over a frame that mirrors the scopes around
them. -/
theorem Class.placed_of_methodTable {f : Forest Value} {frame : FrameId} {decl : ClassDecl}
    {serial : Nat} {ancestors : List ClassBody} (h : around.Mirrored V f frame ids)
    (hcrossed : ∀ scope ∈ around, scope.crossed = true)
    (hfits : ∀ method ∈ decl.methods, method.Fits U around.receiver)
    (hancestors : ∀ body ∈ ancestors, ∀ name fn, body.methods.find? name = some fn →
      fn.PlacedMethod U V f) :
    Lox.Class.Placed U V f ⟨⟨serial, decl.name.lexeme, methodTable frame decl.methods⟩, ancestors⟩ := by
  intro body hbody name fn hfind
  rcases List.mem_cons.mp hbody with rfl | hbody
  · obtain ⟨rfl, hmem, -⟩ := methodTable_find? hfind
    exact ⟨ids, around, h, hcrossed, hfits _ hmem⟩
  · exact hancestors body hbody name fn hfind

/-- How a statement has been run: what it returns is in order, and if it fell through
then the names it declares have been bound. -/
def Declares (U : Use → Prop) (current : FrameId) (names : List String) (V : Vocabulary)
    (f : Forest Value) (completion : Completion) : Prop :=
  completion.Placed U V f ∧
    (completion = .normal → ∀ name ∈ names, (f.local? current name).isSome)

/-- Declaring a name in the innermost scope. -/
theorem defineHere_declares {name : String} {value : Value} (hw : w.Sound U V)
    (h : around.Mirrored V w.machine.forest w.machine.current ids)
    (hadmits : around.Admits V ids [name])
    (hvalue : value.Placed U V (w.machine.forest.define w.machine.current name value)) :
    Ends U V w.machine
      (fun V' f (_ : Unit) => V' = V ∧ f = w.machine.forest.define w.machine.current name value ∧
        (f.local? w.machine.current name).isSome)
      (unseen (defineHere name value) w) := by
  have hname := hadmits.mem_vocabulary h (List.mem_singleton.mpr rfl)
  refine (defineHere_ends hw hname hvalue).imp fun V' f _ _ hdefined => ?_
  obtain ⟨rfl, rfl⟩ := hdefined
  obtain ⟨frame, hframe⟩ := h.present
  refine ⟨rfl, rfl, ?_⟩
  rw [Forest.local?_define hframe, if_pos ⟨rfl, rfl⟩]
  rfl

/-- A name that is declared here, by a statement that does nothing else after it. -/
theorem declaring_ends {name : String} {value : Value} (hw : w.Sound U V)
    (h : around.Mirrored V w.machine.forest w.machine.current ids)
    (hadmits : around.Admits V ids [name])
    (hvalue : value.Placed U V (w.machine.forest.define w.machine.current name value)) :
    Ends U V w.machine (Declares U w.machine.current [name])
      ((unseen (defineHere name value) >>= fun _ => pure .normal) w) := by
  refine (defineHere_declares hw h hadmits hvalue).bind fun _ V' w' hcurrent _ hw' hpost => ?_
  refine .pure hw' ⟨trivial, fun _ key hkey => ?_⟩
  rw [List.mem_singleton.mp hkey]
  exact hpost.2.2

/-- The end of a class declaration: its name has been bound, and the frame of its
methods mirrors the scopes around them. -/
theorem writeClass_ends {frame : FrameId} {decl : ClassDecl} {ancestors : List ClassBody}
    (hw : w.Sound U V) (h : around.Mirrored V w.machine.forest frame ids)
    (hcrossed : ∀ scope ∈ around, scope.crossed = true)
    (hfits : ∀ method ∈ decl.methods, method.Fits U around.receiver)
    (hancestors : ∀ body ∈ ancestors, ∀ name fn, body.methods.find? name = some fn →
      fn.PlacedMethod U V w.machine.forest) :
    Ends U V w.machine (fun _ _ _ => True)
      (unseen (do
        let serial ← newSerial
        writeVariable decl.name
          (.classRef ⟨⟨serial, decl.name.lexeme, methodTable frame decl.methods⟩, ancestors⟩)) w) := by
  rw [unseen_bind]
  refine (newSerial_ends hw).bind fun serial V' w' _ hlater hw' _ => ?_
  refine writeVariable_ends hw' decl.name fun f' hlater' => ?_
  refine Class.Placed.later ?_ hlater'
  refine Class.placed_of_methodTable (h.later_of_crossed hlater hcrossed) hcrossed hfits ?_
  exact fun body hbody name fn hfind => (hancestors body hbody name fn hfind).later hlater

/-- A class has its methods closed over the scopes around them. -/
theorem declareClass_ends {decl : ClassDecl} {parent : Option Class} (hw : w.Sound U V)
    (h : around.Mirrored V w.machine.forest w.machine.current ids)
    (hadmits : around.Admits V ids [decl.name.lexeme])
    (hparent : ∀ cls ∈ parent, cls.Placed U V w.machine.forest)
    (hsuper : decl.superclass.isSome = parent.isSome)
    (hfits : ∀ method ∈ decl.methods, method.Fits U (decl.around around).receiver) :
    Ends U V w.machine (fun _ f _ => (f.local? w.machine.current decl.name.lexeme).isSome)
      (unseen (declareClass decl parent) w) := by
  -- the name is bound first, and the methods are closed over the frame that has it
  have hdeclared := h.define hadmits.inside decl.name.lexeme .nil
  have hmirrored := hdeclared.cross hadmits.room
  have hcrossed : ∀ scope ∈ (around.declare [decl.name.lexeme]).cross, scope.crossed = true :=
    fun scope => Nesting.crossed_of_mem_cross
  have hnil : Value.nil.Placed U V
      (w.machine.forest.define w.machine.current decl.name.lexeme .nil) := trivial
  rw [ClassDecl.around, hsuper] at hfits
  cases parent with
  | none =>
    -- the run without a superclass, written as `writeClass_ends` has its last part
    have hrun : declareClass decl none = defineHere decl.name.lexeme .nil >>= fun _ =>
        get >>= fun m => (do
          let serial ← newSerial
          writeVariable decl.name
            (.classRef ⟨⟨serial, decl.name.lexeme, methodTable m.current decl.methods⟩, []⟩)) := rfl
    rw [hrun, unseen_bind]
    refine (defineHere_declares hw h hadmits hnil).bind fun _ V' w' hcurrent _ hw' hpost => ?_
    obtain ⟨rfl, hforest, hbound⟩ := hpost
    rw [unseen_bind]
    refine get_ends ?_
    rw [← hforest, ← hcurrent] at hmirrored
    refine (writeClass_ends hw' hmirrored hcrossed hfits ?_).imp fun _ _ _ hlater _ => ?_
    · exact fun body hbody => by cases hbody
    · exact hlater.grows.local? hbound
  | some parent =>
    -- with one the methods are closed over a frame more, in which `super` is bound
    have hrun : declareClass decl (some parent) = defineHere decl.name.lexeme .nil >>= fun _ =>
        get >>= fun m => frameWith m.current "super" (.classRef parent) >>= fun frame => (do
          let serial ← newSerial
          writeVariable decl.name
            (.classRef ⟨⟨serial, decl.name.lexeme, methodTable frame decl.methods⟩,
              parent.lineage⟩)) := rfl
    rw [hrun, unseen_bind]
    refine (defineHere_declares hw h hadmits hnil).bind fun _ V' w' hcurrent hlater hw' hpost => ?_
    obtain ⟨rfl, hforest, hbound⟩ := hpost
    rw [unseen_bind]
    refine get_ends ?_
    rw [← hforest, ← hcurrent] at hmirrored
    have hplaced : (Value.classRef parent).Placed U V' w'.machine.forest :=
      Class.Placed.later (hparent parent rfl) hlater
    rw [unseen_bind]
    refine (frameWith_ends hw' hmirrored hcrossed "super" hplaced).bind
      fun frame V'' w'' _ hlater' hw'' hframe => ?_
    have hcrossed' : ∀ scope ∈ (around.declare [decl.name.lexeme]).cross.superclass,
        scope.crossed = true := List.forall_mem_cons.mpr ⟨rfl, hcrossed⟩
    refine (writeClass_ends hw'' hframe hcrossed' hfits ?_).imp fun _ _ _ hlater'' _ => ?_
    -- the methods of the superclass are placed as they were, since frames only grow
    · exact fun body hbody name fn hfind => (hplaced body hbody name fn hfind).later hlater'
    · exact hlater''.grows.local? (hlater'.grows.local? hbound)

/-! ## The evaluator -/

/-- Where some names are declared, the frames mirror the scopes that have them. -/
theorem Ends.declared {x : WatchedRun Completion} {y : Run Completion} {names : List String}
    (h : Ends U V w.machine (Declares U w.machine.current names) (x w))
    (herases : Erases Watched.machine x y)
    (hbinds : Binds (here names) y)
    (hmirrored : around.Mirrored V w.machine.forest w.machine.current ids)
    (hinside : around.Inside) :
    Ends U V w.machine
      (fun V' f completion => completion.Placed U V' f ∧ (completion = .normal →
        (around.declare names).Mirrored V' f w.machine.current ids)) (x w) := by
  refine (h.growing herases hbinds).imp fun V' f completion hlater hpost => ?_
  obtain ⟨⟨hplaced, hbound⟩, hgrows⟩ := hpost
  exact ⟨hplaced, fun hnormal => hmirrored.declare hinside hlater hgrows (hbound hnormal)⟩

/-- The functions of the evaluator keep everything in order, with one bound on their
depth. Each is given a place in the program: the scopes around it, and frames that
mirror them. -/
structure KeepsAt (U : Use → Prop) (fuel : Nat) : Prop where
  evaluate : ∀ {V : Vocabulary} {w : Watched} {ids : List FrameId} {around : Nesting}
    (expr : Expr), w.Sound U V → around.Mirrored V w.machine.forest w.machine.current ids →
    (∀ name ∈ expr.variables, U ⟨name, around⟩) →
    Ends U V w.machine
      (fun V' f value => value.Placed U V' f ∧ around.Mirrored V' f w.machine.current ids)
      (Watch.evaluate fuel expr w)
  evaluateEach : ∀ {V : Vocabulary} {w : Watched} {ids : List FrameId} {around : Nesting}
    (exprs : List Expr), w.Sound U V → around.Mirrored V w.machine.forest w.machine.current ids →
    (∀ name ∈ Expr.variablesEach exprs, U ⟨name, around⟩) →
    Ends U V w.machine (fun V' f values => ∀ value ∈ values, value.Placed U V' f)
      (Watch.evaluateEach fuel exprs w)
  call : ∀ {V : Vocabulary} {w : Watched} (callee : Value) (paren : Token) (args : List Value),
    w.Sound U V → callee.Placed U V w.machine.forest →
    (∀ arg ∈ args, arg.Placed U V w.machine.forest) →
    Ends U V w.machine (Value.Placed U) (Watch.call fuel callee paren args w)
  invoke : ∀ {V : Vocabulary} {w : Watched} (callee : Callee) (args : List Value),
    w.Sound U V → callee.Placed U V w.machine.forest →
    (∀ arg ∈ args, arg.Placed U V w.machine.forest) → args.length = callee.arity →
    Ends U V w.machine (Value.Placed U) (Watch.invoke fuel callee args w)
  execute : ∀ {V : Vocabulary} {w : Watched} {ids : List FrameId} {around : Nesting}
    (stmt : Stmt), w.Sound U V → around.Mirrored V w.machine.forest w.machine.current ids →
    around.Admits V ids stmt.declared → (∀ u ∈ stmt.uses around, U u) → stmt.Contained →
    Ends U V w.machine
      (fun V' f completion => completion.Placed U V' f ∧ (completion = .normal →
        (around.declare stmt.declared).Mirrored V' f w.machine.current ids))
      (Watch.execute fuel stmt w)
  executeEach : ∀ {V : Vocabulary} {w : Watched} {ids : List FrameId} {around : Nesting}
    (stmts : List Stmt), w.Sound U V →
    around.Mirrored V w.machine.forest w.machine.current ids →
    (around.ahead []).Admits V ids (Stmt.declaredEach stmts) →
    (∀ u ∈ Stmt.usesEach around stmts, U u) → Stmt.AllContained stmts →
    Ends U V w.machine (Completion.Placed U) (Watch.executeEach fuel stmts w)
  repeatWhile : ∀ {V : Vocabulary} {w : Watched} {ids : List FrameId} {around : Nesting}
    (condition : Expr) (body : Stmt), w.Sound U V →
    around.Mirrored V w.machine.forest w.machine.current ids → around.Admits V ids [] →
    (∀ name ∈ condition.variables, U ⟨name, around⟩) → (∀ u ∈ body.uses around, U u) →
    body.declared = [] → body.Contained →
    Ends U V w.machine (Completion.Placed U) (Watch.repeatWhile fuel condition body w)

namespace KeepsAt

/-- Without fuel nothing is seen. -/
theorem zero : KeepsAt U 0 where
  evaluate _ hw _ _ := .throw hw
  evaluateEach _ hw _ _ := .throw hw
  call _ _ _ hw _ _ := .throw hw
  invoke _ _ hw _ _ _ := .throw hw
  execute _ hw _ _ _ _ := .throw hw
  executeEach _ hw _ _ _ _ := .throw hw
  repeatWhile _ _ hw _ _ _ _ _ _ := .throw hw

section Step

variable {fuel : Nat} (ih : KeepsAt U fuel)
include ih

/-! ### Expressions -/

/-- Expressions keep everything in order, and a variable in one is found where it belongs, as it
is settled. -/
theorem evaluate_succ (hsettled : ∀ u, U u → u.Settled) (expr : Expr) (hw : w.Sound U V)
    (h : around.Mirrored V w.machine.forest w.machine.current ids)
    (hnames : ∀ name ∈ expr.variables, U ⟨name, around⟩) :
    Ends U V w.machine (Value.Placed U) (Watch.evaluate (fuel + 1) expr w) := by
  -- a variable of the expression is found where it belongs, as long as the frames mirror the scopes
  have hreached : ∀ {V' : Vocabulary} {w' : Watched} {name : Token}, w'.Sound U V' →
      around.Mirrored V' w'.machine.forest w'.machine.current ids → U ⟨name, around⟩ →
      ∃ u, U u ∧ u.name = name ∧ u.Reached w'.machine :=
    fun hw' h' hu => ⟨_, hu, rfl, Use.reached_of_mirrored hw'.machine (hsettled _ hu) h'⟩
  cases expr with
  | literal value =>
    refine .pure hw ?_
    cases value <;> trivial
  -- an expression in parentheses is at the same place
  | grouping inner => exact (ih.evaluate inner hw h hnames).imp fun _ _ _ _ hpost => hpost.1
  | unary op operand =>
    refine (ih.evaluate operand hw h hnames).bind fun value V' w' _ _ hw' _ => ?_
    exact liftExcept_ends hw' fun _ hresult => (unaryResult_plain hresult).placed
  | binary left op right =>
    obtain ⟨hleft, hright⟩ := List.forall_mem_append.mp hnames
    -- the left operand leaves the frames mirroring the scopes, so the right one is at that
    -- place too
    refine (ih.evaluate left hw h hleft).bind fun _ V' w' hcurrent _ hw' hpost => ?_
    refine (ih.evaluate right hw' (hcurrent ▸ hpost.2) hright).bind fun _ V'' w'' _ _ hw'' _ => ?_
    exact liftExcept_ends hw'' fun _ hresult => (binaryResult_plain hresult).placed
  | logical left op right =>
    obtain ⟨hleft, hright⟩ := List.forall_mem_append.mp hnames
    refine (ih.evaluate left hw h hleft).bind fun leftValue V' w' hcurrent _ hw' hpost => ?_
    -- deciding by the left value alone is no step of the machine
    cases hshort : shortCircuits op leftValue with
    | error failure => exact fail_ends hw' failure
    | ok short =>
      cases short with
      | true => exact .pure hw' hpost.1
      | false =>
        exact (ih.evaluate right hw' (hcurrent ▸ hpost.2) hright).imp fun _ _ _ _ hpost => hpost.1
  | «variable» name =>
    -- the variable is seen before it is read, with the machine as it is then
    refine .sight hw (hreached hw h (hnames name List.mem_cons_self)) fun w' _ hw' => ?_
    exact readVariable_ends hw' name
  | assign name value =>
    obtain ⟨hname, hvalue⟩ := List.forall_mem_cons.mp hnames
    refine (ih.evaluate value hw h hvalue).bind fun value V' w' hcurrent _ hw' hpost => ?_
    -- the value is computed first, and the name is looked for afterwards
    refine .sight hw' (hreached hw' (hcurrent ▸ hpost.2) hname) fun w'' hmachine hw'' => ?_
    have hplaced : value.Placed U V' w''.machine.forest := hmachine ▸ hpost.1
    refine (writeVariable_ends hw'' name fun _ hlater => hplaced.later hlater).bind
      fun _ _ _ _ hlater hw''' _ => ?_
    exact .pure hw''' (hplaced.later hlater)
  | call callee paren args =>
    obtain ⟨hcallee, hargs⟩ := List.forall_mem_append.mp hnames
    refine (ih.evaluate callee hw h hcallee).bind fun value V' w' hcurrent _ hw' hpost => ?_
    refine (ih.evaluateEach args hw' (hcurrent ▸ hpost.2) hargs).bind
      fun values V'' w'' _ hlater hw'' hvalues => ?_
    exact ih.call value paren values hw'' (hpost.1.later hlater) hvalues
  | get object name =>
    refine (ih.evaluate object hw h hnames).bind fun value V' w' _ _ hw' hpost => ?_
    -- fields are in no scope, so nothing is seen when they are read
    cases value with
    | instanceOf cls id => exact readProperty_ends hw' hpost.1 name
    | _ => exact fail_ends hw' _
  | set object name value =>
    obtain ⟨hobject, hvalue⟩ := List.forall_mem_append.mp hnames
    refine (ih.evaluate object hw h hobject).bind fun target V' w' hcurrent _ hw' hpost => ?_
    cases target with
    | instanceOf cls id =>
      refine (ih.evaluate value hw' (hcurrent ▸ hpost.2) hvalue).bind
        fun value V'' w'' _ _ hw'' hpost' => ?_
      refine (writeField_ends hw'' id name.lexeme hpost'.1).bind fun _ _ _ _ hlater hw''' _ => ?_
      exact .pure hw''' (hpost'.1.later hlater)
    | _ => exact fail_ends hw' _
  -- the two keywords are no variables of a scope
  | this keyword => exact readVariable_ends hw keyword
  | super keyword method => exact readSuper_ends hw keyword method

/-- So do expressions in a row, where the values of earlier ones stay in order. -/
theorem evaluateEach_succ (exprs : List Expr) (hw : w.Sound U V)
    (h : around.Mirrored V w.machine.forest w.machine.current ids)
    (hnames : ∀ name ∈ Expr.variablesEach exprs, U ⟨name, around⟩) :
    Ends U V w.machine (fun V' f values => ∀ value ∈ values, value.Placed U V' f)
      (Watch.evaluateEach (fuel + 1) exprs w) := by
  cases exprs with
  | nil => exact .pure hw fun _ hvalue => by cases hvalue
  | cons expr rest =>
    obtain ⟨hexpr, hrest⟩ := List.forall_mem_append.mp hnames
    refine (ih.evaluate expr hw h hexpr).bind fun value V' w' hcurrent _ hw' hpost => ?_
    refine (ih.evaluateEach rest hw' (hcurrent ▸ hpost.2) hrest).bind
      fun values V'' w'' _ hlater hw'' hvalues => ?_
    exact .pure hw'' (List.forall_mem_cons.mpr ⟨hpost.1.later hlater, hvalues⟩)

/-! ### Calls -/

/-- A call checks its arguments, and sees nothing itself. -/
theorem call_succ (callee : Value) (paren : Token) (args : List Value) (hw : w.Sound U V)
    (hcallee : callee.Placed U V w.machine.forest)
    (hargs : ∀ arg ∈ args, arg.Placed U V w.machine.forest) :
    Ends U V w.machine (Value.Placed U) (Watch.call (fuel + 1) callee paren args w) := by
  unfold Watch.call Followed.call
  cases hfound : Callee.ofValue? callee with
  | none => exact fail_ends hw _
  | some found =>
    by_cases harity : args.length = found.arity
    · simp only [if_pos harity]
      exact ih.invoke found args hw (Callee.ofValue?_placed hfound hcallee) hargs harity
    · simp only [if_neg harity]
      exact fail_ends hw _

/-- The body of a function runs in a frame inside the one around the function, not
inside the one of the call. -/
theorem invoke_function (fn : Closure) (args : List Value) (hw : w.Sound U V)
    (hfn : fn.Placed U V w.machine.forest)
    (hargs : ∀ arg ∈ args, arg.Placed U V w.machine.forest) (harity : args.length = fn.arity) :
    Ends U V w.machine (Value.Placed U) (Watch.invoke (fuel + 1) (.function fn) args w) := by
  obtain ⟨ids, around, hmirrored, hcrossed, hfits⟩ := hfn
  obtain ⟨huses, hcontained⟩ := hfits.body
  have hroot := hw.machine.root_present
  refine (newFrame_ends hw fn.frame (fn.decl.params.map Token.lexeme ++
    Stmt.declaredEach fn.decl.body)).bind fun frame V' w' _ hlater hw' hnew => ?_
  obtain ⟨rfl, rfl, hforest⟩ := hnew
  have hpresent : w'.machine.forest.frame? w.machine.forest.next
      = some ⟨.empty, w.machine.forest.chain fn.frame⟩ := by
    rw [hforest, Forest.frame?_addChild_next]
  refine (bindParameters_ends hw' ⟨_, hpresent⟩ harity (fun param hparam => ?_)
    fun arg harg => (hargs arg harg).later hlater).bind fun _ V'' w'' _ hlater' hw'' hbound => ?_
  · rw [Vocabulary.extend, if_pos rfl]
    exact List.mem_append_left _ (List.mem_map_of_mem hparam)
  obtain ⟨rfl, hbound⟩ := hbound
  -- before the body is run, its frame binds the parameters and nothing else
  have hbound : ∀ name, (w''.machine.forest.local? w.machine.forest.next name).isSome ↔
      name ∈ fn.decl.params.map Token.lexeme := by
    intro name
    rw [hbound, hforest, Forest.local?_addChild, Forest.local?, Forest.frame?_next]
    simp
  have hbody := hmirrored.enter_scope hroot (hforest ▸ hlater')
    (hmirrored.later_of_crossed (hlater.trans hlater') hcrossed) hbound
  have hfresh : w.machine.forest.next ∉ ids :=
    fun hmem => hmirrored.next_not_mem hroot (List.mem_append_left _ hmem)
  have hadmits := (hmirrored.room_of_crossed hcrossed).admits_enter hfresh
    (fn.decl.params.map Token.lexeme) (Stmt.declaredEach fn.decl.body)
  have hrun := ih.executeEach fn.decl.body (hw''.inFrame w.machine.forest.next) hbody hadmits huses
    hcontained
  refine (Ends.within hrun).bind fun completion V''' w''' _ _ hw''' hcompletion => ?_
  split
  · refine .get (.pure hw''' ?_)
    cases hthis : w'''.machine.forest.lookup fn.frame "this" with
    | some value => exact hw'''.machine.lookup hthis
    | none => trivial
  · cases completion with
    | normal => exact .pure hw''' trivial
    | returned value => exact .pure hw''' hcompletion

/-- The body of a function is run in frames that mirror the scopes around it: its own, and those
that it was closed over. -/
theorem invoke_succ (callee : Callee) (args : List Value) (hw : w.Sound U V)
    (hcallee : callee.Placed U V w.machine.forest)
    (hargs : ∀ arg ∈ args, arg.Placed U V w.machine.forest) (harity : args.length = callee.arity) :
    Ends U V w.machine (Value.Placed U) (Watch.invoke (fuel + 1) callee args w) := by
  cases callee with
  | host fn => exact callHost_ends hw fn args
  | function fn => exact ih.invoke_function fn args hw hcallee hargs harity
  | classRef cls =>
    refine (newInstance_ends hw).bind fun id V' w' _ hlater hw' _ => ?_
    have hcls : cls.Placed U V' w'.machine.forest := Class.Placed.later hcallee hlater
    have hreceiver : (Value.instanceOf cls id).Placed U V' w'.machine.forest := hcls
    cases hinit : cls.findMethod? "init" with
    | none => exact .pure hw' hcls
    | some init =>
      have harity' : args.length = init.arity := by
        rw [harity, Callee.arity, Class.arity, hinit]
      refine (bind_ends hw' (hcls.findMethod? hinit) hreceiver).bind
        fun fn V'' w'' _ hlater' hw'' hfn => ?_
      have hargs' : ∀ arg ∈ args, arg.Placed U V'' w''.machine.forest :=
        fun arg harg => (hargs arg harg).later (hlater.trans hlater')
      have harity'' : args.length = (Callee.function fn).arity := by
        rw [harity', Callee.arity, Closure.arity, Closure.arity, hfn.2]
      refine (ih.invoke (.function fn) args hw'' hfn.1 hargs' harity'').bind
        fun _ V''' w''' _ hlater'' hw''' _ => ?_
      exact .pure hw''' (Class.Placed.later hcls (hlater'.trans hlater''))

/-! ### Statements -/

/-- Of a branch or the body of a loop, which declares nothing. -/
theorem execute_branch {stmt : Stmt} {names : List String} (hw : w.Sound U V)
    (h : around.Mirrored V w.machine.forest w.machine.current ids) (hadmits : around.Admits V ids [])
    (huses : ∀ u ∈ stmt.uses around, U u) (hdeclared : stmt.declared = [])
    (hcontained : stmt.Contained) (hnames : names = []) (current : FrameId) :
    Ends U V w.machine (Declares U current names) (Watch.execute fuel stmt w) := by
  refine (ih.execute stmt hw h (hdeclared ▸ hadmits) huses hcontained).imp fun _ _ _ _ hpost => ?_
  exact ⟨hpost.1, fun _ => hnames ▸ List.forall_mem_nil _⟩

/-- Statements keep everything in order where their names are admitted. What they declare is
bound when they fall through. -/
theorem execute_succ (stmt : Stmt) (hw : w.Sound U V)
    (h : around.Mirrored V w.machine.forest w.machine.current ids)
    (hadmits : around.Admits V ids stmt.declared) (huses : ∀ u ∈ stmt.uses around, U u)
    (hcontained : stmt.Contained) :
    Ends U V w.machine (Declares U w.machine.current stmt.declared)
      (Watch.execute (fuel + 1) stmt w) := by
  cases stmt with
  -- statements that declare nothing: only the expressions in them have to be followed
  | expression expr =>
    refine (ih.evaluate expr hw h (List.forall_mem_map.mp huses)).bind fun _ _ w' _ _ hw' _ => ?_
    exact .pure hw' ⟨trivial, fun _ => List.forall_mem_nil _⟩
  | print expr =>
    refine (ih.evaluate expr hw h (List.forall_mem_map.mp huses)).bind fun value _ w' _ _ hw' _ => ?_
    refine (printLine_ends hw' value.display).bind fun _ _ w'' _ _ hw'' _ => ?_
    exact .pure hw'' ⟨trivial, fun _ => List.forall_mem_nil _⟩
  -- the value is computed before the name is bound, so it is placed in frames without it
  | varDecl name initializer =>
    cases initializer with
    | some expr =>
      refine (ih.evaluate expr hw h (List.forall_mem_map.mp huses)).bind
        fun value V' w' hcurrent hlater hw' hpost => ?_
      rw [← hcurrent] at hpost ⊢
      exact declaring_ends hw' hpost.2 (hadmits.later (fun _ => h.present_of_mem) hlater)
        (hpost.1.later (.define _ _ _ _ _))
    | none => exact declaring_ends hw h hadmits trivial
  | block body =>
    have hroot := hw.machine.root_present
    -- the frame of the block is none of those that mirror the scopes around
    have hfresh : w.machine.forest.next ∉ ids :=
      fun hmem => h.next_not_mem hroot (List.mem_append_left _ hmem)
    refine .get ?_
    refine (newFrame_ends hw w.machine.current (Stmt.declaredEach body)).bind
      fun frame V' w' _ _ hw' hnew => ?_
    obtain ⟨rfl, rfl, hforest⟩ := hnew
    have hbody := h.enter_block hroot (Stmt.declaredEach body)
    rw [← hforest] at hbody
    -- nothing of the block is bound yet, and all that it declares may be
    have hadmits' := hadmits.room_nil.admits_enter hfresh [] (Stmt.declaredEach body)
    have hrun := ih.executeEach body (hw'.inFrame w.machine.forest.next) hbody hadmits' huses
      hcontained
    exact (Ends.within hrun).imp fun _ _ _ _ hpost => ⟨hpost, fun _ => List.forall_mem_nil _⟩
  | ifElse condition thenBranch elseBranch =>
    cases elseBranch with
    | none =>
      obtain ⟨hdeclared, hthen⟩ := hcontained
      obtain ⟨hcondition, huses'⟩ := List.forall_mem_append.mp huses
      refine (ih.evaluate condition hw h (List.forall_mem_map.mp hcondition)).bind
        fun value V' w' hcurrent hlater hw' hpost => ?_
      have hadmits' := hadmits.later (fun _ => h.present_of_mem) hlater
      -- a branch is a statement and no declaration, so nothing is left to be bound
      rw [show (Stmt.ifElse condition thenBranch none).declared = [] from hdeclared] at hadmits' ⊢
      split
      · exact ih.execute_branch hw' (hcurrent ▸ hpost.2) hadmits' huses' hdeclared hthen rfl _
      · exact .pure hw' ⟨trivial, fun _ => List.forall_mem_nil _⟩
    | some elseBranch =>
      obtain ⟨⟨hdeclared, hthen⟩, hdeclared', helse⟩ := hcontained
      obtain ⟨hcondition, hbranches⟩ := List.forall_mem_append.mp huses
      obtain ⟨huses', huses''⟩ := List.forall_mem_append.mp hbranches
      refine (ih.evaluate condition hw h (List.forall_mem_map.mp hcondition)).bind
        -- the condition may have made frames: what was admitted is so later on as well
        fun value V' w' hcurrent hlater hw' hpost => ?_
      have hadmits' := hadmits.later (fun _ => h.present_of_mem) hlater
      have hnames : (Stmt.ifElse condition thenBranch (some elseBranch)).declared = [] :=
        List.append_eq_nil_iff.mpr ⟨hdeclared, hdeclared'⟩
      rw [hnames] at hadmits' ⊢
      split
      · exact ih.execute_branch hw' (hcurrent ▸ hpost.2) hadmits' huses' hdeclared hthen rfl _
      · exact ih.execute_branch hw' (hcurrent ▸ hpost.2) hadmits' huses'' hdeclared' helse rfl _
  | whileLoop condition body =>
    obtain ⟨hdeclared, hbody⟩ := hcontained
    obtain ⟨hcondition, huses'⟩ := List.forall_mem_append.mp huses
    rw [show (Stmt.whileLoop condition body).declared = [] from hdeclared] at hadmits ⊢
    refine (ih.repeatWhile condition body hw h hadmits (List.forall_mem_map.mp hcondition) huses'
      hdeclared hbody).imp fun _ _ _ _ hpost => ?_
    exact ⟨hpost, fun _ => List.forall_mem_nil _⟩
  | funDecl decl =>
    refine .get ?_
    refine (newClosure_ends hw).bind fun value V' w' hcurrent _ hw' hpost => ?_
    obtain ⟨rfl, hforest, serial, rfl⟩ := hpost
    rw [← hforest, ← hcurrent] at h
    rw [← hcurrent]
    -- the function is closed over the current frame, whose scope is crossed when its body runs
    refine declaring_ends hw' h hadmits ⟨ids, (around.declare [decl.name.lexeme]).cross, ?_,
      fun scope => Nesting.crossed_of_mem_cross, huses, hcontained⟩
    exact (h.define hadmits.inside decl.name.lexeme _).cross hadmits.room
  | returnStmt keyword value =>
    cases value with
    | some expr =>
      refine (ih.evaluate expr hw h (List.forall_mem_map.mp huses)).bind
        fun value _ w' _ _ hw' hpost => ?_
      -- a `return` does not fall through, so nothing is said about the names that are bound
      exact .pure hw' ⟨hpost.1, fun hnormal => by cases hnormal⟩
    | none => exact .pure hw ⟨trivial, fun hnormal => by cases hnormal⟩
  | classDecl decl =>
    obtain ⟨name, superclass, methods⟩ := decl
    obtain ⟨hsuper, hmethods⟩ := List.forall_mem_append.mp huses
    have hfits : ∀ method ∈ methods,
        method.Fits U (ClassDecl.around ⟨name, superclass, methods⟩ around).receiver :=
      -- the methods see the class as declared, with `super` if it has one, and their receiver
      fun method hmem => ⟨fun u hu => hmethods u (FunctionDecl.mem_usesEach hmem hu),
        FunctionDecl.AllContained.of_mem hcontained hmem⟩
    cases superclass with
    | none =>
      refine (declareClass_ends hw h hadmits (fun _ hparent => by cases hparent) rfl hfits).bind
        fun _ _ w' hcurrent _ hw' hbound => ?_
      exact .pure hw' ⟨trivial, fun _ => List.forall_mem_singleton.mpr hbound⟩
    | some superclass =>
      refine (ih.evaluate superclass hw h (List.forall_mem_map.mp hsuper)).bind
        fun value V' w' hcurrent hlater hw' hpost => ?_
      have hadmits' := hadmits.later (fun _ => h.present_of_mem) hlater
      rw [← hcurrent] at hpost ⊢
      -- only a class can be inherited from, and that one is placed
      cases value with
      | classRef parent =>
        refine (declareClass_ends hw' hpost.2 hadmits' (fun cls hparent => ?_) rfl hfits).bind
          fun _ _ w'' _ _ hw'' hbound => ?_
        · cases hparent
          exact hpost.1
        · exact .pure hw'' ⟨trivial, fun _ => List.forall_mem_singleton.mpr hbound⟩
      | _ => exact fail_ends hw' _

/-- Each statement is run with what the later ones declare still ahead. -/
theorem executeEach_succ (stmts : List Stmt) (hw : w.Sound U V)
    (h : around.Mirrored V w.machine.forest w.machine.current ids)
    (hadmits : (around.ahead []).Admits V ids (Stmt.declaredEach stmts))
    (huses : ∀ u ∈ Stmt.usesEach around stmts, U u) (hcontained : Stmt.AllContained stmts) :
    Ends U V w.machine (Completion.Placed U) (Watch.executeEach (fuel + 1) stmts w) := by
  cases stmts with
  | nil => exact .pure hw trivial
  | cons stmt rest =>
    obtain ⟨huses', hrest⟩ := List.forall_mem_append.mp huses
    have hinside : around.Inside := Nesting.inside_ahead.mp hadmits.inside
    have hahead : (around.ahead (Stmt.declaredEach rest)).Mirrored V w.machine.forest
        w.machine.current ids := (Nesting.Mirrored.ahead_iff hinside).mpr h
    refine (ih.execute stmt hw hahead hadmits.first huses' hcontained.1).bind
      fun completion V' w' hcurrent hlater hw' hpost => ?_
    cases completion with
    | returned value => exact .pure hw' hpost.1
    | normal =>
      have hdeclared := hpost.2 rfl
      rw [Nesting.ahead_declare, Nesting.Mirrored.ahead_iff (Nesting.inside_declare.mpr hinside)]
        at hdeclared
      exact ih.executeEach rest hw' (hcurrent ▸ hdeclared)
        (hadmits.rest.later (fun _ => h.present_of_mem) hlater) hrest hcontained.2

/-- The body of a loop declares nothing, so each round begins as the first one. -/
theorem repeatWhile_succ (condition : Expr) (body : Stmt) (hw : w.Sound U V)
    (h : around.Mirrored V w.machine.forest w.machine.current ids) (hadmits : around.Admits V ids [])
    (hcondition : ∀ name ∈ condition.variables, U ⟨name, around⟩)
    (huses : ∀ u ∈ body.uses around, U u) (hdeclared : body.declared = [])
    (hcontained : body.Contained) :
    Ends U V w.machine (Completion.Placed U) (Watch.repeatWhile (fuel + 1) condition body w) := by
  refine (ih.evaluate condition hw h hcondition).bind fun value V' w' hcurrent hlater hw' hpost => ?_
  have hadmits' := hadmits.later (fun _ => h.present_of_mem) hlater
  rw [← hcurrent] at hpost
  split
  · refine (ih.execute body hw' hpost.2 (hdeclared ▸ hadmits') huses hcontained).bind
      fun completion V'' w'' hcurrent' hlater' hw'' hpost' => ?_
    cases completion with
    | returned value => exact .pure hw'' hpost'.1
    | normal =>
      -- the next round starts where this one did
      have hround := hpost'.2 rfl
      rw [hdeclared, Nesting.declare_nil] at hround
      exact ih.repeatWhile condition body hw'' (hcurrent' ▸ hround)
        (hadmits'.later (fun _ => hpost.2.present_of_mem) hlater') hcondition huses hdeclared
        hcontained
  · exact .pure hw' trivial

/-- Together they keep everything in order with one unit more of the bound. -/
theorem succ (hsettled : ∀ u, U u → u.Settled) : KeepsAt U (fuel + 1) where
  evaluate expr hw h hnames :=
    (ih.evaluate_succ hsettled expr hw h hnames).mirrored ((watch_transparent.erasesAt _).evaluate expr)
      ((BindsAt.all _).evaluate expr) h
  evaluateEach := ih.evaluateEach_succ
  call := ih.call_succ
  invoke := ih.invoke_succ
  execute stmt hw h hadmits huses hcontained :=
    (ih.execute_succ stmt hw h hadmits huses hcontained).declared
      ((watch_transparent.erasesAt _).execute stmt)
      ((BindsAt.all _).execute stmt) h hadmits.inside
  executeEach := ih.executeEach_succ
  repeatWhile := ih.repeatWhile_succ

end Step

/-- They do so with any bound. -/
protected theorem all (hsettled : ∀ u, U u → u.Settled) (fuel : Nat) : KeepsAt U fuel := by
  induction fuel with
  | zero => exact zero
  | succ fuel ih => exact ih.succ hsettled

end KeepsAt

/-! ## Programs -/

/-- The statements of a program are run in the global frame, around which there is no
scope. -/
theorem runProgram_ends (hsettled : ∀ u, U u → u.Settled) (fuel : Nat) {stmts : List Stmt}
    (hw : w.Sound U V) (hcurrent : w.machine.current = globals)
    (huses : ∀ u ∈ Stmt.usesEach [] stmts, U u) (hcontained : Stmt.AllContained stmts) :
    Ends U V w.machine (fun _ _ _ => True) (Watch.runProgram fuel stmts w) := by
  induction stmts generalizing V w with
  | nil => exact flush_ends hw
  | cons stmt rest ih =>
    obtain ⟨huses', hrest⟩ := List.forall_mem_append.mp huses
    have hmirrored := hw.machine.mirrored_globals
    rw [← hcurrent] at hmirrored
    refine ((KeepsAt.all hsettled fuel).execute stmt hw hmirrored (Nesting.admits_nil V _) huses'
      hcontained.1).bind fun _ V' w' hcurrent' _ hw' _ => ?_
    exact ih hw' (hcurrent'.trans hcurrent) hrest hcontained.2

/-- A machine as every program finds it is in order: its only function is one of the
host. -/
theorem boot_sound (clock : Float) (sink : Sink) : (boot clock sink).Sound U fun _ => [] := by
  have hblank : Machine.Sound U (fun _ => [])
      { blank sink with hosts := #[fun _ => .ok (.number clock)] } := by
    refine ⟨⟨_, rfl, rfl⟩, fun id name value hvalue => ?_, fun i fields hfields => ?_,
      fun id name _ hbound => ?_, fun i body hbody args value hresult V f => ?_⟩
    · cases Forest.local?_addRoot_empty.symm.trans hvalue
    · cases hfields
    · obtain ⟨value, hvalue⟩ := Option.isSome_iff_exists.mp hbound
      cases Forest.local?_addRoot_empty.symm.trans hvalue
    · cases List.mem_singleton.mp (Array.mem_toList_iff.mpr (Array.mem_of_getElem? hbody))
      cases hresult
      trivial
  exact hblank.define (fun hne => absurd rfl hne) trivial

/-- However a run ends, what was seen was in place. -/
theorem Ends.inPlace {α : Type} {m : Machine} {post : Vocabulary → Forest Value → α → Prop}
    {result : EStateM.Result Halt Watched α} (h : Ends U V m post result) :
    InPlace U (sightings result) := by
  cases result with
  | ok a w =>
    obtain ⟨-, V', -, hw, -⟩ := h
    exact hw.seen
  | error halt w => exact h

end Machine

/-- **Scoping is static.** Take a text that nothing is wrong with, in which no scope
declares a name behind the body of a function whose own use of that name belongs
further out. Watch it being run: each variable that is read or assigned to is one of
the text, and it is found in the frame that is as many frames out as there are
scopes between the variable and the one it belongs to; a variable that belongs to no
scope is found in the global frame or nowhere. The scopes of receivers and of
superclasses are never those that a variable belongs to, and in a text whose places
are all in reach no two variables have the same token. -/
theorem Program.scoping_is_static {source : String}
    (h : (Program.ofSource source).diagnostics = [])
    (hsettled : ∀ u ∈ (Program.ofSource source).uses, u.Settled) :
    (∀ (clock : Float) (sink : Sink) (fuel : Nat),
      let watched := Machine.Watch.runProgram fuel (Program.ofSource source).stmts
        ⟨Machine.boot clock sink, []⟩
      Machine.unwatched watched
          = Machine.runProgram fuel (Program.ofSource source).stmts (Machine.boot clock sink) ∧
        ∀ s ∈ Machine.sightings watched, ∃ u ∈ (Program.ofSource source).uses,
          u.name = s.name ∧ u.Reached s.machine) ∧
    (∀ u ∈ (Program.ofSource source).uses,
      u.name.lexeme ≠ "this" ∧ u.name.lexeme ≠ "super") ∧
    (source.utf8ByteSize < UInt32.size →
      ((Program.ofSource source).uses.map Use.name).Nodup) := by
  refine ⟨fun clock sink fuel => ⟨Machine.watch_transparent.runProgram_erases fuel _ _, ?_⟩,
    Program.name_ne_keyword h, Program.names_nodup h⟩
  have hboot : Machine.Watched.Sound (· ∈ (Program.ofSource source).uses) (fun _ => [])
      ⟨Machine.boot clock sink, []⟩ :=
    ⟨Machine.boot_sound clock sink, List.forall_mem_nil _⟩
  exact (Machine.runProgram_ends hsettled fuel hboot rfl (fun _ hu => hu)
    (Program.ofSource_contained h)).inPlace

/-- A function that is called behind the one around it, and a method in a class that
inherits, in a block, with a loop in it. The loop is in two blocks of its own, so its
body is six scopes deep. The method is called with an argument too few, so the run
ends there, and what it has looked up until then are nine variables. -/
theorem Program.scoping_is_static_closures :
    let source := "var c;fun f(a)\x7bvar b=a;fun g()\x7bb=a;return c;\x7dreturn g;\x7df(c)();" ++
      "class A\x7b\x7d\x7bclass B<A\x7bm(d)\x7bfor(var i=d;i;i=c)B=this;\x7d\x7dB().m();\x7d"
    let program := Program.ofSource source
    program.diagnostics = [] ∧ (∀ u ∈ program.uses, u.Settled) ∧
      (program.uses.map fun u => (u.name.lexeme, u.distance?)) =
        [("a", some 0), ("b", some 1), ("a", some 1), ("c", none), ("g", some 0), ("f", none),
          ("c", none), ("A", none), ("d", some 1), ("i", some 0), ("B", some 5), ("i", some 1),
          ("c", none), ("B", some 0)] ∧
      (program.uses.map Use.name).Nodup ∧
      (∀ (clock : Float) (sink : Sink) (fuel : Nat), ∀ s ∈ Machine.sightings
        (Machine.Watch.runProgram fuel program.stmts ⟨Machine.boot clock sink, []⟩),
        ∃ u ∈ program.uses, u.name = s.name ∧ u.Reached s.machine) ∧
      ((Machine.sightings (Machine.Watch.runProgram 20 program.stmts
        ⟨Machine.boot 0 .unlimited, []⟩)).reverse.map fun s => (s.name.lexeme, s.name.span.start)) =
        [("f", 55), ("c", 57), ("a", 21), ("g", 52), ("a", 33), ("b", 31), ("c", 42), ("A", 80),
          ("B", 114)] := by
  intro source program
  have hclean : program.diagnostics = [] := by decide +kernel
  have hsettled : ∀ u ∈ program.uses, u.Settled := by decide +kernel
  have hstatic := Program.scoping_is_static hclean hsettled
  exact ⟨hclean, hsettled, by decide +kernel, hstatic.2.2 (by decide +kernel),
    fun clock sink fuel => (hstatic.1 clock sink fuel).2, by decide +kernel⟩

/-- The variable belongs to the global scope when the body is passed over, and would
be found in the block if the function were called behind the second declaration. -/
example : ¬ ∀ u ∈ (Program.ofSource "\x7bfun f()\x7ba;\x7dvar a;\x7d").uses, u.Settled := by
  decide +kernel

end Lox
