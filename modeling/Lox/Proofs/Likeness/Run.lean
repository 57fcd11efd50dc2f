/-
`Lox.Proofs.Likeness.Run` -- alike trees run alike.

Two runs of alike trees, on machines that are alike, go in parallel: step by step they do
the same, and if one of them fails, so does the other at the counterpart of the token. The
stores of both hold functions, whose bodies are run later from there; these are alike
because whatever is put into a store is. The induction is on the bound on the depth, which
is one for both runs.
-/
import Lox.Proofs.Likeness.Step

set_option autoImplicit false

namespace Lox.Machine

variable {P : Role → Token → Token → Prop}
  (hP : ∀ role t t', P role t t' → t.SameWord t')
include hP

/-! ## Preparations -/

/-- Parameters that are alike are bound to arguments that are. -/
theorem bindParameters_parallel (frame : FrameId) {params params' : List Token}
    {args args' : List Value} (hparams : List.Forall₂ (P .name) params params')
    (hargs : List.Forall₂ (Value.Alike P) args args') :
    Parallel P Eq (bindParameters frame params args) (bindParameters frame params' args') := by
  unfold bindParameters
  induction hparams generalizing args args' with
  | nil => exact .pure rfl
  | @cons param param' params params' hparam hrest ih =>
    cases hargs with
    | nil => exact .pure rfl
    | @cons arg arg' _ _ harg hargs =>
      have hdefine : Parallel P Eq (define frame param.lexeme arg)
          (define frame param'.lexeme arg') := by
        rw [← (hP _ _ _ hparam).lexeme]
        exact define_parallel frame param.lexeme harg
      exact hdefine.same fun _ => ih hargs

/-- Methods that are alike make tables that are. -/
theorem methodTable_alike (frame : FrameId) {methods methods' : List FunctionDecl}
    (h : List.Forall₂ (FunctionDecl.Alike P) methods methods') :
    Table.Alike (Closure.Alike P) (methodTable frame methods) (methodTable frame methods') := by
  have hadd : ∀ table table' : Table Closure, Table.Alike (Closure.Alike P) table table' →
      Table.Alike (Closure.Alike P)
        (methods.foldl (fun table decl =>
          table.insert decl.name.lexeme ⟨decl, frame, decl.name.lexeme == "init"⟩) table)
        (methods'.foldl (fun table decl =>
          table.insert decl.name.lexeme ⟨decl, frame, decl.name.lexeme == "init"⟩) table') := by
    induction h with
    | nil => exact fun _ _ htable => htable
    | @cons decl decl' rest rest' hdecl _ ih =>
      intro table table' htable
      rw [List.foldl_cons, List.foldl_cons, ← (hP _ _ _ hdecl.name).lexeme]
      exact ih _ _ (htable.insert decl.name.lexeme ⟨hdecl, rfl, rfl⟩)
  exact hadd .empty .empty .empty

/-- Declarations that are alike make classes with one identity. -/
theorem declareClass_parallel {decl decl' : ClassDecl} {parent parent' : Option Class}
    (h : decl.Alike P decl') (hparent : Option.Rel (Class.Alike P) parent parent') :
    Parallel P Eq (declareClass decl parent) (declareClass decl' parent') := by
  cases h with
  | @intro name name' _ _ methods methods' hname _ hmethods =>
    have hlexeme := (hP _ _ _ hname).lexeme
    unfold declareClass
    dsimp only
    rw [← hlexeme]
    refine (defineHere_parallel name.lexeme .nil).same fun _ => ?_
    cases hparent with
    | none =>
      refine .get fun m m' hm => ?_
      rw [← hm.current, pure_bind, pure_bind]
      refine newSerial_parallel.same fun serial => ?_
      have hown : ClassBody.Alike P ⟨serial, name.lexeme, methodTable m.current methods⟩
          ⟨serial, name.lexeme, methodTable m.current methods'⟩ :=
        ⟨rfl, rfl, methodTable_alike hP m.current hmethods⟩
      exact writeVariable_parallel hP hname (.classRef ⟨hown, .nil⟩)
    | some hparent =>
      refine .get fun m m' hm => ?_
      rw [← hm.current]
      refine (newFrame_parallel m.current).same fun frame => ?_
      refine (define_parallel frame "super" (.classRef hparent)).same fun _ => ?_
      rw [pure_bind, pure_bind]
      refine newSerial_parallel.same fun serial => ?_
      have hown : ClassBody.Alike P ⟨serial, name.lexeme, methodTable frame methods⟩
          ⟨serial, name.lexeme, methodTable frame methods'⟩ :=
        ⟨rfl, rfl, methodTable_alike hP frame hmethods⟩
      exact writeVariable_parallel hP hname (.classRef ⟨hown, hparent.lineage⟩)

omit hP in

/-- The token that is blamed for a superclass has its counterpart. -/
theorem superclassToken_alike {decl decl' : ClassDecl} {superclass superclass' : Expr}
    (h : decl.Alike P decl') (hsuperclass : superclass.Alike P superclass') :
    P .name (superclassToken decl superclass) (superclassToken decl' superclass') := by
  cases h with
  | intro hname _ _ =>
    cases hsuperclass with
    | «variable» hparent => exact hparent
    | _ => exact hname

/-! ## The evaluator -/

omit hP in
/-- The functions of the evaluator go in parallel with one bound. -/
structure ParallelAt (P : Role → Token → Token → Prop) (fuel : Nat) : Prop where
  evaluate : ∀ {expr expr'}, expr.Alike P expr' →
    Parallel P (Value.Alike P) (evaluate fuel expr) (evaluate fuel expr')
  evaluateEach : ∀ {exprs exprs'}, List.Forall₂ (Expr.Alike P) exprs exprs' →
    Parallel P (List.Forall₂ (Value.Alike P)) (evaluateEach fuel exprs) (evaluateEach fuel exprs')
  call : ∀ {callee callee' paren paren' args args'}, Value.Alike P callee callee' →
    P .closing paren paren' → List.Forall₂ (Value.Alike P) args args' →
    Parallel P (Value.Alike P) (call fuel callee paren args) (call fuel callee' paren' args')
  invoke : ∀ {callee callee' args args'}, Callee.Alike P callee callee' →
    List.Forall₂ (Value.Alike P) args args' →
    Parallel P (Value.Alike P) (invoke fuel callee args) (invoke fuel callee' args')
  execute : ∀ {stmt stmt'}, stmt.Alike P stmt' →
    Parallel P (Completion.Alike P) (execute fuel stmt) (execute fuel stmt')
  executeEach : ∀ {stmts stmts'}, List.Forall₂ (Stmt.Alike P) stmts stmts' →
    Parallel P (Completion.Alike P) (executeEach fuel stmts) (executeEach fuel stmts')
  repeatWhile : ∀ {condition condition' body body'}, Expr.Alike P condition condition' →
    Stmt.Alike P body body' →
    Parallel P (Completion.Alike P) (repeatWhile fuel condition body)
      (repeatWhile fuel condition' body')

namespace ParallelAt

omit hP in

/-- Without fuel both runs stop. -/
theorem zero : ParallelAt P 0 where
  evaluate _ := .outOfFuel
  evaluateEach _ := .outOfFuel
  call _ _ _ := .outOfFuel
  invoke _ _ := .outOfFuel
  execute _ := .outOfFuel
  executeEach _ := .outOfFuel
  repeatWhile _ _ := .outOfFuel

section Step

variable {fuel : Nat} (ih : ParallelAt P fuel)
include ih

/-- Expressions that are alike have values that are, if everything with less fuel goes in
parallel. -/
theorem evaluate_succ {expr expr' : Expr} (h : expr.Alike P expr') :
    Parallel P (Value.Alike P) (Machine.evaluate (fuel + 1) expr)
      (Machine.evaluate (fuel + 1) expr') := by
  cases h with
  | literal value => exact .pure (Constant.toValue_alike value)
  | grouping hinner => exact ih.evaluate hinner
  | unary hop hoperand =>
    exact (ih.evaluate hoperand).bind fun _ _ hvalue =>
      .liftExcept (unaryResult_alike hP hop hvalue)
  | binary hleft hop hright =>
    exact (ih.evaluate hleft).bind fun _ _ hl => (ih.evaluate hright).bind fun _ _ hr =>
      .liftExcept (binaryResult_alike hP hop hl hr)
  | logical hleft hop hright =>
    refine (ih.evaluate hleft).bind fun left left' hl => ?_
    refine (Parallel.liftExcept (shortCircuits_alike hP hop hl)).same fun short => ?_
    cases short with
    | true => exact .pure hl
    | false => exact ih.evaluate hright
  | «variable» hname => exact readVariable_parallel hP hname
  | assign hname hvalue =>
    exact (ih.evaluate hvalue).bind fun _ _ hv =>
      (writeVariable_parallel hP hname hv).same fun _ => .pure hv
  | call hcallee hparen hargs =>
    exact (ih.evaluate hcallee).bind fun _ _ hc => (ih.evaluateEach hargs).bind fun _ _ ha =>
      ih.call hc hparen ha
  | @get object object' name name' hobject hname =>
    refine (ih.evaluate hobject).bind fun object object' ho => ?_
    -- values that are alike are both instances, or neither of them is
    have hfail : Parallel P (Value.Alike P) (fail (.notAnInstance name .read))
        (fail (.notAnInstance name' .read)) := .fail (.notAnInstance .read hname)
    cases ho with
    | plain hplain => cases object <;> first | exact hfail | exact hplain.elim
    | instanceOf hcls => exact readProperty_parallel hP hcls _ hname
    | _ => exact hfail
  | @set object object' value value' name name' hobject hname hvalue =>
    refine (ih.evaluate hobject).bind fun object object' ho => ?_
    have hfail : Parallel P (Value.Alike P) (fail (.notAnInstance name .write))
        (fail (.notAnInstance name' .write)) := .fail (.notAnInstance .write hname)
    cases ho with
    | plain hplain => cases object <;> first | exact hfail | exact hplain.elim
    | instanceOf _ =>
      dsimp only
      rw [← (hP _ _ _ hname).lexeme]
      exact (ih.evaluate hvalue).bind fun _ _ hv =>
        (writeField_parallel _ _ hv).same fun _ => .pure hv
    | _ => exact hfail
  | this hkeyword => exact readVariable_parallel hP hkeyword
  | super hkeyword hmethod => exact readSuper_parallel hP hkeyword hmethod

omit hP in

theorem evaluateEach_succ {exprs exprs' : List Expr}
    (h : List.Forall₂ (Expr.Alike P) exprs exprs') :
    Parallel P (List.Forall₂ (Value.Alike P)) (Machine.evaluateEach (fuel + 1) exprs)
      (Machine.evaluateEach (fuel + 1) exprs') := by
  cases h with
  | nil => exact .pure .nil
  | cons hexpr hrest =>
    exact (ih.evaluate hexpr).bind fun _ _ hvalue => (ih.evaluateEach hrest).bind fun _ _ hvalues =>
      .pure (.cons hvalue hvalues)

omit hP in

/-- Calls that are alike check the same numbers of arguments. -/
theorem call_succ {callee callee' : Value} {paren paren' : Token} {args args' : List Value}
    (hcallee : callee.Alike P callee') (hparen : P .closing paren paren')
    (hargs : List.Forall₂ (Value.Alike P) args args') :
    Parallel P (Value.Alike P) (Machine.call (fuel + 1) callee paren args)
      (Machine.call (fuel + 1) callee' paren' args') := by
  unfold Machine.call Followed.call
  have hfound := Callee.ofValue?_alike hcallee
  generalize Callee.ofValue? callee = found at hfound
  generalize Callee.ofValue? callee' = found' at hfound
  cases hfound with
  | none => exact .fail (.notCallable hparen)
  | some hcallee =>
    dsimp only
    rw [← hcallee.arity, ← hargs.length_eq]
    split
    · exact ih.invoke hcallee hargs
    · exact .fail (.arity _ _ hparen)

/-- Callees that are alike run bodies that are, in frames with one number. -/
theorem invoke_succ {callee callee' : Callee} {args args' : List Value}
    (hcallee : callee.Alike P callee') (hargs : List.Forall₂ (Value.Alike P) args args') :
    Parallel P (Value.Alike P) (Machine.invoke (fuel + 1) callee args)
      (Machine.invoke (fuel + 1) callee' args') := by
  unfold Machine.invoke Followed.invoke
  cases hcallee with
  | host fn => exact callHost_parallel fn hargs
  | @function fn fn' hfn =>
    dsimp only
    rw [← hfn.frame, ← hfn.isInitializer]
    refine (newFrame_parallel fn.frame).same fun frame => ?_
    refine (bindParameters_parallel hP frame hfn.decl.params hargs).same fun _ => ?_
    -- the bodies come from the stores, and are alike because the functions are
    refine ((ih.executeEach hfn.decl.body).within frame).bind fun completion completion' hc => ?_
    split
    · refine .get fun m m' hm => .pure ?_
      have hthis := hm.forest.lookup fn.frame "this"
      generalize m.forest.lookup fn.frame "this" = found at hthis
      generalize m'.forest.lookup fn.frame "this" = found' at hthis
      cases hthis with
      | none => exact .nil
      | some hvalue => exact hvalue
    · cases hc with
      | normal => exact .pure (.nil)
      | returned hvalue => exact .pure hvalue
  | @classRef cls cls' hcls =>
    refine newInstance_parallel.same fun id => ?_
    have hreceiver : (Value.instanceOf cls id).Alike P (.instanceOf cls' id) := .instanceOf hcls
    have hinit := hcls.findMethod? "init"
    generalize cls.findMethod? "init" = found at hinit
    generalize cls'.findMethod? "init" = found' at hinit
    cases hinit with
    | none => exact .pure hreceiver
    | some hinit =>
      refine (bind_parallel hinit hreceiver).bind fun init init' hfn => ?_
      exact (ih.invoke (.function hfn) hargs).bind fun _ _ _ => .pure hreceiver

/-- Statements that are alike end in one way. -/
theorem execute_succ {stmt stmt' : Stmt} (h : stmt.Alike P stmt') :
    Parallel P (Completion.Alike P) (Machine.execute (fuel + 1) stmt)
      (Machine.execute (fuel + 1) stmt') := by
  cases h with
  | expression hexpr => exact (ih.evaluate hexpr).bind fun _ _ _ => .pure .normal
  | print hexpr =>
    refine (ih.evaluate hexpr).bind fun value value' hvalue => ?_
    -- the text of a name is the same in both programs, and so is what is shown of its value
    rw [← hvalue.display hP]
    exact (printLine_parallel _).same fun _ => .pure .normal
  | varDecl hname hinitializer =>
    unfold Machine.execute Followed.execute
    dsimp only
    rw [← (hP _ _ _ hname).lexeme]
    cases hinitializer with
    | none => exact (defineHere_parallel _ .nil).same fun _ => .pure .normal
    | some hexpr =>
      exact (ih.evaluate hexpr).bind fun _ _ hvalue =>
        (defineHere_parallel _ hvalue).same fun _ => .pure .normal
  | block hbody =>
    refine .get fun m m' hm => ?_
    rw [← hm.current]
    exact (newFrame_parallel m.current).same fun frame => (ih.executeEach hbody).within frame
  | ifElse hcondition hthen helse =>
    refine (ih.evaluate hcondition).bind fun value value' hvalue => ?_
    rw [← hvalue.isTruthy]
    split
    · exact ih.execute hthen
    · cases helse with
      | none => exact .pure .normal
      | some hbranch => exact ih.execute hbranch
  | whileLoop hcondition hbody => exact ih.repeatWhile hcondition hbody
  | @funDecl decl decl' hdecl =>
    refine .get fun m m' hm => ?_
    have hfn : Closure.Alike P ⟨decl, m.current, false⟩ ⟨decl', m'.current, false⟩ :=
      ⟨hdecl, hm.current, rfl⟩
    refine (newClosure_parallel hfn).bind fun value value' hvalue => ?_
    rw [← (hP _ _ _ hdecl.name).lexeme]
    exact (defineHere_parallel _ hvalue).same fun _ => .pure .normal
  | returnStmt _ hvalue =>
    cases hvalue with
    | none => exact .pure (.returned (.nil))
    | some hexpr => exact (ih.evaluate hexpr).bind fun _ _ hvalue => .pure (.returned hvalue)
  | @classDecl decl decl' hdecl =>
    have hdeclare := hdecl
    cases hdeclare with
    | @intro name name' superclass superclass' methods methods' _ hsuperclass _ =>
      cases hsuperclass with
      | none => exact (declareClass_parallel hP hdecl .none).same fun _ => .pure .normal
      | @some superclass superclass' hsuperclass =>
        refine (ih.evaluate hsuperclass).bind fun value value' hvalue => ?_
        have hnot : Parallel P (Completion.Alike P)
            (fail (.superclassNotClass (superclassToken ⟨name, some superclass, methods⟩ superclass)))
            (fail (.superclassNotClass (superclassToken ⟨name', some superclass', methods'⟩
              superclass'))) :=
          .fail (.superclassNotClass (superclassToken_alike hdecl hsuperclass))
        -- the values are alike, so that neither of them is a class if one is not
        cases hvalue with
        | plain hplain => cases value <;> first | exact hnot | exact hplain.elim
        | classRef hparent =>
          exact (declareClass_parallel hP hdecl (.some hparent)).same fun _ => .pure .normal
        | _ => exact hnot

omit hP in

/-- Statements in a row return at the same one. -/
theorem executeEach_succ {stmts stmts' : List Stmt}
    (h : List.Forall₂ (Stmt.Alike P) stmts stmts') :
    Parallel P (Completion.Alike P) (Machine.executeEach (fuel + 1) stmts)
      (Machine.executeEach (fuel + 1) stmts') := by
  cases h with
  | nil => exact .pure .normal
  | cons hstmt hrest =>
    refine (ih.execute hstmt).bind fun completion completion' hc => ?_
    cases hc with
    | normal => exact ih.executeEach hrest
    | returned hvalue => exact .pure (.returned hvalue)

omit hP in

/-- Loops that are alike go round equally often. -/
theorem repeatWhile_succ {condition condition' : Expr} {body body' : Stmt}
    (hcondition : condition.Alike P condition') (hbody : body.Alike P body') :
    Parallel P (Completion.Alike P) (Machine.repeatWhile (fuel + 1) condition body)
      (Machine.repeatWhile (fuel + 1) condition' body') := by
  refine (ih.evaluate hcondition).bind fun value value' hvalue => ?_
  rw [← hvalue.isTruthy]
  split
  · refine (ih.execute hbody).bind fun completion completion' hc => ?_
    cases hc with
    | normal => exact ih.repeatWhile hcondition hbody
    | returned hvalue => exact .pure (.returned hvalue)
  · exact .pure .normal

end Step

/-- With any bound the runs go in parallel. -/
protected theorem all (fuel : Nat) : ParallelAt P fuel := by
  induction fuel with
  | zero => exact zero
  | succ fuel ih =>
    exact
      { evaluate := ih.evaluate_succ hP
        evaluateEach := ih.evaluateEach_succ
        call := ih.call_succ
        invoke := ih.invoke_succ hP
        execute := ih.execute_succ hP
        executeEach := ih.executeEach_succ
        repeatWhile := ih.repeatWhile_succ }

end ParallelAt

/-- **Alike programs run alike.** -/
theorem runProgram_parallel (fuel : Nat) {stmts stmts' : List Stmt}
    (h : List.Forall₂ (Stmt.Alike P) stmts stmts') :
    Parallel P Eq (runProgram fuel stmts) (runProgram fuel stmts') := by
  induction h with
  | nil => exact flush_parallel
  | cons hstmt _ ih =>
    exact ((ParallelAt.all hP fuel).execute hstmt).bind fun _ _ _ => ih

/-! ## Pieces of work -/

section Work

omit hP

variable {α α' : Type} {good : α → α' → Prop} {m m' : Machine}

/-- A piece of work that ends in one way gives one verdict. -/
theorem Ended.perform {x : Run α} {x' : Run α'} (h : Ended P good (x m) (x' m')) :
    Verdict.Alike P good (m.perform x).1 (m'.perform x').1 ∧
      (m.perform x).2.Alike P (m'.perform x').2 := by
  unfold Machine.perform
  generalize x m = result at h
  generalize x' m' = result' at h
  cases h with
  | ok hgood hm => exact ⟨.done hgood, hm⟩
  | error hhalt hm =>
    cases hhalt with
    | failed hfailure => exact ⟨.failed hfailure, hm⟩
    | outOfFuel => exact ⟨.outOfFuel, hm⟩

/-- A function that the host defines is one on both sides. -/
theorem defineHost_alike {body body' : HostBody} (hm : m.Alike P m') (hbody : body.Alike P body')
    (name : String) (arity : Nat) :
    (m.defineHost name arity body).Alike P (m'.defineHost name arity body') := by
  have hvalue : Value.Alike P (.host ⟨m.hosts.size, name, arity⟩)
      (.host ⟨m'.hosts.size, name, arity⟩) := by
    rw [hm.hosts.size]
    exact .plain trivial
  exact ⟨hm.forest.define globals name hvalue, hm.current, hm.fields, hm.hosts.push hbody,
    hm.nextSerial, hm.sink⟩

/-- A machine as every program finds it holds no trees. -/
theorem boot_alike (clock : Float) (sink : Sink) :
    (boot clock sink).Alike P (boot clock sink) := by
  have hblank : (blank sink).Alike P (blank sink) := ⟨.root, rfl, .empty, .empty, rfl, rfl⟩
  have hclock : HostBody.Alike P (fun _ => .ok (.number clock)) fun _ => .ok (.number clock) :=
    fun _ _ _ => .ok (.plain trivial)
  exact defineHost_alike hblank hclock "clock" 0

end Work

end Lox.Machine
