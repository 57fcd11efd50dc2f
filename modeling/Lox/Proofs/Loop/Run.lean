/-
`Lox.Proofs.Loop.Run` -- extra frames make no difference.

A piece of a program that is run on two machines of which one has extra frames keeps in
step with itself. The induction is on the bound on the depth, which is one for both runs.
Bodies of functions are run in new frames, which are partners; so is a block. The only
statements that look at whether the current frames are partners, or whether one only
stands for the other, are those that declare something (`Images.Admits`).
-/
import Lox.Proofs.Loop.Step

set_option autoImplicit false

namespace Lox

/-- Statements that declare these names can be run in the frames: there are no such names,
or the frames are partners. -/
structure Images.Admits (w : Images) (c c' : FrameId) (names : List String) : Prop where
  standsFor : w.StandsFor c c'
  declares : names = [] ∨ w.Pairs c c'

namespace Images

variable {w w' : Images} {c c' : FrameId} {names names' : List String}

/-- Partners admit all names. -/
theorem Pairs.admits (h : w.Pairs c c') (names : List String) : w.Admits c c' names :=
  ⟨h.standsFor, .inr h⟩

/-- Without names it is enough that one frame stands for the other. -/
theorem StandsFor.admits (h : w.StandsFor c c') : w.Admits c c' [] :=
  ⟨h, .inl rfl⟩

/-- What is admitted stays so when frames are made. -/
theorem Admits.later (h : w.Admits c c' names) (hw : w <+: w') : w'.Admits c c' names :=
  ⟨h.standsFor.later hw, h.declares.imp_right fun hpairs => hpairs.later hw⟩

/-- Other names are admitted too, if there are none where there were none. -/
theorem Admits.imp (h : w.Admits c c' names) (hnames : names = [] → names' = []) :
    w.Admits c c' names' :=
  ⟨h.standsFor, h.declares.imp_left hnames⟩

/-- Of two lists of names the first one is admitted. -/
theorem Admits.left (h : w.Admits c c' (names ++ names')) : w.Admits c c' names :=
  h.imp fun hnil => (List.append_eq_nil_iff.mp hnil).1

theorem Admits.right (h : w.Admits c c' (names ++ names')) : w.Admits c c' names' :=
  h.imp fun hnil => (List.append_eq_nil_iff.mp hnil).2

/-- A name is only declared in frames that are partners. -/
theorem Admits.pairs {name : String} (h : w.Admits c c' [name]) : w.Pairs c c' :=
  h.declares.resolve_left (List.cons_ne_nil _ _)

end Images

namespace Machine

variable {w : Images} {c c' : FrameId}

/-! ## Preparations -/

/-- Parameters are bound in the frame of a call, which has its partner. -/
theorem bindParameters_inStep {frame frame' : FrameId} (hframe : w.Pairs frame frame')
    (params : List Token) {args args' : List Value}
    (hargs : List.Forall₂ (Value.Matches w) args args') :
    InStep w c c' (fun _ => Eq) (bindParameters frame params args)
      (bindParameters frame' params args') := by
  unfold bindParameters
  induction params generalizing w args args' with
  | nil => exact .pure fun _ _ => rfl
  | cons param params ih =>
    cases hargs with
    | nil => exact .pure fun _ _ => rfl
    | @cons arg arg' args args' harg hargs =>
      refine (define_inStep hframe param.lexeme harg).same fun w₁ hw₁ _ => ?_
      exact ih (hframe.later hw₁) (Value.Matches.later_each hw₁ hargs)

/-- Methods are closed over frames of which one stands for the other. -/
theorem methodTable_matches {frame frame' : FrameId} (hframe : w.StandsFor frame frame')
    (methods : List FunctionDecl) :
    Table.Alike (Closure.Matches w) (methodTable frame methods) (methodTable frame' methods) := by
  have hadd : ∀ table table' : Table Closure, Table.Alike (Closure.Matches w) table table' →
      Table.Alike (Closure.Matches w)
        (methods.foldl (fun table decl =>
          table.insert decl.name.lexeme ⟨decl, frame, decl.name.lexeme == "init"⟩) table)
        (methods.foldl (fun table decl =>
          table.insert decl.name.lexeme ⟨decl, frame', decl.name.lexeme == "init"⟩) table') := by
    induction methods with
    | nil => exact fun _ _ htable => htable
    | cons decl rest ih =>
      intro table table' htable
      rw [List.foldl_cons, List.foldl_cons]
      exact ih _ _ (htable.insert decl.name.lexeme ⟨rfl, hframe, rfl⟩)
  exact hadd .empty .empty .empty

/-- A class is declared in frames that are partners, and then its name is there to be
written to. -/
theorem declareClass_inStep (hc : w.Pairs c c') (decl : ClassDecl) {parent parent' : Option Class}
    (hparent : Option.Rel (Class.Matches w) parent parent') :
    InStep w c c' (fun _ => Eq) (declareClass decl parent) (declareClass decl parent') := by
  have hown : ∀ (w₁ : Images) (frame frame' : FrameId) (serial : Nat), w₁.StandsFor frame frame' →
      ClassBody.Matches w₁ ⟨serial, decl.name.lexeme, methodTable frame decl.methods⟩
        ⟨serial, decl.name.lexeme, methodTable frame' decl.methods⟩ :=
    fun _ _ _ _ hframe => ⟨rfl, rfl, methodTable_matches hframe decl.methods⟩
  unfold declareClass
  refine (defineHere_inStep hc decl.name.lexeme .nil).same fun w₁ hw₁ _ => ?_
  cases hparent with
  | none =>
    refine .get fun w₂ hw₂ m m' hm => ?_
    rw [hm.current, hm.current', pure_bind, pure_bind]
    refine newSerial_inStep.same fun w₃ hw₃ serial => ?_
    have hhere := hc.standsFor.later ((hw₁.trans hw₂).trans hw₃)
    exact writeVariable_inStep hhere decl.name (.classRef ⟨hown w₃ c c' serial hhere, .nil⟩)
  | some hparent =>
    refine .get fun w₂ hw₂ m m' hm => ?_
    rw [hm.current, hm.current']
    have hparent₂ := hparent.later (hw₁.trans hw₂)
    have hc₂ := hc.later (hw₁.trans hw₂)
    refine (newFrame_inStep hc₂.standsFor).bind fun w₃ hw₃ frame frame' hframe => ?_
    refine (define_inStep hframe "super" (.classRef (hparent₂.later hw₃))).same fun w₄ hw₄ _ => ?_
    rw [pure_bind, pure_bind]
    refine newSerial_inStep.same fun w₅ hw₅ serial => ?_
    have hlater := hw₄.trans hw₅
    exact writeVariable_inStep (hc₂.standsFor.later (hw₃.trans hlater)) decl.name (.classRef
      ⟨hown w₅ frame frame' serial (hframe.later hlater).standsFor,
        (hparent₂.later (hw₃.trans hlater)).lineage⟩)

/-! ## The evaluator -/

/-- With one bound the functions of the evaluator keep in step. -/
structure InStepAt (fuel : Nat) : Prop where
  evaluate : ∀ {w : Images} {c c' : FrameId}, w.StandsFor c c' → ∀ expr,
    InStep w c c' Value.Matches (evaluate fuel expr) (evaluate fuel expr)
  evaluateEach : ∀ {w : Images} {c c' : FrameId}, w.StandsFor c c' → ∀ exprs,
    InStep w c c' (fun w => List.Forall₂ (Value.Matches w)) (evaluateEach fuel exprs)
      (evaluateEach fuel exprs)
  call : ∀ {w : Images} {c c' : FrameId} {callee callee' args args'}, Value.Matches w callee callee' →
    ∀ paren, List.Forall₂ (Value.Matches w) args args' →
    InStep w c c' Value.Matches (call fuel callee paren args) (call fuel callee' paren args')
  invoke : ∀ {w : Images} {c c' : FrameId} {callee callee' args args'},
    Callee.Matches w callee callee' → List.Forall₂ (Value.Matches w) args args' →
    InStep w c c' Value.Matches (invoke fuel callee args) (invoke fuel callee' args')
  execute : ∀ {w : Images} {c c' : FrameId} (stmt : Stmt), w.Admits c c' stmt.declared →
    InStep w c c' Completion.Matches (execute fuel stmt) (execute fuel stmt)
  executeEach : ∀ {w : Images} {c c' : FrameId} (stmts : List Stmt),
    w.Admits c c' (Stmt.declaredEach stmts) →
    InStep w c c' Completion.Matches (executeEach fuel stmts) (executeEach fuel stmts)
  repeatWhile : ∀ {w : Images} {c c' : FrameId} (condition : Expr) (body : Stmt),
    w.Admits c c' body.declared →
    InStep w c c' Completion.Matches (repeatWhile fuel condition body)
      (repeatWhile fuel condition body)

namespace InStepAt

/-- Without fuel both sides stop. -/
theorem zero : InStepAt 0 where
  evaluate _ _ := .throw _
  evaluateEach _ _ := .throw _
  call _ _ _ := .throw _
  invoke _ _ := .throw _
  execute _ _ := .throw _
  executeEach _ _ := .throw _
  repeatWhile _ _ _ := .throw _

section Step

variable {fuel : Nat} (ih : InStepAt fuel)
include ih

/-- Expressions declare nothing, and so keep in step wherever they are evaluated. -/
theorem evaluate_succ (hc : w.StandsFor c c') (expr : Expr) :
    InStep w c c' Value.Matches (Machine.evaluate (fuel + 1) expr)
      (Machine.evaluate (fuel + 1) expr) := by
  cases expr with
  | literal value => exact .pure fun _ _ => Constant.toValue_matches value
  | grouping inner => exact ih.evaluate hc inner
  | unary op operand =>
    exact (ih.evaluate hc operand).bind fun _ _ _ _ hvalue =>
      .liftExcept fun _ hw₂ => unaryResult_matches (hvalue.later hw₂)
  | binary left op right =>
    refine (ih.evaluate hc left).bind fun w₁ hw₁ left left' hleft => ?_
    refine (ih.evaluate (hc.later hw₁) right).bind fun w₂ hw₂ right right' hright => ?_
    exact .liftExcept fun w₃ hw₃ =>
      binaryResult_matches (hleft.later (hw₂.trans hw₃)) (hright.later hw₃)
  | logical left op right =>
    refine (ih.evaluate hc left).bind fun w₁ hw₁ left left' hleft => ?_
    -- matching values decide alike whether the right side is left out
    rw [shortCircuits_matches hleft]
    cases shortCircuits op left' with
    | error failure => exact .fail failure
    | ok short =>
      cases short with
      | true => exact .pure fun _ hw₂ => hleft.later hw₂
      | false => exact ih.evaluate (hc.later hw₁) right
  | «variable» name => exact readVariable_inStep hc name
  | assign name value =>
    refine (ih.evaluate hc value).bind fun w₁ hw₁ value value' hvalue => ?_
    exact (writeVariable_inStep (hc.later hw₁) name hvalue).same fun _ hw₂ _ =>
      .pure fun _ hw₃ => hvalue.later (hw₂.trans hw₃)
  | call callee paren args =>
    refine (ih.evaluate hc callee).bind fun w₁ hw₁ callee callee' hcallee => ?_
    exact (ih.evaluateEach (hc.later hw₁) args).bind fun _ hw₂ _ _ hargs =>
      ih.call (hcallee.later hw₂) paren hargs
  | get object name =>
    refine (ih.evaluate hc object).bind fun w₁ _ object object' hobject => ?_
    -- neither value is an instance if one is not
    have hfail : InStep w₁ c c' Value.Matches (fail (.notAnInstance name .read))
        (fail (.notAnInstance name .read)) := .fail _
    cases hobject with
    | plain hplain => cases object <;> first | exact hfail | exact hplain.elim
    | instanceOf hcls => exact readProperty_inStep hcls _ name
    | _ => exact hfail
  | set object name value =>
    refine (ih.evaluate hc object).bind fun w₁ hw₁ object object' hobject => ?_
    have hfail : InStep w₁ c c' Value.Matches (fail (.notAnInstance name .write))
        (fail (.notAnInstance name .write)) := .fail _
    cases hobject with
    | plain hplain => cases object <;> first | exact hfail | exact hplain.elim
    | instanceOf _ =>
      refine (ih.evaluate (hc.later hw₁) value).bind fun w₂ _ value value' hvalue => ?_
      exact (writeField_inStep _ _ hvalue).same fun _ hw₃ _ =>
        .pure fun _ hw₄ => hvalue.later (hw₃.trans hw₄)
    | _ => exact hfail
  | this keyword => exact readVariable_inStep hc keyword
  | super keyword method => exact readSuper_inStep hc keyword method

theorem evaluateEach_succ (hc : w.StandsFor c c') (exprs : List Expr) :
    InStep w c c' (fun w => List.Forall₂ (Value.Matches w)) (Machine.evaluateEach (fuel + 1) exprs)
      (Machine.evaluateEach (fuel + 1) exprs) := by
  cases exprs with
  | nil => exact .pure fun _ _ => .nil
  | cons expr rest =>
    refine (ih.evaluate hc expr).bind fun w₁ hw₁ value value' hvalue => ?_
    refine (ih.evaluateEach (hc.later hw₁) rest).bind fun w₂ hw₂ values values' hvalues => ?_
    exact .pure fun w₃ hw₃ =>
      .cons (hvalue.later (hw₂.trans hw₃)) (Value.Matches.later_each hw₃ hvalues)

/-- Calls check the same numbers of arguments. -/
theorem call_succ {callee callee' : Value} {args args' : List Value}
    (hcallee : callee.Matches w callee') (paren : Token)
    (hargs : List.Forall₂ (Value.Matches w) args args') :
    InStep w c c' Value.Matches (Machine.call (fuel + 1) callee paren args)
      (Machine.call (fuel + 1) callee' paren args') := by
  unfold Machine.call Followed.call
  have hfound := Callee.ofValue?_matches hcallee
  generalize Callee.ofValue? callee = found at hfound
  generalize Callee.ofValue? callee' = found' at hfound
  cases hfound with
  | none => exact .fail _
  | some hcallee =>
    dsimp only
    rw [← hcallee.arity, ← hargs.length_eq]
    split
    · exact ih.invoke hcallee hargs
    · exact .fail _

/-- The body of a function is run in partners, as both sides make its frame. -/
theorem invoke_succ {callee callee' : Callee} {args args' : List Value}
    (hcallee : callee.Matches w callee') (hargs : List.Forall₂ (Value.Matches w) args args') :
    InStep w c c' Value.Matches (Machine.invoke (fuel + 1) callee args)
      (Machine.invoke (fuel + 1) callee' args') := by
  unfold Machine.invoke Followed.invoke
  cases hcallee with
  | host fn => exact callHost_inStep fn hargs
  | @function fn fn' hfn =>
    dsimp only
    rw [← hfn.decl, ← hfn.isInitializer]
    refine (newFrame_inStep hfn.frame).bind fun w₁ hw₁ frame frame' hframe => ?_
    refine (bindParameters_inStep hframe fn.decl.params (Value.Matches.later_each hw₁ hargs)).same
      fun w₂ hw₂ _ => ?_
    -- the body is run in the new frames, which are partners whatever those around them are
    have hbody : InStep w₂ frame frame' Completion.Matches (Machine.executeEach fuel fn.decl.body)
        (Machine.executeEach fuel fn.decl.body) :=
      ih.executeEach fn.decl.body ((hframe.later hw₂).admits _)
    refine hbody.within.bind fun w₃ hw₃ completion completion' hcompletion => ?_
    split
    · refine .get fun w₄ hw₄ m m' hm => .pure fun w₅ hw₅ => ?_
      have hthis := hm.forest.lookup (hfn.frame.later (hw₁.trans (hw₂.trans (hw₃.trans hw₄)))) "this"
      generalize m.forest.lookup fn.frame "this" = found at hthis
      generalize m'.forest.lookup fn'.frame "this" = found' at hthis
      cases hthis with
      | none => exact .nil
      | some hvalue => exact hvalue.later hw₅
    · cases hcompletion with
      | normal => exact .pure fun _ _ => .nil
      | returned hvalue => exact .pure fun _ hw₄ => hvalue.later hw₄
  | @classRef cls cls' hcls =>
    refine newInstance_inStep.same fun w₁ hw₁ id => ?_
    have hreceiver : (Value.instanceOf cls id).Matches w₁ (.instanceOf cls' id) :=
      .instanceOf (hcls.later hw₁)
    have hinit := (hcls.later hw₁).findMethod? "init"
    generalize cls.findMethod? "init" = found at hinit
    generalize cls'.findMethod? "init" = found' at hinit
    cases hinit with
    | none => exact .pure fun _ hw₂ => hreceiver.later hw₂
    | some hinit =>
      refine (bind_inStep hinit hreceiver).bind fun w₂ hw₂ init init' hfn => ?_
      exact (ih.invoke (.function hfn) (Value.Matches.later_each (hw₁.trans hw₂) hargs)).bind
        fun _ hw₃ _ _ _ => .pure fun _ hw₄ => hreceiver.later (hw₂.trans (hw₃.trans hw₄))

/-- Statements keep in step where the names that they declare are admitted. -/
theorem execute_succ (stmt : Stmt) (hc : w.Admits c c' stmt.declared) :
    InStep w c c' Completion.Matches (Machine.execute (fuel + 1) stmt)
      (Machine.execute (fuel + 1) stmt) := by
  cases stmt with
  -- expressions declare nothing, so it is enough that one frame stands for the other
  | expression expr =>
    exact (ih.evaluate hc.standsFor expr).bind fun _ _ _ _ _ => .pure fun _ _ => .normal
  | print expr =>
    refine (ih.evaluate hc.standsFor expr).bind fun w₁ _ value value' hvalue => ?_
    rw [← hvalue.display]
    exact (printLine_inStep _).same fun _ _ _ => .pure fun _ _ => .normal
  -- a declared name asks for partners, in which it is bound on both sides
  | varDecl name initializer =>
    rw [Stmt.declared] at hc
    cases initializer with
    | none =>
      exact (defineHere_inStep hc.pairs _ .nil).same fun _ _ _ => .pure fun _ _ => .normal
    | some expr =>
      refine (ih.evaluate hc.standsFor expr).bind fun w₁ hw₁ value value' hvalue => ?_
      exact (defineHere_inStep (hc.pairs.later hw₁) _ hvalue).same fun _ _ _ =>
        .pure fun _ _ => .normal
  | block body =>
    refine .get fun w₁ hw₁ m m' hm => ?_
    rw [hm.current, hm.current']
    -- the frame of a block is made on both sides: it is its partner, so all names are admitted
    refine (newFrame_inStep (hc.standsFor.later hw₁)).bind fun w₂ _ frame frame' hframe => ?_
    exact (ih.executeEach body (hframe.admits _)).within
  | ifElse condition thenBranch elseBranch =>
    -- both sides take the same branch, which declares its part of the names
    refine (ih.evaluate hc.standsFor condition).bind fun w₁ hw₁ value value' hvalue => ?_
    rw [← hvalue.isTruthy]
    replace hc := hc.later hw₁
    cases elseBranch with
    | none =>
      rw [Stmt.declared] at hc
      split
      · exact ih.execute thenBranch hc
      · exact .pure fun _ _ => .normal
    | some elseBranch =>
      rw [Stmt.declared] at hc
      split
      · exact ih.execute thenBranch hc.left
      · exact ih.execute elseBranch hc.right
  | whileLoop condition body =>
    rw [Stmt.declared] at hc
    exact ih.repeatWhile condition body hc
  | funDecl decl =>
    rw [Stmt.declared] at hc
    refine .get fun w₁ hw₁ m m' hm => ?_
    -- the function is closed over the current frames, of which one stands for the other
    have hfn : Closure.Matches w₁ ⟨decl, m.current, false⟩ ⟨decl, m'.current, false⟩ := by
      rw [hm.current, hm.current']
      exact ⟨rfl, hc.standsFor.later hw₁, rfl⟩
    refine (newClosure_inStep hfn).bind fun w₂ hw₂ value value' hvalue => ?_
    exact (defineHere_inStep (hc.pairs.later (hw₁.trans hw₂)) _ hvalue).same fun _ _ _ =>
      .pure fun _ _ => .normal
  | returnStmt keyword value =>
    cases value with
    | none => exact .pure fun _ _ => .returned .nil
    | some expr =>
      exact (ih.evaluate hc.standsFor expr).bind fun _ _ _ _ hvalue =>
        .pure fun _ hw₂ => .returned (hvalue.later hw₂)
  | classDecl decl =>
    obtain ⟨name, superclass, methods⟩ := decl
    rw [Stmt.declared] at hc
    cases superclass with
    | none =>
      exact (declareClass_inStep hc.pairs _ .none).same fun _ _ _ => .pure fun _ _ => .normal
    | some superclass =>
      refine (ih.evaluate hc.standsFor superclass).bind fun w₁ hw₁ value value' hvalue => ?_
      -- what is no class fails on both sides with one token
      have hnot : InStep w₁ c c' Completion.Matches
          (fail (.superclassNotClass (superclassToken ⟨name, some superclass, methods⟩ superclass)))
          (fail (.superclassNotClass (superclassToken ⟨name, some superclass, methods⟩ superclass))) :=
        .fail _
      cases hvalue with
      | plain hplain => cases value <;> first | exact hnot | exact hplain.elim
      | classRef hparent =>
        exact (declareClass_inStep (hc.pairs.later hw₁) _ (.some hparent)).same fun _ _ _ =>
          .pure fun _ _ => .normal
      | _ => exact hnot

/-- Statements in a row do so where all their names are. -/
theorem executeEach_succ (stmts : List Stmt) (hc : w.Admits c c' (Stmt.declaredEach stmts)) :
    InStep w c c' Completion.Matches (Machine.executeEach (fuel + 1) stmts)
      (Machine.executeEach (fuel + 1) stmts) := by
  cases stmts with
  | nil => exact .pure fun _ _ => .normal
  | cons stmt rest =>
    rw [Stmt.declaredEach, List.flatMap_cons] at hc
    refine (ih.execute stmt hc.left).bind fun w₁ hw₁ completion completion' hcompletion => ?_
    cases hcompletion with
    | normal => exact ih.executeEach rest (hc.right.later hw₁)
    | returned hvalue => exact .pure fun _ hw₂ => .returned (hvalue.later hw₂)

/-- A loop does so where the names of its body are. -/
theorem repeatWhile_succ (condition : Expr) (body : Stmt) (hc : w.Admits c c' body.declared) :
    InStep w c c' Completion.Matches (Machine.repeatWhile (fuel + 1) condition body)
      (Machine.repeatWhile (fuel + 1) condition body) := by
  refine (ih.evaluate hc.standsFor condition).bind fun w₁ hw₁ value value' hvalue => ?_
  rw [← hvalue.isTruthy]
  split
  · refine (ih.execute body (hc.later hw₁)).bind fun w₂ hw₂ completion completion' hcompletion => ?_
    cases hcompletion with
    | normal => exact ih.repeatWhile condition body (hc.later (hw₁.trans hw₂))
    | returned hvalue => exact .pure fun _ hw₃ => .returned (hvalue.later hw₃)
  · exact .pure fun _ _ => .normal

/-- Together they keep in step with one unit more. -/
theorem succ : InStepAt (fuel + 1) where
  evaluate := ih.evaluate_succ
  evaluateEach := ih.evaluateEach_succ
  call := ih.call_succ
  invoke := ih.invoke_succ
  execute := ih.execute_succ
  executeEach := ih.executeEach_succ
  repeatWhile := ih.repeatWhile_succ

end Step

/-- They keep in step with any bound. -/
protected theorem all (fuel : Nat) : InStepAt fuel := by
  induction fuel with
  | zero => exact zero
  | succ fuel ih => exact ih.succ

end InStepAt

end Machine

end Lox
