/-
`Lox.Proofs.Machine.Binding` -- who may bind names, and where.

A frame that is there stays there, inside the same frames and with all the names
it has. What can happen to it is that it gets further names, and the question is
which work can do that to which frame. The answer is a relation between the
forest before and after (`Forest.Grows`), with a parameter that says which names
may have been added where: to add nothing is allowed everywhere.

The evaluator is put together from steps, so the relation is proved for each step
and for two runs after one another. A frame that is created on the way is none of
those that were there before. What is bound in it does not count (`Binds.inNew`),
and that is why calls bind nothing, although they bind their parameters.
-/
import Lox.Proofs.Machine.CurrentFrame
import Lox.Proofs.Machine.Run

set_option autoImplicit false

namespace Lox

/-! ## Names in tables -/

namespace Table

variable {α : Type}

/-- A name is among the entries exactly if the search for it finds something. -/
private theorem mem_names_search (name : String) (entries : List (String × α)) :
    name ∈ entries.map Prod.fst ↔ (search? name entries).isSome := by
  induction entries with
  | nil => simp [search?]
  | cons entry rest ih =>
    obtain ⟨other, value⟩ := entry
    by_cases hsame : name = other
    · simp [search?, hsame]
    · rw [List.map_cons, List.mem_cons, search?, if_neg hsame, ← ih]
      simp [hsame]

/-- So the names of a table are those under which something is found. -/
theorem mem_names_iff {t : Table α} {name : String} : name ∈ t.names ↔ (t.find? name).isSome :=
  mem_names_search name t.entries

/-- Binding a name adds it and takes no other away. -/
theorem mem_names_insert {t : Table α} {name key : String} {value : α} :
    key ∈ (t.insert name value).names ↔ key = name ∨ key ∈ t.names := by
  rw [mem_names_iff, mem_names_iff, find?_insert]
  by_cases hkey : key = name <;> simp [hkey]

end Table

/-! ## Frames and forests that grow -/

section Growth

variable {α : Type}

/-- The frame later on: it stands where it stood and has the names it had, and
those that have come to it were allowed to. -/
structure Frame.Grows (may : String → Prop) (old new : Frame α) : Prop where
  outer : new.outer = old.outer
  kept : ∀ name, name ∈ old.bindings.names → name ∈ new.bindings.names
  added : ∀ name, name ∈ new.bindings.names → name ∈ old.bindings.names ∨ may name

/-- All frames of the first forest are in the second one, with the names they had
and only such further ones as they may have. -/
def Forest.Grows (may : FrameId → String → Prop) (f f' : Forest α) : Prop :=
  ∀ id frame, f.frame? id = some frame →
    ∃ frame', f'.frame? id = some frame' ∧ frame.Grows (may id) frame'

namespace Frame.Grows

variable {may may' : String → Prop} {a b c : Frame α}

protected theorem refl (frame : Frame α) : frame.Grows may frame :=
  ⟨rfl, fun _ h => h, fun _ h => .inl h⟩

protected theorem trans (h : a.Grows may b) (h' : b.Grows may c) : a.Grows may c := by
  refine ⟨h'.outer.trans h.outer, fun name hname => h'.kept name (h.kept name hname), ?_⟩
  intro name hname
  rcases h'.added name hname with hb | hmay
  · exact h.added name hb
  · exact .inr hmay

/-- More names may be allowed. -/
theorem mono (h : a.Grows may b) (hmay : ∀ name, may name → may' name) : a.Grows may' b :=
  ⟨h.outer, h.kept, fun name hname => (h.added name hname).imp_right (hmay name)⟩

/-- A name that is given a value, and which was there or may be. -/
theorem insert (frame : Frame α) (name : String) (value : α)
    (h : name ∈ frame.bindings.names ∨ may name) :
    frame.Grows may { frame with bindings := frame.bindings.insert name value } := by
  refine ⟨rfl, fun key hkey => Table.mem_names_insert.mpr (.inr hkey), fun key hkey => ?_⟩
  rcases Table.mem_names_insert.mp hkey with rfl | hkey
  · exact h
  · exact .inl hkey

end Frame.Grows

namespace Forest

/-! ### Frames of a forest -/

/-- A frame that is there stays what it is when another one is added. -/
theorem frame?_push_of_some {f : Forest α} {id : FrameId} {frame added : Frame α}
    (h : f.frame? id = some frame) : frame? ⟨f.frames.push added⟩ id = some frame := by
  have hlt : id.index < f.frames.size := (Array.getElem?_eq_some_iff.mp h).1
  show (f.frames.push added)[id.index]? = some frame
  rw [Array.getElem?_push, if_neg (Nat.ne_of_lt hlt)]
  exact h

/-- Binding a name touches its own frame only. -/
theorem frame?_define (f : Forest α) (id key : FrameId) (name : String) (value : α) :
    (f.define id name value).frame? key = if id = key then
      (f.frame? key).map fun frame => { frame with bindings := frame.bindings.insert name value }
      else f.frame? key := by
  have hindex : id = key ↔ id.index = key.index := by
    cases id
    cases key
    simp
  show (f.frames.modify id.index _)[key.index]? = _
  rw [Array.getElem?_modify]
  by_cases hkey : id = key
  · rw [if_pos hkey, if_pos (hindex.mp hkey)]
    rfl
  · rw [if_neg hkey, if_neg fun h => hkey (hindex.mpr h)]
    rfl

/-- The identifier of the next frame belongs to none that is there. -/
theorem frame?_next (f : Forest α) : f.frame? f.next = none := by
  show f.frames[f.frames.size]? = none
  exact Array.getElem?_eq_none (Nat.le_refl _)

/-- The next frame is not there yet. -/
theorem ne_next_of_some {f : Forest α} {id : FrameId} {frame : Frame α}
    (h : f.frame? id = some frame) : id ≠ f.next := by
  rintro rfl
  rw [frame?_next] at h
  cases h

/-- A name with a value in a frame is one of its names. -/
theorem mem_names_of_local?_isSome {f : Forest α} {id : FrameId} {frame : Frame α} {name : String}
    (hframe : f.frame? id = some frame) (h : (f.local? id name).isSome) :
    name ∈ frame.bindings.names := by
  rw [local?, hframe] at h
  exact Table.mem_names_iff.mpr h

/-! ### Growing -/

namespace Grows

variable {may may' : FrameId → String → Prop} {f f' f'' : Forest α}

protected theorem refl (f : Forest α) : f.Grows may f :=
  fun _ frame h => ⟨frame, h, .refl frame⟩

/-- A forest that grows twice has grown. -/
protected theorem trans (h : f.Grows may f') (h' : f'.Grows may f'') : f.Grows may f'' := by
  intro id frame hframe
  obtain ⟨frame', hframe', hgrows⟩ := h id frame hframe
  obtain ⟨frame'', hframe'', hgrows'⟩ := h' id frame' hframe'
  exact ⟨frame'', hframe'', hgrows.trans hgrows'⟩

/-- What may be added matters only for the frames that are there. -/
theorem mono (h : f.Grows may f')
    (hmay : ∀ id name, (f.frame? id).isSome → may id name → may' id name) :
    f.Grows may' f' := by
  intro id frame hframe
  obtain ⟨frame', hframe', hgrows⟩ := h id frame hframe
  refine ⟨frame', hframe', hgrows.mono fun name => hmay id name ?_⟩
  rw [hframe]
  rfl

/-- Adding a frame leaves the others as they were. -/
theorem push (f : Forest α) (added : Frame α) : f.Grows may ⟨f.frames.push added⟩ :=
  fun _ frame h => ⟨frame, frame?_push_of_some h, .refl frame⟩

/-- So does binding a name that is there already, or that is allowed. -/
theorem define (f : Forest α) (id : FrameId) (name : String) (value : α)
    (h : (f.local? id name).isSome ∨ may id name) : f.Grows may (f.define id name value) := by
  intro key frame hframe
  rw [frame?_define, hframe]
  by_cases hkey : id = key
  · subst hkey
    rw [if_pos rfl]
    refine ⟨_, rfl, .insert frame name value ?_⟩
    exact h.imp_left (mem_names_of_local?_isSome hframe)
  · rw [if_neg hkey]
    exact ⟨frame, rfl, .refl frame⟩

end Grows

end Forest

end Growth

/-! ## The names that a statement declares -/

/-- The names that running a statement can bind in the frame around it: those of
its declarations that are not inside a block or the body of a function. -/
def Stmt.declared : Stmt → List String
  | .varDecl name _ => [name.lexeme]
  | .funDecl decl => [decl.name.lexeme]
  | .classDecl decl => [decl.name.lexeme]
  | .ifElse _ thenBranch none => thenBranch.declared
  | .ifElse _ thenBranch (some elseBranch) => thenBranch.declared ++ elseBranch.declared
  | .whileLoop _ body => body.declared
  | .expression _ | .print _ | .block _ | .returnStmt _ _ => []

/-- The names that running some statements can bind in the frame around them. -/
def Stmt.declaredEach (stmts : List Stmt) : List String :=
  stmts.flatMap Stmt.declared

namespace Machine

/-! ## Runs that bind -/

/-- The run keeps the current frame, and to the frames that are there it adds only
the names it may. Which those are can depend on the current frame, which comes
first. -/
structure Binds {α : Type} (may : FrameId → FrameId → String → Prop) (run : Run α) : Prop where
  current : KeepsCurrent run
  forest : ∀ m : Machine, m.forest.Grows (may m.current) (m.perform run).2.forest

/-- Nothing may be added. -/
def nothing : FrameId → FrameId → String → Prop :=
  fun _ _ _ => False

/-- Some names may be added to the current frame. -/
def here (names : List String) : FrameId → FrameId → String → Prop :=
  fun current id name => id = current ∧ name ∈ names

namespace Binds

variable {α β : Type} {may may' : FrameId → FrameId → String → Prop}

/-- A run that binds few names binds no others if more are allowed. -/
theorem mono {run : Run α} (h : Binds may run)
    (hmay : ∀ current id name, may current id name → may' current id name) : Binds may' run :=
  ⟨h.current, fun m => (h.forest m).mono fun id name _ => hmay m.current id name⟩

/-- A run that leaves the forest as it is. -/
theorem of_forest_eq {run : Run α} (hcurrent : KeepsCurrent run)
    (hforest : ∀ m : Machine, (m.perform run).2.forest = m.forest) : Binds may run := by
  refine ⟨hcurrent, fun m => ?_⟩
  rw [hforest]
  exact .refl _

protected theorem pure (a : α) : Binds may (pure a : Run α) :=
  .of_forest_eq (.pure a) fun _ => rfl

/-- A halt binds nothing. -/
protected theorem throw (halt : Halt) : Binds may (throw halt : Run α) := by
  refine .of_forest_eq (.throw halt) fun m => ?_
  cases halt <;> rfl

protected theorem fail (failure : Failure) : Binds may (fail failure : Run α) :=
  .throw _

protected theorem liftExcept (result : Except Failure α) : Binds may (liftExcept result) := by
  cases result with
  | ok a => exact .pure a
  | error failure => exact .fail failure

protected theorem get : Binds may (get : Run Machine) :=
  .of_forest_eq .get fun _ => rfl

/-- Runs after one another bind what either may, both being in the same frame. -/
protected theorem bind {x : Run α} {f : α → Run β} (hx : Binds may x)
    (hf : ∀ a, Binds may (f a)) : Binds may (x >>= f) := by
  refine ⟨hx.current.bind fun a => (hf a).current, fun m => ?_⟩
  have hfirst := hx.forest m
  cases hrun : x m with
  | ok a m' =>
    -- the second run starts in the frame in which the first one did
    have hsecond := (hf a).forest m'
    rw [hx.current.current_of_ok hrun] at hsecond
    rw [perform_snd_of_ok hrun] at hfirst
    rw [perform, bind_of_ok hrun]
    exact hfirst.trans hsecond
  | error halt m' =>
    rw [perform_snd_of_error hrun] at hfirst
    rwa [perform_snd_of_error (bind_of_error hrun)]

/-- Of a run in another frame counts what it may add from there. -/
protected theorem within {frame : FrameId} {run : Run α} (h : Binds may run)
    (hmay : ∀ current id name, may frame id name → may' current id name) :
    Binds may' (within frame run) := by
  refine ⟨.within frame run, fun m => ?_⟩
  have hforest := (h.forest { m with current := frame }).mono
    fun id name _ => hmay m.current id name
  rw [perform_within_snd]
  exact hforest

/-- What is bound in a new frame does not count: the frame was not there. -/
theorem inNew {parent : FrameId} {f : FrameId → Run β}
    (hf : ∀ frame, Binds (fun current id name => id = frame ∨ may current id name) (f frame)) :
    Binds may (newFrame parent >>= f) := by
  refine ⟨(newFrame_keepsCurrent parent).bind fun frame => (hf frame).current, fun m => ?_⟩
  have hadded : m.forest.Grows (may m.current) (m.forest.addChild parent) := .push _ _
  have hrest := (hf m.forest.next).forest { m with forest := m.forest.addChild parent }
  have hnew : newFrame parent m
      = .ok m.forest.next { m with forest := m.forest.addChild parent } := rfl
  rw [perform, bind_of_ok hnew]
  intro id frame hframe
  obtain ⟨frame', hframe', hgrows⟩ := hadded id frame hframe
  obtain ⟨frame'', hframe'', hgrows'⟩ := hrest id frame' hframe'
  refine ⟨frame'', hframe'', hgrows.trans (hgrows'.mono fun name hname => ?_)⟩
  exact hname.resolve_left (Forest.ne_next_of_some hframe)

end Binds

/-! ## The steps of the machine -/

section Steps

variable {may : FrameId → FrameId → String → Prop}

/-- Defining a name binds that name in that frame. -/
theorem define_binds (frame : FrameId) (name : String) (value : Value) :
    Binds (fun _ id key => id = frame ∧ key = name) (define frame name value) :=
  ⟨define_keepsCurrent frame name value,
    fun m => .define m.forest frame name value (.inr ⟨rfl, rfl⟩)⟩

/-- In the current frame it binds it there. -/
theorem defineHere_binds (name : String) (value : Value) :
    Binds (here [name]) (defineHere name value) :=
  ⟨defineHere_keepsCurrent name value,
    fun m => .define m.forest m.current name value (.inr ⟨rfl, List.mem_singleton.mpr rfl⟩)⟩

theorem lookupHere_binds (name : String) : Binds may (lookupHere name) :=
  .of_forest_eq (lookupHere_keepsCurrent name) fun _ => rfl

theorem newSerial_binds : Binds may newSerial :=
  .of_forest_eq newSerial_keepsCurrent fun _ => rfl

/-- A closure that is made is bound to nothing yet. -/
theorem newClosure_binds (fn : Closure) : Binds may (newClosure fn) :=
  newSerial_binds.bind fun _ => .pure _

theorem newInstance_binds : Binds may newInstance :=
  .of_forest_eq newInstance_keepsCurrent fun _ => rfl

/-- Fields are not in frames. -/
theorem writeField_binds (id : InstanceId) (name : String) (value : Value) :
    Binds may (writeField id name value) :=
  .of_forest_eq (writeField_keepsCurrent id name value) fun _ => rfl

/-- Reading a variable leaves all frames as they are. -/
theorem readVariable_binds (name : Token) : Binds may (readVariable name) := by
  refine (lookupHere_binds _).bind fun found => ?_
  cases found with
  | some value => exact .pure value
  | none => exact .fail _

/-- An assignment finds the name bound, or it fails. -/
theorem writeVariable_binds (name : Token) (value : Value) :
    Binds may (writeVariable name value) := by
  refine ⟨writeVariable_keepsCurrent name value, fun m => ?_⟩
  cases howner : m.forest.owner? m.current name.lexeme with
  | some owner =>
    rw [perform_snd_of_ok (writeVariable_of_some howner)]
    exact .define _ _ _ _ (.inl (Forest.local?_owner?_isSome howner))
  | none =>
    rw [perform_snd_of_error (writeVariable_of_none howner)]
    exact .refl _

/-- A bound method has a new frame for its receiver, and new frames may have any names. -/
theorem bind_binds (method : Closure) (receiver : Value) : Binds may (bind method receiver) := by
  refine .inNew fun frame => ?_
  refine ((define_binds frame _ _).mono fun _ _ _ h => .inl h.1).bind fun _ => ?_
  exact .pure _

/-- So reading a property binds nothing in the frames that were there. -/
theorem readProperty_binds (cls : Class) (id : InstanceId) (name : Token) :
    Binds may (readProperty cls id name) := by
  refine Binds.get.bind fun m => ?_
  split
  · exact .pure _
  · split
    · exact (bind_binds _ _).bind fun _ => newClosure_binds _
    · exact .fail _

theorem readSuper_binds (keyword method : Token) : Binds may (readSuper keyword method) := by
  refine (lookupHere_binds _).bind fun parent => ?_
  split
  · refine (lookupHere_binds _).bind fun receiver => ?_
    split
    · split
      · exact (bind_binds _ _).bind fun _ => newClosure_binds _
      · exact .fail _
    · exact .fail _
  · exact .fail _

/-- Functions of the host are handed values and no frames. -/
theorem callHost_binds (fn : HostFunction) (args : List Value) : Binds may (callHost fn args) := by
  refine Binds.get.bind fun m => ?_
  split
  · split
    · exact .pure _
    · exact .fail _
  · exact .pure _

/-- Printing leaves the frames alone. -/
theorem printLine_binds (text : String) : Binds may (printLine text) := by
  refine .of_forest_eq (printLine_keepsCurrent text) fun m => ?_
  have hrun : printLine text m
      = if m.sink.fits (text ++ "\n").utf8ByteSize then
          .ok () { m with sink := m.sink.write (text ++ "\n") }
        else .error (.failed (.output Sink.fullMessage))
          { m with sink := m.sink.write (text ++ "\n") } := rfl
  by_cases hfits : m.sink.fits (text ++ "\n").utf8ByteSize
  · rw [if_pos hfits] at hrun
    rw [perform_snd_of_ok hrun]
  · rw [if_neg hfits] at hrun
    rw [perform_snd_of_error hrun]

theorem flush_binds : Binds may flush := by
  refine Binds.get.bind fun m => ?_
  split
  · exact .fail _
  · exact .pure _

/-- Parameters are bound in the frame of the call, which was made for it. -/
theorem bindParameters_binds (frame : FrameId) (params : List Token) (args : List Value) :
    Binds (fun _ id _ => id = frame) (bindParameters frame params args) := by
  unfold bindParameters
  induction params.zip args with
  | nil => exact .pure _
  | cons pair rest ih =>
    exact ((define_binds _ _ _).mono fun _ _ _ h => h.1).bind fun _ => ih

/-- The name of a class is bound in the current frame; then it is only given
another value. -/
theorem declareClass_binds (decl : ClassDecl) (parent : Option Class) :
    Binds (here [decl.name.lexeme]) (declareClass decl parent) := by
  refine (defineHere_binds _ _).bind fun _ => ?_
  cases parent with
  | some parent =>
    refine Binds.get.bind fun _ => ?_
    refine .inNew fun frame => ?_
    refine ((define_binds frame _ _).mono fun _ _ _ h => .inl h.1).bind fun _ => ?_
    exact (Binds.pure _).bind fun _ => newSerial_binds.bind fun _ => writeVariable_binds _ _
  | none =>
    exact Binds.get.bind fun _ => (Binds.pure _).bind fun _ =>
      newSerial_binds.bind fun _ => writeVariable_binds _ _

end Steps

/-! ## The evaluator -/

/-- What the functions of the evaluator may bind, with one bound on their depth:
expressions and calls nothing, and statements what they declare. -/
structure BindsAt (fuel : Nat) : Prop where
  evaluate : ∀ expr, Binds nothing (evaluate fuel expr)
  evaluateEach : ∀ exprs, Binds nothing (evaluateEach fuel exprs)
  call : ∀ callee paren args, Binds nothing (call fuel callee paren args)
  invoke : ∀ callee args, Binds nothing (invoke fuel callee args)
  execute : ∀ stmt, Binds (here stmt.declared) (execute fuel stmt)
  executeEach : ∀ stmts, Binds (here (Stmt.declaredEach stmts)) (executeEach fuel stmts)
  repeatWhile : ∀ condition body, Binds (here body.declared) (repeatWhile fuel condition body)

/-- Where nothing is bound, anything may be allowed. -/
theorem Binds.of_nothing {α : Type} {may : FrameId → FrameId → String → Prop} {run : Run α}
    (h : Binds nothing run) : Binds may run :=
  h.mono fun _ _ _ => False.elim

/-- Names of a part are names of the whole. -/
theorem Binds.of_here {α : Type} {names names' : List String} {run : Run α}
    (h : Binds (here names) run) (hsub : ∀ name ∈ names, name ∈ names') : Binds (here names') run :=
  h.mono fun _ _ name hmay => ⟨hmay.1, hsub name hmay.2⟩

namespace BindsAt

/-- Without fuel nothing is bound. -/
theorem zero : BindsAt 0 where
  evaluate _ := .throw _
  evaluateEach _ := .throw _
  call _ _ _ := .throw _
  invoke _ _ := .throw _
  execute _ := .throw _
  executeEach _ := .throw _
  repeatWhile _ _ := .throw _

section Step

variable {fuel : Nat} (ih : BindsAt fuel)
include ih

/-- Expressions assign to names that are there, and declare none. -/
theorem evaluate_succ (expr : Expr) : Binds nothing (Machine.evaluate (fuel + 1) expr) := by
  cases expr with
  | literal value => exact .pure _
  | grouping inner => exact ih.evaluate inner
  | unary op operand => exact (ih.evaluate operand).bind fun _ => .liftExcept _
  | binary left op right =>
    exact (ih.evaluate left).bind fun _ => (ih.evaluate right).bind fun _ => .liftExcept _
  | logical left op right =>
    refine (ih.evaluate left).bind fun _ => (Binds.liftExcept _).bind fun short => ?_
    cases short with
    | true => exact .pure _
    | false => exact ih.evaluate right
  | «variable» name => exact readVariable_binds name
  | assign name value =>
    exact (ih.evaluate value).bind fun _ => (writeVariable_binds _ _).bind fun _ => .pure _
  | call callee paren args =>
    exact (ih.evaluate callee).bind fun _ => (ih.evaluateEach args).bind fun _ => ih.call _ _ _
  | get object name =>
    refine (ih.evaluate object).bind fun object => ?_
    cases object with
    | instanceOf cls id => exact readProperty_binds _ _ _
    | _ => exact .fail _
  | set object name value =>
    refine (ih.evaluate object).bind fun object => ?_
    cases object with
    | instanceOf cls id =>
      exact (ih.evaluate value).bind fun _ => (writeField_binds _ _ _).bind fun _ => .pure _
    | _ => exact .fail _
  | this keyword => exact readVariable_binds keyword
  | super keyword method => exact readSuper_binds keyword method

theorem evaluateEach_succ (exprs : List Expr) :
    Binds nothing (Machine.evaluateEach (fuel + 1) exprs) := by
  cases exprs with
  | nil => exact .pure _
  | cons expr rest =>
    exact (ih.evaluate expr).bind fun _ => (ih.evaluateEach rest).bind fun _ => .pure _

/-- A call checks its arguments, and binds nothing itself. -/
theorem call_succ (callee : Value) (paren : Token) (args : List Value) :
    Binds nothing (Machine.call (fuel + 1) callee paren args) := by
  unfold Machine.call Followed.call
  split
  · exact .fail _
  · split
    · exact ih.invoke _ _
    · exact .fail _

/-- A body runs in a new frame, so whatever it declares, and the parameters with
it, is bound where nothing was before. -/
theorem invoke_succ (callee : Callee) (args : List Value) :
    Binds nothing (Machine.invoke (fuel + 1) callee args) := by
  cases callee with
  | host fn => exact callHost_binds fn args
  | function fn =>
    refine .inNew fun frame => ?_
    refine ((bindParameters_binds frame _ _).mono fun _ _ _ h => .inl h).bind fun _ => ?_
    refine ((ih.executeEach fn.decl.body).within fun _ _ _ h => .inl h.1).bind fun completion => ?_
    split
    · exact Binds.get.bind fun _ => .pure _
    · cases completion with
      | normal => exact .pure _
      | returned value => exact .pure _
  | classRef cls =>
    refine newInstance_binds.bind fun id => ?_
    split
    · exact (bind_binds _ _).bind fun _ => (ih.invoke _ _).bind fun _ => .pure _
    · exact .pure _

/-- A statement binds what it declares. What is declared in a block is bound in the frame of the
block, which is new. -/
theorem execute_succ (stmt : Stmt) :
    Binds (here stmt.declared) (Machine.execute (fuel + 1) stmt) := by
  cases stmt with
  | expression expr => exact (ih.evaluate expr).of_nothing.bind fun _ => .pure _
  | print expr =>
    exact (ih.evaluate expr).of_nothing.bind fun _ => (printLine_binds _).bind fun _ => .pure _
  | varDecl name initializer =>
    cases initializer with
    | some expr =>
      exact (ih.evaluate expr).of_nothing.bind fun _ =>
        (defineHere_binds _ _).bind fun _ => .pure _
    | none =>
      exact (Binds.pure _).bind fun _ => (defineHere_binds _ _).bind fun _ => .pure _
  | block body =>
    -- the frame of a block did not exist before, so nothing is bound in an old one
    refine Binds.get.bind fun _ => ?_
    refine .inNew fun frame => ?_
    exact (ih.executeEach body).within fun _ _ _ h => .inl h.1
  | ifElse condition thenBranch elseBranch =>
    refine (ih.evaluate condition).of_nothing.bind fun value => ?_
    split
    -- a name in either branch may be bound by the whole
    · cases elseBranch with
      | none => exact ih.execute thenBranch
      | some elseBranch =>
        exact (ih.execute thenBranch).of_here fun _ => List.mem_append_left _
    · cases elseBranch with
      | none => exact .pure _
      | some elseBranch =>
        exact (ih.execute elseBranch).of_here fun _ => List.mem_append_right _
  | whileLoop condition body => exact ih.repeatWhile condition body
  | funDecl decl =>
    exact Binds.get.bind fun _ => (newClosure_binds _).bind fun _ =>
      (defineHere_binds _ _).bind fun _ => .pure _
  | returnStmt keyword value =>
    cases value with
    | some expr => exact (ih.evaluate expr).of_nothing.bind fun _ => .pure _
    | none => exact .pure _
  | classDecl decl =>
    obtain ⟨name, superclass, methods⟩ := decl
    cases superclass with
    | none => exact (declareClass_binds _ _).bind fun _ => .pure _
    | some superclass =>
      refine (ih.evaluate superclass).of_nothing.bind fun value => ?_
      cases value with
      | classRef parent => exact (declareClass_binds _ _).bind fun _ => .pure _
      | _ => exact .fail _

/-- Statements in a row bind what they declare. -/
theorem executeEach_succ (stmts : List Stmt) :
    Binds (here (Stmt.declaredEach stmts)) (Machine.executeEach (fuel + 1) stmts) := by
  cases stmts with
  | nil => exact .pure _
  | cons stmt rest =>
    have hfirst : Binds (here (Stmt.declaredEach (stmt :: rest))) (Machine.execute fuel stmt) :=
      (ih.execute stmt).of_here fun _ => List.mem_append_left _
    refine hfirst.bind fun completion => ?_
    cases completion with
    | normal => exact (ih.executeEach rest).of_here fun _ => List.mem_append_right _
    | returned value => exact .pure _

/-- The rounds of a loop all declare the same names. -/
theorem repeatWhile_succ (condition : Expr) (body : Stmt) :
    Binds (here body.declared) (Machine.repeatWhile (fuel + 1) condition body) := by
  refine (ih.evaluate condition).of_nothing.bind fun value => ?_
  split
  · refine (ih.execute body).bind fun completion => ?_
    cases completion with
    | normal => exact ih.repeatWhile condition body
    | returned value => exact .pure _
  · exact .pure _

/-- Together they bind no more with one unit more of the bound. -/
theorem succ : BindsAt (fuel + 1) where
  evaluate := ih.evaluate_succ
  evaluateEach := ih.evaluateEach_succ
  call := ih.call_succ
  invoke := ih.invoke_succ
  execute := ih.execute_succ
  executeEach := ih.executeEach_succ
  repeatWhile := ih.repeatWhile_succ

end Step

protected theorem all (fuel : Nat) : BindsAt fuel := by
  induction fuel with
  | zero => exact zero
  | succ fuel ih => exact ih.succ

end BindsAt

/-- Statements that are run in a frame bind what they declare in that frame. -/
theorem executeIn_binds (fuel : Nat) (frame : FrameId) (stmts : List Stmt) :
    Binds (fun _ id name => id = frame ∧ name ∈ Stmt.declaredEach stmts)
      (executeIn fuel frame stmts) :=
  ((BindsAt.all fuel).executeEach stmts).within fun _ _ _ h => h

/-- A program binds what it declares in the current frame. -/
theorem runProgram_binds (fuel : Nat) (stmts : List Stmt) :
    Binds (here (Stmt.declaredEach stmts)) (runProgram fuel stmts) := by
  induction stmts with
  | nil => exact flush_binds
  | cons stmt rest ih =>
    have hfirst : Binds (here (Stmt.declaredEach (stmt :: rest))) (execute fuel stmt) :=
      ((BindsAt.all fuel).execute stmt).of_here fun _ => List.mem_append_left _
    exact hfirst.bind fun _ => ih.of_here fun _ => List.mem_append_right _

/-! ## Sessions -/

/-- The names that a request may add, and the frames it may add them to. A host
that defines something says itself what and where. -/
def Request.mayBind (current : FrameId) : Request → FrameId → String → Prop
  | .interpret stmts => here (Stmt.declaredEach stmts) current
  | .execute stmt => here stmt.declared current
  | .executeIn frame stmts => here (Stmt.declaredEach stmts) frame
  | .evaluate _ | .invoke _ _ | .frameInside _ | .takeOutput => nothing current
  | .define frame name _ => here [name] frame
  | .defineHost name _ _ => here [name] globals

/-- A request lets the frames grow by the names that it may bind. -/
theorem serve_grows (m : Machine) (fuel : Nat) (request : Request) :
    m.forest.Grows (request.mayBind m.current) (m.serve fuel request).forest := by
  have all := BindsAt.all fuel
  cases request with
  | interpret stmts => exact (runProgram_binds fuel stmts).forest m
  | execute stmt => exact (all.execute stmt).forest m
  | executeIn frame stmts => exact (executeIn_binds fuel frame stmts).forest m
  | evaluate expr => exact (all.evaluate expr).forest m
  | invoke callee args => exact (all.invoke callee args).forest m
  | frameInside parent => exact .push _ _
  | define frame name value =>
    exact .define _ _ _ _ (.inr ⟨rfl, List.mem_singleton.mpr rfl⟩)
  | defineHost name arity body =>
    exact .define _ _ _ _ (.inr ⟨rfl, List.mem_singleton.mpr rfl⟩)
  | takeOutput => exact .refl _

/-- Through a whole session no frame loses a name or its place. -/
theorem serveAll_grows (m : Machine) (session : List (Nat × Request)) :
    m.forest.Grows (fun _ _ => True) (m.serveAll session).forest := by
  induction session generalizing m with
  | nil => exact .refl _
  | cons step rest ih =>
    have hfirst : m.forest.Grows (fun _ _ => True) (m.serve step.1 step.2).forest :=
      (serve_grows m step.1 step.2).mono fun _ _ _ _ => trivial
    exact hfirst.trans (ih (m.serve step.1 step.2))

/-- **Who may bind names.** Whatever the machine is and however the work ends, in
the frames that were there before evaluating an expression and calling a value
bind nothing. Running statements binds names only in the frame they run in, and
only names that they declare outside of blocks and bodies of functions. No frame
ever loses a name or comes to stand inside other frames. -/
theorem bindings_after_work :
    (∀ fuel (m : Machine) expr, m.forest.Grows (fun _ _ => False) (perform (evaluate fuel expr) m).2.forest) ∧
    (∀ fuel (m : Machine) callee paren args,
      m.forest.Grows (fun _ _ => False) (perform (call fuel callee paren args) m).2.forest) ∧
    (∀ fuel (m : Machine) callee args,
      m.forest.Grows (fun _ _ => False) (perform (invoke fuel callee args) m).2.forest) ∧
    (∀ fuel (m : Machine) stmt, m.forest.Grows (fun id name => id = m.current ∧ name ∈ stmt.declared)
      (perform (execute fuel stmt) m).2.forest) ∧
    (∀ fuel (m : Machine) frame stmts,
      m.forest.Grows (fun id name => id = frame ∧ name ∈ Stmt.declaredEach stmts)
        (perform (executeIn fuel frame stmts) m).2.forest) ∧
    (∀ (m : Machine) fuel request,
      m.forest.Grows (Request.mayBind m.current request) (m.serve fuel request).forest) ∧
    ∀ (m : Machine) session, m.forest.Grows (fun _ _ => True) (m.serveAll session).forest := by
  refine ⟨fun fuel m expr => ?_, fun fuel m callee paren args => ?_, fun fuel m callee args => ?_,
    fun fuel m stmt => ?_, fun fuel m frame stmts => ?_, serve_grows, serveAll_grows⟩
  · exact ((BindsAt.all fuel).evaluate expr).forest m
  · exact ((BindsAt.all fuel).call callee paren args).forest m
  · exact ((BindsAt.all fuel).invoke callee args).forest m
  · exact ((BindsAt.all fuel).execute stmt).forest m
  · exact (executeIn_binds fuel frame stmts).forest m

end Machine

end Lox
