/-
`Lox.Machine.Evaluate` -- running trees.

Expressions, statements and calls are run by functions that call one another.
Each is given a bound on its depth and hands a smaller one on; a loop counts its
rounds as depth. A run that ends with a large enough bound ends in the same way
with every larger one.

The functions are written for any state that a machine is part of, and are handed
what to do with it (`Followed`). So a run can be followed from outside, event by event
and step by step, without being written down again. Programs are run by a machine
alone, with nobody to follow.

The only place where the current frame changes is `Machine.within`, which sets
it back however the run inside it ends.
-/
import Lox.Machine.Operator
import Lox.Machine.State

set_option autoImplicit false

namespace Lox.Machine

/-! ## Preparations that run nothing -/

/-- Binds the parameters of a function in a frame, in order. -/
def bindParameters (frame : FrameId) (params : List Token) (args : List Value) : Run Unit :=
  (params.zip args).forM fun (param, arg) => define frame param.lexeme arg

/-- The method table of a class whose methods are closed over a frame. Of two
methods of one name the later one counts. -/
def methodTable (frame : FrameId) (methods : List FunctionDecl) : Table Closure :=
  methods.foldl
    (fun table decl => table.insert decl.name.lexeme ⟨decl, frame, decl.name.lexeme == "init"⟩)
    .empty

/-- The token that is to blame if a superclass is none. -/
def superclassToken (decl : ClassDecl) (superclass : Expr) : Token :=
  match superclass with
  | .variable name => name
  | _ => decl.name

/-- Declares a class whose superclass, if any, has been found. The name is bound
first, and the methods of a class with a superclass are closed over a frame in
which `super` is that class. -/
def declareClass (decl : ClassDecl) (parent : Option Class) : Run Unit := do
  defineHere decl.name.lexeme .nil
  let methodFrame ← match parent with
    | some parent =>
      let frame ← newFrame (← get).current
      define frame "super" (.classRef parent)
      pure frame
    | none => pure (← get).current
  let own : ClassBody := ⟨← newSerial, decl.name.lexeme, methodTable methodFrame decl.methods⟩
  let ancestors := match parent with
    | some parent => parent.lineage
    | none => []
  writeVariable decl.name (.classRef ⟨own, ancestors⟩)

/-- What can be called, and how many arguments it takes. -/
inductive Callee where
  | function (fn : Closure)
  | host (fn : HostFunction)
  | classRef (cls : Class)

/-- The callee that a value is. -/
def Callee.ofValue? : Value → Option Callee
  | .function _ fn => some (.function fn)
  | .host fn => some (.host fn)
  | .classRef cls => some (.classRef cls)
  | _ => none

/-- The number of arguments that a callee takes. -/
def Callee.arity : Callee → Nat
  | function fn => fn.arity
  | host fn => fn.arity
  | classRef cls => cls.arity

/-! ## Runs that are followed -/

/-- What happens in a run. -/
inductive Event where
  /-- An expression is about to be evaluated. -/
  | evaluates (expr : Expr)
  | executes (stmt : Stmt)
  | calls (callee : Callee) (args : List Value)
  /-- A frame for a block, or for the body of a function, is about to be created. -/
  | enters (parent : FrameId)
  /-- A method of a class is about to be given an instance of it as its receiver, if
  there is one of this name and no field hides it. -/
  | selects (cls : Class) (id : InstanceId) (name : String)
  /-- A method is about to be looked for in the class that `super` stands for. -/
  | defers (method : Token)
  /-- A class is about to be declared whose superclass, if any, has been found. -/
  | declares (decl : ClassDecl) (parent : Option Class)
  /-- A step of the machine is done. -/
  | stepped

namespace Followed

section

-- a state, the machine in it, and what is done with them: a step of the machine, and a run
-- within another frame
variable {S : Type} (machine : S → Machine) (step : {α : Type} → Run α → EStateM Halt S α)
  (within : {α : Type} → FrameId → EStateM Halt S α → EStateM Halt S α)
-- what is done before something happens, and before a variable is looked up
variable (tell : {α : Type} → Event → EStateM Halt S α → EStateM Halt S α)
  (sight : {α : Type} → Token → EStateM Halt S α → EStateM Halt S α)

mutual

/-- The value of an expression. -/
@[specialize]
def evaluate (fuel : Nat) (expr : Expr) : EStateM Halt S Value :=
  match fuel with
  | 0 => throw .outOfFuel
  | fuel + 1 => tell (.evaluates expr) <|
    match expr with
    | .literal value => return value.toValue
    | .grouping inner => evaluate fuel inner
    | .unary op operand => do
      let operand ← evaluate fuel operand
      step (liftExcept (unaryResult op operand))
    | .binary left op right => do
      let left ← evaluate fuel left
      let right ← evaluate fuel right
      step (liftExcept (binaryResult op left right))
    | .logical left op right => do
      let left ← evaluate fuel left
      if ← step (liftExcept (shortCircuits op left)) then return left else evaluate fuel right
    | .variable name => sight name (step (readVariable name))
    | .assign name value => do
      let value ← evaluate fuel value
      sight name do
        step (writeVariable name value)
        return value
    | .call callee paren args => do
      let callee ← evaluate fuel callee
      let args ← evaluateEach fuel args
      call fuel callee paren args
    | .get object name => do
      match ← evaluate fuel object with
      | .instanceOf cls id => tell (.selects cls id name.lexeme) (step (readProperty cls id name))
      | _ => step (fail (.notAnInstance name .read))
    | .set object name value => do
      -- the value of a field is evaluated only if there is an instance to hold it
      match ← evaluate fuel object with
      | .instanceOf _ id =>
        let value ← evaluate fuel value
        step (writeField id name.lexeme value)
        return value
      | _ => step (fail (.notAnInstance name .write))
    | .this keyword => step (readVariable keyword)
    | .super keyword method => tell (.defers method) (step (readSuper keyword method))

/-- The values of some expressions, in order. -/
@[specialize]
def evaluateEach (fuel : Nat) (exprs : List Expr) : EStateM Halt S (List Value) :=
  match fuel with
  | 0 => throw .outOfFuel
  | fuel + 1 =>
    match exprs with
    | [] => return []
    | expr :: rest => do
      let value ← evaluate fuel expr
      return value :: (← evaluateEach fuel rest)

/-- The result of calling a value. What it is, is looked at only now that the
arguments have been evaluated. -/
@[specialize]
def call (fuel : Nat) (callee : Value) (paren : Token) (args : List Value) :
    EStateM Halt S Value :=
  match fuel with
  | 0 => throw .outOfFuel
  | fuel + 1 =>
    match Callee.ofValue? callee with
    | none => step (fail (.notCallable paren))
    | some callee =>
      if args.length = callee.arity then invoke fuel callee args
      else step (fail (.arity paren callee.arity args.length))

/-- The result of calling with the right number of arguments. A class creates an
instance and runs its initializer, whose result is of no account. -/
@[specialize]
def invoke (fuel : Nat) (callee : Callee) (args : List Value) : EStateM Halt S Value :=
  match fuel with
  | 0 => throw .outOfFuel
  | fuel + 1 => tell (.calls callee args) <|
    match callee with
    | .host fn => step (callHost fn args)
    | .function fn => tell (.enters fn.frame) do
      let frame ← step (newFrame fn.frame)
      step (bindParameters frame fn.decl.params args)
      let completion ← within frame (executeEach fuel fn.decl.body)
      -- the instance is looked up only now, in the frame around the one of the call
      if fn.isInitializer then
        return ((machine (← get)).forest.lookup fn.frame "this").getD .nil
      else
        match completion with
        | .returned value => return value
        | .normal => return .nil
    | .classRef cls => do
      let id ← step newInstance
      match cls.findMethod? "init" with
      | some init => tell (.selects cls id "init") do
        let init ← step (bind init (.instanceOf cls id))
        let _ ← invoke fuel (.function init) args
        return .instanceOf cls id
      | none => return .instanceOf cls id

/-- Runs a statement. -/
@[specialize]
def execute (fuel : Nat) (stmt : Stmt) : EStateM Halt S Completion :=
  match fuel with
  | 0 => throw .outOfFuel
  | fuel + 1 => tell (.executes stmt) <|
    match stmt with
    | .expression expr => do
      let _ ← evaluate fuel expr
      return .normal
    | .print expr => do
      let value ← evaluate fuel expr
      step (printLine value.display)
      return .normal
    | .varDecl name initializer => do
      let value ← match initializer with
        | some expr => evaluate fuel expr
        | none => pure .nil
      step (defineHere name.lexeme value)
      return .normal
    | .block body => do
      let parent := (machine (← get)).current
      tell (.enters parent) do
        let frame ← step (newFrame parent)
        within frame (executeEach fuel body)
    | .ifElse condition thenBranch elseBranch => do
      let value ← evaluate fuel condition
      if value.isTruthy then execute fuel thenBranch
      else match elseBranch with
        | some elseBranch => execute fuel elseBranch
        | none => return .normal
    | .whileLoop condition body => repeatWhile fuel condition body
    | .funDecl decl => do
      let value ← step (newClosure ⟨decl, (machine (← get)).current, false⟩)
      step (defineHere decl.name.lexeme value)
      return .normal
    | .returnStmt _ value => do
      match value with
      | some expr => return .returned (← evaluate fuel expr)
      | none => return .returned .nil
    | .classDecl decl => do
      match decl.superclass with
      | none => tell (.declares decl none) do
        step (declareClass decl none)
        return .normal
      | some superclass =>
        match ← evaluate fuel superclass with
        | .classRef parent => tell (.declares decl (some parent)) do
          step (declareClass decl (some parent))
          return .normal
        | _ => step (fail (.superclassNotClass (superclassToken decl superclass)))

/-- Runs statements in order, up to one that returns. -/
@[specialize]
def executeEach (fuel : Nat) (stmts : List Stmt) : EStateM Halt S Completion :=
  match fuel with
  | 0 => throw .outOfFuel
  | fuel + 1 =>
    match stmts with
    | [] => return .normal
    | stmt :: rest => do
      match ← execute fuel stmt with
      | .normal => executeEach fuel rest
      | .returned value => return .returned value

/-- Runs a statement as long as a condition holds, or until it returns. -/
@[specialize]
def repeatWhile (fuel : Nat) (condition : Expr) (body : Stmt) : EStateM Halt S Completion :=
  match fuel with
  | 0 => throw .outOfFuel
  | fuel + 1 => do
    let value ← evaluate fuel condition
    if value.isTruthy then
      match ← execute fuel body with
      | .normal => repeatWhile fuel condition body
      | .returned value => return .returned value
    else return .normal

end

/-- Runs a program: its statements in order, up to the first failure. A returned
value ends only its own statement. A program that comes to its end hands on what
it printed. -/
@[specialize]
def runProgram (fuel : Nat) : List Stmt → EStateM Halt S Unit
  | [] => step flush
  | stmt :: rest => do
    let _ ← execute machine step within tell sight fuel stmt
    runProgram fuel rest

end

end Followed

/-! ## Running -/

/-- The value of an expression. -/
def evaluate (fuel : Nat) (expr : Expr) : Run Value :=
  Followed.evaluate (fun m => m) (fun run => run) within (fun _ run => run)
    (fun _ run => run) fuel expr

/-- The values of some expressions, in order. -/
def evaluateEach (fuel : Nat) (exprs : List Expr) : Run (List Value) :=
  Followed.evaluateEach (fun m => m) (fun run => run) within (fun _ run => run)
    (fun _ run => run) fuel exprs

/-- The result of calling a value. -/
def call (fuel : Nat) (callee : Value) (paren : Token) (args : List Value) : Run Value :=
  Followed.call (fun m => m) (fun run => run) within (fun _ run => run)
    (fun _ run => run) fuel callee paren args

/-- The result of calling with the right number of arguments. -/
def invoke (fuel : Nat) (callee : Callee) (args : List Value) : Run Value :=
  Followed.invoke (fun m => m) (fun run => run) within (fun _ run => run)
    (fun _ run => run) fuel callee args

/-- Runs a statement. -/
def execute (fuel : Nat) (stmt : Stmt) : Run Completion :=
  Followed.execute (fun m => m) (fun run => run) within (fun _ run => run)
    (fun _ run => run) fuel stmt

/-- Runs statements in order, up to one that returns. -/
def executeEach (fuel : Nat) (stmts : List Stmt) : Run Completion :=
  Followed.executeEach (fun m => m) (fun run => run) within (fun _ run => run)
    (fun _ run => run) fuel stmts

/-- Runs a statement as long as a condition holds, or until it returns. -/
def repeatWhile (fuel : Nat) (condition : Expr) (body : Stmt) : Run Completion :=
  Followed.repeatWhile (fun m => m) (fun run => run) within (fun _ run => run)
    (fun _ run => run) fuel condition body

/-- Runs statements in order, in a frame of their own choice. -/
def executeIn (fuel : Nat) (frame : FrameId) (stmts : List Stmt) : Run Completion :=
  within frame (executeEach fuel stmts)

/-- Runs a program: its statements in order, up to the first failure. -/
def runProgram (fuel : Nat) (stmts : List Stmt) : Run Unit :=
  Followed.runProgram (fun m => m) (fun run => run) within (fun _ run => run)
    (fun _ run => run) fuel stmts

end Lox.Machine
