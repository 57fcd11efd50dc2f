/-
`Lox.Proofs.Loop.Variable` -- the names that the parts of a loop see.

The initializer of a loop is run in a new frame. In that same frame condition, body and
increment take turns, as often as it goes on, and none of them binds anything in it if the
body declares nothing. So throughout a loop its variable is one and the same binding, and
the increment sees what the initializer has declared, but nothing of the body.

A block that is the body is run in a frame which was not there before. It stays when the
block is over, and therefore the next round has another one.
-/
import Lox.Proofs.Loop.Direct
import Lox.Proofs.Loop.Whole

set_option autoImplicit false

namespace Lox

/-- A frame that has a name is the nearest one that has it. -/
theorem Forest.owner?_of_local? {α : Type} {f : Forest α} {id : FrameId} {name : String}
    (h : (f.local? id name).isSome) : f.owner? id name = some id :=
  List.find?_cons_of_pos h

namespace Machine

/-- The machine in a new frame inside of its current one. -/
def entered (m : Machine) : Machine :=
  { m with forest := m.forest.addChild m.current, current := m.forest.next }

/-- The machine with which the rounds of a loop begin, from the one before the loop. -/
inductive Opened (m : Machine) : Option Stmt → Machine → Prop where
  | without : Opened m none m
  | behind {fuel : Nat} {first : Stmt} {l : Machine} :
    execute fuel first m.entered = .ok .normal l → Opened m (some first) l

/-- The machines that can come about while the parts of a loop take turns. -/
inductive Turns (condition increment : Option Expr) (body : Stmt) (l : Machine) :
    Machine → Prop where
  | begin : Turns condition increment body l l
  | condition {fuel : Nat} {l' : Machine} : Turns condition increment body l l' →
    Turns condition increment body l (l'.perform (goesOn fuel condition)).2
  | body {fuel : Nat} {l' : Machine} : Turns condition increment body l l' →
    Turns condition increment body l (l'.perform (execute fuel body)).2
  | increment {fuel : Nat} {step : Expr} {l' : Machine} : Turns condition increment body l l' →
    step ∈ increment → Turns condition increment body l (l'.perform (evaluate fuel step)).2

variable {m l l' : Machine} {initializer : Option Stmt} {condition increment : Option Expr}
  {body : Stmt} {fuel : Nat}

/-! ## The beginning -/

/-- A new frame refers to nothing outside of the machine. -/
theorem entered_whole (hm : m.Whole) : m.entered.Whole := by
  have hadded : (m.serve 0 (.frameInside m.current)).Whole := serve_whole hm 0 hm.current
  exact hadded.inFrame (Forest.present_addChild.mpr (.inr rfl))

/-- So the rounds begin with a machine that refers to its own frames only. -/
theorem Opened.whole (h : Opened m initializer l) (hm : m.Whole) : l.Whole := by
  cases h with
  | without => exact hm
  | @behind fuel first _ hrun =>
    have hentered := entered_whole hm
    have hafter := hentered.perform
      ((InStepAt.all fuel).execute first (hentered.pairs_current.admits _))
    rwa [perform_snd_of_ok hrun] at hafter

/-- A variable gets its value, which binds nothing, and is then bound. -/
theorem execute_varDecl (fuel : Nat) (name : Token) (value : Option Expr) :
    ∃ first : Run Value, Binds nothing first ∧ execute (fuel + 1) (.varDecl name value) = do
      let value ← first
      defineHere name.lexeme value
      return .normal := by
  cases value with
  | none => exact ⟨pure .nil, .pure _, rfl⟩
  | some expr => exact ⟨evaluate fuel expr, (BindsAt.all fuel).evaluate expr, rfl⟩

/-- The variable of a loop is bound in the frame that is made for it. -/
theorem Opened.owner?_variable {name : Token} {value : Option Expr}
    (h : Opened m (some (.varDecl name value)) l) :
    l.current = m.forest.next ∧ l.forest.owner? l.current name.lexeme = some l.current := by
  obtain @⟨⟩ | @⟨fuel, _, _, hrun⟩ := h
  rcases fuel with _ | fuel
  · cases hrun
  obtain ⟨first, hfirst, hexecute⟩ := execute_varDecl fuel name value
  rw [hexecute] at hrun
  obtain ⟨given, m₁, hvalue, hrest⟩ := bind_eq_ok hrun
  have hcurrent : m₁.current = m.forest.next := hfirst.current.current_of_ok hvalue
  have hgrows := hfirst.forest m.entered
  rw [perform_snd_of_ok hvalue] at hgrows
  obtain ⟨frame, hframe, -⟩ := hgrows m.forest.next _ Forest.frame?_addChild_next
  cases hrest
  refine ⟨hcurrent, Forest.owner?_of_local? ?_⟩
  show ((m₁.forest.define m₁.current name.lexeme given).local? m₁.current name.lexeme).isSome
  rw [hcurrent, Forest.local?_define hframe, if_pos ⟨rfl, rfl⟩]
  rfl

/-! ## The turns -/

/-- Looking at the condition binds nothing in the frame. -/
theorem goesOn_binds : Binds nothing (goesOn fuel condition) := by
  cases condition with
  | none => exact .pure true
  | some expr => exact ((BindsAt.all fuel).evaluate expr).bind fun _ => .pure _

/-- A body that declares nothing leaves the names of the loop's frame as they are. -/
theorem body_binds (hbody : body.declared = []) : Binds nothing (execute fuel body) :=
  ((BindsAt.all fuel).execute body).mono fun _ _ _ hmay => by
    rw [hbody] at hmay
    cases hmay.2

namespace Turns

/-- No turn leaves its frame or binds anything in a frame that was there before. -/
theorem grows (h : Turns condition increment body l l') (hbody : body.declared = []) :
    l'.current = l.current ∧ l.forest.Grows (fun _ _ => False) l'.forest := by
  have hturn : ∀ {α : Type} {x : Run α} {l' : Machine}, Binds nothing x →
      l'.current = l.current ∧ l.forest.Grows (fun _ _ => False) l'.forest →
      (l'.perform x).2.current = l.current ∧
        l.forest.Grows (fun _ _ => False) (l'.perform x).2.forest :=
    fun hx h => ⟨(hx.current _).trans h.1, h.2.trans (hx.forest _)⟩
  induction h with
  | begin => exact ⟨rfl, .refl _⟩
  | condition _ ih => exact hturn goesOn_binds ih
  | body _ ih => exact hturn (body_binds hbody) ih
  | increment _ _ ih => exact hturn ((BindsAt.all _).evaluate _) ih

/-- Whatever is looked up in the loop is found in one and the same frame in all rounds. -/
theorem owner?_eq (h : Turns condition increment body l l') (hbody : body.declared = [])
    (hl : l.Whole) (name : String) :
    l'.forest.owner? l'.current name = l.forest.owner? l.current name := by
  obtain ⟨hcurrent, hgrows⟩ := h.grows hbody
  rw [hcurrent]
  exact hgrows.owner?_eq hl.chain_present name

end Turns

/-! ## Blocks -/

/-- A block is run in a frame that was not there before, and that stays. -/
theorem execute_block_next (stmts : List Stmt) (m : Machine) :
    execute (fuel + 1) (.block stmts) m =
      within m.forest.next (executeEach fuel stmts)
        { m with forest := m.forest.addChild m.current } ∧
    ¬ m.forest.Present m.forest.next ∧
    (m.perform (execute (fuel + 1) (.block stmts))).2.forest.Present m.forest.next := by
  refine ⟨rfl, fun hnext => hnext.ne_next rfl, ?_⟩
  have hgrows := ((BindsAt.all fuel).executeEach stmts).forest m.entered
  obtain ⟨frame, hframe, -⟩ := hgrows m.forest.next _ Forest.frame?_addChild_next
  have hsame : (m.perform (execute (fuel + 1) (.block stmts))).2 =
      (Machine.perform (within m.forest.next (executeEach fuel stmts))
        { m with forest := m.forest.addChild m.current }).2 := rfl
  rw [hsame, perform_within_snd]
  exact ⟨frame, hframe⟩

end Machine

end Lox
