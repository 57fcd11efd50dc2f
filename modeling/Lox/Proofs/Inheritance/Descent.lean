/-
`Lox.Proofs.Inheritance.Descent` -- runs in which all classes descend.

A class inherits from one that was there before it, so its own number is higher. That is
kept by every step of a machine: all values that it holds are classes, or instances of
classes, that descend below the next number to be given out (`Machine.Descending`), and what
an expression evaluates to is such a value, too. Along with it goes that the current frame
exists, for a class is declared in the frame that is current then.

Nothing is asked of the statements that are run, and of functions only that those of the
host make no classes by themselves.
-/
import Lox.Proofs.Inheritance.Lineage
import Lox.Proofs.Machine.Story
import Lox.Proofs.Method.Step

set_option autoImplicit false

namespace Lox

/-! ## Values -/

/-- The class that a value is, or is an instance of. -/
def Value.class? : Value → Option Class
  | .classRef cls | .instanceOf cls _ => some cls
  | _ => none

/-- The class of a value, if any, descends below the next number. -/
def Value.Descends (m : Machine) (value : Value) : Prop :=
  ∀ cls ∈ value.class?, cls.Descends m.nextSerial

/-- What a statement returns is such a value. -/
def Completion.Descends (m : Machine) : Completion → Prop
  | .normal => True
  | .returned value => value.Descends m

/-- A value that is no class and no instance has nothing to descend. -/
theorem Value.Descends.of_none {m : Machine} {value : Value} (h : value.class? = none) :
    value.Descends m := by
  intro cls hcls
  rw [h] at hcls
  cases hcls

/-- Plain values are such values. -/
theorem Value.Plain.class?_eq {value : Value} (h : value.Plain) : value.class? = none := by
  cases value with
  | function serial fn => exact h.elim
  | classRef cls => exact h.elim
  | instanceOf cls id => exact h.elim
  | _ => rfl

/-! ### With a higher number -/

section Later

variable {m m' : Machine} (hserial : m.nextSerial ≤ m'.nextSerial)
include hserial

/-- Numbers are never taken back, so what descends goes on to do so. -/
theorem Value.Descends.later {value : Value} (h : value.Descends m) : value.Descends m' :=
  fun cls hcls => (h cls hcls).mono hserial

end Later

namespace Machine

/-- What is called, if it is a class, descends below the next number. -/
def Callee.Descends (m : Machine) : Callee → Prop
  | .classRef cls => cls.Descends m.nextSerial
  | .function _ | .host _ => True

/-- A value that can be called is called as the class that it is. -/
theorem Callee.ofValue?_descends {m : Machine} {value : Value} {callee : Callee}
    (h : Callee.ofValue? value = some callee) (hvalue : value.Descends m) : callee.Descends m := by
  cases value <;> cases h
  · trivial
  · trivial
  · exact hvalue _ rfl

/-- A function of the host makes no classes: each one that it returns it was given, or it
descends already. -/
def HostBody.Descends (m : Machine) (body : HostBody) : Prop :=
  ∀ args value, body args = .ok value → ∀ cls ∈ value.class?,
    (∃ arg ∈ args, ∃ given ∈ arg.class?, cls.lineage <:+ given.lineage) ∨
      cls.Descends m.nextSerial

/-! ## Machines -/

/-- The machine holds the class, or an instance of it. -/
def HasClass (m : Machine) (cls : Class) : Prop :=
  ∃ value, m.Holds value ∧ value.class? = some cls

/-- All classes in the machine descend below the next number, and the current frame
exists. -/
structure Descending (m : Machine) : Prop where
  current : m.forest.Present m.current
  values : ∀ value, m.Holds value → value.Descends m
  hosts : ∀ (i : Nat) (body : HostBody), m.hosts[i]? = some body → HostBody.Descends m body

/-- The second machine is a later one, in the same frame. -/
structure Advances (m m' : Machine) : Prop where
  descending : m'.Descending
  present : ∀ {id}, m.forest.Present id → m'.forest.Present id
  current : m'.current = m.current
  serial : m.nextSerial ≤ m'.nextSerial

variable {m m' m'' : Machine} {value : Value} {id parent : FrameId} {name : String}

/-- A machine later than a later one is later. -/
theorem Advances.trans (h : m.Advances m') (h' : m'.Advances m'') : m.Advances m'' :=
  ⟨h'.descending, fun hid => h'.present (h.present hid), h'.current.trans h.current,
    Nat.le_trans h.serial h'.serial⟩

namespace Descending

/-- A machine is no earlier than itself. -/
protected theorem refl (h : m.Descending) : m.Advances m :=
  ⟨h, id, rfl, Nat.le_refl _⟩

/-- The classes that it holds descend below its next number. -/
theorem hasClass {cls : Class} (h : m.Descending) (hcls : m.HasClass cls) :
    cls.Descends m.nextSerial := by
  obtain ⟨value, hheld, hclass⟩ := hcls
  exact h.values value hheld cls hclass

/-- What has to be seen of a later machine. -/
theorem advances (h : m.Descending) (hpresent : ∀ {id}, m.forest.Present id → m'.forest.Present id)
    (hcurrent : m'.current = m.current) (hserial : m.nextSerial ≤ m'.nextSerial)
    (hvalues : ∀ value, m'.Holds value → m.Holds value ∨ value.Descends m')
    (hhosts : m'.hosts = m.hosts) : m.Advances m' := by
  refine ⟨⟨hcurrent ▸ hpresent h.current, fun value hvalue => ?_, fun i body hbody => ?_⟩,
    hpresent, hcurrent, hserial⟩
  · exact (hvalues value hvalue).elim (fun hold => (h.values value hold).later hserial) id
  · rw [hhosts] at hbody
    exact fun args value hresult cls hcls =>
      (h.hosts i body hbody args value hresult cls hcls).imp_right (·.mono hserial)

/-- A step that leaves the frames and the fields alone. -/
theorem congr (h : m.Descending) (hforest : m'.forest = m.forest) (hfields : m'.fields = m.fields)
    (hhosts : m'.hosts = m.hosts) (hcurrent : m'.current = m.current)
    (hserial : m.nextSerial ≤ m'.nextSerial) : m.Advances m' := by
  refine h.advances (fun hid => hforest ▸ hid) hcurrent hserial (fun value hvalue => .inl ?_) hhosts
  cases hvalue with
  | name hlocal => exact .name (hforest ▸ hlocal)
  | field htable hfind => exact .field (hfields ▸ htable) hfind

/-- Binding a value that descends keeps what is known of the machine. -/
theorem define (h : m.Descending) (hvalue : value.Descends m) :
    m.Advances { m with forest := m.forest.define id name value } := by
  refine h.advances Forest.present_define.mpr rfl (Nat.le_refl _) (fun held hheld => ?_) rfl
  cases hheld with
  | name hlocal =>
    rcases Forest.local?_define_cases hlocal with ⟨-, -, rfl⟩ | hlocal
    · exact .inr hvalue
    · exact .inl (.name hlocal)
  | field htable hfind => exact .inl (.field htable hfind)

theorem addChild (h : m.Descending) :
    m.Advances { m with forest := m.forest.addChild parent } := by
  refine h.advances (fun hid => Forest.present_addChild.mpr (.inl hid)) rfl (Nat.le_refl _)
    (fun held hheld => .inl ?_) rfl
  cases hheld with
  | name hlocal => exact .name (Forest.local?_addChild.symm.trans hlocal)
  | field htable hfind => exact .field htable hfind

/-- So does a new frame that has a value in it. -/
theorem addWith (h : m.Descending) (hvalue : value.Descends m) :
    m.Advances { m with forest := m.forest.addWith parent name value } :=
  h.addChild.trans (h.addChild.descending.define hvalue)

/-- Other fields, with values that the machine holds or that descend. -/
theorem withFields {fields : Array (Table Value)} (h : m.Descending)
    (hfields : ∀ (i : Nat) (table : Table Value), fields[i]? = some table →
      ∀ name value, table.find? name = some value → m.Holds value ∨ value.Descends m) :
    m.Advances { m with fields } := by
  refine h.advances id rfl (Nat.le_refl _) (fun held hheld => ?_) rfl
  cases hheld with
  | name hlocal => exact .inl (.name hlocal)
  | field htable hfind => exact hfields _ _ htable _ _ hfind

end Descending

/-! ## Steps -/

/-- How a step ends: with a later machine, and if it returns something then with a value for
which `post` holds. -/
def Descent {α : Type} (m : Machine) (post : Machine → α → Prop) :
    EStateM.Result Halt Machine α → Prop :=
  Outcome Advances m post

/-- Nothing is said of what is returned. -/
abbrev Whatever {α : Type} (_ : Machine) (_ : α) : Prop := True

namespace Descent

variable {α β : Type} {x : Run α} {f : α → Run β} {post : Machine → α → Prop}
  {next : Machine → β → Prop}

/-- Returning something changes nothing. -/
protected theorem pure {a : α} (h : m.Descending) (hpost : post m a) :
    Descent m post ((pure a : Run α) m) :=
  ⟨h.refl, hpost⟩

protected theorem fail (h : m.Descending) (failure : Failure) :
    Descent m post (Machine.fail failure m) :=
  h.refl

/-- Two steps after one another. -/
protected theorem bind (hx : Descent m post (x m))
    (hf : ∀ a m', m.Advances m' → post m' a → Descent m' next (f a m')) :
    Descent m next ((x >>= f) m) :=
  Outcome.bind (R := Advances) Advances.trans hx hf

end Descent

section Steps

variable (h : m.Descending)
include h

/-- A computed result is as good as what was computed. -/
theorem liftExcept_descent {α : Type} {post : Machine → α → Prop} {result : Except Failure α}
    (hpost : ∀ a, result = .ok a → post m a) : Descent m post (liftExcept result m) := by
  cases result with
  | ok a => exact .pure h (hpost a rfl)
  | error failure => exact .fail h failure

/-- A variable holds what some frame holds. -/
theorem readVariable_descent (name : Token) :
    Descent m Value.Descends (readVariable name m) := by
  cases hlookup : m.forest.lookup m.current name.lexeme with
  | some value =>
    rw [readVariable_of_some hlookup]
    exact .pure h (h.values value (holds_of_lookup hlookup))
  | none =>
    rw [readVariable_of_none hlookup]
    exact h.refl

/-- Assigning rebinds a name to a value that descends. -/
theorem writeVariable_descent {name : Token} (hvalue : value.Descends m) :
    Descent m Whatever (writeVariable name value m) := by
  cases howner : m.forest.owner? m.current name.lexeme with
  | some owner =>
    rw [writeVariable_of_some howner]
    exact ⟨h.define hvalue, trivial⟩
  | none =>
    rw [writeVariable_of_none howner]
    exact h.refl

/-- A new frame is there afterwards. -/
theorem newFrame_descent (parent : FrameId) :
    Descent m (fun m' frame => m'.forest.Present frame) (newFrame parent m) :=
  ⟨h.addChild, Forest.present_addChild.mpr (.inr rfl)⟩

/-- A closure is no class. -/
theorem newClosure_descent (fn : Closure) : Descent m Value.Descends (newClosure fn m) :=
  ⟨h.congr rfl rfl rfl rfl (Nat.le_succ _), .of_none rfl⟩

/-- A new instance has a number, and holds nothing yet. -/
theorem newInstance_descent : Descent m Whatever (newInstance m) := by
  refine ⟨h.withFields fun i table htable name value hfind => ?_, trivial⟩
  rw [Array.getElem?_push] at htable
  split at htable
  · cases htable
    cases hfind
  · exact .inl (.field htable hfind)

/-- A field holds what is put in. -/
theorem writeField_descent {i : InstanceId} (hvalue : value.Descends m) :
    Descent m Whatever (writeField i name value m) := by
  refine ⟨h.withFields fun j table htable key held hfind => ?_, trivial⟩
  rw [Array.getElem?_modify] at htable
  split at htable
  · obtain ⟨old, hold, rfl⟩ := Option.map_eq_some_iff.mp htable
    rw [Table.find?_insert] at hfind
    split at hfind
    · cases hfind
      exact .inr hvalue
    · exact .inl (.field hold hfind)
  · exact .inl (.field htable hfind)

/-- The frame of a bound method holds its receiver. -/
theorem bind_descent (method : Closure) {receiver : Value} (hreceiver : receiver.Descends m) :
    Descent m Whatever (Machine.bind method receiver m) := by
  rw [bind_run]
  exact ⟨h.addWith hreceiver, trivial⟩

/-- A bound method itself is no class. -/
theorem bindClosure_descent (method : Closure) {receiver : Value}
    (hreceiver : receiver.Descends m) :
    Descent m Value.Descends ((Machine.bind method receiver >>= newClosure) m) :=
  (bind_descent h method hreceiver).bind fun fn _ hadv _ => newClosure_descent hadv.descending fn

/-- A property is a field, which descends, or a bound method. -/
theorem readProperty_descent {cls : Class} {i : InstanceId} {name : Token}
    (hcls : cls.Descends m.nextSerial) :
    Descent m Value.Descends (readProperty cls i name m) := by
  unfold readProperty
  rw [bind_of_ok get_run]
  cases hfield : (m.fields[i.index]?).bind fun fields => fields.find? name.lexeme with
  | some value =>
    obtain ⟨fields, hfields, hfind⟩ := Option.bind_eq_some_iff.mp hfield
    exact .pure h (h.values value (.field hfields hfind))
  | none =>
    dsimp only
    cases cls.findMethod? name.lexeme with
    | some method =>
      refine bindClosure_descent h method ?_
      rintro _ ⟨⟩
      exact hcls
    | none => exact .fail h _

theorem readSuper_descent (keyword method : Token) :
    Descent m Value.Descends (readSuper keyword method m) := by
  rcases readSuper_cases m keyword method with
    ⟨parent, cls, i, hparent, hthis⟩ | ⟨failure, hfail⟩
  · rw [readSuper_of_some keyword method hparent hthis]
    have hreceiver : (Value.instanceOf cls i).Descends m := h.values _ (holds_of_lookup hthis)
    cases parent.findMethod? method.lexeme with
    | some found => exact bindClosure_descent h found hreceiver
    | none => exact .fail h _
  · rw [hfail]
    exact .fail h failure

/-- The host gives back what it was given, or what it may know. -/
theorem callHost_descent {fn : HostFunction} {args : List Value}
    (hargs : ∀ arg ∈ args, arg.Descends m) : Descent m Value.Descends (callHost fn args m) := by
  unfold callHost
  rw [bind_of_ok get_run]
  cases hbody : m.hosts[fn.index]? with
  | none => exact .pure h (.of_none rfl)
  | some body =>
    dsimp only
    cases hresult : body args with
    | error message => exact .fail h _
    | ok value =>
      refine .pure h fun cls hcls => ?_
      rcases h.hosts _ body hbody args value hresult cls hcls with
        ⟨arg, harg, given, hgiven, hsuffix⟩ | hcls
      · exact (hargs arg harg given hgiven).of_suffix hsuffix
      · exact hcls

/-- Printing changes the sink only. -/
theorem printLine_descent (text : String) : Descent m Whatever (printLine text m) := by
  have hadv : m.Advances { m with sink := m.sink.write (text ++ "\n") } :=
    h.congr rfl rfl rfl rfl (Nat.le_refl _)
  unfold printLine
  dsimp only
  split
  · exact ⟨hadv, trivial⟩
  · exact hadv

theorem flush_descent : Descent m Whatever (flush m) := by
  unfold flush
  rw [bind_of_ok get_run]
  split
  · exact .fail h _
  · exact .pure h trivial

omit h in

/-- Parameters are bound one by one to arguments that descend. -/
theorem bindParameters_descent {params : List Token} {args : List Value} (h : m.Descending)
    (hargs : ∀ arg ∈ args, arg.Descends m) :
    Descent m Whatever (bindParameters id params args m) := by
  induction params generalizing args m with
  | nil => exact .pure h trivial
  | cons param params ih =>
    cases args with
    | nil => exact .pure h trivial
    | cons arg args =>
      rw [bindParameters_cons]
      have hdefine : Descent m Whatever (Machine.define id param.lexeme arg m) :=
        ⟨h.define (hargs arg List.mem_cons_self), trivial⟩
      refine hdefine.bind fun _ m' hadv _ => ih hadv.descending fun arg harg => ?_
      exact (hargs arg (List.mem_cons_of_mem _ harg)).later hadv.serial

/-- A class that is declared gets the next number, and what it inherits from has lower
ones. -/
theorem declareClass_descent {decl : ClassDecl} {parent : Option Class}
    (hparent : ∀ cls ∈ parent, cls.Descends m.nextSerial) :
    Descent m Whatever (declareClass decl parent m) := by
  rw [declareClass_run h.current]
  -- the name is bound, the frame is created, the class gets its number and is assigned
  have hnamed : m.Advances { m with forest := m.forest.define m.current decl.name.lexeme .nil } :=
    h.define (.of_none rfl)
  have hmade : m.Advances { m with forest :=
      (methodFrame (m.forest.define m.current decl.name.lexeme .nil) m.current parent).1 } := by
    cases parent with
    | none => exact hnamed
    | some parent =>
      refine hnamed.trans (hnamed.descending.addWith ?_)
      rintro _ ⟨⟩
      exact hparent parent rfl
  have hnumbered : m.Advances { m with
      forest := (methodFrame (m.forest.define m.current decl.name.lexeme .nil) m.current parent).1
      nextSerial := m.nextSerial + 1 } :=
    hmade.trans (hmade.descending.congr rfl rfl rfl rfl (Nat.le_succ _))
  refine ⟨hnumbered.trans (hnumbered.descending.define ?_), trivial⟩
  rintro _ ⟨⟩
  exact Class.descends_mk rfl hparent

end Steps

end Machine

end Lox
