/-
`Lox.Proofs.Method.Step` -- steps after which `this` and `super` are found where they
were.

Every step of the machine leaves a scene in order and leads to a later one (`Leads`),
also if it fails. What it takes for that is that no step binds one of the two names or
assigns to it, apart from those that create a frame for it; and a frame that is created
has to have the activations that it is created for.
-/
import Lox.Proofs.Method.Rooted
import Lox.Proofs.Scope.Lexical

set_option autoImplicit false

namespace Lox.Machine

variable {U : SuperUse → Prop} {s s' s'' : Scene Surroundings} {id parent : FrameId}
  {name : String} {value : Value}

/-! ## From scene to scene -/

/-- The scene is in order, and a later one, in the same frame. -/
structure Scene.Leads (U : SuperUse → Prop) (s s' : Scene Surroundings) : Prop where
  sound : s'.Sound U
  onward : s.Onward s'
  current : s'.machine.current = s.machine.current

/-- The scene with another machine. -/
def Scene.move (s : Scene Surroundings) (m : Machine) : Scene Surroundings :=
  ⟨m, s.account⟩

/-- The scene with another forest. -/
def Scene.plant (s : Scene Surroundings) (forest : Forest Value) : Scene Surroundings :=
  s.move { s.machine with forest }

namespace Scene.Sound

/-- A scene in order leads to itself. -/
protected theorem leads (h : s.Sound U) : s.Leads U s :=
  ⟨h, .refl s, rfl⟩

end Scene.Sound

/-- Leading on is leading. -/
theorem Scene.Leads.trans (h : s.Leads U s') (h' : s'.Leads U s'') : s.Leads U s'' :=
  ⟨h'.sound, h.onward.trans h'.onward, h'.current.trans h.current⟩

namespace Scene.Sound

/-- A step that leaves everything alone that matters here. -/
theorem congr {m : Machine} (h : s.Sound U) (hforest : m.forest = s.machine.forest)
    (hfields : m.fields = s.machine.fields) (hhosts : m.hosts = s.machine.hosts)
    (hcurrent : m.current = s.machine.current) (hserial : s.machine.nextSerial ≤ m.nextSerial) :
    s.Leads U (s.move m) := by
  obtain ⟨forest, current, fields, hosts, nextSerial, sink⟩ := m
  cases hforest
  cases hfields
  cases hhosts
  cases hcurrent
  have honward : s.Onward (s.move ⟨_, _, _, _, nextSerial, sink⟩) :=
    ⟨id, fun _ _ _ => rfl, fun _ _ _ => rfl, fun _ => rfl, id, Nat.le_refl _, hserial⟩
  refine ⟨h.onward honward h.tidy h.closed (fun id hid hold => absurd hid hold)
    (fun _ _ he => .inl he) (fun value hvalue => .inl ?_) rfl rfl, honward, rfl⟩
  cases hvalue with
  | name hlocal => exact .name hlocal
  | field hfields hfind => exact .field hfields hfind

/-- Binding a name in a frame that is none of those for one name. -/
theorem define (h : s.Sound U) (hname : name ∉ keywords)
    (hplain : ∀ key ∈ keywords, s.machine.forest.local? id key = none)
    (hvalue : value.Rooted U s) :
    s.Leads U (s.plant (s.machine.forest.define id name value)) := by
  have hne : ∀ key ∈ keywords, key ≠ name := fun key hkey heq => hname (heq ▸ hkey)
  have honward : s.Onward (s.plant (s.machine.forest.define id name value)) :=
    ⟨Forest.present_define.mpr, fun _ key hkey => Forest.local?_define_of_ne (hne key hkey),
      fun _ key hkey => Forest.lookup_define_of_ne (hne key hkey), fun _ => rfl, fun he => he,
      Nat.le_refl _, Nat.le_refl _⟩
  refine ⟨h.onward honward (fun key frame hframe => ?_) h.closed.define
    (fun key hkey hold => absurd (Forest.present_define.mp hkey) hold) (fun _ _ he => .inl he)
    (fun held hheld => ?_) rfl rfl, honward, rfl⟩
  · replace hframe : (s.machine.forest.define id name value).frame? key = some frame := hframe
    by_cases hid : id = key
    · subst hid
      -- the frame still binds neither of the two names
      refine Frame.tidy_of_none fun word hword => ?_
      have hlocal : (s.machine.forest.define id name value).local? id word
          = s.machine.forest.local? id word := Forest.local?_define_of_ne (hne word hword)
      rw [Forest.local?, hframe, Option.bind_some, hplain word hword] at hlocal
      exact hlocal
    · rw [Forest.frame?_define, if_neg hid] at hframe
      exact h.tidy key frame hframe
  · cases hheld with
    | name hlocal =>
      rcases Forest.local?_define_cases hlocal with ⟨-, -, rfl⟩ | hlocal
      · exact .inr (hvalue.onward honward)
      · exact .inl (.name hlocal)
    | field hfields hfind => exact .inl (.field hfields hfind)

/-- A new frame that binds nothing yet, for code that is run inside of the same
activations. -/
theorem newFrame (h : s.Sound U) (hparent : s.machine.forest.Present parent)
    (hsuper : s.machine.forest.local? parent "super" = none)
    (haround : s.account.around s.machine.forest.next = s.account.around parent) :
    s.Leads U (s.plant (s.machine.forest.addChild parent)) := by
  have honward : s.Onward (s.plant (s.machine.forest.addChild parent)) :=
    ⟨fun hid => Forest.present_addChild.mpr (.inl hid), fun _ _ _ => Forest.local?_addChild,
      fun hid _ _ => Forest.lookup_addChild hid, fun _ => rfl, fun he => he,
      Nat.le_refl _, Nat.le_refl _⟩
  refine ⟨h.onward honward (fun key frame hframe => ?_) (h.closed.addChild hparent)
    (fun key hkey hold _ => ?_) (fun _ _ he => .inl he) (fun held hheld => .inl ?_) rfl rfl,
    honward, rfl⟩
  · replace hframe : (s.machine.forest.addChild parent).frame? key = some frame := hframe
    by_cases hkey : key = s.machine.forest.next
    · rw [hkey, Forest.frame?_addChild_next] at hframe
      cases hframe
      exact Frame.tidy_of_none fun _ _ => rfl
    · rw [Forest.frame?_addChild_of_ne hkey] at hframe
      exact h.tidy key frame hframe
  · obtain rfl := (Forest.present_addChild.mp hkey).resolve_left hold
    -- what is seen from the new frame is what is seen from the one around it
    have hseated := (h.seated hparent hsuper).onward hparent honward
    have hlookup : ∀ word, (s.machine.forest.addChild parent).lookup s.machine.forest.next word
        = (s.machine.forest.addChild parent).lookup parent word := fun word =>
      (Forest.lookup_addChild_next hparent).trans (Forest.lookup_addChild hparent).symm
    obtain ⟨hthis, hsuper', hrecorded, hactivations⟩ := hseated
    constructor
    · exact (hlookup "this").trans (hthis.trans (congrArg _ (congrArg _ haround.symm)))
    · exact (hlookup "super").trans (hsuper'.trans (by rw [plant, move, haround]))
    · exact fun a outer ha => hrecorded a outer (haround.symm.trans ha)
    · exact fun a ha => hactivations a (haround ▸ ha)
  · cases hheld with
    | name hlocal =>
      replace hlocal : (s.machine.forest.addChild parent).local? _ _ = _ := hlocal
      rw [Forest.local?_addChild] at hlocal
      exact .name hlocal
    | field hfields hfind => exact .field hfields hfind

/-- A new frame for one name. If it is one for a receiver, it has to be seated. -/
theorem addWith (h : s.Sound U) (hparent : s.machine.forest.Present parent)
    (htidy : ∀ outer, Frame.Tidy ⟨Table.empty.insert name value, outer⟩)
    (hvalue : value.Rooted U s)
    (hseated : name ≠ "super" →
      (s.plant (s.machine.forest.addWith parent name value)).Seated U s.machine.forest.next) :
    s.Leads U (s.plant (s.machine.forest.addWith parent name value)) := by
  -- old frames have what they had, and the new one is none of them
  have honward : s.Onward (s.plant (s.machine.forest.addWith parent name value)) :=
    ⟨fun hid => Forest.present_addWith.mpr (.inl hid),
      fun hid _ _ => Forest.local?_addWith_of_ne hid.ne_next,
      fun hid _ _ => h.closed.lookup_addWith hid, fun _ => rfl, fun he => he,
      Nat.le_refl _, Nat.le_refl _⟩
  refine ⟨h.onward honward (fun key frame hframe => ?_) (h.closed.addWith hparent)
    (fun key hkey hold hsuper => ?_) (fun _ _ he => .inl he) (fun held hheld => ?_) rfl rfl,
    honward, rfl⟩
  · replace hframe : (s.machine.forest.addWith parent name value).frame? key = some frame := hframe
    by_cases hkey : key = s.machine.forest.next
    · rw [hkey, Forest.frame?_addWith_next] at hframe
      cases hframe
      exact htidy _
    · rw [Forest.frame?_addWith_of_ne hkey] at hframe
      exact h.tidy key frame hframe
  · obtain rfl := (Forest.present_addWith.mp hkey).resolve_left hold
    -- only the new frame is new, and it has to be seated unless it is one for `super`
    refine hseated ?_
    rintro rfl
    have hbound : (s.machine.forest.addWith parent "super" value).local? s.machine.forest.next
        "super" = some value := Forest.local?_addWith_next
    cases hbound.symm.trans hsuper
  -- a value that is held is the new one, or was held before
  · cases hheld with
    | @name key word held hlocal =>
      replace hlocal : (s.machine.forest.addWith parent name value).local? key word
        = some held := hlocal
      by_cases hkey : key = s.machine.forest.next
      · rw [hkey, Forest.local?_addWith_next] at hlocal
        split at hlocal
        · cases hlocal
          exact .inr (hvalue.onward honward)
        · cases hlocal
      · rw [Forest.local?_addWith_of_ne hkey] at hlocal
        exact .inl (.name hlocal)
    | field hfields hfind => exact .inl (.field hfields hfind)

/-- Other fields, none of which has been taken away, with values in order. -/
theorem withFields {fields : Array (Table Value)} (h : s.Sound U)
    (hsize : s.machine.fields.size ≤ fields.size)
    (hfields : ∀ (i : Nat) (table : Table Value), fields[i]? = some table →
      ∀ name value, table.find? name = some value →
        s.machine.Holds value ∨ value.Rooted U s) :
    s.Leads U (s.move { s.machine with fields }) := by
  have honward : s.Onward (s.move { s.machine with fields }) :=
    ⟨id, fun _ _ _ => rfl, fun _ _ _ => rfl, fun _ => rfl, id, hsize, Nat.le_refl _⟩
  refine ⟨h.onward honward h.tidy h.closed (fun id hid hold => absurd hid hold)
    (fun _ _ he => .inl he) (fun held hheld => ?_) rfl rfl, honward, rfl⟩
  cases hheld with
  | name hlocal => exact .inl (.name hlocal)
  | field htable hfind =>
    exact (hfields _ _ htable _ _ hfind).imp_right fun hvalue => hvalue.onward honward

/-- A new instance has no fields, and no value refers to it yet. -/
theorem newInstance (h : s.Sound U) :
    s.Leads U (s.move { s.machine with fields := s.machine.fields.push .empty }) := by
  refine h.withFields ?_ fun i table htable name value hfind => ?_
  · rw [Array.size_push]
    exact Nat.le_succ _
  · rw [Array.getElem?_push] at htable
    split at htable
    · cases htable
      cases hfind
    · exact .inl (.field htable hfind)

/-- A field may hold what is rooted. -/
theorem writeField {i : InstanceId} (h : s.Sound U) (hvalue : value.Rooted U s) :
    s.Leads U (s.move { s.machine with
      fields := s.machine.fields.modify i.index fun table => table.insert name value }) := by
  refine h.withFields (by rw [Array.size_modify]) fun j table htable key held hfind => ?_
  rw [Array.getElem?_modify] at htable
  split at htable
  · obtain ⟨old, hold, rfl⟩ := Option.map_eq_some_iff.mp htable
    rw [Table.find?_insert] at hfind
    split at hfind
    · cases hfind
      exact .inr hvalue
    · exact .inl (.field hold hfind)
  · exact .inl (.field htable hfind)

/-! ### What is told -/

/-- For which code the next frame will be created does not matter before it is. -/
theorem seat (h : s.Sound U) (activations : List Activation) :
    s.Leads U ⟨s.machine, s.account.seat s.machine.forest.next activations⟩ := by
  have honward : s.Onward ⟨s.machine, s.account.seat s.machine.forest.next activations⟩ :=
    ⟨id, fun _ _ _ => rfl, fun _ _ _ => rfl,
      fun hid => Surroundings.around_seat_of_ne hid.ne_next, id, Nat.le_refl _, Nat.le_refl _⟩
  exact ⟨h.onward honward h.tidy h.closed (fun id hid hold => absurd hid hold)
    (fun _ _ he => .inl he) (fun _ hheld => .inl hheld) rfl rfl, honward, rfl⟩

/-- A number that no class has yet. -/
theorem declare {serial : Nat} {e : Execution} (h : s.Sound U) (he : e.Sound U)
    (hnew : s.account.execution? serial = none) :
    s.Leads U ⟨s.machine, s.account.declare serial e⟩ := by
  have honward : s.Onward ⟨s.machine, s.account.declare serial e⟩ := by
    refine ⟨id, fun _ _ _ => rfl, fun _ _ _ => rfl, fun _ => rfl, fun hold => ?_,
      Nat.le_refl _, Nat.le_refl _⟩
    refine (Surroundings.execution?_declare_of_ne ?_).trans hold
    rintro rfl
    cases hnew.symm.trans hold
  refine ⟨h.onward honward h.tidy h.closed (fun id hid hold => absurd hid hold)
    (fun key e' he' => ?_) (fun _ hheld => .inl hheld) rfl rfl, honward, rfl⟩
  by_cases hkey : key = serial
  · subst hkey
    cases Surroundings.execution?_declare_self.symm.trans he'
    exact .inr he
  · exact .inl ((Surroundings.execution?_declare_of_ne hkey).symm.trans he')

end Scene.Sound

/-! ## Steps of the machine -/

/-- How a step ends that begins in the scene: in order, and if it returns something then
with a value for which `post` holds. -/
def Steps {α : Type} (U : SuperUse → Prop) (s : Scene Surroundings)
    (post : Scene Surroundings → α → Prop) : EStateM.Result Halt Machine α → Prop
  | .ok a m => s.Leads U (s.move m) ∧ post (s.move m) a
  | .error _ m => s.Leads U (s.move m)

namespace Steps

variable {α β : Type} {x : Run α} {f : α → Run β} {post : Scene Surroundings → α → Prop}
  {next : Scene Surroundings → β → Prop}

/-- Returning something is no step. -/
protected theorem pure {a : α} (h : s.Sound U) (hpost : post s a) :
    Steps U s post ((pure a : Run α) s.machine) :=
  ⟨h.leads, hpost⟩

theorem fail (h : s.Sound U) (failure : Failure) :
    Steps U s post (Machine.fail failure s.machine) :=
  h.leads

/-- Two steps after one another. -/
protected theorem bind (hx : Steps U s post (x s.machine))
    (hf : ∀ a m, s.Leads U (s.move m) → post (s.move m) a →
      Steps U (s.move m) next (f a m)) :
    Steps U s next ((x >>= f) s.machine) := by
  cases hrun : x s.machine with
  | ok a m =>
    rw [hrun] at hx
    rw [bind_of_ok hrun]
    have hrest := hf a m hx.1 hx.2
    cases hrun' : f a m with
    | ok b m' =>
      rw [hrun'] at hrest
      exact ⟨hx.1.trans hrest.1, hrest.2⟩
    | error halt m' =>
      rw [hrun'] at hrest
      exact hx.1.trans hrest
  | error halt m =>
    rw [hrun] at hx
    rw [bind_of_error hrun]
    exact hx

end Steps

/-- A computed result is as good as what was computed. -/
theorem liftExcept_steps {α : Type} {post : Scene Surroundings → α → Prop}
    {result : Except Failure α} (h : s.Sound U) (hpost : ∀ a, result = .ok a → post s a) :
    Steps U s post (liftExcept result s.machine) := by
  cases result with
  | ok a => exact .pure h (hpost a rfl)
  | error failure => exact .fail h failure

/-- A name that is no keyword may be bound in a frame that has none of them. -/
theorem define_steps (h : s.Sound U) (hname : name ∉ keywords)
    (hplain : ∀ key ∈ keywords, s.machine.forest.local? id key = none)
    (hvalue : value.Rooted U s) :
    Steps U s (fun _ _ => True) (define id name value s.machine) :=
  ⟨h.define hname hplain hvalue, trivial⟩

/-- So it may in the current frame, which is never one of those for one name. -/
theorem defineHere_steps (h : s.Sound U) (hname : name ∉ keywords) (hvalue : value.Rooted U s) :
    Steps U s (fun _ _ => True) (defineHere name value s.machine) :=
  define_steps h hname h.plain hvalue

/-- A closure is as rooted as its function. -/
theorem newClosure_steps {fn : Closure} (h : s.Sound U) (hfn : fn.Rooted U s) :
    Steps U s (fun s' value => value.Rooted U s') (newClosure fn s.machine) := by
  have hleads := h.congr (m := { s.machine with nextSerial := s.machine.nextSerial + 1 })
    rfl rfl rfl rfl (Nat.le_succ _)
  exact ⟨hleads, hfn.onward hleads.onward⟩

/-- A variable holds what is rooted, as all values are. -/
theorem readVariable_steps (h : s.Sound U) (name : Token) :
    Steps U s (fun s' value => value.Rooted U s') (readVariable name s.machine) := by
  cases hlookup : s.machine.forest.lookup s.machine.current name.lexeme with
  | some value =>
    rw [readVariable_of_some hlookup]
    exact ⟨h.leads, h.values value (holds_of_lookup hlookup)⟩
  | none =>
    rw [readVariable_of_none hlookup]
    exact h.leads

/-- An assignment goes to a frame that binds the name already, so to none of those for
one name. -/
theorem writeVariable_steps {name : Token} (h : s.Sound U) (hname : name.lexeme ∉ keywords)
    (hvalue : value.Rooted U s) :
    Steps U s (fun _ _ => True) (writeVariable name value s.machine) := by
  cases howner : s.machine.forest.owner? s.machine.current name.lexeme with
  | some owner =>
    rw [writeVariable_of_some howner]
    exact define_steps h hname (h.plain_of_local? hname (Forest.local?_owner?_isSome howner)) hvalue
  | none =>
    rw [writeVariable_of_none howner]
    exact h.leads

/-- A function of the host gives back what it was given, or something plain. -/
theorem callHost_steps {fn : HostFunction} {args : List Value} (h : s.Sound U)
    (hargs : ∀ arg ∈ args, arg.Rooted U s) :
    Steps U s (fun s' value => value.Rooted U s') (callHost fn args s.machine) := by
  unfold callHost
  rw [bind_of_ok get_run]
  cases hbody : s.machine.hosts[fn.index]? with
  | none => exact .pure h trivial
  | some body =>
    cases hresult : body args with
    | ok value =>
      dsimp only
      rw [hresult]
      refine .pure h ?_
      exact (h.hosts _ body hbody args value hresult).elim (hargs value) id
    | error message =>
      dsimp only
      rw [hresult]
      exact .fail h _

/-- Printing changes the sink only. -/
theorem printLine_steps (h : s.Sound U) (text : String) :
    Steps U s (fun _ _ => True) (printLine text s.machine) := by
  have hleads := h.congr (m := { s.machine with sink := s.machine.sink.write (text ++ "\n") })
    rfl rfl rfl rfl (Nat.le_refl _)
  unfold printLine
  dsimp only
  split
  · exact ⟨hleads, trivial⟩
  · exact hleads

theorem flush_steps (h : s.Sound U) : Steps U s (fun _ _ => True) (flush s.machine) := by
  unfold flush
  rw [bind_of_ok get_run]
  split
  · exact .fail h _
  · exact .pure h trivial

/-! ### Parameters -/

/-- The parameters are bound in the frame that was created for them. -/
theorem bindParameters_steps {params : List Token} {args : List Value} (h : s.Sound U)
    (hid : s.machine.forest.Present id)
    (hplain : ∀ key ∈ keywords, s.machine.forest.local? id key = none)
    (hnames : ∀ param ∈ params, param.lexeme ∉ keywords) (hargs : ∀ arg ∈ args, arg.Rooted U s) :
    Steps U s (fun _ _ => True) (bindParameters id params args s.machine) := by
  induction params generalizing args s with
  | nil => exact .pure h trivial
  | cons param params ih =>
    cases args with
    | nil => exact .pure h trivial
    | cons arg args =>
      rw [bindParameters_cons]
      refine (define_steps h (hnames param List.mem_cons_self) hplain
        (hargs arg List.mem_cons_self)).bind fun _ m hleads _ => ?_
      refine ih hleads.sound (hleads.onward.present hid) (fun key hkey => ?_)
        (fun param hparam => hnames param (List.mem_cons_of_mem _ hparam)) fun arg harg =>
        (hargs arg (List.mem_cons_of_mem _ harg)).onward hleads.onward
      rw [hleads.onward.bound hid key hkey, hplain key hkey]

/-! ### Receivers -/

/-- A frame for a receiver, which the next frame has been told to be. -/
theorem receiverFrame_tidy (cls : Class) (i : InstanceId) (outer : List FrameId) :
    Frame.Tidy ⟨Table.empty.insert "this" (.instanceOf cls i), outer⟩ where
  this value hvalue := by
    rw [Table.find?_insert_self] at hvalue
    cases hvalue
    exact ⟨rfl, cls, i, rfl⟩
  super value hvalue := by
    cases hvalue

/-- The frame of a superclass binds nothing else. -/
theorem superFrame_tidy (cls : Class) (outer : List FrameId) :
    Frame.Tidy ⟨Table.empty.insert "super" (.classRef cls), outer⟩ where
  this value hvalue := by
    cases hvalue
  super value hvalue := by
    rw [Table.find?_insert_self] at hvalue
    cases hvalue
    exact ⟨rfl, cls, rfl⟩

/-- Binding a method makes a frame for its receiver. -/
theorem bind_run (m : Machine) (method : Closure) (receiver : Value) :
    Machine.bind method receiver m = .ok { method with frame := m.forest.next }
      { m with forest := m.forest.addWith method.frame "this" receiver } := rfl

/-- The frame in which a method gets its receiver is seated. -/
theorem seated_receiver {found cls : Class} {i : InstanceId} {method : Closure} (h : s.Sound U)
    (hfound : found.Rooted U s) (hmethod : found.findMethod? name = some method)
    (hnative : SuperUse.AllSturdy U → found.lineage <:+ cls.lineage)
    (haround : s.account.around s.machine.forest.next = s.account.activate found name cls i) :
    (s.plant (s.machine.forest.addWith method.frame "this" (.instanceOf cls i))).Seated U
      s.machine.forest.next := by
  -- the method was declared in a class above, and its frame knows the superclass of that one
  obtain ⟨own, e, hown, hsuffix, -, he, hrooted⟩ := hfound.findMethod? hmethod
  rw [Surroundings.activate_eq hown he] at haround
  have hsound := h.executions _ e he
  have hlookup : ∀ other, (s.machine.forest.addWith method.frame "this" (.instanceOf cls i)).lookup
      s.machine.forest.next other = if other = "this" then some (.instanceOf cls i)
        else s.machine.forest.lookup method.frame other :=
    fun _ => h.closed.lookup_addWith_next hrooted.frame.present
  constructor
  -- the receiver is in the new frame itself
  · show _ = ((s.account.around s.machine.forest.next).head?).map Activation.receiver
    rw [haround]
    exact hlookup "this"
  -- `super` is looked up in the frame of the method, whose activation is the outer one
  · show _ = ((s.account.around s.machine.forest.next).findSome? Activation.parent).map _
    rw [haround, List.findSome?_cons]
    refine ((hlookup "super").trans hrooted.frame.super).trans ?_
    cases e.parent <;> rfl
  · intro a outer ha
    cases haround.symm.trans ha
    exact he
  · show ∀ a ∈ s.account.around s.machine.forest.next, a.Sound U
    rw [haround]
    refine List.forall_mem_cons.mpr ⟨⟨hsound.superclass, fun hsturdy => ?_⟩, hsound.outer⟩
    exact hsuffix.trans (hnative hsturdy)

/-- A method that is given its receiver. -/
theorem bind_steps {found cls : Class} {i : InstanceId} {method : Closure} (h : s.Sound U)
    (hfound : found.Rooted U s) (hmethod : found.findMethod? name = some method)
    (hreceiver : (Value.instanceOf cls i).Rooted U s)
    (hnative : SuperUse.AllSturdy U → found.lineage <:+ cls.lineage)
    (haround : s.account.around s.machine.forest.next = s.account.activate found name cls i) :
    Steps U s (fun s' fn => fn.Rooted U s')
      (Machine.bind method (.instanceOf cls i) s.machine) := by
  rw [bind_run]
  have hseated := seated_receiver h hfound hmethod hnative haround
  obtain ⟨own, e, hown, -, hfn, he, hrooted⟩ := hfound.findMethod? hmethod
  rw [Surroundings.activate_eq hown he] at haround
  have hleads := h.addWith hrooted.frame.present (receiverFrame_tidy cls i) hreceiver fun _ => hseated
  refine ⟨hleads, Forest.present_addWith.mpr (.inr rfl), Forest.local?_addWith_next, ?_,
    .inr ⟨⟨own, e.decl, e.parent, cls, i⟩, ?_, Forest.local?_addWith_next, ?_, method, ?_, rfl⟩⟩
  · show method.decl.Lawful U ((s.account.around s.machine.forest.next).map Activation.decl)
    rw [haround]
    exact hrooted.lawful
  · show (s.account.around s.machine.forest.next).head? = _
    rw [haround]
    rfl
  · exact hrooted.isInitializer.trans (congrArg (· == "init") hrooted.named.symm)
  · show own.methods.find? method.name = some method
    rw [hrooted.named, hfn]

/-- A method that is given its receiver, as a value. -/
theorem bindClosure_steps {found cls : Class} {i : InstanceId} {method : Closure}
    (h : s.Sound U) (hfound : found.Rooted U s)
    (hmethod : found.findMethod? name = some method)
    (hreceiver : (Value.instanceOf cls i).Rooted U s)
    (hnative : SuperUse.AllSturdy U → found.lineage <:+ cls.lineage)
    (haround : s.account.around s.machine.forest.next = s.account.activate found name cls i) :
    Steps U s (fun s' value => value.Rooted U s')
      ((Machine.bind method (.instanceOf cls i) >>= newClosure) s.machine) :=
  (bind_steps h hfound hmethod hreceiver hnative haround).bind
    fun _ _ hleads hfn => newClosure_steps hleads.sound hfn

/-- A method that is read as a property gets the instance as its receiver, in a frame with the
right activations. -/
theorem readProperty_steps {cls : Class} {i : InstanceId} {name : Token} (h : s.Sound U)
    (hinstance : (Value.instanceOf cls i).Rooted U s)
    (haround : s.account.around s.machine.forest.next
      = s.account.activate cls name.lexeme cls i) :
    Steps U s (fun s' value => value.Rooted U s') (readProperty cls i name s.machine) := by
  unfold readProperty
  rw [bind_of_ok get_run]
  cases hfield : (s.machine.fields[i.index]?).bind fun fields => fields.find? name.lexeme with
  | some value =>
    obtain ⟨fields, hfields, hfind⟩ := Option.bind_eq_some_iff.mp hfield
    exact .pure h (h.values value (.field hfields hfind))
  | none =>
    dsimp only
    cases hmethod : cls.findMethod? name.lexeme with
    | some method =>
      exact bindClosure_steps h hinstance.1 hmethod hinstance (fun _ => List.suffix_refl _) haround
    | none => exact .fail h _

/-! ### Superclasses -/

/-- Where both are found, the class is the superclass of the innermost activation that has
one, and the receiver is that of the innermost activation. -/
theorem superclass_of_lookup {parent cls : Class} {i : InstanceId} (h : s.Seated U id)
    (hparent : s.machine.forest.lookup id "super" = some (.classRef parent))
    (hthis : s.machine.forest.lookup id "this" = some (.instanceOf cls i)) :
    ∃ a outer, s.account.around id = a :: outer ∧ a.cls = cls ∧ a.id = i ∧
      (a :: outer).findSome? Activation.parent = some parent := by
  rw [h.this] at hthis
  rw [h.super] at hparent
  obtain ⟨a, ha, hreceiver⟩ := Option.map_eq_some_iff.mp hthis
  obtain ⟨parent', hfound, hclass⟩ := Option.map_eq_some_iff.mp hparent
  obtain ⟨outer, haround⟩ := List.head?_eq_some_iff.mp ha
  cases hclass
  cases hreceiver
  exact ⟨a, outer, haround, rfl, rfl, haround ▸ hfound⟩

/-- If all uses of `super` are sturdy, the superclass that is found is that of the
innermost class around. -/
theorem parent_of_sturdy {a : Activation} {outer : List Activation} {parent : Class}
    {u : SuperUse} (hsound : ∀ b ∈ a :: outer, b.Sound U) (hu : u.Sturdy)
    (hclasses : u.classes = (a :: outer).map Activation.decl)
    (hfound : (a :: outer).findSome? Activation.parent = some parent) : a.parent = some parent := by
  obtain ⟨b, hb, hparent⟩ := List.exists_of_findSome?_eq_some hfound
  have hany : ∃ decl ∈ u.classes, decl.superclass.isSome := by
    refine ⟨b.decl, hclasses ▸ List.mem_map_of_mem hb, ?_⟩
    rw [(hsound b hb).superclass, hparent, Option.isSome_some]
  obtain ⟨decl, hdecl, hsuper⟩ := hu hany
  rw [hclasses] at hdecl
  cases hdecl
  rw [(hsound a List.mem_cons_self).superclass] at hsuper
  obtain ⟨own, hown⟩ := Option.isSome_iff_exists.mp hsuper
  rw [List.findSome?_cons, hown] at hfound
  exact hown.trans hfound

/-- The class that `super` stands for is then one that the receiver's class inherits
from. -/
theorem lineage_of_sturdy {u : SuperUse} {parent cls : Class} {i : InstanceId} (h : s.Seated U id)
    (hsturdy : SuperUse.AllSturdy U) (hu : U u)
    (hclasses : u.classes = (s.account.around id).map Activation.decl)
    (hparent : s.machine.forest.lookup id "super" = some (.classRef parent))
    (hthis : s.machine.forest.lookup id "this" = some (.instanceOf cls i)) :
    parent.lineage <:+ cls.ancestors := by
  obtain ⟨a, outer, haround, rfl, rfl, hfound⟩ := superclass_of_lookup h hparent hthis
  have hsound := h.activations
  rw [haround] at hclasses hsound
  have hown := parent_of_sturdy hsound (hsturdy u hu) hclasses hfound
  have hnative := (hsound a List.mem_cons_self).native hsturdy
  rw [Activation.Native, hown, Class.lineage] at hnative
  exact (List.suffix_cons_iff.mp hnative).elim (fun heq => (List.cons.inj heq).2 ▸ List.suffix_refl _)
    fun hsuffix => (List.suffix_cons _ _).trans hsuffix

/-- What `super` and a name stand for where both a superclass and a receiver are found. -/
theorem readSuper_of_some {m : Machine} {parent cls : Class} {i : InstanceId}
    (keyword method : Token)
    (hparent : m.forest.lookup m.current "super" = some (.classRef parent))
    (hthis : m.forest.lookup m.current "this" = some (.instanceOf cls i)) :
    readSuper keyword method m =
      match parent.findMethod? method.lexeme with
      | some found => (Machine.bind found (.instanceOf cls i) >>= newClosure) m
      | none => fail (.undefinedProperty method) m := by
  unfold readSuper
  rw [bind_of_ok (lookupHere_run "super"), hparent]
  dsimp only
  rw [bind_of_ok (lookupHere_run "this"), hthis]
  dsimp only
  cases parent.findMethod? method.lexeme <;> rfl

/-- If one of them is missing, the run fails where it is. -/
theorem readSuper_cases (m : Machine) (keyword method : Token) :
    (∃ parent cls i, m.forest.lookup m.current "super" = some (.classRef parent) ∧
      m.forest.lookup m.current "this" = some (.instanceOf cls i)) ∨
    ∃ failure, readSuper keyword method m = fail failure m := by
  unfold readSuper
  rw [bind_of_ok (lookupHere_run "super")]
  rcases hparent : m.forest.lookup m.current "super" with _ | value
  · exact .inr ⟨_, rfl⟩
  cases value with
  | classRef parent =>
    dsimp only
    rw [bind_of_ok (lookupHere_run "this")]
    rcases hthis : m.forest.lookup m.current "this" with _ | receiver
    · exact .inr ⟨_, rfl⟩
    cases receiver with
    | instanceOf cls i => exact .inl ⟨parent, cls, i, rfl, rfl⟩
    | _ => exact .inr ⟨_, rfl⟩
  | _ => exact .inr ⟨_, rfl⟩

/-- What `super` gives is a method of the superclass that the innermost activation with one has,
bound to the receiver of the innermost one. -/
theorem readSuper_steps {keyword method : Token} {u : SuperUse} (h : s.Sound U) (hu : U u)
    (hclasses : u.classes = (s.account.around s.machine.current).map Activation.decl)
    (haround : ∀ parent cls i,
      s.machine.forest.lookup s.machine.current "super" = some (.classRef parent) →
      s.machine.forest.lookup s.machine.current "this" = some (.instanceOf cls i) →
      s.account.around s.machine.forest.next = s.account.activate parent method.lexeme cls i) :
    Steps U s (fun s' value => value.Rooted U s') (readSuper keyword method s.machine) := by
  rcases readSuper_cases s.machine keyword method with
    ⟨parent, cls, i, hparent, hthis⟩ | ⟨failure, hfail⟩
  · rw [readSuper_of_some keyword method hparent hthis]
    have hfound : parent.Rooted U s := h.values _ (holds_of_lookup hparent)
    have hreceiver : (Value.instanceOf cls i).Rooted U s := h.values _ (holds_of_lookup hthis)
    cases hmethod : parent.findMethod? method.lexeme with
    | some found =>
      refine bindClosure_steps h hfound hmethod hreceiver (fun hsturdy => ?_)
        (haround parent cls i hparent hthis)
      have hlineage := lineage_of_sturdy h.seated_current hsturdy hu hclasses hparent hthis
      exact hlineage.trans (List.suffix_cons _ _)
    | none => exact .fail h _
  · rw [hfail]
    exact .fail h failure

/-! ### Declarations of classes -/

/-- The methods of a class are closed over the current frame, or over one with the
superclass inside of it. -/
def methodFrame (f : Forest Value) (current : FrameId) : Option Class → Forest Value × FrameId
  | none => (f, current)
  | some parent => (f.addWith current "super" (.classRef parent), f.next)

/-- The class that a declaration makes. -/
def declaredClass (decl : ClassDecl) (parent : Option Class) (serial : Nat) (frame : FrameId) :
    Class :=
  ⟨⟨serial, decl.name.lexeme, methodTable frame decl.methods⟩, parent.elim [] Class.lineage⟩

/-- A declaration never fails: the name that the class is assigned to has just been bound
in the current frame. -/
theorem declareClass_run {m : Machine} (hcurrent : m.forest.Present m.current)
    (decl : ClassDecl) (parent : Option Class) :
    declareClass decl parent m =
      let made := methodFrame (m.forest.define m.current decl.name.lexeme .nil) m.current parent
      .ok () { m with
        forest := made.1.define m.current decl.name.lexeme
          (.classRef (declaredClass decl parent m.nextSerial made.2))
        nextSerial := m.nextSerial + 1 } := by
  obtain ⟨frame, hframe⟩ := hcurrent
  have hbound : (m.forest.define m.current decl.name.lexeme .nil).local? m.current
      decl.name.lexeme = some .nil := by
    rw [Forest.local?_define hframe, if_pos ⟨rfl, rfl⟩]
  have hpresent := Forest.present_of_local? hbound
  have howner : (methodFrame (m.forest.define m.current decl.name.lexeme .nil) m.current
      parent).1.owner? m.current decl.name.lexeme = some m.current := by
    refine List.find?_cons_of_pos ?_
    cases parent with
    | none => exact Option.isSome_iff_exists.mpr ⟨_, hbound⟩
    | some parent =>
      rw [methodFrame, Forest.local?_addWith_of_ne hpresent.ne_next, hbound]
      rfl
  cases parent with
  | none => exact writeVariable_of_some howner
  | some parent => exact writeVariable_of_some howner

/-- The frame for the methods of a class. -/
theorem methodFrame_leads {e : Execution} (h : s.Sound U)
    (hparent : ∀ cls ∈ e.parent, cls.Rooted U s)
    (houter : e.outer = s.account.around s.machine.current) :
    let made := methodFrame s.machine.forest s.machine.current e.parent
    s.Leads U (s.plant made.1) ∧ (s.plant made.1).Encloses e made.2 := by
  have hseated := h.seated_current
  rcases e with ⟨decl, _ | parent, outer⟩ <;> cases houter
  · exact ⟨h.leads, h.present, hseated.this, hseated.super⟩
  · have hrooted : (Value.classRef parent).Rooted U s := hparent parent rfl
    have hleads := h.addWith h.present (superFrame_tidy parent) hrooted fun hne => absurd rfl hne
    refine ⟨hleads, Forest.present_addWith.mpr (.inr rfl), ?_, ?_⟩
    · exact (h.closed.lookup_addWith_next h.present).trans hseated.this
    · exact h.closed.lookup_addWith_next h.present

/-- The class that has been declared has its own methods, and those it inherits. -/
theorem declaredClass_rooted {e : Execution} {serial : Nat} {frame : FrameId}
    (hparent : ∀ cls ∈ e.parent, cls.Rooted U s) (he : s.account.execution? serial = some e)
    (hframe : s.Encloses e frame)
    (hmethods : ∀ method ∈ e.decl.methods,
      method.Lawful U (e.decl :: e.outer.map Activation.decl)) :
    (declaredClass e.decl e.parent serial frame).Rooted U s := by
  intro own rest hsuffix
  rcases List.suffix_cons_iff.mp hsuffix with heq | hsuffix
  · cases heq
    refine ⟨e, he, rfl, fun name fn hfn => ?_⟩
    obtain ⟨rfl, hmem, hname, hinit⟩ := methodTable_find? hfn
    exact ⟨hframe, hmethods _ hmem, hname, hinit⟩
  · cases hcls : e.parent with
    | none =>
      rw [declaredClass, hcls] at hsuffix
      exact absurd (List.suffix_nil.mp hsuffix) (List.cons_ne_nil own rest)
    | some parent =>
      rw [declaredClass, hcls] at hsuffix
      exact hparent parent hcls own rest hsuffix

/-- A declaration of a class, which has been told. -/
theorem declareClass_steps {decl : ClassDecl} {parent : Option Class} (h : s.Sound U)
    (hname : decl.name.lexeme ∉ keywords) (hparent : ∀ cls ∈ parent, cls.Rooted U s)
    (he : s.account.execution? s.machine.nextSerial
      = some ⟨decl, parent, s.account.around s.machine.current⟩)
    (hmethods : ∀ method ∈ decl.methods, method.Lawful U
      (decl :: (s.account.around s.machine.current).map Activation.decl)) :
    ∃ m, declareClass decl parent s.machine = .ok () m ∧ s.Leads U (s.move m) ∧
      m.nextSerial = s.machine.nextSerial + 1 := by
  refine ⟨_, declareClass_run h.present decl parent, ?_, rfl⟩
  -- the name is bound, the frame is created, the class gets its number and is assigned
  have hnil : Value.nil.Rooted U s := trivial
  have hnamed := h.define hname h.plain hnil
  obtain ⟨hframe, hencloses⟩ := methodFrame_leads (e := ⟨decl, parent, _⟩) hnamed.sound
    (fun cls hcls => (hparent cls hcls).onward hnamed.onward) rfl
  have hmade := hnamed.trans hframe
  have hnumbered := hmade.sound.congr (m := { (s.plant _).machine with
    nextSerial := s.machine.nextSerial + 1 }) rfl rfl rfl rfl (Nat.le_succ _)
  have hrooted := declaredClass_rooted (e := ⟨decl, parent, _⟩)
    (fun cls hcls => (hparent cls hcls).onward hmade.onward) he hencloses hmethods
  have hclass : (Value.classRef (declaredClass _ _ _ _)).Rooted U _ :=
    Class.Rooted.onward hrooted hnumbered.onward
  have hassigned := hnumbered.sound.define hname hnumbered.sound.plain hclass
  exact (hmade.trans hnumbered).trans hassigned

end Lox.Machine
