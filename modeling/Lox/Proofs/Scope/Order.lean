/-
`Lox.Proofs.Scope.Order` -- steps that leave everything in order.

Names are looked up when a variable is used, from the frame that is current then
outwards. That finds the variable that the scopes in the text say it is, if the
frames that are visited mirror the scopes around the variable (`Use.Reached`).

Whether they do depends on all that a machine holds being in order: on the frames,
and on the functions, which are run later and elsewhere. A run is followed step by
step (`Ends`). A step that returns something leaves a machine that is in order,
and every variable that was seen on the way was found where it belongs. Here are the
rules for runs that are put together, and the steps that are no matter of a tree.
-/
import Lox.Proofs.Scope.Mirror
import Lox.Proofs.Scope.Watch

set_option autoImplicit false

namespace Lox

/-! ## Where a variable is found -/

namespace Machine

/-- The name is found in the frame, and no frame before it: that is where it is read
and where it is assigned to. -/
structure Finds (m : Machine) (name : Token) (frame : FrameId) : Prop where
  owner : m.forest.owner? m.current name.lexeme = some frame
  read : ∃ value, m.forest.local? frame name.lexeme = some value ∧
    readVariable name m = .ok value m
  write : ∀ value, writeVariable name value m
    = .ok () { m with forest := m.forest.define frame name.lexeme value }

/-- The name is found nowhere, which is a failure of the program. -/
structure Misses (m : Machine) (name : Token) : Prop where
  owner : m.forest.owner? m.current name.lexeme = none
  read : readVariable name m = .error (.failed (.undefinedVariable name)) m
  write : ∀ value, writeVariable name value m = .error (.failed (.undefinedVariable name)) m

variable {m : Machine} {name : Token} {frame : FrameId}

/-- The frame that owns a name is where it is read and assigned. -/
theorem finds_of_owner? (h : m.forest.owner? m.current name.lexeme = some frame) :
    m.Finds name frame := by
  obtain ⟨value, hvalue⟩ := Option.isSome_iff_exists.mp (Forest.local?_owner?_isSome h)
  have hlookup : m.forest.lookup m.current name.lexeme = some value := by
    rw [Forest.lookup_of_owner? h, hvalue]
  exact ⟨h, ⟨value, hvalue, readVariable_of_some hlookup⟩, fun _ => writeVariable_of_some h⟩

/-- A name without an owner is neither read nor assigned. -/
theorem misses_of_owner? (h : m.forest.owner? m.current name.lexeme = none) : m.Misses name :=
  ⟨h, readVariable_of_none (Forest.lookup_of_owner?_none h), fun _ => writeVariable_of_none h⟩

end Machine

/-- There is a frame for each scope around the variable, and the global frame behind
them. If the variable belongs to a scope, it is found in the frame of that scope, so
many frames out from the current one. If it belongs to none, it is found in the
global frame or nowhere. -/
structure Use.Reached (u : Use) (m : Machine) : Prop where
  depth : (m.forest.chain m.current).length = u.scopes.length + 1
  last : (m.forest.chain m.current).getLast? = some Machine.globals
  found : match u.distance? with
    | some d => ∃ frame, frame ≠ Machine.globals ∧
        (m.forest.chain m.current)[d]? = some frame ∧ m.Finds u.name frame
    | none => m.Finds u.name Machine.globals ∨ m.Misses u.name

/-- If frames mirror the scopes around a settled variable, it is found where it belongs. -/
theorem Use.reached_of_mirrored {U : Use → Prop} {V : Vocabulary} {m : Machine}
    {ids : List FrameId} {u : Use} (hm : m.Sound U V) (hsettled : u.Settled)
    (h : u.scopes.Mirrored V m.forest m.current ids) : u.Reached m := by
  have hlength : ids.length = u.scopes.length := h.scopes.length_eq
  -- the ways outwards end in the globals, and none of the scopes has them as its frame
  have hne : ∀ key ∈ ids, key ≠ Machine.globals := by
    rintro key hkey rfl
    exact (List.nodup_append.mp h.nodup).2.2 _ hkey _ (List.mem_singleton.mpr rfl) rfl
  have howner := h.owner? hsettled fun key hkey name => hm.names key name (hne key hkey)
  refine ⟨?_, ?_, ?_⟩
  · rw [h.chain, List.length_append, hlength, List.length_singleton]
  · rw [h.chain, List.getLast?_append, List.getLast?_singleton, Option.some_or]
  · cases hdistance : u.distance? with
    -- the scope that declares the name has a frame that binds it, and no nearer one does
    | some d =>
      rw [hdistance] at howner
      obtain ⟨key, hget, hfound⟩ := howner
      obtain ⟨hlt, -⟩ := List.getElem?_eq_some_iff.mp hget
      refine ⟨key, hne key (List.mem_of_getElem? hget), ?_, Machine.finds_of_owner? hfound⟩
      rw [h.chain, List.getElem?_append_left hlt, hget]
    | none =>
      rw [hdistance] at howner
      -- no scope declares the name, so the search gets to the globals, which may lack it
      dsimp only at howner ⊢
      by_cases hglobal : (m.forest.local? Machine.globals u.name.lexeme).isSome
      · left
        apply Machine.finds_of_owner?
        exact howner.trans (List.find?_cons_of_pos hglobal)
      · right
        apply Machine.misses_of_owner?
        exact howner.trans (List.find?_cons_of_neg hglobal)

namespace Machine

/-! ## Runs that stay in order -/

/-- Every variable that was seen is one of the program and was found where it
belongs. -/
def InPlace (U : Use → Prop) (seen : List Sighting) : Prop :=
  ∀ s ∈ seen, ∃ u, U u ∧ u.name = s.name ∧ u.Reached s.machine

/-- The machine is in order, and so is what was seen. -/
structure Watched.Sound (U : Use → Prop) (V : Vocabulary) (w : Watched) : Prop where
  machine : w.machine.Sound U V
  seen : InPlace U w.seen

/-- How a run ends that began with the machine `m`: with a value for which `post`
holds, in the same frame and in order; or early. What was seen is in order in any
case. -/
def Ends {α : Type} (U : Use → Prop) (V : Vocabulary) (m : Machine)
    (post : Vocabulary → Forest Value → α → Prop) : EStateM.Result Halt Watched α → Prop
  | .ok a w => w.machine.current = m.current ∧
      ∃ V', Later V m.forest V' w.machine.forest ∧ w.Sound U V' ∧ post V' w.machine.forest a
  | .error _ w => InPlace U w.seen

variable {U : Use → Prop} {V V' : Vocabulary} {m : Machine} {w : Watched}

namespace Ends

variable {α β : Type} {x : WatchedRun α} {f : α → WatchedRun β}
  {post post' : Vocabulary → Forest Value → α → Prop}
  {next : Vocabulary → Forest Value → β → Prop}

/-- Returning something sees nothing. -/
protected theorem pure {a : α} (hw : w.Sound U V) (hpost : post V w.machine.forest a) :
    Ends U V w.machine post ((pure a : WatchedRun α) w) :=
  ⟨rfl, V, .refl _ _, hw, hpost⟩

protected theorem throw {halt : Halt} (hw : w.Sound U V) :
    Ends U V m post ((throw halt : WatchedRun α) w) :=
  hw.seen

/-- What holds of a result may be weakened to what follows later on. -/
theorem imp {result : EStateM.Result Halt Watched α} (h : Ends U V m post result)
    (hpost : ∀ V' f a, Later V m.forest V' f → post V' f a → post' V' f a) :
    Ends U V m post' result := by
  cases result with
  | ok a w =>
    obtain ⟨hcurrent, V', hlater, hw, ha⟩ := h
    exact ⟨hcurrent, V', hlater, hw, hpost V' _ a hlater ha⟩
  | error halt w => exact h

/-- What holds of a run from a later machine on. -/
theorem later {m' : Machine} {result : EStateM.Result Halt Watched α}
    (hlater : Later V m.forest V' m'.forest) (hcurrent : m'.current = m.current)
    (h : Ends U V' m' post result) : Ends U V m post result := by
  cases result with
  | ok a w =>
    obtain ⟨hcurrent', V'', hlater', hw, ha⟩ := h
    exact ⟨hcurrent'.trans hcurrent, V'', hlater.trans hlater', hw, ha⟩
  | error halt w => exact h

/-- Two runs after one another. -/
protected theorem bind (hx : Ends U V w.machine post (x w))
    (hf : ∀ a V' w', w'.machine.current = w.machine.current →
      Later V w.machine.forest V' w'.machine.forest → w'.Sound U V' →
      post V' w'.machine.forest a → Ends U V' w'.machine next (f a w')) :
    Ends U V w.machine next ((x >>= f) w) := by
  show Ends U V w.machine next (EStateM.bind x f w)
  unfold EStateM.bind
  cases hrun : x w with
  | ok a w' =>
    rw [hrun] at hx
    obtain ⟨hcurrent, V', hlater, hw', ha⟩ := hx
    exact (hf a V' w' hcurrent hlater hw' ha).later hlater hcurrent
  | error halt w' =>
    rw [hrun] at hx
    exact hx

/-- A run in another frame, which is left again. -/
protected theorem within {frame : FrameId}
    (h : Ends U V { w.machine with current := frame } post
      (x { w with machine := { w.machine with current := frame } })) :
    Ends U V w.machine post (Watch.within frame x w) := by
  unfold Watch.within
  cases hrun : x { w with machine := { w.machine with current := frame } } with
  | ok a w' =>
    rw [hrun] at h
    obtain ⟨-, V', hlater, hw', ha⟩ := h
    exact ⟨rfl, V', hlater, ⟨hw'.machine.congr rfl rfl rfl, hw'.seen⟩, ha⟩
  | error halt w' =>
    rw [hrun] at h
    exact h

/-- Looking at the machine. -/
protected theorem get {g : Watched → WatchedRun β} (h : Ends U V w.machine next (g w w)) :
    Ends U V w.machine next (((MonadState.get : WatchedRun Watched) >>= g) w) :=
  h

/-- A variable is about to be looked up, and it is one that will be found where it
belongs. -/
protected theorem sight {g : Unit → WatchedRun β} {name : Token} (hw : w.Sound U V)
    (hname : ∃ u, U u ∧ u.name = name ∧ u.Reached w.machine)
    (h : ∀ w', w'.machine = w.machine → w'.Sound U V → Ends U V w'.machine next (g () w')) :
    Ends U V w.machine next ((Machine.sight name >>= g) w) := by
  refine h ⟨w.machine, ⟨name, w.machine⟩ :: w.seen⟩ rfl ⟨hw.machine, fun s hs => ?_⟩
  rcases List.mem_cons.mp hs with rfl | hs
  · exact hname
  · exact hw.seen s hs

/-- What is known of the same run from elsewhere: the names it may bind. -/
theorem growing {y : Run α} {may : FrameId → FrameId → String → Prop}
    (h : Ends U V w.machine post (x w)) (herases : Erases Watched.machine x y) (hbinds : Binds may y) :
    Ends U V w.machine
      (fun V' f a => post V' f a ∧ w.machine.forest.Grows (may w.machine.current) f) (x w) := by
  have hrun := herases w
  have hgrows := hbinds.forest w.machine
  cases hx : x w with
  | ok a w' =>
    rw [hx] at h hrun
    obtain ⟨hcurrent, V', hlater, hw', ha⟩ := h
    rw [perform_snd_of_ok hrun.symm] at hgrows
    exact ⟨hcurrent, V', hlater, hw', ha, hgrows⟩
  | error halt w' =>
    rw [hx] at h
    exact h

/-- Where nothing is bound, the frames go on mirroring the scopes. -/
theorem mirrored {y : Run α} {ids : List FrameId} {around : Nesting}
    (h : Ends U V w.machine post (x w)) (herases : Erases Watched.machine x y) (hbinds : Binds nothing y)
    (hmirrored : around.Mirrored V w.machine.forest w.machine.current ids) :
    Ends U V w.machine
      (fun V' f a => post V' f a ∧ around.Mirrored V' f w.machine.current ids) (x w) := by
  refine (h.growing herases hbinds).imp fun V' f a hlater hpost => ⟨hpost.1, ?_⟩
  refine hmirrored.later hlater fun key hkey name hname => ?_
  obtain ⟨frame, hframe⟩ := hmirrored.present_of_mem hkey
  exact (hpost.2.local?_cases hframe hname).resolve_right id

end Ends

/-! ## Steps in which no variable is looked up -/

section Unseen

variable {α β : Type} {post : Vocabulary → Forest Value → α → Prop}

/-- Steps after one another that are not watched are a step that is not. -/
theorem unseen_bind (x : Run α) (f : α → Run β) :
    unseen (x >>= f) = unseen x >>= fun a => unseen (f a) := by
  funext w
  show unseen (x >>= f) w = EStateM.bind (unseen x) (fun a => unseen (f a)) w
  unfold EStateM.bind
  cases hrun : x w.machine with
  | ok a m =>
    have hx : unseen x w = .ok a { w with machine := m } := by rw [unseen, hrun]
    rw [hx, unseen, bind_of_ok hrun]
    rfl
  | error halt m =>
    have hx : unseen x w = .error halt { w with machine := m } := by rw [unseen, hrun]
    rw [hx, unseen, bind_of_error hrun]

/-- A failure leaves everything in order. -/
theorem fail_ends (hw : w.Sound U V) (failure : Failure) :
    Ends U V m post (unseen (fail failure) w) :=
  hw.seen

/-- A computed result is as good as what was computed. -/
theorem liftExcept_ends {result : Except Failure α} (hw : w.Sound U V)
    (hpost : ∀ a, result = .ok a → post V w.machine.forest a) :
    Ends U V w.machine post (unseen (liftExcept result) w) := by
  cases result with
  | ok a => exact .pure hw (hpost a rfl)
  | error failure => exact fail_ends hw failure

/-- Looking at the machine. -/
theorem get_ends {f : Machine → WatchedRun α}
    (h : Ends U V w.machine post (f w.machine w)) :
    Ends U V w.machine post ((unseen get >>= f) w) :=
  h

/-- A step that leaves frames, fields and functions of the host alone. -/
theorem Watched.Sound.congr {m : Machine} (hw : w.Sound U V) (hforest : m.forest = w.machine.forest)
    (hfields : m.fields = w.machine.fields) (hhosts : m.hosts = w.machine.hosts) :
    Watched.Sound U V { w with machine := m } :=
  ⟨hw.machine.congr hforest hfields hhosts, hw.seen⟩

/-- Which frame is the current one does not matter for that. -/
theorem Watched.Sound.inFrame (hw : w.Sound U V) (frame : FrameId) :
    Watched.Sound U V { w with machine := { w.machine with current := frame } } :=
  hw.congr rfl rfl rfl

/-- A number that is given out is in no frame. -/
theorem newSerial_ends (hw : w.Sound U V) :
    Ends U V w.machine (fun _ _ _ => True) (unseen newSerial w) :=
  ⟨rfl, V, .refl _ _, hw.congr rfl rfl rfl, trivial⟩

/-- Making a function changes neither the frames nor what is known of them. -/
theorem newClosure_ends {fn : Closure} (hw : w.Sound U V) :
    Ends U V w.machine
      (fun V' f value => V' = V ∧ f = w.machine.forest ∧ ∃ serial, value = .function serial fn)
      (unseen (newClosure fn) w) :=
  ⟨rfl, V, .refl _ _, hw.congr rfl rfl rfl, rfl, rfl, _, rfl⟩

/-- A new instance has no fields yet. -/
theorem newInstance_ends (hw : w.Sound U V) :
    Ends U V w.machine (fun _ _ _ => True) (unseen newInstance w) := by
  refine ⟨rfl, V, .refl _ _, ⟨⟨hw.machine.root, hw.machine.values, ?_, hw.machine.names,
    hw.machine.hosts⟩, hw.seen⟩, trivial⟩
  intro i fields hi name value hfind
  replace hi : (w.machine.fields.push .empty)[i]? = some fields := hi
  rw [Array.getElem?_push] at hi
  split at hi
  · cases hi
    rw [Table.find?_empty] at hfind
    cases hfind
  · exact hw.machine.fields i fields hi name value hfind

/-- A field may hold what is in order. -/
theorem writeField_ends {value : Value} (hw : w.Sound U V) (id : InstanceId) (name : String)
    (hvalue : value.Placed U V w.machine.forest) :
    Ends U V w.machine (fun _ _ _ => True) (unseen (writeField id name value) w) := by
  refine ⟨rfl, V, .refl _ _, ⟨⟨hw.machine.root, hw.machine.values, ?_, hw.machine.names,
    hw.machine.hosts⟩, hw.seen⟩, trivial⟩
  intro i fields hi key value' hfind
  replace hi : (w.machine.fields.modify id.index fun fields => fields.insert name value)[i]?
    = some fields := hi
  rw [Array.getElem?_modify] at hi
  split at hi
  · obtain ⟨old, hold, rfl⟩ := Option.map_eq_some_iff.mp hi
    rw [Table.find?_insert] at hfind
    split at hfind
    · cases hfind
      exact hvalue
    · exact hw.machine.fields i old hold key value' hfind
  · exact hw.machine.fields i fields hi key value' hfind

/-- Binding a name in a frame whose vocabulary has it. -/
theorem define_ends {frame : FrameId} {name : String} {value : Value} (hw : w.Sound U V)
    (hname : frame ≠ globals → name ∈ V frame)
    (hvalue : value.Placed U V (w.machine.forest.define frame name value)) :
    Ends U V w.machine
      (fun V' f _ => V' = V ∧ f = w.machine.forest.define frame name value)
      (unseen (define frame name value) w) := by
  exact ⟨rfl, V, .define _ _ _ _ _, ⟨hw.machine.define hname hvalue, hw.seen⟩, rfl, rfl⟩

/-- A name of its vocabulary may be bound in the current frame, and any name in the global one.
-/
theorem defineHere_ends {name : String} {value : Value} (hw : w.Sound U V)
    (hname : w.machine.current ≠ globals → name ∈ V w.machine.current)
    (hvalue : value.Placed U V (w.machine.forest.define w.machine.current name value)) :
    Ends U V w.machine
      (fun V' f _ => V' = V ∧ f = w.machine.forest.define w.machine.current name value)
      (unseen (defineHere name value) w) :=
  define_ends hw hname hvalue

/-- A new frame, with the names that may be bound in it. -/
theorem newFrame_ends (hw : w.Sound U V) (parent : FrameId) (names : List String) :
    Ends U V w.machine
      (fun V' f frame => frame = w.machine.forest.next ∧ V' = V.extend frame names ∧
        f = w.machine.forest.addChild parent)
      (unseen (newFrame parent) w) :=
  ⟨rfl, _, .newFrame V w.machine.forest parent names,
    ⟨hw.machine.newFrame parent names, hw.seen⟩, rfl, rfl, rfl⟩

/-- A name that is read is that of a value in order. -/
theorem readVariable_ends (hw : w.Sound U V) (name : Token) :
    Ends U V w.machine (fun V' f value => value.Placed U V' f) (unseen (readVariable name) w) := by
  cases hlookup : w.machine.forest.lookup w.machine.current name.lexeme with
  | some value =>
    rw [unseen, readVariable_of_some hlookup]
    exact ⟨rfl, V, .refl _ _, hw, hw.machine.lookup hlookup⟩
  | none =>
    rw [unseen, readVariable_of_none hlookup]
    exact hw.seen

/-- A name that is assigned to is bound already. -/
theorem writeVariable_ends {value : Value} (hw : w.Sound U V) (name : Token)
    (hvalue : ∀ f', Later V w.machine.forest V f' → value.Placed U V f') :
    Ends U V w.machine (fun _ _ _ => True) (unseen (writeVariable name value) w) := by
  cases howner : w.machine.forest.owner? w.machine.current name.lexeme with
  | some owner =>
    rw [unseen, writeVariable_of_some howner]
    have hlater := Later.define V w.machine.forest owner name.lexeme value
    have hname : owner ≠ globals → name.lexeme ∈ V owner :=
      fun hne => hw.machine.names owner _ hne (Forest.local?_owner?_isSome howner)
    exact ⟨rfl, V, hlater, ⟨hw.machine.define hname (hvalue _ hlater), hw.seen⟩, trivial⟩
  | none =>
    rw [unseen, writeVariable_of_none howner]
    exact hw.seen

/-- Functions of the host return nothing that has functions of the program in it. -/
theorem callHost_ends (hw : w.Sound U V) (fn : HostFunction) (args : List Value) :
    Ends U V w.machine (fun V' f value => value.Placed U V' f) (unseen (callHost fn args) w) := by
  rw [callHost, unseen_bind]
  refine get_ends ?_
  cases hbody : w.machine.hosts[fn.index]? with
  | none => exact .pure hw trivial
  | some body =>
    dsimp only
    cases hresult : body args with
    | ok value => exact .pure hw (hw.machine.hosts _ body hbody args value hresult _ _)
    | error message => exact fail_ends hw _

/-- Printing changes the sink only. -/
theorem printLine_ends (hw : w.Sound U V) (text : String) :
    Ends U V w.machine (fun _ _ _ => True) (unseen (printLine text) w) := by
  have hrun : printLine text w.machine
      = if w.machine.sink.fits (text ++ "\n").utf8ByteSize then
          .ok () { w.machine with sink := w.machine.sink.write (text ++ "\n") }
        else .error (.failed (.output Sink.fullMessage))
          { w.machine with sink := w.machine.sink.write (text ++ "\n") } := rfl
  unfold unseen
  rw [hrun]
  split
  · rename_i a m hok
    split at hok
    · cases hok
      exact ⟨rfl, V, .refl _ _, hw.congr rfl rfl rfl, trivial⟩
    · cases hok
  · exact hw.seen

theorem flush_ends (hw : w.Sound U V) :
    Ends U V w.machine (fun _ _ _ => True) (unseen flush w) := by
  rw [flush, unseen_bind]
  refine get_ends ?_
  split
  · exact fail_ends hw _
  · exact .pure hw trivial

/-- Looking a name up, without saying that it is a variable. -/
theorem lookupHere_ends {f : Option Value → WatchedRun α} {name : String}
    (h : Ends U V w.machine post
      (f (w.machine.forest.lookup w.machine.current name) w)) :
    Ends U V w.machine post ((unseen (lookupHere name) >>= f) w) :=
  h

/-! ### Parameters -/

/-- Parameters are bound from the first to the last. -/
theorem bindParameters_cons (frame : FrameId) (param : Token) (params : List Token) (arg : Value)
    (args : List Value) : bindParameters frame (param :: params) (arg :: args) =
      define frame param.lexeme arg >>= fun _ => bindParameters frame params args := rfl

/-- With as many arguments as parameters, just these are bound in addition. -/
theorem bindParameters_ends {frame : FrameId} {params : List Token} {args : List Value}
    (hw : w.Sound U V) (hpresent : ∃ found, w.machine.forest.frame? frame = some found)
    (hlength : args.length = params.length) (hnames : ∀ param ∈ params, param.lexeme ∈ V frame)
    (hargs : ∀ arg ∈ args, arg.Placed U V w.machine.forest) :
    Ends U V w.machine
      (fun V' f _ => V' = V ∧ ∀ name, (f.local? frame name).isSome ↔
        name ∈ params.map Token.lexeme ∨ (w.machine.forest.local? frame name).isSome)
      (unseen (bindParameters frame params args) w) := by
  induction params generalizing args w with
  | nil =>
    obtain rfl := List.eq_nil_of_length_eq_zero hlength
    exact .pure hw ⟨rfl, fun name => by simp⟩
  | cons param params ih =>
    obtain ⟨arg, args, rfl⟩ := List.exists_cons_of_length_eq_add_one hlength
    rw [bindParameters_cons, unseen_bind]
    have hvalue := (hargs arg List.mem_cons_self).later
      (Later.define V w.machine.forest frame param.lexeme arg)
    refine (define_ends hw (fun _ => hnames param List.mem_cons_self) hvalue).bind
      fun _ V' w' _ hlater hw' hdefined => ?_
    obtain ⟨rfl, hforest⟩ := hdefined
    obtain ⟨found, hfound⟩ := hpresent
    refine (ih hw' (hlater.grows.frame? hfound) (Nat.succ.inj hlength)
      (fun param hparam => hnames param (List.mem_cons_of_mem _ hparam))
      fun arg harg => (hargs arg (List.mem_cons_of_mem _ harg)).later hlater).imp
      fun V'' f _ _ hbound => ⟨hbound.1, fun name => ?_⟩
    rw [hbound.2, hforest, Forest.local?_define hfound, List.map_cons, List.mem_cons]
    by_cases hname : name = param.lexeme <;> simp [hname]

/-! ### Frames for a receiver and for a superclass -/

/-- A frame in which one name has been bound. -/
def frameWith (parent : FrameId) (name : String) (value : Value) : Run FrameId := do
  let frame ← newFrame parent
  define frame name value
  return frame

/-- A new frame with one name mirrors a scope in which that name is declared, inside of the
scopes that its parent mirrors. -/
theorem frameWith_ends {parent : FrameId} {ids : List FrameId} {around : Nesting} {value : Value}
    (hw : w.Sound U V) (h : around.Mirrored V w.machine.forest parent ids)
    (hcrossed : ∀ scope ∈ around, scope.crossed = true) (name : String)
    (hvalue : value.Placed U V w.machine.forest) :
    Ends U V w.machine
      (fun V' f frame => Nesting.Mirrored V' f frame (frame :: ids) (⟨[name], [], true⟩ :: around))
      (unseen (frameWith parent name value) w) := by
  rw [frameWith, unseen_bind]
  refine (newFrame_ends hw parent [name]).bind fun frame V' w' _ hlater hw' hnew => ?_
  obtain ⟨rfl, rfl, hforest⟩ := hnew
  rw [unseen_bind]
  refine (define_ends hw' (fun _ => ?_) ?_).bind fun _ V'' w'' _ _ hw'' hdefined => ?_
  · rw [Vocabulary.extend, if_pos rfl]
    exact List.mem_singleton.mpr rfl
  · exact (hvalue.later hlater).later (.define _ _ _ _ _)
  · obtain ⟨rfl, hforest'⟩ := hdefined
    refine .pure hw'' ?_
    rw [hforest', hforest]
    exact h.enter_keyword hw.machine.root_present hcrossed name value

/-- A method that is given its receiver. -/
theorem bind_ends {method : Closure} {receiver : Value} (hw : w.Sound U V)
    (hmethod : method.PlacedMethod U V w.machine.forest)
    (hreceiver : receiver.Placed U V w.machine.forest) :
    Ends U V w.machine (fun V' f fn => fn.Placed U V' f ∧ fn.decl = method.decl)
      (unseen (Machine.bind method receiver) w) := by
  have hbind : Machine.bind method receiver = frameWith method.frame "this" receiver >>=
      fun frame => pure { method with frame } := rfl
  obtain ⟨ids, around, hmirrored, hcrossed, hfits⟩ := hmethod
  rw [hbind, unseen_bind]
  refine (frameWith_ends hw hmirrored hcrossed "this" hreceiver).bind
    fun frame V' w' _ _ hw' hframe => ?_
  refine .pure hw' ⟨⟨frame :: ids, around.receiver, hframe, ?_, hfits⟩, rfl⟩
  intro scope hscope
  rcases List.mem_cons.mp hscope with rfl | hscope
  · rfl
  · exact hcrossed scope hscope

/-- A method that is given its receiver, as a value. -/
theorem bindClosure_ends {method : Closure} {receiver : Value} (hw : w.Sound U V)
    (hmethod : method.PlacedMethod U V w.machine.forest)
    (hreceiver : receiver.Placed U V w.machine.forest) :
    Ends U V w.machine (fun V' f value => value.Placed U V' f)
      (unseen (Machine.bind method receiver >>= newClosure) w) := by
  rw [unseen_bind]
  refine (bind_ends hw hmethod hreceiver).bind fun fn V' w' _ _ hw' hfn => ?_
  refine (newClosure_ends hw').imp fun V'' f value _ hvalue => ?_
  obtain ⟨rfl, rfl, serial, rfl⟩ := hvalue
  exact hfn.1

/-- A property is a field, which is in order, or a method that gets its receiver. -/
theorem readProperty_ends {cls : Class} {id : InstanceId} (hw : w.Sound U V)
    (hcls : cls.Placed U V w.machine.forest) (name : Token) :
    Ends U V w.machine (fun V' f value => value.Placed U V' f)
      (unseen (readProperty cls id name) w) := by
  rw [readProperty, unseen_bind]
  refine get_ends ?_
  cases hfield : (w.machine.fields[id.index]?).bind fun fields => fields.find? name.lexeme with
  | some value =>
    obtain ⟨fields, hfields, hfind⟩ := Option.bind_eq_some_iff.mp hfield
    exact .pure hw (hw.machine.fields _ fields hfields _ value hfind)
  | none =>
    dsimp only
    cases hmethod : cls.findMethod? name.lexeme with
    | some method => exact bindClosure_ends hw (hcls.findMethod? hmethod) hcls
    | none => exact fail_ends hw _

theorem readSuper_ends (hw : w.Sound U V) (keyword method : Token) :
    Ends U V w.machine (fun V' f value => value.Placed U V' f)
      (unseen (readSuper keyword method) w) := by
  rw [readSuper, unseen_bind]
  refine lookupHere_ends ?_
  split
  · rename_i parent hparent
    rw [unseen_bind]
    refine lookupHere_ends ?_
    split
    · rename_i cls id hreceiver
      have hcls : (Value.instanceOf cls id).Placed U V w.machine.forest :=
        hw.machine.lookup hreceiver
      have hsuper : (Value.classRef parent).Placed U V w.machine.forest :=
        hw.machine.lookup hparent
      cases hfound : parent.findMethod? method.lexeme with
      | some found => exact bindClosure_ends hw (Class.Placed.findMethod? hsuper hfound) hcls
      | none => exact fail_ends hw _
    · exact fail_ends hw _
  · exact fail_ends hw _

end Unseen

end Machine

end Lox
