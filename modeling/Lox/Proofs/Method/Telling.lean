/-
`Lox.Proofs.Method.Telling` -- stories in which `this` and `super` are found.

A run that is told goes from scene to scene, and each of its moments is one of them.
So it is said of a run what it leads to (`Runs`): all moments on the way are in order,
each leads to all later ones, and the declarations of classes that the account speaks of
have been told. This holds however the run ends. Here are the rules for runs that are
put together, for telling something and for a step of the machine.
-/
import Lox.Proofs.Method.Step

set_option autoImplicit false

namespace Lox.Machine

/-! ## Moments -/

/-- The classes around the code that is run in the current frame. -/
def Scene.classes (s : Scene Surroundings) : List ClassDecl :=
  (s.account.around s.machine.current).map Activation.decl

/-- What is called is rooted. -/
def Callee.Rooted (U : SuperUse → Prop) (s : Scene Surroundings) : Callee → Prop
  | .function fn => fn.Rooted U s
  | .classRef cls => cls.Rooted U s
  | .host _ => True

/-- What is run at a moment, and is in order. -/
def Event.Lawful (U : SuperUse → Prop) (s : Scene Surroundings) : Event → Prop
  | .evaluates expr => s.Fresh ∧ expr.Lawful U s.classes
  | .calls callee args => s.Fresh ∧ callee.Rooted U s ∧ ∀ arg ∈ args, arg.Rooted U s
  | _ => True

/-- The moment at which a class gets a number. -/
structure Moment.Declares (mo : Moment Surroundings) (serial : Nat) (e : Execution) : Prop where
  event : mo.event = .declares e.decl e.parent
  serial : mo.machine.nextSerial = serial
  outer : mo.account.around mo.machine.current = e.outer

/-- A class is called, which creates an instance. -/
def Event.Creates : Event → Prop
  | .calls (.classRef _) _ => True
  | _ => False

/-- The moment was before the scene. If a class was called then, its instance has been
created since. -/
structure Moment.Before (mo : Moment Surroundings) (s : Scene Surroundings) : Prop where
  onward : mo.toScene.Onward s
  created : mo.event.Creates → mo.machine.fields.size < s.machine.fields.size

/-- A story whose moments are all in order, and lead to one another. -/
structure Story.Sound (U : SuperUse → Prop) (w : Story Surroundings) : Prop where
  scene : w.toScene.Sound U
  fresh : w.toScene.Fresh
  moments : ∀ mo ∈ w.moments, mo.toScene.Sound U ∧ mo.event.Lawful U mo.toScene
  before : ∀ mo ∈ w.moments, mo.Before w.toScene
  order : w.moments.Pairwise fun later earlier => earlier.Before later.toScene

/-- The second story is the first one told on. -/
structure Story.Leads (U : SuperUse → Prop) (w w' : Story Surroundings) : Prop where
  sound : w'.Sound U
  onward : w.toScene.Onward w'.toScene
  current : w'.machine.current = w.machine.current
  kept : w.moments ⊆ w'.moments
  told : ∀ serial e, w'.account.execution? serial = some e →
    w.account.execution? serial = some e ∨ ∃ mo ∈ w'.moments, mo.Declares serial e

/-- How a run ends: with a story that has been told on, and if it returns something then
with a value for which `post` holds. -/
def Runs {α : Type} (U : SuperUse → Prop) (w : Story Surroundings)
    (post : Scene Surroundings → α → Prop) : EStateM.Result Halt (Story Surroundings) α → Prop
  | .ok a w' => w.Leads U w' ∧ post w'.toScene a
  | .error _ w' => w.Leads U w'

variable {U : SuperUse → Prop} {w w' w'' : Story Surroundings} {s s' : Scene Surroundings}

/-- A moment before a scene was before all later ones. -/
theorem Moment.Before.onward_trans {mo : Moment Surroundings} (h : mo.Before s)
    (honward : s.Onward s') : mo.Before s' :=
  ⟨h.onward.trans honward, fun hcreates =>
    Nat.lt_of_lt_of_le (h.created hcreates) honward.fields⟩

namespace Story

/-- A story in order leads to itself. -/
protected theorem Sound.leads (h : w.Sound U) : w.Leads U w :=
  ⟨h, .refl _, rfl, List.Subset.refl _, fun _ _ he => .inl he⟩

/-- Being told on further is being told on. -/
theorem Leads.trans (h : w.Leads U w') (h' : w'.Leads U w'') : w.Leads U w'' := by
  refine ⟨h'.sound, h.onward.trans h'.onward, h'.current.trans h.current,
    List.Subset.trans h.kept h'.kept, fun serial e he => ?_⟩
  rcases h'.told serial e he with he | ⟨mo, hmo, hdeclares⟩
  · exact (h.told serial e he).imp_right fun ⟨mo, hmo, hdeclares⟩ => ⟨mo, h'.kept hmo, hdeclares⟩
  · exact .inr ⟨mo, hmo, hdeclares⟩

/-- The classes around are still the same when a run has ended. -/
theorem Leads.classes (h : w.Leads U w') (hw : w.Sound U) :
    w'.toScene.classes = w.toScene.classes := by
  unfold Scene.classes
  rw [h.current, h.onward.around hw.scene.present]

/-- The story with a later scene, and the moment at which that is the scene. -/
theorem Sound.on {event : Event} (h : w.Sound U) (hscene : w.toScene.Leads U s)
    (hfresh : s.Fresh) (hevent : event.Lawful U s)
    (hcreates : ¬ event.Creates)
    (hsame : s.account.execution? = w.account.execution?) :
    w.Leads U ⟨s, ⟨s, event⟩ :: w.moments⟩ := by
  have hbefore : ∀ mo ∈ w.moments, mo.Before s :=
    fun mo hmo => (h.before mo hmo).onward_trans hscene.onward
  have hnow : Moment.Before ⟨s, event⟩ s := ⟨.refl s, fun h => absurd h hcreates⟩
  exact ⟨⟨hscene.sound, hfresh, List.forall_mem_cons.mpr ⟨⟨hscene.sound, hevent⟩, h.moments⟩,
      List.forall_mem_cons.mpr ⟨hnow, hbefore⟩, List.pairwise_cons.mpr ⟨hbefore, h.order⟩⟩,
    hscene.onward, hscene.current, List.subset_cons_self _ _, fun serial e he => .inl (hsame ▸ he)⟩

/-- The same for a moment and the step behind it, when not everything is in order between
the two: a number has been promised to a class, or an instance to a call. -/
theorem Sound.promise {event : Event} (h : w.Sound U) (hscene : w.toScene.Leads U s)
    (hstep : s.Leads U s') (hfresh : s'.Fresh) (hevent : event.Lawful U s)
    (hcreated : event.Creates → s.machine.fields.size < s'.machine.fields.size)
    (htold : ∀ serial e, s'.account.execution? serial = some e →
      w.account.execution? serial = some e ∨ Moment.Declares ⟨s, event⟩ serial e) :
    w.Leads U ⟨s', ⟨s', .stepped⟩ :: ⟨s, event⟩ :: w.moments⟩ := by
  have hsteps := hscene.trans hstep
  have hbefore : ∀ mo ∈ w.moments, mo.Before s :=
    fun mo hmo => (h.before mo hmo).onward_trans hscene.onward
  have hbefore' : ∀ mo ∈ ⟨s, event⟩ :: w.moments, mo.Before s' :=
    List.forall_mem_cons.mpr ⟨⟨hstep.onward, hcreated⟩, fun mo hmo =>
      (hbefore mo hmo).onward_trans hstep.onward⟩
  have hnow : Moment.Before ⟨s', .stepped⟩ s' := ⟨.refl s', False.elim⟩
  refine ⟨⟨hsteps.sound, hfresh, ?_, List.forall_mem_cons.mpr ⟨hnow, hbefore'⟩, ?_⟩,
    hsteps.onward, hsteps.current, fun mo hmo => List.mem_cons_of_mem _ (List.mem_cons_of_mem _ hmo),
    fun serial e he => ?_⟩
  · exact List.forall_mem_cons.mpr ⟨⟨hsteps.sound, trivial⟩,
      List.forall_mem_cons.mpr ⟨⟨hscene.sound, hevent⟩, h.moments⟩⟩
  · exact List.pairwise_cons.mpr ⟨hbefore', List.pairwise_cons.mpr ⟨hbefore, h.order⟩⟩
  · exact (htold serial e he).imp_right fun hdeclares =>
      ⟨_, List.mem_cons_of_mem _ List.mem_cons_self, hdeclares⟩

end Story

/-! ## Runs that are put together -/

namespace Runs

variable {α β : Type} {x : Telling Surroundings α} {f : α → Telling Surroundings β}
  {post post' : Scene Surroundings → α → Prop} {next : Scene Surroundings → β → Prop}

/-- Returning something tells nothing. -/
protected theorem pure {a : α} (hw : w.Sound U) (hpost : post w.toScene a) :
    Runs U w post ((pure a : Telling Surroundings α) w) :=
  ⟨hw.leads, hpost⟩

protected theorem throw {halt : Halt} (hw : w.Sound U) :
    Runs U w post ((throw halt : Telling Surroundings α) w) :=
  hw.leads

/-- What holds of a result may be weakened to what follows later on. -/
theorem imp {result : EStateM.Result Halt (Story Surroundings) α} (h : Runs U w post result)
    (hpost : ∀ w' a, w.Leads U w' → post w'.toScene a → post' w'.toScene a) :
    Runs U w post' result := by
  cases result with
  | ok a w' => exact ⟨h.1, hpost w' a h.1 h.2⟩
  | error halt w' => exact h

/-- What a run leads to that begins where another one has led. -/
theorem after {result : EStateM.Result Halt (Story Surroundings) α} (hleads : w.Leads U w')
    (h : Runs U w' post result) : Runs U w post result := by
  cases result with
  | ok a w'' => exact ⟨hleads.trans h.1, h.2⟩
  | error halt w'' => exact hleads.trans h

/-- Two runs after one another. -/
protected theorem bind (hx : Runs U w post (x w))
    (hf : ∀ a w', w.Leads U w' → post w'.toScene a → Runs U w' next (f a w')) :
    Runs U w next ((x >>= f) w) := by
  show Runs U w next (EStateM.bind x f w)
  unfold EStateM.bind
  cases hrun : x w with
  | ok a w' =>
    rw [hrun] at hx
    exact (hf a w' hx.1 hx.2).after hx.1
  | error halt w' =>
    rw [hrun] at hx
    exact hx

/-- Looking at the machine. -/
protected theorem get {g : Story Surroundings → Telling Surroundings β}
    (h : Runs U w next (g w w)) :
    Runs U w next (((MonadState.get : Telling Surroundings (Story Surroundings)) >>= g) w) :=
  h

/-- To tell something is to go on with a story that has been told on. -/
theorem tell {g : Unit → Telling Surroundings β} {event : Event}
    (hleads : w.Leads U (w.with Surroundings.note event))
    (h : Runs U (w.with Surroundings.note event) next (g () (w.with Surroundings.note event))) :
    Runs U w next ((Machine.tell Surroundings.note event >>= g) w) :=
  h.after hleads

/-- A step of the machine. -/
theorem tacit {run : Run α} (hw : w.Sound U)
    (h : Steps U w.toScene post (run w.machine)) :
    Runs U w post (Machine.tacit Surroundings.note run w) := by
  have hleads : ∀ m, w.toScene.Leads U (w.toScene.move m) →
      w.Leads U (w.step Surroundings.note m) := fun m hscene =>
    hw.on hscene (fun serial e he => Nat.lt_of_lt_of_le (hw.fresh serial e he)
      hscene.onward.serial) trivial id rfl
  unfold Machine.tacit
  cases hrun : run w.machine with
  | ok a m =>
    rw [hrun] at h
    exact ⟨hleads m h.1, h.2⟩
  | error halt m =>
    rw [hrun] at h
    exact hleads m h

end Runs

/-! ## Other frames -/

/-- The scene in another frame. -/
def Scene.inFrame (s : Scene Surroundings) (frame : FrameId) : Scene Surroundings :=
  s.move { s.machine with current := frame }

/-- Entering a frame changes nothing that is seen. -/
theorem Scene.onward_inFrame (s : Scene Surroundings) (frame : FrameId) :
    s.Onward (s.inFrame frame) :=
  ⟨id, fun _ _ _ => rfl, fun _ _ _ => rfl, fun _ => rfl, id, Nat.le_refl _, Nat.le_refl _⟩

/-- A frame that binds none of the two names may be entered. -/
theorem Scene.Sound.inFrame {frame : FrameId} (h : s.Sound U)
    (hframe : s.machine.forest.Present frame)
    (hplain : ∀ key ∈ keywords, s.machine.forest.local? frame key = none) :
    (s.inFrame frame).Sound U where
  tidy := h.tidy
  closed := h.closed
  seated hid hsuper := (h.seated hid hsuper).onward hid (s.onward_inFrame frame)
  executions := h.executions
  values value hvalue := by
    have hheld : s.machine.Holds value := by
      cases hvalue with
      | name hlocal => exact .name hlocal
      | field hfields hfind => exact .field hfields hfind
    exact (h.values value hheld).onward (s.onward_inFrame frame)
  hosts i body hbody args value hresult :=
    (h.hosts i body hbody args value hresult).imp_right (·.onward (s.onward_inFrame frame))
  present := hframe
  plain := hplain

/-- The story in another frame. -/
def Story.inFrame (w : Story Surroundings) (frame : FrameId) : Story Surroundings :=
  ⟨w.toScene.inFrame frame, w.moments⟩

theorem Story.Sound.inFrame {frame : FrameId} (h : w.Sound U)
    (hframe : w.machine.forest.Present frame)
    (hplain : ∀ key ∈ keywords, w.machine.forest.local? frame key = none) :
    (w.inFrame frame).Sound U :=
  ⟨h.scene.inFrame hframe hplain, h.fresh, h.moments, fun mo hmo =>
    (h.before mo hmo).onward_trans (w.toScene.onward_inFrame frame), h.order⟩

/-- A run in another frame, which is left again. -/
theorem Runs.within {α : Type} {x : Telling Surroundings α}
    {post : Scene Surroundings → α → Prop} {frame : FrameId} (hw : w.Sound U)
    (hpost : ∀ s a, post s a → post (s.inFrame w.machine.current) a)
    (h : Runs U (w.inFrame frame) post (x (w.inFrame frame))) :
    Runs U w post (Tell.within frame x w) := by
  have hleads : ∀ w', (w.inFrame frame).Leads U w' → w.Leads U (w'.inFrame w.machine.current) := by
    intro w' hinner
    have honward := (w.toScene.onward_inFrame frame).trans hinner.onward
    refine ⟨hinner.sound.inFrame (honward.present hw.scene.present) fun key hkey => ?_,
      honward.trans (w'.toScene.onward_inFrame _), rfl, hinner.kept, hinner.told⟩
    rw [honward.bound hw.scene.present key hkey, hw.scene.plain key hkey]
  unfold Tell.within
  have hwhere : x { w with machine := { w.machine with current := frame } }
      = x (w.inFrame frame) := rfl
  rw [hwhere]
  cases hrun : x (w.inFrame frame) with
  | ok a w' =>
    rw [hrun] at h
    exact ⟨hleads w' h.1, hpost _ a h.2⟩
  | error halt w' =>
    rw [hrun] at h
    exact hleads w' h

end Lox.Machine
