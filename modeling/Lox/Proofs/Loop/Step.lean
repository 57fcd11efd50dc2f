/-
`Lox.Proofs.Loop.Step` -- runs on machines of which one has extra frames.

Two machines match if the frames of one stand for those of the other and both hold
matching values in the same places. Two runs keep in step (`InStep`) if from machines that
match, now or when there are more frames, they come to machines that match: either both
return related results, or both fail in the same way, or both run out of the bound on
their depth. The current frames are those that they were before; of these one must stand
for the other as soon as a name is looked up, and they must be partners as soon as one is
bound.

What the functions of the host do is not known. They are given values, and in values they
cannot look at frames (`HostBody.Blind`).
-/
import Lox.Proofs.Likeness.Step
import Lox.Proofs.Loop.Value

set_option autoImplicit false

namespace Lox

section Matches

variable (w : Images)

/-- From matching arguments the function makes matching values, or it has the same to say
against them; also when there are more frames. -/
def HostBody.Blind (body : HostBody) : Prop :=
  ∀ w', w <+: w' → ∀ args args', List.Forall₂ (Value.Matches w') args args' →
    ExceptRel Eq (Value.Matches w') (body args) (body args')

/-- The machines hold matching values in the same places, and are in given frames. -/
structure Machine.Matches (c c' : FrameId) (m m' : Machine) : Prop where
  forest : Forest.Matches (Value.Matches w) w m.forest m'.forest
  current : m.current = c
  current' : m'.current = c'
  fields : Pointwise (Table.Alike (Value.Matches w)) m.fields m'.fields
  hosts : m.hosts = m'.hosts
  blind : ∀ body ∈ m.hosts, HostBody.Blind w body
  nextSerial : m.nextSerial = m'.nextSerial
  sink : m.sink = m'.sink

/-- The statements ended in one way. -/
inductive Completion.Matches : Completion → Completion → Prop where
  | normal : Matches .normal .normal
  | returned {value value' : Value} :
    value.Matches w value' → Matches (.returned value) (.returned value')

end Matches

variable {w w' : Images} {c c' : FrameId}

/-- A function that does not look at frames does not look at later ones. -/
theorem HostBody.Blind.later {body : HostBody} (h : HostBody.Blind w body) (hw : w <+: w') :
    HostBody.Blind w' body :=
  fun w₁ hw₁ => h w₁ (hw.trans hw₁)

namespace Machine

variable {m m' : Machine}

/-- The forests change, and there may be more frames. -/
theorem Matches.withForest (h : m.Matches w c c' m') (hw : w <+: w') {f f' : Forest Value}
    (hf : Forest.Matches (Value.Matches w') w' f f') :
    Matches w' c c' { m with forest := f } { m' with forest := f' } where
  forest := hf
  current := h.current
  current' := h.current'
  fields := ⟨h.fields.size, fun i => by
    have hi := h.fields.get? i
    generalize m.fields[i]? = found at hi
    generalize m'.fields[i]? = found' at hi
    cases hi with
    | none => exact .none
    | some htable => exact .some (htable.imp fun _ _ hentry => ⟨hentry.1, hentry.2.later hw⟩)⟩
  hosts := h.hosts
  blind body hbody := (h.blind body hbody).later hw
  nextSerial := h.nextSerial
  sink := h.sink

variable {α α' β β' : Type}

/-- The runs ended in one way, in the frames that they began in, and with machines that
match. -/
inductive EndsMatched (w : Images) (c c' : FrameId) (good : Images → α → α' → Prop) :
    EStateM.Result Halt Machine α → EStateM.Result Halt Machine α' → Prop where
  | ok {w' : Images} {a : α} {a' : α'} {m m' : Machine} :
    w <+: w' → good w' a a' → m.Matches w' c c' m' → EndsMatched w c c' good (.ok a m) (.ok a' m')
  | error {w' : Images} {halt : Halt} {m m' : Machine} :
    w <+: w' → m.Matches w' c c' m' → EndsMatched w c c' good (.error halt m) (.error halt m')

/-- From machines that match, now or later, the runs end in one way. -/
def InStep (w : Images) (c c' : FrameId) (good : Images → α → α' → Prop) (x : Run α)
    (x' : Run α') : Prop :=
  ∀ w', w <+: w' → ∀ m m', m.Matches w' c c' m' → EndsMatched w' c c' good (x m) (x' m')

/-! ## Runs that are put together -/

namespace InStep

variable {good : Images → α → α' → Prop} {good' : Images → β → β' → Prop} {x : Run α}
  {x' : Run α'} {f : α → Run β} {f' : α' → Run β'}

/-- Runs in step stay so from later machines. -/
theorem later (h : InStep w c c' good x x') (hw : w <+: w') : InStep w' c c' good x x' :=
  fun w₁ hw₁ => h w₁ (hw.trans hw₁)

protected theorem pure {a : α} {a' : α'} (h : ∀ w', w <+: w' → good w' a a') :
    InStep w c c' good (pure a) (pure a') :=
  fun w' hw _ _ hm => .ok (List.prefix_refl w') (h w' hw) hm

/-- A halt leaves both machines as they are. -/
protected theorem throw (halt : Halt) : InStep w c c' good (throw halt) (throw halt) :=
  fun w' _ _ _ hm => .error (List.prefix_refl w') hm

protected theorem fail (failure : Failure) : InStep w c c' good (fail failure) (fail failure) :=
  .throw _

/-- Runs after one another keep in step if each does from any later images on. -/
protected theorem bind (hx : InStep w c c' good x x')
    (hf : ∀ w', w <+: w' → ∀ a a', good w' a a' → InStep w' c c' good' (f a) (f' a')) :
    InStep w c c' good' (x >>= f) (x' >>= f') := by
  intro w₁ hw₁ m m' hm
  have hfirst := hx w₁ hw₁ m m' hm
  cases hrun : x m with
  | ok a m₁ =>
    rw [hrun] at hfirst
    cases hrun' : x' m' with
    | ok a' m₁' =>
      rw [hrun'] at hfirst
      cases hfirst with
      | @ok w₂ _ _ _ _ hw₂ ha hm₁ =>
        rw [bind_of_ok hrun, bind_of_ok hrun']
        -- the second part starts from the images that the first one has left, which are later
        -- ones
        have hrest := hf w₂ (hw₁.trans hw₂) a a' ha w₂ (List.prefix_refl w₂) m₁ m₁' hm₁
        generalize f a m₁ = result at hrest
        generalize f' a' m₁' = result' at hrest
        cases hrest with
        | ok hw₃ hb hm₂ => exact .ok (hw₂.trans hw₃) hb hm₂
        | error hw₃ hm₂ => exact .error (hw₂.trans hw₃) hm₂
    | error halt' m₁' =>
      rw [hrun'] at hfirst
      cases hfirst
  -- one run does not fail without the other
  | error halt m₁ =>
    rw [hrun] at hfirst
    cases hrun' : x' m' with
    | ok a' m₁' =>
      rw [hrun'] at hfirst
      cases hfirst
    | error halt' m₁' =>
      rw [hrun'] at hfirst
      cases hfirst with
      | error hw₂ hm₁ =>
        rw [bind_of_error hrun, bind_of_error hrun']
        exact .error hw₂ hm₁

/-- Both runs return the same, and go on with it. -/
theorem same {x x' : Run α} {f : α → Run β} {f' : α → Run β'}
    (hx : InStep w c c' (fun _ => Eq) x x')
    (hf : ∀ w', w <+: w' → ∀ a, InStep w' c c' good' (f a) (f' a)) :
    InStep w c c' good' (x >>= f) (x' >>= f') := by
  refine hx.bind fun w' hw => ?_
  rintro a _ rfl
  exact hf w' hw a

/-- Both runs go on with their machines. -/
theorem get {f : Machine → Run β} {f' : Machine → Run β'}
    (hf : ∀ w', w <+: w' → ∀ m m', m.Matches w' c c' m' → InStep w' c c' good' (f m) (f' m')) :
    InStep w c c' good' (MonadState.get >>= f) (MonadState.get >>= f') :=
  fun w' hw m m' hm => hf w' hw m m' hm w' (List.prefix_refl w') m m' hm

/-- Changes keep in step if they keep machines matching. -/
protected theorem modify {g g' : Machine → Machine}
    (h : ∀ w', w <+: w' → ∀ m m', m.Matches w' c c' m' → (g m).Matches w' c c' (g' m')) :
    InStep w c c' (fun _ => Eq) (modify g : Run Unit) (modify g') :=
  fun w' hw m m' hm => .ok (List.prefix_refl w') rfl (h w' hw m m' hm)

/-- Computed results match, or the problem is one. -/
protected theorem liftExcept {result : Except Failure α} {result' : Except Failure α'}
    (h : ∀ w', w <+: w' → ExceptRel Eq (good w') result result') :
    InStep w c c' good (liftExcept result) (liftExcept result') := by
  intro w' hw
  have hresult := h w' hw
  cases hresult with
  | ok hgood => exact fun m m' hm => .ok (List.prefix_refl w') hgood hm
  | error hfailure =>
    subst hfailure
    exact fun m m' hm => .error (List.prefix_refl w') hm

/-- Within other frames both runs begin and end in those. -/
protected theorem within {frame frame' : FrameId} (hx : InStep w frame frame' good x x') :
    InStep w c c' good (within frame x) (within frame' x') := by
  intro w₁ hw₁ m m' hm
  have hback : ∀ (w₂ : Images) (m₁ m₁' : Machine), m₁.Matches w₂ frame frame' m₁' →
      Machine.Matches w₂ c c' { m₁ with current := m.current } { m₁' with current := m'.current } :=
    fun _ _ _ h => { h with current := hm.current, current' := hm.current' }
  have hinner := hx w₁ hw₁ { m with current := frame } { m' with current := frame' }
    { hm with current := rfl, current' := rfl }
  unfold Machine.within
  generalize x { m with current := frame } = result at hinner
  generalize x' { m' with current := frame' } = result' at hinner
  cases hinner with
  | ok hw₂ hgood h => exact .ok hw₂ hgood (hback _ _ _ h)
  | error hw₂ h => exact .error hw₂ (hback _ _ _ h)

end InStep

/-! ## Steps -/

section Steps

variable {value value' : Value} {frame frame' parent parent' : FrameId} {cls cls' : Class}

/-- A name may be bound in partners, to values that match. -/
theorem define_inStep (hframe : w.Pairs frame frame') (name : String)
    (h : value.Matches w value') :
    InStep w c c' (fun _ => Eq) (define frame name value) (define frame' name value') :=
  .modify fun _ hw _ _ hm => hm.withForest (List.prefix_refl _)
    (hm.forest.define (hframe.later hw) name (h.later hw))

/-- So it may in the current frames, if they are partners. -/
theorem defineHere_inStep (hc : w.Pairs c c') (name : String) (h : value.Matches w value') :
    InStep w c c' (fun _ => Eq) (defineHere name value) (defineHere name value') := by
  refine .modify fun w' hw m m' hm => hm.withForest (List.prefix_refl _) ?_
  rw [hm.current, hm.current']
  exact hm.forest.define (hc.later hw) name (h.later hw)

/-- What is found from one frame on matches what is found from the other. -/
theorem lookupHere_inStep (hc : w.StandsFor c c') (name : String) :
    InStep w c c' (fun w => Option.Rel (Value.Matches w)) (lookupHere name) (lookupHere name) := by
  intro w' hw m m' hm
  rw [lookupHere_run, lookupHere_run, hm.current, hm.current']
  exact .ok (List.prefix_refl w') (hm.forest.lookup (hc.later hw) name) hm

/-- New frames are partners. -/
theorem newFrame_inStep (hparent : w.StandsFor parent parent') :
    InStep w c c' Images.Pairs (newFrame parent) (newFrame parent') := by
  intro w' hw m m' hm
  have hlater : w' <+: w' ++ [⟨m'.forest.next, false⟩] := List.prefix_append _ _
  have hforest := (hm.forest.imp fun _ _ h => Value.Matches.later hlater h).addChild
    (hparent.later hw)
  refine .ok hlater ?_ (hm.withForest hlater hforest)
  exact Images.pairs_concat.mpr (.inr ⟨hm.forest.size.symm, rfl⟩)

/-- Numbers are given out in step. -/
theorem newSerial_inStep : InStep w c c' (fun _ => Eq) newSerial newSerial :=
  fun w' _ _ _ hm => .ok (List.prefix_refl w') hm.nextSerial
    { hm with nextSerial := congrArg (· + 1) hm.nextSerial }

/-- Closures have one number, and match as functions do. -/
theorem newClosure_inStep {fn fn' : Closure} (h : fn.Matches w fn') :
    InStep w c c' Value.Matches (newClosure fn) (newClosure fn') :=
  newSerial_inStep.same fun _ hw _ => .pure fun _ hw' => .function (h.later (hw.trans hw'))

/-- An instance has one number on both sides. -/
theorem newInstance_inStep : InStep w c c' (fun _ => Eq) newInstance newInstance :=
  fun w' _ _ _ hm => .ok (List.prefix_refl w') (congrArg InstanceId.mk hm.fields.size)
    { hm with fields := hm.fields.push .empty }

/-- The frame of a bound method has its partner, as both sides make it. -/
theorem bind_inStep {method method' : Closure} (h : method.Matches w method')
    (hvalue : value.Matches w value') :
    InStep w c c' Closure.Matches (bind method value) (bind method' value') := by
  unfold Machine.bind
  refine (newFrame_inStep h.frame).bind fun w₁ hw₁ frame frame' hframe => ?_
  refine (define_inStep hframe "this" (hvalue.later hw₁)).same fun w₂ hw₂ _ => ?_
  exact .pure fun w₃ hw₃ => ⟨h.decl, (hframe.later (hw₂.trans hw₃)).standsFor, h.isInitializer⟩

/-- Fields hold matching values. -/
theorem writeField_inStep (id : InstanceId) (name : String) (h : value.Matches w value') :
    InStep w c c' (fun _ => Eq) (writeField id name value) (writeField id name value') := by
  refine .modify fun w' hw m m' hm => { hm with fields := ?_ }
  exact hm.fields.modify id.index fun _ _ hfields => hfields.insert name (h.later hw)

/-- The functions of the host are handed matching values and make matching ones. -/
theorem callHost_inStep (fn : HostFunction) {args args' : List Value}
    (h : List.Forall₂ (Value.Matches w) args args') :
    InStep w c c' Value.Matches (callHost fn args) (callHost fn args') := by
  refine .get fun w' hw m m' hm => ?_
  rw [← hm.hosts]
  cases hbody : m.hosts[fn.index]? with
  | none => exact .pure fun _ _ => .nil
  | some body =>
    have hresult : ∀ w₁, w' <+: w₁ → ExceptRel Eq (Value.Matches w₁) (body args) (body args') :=
      fun w₁ hw₁ => hm.blind body (Array.mem_of_getElem? hbody) w₁ hw₁ args args'
        (Value.Matches.later_each (hw.trans hw₁) h)
    dsimp only
    intro w₁ hw₁ m₁ m₁' hm₁
    have hended := hresult w₁ hw₁
    generalize body args = result at hended
    generalize body args' = result' at hended
    cases hended with
    | ok hvalue => exact .ok (List.prefix_refl w₁) hvalue hm₁
    | error hmessage =>
      subst hmessage
      exact .error (List.prefix_refl w₁) hm₁

/-- Both sinks take the line, or both fail. -/
theorem printLine_inStep (text : String) :
    InStep w c c' (fun _ => Eq) (printLine text) (printLine text) := by
  intro w' _ m m' hm
  unfold printLine
  dsimp only
  rw [← hm.sink]
  have hwritten : Machine.Matches w' c c' { m with sink := m.sink.write (text ++ "\n") }
      { m' with sink := m.sink.write (text ++ "\n") } := { hm with sink := rfl }
  split
  · exact .ok (List.prefix_refl w') rfl hwritten
  · exact .error (List.prefix_refl w') hwritten

/-- Both are flushed, or both fail. -/
theorem flush_inStep : InStep w c c' (fun _ => Eq) flush flush := by
  refine .get fun w' _ m m' hm => ?_
  rw [← hm.sink]
  split
  · exact .fail _
  · exact .pure fun _ _ => rfl

/-! ### Names -/

section Seen

-- what is seen from the current frames is the same
variable (hc : w.StandsFor c c')
include hc

/-- A variable is found on both sides, or on neither. -/
theorem readVariable_inStep (name : Token) :
    InStep w c c' Value.Matches (readVariable name) (readVariable name) := by
  refine (lookupHere_inStep hc name.lexeme).bind fun w₁ _ found found' hfound => ?_
  cases hfound with
  | none => exact .fail _
  | some hvalue => exact .pure fun w₂ hw₂ => hvalue.later hw₂

/-- The frame that is assigned in has its partner, since extra frames hold nothing. -/
theorem writeVariable_inStep (name : Token) (h : value.Matches w value') :
    InStep w c c' (fun _ => Eq) (writeVariable name value) (writeVariable name value') := by
  refine .get fun w₁ hw₁ m m' hm => ?_
  -- the frames that own the name are partners, so both runs write to one place
  have howner := hm.forest.owner? (hc.later hw₁) name.lexeme
  rw [hm.current, hm.current']
  generalize m.forest.owner? c name.lexeme = owner at howner
  generalize m'.forest.owner? c' name.lexeme = owner' at howner
  cases howner with
  | none => exact .fail _
  | some hpairs => exact define_inStep hpairs name.lexeme (h.later hw₁)

omit hc in

/-- A field matches, and so does a method that was bound. -/
theorem readProperty_inStep (hcls : cls.Matches w cls') (id : InstanceId) (name : Token) :
    InStep w c c' Value.Matches (readProperty cls id name) (readProperty cls' id name) := by
  refine .get fun w₁ hw₁ m m' hm => ?_
  have hfields := hm.fields.get? id.index
  have hmethod := (hcls.later hw₁).findMethod? name.lexeme
  have hfound : Option.Rel (Value.Matches w₁)
      (m.fields[id.index]?.bind fun fields => fields.find? name.lexeme)
      (m'.fields[id.index]?.bind fun fields => fields.find? name.lexeme) := by
    generalize m.fields[id.index]? = fields at hfields
    generalize m'.fields[id.index]? = fields' at hfields
    cases hfields with
    | none => exact .none
    | some hfields => exact hfields.find? name.lexeme
  generalize (m.fields[id.index]?.bind fun fields => fields.find? name.lexeme) = found at hfound
  generalize (m'.fields[id.index]?.bind fun fields => fields.find? name.lexeme) = found' at hfound
  cases hfound with
  | some hvalue => exact .pure fun w₂ hw₂ => hvalue.later hw₂
  | none =>
    dsimp only
    generalize cls.findMethod? name.lexeme = found at hmethod
    generalize cls'.findMethod? name.lexeme = found' at hmethod
    cases hmethod with
    | none => exact .fail _
    | some hfn =>
      exact (bind_inStep hfn (.instanceOf (hcls.later hw₁))).bind fun _ _ _ _ hbound =>
        newClosure_inStep hbound

/-- What `super` gives is bound to receivers that match. -/
theorem readSuper_inStep (keyword method : Token) :
    InStep w c c' Value.Matches (readSuper keyword method) (readSuper keyword method) := by
  refine (lookupHere_inStep hc "super").bind fun w₁ hw₁ parent parent' hparent => ?_
  have hlost : InStep w₁ c c' Value.Matches (fail (.undefinedVariable keyword))
      (fail (.undefinedVariable keyword)) := .fail _
  cases hparent with
  | none => exact hlost
  | @some parent parent' hparent =>
    cases hparent with
    | plain hplain => cases parent <;> first | exact hlost | exact hplain.elim
    | function _ | instanceOf _ => exact hlost
    | @classRef parent parent' hparent =>
      refine (lookupHere_inStep (hc.later hw₁) "this").bind fun w₂ hw₂ receiver receiver' hreceiver => ?_
      have hmissing : InStep w₂ c c' Value.Matches
          (fail (.undefinedVariable (.plain .kwThis "this" keyword.span)))
          (fail (.undefinedVariable (.plain .kwThis "this" keyword.span))) := .fail _
      cases hreceiver with
      | none => exact hmissing
      | @some receiver receiver' hreceiver =>
        cases hreceiver with
        | plain hplain => cases receiver <;> first | exact hmissing | exact hplain.elim
        | function _ | classRef _ => exact hmissing
        | instanceOf hcls =>
          have hfound := (hparent.later hw₂).findMethod? method.lexeme
          dsimp only
          generalize Class.findMethod? parent method.lexeme = found at hfound
          generalize Class.findMethod? parent' method.lexeme = found' at hfound
          cases hfound with
          | none => exact .fail _
          | some hfn =>
            exact (bind_inStep hfn (.instanceOf hcls)).bind fun _ _ _ _ hbound =>
              newClosure_inStep hbound

end Seen

end Steps

/-! ## Operators -/

section Operators

variable {op : Token} {left left' right right' operand operand' : Value}

/-- A plain result matches itself. -/
theorem exceptRel_of_plain {result : Except Failure Value}
    (h : ∀ value, result = .ok value → value.Plain) :
    ExceptRel Eq (Value.Matches w) result result := by
  cases result with
  | ok value => exact .ok (.plain (h value rfl))
  | error failure => exact .error rfl

/-- A sign gives results that match. -/
theorem unaryResult_matches (h : operand.Matches w operand') :
    ExceptRel Eq (Value.Matches w) (unaryResult op operand) (unaryResult op operand') := by
  cases h with
  | plain _ => exact exceptRel_of_plain fun _ => unaryResult_plain
  | _ =>
    unfold unaryResult
    cases op.kind with
    | bang => exact .ok (.plain trivial)
    | _ => exact .error rfl

/-- Operands that refer to frames are no numbers. -/
theorem onNumbers_matches {f : Float → Float → Value} (hf : ∀ x y, (f x y).Plain)
    (hleft : left.Matches w left') (hright : right.Matches w right') :
    ExceptRel Eq (Value.Matches w) (onNumbers op f left right) (onNumbers op f left' right') := by
  cases hleft with
  | @plain left _ =>
    cases hright with
    | plain _ => exact exceptRel_of_plain fun _ h => onNumbers_plain h hf
    | _ => cases left <;> exact .error rfl
  | _ => exact .error rfl

/-- Sums and joined texts are one on both sides. -/
theorem sumOrJoin_matches (hleft : left.Matches w left') (hright : right.Matches w right') :
    ExceptRel Eq (Value.Matches w) (sumOrJoin op left right) (sumOrJoin op left' right') := by
  cases hleft with
  | @plain left _ =>
    cases hright with
    | plain _ =>
      refine exceptRel_of_plain fun value h => ?_
      unfold sumOrJoin at h
      split at h <;> cases h <;> trivial
    | _ => cases left <;> exact .error rfl
  | _ => exact .error rfl

/-- An operator gives results that match. -/
theorem binaryResult_matches (hleft : left.Matches w left') (hright : right.Matches w right') :
    ExceptRel Eq (Value.Matches w) (binaryResult op left right)
      (binaryResult op left' right') := by
  unfold binaryResult
  cases op.kind with
  | plus => exact sumOrJoin_matches hleft hright
  | equalEqual | bangEqual =>
    dsimp only
    rw [hleft.equals hright]
    exact .ok (.plain trivial)
  | minus | star | slash | greater | greaterEqual | less | lessEqual =>
    exact onNumbers_matches (fun _ _ => trivial) hleft hright
  | _ => exact .error rfl

/-- Whether one operand decides is seen by what it counts as. -/
theorem shortCircuits_matches (h : left.Matches w left') :
    shortCircuits op left = shortCircuits op left' := by
  unfold shortCircuits
  rw [h.isTruthy]

end Operators

end Machine

end Lox
