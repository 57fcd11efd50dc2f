/-
`Lox.Proofs.Machine.Run` -- how runs end, step by step.

A run that returns something hands the machine on, and one that ends early leaves
it behind. The laws here say that of two runs after one another, of a run within
another frame, and of looking up names: reading and writing a name both go to the
frame that `Forest.owner?` finds. Operators run nothing, and make only values that are
made of nothing else.
-/
import Lox.Machine.Session

set_option autoImplicit false

namespace Lox

/-! ## Looking up -/

namespace Forest

variable {α : Type} {f : Forest α} {id owner : FrameId} {name : String}

/-- The owner of a name has it. -/
theorem local?_owner?_isSome (h : f.owner? id name = some owner) :
    (f.local? owner name).isSome := by
  have hfound := List.find?_some h
  exact hfound

/-- The value of a name is the one it has in the frame that binds it. -/
theorem lookup_of_owner? (h : f.owner? id name = some owner) :
    f.lookup id name = f.local? owner name := by
  unfold owner? at h
  unfold lookup
  generalize f.chain id = chain at h
  induction chain with
  | nil => cases h
  | cons first rest ih =>
    rw [List.find?_cons] at h
    rw [List.findSome?_cons]
    cases hlocal : f.local? first name with
    | some value =>
      rw [hlocal] at h
      cases h
      exact hlocal.symm
    | none =>
      rw [hlocal] at h
      exact ih h

/-- Where no frame owns a name, nothing is found. -/
theorem lookup_of_owner?_none (h : f.owner? id name = none) : f.lookup id name = none := by
  unfold owner? at h
  unfold lookup
  rw [List.findSome?_eq_none_iff]
  intro frame hframe
  have hunbound := List.find?_eq_none.mp h frame hframe
  rwa [Option.not_isSome_iff_eq_none] at hunbound

end Forest

/-- A value that is no function, class or instance of a program. -/
def Value.Plain : Value → Prop
  | .nil | .bool _ | .number _ | .text _ | .host _ => True
  | .function _ _ | .classRef _ | .instanceOf _ _ => False

namespace Machine

variable {α β : Type} {m m' m'' : Machine} {a : α} {b : β} {halt : Halt}

/-! ## Two runs after one another -/

/-- A run that comes to its end hands its value and its machine to the next. -/
theorem bind_of_ok {x : Run α} {f : α → Run β} (h : x m = .ok a m') : (x >>= f) m = f a m' := by
  show EStateM.bind x f m = _
  rw [EStateM.bind, h]

/-- One that does not ends the runs after it. -/
theorem bind_of_error {x : Run α} {f : α → Run β} (h : x m = .error halt m') :
    (x >>= f) m = .error halt m' := by
  show EStateM.bind x f m = _
  rw [EStateM.bind, h]

/-- A run after another one returns something only if both do. -/
theorem bind_eq_ok {x : Run α} {f : α → Run β} (h : (x >>= f) m = .ok b m'') :
    ∃ a m', x m = .ok a m' ∧ f a m' = .ok b m'' := by
  cases hx : x m with
  | ok a m' =>
    rw [bind_of_ok hx] at h
    exact ⟨a, m', rfl, h⟩
  | error halt m' =>
    rw [bind_of_error hx] at h
    cases h

theorem get_run : (get : Run Machine) m = .ok m m := rfl

/-! ## What a run leads to -/

section Outcome

variable {ε σ : Type}

/-- How a run ends that begins in a state: in one that it leads to, and if it returns
something then with a value for which `post` holds. -/
def Outcome (R : σ → σ → Prop) (s : σ) (post : σ → α → Prop) : EStateM.Result ε σ α → Prop
  | .ok a s' => R s s' ∧ post s' a
  | .error _ s' => R s s'

variable {R : σ → σ → Prop} {s s' : σ} {post : σ → α → Prop} {next : σ → β → Prop}

/-- What holds of a run from a later state on. -/
theorem Outcome.after (htrans : ∀ {a b c}, R a b → R b c → R a c) (hfirst : R s s')
    {result : EStateM.Result ε σ α} (h : Outcome R s' post result) : Outcome R s post result := by
  cases result with
  | ok a s'' => exact ⟨htrans hfirst h.1, h.2⟩
  | error e s'' => exact htrans hfirst h

/-- Two runs after one another. -/
protected theorem Outcome.bind (htrans : ∀ {a b c}, R a b → R b c → R a c)
    {x : EStateM ε σ α} {f : α → EStateM ε σ β} (hx : Outcome R s post (x s))
    (hf : ∀ a s', R s s' → post s' a → Outcome R s' next (f a s')) :
    Outcome R s next ((x >>= f) s) := by
  show Outcome R s next (EStateM.bind x f s)
  unfold EStateM.bind
  cases hrun : x s with
  | ok a s' =>
    rw [hrun] at hx
    exact Outcome.after (R := R) htrans hx.1 (hf a s' hx.1 hx.2)
  | error e s' =>
    rw [hrun] at hx
    exact hx

end Outcome

/-! ## The machine afterwards -/

theorem perform_snd_of_ok {x : Run α} (h : x m = .ok a m') : (m.perform x).2 = m' := by
  rw [perform, h]

theorem perform_snd_of_error {x : Run α} (h : x m = .error halt m') : (m.perform x).2 = m' := by
  cases halt <;> rw [perform, h]

/-- The machine after a run within a frame is the one after the run itself, with
the frame set back. -/
theorem perform_within_snd (frame : FrameId) (run : Run α) :
    (m.perform (within frame run)).2
      = { (perform run { m with current := frame }).2 with current := m.current } := by
  cases hrun : run { m with current := frame } with
  | ok a m' =>
    have hwithin : within frame run m = .ok a { m' with current := m.current } := by
      rw [within, hrun]
    rw [perform_snd_of_ok hwithin, perform_snd_of_ok hrun]
  | error halt m' =>
    have hwithin : within frame run m = .error halt { m' with current := m.current } := by
      rw [within, hrun]
    rw [perform_snd_of_error hwithin, perform_snd_of_error hrun]

/-! ## Names -/

variable {name : Token} {value : Value} {owner : FrameId}

/-- A lookup leaves the machine as it is. -/
theorem lookupHere_run (name : String) :
    lookupHere name m = .ok (m.forest.lookup m.current name) m := rfl

/-- A variable that is found is read. -/
theorem readVariable_of_some (h : m.forest.lookup m.current name.lexeme = some value) :
    readVariable name m = .ok value m := by
  unfold readVariable
  rw [bind_of_ok (lookupHere_run name.lexeme), h]
  rfl

/-- One that is not is undefined. -/
theorem readVariable_of_none (h : m.forest.lookup m.current name.lexeme = none) :
    readVariable name m = .error (.failed (.undefinedVariable name)) m := by
  unfold readVariable
  rw [bind_of_ok (lookupHere_run name.lexeme), h]
  rfl

/-- An assignment is made in the frame that owns the name. -/
theorem writeVariable_of_some (h : m.forest.owner? m.current name.lexeme = some owner) :
    writeVariable name value m
      = .ok () { m with forest := m.forest.define owner name.lexeme value } := by
  unfold writeVariable
  rw [bind_of_ok get_run, h]
  rfl

/-- Without an owner the variable is undefined. -/
theorem writeVariable_of_none (h : m.forest.owner? m.current name.lexeme = none) :
    writeVariable name value m = .error (.failed (.undefinedVariable name)) m := by
  unfold writeVariable
  rw [bind_of_ok get_run, h]
  rfl

/-! ## Operators -/

section Operators

variable {value : Value}

/-- A sign makes a number or a truth value. -/
theorem unaryResult_plain {op : Token} {operand : Value}
    (h : unaryResult op operand = .ok value) : value.Plain := by
  unfold unaryResult at h
  split at h <;> cases h <;> trivial

/-- Operators on numbers make plain values. -/
theorem onNumbers_plain {op : Token} {g : Float → Float → Value} {left right : Value}
    (h : onNumbers op g left right = .ok value) (hg : ∀ x y, (g x y).Plain) : value.Plain := by
  unfold onNumbers at h
  split at h
  · cases h
    exact hg _ _
  · cases h

/-- No operator makes a function, a class or an instance. -/
theorem binaryResult_plain {op : Token} {left right : Value}
    (h : binaryResult op left right = .ok value) : value.Plain := by
  unfold binaryResult at h
  split at h
  · unfold sumOrJoin at h
    split at h <;> cases h <;> trivial
  iterate 7 exact onNumbers_plain h fun _ _ => trivial
  · cases h
    trivial
  · cases h
    trivial
  · cases h

end Operators

end Machine

end Lox
