/-
`Lox.Proofs.Machine.Truncation` -- a full sink cuts the output off, and nothing else.

A run on a sink with room for so many bytes is compared with the run on one that has room
for any amount. As long as what is printed fits, the two cannot be told apart: no step but
printing looks at the sink. The first line that does not fit is stored as far as it does,
and that ends the run. So the one run is the beginning of the other, up to and including
the step that prints this line (`Story.Overflows`), with the bytes beyond the room left out.

The two stories are compared moment by moment; the events in them say that nothing was
executed, evaluated or called behind that step. Both comparisons are inductions on what
told runs are made of. Of the run without bound they need to know that it takes back
nothing that was printed (`Story.Precedes`).
-/
import Lox.Grammar.Program
import Lox.Proofs.Machine.Composed

set_option autoImplicit false

namespace Lox

/-! ## Sinks -/

/-- Bytes that fit are all of them. -/
theorem extract_of_size_le {bytes : ByteArray} {n : Nat} (h : bytes.size ≤ n) :
    bytes.extract 0 n = bytes := by
  apply ByteArray.ext
  rw [ByteArray.data_extract]
  exact Array.extract_eq_self_of_le h

namespace Sink

variable {s : Sink} {n : Nat}

/-- The sink with room for `n` bytes, to which the same was written. -/
def cut (n : Nat) (s : Sink) : Sink :=
  { s with stored := s.stored.extract 0 n, capacity := some n }

/-- A sink without a limit stores everything. -/
theorem write_of_unlimited (h : s.capacity = none) (text : String) :
    s.write text = { s with stored := s.stored ++ text.toUTF8 } := by
  rw [write, h]

/-- What is cut off of a longer text is what did not fit. -/
theorem write_cut (h : s.capacity = none) (hroom : s.stored.size ≤ n) (text : String) :
    (s.cut n).write text = (s.write text).cut n := by
  rw [write_of_unlimited h]
  simp only [cut, write]
  rw [extract_of_size_le hroom, ByteArray.extract_append, extract_of_size_le hroom, Nat.zero_sub]

/-- A line fits if with it no more is stored than there is room for. -/
theorem fits_cut (h : s.capacity = none) (hroom : s.stored.size ≤ n) {text : String}
    (htext : 0 < text.utf8ByteSize) :
    (s.cut n).fits text.utf8ByteSize = decide ((s.write text).stored.size ≤ n) := by
  have hsize : (s.write text).stored.size = s.stored.size + text.utf8ByteSize := by
    rw [write_of_unlimited h, ByteArray.size_append]
    rfl
  have hnonempty : text.utf8ByteSize ≠ 0 := Nat.ne_of_gt htext
  simp [fits, cut, hsize, extract_of_size_le hroom, hnonempty]

end Sink

/-- A line has a byte at least, which is its line feed. -/
theorem utf8ByteSize_line_pos (text : String) : 0 < (text ++ "\n").utf8ByteSize := by
  have hnewline : "\n".utf8ByteSize = 1 := rfl
  rw [String.utf8ByteSize_append]
  omega

namespace Machine

variable {α β : Type} {n : Nat}

/-! ## Machines and stories that are cut -/

/-- The number of bytes that were printed. -/
def printed (m : Machine) : Nat :=
  m.sink.stored.size

/-- The machine whose sink has room for `n` bytes. -/
def cut (n : Nat) (m : Machine) : Machine :=
  { m with sink := m.sink.cut n }

/-- The one machine has stored what the other one has, and then more. -/
def PrintsOn (m m' : Machine) : Prop :=
  ∃ more : ByteArray, m'.sink.stored = m.sink.stored ++ more

namespace PrintsOn

variable {m m' m'' : Machine}

/-- With the sink as it was, nothing has been taken back. -/
theorem of_sink (h : m'.sink = m.sink) : m.PrintsOn m' :=
  ⟨.empty, by rw [h, ByteArray.append_empty]⟩

protected theorem refl (m : Machine) : m.PrintsOn m :=
  of_sink rfl

/-- What is printed later comes behind. -/
protected theorem trans (h : m.PrintsOn m') (h' : m'.PrintsOn m'') : m.PrintsOn m'' := by
  obtain ⟨more, hmore⟩ := h
  obtain ⟨more', hmore'⟩ := h'
  exact ⟨more ++ more', by rw [hmore', hmore, ByteArray.append_assoc]⟩

/-- The number of bytes does not go down. -/
theorem printed_le (h : m.PrintsOn m') : m.printed ≤ m'.printed := by
  obtain ⟨more, hmore⟩ := h
  rw [printed, printed, hmore, ByteArray.size_append]
  exact Nat.le_add_right _ _

/-- What was stored first does not change any more. -/
theorem extract (h : m.PrintsOn m') (hfull : n ≤ m.printed) :
    m'.sink.stored.extract 0 n = m.sink.stored.extract 0 n := by
  obtain ⟨more, hmore⟩ := h
  have hnone : n - m.sink.stored.size = 0 := Nat.sub_eq_zero_of_le hfull
  rw [hmore, ByteArray.extract_append, hnone, Nat.zero_sub]
  simp

end PrintsOn

/-- The machine when a line has been written to its sink. -/
def afterLine (m : Machine) (text : String) : Machine :=
  { m with sink := m.sink.write (text ++ "\n") }

/-- Nothing is kept account of. -/
def silent : Event → Machine → Unit → Unit :=
  fun _ _ _ => ()

/-- The story of a machine that nothing has been told of. -/
def quietly (m : Machine) : Story Unit :=
  ⟨⟨m, ()⟩, []⟩

def Moment.cut (n : Nat) (mo : Moment Unit) : Moment Unit :=
  { mo with machine := mo.machine.cut n }

def Story.cut (n : Nat) (w : Story Unit) : Story Unit :=
  ⟨⟨w.machine.cut n, ()⟩, w.moments.map (Moment.cut n)⟩

/-- The end of a run, with the story of it cut. -/
def cutEnd (n : Nat) : EStateM.Result Halt (Story Unit) α → EStateM.Result Halt (Story Unit) α
  | .ok a w => .ok a (w.cut n)
  | .error halt w => .error halt (w.cut n)

/-- The story of an end that was cut is the story, cut. -/
theorem storyOf_cutEnd (ended : EStateM.Result Halt (Story Unit) α) :
    storyOf (cutEnd n ended) = (storyOf ended).cut n := by
  cases ended <;> rfl

/-- The story when a statement that prints is executed. -/
def Story.printing (w : Story Unit) (expr : Expr) : Story Unit :=
  w.with silent (.executes (.print expr))

/-! ## Later stories -/

/-- The story goes on: it is told further, and no byte is taken back. -/
structure Story.Precedes (w w' : Story Unit) : Prop where
  current : w'.machine.current = w.machine.current
  capacity : w'.machine.sink.capacity = w.machine.sink.capacity
  prints : w.machine.PrintsOn w'.machine
  moments : ∃ later, w'.moments = later ++ w.moments ∧
    ∀ mo ∈ later, mo.machine.PrintsOn w'.machine

namespace Story.Precedes

variable {w w' w'' : Story Unit}

protected theorem refl (w : Story Unit) : w.Precedes w :=
  ⟨rfl, rfl, .refl _, ⟨[], rfl, List.forall_mem_nil _⟩⟩

/-- A story that goes on further goes on. -/
protected theorem trans (h : w.Precedes w') (h' : w'.Precedes w'') : w.Precedes w'' := by
  obtain ⟨later, hlater, hprints⟩ := h.moments
  obtain ⟨later', hlater', hprints'⟩ := h'.moments
  refine ⟨h'.current.trans h.current, h'.capacity.trans h.capacity, h.prints.trans h'.prints,
    ⟨later' ++ later, ?_, ?_⟩⟩
  · rw [hlater', hlater, List.append_assoc]
  · exact List.forall_mem_append.mpr
      ⟨hprints', fun mo hmo => (hprints mo hmo).trans h'.prints⟩

/-- Telling something prints nothing. -/
theorem told (w : Story Unit) (event : Event) : w.Precedes (w.with silent event) :=
  ⟨rfl, rfl, .refl _, ⟨[_], rfl, List.forall_mem_singleton.mpr (.refl _)⟩⟩

/-- A step goes on if it keeps the frame and the limit, and takes nothing back. -/
theorem step {m : Machine} (hcurrent : m.current = w.machine.current)
    (hcapacity : m.sink.capacity = w.machine.sink.capacity)
    (hprints : w.machine.PrintsOn m) : w.Precedes (w.step silent m) :=
  ⟨hcurrent, hcapacity, hprints, ⟨[_], rfl, List.forall_mem_singleton.mpr (.refl _)⟩⟩

/-- A step that leaves the sink alone does. -/
theorem quiet_step {m : Machine} (hcurrent : m.current = w.machine.current)
    (hsink : m.sink = w.machine.sink) : w.Precedes (w.step silent m) :=
  .step hcurrent (by rw [hsink]) (.of_sink hsink)

/-- So does one that writes a line to a sink without a limit. -/
theorem line (hfree : w.machine.sink.capacity = none) (text : String) :
    w.Precedes (w.step silent (w.machine.afterLine text)) := by
  rw [afterLine, Sink.write_of_unlimited hfree]
  exact .step rfl rfl ⟨_, rfl⟩

end Story.Precedes

/-- Such a sink takes each line. -/
theorem printLine_of_unlimited {m : Machine} (h : m.sink.capacity = none) (text : String) :
    printLine text m = .ok () (m.afterLine text) := by
  unfold printLine Sink.fits
  rw [h]
  rfl

/-- The same line is written, as far as there is room, and the run goes on if that is all
of it. -/
theorem printLine_cut {m : Machine} (h : m.sink.capacity = none) (hroom : m.printed ≤ n)
    (text : String) :
    printLine text (m.cut n) =
      if (m.afterLine text).printed ≤ n then .ok () ((m.afterLine text).cut n)
      else .error (.failed (.output Sink.fullMessage)) ((m.afterLine text).cut n) := by
  have hfits : (m.sink.cut n).fits (text ++ "\n").utf8ByteSize =
      decide ((m.afterLine text).printed ≤ n) := Sink.fits_cut h hroom (utf8ByteSize_line_pos text)
  have hwrite := Sink.write_cut h hroom (text ++ "\n")
  unfold printLine
  show (if (m.sink.cut n).fits _ then EStateM.Result.ok () { m with sink := (m.sink.cut n).write _ }
    else .error _ { m with sink := (m.sink.cut n).write _ }) = _
  rw [hfits, hwrite]
  by_cases hless : (m.afterLine text).printed ≤ n
  · rw [if_pos (decide_eq_true hless), if_pos hless]
    rfl
  · rw [if_neg (mt of_decide_eq_true hless), if_neg hless]
    rfl

/-- What is left of a machine by a flush, which may fail. -/
theorem flush_eq (m : Machine) :
    flush m = if m.sink.flushFails then .error (.failed (.output Sink.flushMessage)) m
      else .ok () m := by
  unfold flush
  show (if m.sink.flushFails then fail (.output Sink.flushMessage) else pure ()) m = _
  split <;> rfl

namespace Quiet

variable {y : Run α} {m m' : Machine} {a : α} {halt : Halt}

/-- Where a quiet run comes to its end, the sink is as it was. -/
theorem sink_of_ok (hy : Quiet y) (h : y m = .ok a m') : m'.sink = m.sink := by
  have hsame : y m = withSink m.sink (y m) := hy.sink m m.sink
  rw [h] at hsame
  injection hsame with _ hm
  rw [hm]

theorem sink_of_error (hy : Quiet y) (h : y m = .error halt m') : m'.sink = m.sink := by
  have hsame : y m = withSink m.sink (y m) := hy.sink m m.sink
  rw [h] at hsame
  injection hsame with _ hm
  rw [hm]

end Quiet

/-! ## How told runs end -/

/-- The story with another current frame. -/
def Story.withCurrent (w : Story Unit) (frame : FrameId) : Story Unit :=
  { w with machine := { w.machine with current := frame } }

section Telling

variable {x : Telling Unit α} {f : α → Telling Unit β} {y : Run α} {w w' : Story Unit}
  {m : Machine} {frame : FrameId} {a : α} {halt : Halt}

/-- A step of the machine is one of the story. -/
theorem tacit_of_ok (h : y w.machine = .ok a m) : tacit silent y w = .ok a (w.step silent m) := by
  rw [tacit, h]

theorem tacit_of_error (h : y w.machine = .error halt m) :
    tacit silent y w = .error halt (w.step silent m) := by
  rw [tacit, h]

/-- A quiet step leaves the sink of the story alone. -/
theorem Quiet.sink_tacit (hy : Quiet y) (w : Story Unit) :
    (storyOf (tacit silent y w)).machine.sink = w.machine.sink := by
  cases hrun : y w.machine with
  | ok a m =>
    rw [tacit_of_ok hrun]
    exact hy.sink_of_ok hrun
  | error halt m =>
    rw [tacit_of_error hrun]
    exact hy.sink_of_error hrun

theorem sink_tacit_flush (w : Story Unit) :
    (storyOf (tacit silent flush w)).machine.sink = w.machine.sink := by
  have hflush := flush_eq w.machine
  split at hflush
  · rw [tacit_of_error hflush]
    rfl
  · rw [tacit_of_ok hflush]
    rfl

/-- A told run that comes to its end hands its value and its story on. -/
theorem telling_bind_of_ok (h : x w = .ok a w') : (x >>= f) w = f a w' := by
  show EStateM.bind x f w = _
  rw [EStateM.bind, h]

/-- One that does not ends those after it. -/
theorem telling_bind_of_error (h : x w = .error halt w') : (x >>= f) w = .error halt w' := by
  show EStateM.bind x f w = _
  rw [EStateM.bind, h]

/-- In another frame a run comes to its end as there, and the old frame is set back. -/
theorem telling_within_of_ok (h : x (w.withCurrent frame) = .ok a w') :
    Tell.within frame x w = .ok a (w'.withCurrent w.machine.current) := by
  rw [Story.withCurrent] at h
  rw [Tell.within, h]
  rfl

theorem telling_within_of_error (h : x (w.withCurrent frame) = .error halt w') :
    Tell.within frame x w = .error halt (w'.withCurrent w.machine.current) := by
  rw [Story.withCurrent] at h
  rw [Tell.within, h]
  rfl

section Print

variable {fuel : Nat} {expr : Expr} {value : Value}

/-- That a statement prints is told before its expression is evaluated. -/
theorem tell_print (w : Story Unit) (expr : Expr) :
    tell silent (.executes (.print expr)) w = .ok () (w.printing expr) :=
  rfl

/-- With a value and room for its line, the statement completes. -/
theorem print_of_ok
    (h : Tell.evaluate silent fuel expr (w.printing expr) = .ok value w')
    (hline : printLine value.display w'.machine = .ok () m) :
    Tell.print silent fuel expr w = .ok .normal (w'.step silent m) := by
  rw [Tell.print, telling_bind_of_ok (tell_print w expr), telling_bind_of_ok h,
    telling_bind_of_ok (tacit_of_ok hline)]
  rfl

/-- Without room it fails at the line. -/
theorem print_of_full
    (h : Tell.evaluate silent fuel expr (w.printing expr) = .ok value w')
    (hline : printLine value.display w'.machine = .error halt m) :
    Tell.print silent fuel expr w = .error halt (w'.step silent m) := by
  rw [Tell.print, telling_bind_of_ok (tell_print w expr), telling_bind_of_ok h,
    telling_bind_of_error (tacit_of_error hline)]

/-- Without a value it fails as the expression does. -/
theorem print_of_error
    (h : Tell.evaluate silent fuel expr (w.printing expr) = .error halt w') :
    Tell.print silent fuel expr w = .error halt w' := by
  rw [Tell.print, telling_bind_of_ok (tell_print w expr), telling_bind_of_error h]

end Print

/-- The story of a run in another frame is its story, with the old frame set back. -/
theorem storyOf_within : storyOf (Tell.within frame x w) =
    (storyOf (x (w.withCurrent frame))).withCurrent w.machine.current := by
  cases hrun : x (w.withCurrent frame) with
  | ok a w' => rw [telling_within_of_ok hrun, storyOf, storyOf]
  | error halt w' => rw [telling_within_of_error hrun, storyOf, storyOf]

end Telling

/-! ## Runs without bound -/

/-- Whatever is run on a sink with room for any amount, the story goes on. -/
theorem Composed.precedes {x : Telling Unit α} (hx : Composed silent x) {w : Story Unit}
    (hfree : w.machine.sink.capacity = none) : w.Precedes (storyOf (x w)) := by
  induction hx generalizing w with
  | pure a => exact .refl w
  | outOfFuel => exact .refl w
  | tell event => exact .told w event
  | @quiet _ y hy =>
    cases hrun : y w.machine with
    | ok a m =>
      rw [tacit_of_ok hrun]
      exact .quiet_step (hy.current.current_of_ok hrun) (hy.sink_of_ok hrun)
    | error halt m =>
      rw [tacit_of_error hrun]
      exact .quiet_step (hy.current.current_of_error hrun) (hy.sink_of_error hrun)
  | @print fuel expr _ ih =>
    have htold : w.Precedes (w.printing expr) := .told w _
    -- the expression may print as well, by what it calls
    have hvalue := @ih (w.printing expr) hfree
    cases hrun : Tell.evaluate silent fuel expr (w.printing expr) with
    | ok value w' =>
      rw [hrun] at hvalue
      have hfree' : w'.machine.sink.capacity = none := hvalue.capacity.trans hfree
      rw [print_of_ok hrun (printLine_of_unlimited hfree' _)]
      exact (htold.trans hvalue).trans (.line hfree' _)
    | error halt w' =>
      rw [hrun] at hvalue
      rw [print_of_error hrun]
      exact htold.trans hvalue
  | flush =>
    have hflush := flush_eq w.machine
    split at hflush
    · rw [tacit_of_error hflush]
      exact .quiet_step rfl rfl
    · rw [tacit_of_ok hflush]
      exact .quiet_step rfl rfl
  | view hpart => exact .refl w
  | @bind _ _ x f hx hf ihx ihf =>
    have hfirst := ihx hfree
    cases hrun : x w with
    | ok a w' =>
      rw [hrun] at hfirst
      rw [telling_bind_of_ok hrun]
      exact hfirst.trans (ihf a (hfirst.capacity.trans hfree))
    | error halt w' =>
      rw [hrun] at hfirst
      rw [telling_bind_of_error hrun]
      exact hfirst
  | @within _ x frame hx ih =>
    have hinside := @ih (w.withCurrent frame) hfree
    rw [storyOf_within]
    exact ⟨rfl, hinside.capacity, hinside.prints, hinside.moments⟩

/-- A composed run that comes to its end has only gone on. -/
theorem Composed.precedes_of_ok {x : Telling Unit α} (hx : Composed silent x) {w w' : Story Unit}
    {a : α} (hfree : w.machine.sink.capacity = none) (hrun : x w = .ok a w') : w.Precedes w' := by
  have hprecedes := hx.precedes hfree
  rwa [hrun] at hprecedes

/-! ## Runs that fit -/

/-- If all that is printed fits, the bound on the sink makes no difference. -/
theorem Composed.cut_of_fits {x : Telling Unit α} (hx : Composed silent x) {w : Story Unit}
    (hfree : w.machine.sink.capacity = none) (hend : (storyOf (x w)).machine.printed ≤ n) :
    x (w.cut n) = cutEnd n (x w) := by
  induction hx generalizing w with
  | pure a => rfl
  | outOfFuel => rfl
  | tell event => rfl
  | @quiet _ y hy =>
    -- a step that does not look at the sink does not notice that it is another one
    have hcut : y (w.cut n).machine = withSink (w.machine.sink.cut n) (y w.machine) :=
      hy.sink _ _
    cases hrun : y w.machine with
    | ok a m =>
      rw [hrun] at hcut
      rw [tacit_of_ok hrun, tacit_of_ok hcut, ← hy.sink_of_ok hrun]
      rfl
    | error halt m =>
      rw [hrun] at hcut
      rw [tacit_of_error hrun, tacit_of_error hcut, ← hy.sink_of_error hrun]
      rfl
  | @print fuel expr hevaluate ih =>
    have hstart : (w.printing expr).machine.sink.capacity = none := hfree
    cases hrun : Tell.evaluate silent fuel expr (w.printing expr) with
    -- the value is computed as with the whole sink, because all that it prints fits
    | ok value w' =>
      have hfirst := hevaluate.precedes_of_ok hstart hrun
      have hfree' : w'.machine.sink.capacity = none := hfirst.capacity.trans hfree
      rw [print_of_ok hrun (printLine_of_unlimited hfree' _)] at hend ⊢
      have hfits : w'.machine.printed ≤ n :=
        Nat.le_trans (Story.Precedes.line hfree' _).prints.printed_le hend
      have hcut := ih hstart (by rwa [hrun])
      rw [hrun] at hcut
      have hline := printLine_cut hfree' hfits value.display
      exact print_of_ok (w := w.cut n) hcut (hline.trans (if_pos hend))
    | error halt w' =>
      rw [print_of_error hrun] at hend ⊢
      have hcut := ih hstart (by rwa [hrun])
      rw [hrun] at hcut
      exact print_of_error hcut
  -- whether flushing fails does not depend on what was stored
  | flush =>
    have hflush := flush_eq w.machine
    have hcut := flush_eq (w.cut n).machine
    split at hflush
    · next h =>
      rw [tacit_of_error hflush]
      exact tacit_of_error (hcut.trans (if_pos h))
    · next h =>
      rw [tacit_of_ok hflush]
      exact tacit_of_ok (hcut.trans (if_neg h))
  -- what is looked at is not the sink
  | view hpart =>
    unfold Tell.view
    rw [cutEnd, Story.cut, Machine.cut, hpart]
  | @bind _ _ x f hx hf ihx ihf =>
    cases hrun : x w with
    | ok a w' =>
      have hfirst := hx.precedes_of_ok hfree hrun
      have hfree' : w'.machine.sink.capacity = none := hfirst.capacity.trans hfree
      rw [telling_bind_of_ok hrun] at hend ⊢
      -- nothing is taken back, so if all of it fits then the first part does
      have hfits : w'.machine.printed ≤ n :=
        Nat.le_trans ((hf a).precedes hfree').prints.printed_le hend
      have hcut : x (w.cut n) = .ok a (w'.cut n) := by
        rw [ihx hfree (by rwa [hrun]), hrun]
        rfl
      rw [telling_bind_of_ok hcut, ihf a hfree' hend]
    | error halt w' =>
      rw [telling_bind_of_error hrun] at hend ⊢
      have hcut := ihx hfree (by rwa [hrun])
      rw [hrun] at hcut
      exact telling_bind_of_error hcut
  -- the old frame is set back in both stories
  | @within _ x frame hx ih =>
    rw [storyOf_within] at hend
    have hcut : x ((w.cut n).withCurrent frame) = cutEnd n (x (w.withCurrent frame)) :=
      @ih (w.withCurrent frame) hfree hend
    cases hrun : x (w.withCurrent frame) with
    | ok a w' =>
      rw [hrun] at hcut
      rw [telling_within_of_ok hrun]
      exact telling_within_of_ok hcut
    | error halt w' =>
      rw [hrun] at hcut
      rw [telling_within_of_error hrun]
      exact telling_within_of_error hcut

/-! ## Runs that do not fit -/

/-- A statement that prints is executed. Its expression has the value, and what is left to
do is to print it. -/
def Story.AboutToPrint (w : Story Unit) (value : Value) : Prop :=
  ∃ fuel expr, ∃ before : Story Unit,
    (before.printing expr).Precedes w ∧
      Tell.evaluate silent fuel expr (before.printing expr) = .ok value w

/-- In the story `w'` that goes on from `w`, what is printed fits up to the moment `mo`,
at which a value is printed that does not. -/
structure Story.Overflows (n : Nat) (w w' : Story Unit) (mo : Moment Unit)
    (earlier : List (Moment Unit)) : Prop where
  moments : ∃ later, w'.moments = later ++ mo :: earlier
  fits : ∃ since, earlier = since ++ w.moments ∧ ∀ e ∈ since, e.machine.printed ≤ n
  print : ∃ (v : Story Unit) (value : Value), v.AboutToPrint value ∧ v.moments = earlier ∧
    mo = ⟨⟨v.machine.afterLine value.display, ()⟩, .stepped⟩
  full : n < mo.machine.printed
  prints : mo.machine.PrintsOn w'.machine

/-- The story at the moment at which the sink is full. -/
def Story.atFull (n : Nat) (w : Story Unit) (mo : Moment Unit) (earlier : List (Moment Unit)) :
    Story Unit :=
  (Story.cut n ⟨⟨mo.machine, ()⟩, mo :: earlier⟩).withCurrent w.machine.current

namespace Story.Overflows

variable {w w' w'' : Story Unit} {mo : Moment Unit} {earlier : List (Moment Unit)}

/-- What has been told so far fits, and the line that comes next does not. -/
theorem line {value : Value} (hprecedes : w.Precedes w') (hprint : w'.AboutToPrint value)
    (hfits : w'.machine.printed ≤ n) (hfull : n < (w'.machine.afterLine value.display).printed) :
    w.Overflows n (w'.step silent (w'.machine.afterLine value.display))
      ⟨⟨w'.machine.afterLine value.display, ()⟩, .stepped⟩ w'.moments := by
  obtain ⟨since, hmoments, hprints⟩ := hprecedes.moments
  exact ⟨⟨[], rfl⟩,
    ⟨since, hmoments, fun e he => Nat.le_trans (hprints e he).printed_le hfits⟩,
    ⟨w', value, hprint, rfl, rfl⟩, hfull, .refl _⟩

/-- It does not matter what follows. -/
theorem later (h : w.Overflows n w' mo earlier) (hlater : w'.Precedes w'') :
    w.Overflows n w'' mo earlier := by
  obtain ⟨later, hmoments⟩ := h.moments
  obtain ⟨later', hmoments', _⟩ := hlater.moments
  refine ⟨⟨later' ++ later, ?_⟩, h.fits, h.print, h.full, h.prints.trans hlater.prints⟩
  rw [hmoments', hmoments, List.append_assoc]

/-- What was told before fits as well. -/
theorem of_precedes (hearlier : w.Precedes w') (hroom : w'.machine.printed ≤ n)
    (h : w'.Overflows n w'' mo earlier) : w.Overflows n w'' mo earlier := by
  obtain ⟨since, hmoments, hprints⟩ := hearlier.moments
  obtain ⟨since', hmoments', hfits'⟩ := h.fits
  refine ⟨h.moments, ⟨since' ++ since, ?_, ?_⟩, h.print, h.full, h.prints⟩
  · rw [hmoments', hmoments, List.append_assoc]
  · exact List.forall_mem_append.mpr
      ⟨hfits', fun e he => Nat.le_trans (hprints e he).printed_le hroom⟩

/-- The current frame plays no part in it. -/
theorem withCurrent {frame frame' : FrameId}
    (h : (w.withCurrent frame).Overflows n w' mo earlier) :
    w.Overflows n (w'.withCurrent frame') mo earlier :=
  ⟨h.moments, h.fits, h.print, h.full, h.prints⟩

end Story.Overflows

/-- If more is printed than fits, the run ends with the line that does not. -/
theorem Composed.cut_of_overflow {x : Telling Unit α} (hx : Composed silent x) {w : Story Unit}
    (hfree : w.machine.sink.capacity = none) (hroom : w.machine.printed ≤ n)
    (hend : n < (storyOf (x w)).machine.printed) :
    ∃ mo earlier, w.Overflows n (storyOf (x w)) mo earlier ∧
      x (w.cut n) = .error (.failed (.output Sink.fullMessage)) (w.atFull n mo earlier) := by
  induction hx generalizing w with
  -- only printing adds to what is stored: elsewhere there is nothing to show
  | pure a => exact absurd hroom (Nat.not_le.mpr hend)
  | outOfFuel => exact absurd hroom (Nat.not_le.mpr hend)
  | tell event => exact absurd hroom (Nat.not_le.mpr hend)
  | quiet hy =>
    rw [printed, hy.sink_tacit w] at hend
    exact absurd hroom (Nat.not_le.mpr hend)
  | @print fuel expr hevaluate ih =>
    have htold : w.Precedes (w.printing expr) := .told w _
    have hstart : (w.printing expr).machine.sink.capacity = none := hfree
    cases hrun : Tell.evaluate silent fuel expr (w.printing expr) with
    | ok value w' =>
      have hfirst := hevaluate.precedes_of_ok hstart hrun
      have hfree' : w'.machine.sink.capacity = none := hfirst.capacity.trans hfree
      rw [print_of_ok hrun (printLine_of_unlimited hfree' _)] at hend ⊢
      -- it is this line that does not fit, or one that was printed for its value
      by_cases hfits : w'.machine.printed ≤ n
      · have hcut := hevaluate.cut_of_fits (n := n) hstart (by rwa [hrun])
        rw [hrun] at hcut
        have hline := printLine_cut hfree' hfits value.display
        have hfull := hline.trans (if_neg (Nat.not_le.mpr hend))
        have hprecedes : w.Precedes w' := htold.trans hfirst
        refine ⟨_, _, .line hprecedes ⟨fuel, expr, w, hfirst, hrun⟩ hfits hend, ?_⟩
        rw [print_of_full (w := w.cut n) hcut hfull, Story.atFull, ← hprecedes.current]
        rfl
      -- otherwise the line was printed for the value, and the value is not computed any more
      · obtain ⟨mo, earlier, hover, hfull⟩ :=
          ih hstart hroom (by rw [hrun]; exact Nat.not_le.mp hfits)
        rw [hrun] at hover
        exact ⟨mo, earlier, (hover.later (.line hfree' _)).of_precedes htold hroom,
          print_of_error hfull⟩
    | error halt w' =>
      rw [print_of_error hrun] at hend ⊢
      obtain ⟨mo, earlier, hover, hfull⟩ := ih hstart hroom (by rwa [hrun])
      rw [hrun] at hover
      exact ⟨mo, earlier, hover.of_precedes htold hroom, print_of_error hfull⟩
  | flush =>
    rw [printed, sink_tacit_flush w] at hend
    exact absurd hroom (Nat.not_le.mpr hend)
  | view hpart => exact absurd hroom (Nat.not_le.mpr hend)
  | @bind _ _ x f hx hf ihx ihf =>
    cases hrun : x w with
    | ok a w' =>
      have hfirst := hx.precedes_of_ok hfree hrun
      have hfree' : w'.machine.sink.capacity = none := hfirst.capacity.trans hfree
      rw [telling_bind_of_ok hrun] at hend ⊢
      -- the line is printed by the second run only if all fits that the first one prints
      by_cases hfits : w'.machine.printed ≤ n
      · have hcut : x (w.cut n) = .ok a (w'.cut n) := by
          rw [hx.cut_of_fits (n := n) hfree (by rwa [hrun]), hrun]
          rfl
        obtain ⟨mo, earlier, hover, hrest⟩ := ihf a hfree' hfits hend
        refine ⟨mo, earlier, hover.of_precedes hfirst hfits, ?_⟩
        rw [telling_bind_of_ok hcut, hrest, Story.atFull, Story.atFull, hfirst.current]
      -- otherwise it is printed by the first run, and the second one does not begin
      · obtain ⟨mo, earlier, hover, hfull⟩ :=
          ihx hfree hroom (by rw [hrun]; exact Nat.not_le.mp hfits)
        rw [hrun] at hover
        exact ⟨mo, earlier, hover.later ((hf a).precedes hfree'), telling_bind_of_error hfull⟩
    | error halt w' =>
      rw [telling_bind_of_error hrun] at hend ⊢
      obtain ⟨mo, earlier, hover, hfull⟩ := ihx hfree hroom (by rwa [hrun])
      rw [hrun] at hover
      exact ⟨mo, earlier, hover, telling_bind_of_error hfull⟩
  -- in another frame the sink is full at the same moment
  | @within _ x frame hx ih =>
    rw [storyOf_within] at hend ⊢
    obtain ⟨mo, earlier, hover, hfull⟩ := @ih (w.withCurrent frame) hfree hroom hend
    have hcut : x ((w.cut n).withCurrent frame) =
        .error _ ((w.withCurrent frame).atFull n mo earlier) := hfull
    refine ⟨mo, earlier, hover.withCurrent, ?_⟩
    rw [telling_within_of_error hcut]
    rfl

/-! ## Programs -/

/-- The machine, with an empty sink for what it prints. -/
def printingTo (m : Machine) (capacity : Option Nat) (flushFails : Bool) : Machine :=
  { m with sink := ⟨.empty, capacity, flushFails⟩ }

/-- The story of a program that is run with a machine. -/
def programStory (m : Machine) (fuel : Nat) (stmts : List Stmt) : Story Unit :=
  (quietly m).perform (Tell.runProgram silent fuel stmts)

section Perform

variable {x : Telling Unit α} {y : Run α} {w w' : Story Unit}

/-- A piece of work that goes on when cut gives the same verdict, with the machine cut. -/
theorem perform_cut (hretells : Retells x y) (hcut : x (w.cut n) = cutEnd n (x w)) :
    (w.cut n).machine.perform y =
      ((w.machine.perform y).1, (w.machine.perform y).2.cut n) := by
  have hwhole := hretells w
  have hshort := hretells (w.cut n)
  rw [hcut] at hshort
  unfold perform
  rw [← hwhole, ← hshort]
  cases hrun : x w with
  | ok a w' => rfl
  | error halt w' => cases halt <;> rfl

/-- A told run that fails is a piece of work that does. -/
theorem perform_of_failed (hretells : Retells x y) {failure : Failure}
    (h : x w = .error (.failed failure) w') :
    w.machine.perform y = (.failed failure, w'.machine) := by
  have hrun := hretells w
  rw [h] at hrun
  rw [perform, ← hrun]
  rfl

end Perform

/-- A story that begins with an empty sink begins with one that was cut. -/
theorem quietly_printingTo (m : Machine) (flushFails : Bool) (n : Nat) :
    quietly (m.printingTo (some n) flushFails) =
      (quietly (m.printingTo none flushFails)).cut n := by
  have hempty : ByteArray.empty.extract 0 n = .empty := extract_of_size_le (Nat.zero_le n)
  unfold quietly Story.cut Machine.cut Sink.cut printingTo
  rw [hempty]
  rfl

section Programs

variable (m : Machine) (flushFails : Bool) (fuel : Nat) (stmts : List Stmt)

/-- The story of a program leaves the machine that the program leaves. -/
theorem machine_programStory :
    (m.programStory fuel stmts).machine = (m.perform (runProgram fuel stmts)).2 :=
  Story.machine_perform ((tell_transparent silent).runProgram_erases fuel stmts) (quietly m)

/-- If the output of a program fits, all that it does is the same. -/
theorem program_of_fits
    (hfits : ((m.printingTo none flushFails).programStory fuel stmts).machine.printed ≤ n) :
    (m.printingTo (some n) flushFails).programStory fuel stmts =
        ((m.printingTo none flushFails).programStory fuel stmts).cut n ∧
      (m.printingTo (some n) flushFails).perform (runProgram fuel stmts) =
        (((m.printingTo none flushFails).perform (runProgram fuel stmts)).1,
          ((m.printingTo none flushFails).perform (runProgram fuel stmts)).2.cut n) := by
  have hbounded := quietly_printingTo m flushFails n
  have hcut := (runProgram_composed fuel stmts).cut_of_fits
    (w := quietly (m.printingTo none flushFails)) rfl hfits
  constructor
  · show storyOf (Tell.runProgram silent fuel stmts (quietly _)) = _
    rw [hbounded, hcut, storyOf_cutEnd]
    rfl
  · show (quietly (m.printingTo (some n) flushFails)).machine.perform _ = _
    rw [hbounded]
    exact perform_cut ((tell_transparent silent).runProgram_erases fuel stmts) hcut

/-- If it does not fit, the program ends with the line that does not. -/
theorem program_of_overflow
    (hfull : n < ((m.printingTo none flushFails).programStory fuel stmts).machine.printed) :
    ∃ mo earlier,
      (quietly (m.printingTo none flushFails)).Overflows n
          ((m.printingTo none flushFails).programStory fuel stmts) mo earlier ∧
        (m.printingTo (some n) flushFails).programStory fuel stmts =
          (quietly (m.printingTo none flushFails)).atFull n mo earlier ∧
        ((m.printingTo (some n) flushFails).perform (runProgram fuel stmts)).1 =
          .failed (.output Sink.fullMessage) := by
  obtain ⟨mo, earlier, hover, hend⟩ :=
    (runProgram_composed fuel stmts).cut_of_overflow rfl (Nat.zero_le n) hfull
  rw [← quietly_printingTo] at hend
  refine ⟨mo, earlier, hover, ?_, ?_⟩
  · show storyOf (Tell.runProgram silent fuel stmts (quietly _)) = _
    rw [hend, storyOf]
  · have hfailed := perform_of_failed ((tell_transparent silent).runProgram_erases fuel stmts) hend
    exact congrArg Prod.fst hfailed

end Programs

/-- A program is run twice from the same state, with an empty sink that has room for any
amount, and with one that has room for `n` bytes. The second one stores the first `n` bytes
of what the first one does. If that is all of it, there is no other difference: the runs end
in the same way, and the machines after them are the same up to the sink. Otherwise the second
run fails, because its sink is full. It does so at the step that prints the value with
which more than `n` bytes are printed; up to this step the same happened as in the first run,
nothing happened after it, and the current frame is the one before the run. -/
theorem full_sink_truncates (m : Machine) (flushFails : Bool) (n fuel : Nat) (stmts : List Stmt) :
    let free := m.printingTo none flushFails
    let bounded := m.printingTo (some n) flushFails
    let whole := free.perform (runProgram fuel stmts)
    let short := bounded.perform (runProgram fuel stmts)
    let wholeStory := free.programStory fuel stmts
    let shortStory := bounded.programStory fuel stmts
    wholeStory.machine = whole.2 ∧ shortStory.machine = short.2 ∧
      short.2.sink.stored = whole.2.sink.stored.extract 0 n ∧
      (whole.2.printed ≤ n →
        short.1 = whole.1 ∧ short.2 = { whole.2 with sink := short.2.sink } ∧
          shortStory.moments = wholeStory.moments.map (Moment.cut n)) ∧
      (n < whole.2.printed →
        short.1 = .failed (.output Sink.fullMessage) ∧
          ∃ mo earlier, (quietly free).Overflows n wholeStory mo earlier ∧
            shortStory.moments = (mo :: earlier).map (Moment.cut n) ∧
            short.2 = { mo.machine.cut n with current := m.current }) := by
  intro free bounded whole short wholeStory shortStory
  have hwhole : wholeStory.machine = whole.2 := machine_programStory free fuel stmts
  have hshort : shortStory.machine = short.2 := machine_programStory bounded fuel stmts
  refine ⟨hwhole, hshort, ?_⟩
  -- both stories begin with an empty sink, so it is the size of the whole output that counts
  by_cases hfits : whole.2.printed ≤ n
  · have hroom : wholeStory.machine.printed ≤ n := by rwa [hwhole]
    obtain ⟨hstory, hends⟩ := program_of_fits m flushFails fuel stmts hroom
    replace hends : short = (whole.1, whole.2.cut n) := hends
    refine ⟨?_, fun _ => ⟨?_, ?_, ?_⟩, fun hfull => absurd hfits (Nat.not_le.mpr hfull)⟩
    · rw [hends]
      rfl
    · rw [hends]
    · rw [hends]
      rfl
    · exact congrArg Story.moments hstory
  · have hfull : n < wholeStory.machine.printed := by rwa [hwhole, ← Nat.not_le]
    obtain ⟨mo, earlier, hover, hstory, hfailed⟩ :=
      program_of_overflow m flushFails fuel stmts hfull
    have hafter : short.2 = { mo.machine.cut n with current := m.current } := by
      rw [← hshort]
      exact congrArg (fun w : Story Unit => w.machine) hstory
    refine ⟨?_, fun hless => absurd hless hfits,
      fun _ => ⟨hfailed, mo, earlier, hover, congrArg Story.moments hstory, hafter⟩⟩
    rw [hafter, ← hwhole]
    exact (hover.prints.extract (Nat.le_of_lt hover.full)).symm

/-- Three lines of which the second one does not fit, and is cut after its first letter. With
room for all three of them the end is that of the program. -/
theorem full_sink_truncates_second_line :
    let stmts := (Program.ofSource "print true;print nil;print false;").stmts
    let free := (boot 0 .unlimited).printingTo none false
    let whole := free.perform (runProgram 5 stmts)
    let short := ((boot 0 .unlimited).printingTo (some 6) false).perform (runProgram 5 stmts)
    let ample := ((boot 0 .unlimited).printingTo (some 15) false).perform (runProgram 5 stmts)
    6 < whole.2.printed ∧ short.1 = .failed (.output Sink.fullMessage) ∧
      short.2.sink.stored = "true\nn".toUTF8 ∧
      (∃ mo earlier,
        (quietly free).Overflows 6 (free.programStory 5 stmts) mo earlier) ∧
      whole.2.printed ≤ 15 ∧ ample.1 = whole.1 := by
  intro stmts free whole short ample
  have hstored : whole.2.sink.stored = "true\nnil\nfalse\n".toUTF8 := by decide +kernel
  have hfull : 6 < whole.2.printed := by
    rw [printed, hstored]
    decide +kernel
  have hless : whole.2.printed ≤ 15 := by
    rw [printed, hstored]
    decide +kernel
  obtain ⟨-, -, hcut, -, hoverflow⟩ := full_sink_truncates (boot 0 .unlimited) false 6 5 stmts
  obtain ⟨hfailed, mo, earlier, hover, -⟩ := hoverflow hfull
  obtain ⟨-, -, -, hfits, -⟩ := full_sink_truncates (boot 0 .unlimited) false 15 5 stmts
  refine ⟨hfull, hfailed, ?_, ⟨mo, earlier, hover⟩, hless, (hfits hless).1⟩
  rw [hcut, hstored]
  decide +kernel

end Machine

end Lox
