import ScriptMachine.Proofs.ActLogic
import ScriptMachine.Machine.Step

/-! Calls and returns are made of moves and use no slot that is missing, whatever stands on the stack
when they are made. -/

namespace ScriptMachine

namespace StoreM

theorem size_bindPositional {code : FunctionCode} {arguments parameters : Array Value}
    {store after : Store} (bound : bindPositional code arguments store = .ok parameters after) :
    parameters.size = code.arity + code.variadic.toNat := by
  unfold bindPositional at bound
  split at bound
  next variadic =>
    split at bound
    · cases bound
    next enough =>
      obtain ⟨rest, middle, -, done⟩ := bind_eq_ok bound
      cases done
      simp only [variadic, Array.size_push, Array.size_extract, Bool.toNat_true]
      omega
  next fixed =>
    split at bound
    · cases bound
    next exact =>
      cases bound
      simp only [Bool.not_eq_true] at fixed
      simpa [fixed] using exact

theorem size_bindKeywords {code : FunctionCode} {keywords : Table Value} {parameters : Array Value}
    {store after : Store} (bound : bindKeywords code keywords store = .ok parameters after) :
    parameters.size = code.keywords.length + code.catchAll.toNat := by
  unfold bindKeywords at bound
  split at bound
  next catches =>
    obtain ⟨rest, middle, -, done⟩ := bind_eq_ok bound
    cases done
    simp [declaredKeywords, catches]
  next refuses =>
    obtain ⟨_, middle, -, done⟩ := bind_eq_ok bound
    cases done
    simp [declaredKeywords, refuses]

theorem size_bindArguments {code : FunctionCode} {arguments parameters : Array Value}
    {keywords : Table Value} {store after : Store}
    (bound : bindArguments code arguments keywords store = .ok parameters after) :
    parameters.size = code.paramSlots := by
  obtain ⟨positional, middle, first, rest⟩ := bind_eq_ok bound
  obtain ⟨keyed, last, second, done⟩ := bind_eq_ok rest
  cases done
  rw [Array.size_append, size_bindPositional first, size_bindKeywords second]
  simp only [FunctionCode.paramSlots]
  omega

end StoreM

namespace Machine

variable {machine : Machine} {size : Nat}

theorem canLoad_of_fits {base frameSize : Nat} {parameters : Array Value}
    (sound : machine.Sound size) (few : parameters.size ≤ frameSize)
    (fits : base + frameSize ≤ machine.stack.size) :
    canLoad machine.stack base (max machine.sp (base + frameSize)) parameters = true := by
  have used := sound.used
  rw [← sound.slots] at used
  simp only [canLoad, Bool.and_eq_true, decide_eq_true_eq]
  omega

theorem pushStop?_ne_outOfRange {limits : Limits} {frame : Frame} {parameters : Array Value}
    (sound : machine.Sound size) (few : parameters.size ≤ frame.code.frameSize) :
    machine.pushStop? limits frame parameters ≠ some .outOfRange := by
  simp only [pushStop?]
  split
  · simp
  · split
    · simp
    next fits => simp [canLoad_of_fits sound few (Nat.le_of_not_lt fits)]

theorem restartStop?_ne_outOfRange {frameSize : Nat} {parameters : Array Value}
    (sound : machine.Sound size) (few : parameters.size ≤ frameSize) :
    machine.restartStop? frameSize parameters ≠ some .outOfRange := by
  simp only [restartStop?]
  split
  · simp
  · split
    · simp
    next fits => simp [canLoad_of_fits sound few (Nat.le_of_not_lt fits)]

theorem popStop?_of_sound {frame caller : Frame} {callers : List Frame} (sound : machine.Sound size)
    (top : machine.frames = frame :: caller :: callers) : machine.popStop? = none := by
  have frames := sound.frames
  rw [top] at frames
  have inside := frames.fits
  have used := sound.used
  rw [← sound.slots] at inside used
  have one := frames.above.1
  simp only [popStop?, top]
  rw [if_pos (by omega)]

theorem popStop?_ne_outOfRange (sound : machine.Sound size) :
    machine.popStop? ≠ some .outOfRange := by
  match top : machine.frames with
  | frame :: caller :: callers => simp [popStop?_of_sound sound top]
  | [] | [_] => simp [popStop?, top]

end Machine

/-- What a waiting instruction needs to be completed, with `used` slots in use. None waits for the
host. -/
def Pending.Ready (used : Nat) : Pending → Prop
  | .native start fromStack => 1 ≤ start ∧ start ≤ used ∧ (fromStack = true → 2 ≤ start)
  | .host => False
  | _ => True

/-- What has to be true of the machine for the way it goes on. -/
def Next.Ready (machine : Machine) : Next → Prop
  | .await _ pending => pending.Ready machine.sp
  | _ => True

namespace Act

variable {α : Type} {limits : Limits} {size : Nat} {pre : Machine → Prop}

/-- An act that makes moves only and can be gone on from. -/
abbrev Steps (limits : Limits) (size : Nat) (act : Act Next) : Prop :=
  Travels limits size (fun _ => True) act fun next machine => next.Ready machine

theorem Safe.thenProceed {act : Act Unit} (safe : Safe limits size act) :
    Steps limits size (Act.thenProceed act) :=
  safe.bind fun _ => .pure fun _ _ => trivial

theorem travels_changeUnless {stop? : Machine → Option Stop} {change : Machine → Machine}
    (moves : ∀ machine, stop? machine = none → Machine.Move limits machine (change machine))
    (inside : ∀ machine, machine.Sound size → stop? machine ≠ some .outOfRange) :
    Safe limits size (changeUnless stop? change) := by
  intro active sound _
  obtain ⟨world, machine⟩ := active
  have inRange := inside machine sound
  simp only [changeUnless]
  cases forbidden : stop? machine with
  | none => exact ⟨.single (moves machine forbidden), trivial⟩
  | some stop =>
    refine ⟨?_, .refl⟩
    rintro rfl
    exact inRange forbidden

theorem safe_enterFrame (function : Ref) (callee : Function) {parameters : Array Value}
    (arguments : Array Value) (keywords : Table Value) {start : Nat}
    (few : parameters.size ≤ callee.code.frameSize) (base : 1 ≤ start) :
    Safe limits size (enterFrame limits function callee parameters arguments keywords start) :=
  travels_changeUnless (fun _ allowed => .enter _ _ base allowed)
    fun _ sound => Machine.pushStop?_ne_outOfRange sound few

theorem safe_reenterFrame (callee : Function) {parameters : Array Value}
    (arguments : Array Value) (keywords : Table Value)
    (few : parameters.size ≤ callee.code.frameSize) :
    Safe limits size (reenterFrame callee parameters arguments keywords) :=
  travels_changeUnless (fun _ allowed => .restart _ _ _ _ allowed)
    fun _ sound => Machine.restartStop?_ne_outOfRange sound few

theorem safe_enter (function : Ref) (arguments : Array Value) (keywords : Table Value) {start : Nat}
    (base : 1 ≤ start) : Safe limits size (enter limits function arguments keywords start) := by
  refine (quiet_readStore _).bind fun callee _ => ?_
  have sized : Still size (onStore (StoreM.bindArguments callee.code arguments keywords))
      fun parameters => parameters.size ≤ callee.code.frameSize := by
    apply still_onStore
    intro store parameters after bound
    rw [StoreM.size_bindArguments bound]
    exact Nat.le_max_right _ _
  refine sized.bind fun parameters few => ?_
  refine (quiet_readMachine _).bind fun reuses _ => ?_
  apply Travels.ite
  · intro _
    exact safe_reenterFrame callee arguments keywords few
  · intro _
    exact safe_enterFrame function callee arguments keywords few base

theorem quiet_receiver (around : Surroundings) (hold : Hold) (value : Value) :
    Quiet size (receiver around hold value) := by
  intro active _
  simp only [receiver]
  generalize Value.heldReceiver? _ hold value = held
  cases held with
  | some value => exact ⟨rfl, trivial⟩
  | none => exact ⟨by simp, rfl⟩

theorem quiet_spread (value : Value) : Quiet size (spread value) := by
  unfold spread
  split
  · exact quiet_readStore _
  · exact (quiet_readStore _).chain fun _ _ => still_fail _

theorem quiet_gatherKeywords (keywords : Table Value) (maps : List Value) :
    Quiet size (gatherKeywords keywords maps) := by
  induction maps generalizing keywords with
  | nil => exact .pure trivial
  | cons value rest ih =>
    unfold gatherKeywords
    split
    · exact .pure trivial
    next same => cases same; exact (quiet_readStore _).chain fun _ _ => ih _
    next same => cases same; exact ih _
    next same => cases same; exact (quiet_readStore _).chain fun _ _ => still_fail _

theorem travels_argumentStart (arity : Nat) :
    Travels limits size (fun _ => True) (argumentStart arity)
      fun start machine => 1 ≤ start ∧ machine.sp = start + arity := by
  apply Travels.readMachine
  intro sp
  apply Travels.ite
  · intro _
    exact .fail _
  · intro enough
    apply Travels.pure
    intro machine known
    obtain ⟨-, rfl⟩ := known
    omega

theorem quiet_requireCallable (callee : Value) : Quiet size (requireCallable callee) := by
  unfold requireCallable
  split
  · exact .pure trivial
  · exact (quiet_readStore _).chain fun _ _ => still_fail _

theorem quiet_spreadArguments {spreads : Bool} {index : Nat}
    (inside : spreads = true → index < size) : Quiet size (spreadArguments spreads index) := by
  cases spreads with
  | false => exact .pure trivial
  | true => exact (quiet_slot (inside rfl)).chain fun value _ => quiet_spread value

/-- A call stands whole on the stack: the callee below its arguments, and all of them in use. -/
theorem travels_callSite :
    Travels limits size (fun _ => True) callSite
      fun site machine => 1 ≤ site.start ∧ site.start ≤ machine.sp := by
  refine safe_readByte.bind fun count => ?_
  refine safe_readFlag.bind fun spreads => ?_
  refine safe_readFlag.bind fun keyed => ?_
  refine safe_readFlag.bind fun catches => ?_
  refine (travels_argumentStart _).bind fun start => ?_
  apply Travels.assuming
    (1 ≤ start ∧ start + (count + spreads.toNat + keyed.toNat + catches.toNat) ≤ size)
  · intro machine sound known
    obtain ⟨base, top⟩ := known
    exact ⟨base, top ▸ sound.used⟩
  intro known
  obtain ⟨base, fits⟩ := known
  refine (quiet_slot (by omega)).bind fun callee _ => ?_
  refine (quiet_requireCallable callee).bind fun _ _ => ?_
  refine (quiet_slots (by omega) (by omega)).bind fun positional _ => ?_
  have spreadInside : spreads = true → start + count < size := by
    rintro rfl
    simp only [Bool.toNat_true] at fits
    omega
  refine (quiet_spreadArguments spreadInside).bind fun more _ => ?_
  apply Travels.readMachine
  intro sp
  apply Travels.assuming (start + count + spreads.toNat ≤ sp ∧ sp ≤ size)
  · intro machine sound known
    obtain ⟨⟨-, top⟩, rfl⟩ := known
    exact ⟨by omega, sound.used⟩
  intro known
  obtain ⟨ordered, used⟩ := known
  refine (quiet_slots ordered used).bind fun maps _ => ?_
  refine (quiet_gatherKeywords _ _).bind fun keywords _ => ?_
  apply Travels.pure
  intro machine known
  obtain ⟨⟨-, top⟩, -⟩ := known
  exact ⟨base, by simp only; omega⟩

def CallTarget.Ready (start : Nat) : CallTarget → Prop
  | .native _ _ fromStack => fromStack = true → 2 ≤ start
  | .function .. => True

theorem still_resolve (around : Surroundings) {site : CallSite} (inside : site.start ≤ size) :
    Still size (resolve around site) (CallTarget.Ready site.start) := by
  unfold resolve
  split
  · exact .pure trivial
  · exact (quiet_receiver _ _ _).chain fun _ _ => .pure trivial
  · exact (quiet_receiver _ _ _).chain fun _ _ => .pure (by simp [CallTarget.Ready])
  · refine (quiet_readStore _).chain fun store _ => ?_
    split
    next taken =>
      simp only [Bool.and_eq_true, decide_eq_true_eq] at taken
      exact (quiet_slot (by omega)).chain fun _ _ => .pure fun _ => taken.2
    next => exact .pure (by simp [CallTarget.Ready])

theorem steps_call (around : Surroundings) : Steps around.program.limits size (call around) := by
  refine travels_callSite.bind fun site => ?_
  apply Travels.assuming (1 ≤ site.start ∧ site.start ≤ size)
  · intro machine sound known
    obtain ⟨base, used⟩ := known
    exact ⟨base, Nat.le_trans used sound.used⟩
  intro known
  obtain ⟨base, inside⟩ := known
  refine (still_resolve around inside).bind fun target ready => ?_
  cases target with
  | function ref arguments =>
    have entered : Steps around.program.limits size _ :=
      (safe_enter ref arguments site.keywords base).thenProceed
    exact entered.weaken (fun _ _ => trivial) fun _ _ known => known
  | native callee context fromStack =>
    exact .pure fun machine known => ⟨known.1, known.2, ready⟩

theorem safe_returned : Safe limits size returned := by
  refine safe_readFlag.bind fun valued => ?_
  cases valued with
  | false => exact .pure fun _ _ => trivial
  | true => exact safe_pop

theorem steps_leave (result : Value) : Steps limits size (leave result) := by
  refine (quiet_readMachine _).bind fun depth _ => ?_
  apply Travels.ite
  · intro _
    exact .pure fun _ _ => trivial
  · intro _
    exact (travels_changeUnless (fun _ allowed => .leave result allowed)
      fun _ sound => Machine.popStop?_ne_outOfRange sound).thenProceed

theorem steps_returnFrom : Steps limits size returnFrom :=
  safe_returned.bind fun result => steps_leave result

end Act

end ScriptMachine
