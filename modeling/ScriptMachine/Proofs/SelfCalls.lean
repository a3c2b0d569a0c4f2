import ScriptMachine.Proofs.CallSafety

/-! Calls whose arguments are bound, and among them those of a function by itself. Where a function
calls itself and returns at once, the call takes over the running frame, and any number of such calls
needs that one frame. -/

namespace ScriptMachine

namespace Act

variable {α β : Type}

/-- An act that only reads: it goes on in the code, and nothing else changes. -/
def Peeks (act : Act α) : Prop :=
  ∀ active value after, act active = .ok value after →
    ∃ ip, after = ⟨active.world, { active.machine with ip }⟩

theorem Peeks.bind {act : Act α} {rest : α → Act β} (first : Peeks act)
    (next : ∀ value, Peeks (rest value)) : Peeks (act >>= rest) := by
  intro active result after done
  obtain ⟨value, middle, begun, ended⟩ := bind_eq_ok done
  obtain ⟨ip, rfl⟩ := first active value middle begun
  obtain ⟨last, same⟩ := next value _ result after ended
  exact ⟨last, same⟩

theorem Peeks.ite {condition : Prop} [Decidable condition] {yes no : Act α} (positive : Peeks yes)
    (negative : Peeks no) : Peeks (if condition then yes else no) := by
  split
  · exact positive
  · exact negative

theorem peeks_pure (value : α) : Peeks (pure value : Act α) := by
  intro active result after done
  cases done
  exact ⟨active.machine.ip, rfl⟩

theorem peeks_fail (fault : Fault) : Peeks (fail fault : Act α) := by
  intro active result after done
  cases done

theorem peeks_readStore (view : Store → α) : Peeks (readStore view) := by
  intro active result after done
  cases done
  exact ⟨active.machine.ip, rfl⟩

theorem peeks_readMachine (view : Machine → α) : Peeks (readMachine view) := by
  intro active result after done
  cases done
  exact ⟨active.machine.ip, rfl⟩

theorem peeks_slot (index : Nat) : Peeks (slot index) := by
  intro active result after done
  simp only [slot] at done
  split at done
  · cases done
    exact ⟨active.machine.ip, rfl⟩
  · cases done

theorem peeks_slots (first last : Nat) : Peeks (slots first last) := by
  intro active result after done
  simp only [slots] at done
  split at done
  · cases done
    exact ⟨active.machine.ip, rfl⟩
  · cases done

theorem peeks_readByte : Peeks readByte := by
  intro active result after done
  simp only [readByte] at done
  split at done
  · cases done
    exact ⟨active.machine.ip + 1, rfl⟩
  · cases done

theorem peeks_readFlag : Peeks readFlag := peeks_readByte.bind fun _ => peeks_pure _

theorem peeks_receiver (around : Surroundings) (hold : Hold) (value : Value) :
    Peeks (receiver around hold value) := by
  intro active result after done
  simp only [receiver] at done
  split at done
  · cases done
    exact ⟨active.machine.ip, rfl⟩
  · cases done

theorem peeks_spread (value : Value) : Peeks (spread value) := by
  unfold spread
  split
  · exact peeks_readStore _
  · exact (peeks_readStore _).bind fun _ => peeks_fail _

theorem peeks_gatherKeywords (keywords : Table Value) (maps : List Value) :
    Peeks (gatherKeywords keywords maps) := by
  induction maps generalizing keywords with
  | nil => exact peeks_pure _
  | cons value rest ih =>
    unfold gatherKeywords
    split
    · exact peeks_pure _
    next same => cases same; exact (peeks_readStore _).bind fun _ => ih _
    next same => cases same; exact ih _
    next same => cases same; exact (peeks_readStore _).bind fun _ => peeks_fail _

theorem peeks_callSite : Peeks callSite := by
  refine peeks_readByte.bind fun count => ?_
  refine peeks_readFlag.bind fun spreads => ?_
  refine peeks_readFlag.bind fun keyed => ?_
  refine peeks_readFlag.bind fun catches => ?_
  refine Peeks.bind ((peeks_readMachine _).bind fun _ => (peeks_fail _).ite (peeks_pure _)) fun start => ?_
  refine (peeks_slot _).bind fun callee => ?_
  refine Peeks.bind ((peeks_pure _).ite ((peeks_readStore _).bind fun _ => peeks_fail _)) fun _ => ?_
  refine (peeks_slots _ _).bind fun positional => ?_
  refine Peeks.bind (((peeks_slot _).bind peeks_spread).ite (peeks_pure _)) fun more => ?_
  refine (peeks_readMachine _).bind fun sp => ?_
  refine (peeks_slots _ _).bind fun maps => ?_
  exact (peeks_gatherKeywords _ _).bind fun _ => peeks_pure _

theorem peeks_resolve (around : Surroundings) (site : CallSite) : Peeks (resolve around site) := by
  unfold resolve
  split
  · exact peeks_pure _
  · exact (peeks_receiver _ _ _).bind fun _ => peeks_pure _
  · exact (peeks_receiver _ _ _).bind fun _ => peeks_pure _
  · refine (peeks_readStore _).bind fun store => ?_
    exact ((peeks_slot _).bind fun _ => peeks_pure _).ite (peeks_pure _)

end Act

namespace Machine

variable {size : Nat} {machine : Machine} {frame caller : Frame} {callers : List Frame}

/-- Two machines that go on in the same way: they differ at most in slots that are not in use. -/
structure Alike (first second : Machine) : Prop where
  frames : first.frames = second.frames
  sp : first.sp = second.sp
  ip : first.ip = second.ip
  code : first.code = second.code
  slots : ∀ slot < first.sp, first.stack[slot]? = second.stack[slot]?

/-- What the code of a frame may have done since the frame was entered: the frame is the running one
again, and the slots below its base hold what they held. -/
structure Within (size : Nat) (entered later : Machine) : Prop where
  sound : later.Sound size
  frames : ∃ frame callers resume, entered.frames = frame :: callers ∧
    later.frames = { frame with resume } :: callers
  below : ∀ frame callers, entered.frames = frame :: callers →
    ∀ slot < frame.base, later.stack[slot]? = entered.stack[slot]?

theorem Within.running {entered later : Machine} (within : entered.Within size later)
    (top : entered.frames = frame :: callers) :
    ∃ running, later.frames = running :: callers ∧ running.base = frame.base ∧
      running.code = frame.code := by
  obtain ⟨other, below, resume, same, kept⟩ := within.frames
  rw [top] at same
  cases same
  exact ⟨_, kept, rfl, rfl⟩

theorem frames_popFrame (result : Value) (top : machine.frames = frame :: caller :: callers) :
    (machine.popFrame result).frames = caller :: callers := by
  rw [machine.popFrame_eq result top]
  exact congrArg List.tail top

theorem getElem?_popFrame (sound : machine.Sound size)
    (top : machine.frames = frame :: caller :: callers) (result : Value) {slot : Nat}
    (below : slot < frame.base) :
    (machine.popFrame result).stack[slot]? =
      if slot = frame.base - 1 then some result else machine.stack[slot]? := by
  have frames := sound.frames
  rw [top] at frames
  have fits := frames.fits
  rw [← sound.slots] at fits
  rw [machine.popFrame_eq result top]
  simp only [Array.getElem?_setIfInBounds, size_clearSlots]
  rw [getElem?_clearSlots _ _ _ _ (by omega)]
  by_cases last : frame.base - 1 = slot
  · rw [if_pos last, if_pos (by omega), if_pos last.symm]
  · rw [if_neg last, if_neg (by omega), if_neg (Ne.symm last)]

/-- Two frames at one base are left alike, whatever they hold above it. -/
theorem popFrame_alike {first second : Machine} {other : Frame} (sound : first.Sound size)
    (sane : second.Sound size) (top : first.frames = frame :: caller :: callers)
    (peak : second.frames = other :: caller :: callers) (base : other.base = frame.base)
    (below : ∀ slot < frame.base, first.stack[slot]? = second.stack[slot]?) (result : Value) :
    (first.popFrame result).Alike (second.popFrame result) := by
  have one := first.popFrame_eq result top
  have two := second.popFrame_eq result peak
  refine ⟨?_, ?_, ?_, ?_, ?_⟩
  · rw [frames_popFrame result top, frames_popFrame result peak]
  · rw [one, two]
    exact base.symm
  · rw [one, two]
  · rw [one, two]
  · intro slot inside
    have under : slot < frame.base := by
      rw [one] at inside
      exact inside
    rw [getElem?_popFrame sound top result under,
      getElem?_popFrame sane peak result (base ▸ under), base, below slot under]

theorem getElem?_loadSlots_frame (stack : Array Value) {base stop frameSize : Nat}
    (parameters : Array Value) (reach : base + frameSize ≤ stop)
    (fits : base + frameSize ≤ stack.size) {index : Nat} (inside : index < frameSize) :
    (loadSlots stack base stop parameters)[base + index]? =
      some (parameters[index]?.getD .undefined) := by
  rw [getElem?_loadSlots _ _ _ _ _ (by omega)]
  by_cases given : index < parameters.size
  · rw [if_pos (by omega), Nat.add_sub_cancel_left, Array.getElem?_eq_getElem given]
    rfl
  · rw [if_neg (by omega), if_pos (by omega), Array.getElem?_eq_none (by omega)]
    rfl

end Machine

theorem Opcode.ofByte?_byte (op : Opcode) : ofByte? op.byte = some op := by
  cases op with
  | _ => rfl

namespace Act

variable {size : Nat} {machine : Machine} {frame caller : Frame} {callers : List Frame}

theorem leave_eq (sound : machine.Sound size) (top : machine.frames = frame :: caller :: callers)
    (world : World) (result : Value) :
    leave result ⟨world, machine⟩ = .ok .proceed ⟨world, machine.popFrame result⟩ := by
  have depth : ¬machine.calls.depth ≤ 1 := by
    rw [machine.calls.depth_eq, show machine.calls.frames = _ from top]
    simp
  simp only [leave, readMachine, Bind.bind, EStateM.bind, if_neg depth, changeUnless,
    Machine.popStop?_of_sound sound top, Pure.pure, EStateM.pure]

theorem fetch_eq (world : World) {op : Opcode} (found : machine.code[machine.ip]? = some op.byte) :
    fetch ⟨world, machine⟩ = .ok op ⟨world, { machine with
      ip := machine.ip + 1, opIp := machine.ip, ticks := machine.ticks + 1 }⟩ := by
  simp only [fetch, found, op.ofByte?_byte]

theorem readFlag_eq (world : World) {flag : UInt8} (found : machine.code[machine.ip]? = some flag) :
    readFlag ⟨world, machine⟩ =
      .ok (decide (flag ≠ 0)) ⟨world, { machine with ip := machine.ip + 1 }⟩ := by
  have operand : (decide (flag.toNat ≠ 0)) = decide (flag ≠ 0) := by
    rw [decide_eq_decide]
    exact not_congr (UInt8.toNat_inj (b := 0))
  simp only [readFlag, readByte, Instruction.readByte?, found, Option.map_some, Bind.bind,
    EStateM.bind, Pure.pure, EStateM.pure, operand]

/-- A return, executed at the place where the code goes on, leaves the running frame with what it
hands on. -/
theorem fetch_execute_ret (around : Surroundings) (world : World) {result : Value} {popped : Machine}
    (returns : machine.code[machine.ip]? = some Opcode.ret.byte)
    (handed : returned ⟨world, { machine with
      ip := machine.ip + 1, opIp := machine.ip, ticks := machine.ticks + 1 }⟩ =
        .ok result ⟨world, popped⟩)
    (sound : popped.Sound size) (top : popped.frames = frame :: caller :: callers) :
    (fetch >>= execute around) ⟨world, machine⟩ = .ok .proceed ⟨world, popped.popFrame result⟩ := by
  rw [bind_of_ok (fetch_eq world returns)]
  show (returned >>= leave) _ = _
  rw [bind_of_ok handed]
  exact leave_eq sound top world result

theorem execute_pop (around : Surroundings) (world : World) {value : Value} {below : Nat}
    (used : machine.sp = below + 1) (found : machine.stack[below]? = some value) :
    execute around .pop ⟨world, machine⟩ = .ok .proceed ⟨world, { machine with
      stack := machine.stack.setIfInBounds below .undefined, sp := below }⟩ := by
  show (pop >>= _) _ = _
  simp only [Bind.bind, EStateM.bind, pop, used, found]
  rfl

/-- A call of a function that has been read off the stack, with its arguments bound. -/
structure BoundCall (around : Surroundings) (active : Active) where
  site : CallSite
  found : Active
  read : callSite active = .ok site found
  ref : Ref
  arguments : Array Value
  ready : Active
  resolved : resolve around site found = .ok (.function ref arguments) ready
  parameters : Array Value
  store : Store
  bound : StoreM.bindArguments (active.world.store.function ref).code arguments site.keywords
    active.world.store = .ok parameters store

namespace BoundCall

variable {around : Surroundings} {active : Active} (bound : BoundCall around active)

/-- Nothing has changed when a call is resolved, except for the place in the code. -/
theorem ready_eq : ∃ ip, bound.ready = ⟨active.world, { active.machine with ip }⟩ := by
  obtain ⟨_, found⟩ := peeks_callSite active bound.site bound.found bound.read
  obtain ⟨ip, ready⟩ := peeks_resolve around bound.site bound.found _ _ bound.resolved
  rw [found] at ready
  exact ⟨ip, ready⟩

theorem start_pos (sound : active.machine.Sound size) : 1 ≤ bound.site.start := by
  have outcome := @travels_callSite around.program.limits size active sound trivial
  rw [bound.read] at outcome
  exact outcome.2.1

theorem sound_ready (sound : active.machine.Sound size) : bound.ready.machine.Sound size := by
  obtain ⟨ip, ready⟩ := bound.ready_eq
  rw [ready]
  exact ⟨sound.slots, sound.used, sound.frames, sound.code⟩

theorem frames_ready : bound.ready.machine.frames = active.machine.frames := by
  obtain ⟨ip, ready⟩ := bound.ready_eq
  rw [ready]
  rfl

theorem code_ready : bound.ready.machine.code = active.machine.code := by
  obtain ⟨ip, ready⟩ := bound.ready_eq
  rw [ready]

theorem few : bound.parameters.size ≤ (active.world.store.function bound.ref).code.frameSize := by
  rw [StoreM.size_bindArguments bound.bound]
  exact Nat.le_max_right _ _

def world : World := { active.world with store := bound.store }

def push : Act Unit :=
  enterFrame around.program.limits bound.ref (active.world.store.function bound.ref) bound.parameters
    bound.arguments bound.site.keywords bound.site.start

def newFrame : Frame :=
  (active.world.store.function bound.ref).frame bound.ref bound.arguments bound.site.keywords
    bound.site.start

/-- All that is left of a call once its arguments are bound is the frame it runs in. -/
theorem call_eq : call around active =
    (if bound.ready.machine.reusesFrame bound.ref then
      reenterFrame (active.world.store.function bound.ref) bound.parameters bound.arguments
        bound.site.keywords
    else bound.push).thenProceed ⟨bound.world, bound.ready.machine⟩ := by
  have entered : enter around.program.limits bound.ref bound.arguments bound.site.keywords
      bound.site.start bound.ready =
      (if bound.ready.machine.reusesFrame bound.ref then
        reenterFrame (active.world.store.function bound.ref) bound.parameters bound.arguments
          bound.site.keywords
      else bound.push) ⟨bound.world, bound.ready.machine⟩ := by
    obtain ⟨ip, ready⟩ := bound.ready_eq
    have given := bound.bound
    rw [ready]
    simp only [enter, readStore, onStore, World.compute, readMachine, Bind.bind, EStateM.bind, given]
    rfl
  simp only [call, thenProceed, Bind.bind, EStateM.bind, bound.read, bound.resolved, entered]

end BoundCall

/-- A call that resolves to the function of the running frame, which is not the lowest one, with its
callee in the frame's own part of the stack. -/
structure SelfCall (around : Surroundings) (size : Nat) (active : Active) extends
    BoundCall around active where
  sound : active.machine.Sound size
  frame : Frame
  caller : Frame
  callers : List Frame
  running : active.machine.frames = frame :: caller :: callers
  function : frame.function = some ref
  code : frame.code = (active.world.store.function ref).code
  own : frame.base ≤ site.start - 1

namespace SelfCall

variable {around : Surroundings} {active : Active} (again : SelfCall around size active)

theorem top_ready : again.ready.machine.frames = again.frame :: again.caller :: again.callers :=
  again.frames_ready.trans again.running

theorem fits_ready :
    again.frame.base + again.frame.code.frameSize ≤ again.ready.machine.stack.size := by
  have sound := again.sound_ready again.sound
  have frames := sound.frames
  rw [again.top_ready] at frames
  exact Nat.le_trans frames.fits (Nat.le_of_eq sound.slots.symm)

def reused : Machine :=
  again.ready.machine.restartFrame again.frame.code.frameSize again.parameters again.arguments
    again.site.keywords

theorem restartStop?_ready :
    again.ready.machine.restartStop? again.frame.code.frameSize again.parameters = none := by
  have fits := again.fits_ready
  have few := again.few
  rw [← again.code] at few
  simp only [Machine.restartStop?, again.top_ready]
  rw [if_neg (Nat.not_lt.mpr fits),
    if_pos (Machine.canLoad_of_fits (again.sound_ready again.sound) few fits)]

/-- A return that follows makes the call take over the running frame. -/
theorem call_reuses (followed : again.ready.machine.followedByReturn = true) :
    call around active = .ok .proceed ⟨again.world, again.reused⟩ := by
  have reuses : again.ready.machine.reusesFrame again.ref = true := by
    simp only [Machine.reusesFrame, again.top_ready, again.function, followed, beq_self_eq_true,
      Bool.and_true]
  have allowed := again.restartStop?_ready
  rw [again.call_eq, if_pos reuses]
  simp only [reused]
  rw [again.code] at allowed ⊢
  simp only [thenProceed, reenterFrame, changeUnless, Bind.bind, EStateM.bind, allowed]
  rfl

theorem frames_reused : again.reused.frames =
    { again.frame with arguments := again.arguments, keywords := again.site.keywords } ::
      again.caller :: again.callers :=
  Machine.frames_restartFrame _ _ _ _ _ again.top_ready

theorem sp_reused : again.reused.sp = again.frame.base + again.frame.code.frameSize := by
  simp only [reused, Machine.restartFrame, again.top_ready, List.head?_cons, Option.map_some,
    Option.getD_some]

theorem stack_reused : again.reused.stack =
    Machine.loadSlots again.ready.machine.stack again.frame.base
      (max again.ready.machine.sp (again.frame.base + again.frame.code.frameSize)) again.parameters := by
  simp only [reused, Machine.restartFrame, again.top_ready, List.head?_cons, Option.map_some,
    Option.getD_some]

theorem getElem?_reused {index : Nat} (inside : index < again.frame.code.frameSize) :
    again.reused.stack[again.frame.base + index]? = some (again.parameters[index]?.getD .undefined) := by
  rw [again.stack_reused]
  exact Machine.getElem?_loadSlots_frame _ _ (Nat.le_max_right _ _) again.fits_ready inside

def pushed : Machine := again.ready.machine.pushFrame again.newFrame again.parameters

theorem frames_pushed : again.pushed.frames =
    again.newFrame :: { again.frame with resume := again.ready.machine.ip } ::
      again.caller :: again.callers :=
  again.ready.machine.frames_pushFrame again.parameters again.newFrame again.top_ready

/-- Where the ordinary call is possible, its frame is new and has all its slots. -/
theorem push_eq {world : World} {after : Active}
    (entered : again.push ⟨world, again.ready.machine⟩ = .ok () after) :
    after = ⟨world, again.pushed⟩ ∧
      again.site.start + again.frame.code.frameSize ≤ again.ready.machine.stack.size := by
  simp only [BoundCall.push, enterFrame, changeUnless] at entered
  split at entered
  · cases entered
  next allowed =>
    cases entered
    refine ⟨rfl, ?_⟩
    rw [again.code]
    exact (Machine.pushStop?_eq_none allowed).2

theorem getElem?_pushed
    (fits : again.site.start + again.frame.code.frameSize ≤ again.ready.machine.stack.size)
    {index : Nat} (inside : index < again.frame.code.frameSize) :
    again.pushed.stack[again.site.start + index]? =
      some (again.parameters[index]?.getD .undefined) := by
  rw [again.code] at fits inside
  exact Machine.getElem?_loadSlots_frame _ _ (Nat.le_max_right _ _) fits inside

/-- Below the base of the running frame, both ways of calling leave the stack alone. -/
theorem getElem?_below {slot : Nat} (low : slot < again.frame.base) :
    again.reused.stack[slot]? = again.pushed.stack[slot]? := by
  have own := again.own
  calc
    again.reused.stack[slot]? = again.ready.machine.stack[slot]? := by
      rw [again.stack_reused, Machine.getElem?_loadSlots_below _ _ _ _ _ low]
    _ = again.pushed.stack[slot]? :=
      (Machine.getElem?_loadSlots_below _ _ _ _ _
        (by simp only [BoundCall.newFrame, Function.frame]; omega)).symm

/-- The machine after the ordinary call has returned: the frame below goes on behind the call, with
the result where the callee was. -/
structure Returned (result : Value) (back : Machine) : Prop where
  sound : back.Sound size
  frames : back.frames =
    { again.frame with resume := again.ready.machine.ip } :: again.caller :: again.callers
  code : back.code = active.machine.code
  ip : back.ip = again.ready.machine.ip
  sp : back.sp = again.site.start
  value : back.stack[again.site.start - 1]? = some result
  below : ∀ slot < again.frame.base, again.reused.stack[slot]? = back.stack[slot]?

theorem leave_pushed {later : Machine} (above : again.pushed.Within size later) (world : World)
    (result : Value) :
    ∃ back, leave result ⟨world, later⟩ = .ok .proceed ⟨world, back⟩ ∧ again.Returned result back := by
  obtain ⟨fresh, top, base, -⟩ := above.running again.frames_pushed
  have start : fresh.base = again.site.start := base
  have one := again.start_pos again.sound
  have own := again.own
  have back := later.popFrame_eq result top
  refine ⟨later.popFrame result, leave_eq above.sound top world result, ?_⟩
  constructor
  · exact above.sound.leave result (Machine.popStop?_of_sound above.sound top)
  · exact Machine.frames_popFrame result top
  · rw [back, again.sound.code _ _ again.running]
  · rw [back]
  · rw [back]
    exact start
  · rw [Machine.getElem?_popFrame above.sound top result (by omega), if_pos (by omega)]
  · intro slot low
    rw [again.getElem?_below low, Machine.getElem?_popFrame above.sound top result (by omega),
      if_neg (by omega)]
    exact (above.below _ _ again.frames_pushed slot
      (by simp only [BoundCall.newFrame, Function.frame]; omega)).symm

/-- The frame that was taken over can be left from wherever its code has come to. -/
theorem leave_reused {late : Machine} (inside : again.reused.Within size late) (world : World)
    (result : Value) :
    leave result ⟨world, late⟩ = .ok .proceed ⟨world, late.popFrame result⟩ ∧
      (late.popFrame result).stack[again.frame.base - 1]? = some result := by
  obtain ⟨running, top, base, -⟩ := inside.running again.frames_reused
  have one : 1 ≤ running.base := (top ▸ inside.sound.frames).above.1
  have same : running.base = again.frame.base := base
  refine ⟨leave_eq inside.sound top world result, ?_⟩
  rw [Machine.getElem?_popFrame inside.sound top result (by omega), if_pos (by omega)]

/-- With one result, leaving the frame that was taken over is leaving the frame that called, if the
latter has kept what lies below it. -/
theorem popFrame_alike {late popped : Machine} (inside : again.reused.Within size late)
    (sound : popped.Sound size)
    (top : popped.frames =
      { again.frame with resume := again.ready.machine.ip } :: again.caller :: again.callers)
    (kept : ∀ slot < again.frame.base, again.reused.stack[slot]? = popped.stack[slot]?)
    (result : Value) : (late.popFrame result).Alike (popped.popFrame result) := by
  obtain ⟨running, lateTop, base, -⟩ := inside.running again.frames_reused
  have same : running.base = again.frame.base := base
  refine Machine.popFrame_alike inside.sound sound lateTop top same.symm ?_ result
  intro slot under
  have low : slot < again.frame.base := same ▸ under
  rw [inside.below _ _ again.frames_reused slot low]
  exact kept slot low

end SelfCall

/-- Calls of a function by itself, one after the other, each made by the code of the frame that the
one before took over. -/
inductive SelfCalls (around : Surroundings) (size : Nat) (start : Active) : Nat → Active → Prop where
  | none : SelfCalls around size start 0 start
  | again {count : Nat} {entered working after : Active}
      (earlier : SelfCalls around size start count entered)
      (body : entered.machine.Within size working.machine) (next : SelfCall around size working)
      (followed : next.ready.machine.followedByReturn = true)
      (called : call around working = .ok .proceed after) :
      SelfCalls around size start (count + 1) after

/-- However many such calls follow a frame's entry, they run in its place and with its slots. -/
theorem SelfCalls.keeps {around : Surroundings} {start last : Active} {count : Nat}
    (calls : SelfCalls around size start count last) (top : start.machine.frames = frame :: callers)
    (used : start.machine.sp = frame.base + frame.code.frameSize) :
    ∃ running, last.machine.frames = running :: callers ∧ running.base = frame.base ∧
      running.code = frame.code ∧ last.machine.sp = frame.base + frame.code.frameSize := by
  induction calls with
  | none => exact ⟨frame, top, rfl, rfl, used⟩
  | again earlier body next followed called ih =>
    obtain ⟨entered, enteredTop, enteredBase, enteredCode, -⟩ := ih
    obtain ⟨working, workingTop, workingBase, workingCode⟩ := body.running enteredTop
    have same := next.running.symm.trans workingTop
    rw [List.cons.injEq] at same
    have outcome := called.symm.trans (next.call_reuses followed)
    cases outcome
    have base : next.frame.base = frame.base := by rw [same.1, workingBase, enteredBase]
    have code : next.frame.code = frame.code := by rw [same.1, workingCode, enteredCode]
    refine ⟨_, next.frames_reused.trans (congrArg _ same.2), base, code, ?_⟩
    rw [← base, ← code]
    exact next.sp_reused

end Act

end ScriptMachine
