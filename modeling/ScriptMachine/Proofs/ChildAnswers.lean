import ScriptMachine.Proofs.ChildFrames

/-! How the machine of a native-side call comes to answer. It succeeds when the function has returned,
but also when the function, or anything above it, suspends: nobody looks why the machine has stopped. -/

namespace ScriptMachine

theorem Store.size_setBusy (store : Store) (function : Ref) (busy : Bool) :
    (store.setBusy function busy).cells.size = store.cells.size := by
  simp only [setBusy, Array.size_modify]

/-- The world in which the machine of a native-side call begins: the function is busy, and what it is
called with stands in two new cells. -/
def World.readied (world : World) (function : Ref) (arguments : Array Value)
    (keywords : Table Value) : World :=
  { world with store :=
      { world.store.setBusy function true with
        cells := ((world.store.setBusy function true).cells.push (.array arguments)).push
          (.map keywords) } }

namespace Execution

/-- A native-side call that comes down to running a function, with all the arguments for it. -/
inductive Asks (setting : Setting) (world : World) (request : Request) (caller : Suspended)
    (chain : List Suspended) : Ref → Array Value → Prop where
  | plain {function : Ref} (callee : request.callee = .function function)
      (receiver : request.receiver = none) :
      Asks setting world request caller chain function request.arguments
  | bound {id : Nat} {hold : Hold} {function : Ref} {subject : Value}
      (callee : request.callee = .bound id hold (.function function) subject)
      (receiver : request.receiver = none)
      (there : Value.heldReceiver? (lives setting world request
        { caller with natives := .holding request.callee :: caller.natives } chain) hold subject =
          some subject) :
      Asks setting world request caller chain function (#[subject] ++ request.arguments)
  | method {function : Ref} {subject : Value} (callee : request.callee = .function function)
      (receiver : request.receiver = some subject) :
      Asks setting world request caller chain function (#[subject] ++ request.arguments)

/-- The machine that made a call, and the native code that waits on it. -/
def holding (caller : Suspended) (request : Request) : Suspended :=
  { caller with natives := .holding request.callee :: caller.natives }

/-- The state in which a machine made for a call begins to work. -/
def hosting (setting : Setting) (world : World) (function : Ref) (arguments : Array Value)
    (keywords : Table Value) (caller : Suspended) (chain : List Suspended) : Execution :=
  ⟨world.readied function arguments keywords,
    .running (child setting.program.limits caller.machine function
      (.array .writable world.store.cells.size) (.map .writable (world.store.cells.size + 1)))
      (caller :: chain)⟩

variable {setting : Setting} {world : World} {request : Request} {caller held : Suspended}
  {chain : List Suspended} {function : Ref} {arguments : Array Value} {keywords : Table Value}
  {first : Execution}

theorem call_of_asks (asks : Asks setting world request caller chain function arguments) :
    call setting world request caller chain =
      enterChild setting world function arguments request.keywords (holding caller request)
        chain := by
  cases asks with
  | plain callee receiver => simp only [call, receiver, callPlain, callee, holding]
  | bound callee receiver there =>
    rw [callee] at there
    simp only [call, receiver, callPlain, callee, there, holding]
  | method callee receiver => simp only [call, receiver, callee, holding]

theorem enterChild_of_idle (shallow : caller.machine.nesting < setting.program.limits.maxNestedCalls)
    (idle : world.store.isIdle function = true) :
    enterChild setting world function arguments keywords caller chain =
      .next (hosting setting world function arguments keywords caller chain) := by
  have size := world.store.size_setBusy function true
  unfold enterChild
  rw [if_neg (Nat.not_le.mpr shallow), if_neg (by simp [idle])]
  simp only [hosting, World.readied, ← size]
  rw [show (world.store.setBusy function true).cells.size + 1 =
    ((world.store.setBusy function true).cells.push (.array arguments)).size from
      (Array.size_push _).symm]
  rfl

theorem enterChild_cases (setting : Setting) (world : World) (function : Ref)
    (arguments : Array Value) (keywords : Table Value) (caller : Suspended)
    (chain : List Suspended) :
    enterChild setting world function arguments keywords caller chain =
        .next (hosting setting world function arguments keywords caller chain) ∨
      ∃ fault, enterChild setting world function arguments keywords caller chain =
        answer world (.error fault) caller chain := by
  by_cases full : caller.machine.nesting ≥ setting.program.limits.maxNestedCalls
  · exact .inr ⟨.stackOverflow, if_pos full⟩
  · by_cases idle : world.store.isIdle function = true
    · exact .inl (enterChild_of_idle (Nat.lt_of_not_le full) idle)
    · refine .inr ⟨.functionRunning, ?_⟩
      unfold enterChild
      rw [if_neg full, if_pos (by simpa using idle)]

def childCall (limits : Limits) (machine : Machine) (function list map : Ref) (world : World) :
    Act.SpelledCall ⟨world, (child limits machine function (.array .writable list)
      (.map .writable map)).fetched⟩ where
  below := []
  callee := .function function
  ref := function
  receiver := #[]
  brings := .function
  count := 0
  positional := []
  counted := rfl
  spreadFlag := 1
  spreadSlots := [.array .writable list]
  elements := world.store.elements list
  spreads := .given (by decide) (.array .writable list)
  keyFlag := 0
  keySlots := []
  named := ∅
  names := .missing
  catchFlag := 1
  catchSlots := [.map .writable map]
  caught := world.store.entries map
  catches := .given (by decide) (.map .writable map)
  keywords := world.store.entries map
  union := fun name => by
    rw [show (∅ : Table Value).get? name = none from Table.get?_empty name, Option.or_none]
  rest := [Opcode.suspend.byte]
  code := by
    show trampoline.instructions.toList.drop 1 = _
    rw [instructions_trampoline]
    rfl
  stack := by simp [child, Machine.fetched]

/-- The first instruction of a new machine enters the function. -/
theorem hosts_begun {around : Surroundings} {machine : Machine} {list map : Ref} {next : Next}
    {after : Active}
    (stepped : Act.step around ⟨world, child around.program.limits machine function
      (.array .writable list) (.map .writable map)⟩ = .ok next after) :
    next ≠ .halt ∧ Hosts function after.machine.frames := by
  obtain ⟨op, found, executed⟩ := Act.step_eq_ok stepped
  have calls : trampoline.instructions[0]? = some Opcode.call.byte := by decide
  obtain rfl : op = .call := Opcode.eq_of_byte_eq (Option.some.inj (found.symm.trans calls))
  have called : Act.call around _ = .ok next after := executed
  have sound : (child around.program.limits machine function (.array .writable list)
      (.map .writable map)).fetched.Sound (max around.program.limits.stackSize 3) :=
    (sound_child _ _ _ _).fetched
  let spelled := childCall around.program.limits machine function list map world
  have present : spelled.Present around := by
    intro id hold callee value bound
    cases bound
  cases binds : StoreM.bindArguments spelled.function.code spelled.arguments spelled.keywords
      world.store with
  | error fault store =>
    rw [spelled.refused_of_unbound sound present binds] at called
    cases called
  | ok parameters store =>
    rw [(spelled.bind sound present binds).call_eq] at called
    obtain ⟨_, last, entered, done⟩ := bind_eq_ok called
    cases done
    refine ⟨by simp, ?_⟩
    have fresh : (spelled.bind sound present binds).ready.machine.reusesFrame
        (spelled.bind sound present binds).ref = false := rfl
    rw [fresh, if_neg Bool.false_ne_true] at entered
    unfold Act.BoundCall.push Act.enterFrame at entered
    rw [Act.changeUnless_eq_ok entered]
    dsimp only
    rw [Machine.frames_pushFrame _ _ _ rfl]
    exact .callee rfl rfl rfl rfl

/-- The ways in which a machine at work since `first` comes to answer its call with a value, at once
before `last`: its function's frame returns that value, or the machine suspends while the frame is
still there and the value stands in its lowest slot. -/
inductive Gives (setting : Setting) (function : Ref) (caller : Suspended) (chain : List Suspended)
    (first : Execution) (value : Value) (last : Execution) : Prop where
  | returned {world later : World} {machine after : Machine} {frame bottom : Frame}
      (reached : During setting caller chain first ⟨world, .running machine (caller :: chain)⟩)
      (frames : machine.frames = [frame, bottom]) (runs : frame.function = some function)
      (returns : machine.Returns value)
      (executed : step setting ⟨world, .running machine (caller :: chain)⟩ =
        .next ⟨later, .running after (caller :: chain)⟩)
      (stopped : step setting ⟨later, .running after (caller :: chain)⟩ = .next last)
  | suspended {world : World} {machine : Machine} {upper : List Frame} {frame bottom : Frame}
      (reached : During setting caller chain first ⟨world, .running machine (caller :: chain)⟩)
      (frames : machine.frames = upper ++ [frame, bottom]) (runs : frame.function = some function)
      (suspends : machine.code[machine.ip]? = some Opcode.suspend.byte)
      (lowest : machine.stack[0]? = some value)
      (stopped : step setting ⟨world, .running machine (caller :: chain)⟩ = .next last)

/-- The states that a native-side call of a function goes through from `first` on, up to its answer. -/
inductive Serves (setting : Setting) (function : Ref) (caller : Suspended) (chain : List Suspended)
    (first : Execution) : Execution → Prop where
  | begun {world : World} {list map : Ref} :
      Serves setting function caller chain first ⟨world, .running
        (child setting.program.limits caller.machine function (.array .writable list)
          (.map .writable map)) (caller :: chain)⟩
  | works {world : World} {machine : Machine}
      (sound : machine.Sound (max setting.program.limits.stackSize 3))
      (hosts : Hosts function machine.frames) :
      Serves setting function caller chain first ⟨world, .running machine (caller :: chain)⟩
  /-- Native code works for the machine, perhaps on machines above it. -/
  | waits {world : World} {control : Control} {machine : Machine} {pending : Pending}
      (sound : machine.Sound (max setting.program.limits.stackSize 3))
      (hosts : Hosts function machine.frames) (ready : pending.Ready machine.sp)
      (under : Under setting.program.limits ⟨machine, pending, []⟩ (caller :: chain) control) :
      Serves setting function caller chain first ⟨world, control⟩
  | ended {before world : World} {machine after : Machine} {frame bottom : Frame} {value : Value}
      (reached : During setting caller chain first ⟨before, .running machine (caller :: chain)⟩)
      (frames : machine.frames = [frame, bottom]) (runs : frame.function = some function)
      (returns : machine.Returns value)
      (executed : step setting ⟨before, .running machine (caller :: chain)⟩ =
        .next ⟨world, .running after (caller :: chain)⟩)
      (ended : after.Ended value) :
      Serves setting function caller chain first ⟨world, .running after (caller :: chain)⟩
  | answered {execution : Execution} {world : World} {result : Except Fault Value}
      {machine : Machine}
      (same : execution = ⟨world, .native (.answer result) { caller with machine } chain⟩)
      (gives : ∀ value, result = .ok value →
        Gives setting function caller chain first value execution) :
      Serves setting function caller chain first execution

theorem serves_afterAct {act : Act Next} {pre : Machine → Prop} {active : Active}
    {execution : Execution}
    (travels : act.Travels setting.program.limits (max setting.program.limits.stackSize 3) pre
      fun next machine => next.Ready machine)
    (sound : active.machine.Sound (max setting.program.limits.stackSize 3)) (met : pre active.machine)
    (within : ∀ next after, act active = .ok next after →
      (next ≠ .halt ∧ Hosts function after.machine.frames) ∨
        (afterAct (caller :: chain) (.ok next after) = .next execution →
          Serves setting function caller chain first execution))
    (stepped : afterAct (caller :: chain) (act active) = .next execution) :
    Serves setting function caller chain first execution := by
  have outcome := travels active sound met
  cases done : act active with
  | error stop after =>
    rw [done] at outcome stepped
    cases stop with
    | fault fault =>
      cases stepped
      exact .answered rfl (fun value failed => by cases failed)
    | outOfRange => exact absurd rfl outcome.1
  | ok next after =>
    rw [done] at outcome stepped
    obtain ⟨moved, ready⟩ := outcome
    rcases within next after done with ⟨goes, hosts⟩ | serves
    · cases next with
      | proceed =>
        cases stepped
        exact .works (sound.moves moved) hosts
      | halt => exact absurd rfl goes
      | await task pending =>
        cases stepped
        exact .waits (sound.moves moved) hosts ready (.native (.refl _))
    · exact serves stepped

theorem finish_slot (active : Active) (caller : Suspended) (chain : List Suspended) {value : Value}
    (lowest : active.machine.stack[0]? = some value) :
    finish active (.ok .undefined) (caller :: chain) =
      .next ⟨active.world.release active.machine.serves, .native (.answer (.ok value))
        { caller with machine := { caller.machine with budget := active.machine.budget } }
          chain⟩ := by
  simp only [finish, lowest]
  rfl

theorem serves_working {world : World} {machine : Machine} {execution : Execution}
    (sound : machine.Sound (max setting.program.limits.stackSize 3))
    (hosts : Hosts function machine.frames)
    (reached : During setting caller chain first ⟨world, .running machine (caller :: chain)⟩)
    (stepped : step setting ⟨world, .running machine (caller :: chain)⟩ = .next execution) :
    Serves setting function caller chain first execution := by
  obtain ⟨upper, frame, bottom, frames, runs⟩ := hosts.exists_callee
  refine serves_afterAct (Act.steps_step ⟨setting.program, _⟩) sound trivial ?_ stepped
  rintro next ⟨later, after⟩ done
  have carried : step setting ⟨world, .running machine (caller :: chain)⟩ =
      afterAct (caller :: chain) (.ok next ⟨later, after⟩) := by
    rw [← done]
    rfl
  rw [carried] at stepped
  cases Act.passes_step sound hosts done with
  | within goes inside => exact .inl ⟨goes, inside⟩
  | returned last returns ended =>
    refine .inr fun proceeds => ?_
    cases proceeds
    obtain rfl : upper = [] := by simpa [frames] using last
    exact .ended reached frames runs returns carried ended
  | suspended stops =>
    refine .inr fun halts => ?_
    have slots : 0 < machine.stack.size := by
      rw [sound.slots]
      omega
    have lowest : machine.fetched.stack[0]? = some machine.stack[0] :=
      Array.getElem?_eq_getElem slots
    have finished := finish_slot ⟨later, machine.fetched⟩ caller chain lowest
    cases halts.symm.trans finished
    refine .answered rfl ?_
    intro value same
    cases same
    exact .suspended reached frames runs stops lowest (carried.trans halts)

/-- The function has returned, so the code that called it stops the machine, unless it may not go on. -/
theorem serves_ended {before world : World} {machine last : Machine} {frame bottom : Frame}
    {value : Value} {execution : Execution}
    (reached : During setting caller chain first ⟨before, .running machine (caller :: chain)⟩)
    (frames : machine.frames = [frame, bottom]) (runs : frame.function = some function)
    (returns : machine.Returns value)
    (executed : step setting ⟨before, .running machine (caller :: chain)⟩ =
      .next ⟨world, .running last (caller :: chain)⟩)
    (ended : last.Ended value)
    (stepped : step setting ⟨world, .running last (caller :: chain)⟩ = .next execution) :
    Serves setting function caller chain first execution := by
  have whole := stepped
  simp only [step] at stepped
  cases done : Act.step ⟨setting.program, fun _ => setting.outside (caller :: chain)⟩
      ⟨world, last⟩ with
  | error stop after =>
    rw [done] at stepped
    cases stop with
    | fault fault =>
      cases stepped
      exact .answered rfl (fun value failed => by cases failed)
    | outOfRange => cases stepped
  | ok next after =>
    obtain ⟨rfl, rfl⟩ := Act.ended_step ended done
    have finished := finish_slot ⟨world, last.fetched⟩ caller chain ended.slot
    rw [done] at stepped
    cases stepped.symm.trans finished
    refine .answered rfl ?_
    intro answer same
    cases same
    exact .returned reached frames runs returns executed whole

/-- Whatever step is next, the call goes on to be served until it is answered. -/
theorem serves_step {execution after : Execution}
    (serves : Serves setting function caller chain first execution)
    (reached : During setting caller chain first execution)
    (unanswered : ¬execution.Answers caller chain)
    (stepped : step setting execution = .next after) :
    Serves setting function caller chain first after := by
  cases serves with
  | begun =>
    refine serves_afterAct (Act.steps_step ⟨setting.program, _⟩) (sound_child _ _ _ _) trivial ?_ stepped
    intro next last done
    exact .inl (hosts_begun done)
  | works sound hosts => exact serves_working sound hosts reached stepped
  | @waits world control machine pending sound hosts ready under =>
    by_cases answers : Execution.Answers ⟨machine, pending, []⟩ (caller :: chain) ⟨world, control⟩
    · obtain ⟨later, result, spent, same⟩ := answers
      cases same
      obtain ⟨kept, -⟩ : machine.Spent spent := under.awaits.machine
      rw [step_answered ready] at stepped
      have sane : spent.Sound (max setting.program.limits.stackSize 3) := by
        rw [kept]
        exact ⟨sound.slots, sound.used, sound.frames, sound.code⟩
      have inside : Hosts function spent.frames := by
        rw [kept]
        exact hosts
      have met : pending.Ready spent.sp := by
        rw [kept]
        exact ready
      refine serves_afterAct (Act.travels_resume _ pending result) sane met ?_ stepped
      intro next last done
      exact .inl (Act.hosts_resume done inside)
    · obtain ⟨next, went, kept⟩ := under_turn (turn_step setting _) under answers
      rw [stepped] at went
      cases went
      exact .waits sound hosts ready kept
  | ended before frames runs returns executed ended =>
    exact serves_ended before frames runs returns executed ended stepped
  | answered same gives => exact absurd ⟨_, _, _, same⟩ unanswered

theorem serves_during {list map : Ref} {world : World} {execution : Execution}
    (during : During setting caller chain ⟨world, .running
      (child setting.program.limits caller.machine function (.array .writable list)
        (.map .writable map)) (caller :: chain)⟩ execution) :
    Serves setting function caller chain ⟨world, .running
      (child setting.program.limits caller.machine function (.array .writable list)
        (.map .writable map)) (caller :: chain)⟩ execution := by
  induction during with
  | refl => exact .begun
  | tail earlier stepped ih => exact serves_step ih earlier stepped.1 stepped.2

theorem During.eq_of_answers {execution : Execution} (answers : first.Answers caller chain)
    (during : During setting caller chain first execution) : execution = first := by
  rcases during.cases_head with same | ⟨next, stepped, -⟩
  · exact same.symm
  · exact absurd answers stepped.1

theorem exists_run_next {start execution : Execution} {fuel : Nat} {world : World}
    {machine : Machine} {result : Except Fault Value} (reached : Reaches setting start execution)
    (ended : run setting fuel start = .done world machine result) :
    ∃ count < fuel, run setting count start = .next execution := by
  induction reached using Relation.ReflTransGen.head_induction_on generalizing fuel with
  | refl =>
    cases fuel with
    | zero => cases ended
    | succ fuel => exact ⟨0, Nat.succ_pos fuel, rfl⟩
  | head stepped _ ih =>
    cases fuel with
    | zero => cases ended
    | succ fuel =>
      simp only [run, stepped] at ended
      obtain ⟨count, early, passed⟩ := ih ended
      refine ⟨count + 1, Nat.succ_lt_succ early, ?_⟩
      simp only [run, stepped, passed]

/-- Native code that passes answers on is answered first, and then what waited below it. -/
theorem during_beneath (native : Native)
    (pass : World → Except Fault Value → Except Fault Value) (passes : ∀ world result machine,
      step setting ⟨world, .native (.answer result)
          { caller with machine, natives := native :: caller.natives } chain⟩ =
        .next ⟨world, .native (.answer (pass world result)) { caller with machine } chain⟩)
    {execution : Execution} (during : During setting caller chain first execution) :
    During setting { caller with natives := native :: caller.natives } chain first execution ∨
      ∃ world result machine,
        During setting { caller with natives := native :: caller.natives } chain first
          ⟨world, .native (.answer result)
            { caller with machine, natives := native :: caller.natives } chain⟩ ∧
        execution = ⟨world, .native (.answer (pass world result)) { caller with machine } chain⟩ := by
  induction during with
  | refl => exact .inl .refl
  | @tail before after earlier stepped ih =>
    rcases ih with inside | ⟨world, result, machine, -, rfl⟩
    · by_cases answers : before.Answers { caller with natives := native :: caller.natives } chain
      · obtain ⟨world, result, machine, rfl⟩ := answers
        refine .inr ⟨world, result, machine, inside, ?_⟩
        cases stepped.2.symm.trans (passes world result machine)
        rfl
      · exact .inl (inside.tail ⟨answers, stepped.2⟩)
    · exact absurd ⟨world, pass world result, machine, rfl⟩ stepped.1

/-- What waits on the machine that made a call is answered first, and then what waited there before. -/
theorem during_holding (request : Request) {execution : Execution}
    (during : During setting caller chain first execution) :
    During setting (holding caller request) chain first execution ∨
      ∃ world result machine,
        During setting (holding caller request) chain first
          ⟨world, .native (.answer result) { holding caller request with machine } chain⟩ ∧
        execution = ⟨world, .native (.answer result) { caller with machine } chain⟩ :=
  during_beneath (.holding request.callee) (fun _ result => result) (fun _ _ _ => rfl) during

/-- Whoever waits for native code waits for what native code above it is doing. -/
theorem under_beneath {native : Native} {control : Control}
    (under : Under setting.program.limits { caller with natives := native :: caller.natives } chain
      control) : Under setting.program.limits caller chain control := by
  have beneath {held : Suspended}
      (awaits : { caller with natives := native :: caller.natives }.Awaits held) :
      caller.Awaits held :=
    ⟨awaits.machine, awaits.pending, (List.suffix_cons _ _).trans awaits.natives⟩
  cases under with
  | native awaits => exact .native (beneath awaits)
  | running sound waiting less awaits => exact .running sound waiting less (beneath awaits)
  | inside waiting less awaits => exact .inside waiting less (beneath awaits)

theorem answered_beneath (native : Native)
    (pass : World → Except Fault Value → Except Fault Value) (passes : ∀ world result machine,
      step setting ⟨world, .native (.answer result)
          { caller with machine, natives := native :: caller.natives } chain⟩ =
        .next ⟨world, .native (.answer (pass world result)) { caller with machine } chain⟩)
    (under : Under setting.program.limits { caller with natives := native :: caller.natives } chain
      first.control) {later : World} {machine : Machine} {result : Except Fault Value}
    (during : During setting caller chain first
      ⟨later, .native (.answer result) { caller with machine } chain⟩) :
    ∃ above, During setting { caller with natives := native :: caller.natives } chain first
        ⟨later, .native (.answer above)
          { caller with machine, natives := native :: caller.natives } chain⟩ ∧
      result = pass later above := by
  rcases during_beneath native pass passes during with inside | ⟨_, above, _, inside, same⟩
  · have longer := (under_during under inside).awaits.natives.length_le
    simp only [List.length_cons] at longer
    omega
  · cases same
    exact ⟨above, inside, rfl⟩

section Concluding

variable {later : World} {second : Execution} {machine : Machine} {result : Except Fault Value}

def Concludes (setting : Setting) (caller : Suspended) (chain : List Suspended) (first : Execution)
    (later : World) (machine : Machine) (result : Except Fault Value) : Prop :=
  During setting caller chain first ⟨later, .native (.answer result) { caller with machine } chain⟩

/-- While native code above waits for an answer, there is none for what is below it. -/
theorem unanswered_beneath {native : Native} {execution : Execution}
    (under : Under setting.program.limits { caller with natives := native :: caller.natives } chain
      execution.control) : ¬execution.Answers caller chain := by
  rintro ⟨_, _, _, rfl⟩
  have longer := under.awaits.natives.length_le
  simp only [List.length_cons] at longer
  omega

theorem During.beneath {native : Native} {last : Execution}
    (under : Under setting.program.limits { caller with natives := native :: caller.natives } chain
      first.control)
    (during : During setting { caller with natives := native :: caller.natives } chain first last) :
    During setting caller chain first last := by
  induction during with
  | refl => exact .refl
  | tail earlier stepped ih => exact ih.tail ⟨unanswered_beneath (under_during under earlier), stepped.2⟩

theorem concludes_step_iff (unanswered : ¬first.Answers caller chain) (stepped : step setting first = .next second) :
    Concludes setting caller chain first later machine result ↔
      Concludes setting caller chain second later machine result := by
  refine ⟨fun concludes => ?_, fun concludes => .head ⟨unanswered, stepped⟩ concludes⟩
  rcases Relation.ReflTransGen.cases_head concludes with same | ⟨next, moved, rest⟩
  · exact absurd ⟨_, _, _, same⟩ unanswered
  · cases stepped.symm.trans moved.2
    exact rest

theorem concludes_answer_iff {given : Except Fault Value} :
    Concludes setting caller chain ⟨world, .native (.answer given) caller chain⟩ later machine result ↔
      later = world ∧ machine = caller.machine ∧ result = given := by
  constructor
  · intro concludes
    have same := During.eq_of_answers ⟨world, given, caller.machine, rfl⟩ concludes
    cases same
    exact ⟨rfl, rfl, rfl⟩
  · rintro ⟨rfl, rfl, rfl⟩
    exact .refl

theorem concludes_beneath_iff (native : Native) (pass : World → Except Fault Value → Except Fault Value)
    (passes : ∀ world result machine,
      step setting ⟨world, .native (.answer result)
          { caller with machine, natives := native :: caller.natives } chain⟩ =
        .next ⟨world, .native (.answer (pass world result)) { caller with machine } chain⟩)
    (under : Under setting.program.limits { caller with natives := native :: caller.natives } chain
      first.control) :
    Concludes setting caller chain first later machine result ↔
      ∃ above, Concludes setting { caller with natives := native :: caller.natives } chain first later
          machine above ∧
        result = pass later above := by
  constructor
  · exact answered_beneath native pass passes under
  · rintro ⟨above, concludes, rfl⟩
    have waiting := under_during under concludes
    exact (During.beneath under concludes).tail ⟨unanswered_beneath waiting, passes later above machine⟩

/-- The answer is told from what two natives in a row are answered. -/
theorem concludes_beneath_both_iff (lower : Native)
    (passLower : World → Except Fault Value → Except Fault Value)
    (passesLower : ∀ world result machine,
      step setting ⟨world, .native (.answer result)
          { caller with machine, natives := lower :: caller.natives } chain⟩ =
        .next ⟨world, .native (.answer (passLower world result)) { caller with machine } chain⟩)
    (upper : Native) (passUpper : World → Except Fault Value → Except Fault Value)
    (passesUpper : ∀ world result machine,
      step setting ⟨world, .native (.answer result)
          { caller with machine, natives := upper :: lower :: caller.natives } chain⟩ =
        .next ⟨world, .native (.answer (passUpper world result))
          { caller with machine, natives := lower :: caller.natives } chain⟩)
    (under : Under setting.program.limits { caller with natives := upper :: lower :: caller.natives } chain
      first.control) :
    Concludes setting caller chain first later machine result ↔
      ∃ own, Concludes setting { caller with natives := upper :: lower :: caller.natives } chain first later
          machine own ∧
        result = passLower later (passUpper later own) := by
  rw [concludes_beneath_iff lower passLower passesLower (under_beneath under)]
  constructor
  · rintro ⟨above, concludes, same⟩
    obtain ⟨own, inside, rfl⟩ := (concludes_beneath_iff upper passUpper passesUpper under).mp concludes
    exact ⟨own, inside, same⟩
  · rintro ⟨own, inside, same⟩
    exact ⟨_, (concludes_beneath_iff upper passUpper passesUpper under).mpr ⟨own, inside, rfl⟩, same⟩

theorem unanswered_call {held : Suspended} {request : Request} :
    ¬Execution.Answers caller chain ⟨world, .native (.call request) held chain⟩ := by
  rintro ⟨_, _, _, same⟩
  cases same

end Concluding

/-- A native-side call of a function succeeds in one of two ways. Either the function's own frame
returns the value, or the machine suspends while the frame is there, be it the running one or not, and
the call gives what stands in the lowest slot. -/
theorem calls_succeed_by_return_or_suspension
    (asks : Asks setting world request caller chain function arguments) {later : World}
    {machine : Machine} {value : Value}
    (during : During setting caller chain ⟨world, .native (.call request) caller chain⟩
      ⟨later, .native (.answer (.ok value)) { caller with machine } chain⟩) :
    ∃ last, Gives setting function (holding caller request) chain
        (hosting setting world function arguments request.keywords (holding caller request) chain)
        value last ∧
      step setting ⟨world, .native (.call request) caller chain⟩ = .next
        (hosting setting world function arguments request.keywords (holding caller request) chain) ∧
      step setting last = .next ⟨later, .native (.answer (.ok value)) { caller with machine } chain⟩ := by
  have called : step setting ⟨world, .native (.call request) caller chain⟩ = _ :=
    call_of_asks asks
  rcases during.cases_head with same | ⟨first, stepped, rest⟩
  · cases same
  · rcases enterChild_cases setting world function arguments request.keywords
      (holding caller request) chain with entered | ⟨fault, refused⟩
    · have begun := called.trans entered
      cases stepped.2.symm.trans begun
      rcases during_holding request rest with inside | ⟨_, _, spent, inside, same⟩
      · have under : Under setting.program.limits (holding caller request) chain (hosting setting
            world function arguments request.keywords (holding caller request) chain).control :=
          .running (sound_child _ _ _ _) .nil (Int.le_refl _) (.refl _)
        have longer := (under_during under inside).awaits.natives.length_le
        simp only [holding, List.length_cons] at longer
        omega
      · cases same
        cases serves_during inside with
        | waits sound hosts ready under =>
          have more := under.length_lt
          simp only [Control.suspended, List.length_cons] at more
          omega
        | answered same gives =>
          cases same
          exact ⟨_, gives value rfl, begun, rfl⟩
    · have begun := called.trans refused
      cases stepped.2.symm.trans begun
      have answers : Execution.Answers (holding caller request) chain
          ⟨world, .native (.answer (.error fault)) (holding caller request) chain⟩ :=
        ⟨world, .error fault, caller.machine, rfl⟩
      rcases during_holding request rest with inside | ⟨_, _, spent, inside, same⟩
      · cases inside.eq_of_answers answers
      · cases inside.eq_of_answers answers
        cases same

/-- A session with a function that suspends before it would return 7. -/
def suspending : Session where
  program := { main := 0, constants := #[.int 7], limits := { stackSize := 4 } }
  host := .standard
  world := { store := { cells := #[.function { code := {} }, .function { code := {
    instructions := assemble [⟨.suspend, []⟩, ⟨.constant, [0]⟩, ⟨.ret, [1]⟩] } }] } }
  machine := .blank { stackSize := 4 } {}

/-- The call of that function. -/
def suspendingCall : Request := { callee := .function 1 }

theorem suspending_answered : (match run (suspending.setting []) 6
    (suspending.calling suspendingCall) with
    | .done _ _ (.ok (.function ref)) => some ref
    | _ => none) = some 1 := by decide +kernel

theorem run_suspending : ∃ world machine,
    run (suspending.setting []) 6 (suspending.calling suspendingCall) =
      .done world machine (.ok (.function 1)) := by
  have answered := suspending_answered
  split at answered
  next world machine ref ended =>
    cases answered
    exact ⟨world, machine, ended⟩
  · cases answered

theorem calls_succeed_by_return_or_suspension_suspending :
    ∃ last, Gives (suspending.setting []) 1 (holding suspending.caller suspendingCall) []
      (hosting (suspending.setting []) suspending.world 1 #[] {}
        (holding suspending.caller suspendingCall) []) (.function 1) last := by
  obtain ⟨world, machine, ended⟩ := run_suspending
  have during := (Session.during_calling ended).2
  obtain ⟨last, gives, -⟩ := calls_succeed_by_return_or_suspension (.plain rfl rfl) during
  exact ⟨last, gives⟩

def returning (execution : Execution) : Bool :=
  match execution.control with
  | .running machine _ => machine.code[machine.ip]? == some Opcode.ret.byte
  | .native .. => false

theorem suspending_silent : ∀ count < 6,
    (match run (suspending.setting []) count (suspending.calling suspendingCall) with
      | .next execution => execution.returning
      | _ => false) = false := by decide +kernel

/-- The call succeeds with the function itself, and nothing has returned on the way. -/
theorem suspension_answers_call :
    (∃ world machine, During (suspending.setting []) suspending.caller []
      (suspending.calling suspendingCall)
      ⟨world, .native (.answer (.ok (.function 1))) { suspending.caller with machine } []⟩) ∧
    ∀ world machine chain value, Reaches (suspending.setting []) (suspending.calling suspendingCall)
      ⟨world, .running machine chain⟩ → ¬machine.Returns value := by
  obtain ⟨world, machine, ended⟩ := run_suspending
  refine ⟨⟨world, machine, (Session.during_calling ended).2⟩, ?_⟩
  intro later working chain value reached returns
  obtain ⟨count, early, passed⟩ := exists_run_next reached ended
  have silent := suspending_silent count early
  rw [passed] at silent
  simp [returning, returns.opcode] at silent

end Execution

end ScriptMachine
