import ScriptMachine.Proofs.CodeOffsets

/-! Which instruction is blamed when code is wrong. An instruction whose bytes are cut off, or that names
a constant, a global, a builtin or an operator which does not exist, says so of its own offset. One that
names a free variable which does not exist says so of the offset where its frame went on last. -/

namespace ScriptMachine

/-- The machine is about to execute a whole instruction that uses a free variable, and the running frame
has no such variable. -/
structure Machine.LacksFree (machine : Machine) (instruction : Instruction) (frame : Frame) : Prop where
  decoded : Instruction.decode? machine.code machine.ip = some instruction
  free : Act.usesFree instruction.op = true
  top : machine.frames.head? = some frame
  lacks : frame.free.size ≤ instruction.operand 0

namespace Act

variable {α β : Type} {around : Surroundings} {world : World} {machine : Machine} {op : Opcode}
  {operands : List Nat} {index : Nat}

/-- An act that blames no instruction but the one being executed, unless the running frame lacks a free
variable. Then it may blame the offset where that frame went on last. -/
def Misses (index : Nat) (act : Act α) : Prop :=
  ∀ active stop after, act active = .error stop after → ∀ site ∈ stop.offset?,
    site = active.machine.opIp ∨
      ∃ frame, active.machine.frames.head? = some frame ∧ frame.free.size ≤ index ∧ site = frame.resume

theorem Misses.after {first : Act α} {rest : α → Act β} (begins : Owns first)
    (next : ∀ value, Misses index (rest value)) : Misses index (first >>= rest) := by
  intro active stop last failed site blamed
  have begun := begins active
  simp only [Bind.bind, EStateM.bind] at failed
  cases done : first active with
  | ok value middle =>
    rw [done] at begun failed
    have opIp : middle.machine.opIp = active.machine.opIp := congrArg Scene.opIp begun.follows.kept
    have frames : middle.machine.frames = active.machine.frames :=
      congrArg (fun scene => scene.setup.calls.frames) begun.follows.kept
    rw [← opIp, ← frames]
    exact next value middle stop last failed site blamed
  | error reason middle =>
    rw [done] at begun failed
    cases failed
    exact .inl (begun.offset (fun _ => Fault.offset?_of_unconcerned) blamed)

theorem freeBox_of_lacking {active : Active} {frame : Frame}
    (top : active.machine.frames.head? = some frame) (lacks : frame.free.size ≤ index) :
    freeBox index active = .error (.fault (.invalidInstruction frame.resume)) active := by
  obtain ⟨callers, frames⟩ := List.head?_eq_some_iff.mp top
  have running : Act.frame active = .ok frame active := by simp only [Act.frame, frames]
  rw [freeBox, bind_of_ok running, Array.getElem?_eq_none lacks]
  rfl

theorem misses_freeBox (index : Nat) {rest : Ref → Act β} (next : ∀ box, Owns (rest box)) :
    Misses index (freeBox index >>= rest) := by
  intro active stop after failed site blamed
  cases frames : active.machine.frames with
  | nil =>
    have idle : freeBox index active = .error (.fault .stackUnderflow) active :=
      bind_of_error (by simp only [Act.frame, frames])
    cases (bind_of_error idle).symm.trans failed
    cases blamed
  | cons frame callers =>
    have running : Act.frame active = .ok frame active := by simp only [Act.frame, frames]
    cases found : frame.free[index]? with
    | none =>
      have lacks : frame.free.size ≤ index := Array.getElem?_eq_none_iff.mp found
      have missed := freeBox_of_lacking (by rw [frames]; rfl) lacks
      cases (bind_of_error missed).symm.trans failed
      exact .inr ⟨frame, rfl, lacks, (Option.some.inj blamed).symm⟩
    | some box =>
      have reached : freeBox index active = .ok box active := by
        rw [freeBox, bind_of_ok running, found]
        rfl
      have stays := (next box).fails active stop after ((bind_of_ok reached).symm.trans failed)
      exact .inl (stays.offset (fun _ => Fault.offset?_of_unconcerned) blamed)

theorem misses_perform (free : usesFree op = true) (whole : operands.length = op.widths.length) :
    Misses (Instruction.operand ⟨op, operands⟩ 0) (perform around ⟨op, operands⟩) := by
  cases op with
  | getFree =>
    match operands with
    | [index] =>
      exact misses_freeBox index fun box => (owned_readStore _).bind fun value =>
        (owned_push value).thenProceed
  | setFree =>
    match operands with
    | [index] =>
      refine .after owned_pop fun value => misses_freeBox index fun box => ?_
      exact Settles.thenProceed (settles_onStore (StoreM.harmless_write _ trivial))
  | getFreeBox =>
    match operands with
    | [index] => exact misses_freeBox index fun box => (owned_push _).thenProceed
  | setFreePath =>
    match operands with
    | [index, count] =>
      exact misses_freeBox index fun box => (owned_readStore _).bind fun target =>
        owned_assignPath target count
  | _ => cases free

theorem readByte_of_missing (world : World)
    (missing : Instruction.readByte? machine.code machine.ip = none) :
    readByte ⟨world, machine⟩ =
      .error (.fault (.invalidInstruction machine.opIp)) ⟨world, machine⟩ := by
  simp only [readByte, missing]

theorem execute_cut (around : Surroundings) (world : World) (free : usesFree op = true)
    (cut : Instruction.readOperands? machine.code machine.ip op.widths = none) :
    ∃ after, execute around op ⟨world, machine⟩ =
      .error (.fault (.invalidInstruction machine.opIp)) after := by
  cases op with
  | getFree | setFree | getFreeBox =>
    obtain first | ⟨_, _, others⟩ := readOperands?_cons_none cut
    · exact ⟨_, bind_of_error (readByte_of_missing world first)⟩
    · exact absurd others readOperands?_nil_ne
  | setFreePath =>
    obtain first | ⟨index, first, more⟩ := readOperands?_cons_none cut
    · exact ⟨_, bind_of_error (readByte_of_missing world first)⟩
    obtain second | ⟨_, _, others⟩ := readOperands?_cons_none more
    · have missing := @readByte_of_missing (machine.past 1) world second
      exact ⟨_, (readByte_bind first).trans (bind_of_error missing)⟩
    · exact absurd others readOperands?_nil_ne
  | _ => cases free

theorem error_of_outcome_eq {first other : EStateM.Result Stop Active α} {stop : Stop} {after : Active}
    (same : outcome first = outcome other) (failed : first = .error stop after) :
    ∃ last, other = .error stop last := by
  subst failed
  cases other with
  | ok value last => cases same
  | error reason last =>
    simp only [outcome, EStateM.Result.error.injEq] at same
    exact ⟨last, by rw [same.1]⟩

theorem offset?_observe {active after : Active} {stop : Stop}
    (stopped : observe active = .error stop after) : stop.offset? = none := by
  unfold observe at stopped
  dsimp only at stopped
  split at stopped
  · cases stopped
    rfl
  · split at stopped
    next expired =>
      cases stopped
      exact Fault.offset?_of_unconcerned (Machine.concern?_expiry expired)
    · cases stopped

theorem offset?_fetch {stop : Stop} {after : Active} {site : Nat}
    (failed : fetch ⟨world, machine⟩ = .error stop after) (blamed : site ∈ stop.offset?) :
    site = machine.ip := by
  unfold fetch at failed
  dsimp only at failed
  split at failed
  · cases failed
    exact (Option.some.inj blamed).symm
  · split at failed
    · cases failed
      cases blamed
    · cases failed

/-- What an operation blames once it has been read: its own offset, or else an offset at which a frame
went on last that lacks a free variable. -/
theorem execute_blames {stop : Stop} {after : Active} {site : Nat}
    (found : machine.code[machine.ip]? = some op.byte)
    (failed : execute around op ⟨world, machine.fetched⟩ = .error stop after)
    (blamed : site ∈ stop.offset?) :
    site = machine.ip ∨
      ∃ instruction frame, machine.LacksFree instruction frame ∧ site = frame.resume := by
  cases free : usesFree op with
  | false =>
    have stays := failsInPlace_execute around free _ _ _ failed
    exact .inl (stays.offset (fun _ uncounted => uncounted.offset) blamed)
  | true =>
    cases read : Instruction.readOperands? machine.code (machine.ip + 1) op.widths with
    | none =>
      obtain ⟨last, cut⟩ := @execute_cut machine.fetched op around world free read
      cases cut.symm.trans failed
      exact .inl (Option.some.inj blamed).symm
    | some operands =>
      have same := @execute_eq_perform world machine.fetched op operands around read
      obtain ⟨last, missed⟩ := error_of_outcome_eq same failed
      have decoded : Instruction.decode? machine.code machine.ip = some ⟨op, operands⟩ := by
        rw [decode?_eq found, read]
        rfl
      have whole := Instruction.length_operands (Instruction.decode?_eq_some decoded).2
      obtain own | ⟨frame, top, lacks, same⟩ := misses_perform free whole _ _ _ missed site blamed
      · exact .inl own
      · exact .inr ⟨_, frame, ⟨decoded, free, top, lacks⟩, same⟩

/-- What a step blames if it fails is the instruction where the code went on, with the same exception. -/
theorem step_blames {stop : Stop} {after : Active} {site : Nat}
    (failed : step around ⟨world, machine⟩ = .error stop after) (blamed : site ∈ stop.offset?) :
    site = machine.ip ∨
      ∃ instruction frame, machine.LacksFree instruction frame ∧ site = frame.resume := by
  obtain ⟨observed, -⟩ | fetched | ⟨op, found, executed⟩ := step_eq_error failed
  · cases (offset?_observe observed).symm.trans blamed
  · exact .inl (offset?_fetch fetched blamed)
  · exact execute_blames found executed blamed

theorem opIp_of_step {next : Next} {after : Active}
    (stepped : step around ⟨world, machine⟩ = .ok next after) : after.machine.opIp = machine.ip := by
  obtain ⟨op, -, executed⟩ := step_eq_ok stepped
  have posted := posted_execute around op ⟨world, machine.fetched⟩
  rw [executed] at posted
  exact congrArg Post.opIp posted.kept

theorem offset?_pop {active after : Active} {stop : Stop} (stopped : pop active = .error stop after) :
    stop.offset? = none := by
  unfold pop at stopped
  dsimp only at stopped
  split at stopped
  · cases stopped
    rfl
  · split at stopped
    · cases stopped
      rfl
    · cases stopped

theorem perform_of_lacking (around : Surroundings) (free : usesFree op = true)
    (whole : operands.length = op.widths.length) {active : Active} {frame : Frame}
    (top : active.machine.frames.head? = some frame)
    (lacks : frame.free.size ≤ Instruction.operand ⟨op, operands⟩ 0) :
    ∃ stop after, perform around ⟨op, operands⟩ active = .error stop after ∧
      (stop = .fault (.invalidInstruction frame.resume) ∨ op = .setFree ∧ stop.offset? = none) := by
  cases op with
  | getFree | getFreeBox =>
    match operands with
    | [index] => exact ⟨_, _, bind_of_error (freeBox_of_lacking top lacks), .inl rfl⟩
  | setFree =>
    match operands with
    | [index] =>
      have stays := owned_pop active
      cases popped : pop active with
      | ok value middle =>
        rw [popped] at stays
        have frames : middle.machine.frames = active.machine.frames :=
          congrArg (fun scene => scene.setup.calls.frames) stays.follows.kept
        rw [← frames] at top
        have missed := freeBox_of_lacking top lacks
        exact ⟨_, _, (bind_of_ok popped).trans (bind_of_error missed), .inl rfl⟩
      | error stop after =>
        exact ⟨stop, after, bind_of_error popped, .inr ⟨rfl, offset?_pop popped⟩⟩
  | setFreePath =>
    match operands with
    | [index, count] => exact ⟨_, _, bind_of_error (freeBox_of_lacking top lacks), .inl rfl⟩
  | _ => cases free

/-- An instruction that lacks its free variable fails and blames the offset where the frame went on last.
Only one that has a value to assign may fail before it looks for the variable. -/
theorem step_of_lacking {instruction : Instruction} {frame : Frame}
    (lacks : machine.LacksFree instruction frame)
    (observed : observe ⟨world, machine⟩ = .ok () ⟨world, machine⟩) :
    ∃ stop after, step around ⟨world, machine⟩ = .error stop after ∧
      (stop = .fault (.invalidInstruction frame.resume) ∨
        instruction.op = .setFree ∧ stop.offset? = none) := by
  obtain ⟨op, operands⟩ := instruction
  obtain ⟨found, read⟩ := Instruction.decode?_eq_some lacks.decoded
  obtain ⟨stop, after, failed, blames⟩ := @perform_of_lacking op operands around lacks.free
    (Instruction.length_operands read) ⟨world, machine.decoded op⟩ frame lacks.top lacks.lacks
  have same := step_decodes around world found read
  rw [bind_of_ok observed] at same
  obtain ⟨last, stepped⟩ := error_of_outcome_eq same.symm failed
  exact ⟨stop, last, stepped, blames⟩

end Act

namespace Fault

theorem offset?_inCall (callee : String) (fault : Fault) :
    (fault.inCall callee).offset? = fault.offset? := by
  cases fault with
  | _ => rfl

end Fault

namespace Execution

variable {setting : Setting} {world later : World} {task : Task} {caller held : Suspended}
  {chain below : List Suspended} {fault : Fault} {site : Nat}

theorem allowed_of_answerFrom {allowed : Fault → Prop} {action : StoreM Value}
    (behaves : StoreM.Behaves allowed action)
    (answered : answerFrom world action caller chain =
      .next ⟨later, .native (.answer (.error fault)) held below⟩) : allowed fault := by
  unfold answerFrom at answered
  cases computed : world.compute action with
  | mk result after =>
    rw [computed] at answered
    cases answered
    exact World.allowed_of_compute behaves computed

theorem unconcerned_of_enterChild {function : Ref} {arguments : Array Value} {keywords : Table Value}
    (answered : enterChild setting world function arguments keywords caller chain =
      .next ⟨later, .native (.answer (.error fault)) held below⟩) : fault.Unconcerned := by
  unfold enterChild at answered
  split at answered
  · cases answered
    rfl
  · split at answered
    · cases answered
      rfl
    · dsimp only at answered
      split at answered
      · cases answered
      next failed =>
        cases answered
        refine World.allowed_of_compute ?_ failed
        refine (StoreM.harmless_newArray _ _).bind fun array => ?_
        exact (StoreM.harmless_newMap _ _).bind fun map => StoreM.behaves_pure _

theorem unconcerned_of_callPlain {request : Request}
    (answered : callPlain setting world request caller chain =
      .next ⟨later, .native (.answer (.error fault)) held below⟩) : fault.Unconcerned := by
  unfold callPlain at answered
  split at answered
  · exact unconcerned_of_enterChild answered
  · split at answered
    · cases answered
      rfl
    · exact unconcerned_of_enterChild answered
    · cases answered
  · cases answered

theorem unconcerned_of_call {request : Request}
    (answered : call setting world request caller chain =
      .next ⟨later, .native (.answer (.error fault)) held below⟩) : fault.Unconcerned := by
  unfold call at answered
  dsimp only at answered
  split at answered
  · exact unconcerned_of_callPlain answered
  · exact unconcerned_of_enterChild answered
  · split at answered
    · cases answered
    next failed =>
      cases answered
      exact World.allowed_of_compute (StoreM.harmless_bind _ _ _) failed

theorem unconcerned_of_construct {type : Ref} {context : CallContext}
    (answered : construct world type context caller chain =
      .next ⟨later, .native (.answer (.error fault)) held below⟩) : fault.Unconcerned := by
  unfold construct at answered
  split at answered
  · split at answered
    · refine allowed_of_answerFrom ?_ answered
      exact (StoreM.harmless_newObjectWith _ _).bind fun _ => StoreM.behaves_pure _
    · cases answered
      rfl
  · split at answered
    · cases answered
    next failed =>
      cases answered
      exact World.allowed_of_compute (StoreM.harmless_newObject _) failed
  · cases answered

/-- A callable that refuses its arguments does not name itself: its label does. -/
theorem anonymous_of_invoke {callee : Value} {context : CallContext}
    (answered : invoke setting world callee context caller chain =
      .next ⟨later, .native (.answer (.error fault)) held below⟩) : fault.Anonymous := by
  have plain {fault : Fault} (unconcerned : fault.Unconcerned) : fault.Anonymous :=
    (Fault.uncounted_of_unconcerned unconcerned).toAnonymous
  cases callee with
  | builtin => exact allowed_of_answerFrom (Builtin.anonymous_run _ _) answered
  | mapper => exact allowed_of_answerFrom (anonymous_runMapper _ _) answered
  | type => exact plain (unconcerned_of_construct answered)
  | host | function | bound => cases answered
  | _ =>
    cases answered
    exact plain rfl

theorem unconcerned_of_made {context : CallContext} {make : StoreM Value} {next : Value → HostProgram}
    (harmless : StoreM.Harmless make)
    (answered : routine.made world context caller chain make next =
      .next ⟨later, .native (.answer (.error fault)) held below⟩) : fault.Unconcerned := by
  unfold routine.made at answered
  split at answered
  · cases answered
  next failed =>
    cases answered
    exact World.allowed_of_compute harmless failed

/-- A host program raises no fault itself, unless it replies with one. -/
theorem unconcerned_of_routine {context : CallContext} {program : HostProgram}
    (answered : routine world context program caller chain =
      .next ⟨later, .native (.answer (.error fault)) held below⟩) :
    fault.Unconcerned ∨ program = .reply (.error fault) := by
  cases program with
  | reply result =>
    cases answered
    exact .inr rfl
  | newArray elements next => exact .inl (unconcerned_of_made (StoreM.harmless_newArray _ _) answered)
  | newMap entries next => exact .inl (unconcerned_of_made (StoreM.harmless_newMap _ _) answered)
  | newError payload next => exact .inl (unconcerned_of_made (StoreM.harmless_newError _) answered)
  | _ => cases answered

/-- Native code raises no fault that blames an instruction, unless a host program does. It hands on those
that it is answered with. -/
theorem native_blames (waits : ∀ result, task = .answer result → caller.natives ≠ [])
    (stepped : step setting ⟨world, .native task caller chain⟩ =
      .next ⟨later, .native (.answer (.error fault)) held below⟩) (blamed : site ∈ fault.offset?) :
    (∃ cause, task = .answer (.error cause) ∧ site ∈ cause.offset?) ∨
      ∃ context, task = .routine context (.reply (.error fault)) := by
  have blameless (anonymous : fault.Anonymous) : False := by
    cases anonymous.offset.symm.trans blamed
  have unconcerned (unconcerned : fault.Unconcerned) : False :=
    blameless (Fault.uncounted_of_unconcerned unconcerned).toAnonymous
  cases task with
  | call request => exact (unconcerned (unconcerned_of_call stepped)).elim
  | invoke callee context => exact (blameless (anonymous_of_invoke stepped)).elim
  | routine context program =>
    obtain raised | rfl := unconcerned_of_routine stepped
    · exact (unconcerned raised).elim
    · exact .inr ⟨context, rfl⟩
  | answer result =>
    obtain ⟨machine, pending, natives⟩ := caller
    cases natives with
    | nil => exact absurd rfl (waits result rfl)
    | cons native natives =>
      cases native with
      | label callee =>
        cases result with
        | ok value => cases stepped
        | error cause =>
          cases stepped
          rw [Fault.offset?_inCall] at blamed
          exact .inl ⟨_, rfl, blamed⟩
      | holding callee =>
        cases stepped
        exact .inl ⟨_, rfl, blamed⟩
      | construct object =>
        cases result with
        | ok value => cases stepped
        | error cause =>
          cases stepped
          exact .inl ⟨_, rfl, blamed⟩
      | routine context kept next =>
        simp only [step, deliver] at stepped
        split at stepped
        · cases stepped
          exact .inl ⟨_, rfl, blamed⟩
        · cases stepped

/-- A machine with `chain` below it raises a fault of its own by an instruction: at once, or when native
code has answered what it asked for with a value. A fault that an answer brings is not its own. -/
inductive Raises (setting : Setting) (chain : List Suspended) :
    EStateM.Result Stop Active Next → Fault → Prop where
  | stops {fault : Fault} {active : Active} : Raises setting chain (.error (.fault fault) active) fault
  | answered {active : Active} {task : Task} {pending : Pending} {world : World} {machine : Machine}
      {value : Value} {fault : Fault}
      (during : During setting { machine := active.machine, pending } chain
        ⟨active.world, .native task { machine := active.machine, pending } chain⟩
        ⟨world, .native (.answer (.ok value)) { machine, pending } chain⟩)
      (rest : Raises setting chain
        (Act.resume setting.program.limits pending (.ok value) ⟨world, machine⟩) fault) :
      Raises setting chain (.ok (.await task pending) active) fault

/-- Whatever is left of an instruction is about the same instruction. -/
theorem Raises.blames {result : EStateM.Result Stop Active Next} {before : Active}
    (raises : Raises setting chain result fault) (blamed : site ∈ fault.offset?)
    (stays : Act.Stays Fault.Unconcerned before result) : site = before.machine.opIp := by
  induction raises generalizing before with
  | stops => exact stays.offset (fun _ => Fault.offset?_of_unconcerned) blamed
  | @answered active task pending world machine value fault during rest ih =>
    have spent : active.machine.Spent machine := (under_during (.native (.refl _)) during).awaits.machine
    have opIp : active.machine.opIp = before.machine.opIp := congrArg Scene.opIp stays.follows.kept
    rw [ih blamed (Act.owned_resume setting.program.limits pending value ⟨world, machine⟩), ← opIp]
    rw [spent.same]

/-- An instruction that raises a fault of its own about code blames the offset where it was fetched,
except that one which uses a free variable that the running frame lacks blames the offset where that
frame went on last, and it does so as soon as it looks for the variable. Native code blames no
instruction: a fault of that kind has been raised by a host program, or by a machine that native code has
waited for. -/
theorem faults_blame_instructions (setting : Setting) :
    (∀ world machine chain site,
      Raises setting chain
          (Act.step ⟨setting.program, fun _ => setting.outside chain⟩ ⟨world, machine⟩)
          (.invalidInstruction site) →
        site = machine.ip ∨
          ∃ instruction frame, machine.LacksFree instruction frame ∧ site = frame.resume) ∧
    (∀ around world machine instruction frame, machine.LacksFree instruction frame →
      Act.observe ⟨world, machine⟩ = .ok () ⟨world, machine⟩ →
        ∃ stop after, Act.step around ⟨world, machine⟩ = .error stop after ∧
          (stop = .fault (.invalidInstruction frame.resume) ∨
            instruction.op = .setFree ∧ stop.offset? = none)) ∧
    ∀ world task caller chain later held below site,
      (∀ result, task = .answer result → caller.natives ≠ []) →
      step setting ⟨world, .native task caller chain⟩ =
          .next ⟨later, .native (.answer (.error (.invalidInstruction site))) held below⟩ →
        task = .answer (.error (.invalidInstruction site)) ∨
          ∃ context, task = .routine context (.reply (.error (.invalidInstruction site))) := by
  refine ⟨?_, fun around world machine instruction frame lacks observed =>
    Act.step_of_lacking lacks observed, ?_⟩
  · intro world machine chain site raises
    cases stepped : Act.step ⟨setting.program, fun _ => setting.outside chain⟩ ⟨world, machine⟩ with
    | ok next active =>
      rw [stepped] at raises
      have stays : Act.Stays Fault.Unconcerned active (.ok next active) := .ok ⟨.refl _, rfl⟩
      exact .inl ((raises.blames rfl stays).trans (Act.opIp_of_step stepped))
    | error stop active =>
      rw [stepped] at raises
      cases raises
      exact Act.step_blames stepped rfl
  · intro world task caller chain later held below site waits stepped
    obtain ⟨cause, rfl, blamed⟩ | ⟨context, rfl⟩ := native_blames waits stepped rfl
    · cases cause with
      | invalidInstruction other =>
        cases blamed
        exact .inl rfl
      | _ => cases blamed
    · exact .inr ⟨context, rfl⟩

def unbound : Session where
  program := { main := 0, limits := { stackSize := 2, globalsSize := 0 } }
  host := .standard
  world := { store := { cells := #[.function { code :=
    { instructions := assemble [⟨.pushUndefined, []⟩, ⟨.pop, []⟩, ⟨.getFree, [5]⟩] } }] } }
  machine := .blank { stackSize := 2, globalsSize := 0 } {}

def unboundStart : Machine :=
  { stack := #[.undefined, .undefined]
    calls := CallStack.empty.push { function := some 0, code := unbound.mainCode }
    code := unbound.mainCode.instructions
    budget := 0 }

def unboundMachine : Machine := { unboundStart with ip := 2, opIp := 1, ticks := 2 }

theorem unbound_lacks : unboundMachine.LacksFree ⟨.getFree, [5]⟩
    { function := some 0, code := unbound.mainCode } where
  decoded := by decide +kernel
  free := rfl
  top := rfl
  lacks := by decide

theorem unbound_raises : Raises (unbound.setting []) []
    (Act.step ⟨(unbound.setting []).program, fun _ => (unbound.setting []).outside []⟩
      ⟨unbound.world, unboundMachine⟩) (.invalidInstruction 0) := .stops

theorem faults_blame_instructions_unbound :
    (∃ instruction frame, unboundMachine.LacksFree instruction frame ∧ 0 = frame.resume) ∧
    (∃ stop after, Act.step ⟨unbound.program, fun _ => []⟩ ⟨unbound.world, unboundMachine⟩ =
      .error stop after ∧ stop = .fault (.invalidInstruction 0)) ∧
    ∃ task held, step (unbound.setting []) ⟨unbound.world, .native task unbound.caller []⟩ =
        .next ⟨unbound.world, .native (.answer (.error (.invalidInstruction 7))) held []⟩ ∧
      ∃ context, task = .routine context (.reply (.error (.invalidInstruction 7))) := by
  obtain ⟨raised, lacking, native⟩ := faults_blame_instructions (unbound.setting [])
  refine ⟨?_, ?_, ?_⟩
  · obtain own | free := raised _ _ _ _ unbound_raises
    · cases own
    · exact free
  · obtain ⟨stop, after, failed, blames | ⟨assigns, -⟩⟩ :=
      lacking ⟨unbound.program, fun _ => []⟩ unbound.world _ _ _ unbound_lacks rfl
    · exact ⟨stop, after, failed, blames⟩
    · cases assigns
  · obtain answered | host := native unbound.world
      (.routine ⟨#[], {}, none⟩ (.reply (.error (.invalidInstruction 7)))) unbound.caller []
      unbound.world unbound.caller [] 7 nofun rfl
    · cases answered
    · exact ⟨_, unbound.caller, rfl, host⟩

/-- The variable is looked for at offset 2, and offset 0 is blamed. -/
theorem missing_variable_blames_start :
    unbound.startMachine .unlimited = .ok unboundStart ∧
    Reaches (unbound.setting []) ⟨unbound.world, .running unboundStart []⟩
      ⟨unbound.world, .running unboundMachine []⟩ ∧
    unboundMachine.ip = 2 ∧
    Raises (unbound.setting []) []
      (Act.step ⟨(unbound.setting []).program, fun _ => (unbound.setting []).outside []⟩
        ⟨unbound.world, unboundMachine⟩) (.invalidInstruction 0) :=
  ⟨rfl, reaches_of_run 2 (by cbv), rfl, unbound_raises⟩

end Execution

end ScriptMachine
