import ScriptMachine.Proofs.FailedInstructions
import ScriptMachine.Proofs.SourceMarks

/-! The back trace of a run that fails. A frame notes where it goes on when it calls a function, and the
note is used as long as the frame above stays, so every caller in the trace stands at the call that
entered the frame above it. -/

namespace ScriptMachine

/-- A frame later in the same call: it may have called itself with other arguments in the meantime, and
noted other places where it goes on. -/
def Frame.Continues (entered later : Frame) : Prop :=
  later = { entered with
    arguments := later.arguments, keywords := later.keywords, resume := later.resume }

namespace Frame.Continues

theorem refl (frame : Frame) : frame.Continues frame := rfl

theorem trans {entered middle later : Frame} (first : entered.Continues middle)
    (second : middle.Continues later) : entered.Continues later := by
  rw [Continues] at first second ⊢
  rw [second, first]

end Frame.Continues

namespace Machine

variable {store : Store} {machine after : Machine} {instruction : Instruction}
  {above frames below callers : List Frame} {top callee caller : Frame} {change : Frame → Frame}

/-- The running frame's source map has no mark strictly between the bytes of the call that the machine
is about to execute, if it is about to execute one. -/
def UnmarkedCall (machine : Machine) : Prop :=
  ∀ instruction frame, Instruction.decode? machine.code machine.ip = some instruction →
    instruction.op = .call → machine.frames.head? = some frame →
      ∀ mark ∈ frame.code.sources.marks,
        mark.1 ≤ machine.ip ∨ machine.ip + instruction.op.size ≤ mark.1

/-- The code that a machine runs is that of its running frame. -/
def Coded (machine : Machine) : Prop :=
  ∀ top callers, machine.frames = top :: callers → machine.code = top.code.instructions

/-- Every frame goes on where an instruction begins, or at the end of its code. -/
def Aligned (machine : Machine) : Prop :=
  ∀ top callers, machine.frames = top :: callers →
    machine.ip ∈ Instruction.starts top.code.instructions ∧
      ∀ caller ∈ callers, caller.resume ∈ Instruction.starts caller.code.instructions

section Changes

theorem frames_of_kept (calls : after.calls = machine.calls) : after.frames = machine.frames :=
  congrArg CallStack.frames calls

theorem frames_of_changed (calls : after.calls = machine.calls.changeTop change) :
    after.frames = machine.frames.modifyHead change := by
  rw [Machine.frames, calls, Machine.frames]
  obtain ⟨frames, depth, depth_eq⟩ := machine.calls
  cases frames with
  | _ => rfl

theorem frames_of_pushed {frame : Frame} (calls : after.calls = (machine.calls.changeTop change).push frame) :
    after.frames = frame :: machine.frames.modifyHead change := by
  rw [Machine.frames, calls, Machine.frames]
  obtain ⟨frames, depth, depth_eq⟩ := machine.calls
  cases frames with
  | _ => rfl

theorem running_of_changed (same : frames.modifyHead change = top :: callers) :
    ∃ older, frames = older :: callers ∧ top = change older := by
  cases frames with
  | nil => cases same
  | cons older others =>
    cases same
    exact ⟨older, rfl, rfl⟩

theorem callers_of_changed (same : frames.modifyHead change = above ++ callee :: caller :: below)
    (continues : ∀ frame : Frame, frame.Continues (change frame)) :
    ∃ earlier higher, frames = higher ++ earlier :: caller :: below ∧ earlier.Continues callee := by
  cases above with
  | nil =>
    obtain ⟨older, rfl, rfl⟩ := running_of_changed same
    exact ⟨older, [], rfl, continues older⟩
  | cons first above =>
    obtain ⟨older, rfl, rfl⟩ := running_of_changed same
    exact ⟨callee, older :: above, rfl, .refl callee⟩

end Changes

/-- A frame and its caller after an instruction are those from before it, unless the instruction is the
call that entered the frame. -/
theorem Leads.called (leads : machine.Leads store instruction after)
    (same : after.frames = above ++ callee :: caller :: below) :
    (∃ earlier higher, machine.frames = higher ++ earlier :: caller :: below ∧
      earlier.Continues callee) ∨
    (instruction.op = .call ∧ (∃ resume, machine.frames = { caller with resume } :: below) ∧
      after.frames = callee :: caller :: below ∧
      caller.resume = machine.ip + instruction.op.size) := by
  cases leads with
  | jumps _ _ calls | passes _ _ _ _ calls =>
    exact .inl ⟨callee, above, (frames_of_kept calls).symm.trans same, .refl callee⟩
  | returns _ top _ calls =>
    rw [calls] at same
    exact .inl ⟨callee, _ :: above, by rw [top, same]; rfl, .refl callee⟩
  | restarts _ _ _ _ calls =>
    exact .inl (callers_of_changed ((frames_of_changed calls).symm.trans same) fun _ => rfl)
  | enters call _ _ _ _ calls =>
    have pushed := (frames_of_pushed calls).symm.trans same
    cases above with
    | nil =>
      obtain ⟨rfl, noted⟩ := List.cons.inj pushed
      obtain ⟨older, running, rfl⟩ := running_of_changed noted
      exact .inr ⟨call, ⟨older.resume, running⟩, same, rfl⟩
    | cons first above =>
      exact .inl (callers_of_changed (List.cons.inj pushed).2 fun _ => rfl)

theorem Leads.active (leads : machine.Leads store instruction after) (active : machine.frames ≠ []) :
    after.frames ≠ [] := by
  cases leads with
  | jumps _ _ calls | passes _ _ _ _ calls => rwa [frames_of_kept calls]
  | returns _ _ _ calls =>
    rw [calls]
    exact List.cons_ne_nil _ _
  | restarts _ _ _ _ calls =>
    rw [frames_of_changed calls]
    exact fun idle => active (List.modifyHead_eq_nil_iff.mp idle)
  | enters _ _ _ _ _ calls =>
    rw [frames_of_pushed calls]
    exact List.cons_ne_nil _ _

theorem isJump_of_jumps (jumps : machine.jumps store instruction.op = true) :
    instruction.op.isJump = true := by
  cases named : instruction.op with
  | jump | jumpFalsy | andJump | orJump => rfl
  | _ =>
    rw [named] at jumps
    cases jumps

/-- In assembled code every instruction leads to another one, and so does every call that returns. Targets
of jumps are beginnings by assumption, and any other instruction leads behind its last byte, where the next
one begins. -/
theorem Leads.aligned (leads : machine.Leads store instruction after) (aligned : machine.Aligned)
    (decoded : Instruction.decode? machine.code machine.ip = some instruction) (coded : machine.Coded)
    (assembled : ∀ frame ∈ machine.frames, frame.code.Assembled)
    (entered : ∀ frame ∈ after.frames, frame.code.Assembled) : after.Aligned := by
  have begins {older : Frame} {others : List Frame} (running : machine.frames = older :: others) :
      older.code.Assembled ∧ machine.ip ∈ Instruction.starts older.code.instructions ∧
        Instruction.decode? older.code.instructions machine.ip = some instruction := by
    rw [coded _ _ running] at decoded
    exact ⟨assembled older (running ▸ List.mem_cons_self), (aligned _ _ running).1, decoded⟩
  intro top callers same
  have running : top.code.Assembled := entered top (same ▸ List.mem_cons_self)
  cases leads with
  | jumps jumps ip calls =>
    have kept := (frames_of_kept calls).symm.trans same
    obtain ⟨-, starts, known⟩ := begins kept
    rw [ip]
    exact ⟨running.target starts known (isJump_of_jumps jumps), (aligned _ _ kept).2⟩
  | passes _ _ _ ip calls =>
    have kept := (frames_of_kept calls).symm.trans same
    obtain ⟨-, starts, known⟩ := begins kept
    rw [ip]
    exact ⟨(running.apart starts known).1, (aligned _ _ kept).2⟩
  | returns _ left ip calls =>
    obtain ⟨rfl, rfl⟩ := List.cons.inj (calls.symm.trans same)
    rw [ip]
    exact List.forall_mem_cons.mp (aligned _ _ left).2
  | restarts _ _ _ ip calls =>
    obtain ⟨older, kept, -⟩ := running_of_changed ((frames_of_changed calls).symm.trans same)
    rw [ip]
    exact ⟨running.begins, (aligned _ _ kept).2⟩
  | enters _ _ _ ip _ calls =>
    obtain ⟨-, noted⟩ := List.cons.inj ((frames_of_pushed calls).symm.trans same)
    rw [ip]
    refine ⟨running.begins, fun caller member => ?_⟩
    cases callers with
    | nil => cases member
    | cons first others =>
      obtain ⟨older, kept, rfl⟩ := running_of_changed noted
      obtain ⟨tidy, starts, known⟩ := begins kept
      obtain rfl | waiting := List.mem_cons.mp member
      · exact (tidy.apart starts known).1
      · exact (aligned _ _ kept).2 caller waiting

section Trace

variable {program : Program}

theorem length_trace (program : Program) (machine : Machine) :
    (machine.trace program).length = machine.frames.length := by
  unfold trace
  split
  next idle => rw [idle]; rfl
  next frames => rw [frames, List.length_cons, List.length_cons, List.length_map]

theorem head?_trace (program : Program) (machine : Machine) : (machine.trace program).head? =
    machine.frames.head?.map fun frame =>
      program.sources.place (frame.code.sources.position machine.opIp) := by
  unfold trace
  split
  next idle => rw [idle]; rfl
  next frames => rw [frames]; rfl

theorem getElem?_trace (program : Program) (machine : Machine) (index : Nat) :
    (machine.trace program)[index + 1]? = machine.frames[index + 1]?.map fun caller =>
      program.sources.place (caller.code.sources.position (caller.resume - 1)) := by
  unfold trace
  split
  next idle => rw [idle]; rfl
  next frames => rw [frames, List.getElem?_cons_succ, List.getElem?_cons_succ, List.getElem?_map]; rfl

end Trace

end Machine

namespace Execution

variable {setting : Setting} {start last : Active} {callee caller : Frame} {above below : List Frame}

/-- No call that is executed has a mark strictly between its bytes. -/
def Unmarked (setting : Setting) (start : Active) : Prop :=
  ∀ before after, Arrives setting start before → Completes setting [] before after →
    before.machine.UnmarkedCall

/-- The frame `callee` is the activation of a call: `caller`, on top of `below`, has executed the call at
`site` of its code, a frame was entered, and that frame has not been left since. -/
inductive Activates (setting : Setting) (start last : Active) (callee caller : Frame)
    (below : List Frame) (site : Nat) : Prop where
  | intro {before after : Active} {entered : Frame} {resume : Nat} {instruction : Instruction}
      (reached : Arrives setting start before) (place : before.machine.ip = site)
      (code : before.machine.code = caller.code.instructions)
      (decoded : Instruction.decode? before.machine.code before.machine.ip = some instruction)
      (call : instruction.op = .call) (running : before.machine.frames = { caller with resume } :: below)
      (completes : Completes setting [] before after)
      (enters : after.machine.frames = entered :: caller :: below)
      (stays : Relation.ReflTransGen (fun first next => Completes setting [] first next ∧
        below.length + 1 < next.machine.frames.length) after last)
      (continues : entered.Continues callee)

/-- What the trace of a machine shows whose instruction has failed: a place for every frame. The innermost
one is that of the instruction, unless the run was stopped before it. Every other one is that of the
call whose activation is the frame above. -/
structure Shows (setting : Setting) (start last : Active) (places : List Place) : Prop where
  length : places.length = last.machine.frames.length
  innermost : Act.observe last = .ok () last → ∃ frame callers,
    last.machine.frames = frame :: callers ∧ places.head? =
      some (setting.program.sources.place (frame.code.sources.position last.machine.ip))
  callers : ∀ above callee caller below, last.machine.frames = above ++ callee :: caller :: below →
    ∃ site, Activates setting start last callee caller below site ∧ places[above.length + 1]? =
      some (setting.program.sources.place (caller.code.sources.position site))

section Runs

theorem coded_of_arrives {size : Nat} (sound : start.machine.Sound size)
    (arrived : Arrives setting start last) : last.machine.Coded := by
  have begun : (Control.running start.machine []).Sound setting.program.limits size := ⟨sound, .nil⟩
  have kept : (Control.running last.machine []).Sound setting.program.limits size :=
    sound_reaches begun (reaches_of_arrives arrived)
  exact kept.1.code

theorem active_of_arrives (active : start.machine.frames ≠ []) (arrived : Arrives setting start last) :
    last.machine.frames ≠ [] := by
  induction arrived with
  | refl => exact active
  | tail _ completes ih =>
    obtain ⟨instruction, _, _, decoded, -⟩ := completes.performs
    exact (completes.leads decoded).active ih

/-- The last instruction either left the two frames where they were, or it is the call that put one on the
other. -/
theorem activated {size : Nat} {frame : Frame} (sound : start.machine.Sound size)
    (single : start.machine.frames = [frame]) (arrived : Arrives setting start last)
    (same : last.machine.frames = above ++ callee :: caller :: below) :
    ∃ site, Activates setting start last callee caller below site ∧
      caller.resume = site + Opcode.size .call := by
  induction arrived generalizing above callee with
  | refl =>
    have length := congrArg List.length (single.symm.trans same)
    simp only [List.length_append, List.length_cons, List.length_nil] at length
    omega
  | @tail before after arrived completes ih =>
    obtain ⟨instruction, _, _, decoded, -⟩ := completes.performs
    obtain ⟨earlier, higher, older, continues⟩ | ⟨call, ⟨resume, running⟩, entered, noted⟩ :=
      (completes.leads decoded).called same
    · obtain ⟨site, activates, noted⟩ := ih older
      refine ⟨site, ?_, noted⟩
      cases activates with
      | intro reached place code found call running first enters stays since =>
        refine .intro reached place code found call running first enters (stays.tail ⟨completes, ?_⟩)
          (since.trans continues)
        rw [same, List.length_append, List.length_cons, List.length_cons]
        omega
    · have code := coded_of_arrives sound arrived _ _ running
      exact ⟨before.machine.ip, .intro arrived rfl code decoded call running completes entered .refl
        (.refl callee), call ▸ noted⟩

/-- Assembled code, all of whose jumps go to where instructions begin, has no mark inside a call. -/
theorem unmarked_of_assembled {size : Nat} {frame : Frame} (sound : start.machine.Sound size)
    (single : start.machine.frames = [frame]) (first : start.machine.ip = 0)
    (assembled : ∀ last, Arrives setting start last → ∀ frame ∈ last.machine.frames,
      frame.code.Assembled) : Unmarked setting start := by
  have aligned (last : Active) (arrived : Arrives setting start last) : last.machine.Aligned := by
    induction arrived with
    | refl =>
      intro top callers same
      cases single.symm.trans same
      rw [first]
      exact ⟨(assembled start .refl frame (single ▸ List.mem_cons_self)).begins, nofun⟩
    | @tail before after arrived completes ih =>
      obtain ⟨instruction, _, _, decoded, -⟩ := completes.performs
      exact (completes.leads decoded).aligned ih decoded (coded_of_arrives sound arrived)
        (assembled before arrived) (assembled after (arrived.tail completes))
  intro before after arrived completes instruction top decoded call running mark marked
  obtain ⟨callers, frames⟩ := List.head?_eq_some_iff.mp running
  rw [coded_of_arrives sound arrived _ _ frames] at decoded
  have tidy := assembled before arrived top (frames ▸ List.mem_cons_self)
  exact (tidy.apart (aligned before arrived _ _ frames).1 decoded).2 mark marked

theorem shows_of_failsAt {size : Nat} {frame : Frame} {fault : Fault} {left : Active}
    (sound : start.machine.Sound size) (single : start.machine.frames = [frame])
    (unmarked : Unmarked setting start) (arrived : Arrives setting start last)
    (fails : FailsAt setting last fault left) :
    Shows setting start last (left.machine.trace setting.program) := by
  obtain ⟨setup, opIp⟩ := fails.scene
  have frames : left.machine.frames = last.machine.frames :=
    congrArg (fun setup => setup.calls.frames) setup
  refine ⟨?_, fun observed => ?_, fun above callee caller below same => ?_⟩
  · rw [Machine.length_trace, frames]
  · obtain ⟨top, callers, running⟩ :=
      List.exists_cons_of_ne_nil (active_of_arrives (by rw [single]; exact List.cons_ne_nil _ _) arrived)
    refine ⟨top, callers, running, ?_⟩
    rw [Machine.head?_trace, frames, running, opIp observed]
    rfl
  · obtain ⟨site, activates, noted⟩ := activated sound single arrived same
    refine ⟨site, activates, ?_⟩
    have standing : last.machine.frames[above.length + 1]? = some caller := by
      rw [same, List.getElem?_append_right (Nat.le_add_right _ _), Nat.add_sub_cancel_left]
      rfl
    have position : caller.code.sources.position (caller.resume - 1) =
        caller.code.sources.position site := by
      cases activates with
      | @intro _ _ _ resume _ reached place _ decoded call running completes =>
        refine SourceMap.position_of_unmarked (by rw [noted]; exact Nat.le_add_right _ _) ?_
        intro mark marked
        have running : _ = some { caller with resume } := congrArg List.head? running
        have apart := unmarked _ _ reached completes _ _ decoded call running mark marked
        rw [place, call] at apart
        have size : 0 < Opcode.size .call := by decide
        omega
    rw [Machine.getElem?_trace, frames, standing, Option.map_some, position]

end Runs

end Execution

namespace Session

open Execution

variable {session settled : Session} {deadline : Deadline} {start : Machine} {fuel : Nat}
  {failure : Failure}

theorem single_startMachine (started : session.startMachine deadline = .ok start) :
    start.ip = 0 ∧ ∃ frame, start.frames = [frame] := by
  simp only [startMachine] at started
  split at started
  · cases started
  · cases started
    exact ⟨rfl, _, rfl⟩

/-- A run that fails ends in some instruction of the outermost machine, with a trace of that machine. -/
theorem failsAt_run (started : session.startMachine deadline = .ok start)
    (failed : run fuel deadline session = .ok (.failed failure) settled) :
    ∃ last left, Arrives (session.setting []) ⟨session.world, start⟩ last ∧
      FailsAt (session.setting []) last failure.fault left ∧
      failure.trace = left.machine.trace session.program := by
  simp only [run, started] at failed
  split at failed
  · cases failed
  next world machine result _ ended =>
    obtain ⟨execution, reached, stops⟩ := reaches_of_done ended
    obtain ⟨last, arrived, attempts⟩ := @attempted (session.setting []) execution ⟨session.world, start⟩
      reached
    cases result with
    | ok value => cases failed
    | error fault =>
      cases failed
      exact ⟨last, ⟨world, machine⟩, arrived, ⟨execution, attempts, stops⟩, rfl⟩
  · cases failed
  · cases failed

/-- If no mark of a source map lies strictly between the bytes of a call that is executed, the trace of a
run that fails has one place for each frame: first that of the instruction that failed, then, for every
caller, that of the very call whose activation is the frame above. It makes no difference which functions
were called before and have returned, which have called themselves, and what native code has done. There
are no such marks in code that an assembler has made and whose jumps go to where instructions begin. -/
theorem back_trace_names_call_sites (started : session.startMachine deadline = .ok start) :
    (∀ fuel failure settled, run fuel deadline session = .ok (.failed failure) settled →
      Unmarked (session.setting []) ⟨session.world, start⟩ →
        ∃ last left, Arrives (session.setting []) ⟨session.world, start⟩ last ∧
          FailsAt (session.setting []) last failure.fault left ∧
          Shows (session.setting []) ⟨session.world, start⟩ last failure.trace) ∧
    ((∀ last, Arrives (session.setting []) ⟨session.world, start⟩ last →
        ∀ frame ∈ last.machine.frames, frame.code.Assembled) →
      Unmarked (session.setting []) ⟨session.world, start⟩) := by
  obtain ⟨first, frame, single⟩ := single_startMachine started
  have sound := sound_startMachine started
  refine ⟨fun fuel failure settled failed unmarked => ?_, fun assembled =>
    unmarked_of_assembled sound single first assembled⟩
  obtain ⟨last, left, arrived, fails, trace⟩ := failsAt_run started failed
  refine ⟨last, left, arrived, fails, ?_⟩
  rw [trace]
  exact shows_of_failsAt sound single unmarked arrived fails

def agreeing : Assembler := (({} : Assembler).emit ⟨.pushTrue, []⟩).emit ⟨.ret, [1]⟩

def refusing : Assembler :=
  (((({} : Assembler).emit ⟨.pushUndefined, []⟩).emit ⟨.jump, [4]⟩).markSource 2).emit ⟨.negate, []⟩

/-- A main function that calls the one and then the other. -/
def asking : Assembler :=
  let first := ((({} : Assembler).emit ⟨.constant, [0]⟩).markSource 5).emit ⟨.call, [0, 0, 0, 0]⟩
  let second := (first.emit ⟨.pop, []⟩).emit ⟨.constant, [1]⟩
  (second.markSource 9).emit ⟨.call, [0, 0, 0, 0]⟩

theorem assembles_agreeing : Assembler.Assembles agreeing [(0, ⟨.pushTrue, []⟩), (1, ⟨.ret, [1]⟩)] :=
  (Assembler.Assembles.empty.emit ⟨.pushTrue, []⟩ (by decide)).emit ⟨.ret, [1]⟩ (by decide)

theorem assembles_refusing : Assembler.Assembles refusing
    [(0, ⟨.pushUndefined, []⟩), (1, ⟨.jump, [4]⟩), (4, ⟨.negate, []⟩)] :=
  (((Assembler.Assembles.empty.emit ⟨.pushUndefined, []⟩ (by decide)).emit ⟨.jump, [4]⟩
    (by decide)).markSource 2).emit ⟨.negate, []⟩ (by decide)

theorem assembles_asking : Assembler.Assembles asking
    [(0, ⟨.constant, [0]⟩), (3, ⟨.call, [0, 0, 0, 0]⟩), (8, ⟨.pop, []⟩), (9, ⟨.constant, [1]⟩),
      (12, ⟨.call, [0, 0, 0, 0]⟩)] :=
  ((((((Assembler.Assembles.empty.emit ⟨.constant, [0]⟩ (by decide)).markSource 5).emit
    ⟨.call, [0, 0, 0, 0]⟩ (by decide)).emit ⟨.pop, []⟩ (by decide)).emit ⟨.constant, [1]⟩
    (by decide)).markSource 9).emit ⟨.call, [0, 0, 0, 0]⟩ (by decide)

/-- A session of these three functions. -/
def askingTwice : Session where
  program :=
    { main := 0, constants := #[.function 1, .function 2], limits := { stackSize := 2 }
      sources := { files := [⟨"main", 1, 20, [0, 8]⟩], next := 22 } }
  host := .standard
  world := { store := { cells := #[
    .function { code := { instructions := asking.code, sources := asking.sources } },
    .function { code := { instructions := agreeing.code, sources := agreeing.sources } },
    .function { code := { instructions := refusing.code, sources := refusing.sources } }] } }
  machine := .blank { stackSize := 2 } {}

def askingStart : Machine := (askingTwice.startMachine .unlimited).toOption.get (by decide +kernel)

theorem assembled_asking (last : Active)
    (arrived : Arrives (askingTwice.setting []) ⟨askingTwice.world, askingStart⟩ last) :
    ∀ frame ∈ last.machine.frames, frame.code.Assembled := by
  have ends : (completeAll? (askingTwice.setting []) 1 9 ⟨askingTwice.world, askingStart⟩).any
      (fun final => !isNext (step (askingTwice.setting [])
        ⟨final.world, .running final.machine []⟩)) = true := by decide +kernel
  have codes : ∀ index < 10,
      (completeAll? (askingTwice.setting []) 1 index ⟨askingTwice.world, askingStart⟩).all
        (fun active => active.machine.frames.all fun frame =>
          [asking, agreeing, refusing].any fun asm =>
            asm.code == frame.code.instructions && asm.sources.marks == frame.code.sources.marks) =
        true := by decide +kernel
  obtain ⟨final, found, stops⟩ := (Option.any_eq_true _ _).mp ends
  obtain ⟨index, few, known⟩ := completeAll?_of_arrives arrived found (by simpa using stops)
  intro frame member
  have checked := codes index (Nat.lt_succ_of_le few)
  rw [known] at checked
  have among := List.all_eq_true.mp checked frame member
  obtain ⟨asm, listed, same⟩ := List.any_eq_true.mp among
  rw [Bool.and_eq_true, beq_iff_eq, beq_iff_eq] at same
  have sources : asm.sources = frame.code.sources := congrArg SourceMap.mk same.2
  simp only [List.mem_cons, List.not_mem_nil, or_false] at listed
  obtain rfl | rfl | rfl := listed
  · exact .intro assembles_asking same.1 sources (by decide)
  · exact .intro assembles_agreeing same.1 sources (by decide)
  · exact .intro assembles_refusing same.1 sources (by decide)

/-- The trace of its run names the second call only. -/
theorem trace_asking : (match run 20 .unlimited askingTwice with
    | .ok (.failed failure) _ => some failure.trace
    | _ => none) = some [⟨"main", 1, 2⟩, ⟨"main", 2, 1⟩] := by decide +kernel

theorem back_trace_names_call_sites_twice :
    ∃ failure settled, run 20 .unlimited askingTwice = .ok (.failed failure) settled ∧
      failure.trace = [⟨"main", 1, 2⟩, ⟨"main", 2, 1⟩] ∧
      ∃ last left, Arrives (askingTwice.setting []) ⟨askingTwice.world, askingStart⟩ last ∧
        FailsAt (askingTwice.setting []) last failure.fault left ∧
        Shows (askingTwice.setting []) ⟨askingTwice.world, askingStart⟩ last failure.trace := by
  obtain ⟨shows, tidy⟩ := @back_trace_names_call_sites askingTwice .unlimited askingStart rfl
  have traced := trace_asking
  split at traced
  next failure settled failed =>
    exact ⟨failure, settled, failed, Option.some.inj traced,
      shows 20 failure settled failed (tidy assembled_asking)⟩
  · cases traced

end Session

end ScriptMachine
