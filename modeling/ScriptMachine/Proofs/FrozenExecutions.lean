import ScriptMachine.Proofs.FrozenInstructions
import ScriptMachine.Proofs.ExecutionSafety
import ScriptMachine.Proofs.Stations

/-! Executions in which only frozen handles and iterators lead into the vault. Native code and calls on
machines of their own leave it alone as instructions do. -/

namespace ScriptMachine

variable {vault : Vault}

abbrev ResultAvoids (vault : Vault) (result : Except Fault Value) : Prop :=
  ∀ value, result = .ok value → value.Avoids vault

def Native.Avoids (vault : Vault) : Native → Prop
  | .label callee | .holding callee => callee.Avoids vault
  | .construct object => vault.Free object
  | .routine context held next =>
    context.Avoids vault ∧ vault.AllLive held ∧ ∀ result, ResultAvoids vault result → (next result).Respects vault

structure Suspended.Avoids (vault : Vault) (suspended : Suspended) : Prop where
  machine : suspended.machine.Avoids vault
  pending : ∀ value ∈ suspended.pending.values, value.Avoids vault
  natives : ∀ native ∈ suspended.natives, native.Avoids vault

def Control.Avoids (vault : Vault) : Control → Prop
  | .running machine chain =>
    machine.Avoids vault ∧ ∀ suspended ∈ chain, suspended.Avoids vault
  | .native task caller chain =>
    task.Avoids vault ∧ caller.Avoids vault ∧
      ∀ suspended ∈ chain, suspended.Avoids vault

/-- An execution in which only frozen handles and iterators lead into the vault: those in the store, in
globals, in the slots and frames of all machines, in what they wait for and what native code holds. -/
structure Execution.Shelters (vault : Vault) (execution : Execution) : Prop where
  world : execution.world.Shelters vault
  control : execution.control.Avoids vault

/-- A host none of whose routines makes a handle of its own. -/
def Host.Respects (vault : Vault) (host : Host) : Prop :=
  ∀ routine context, context.Avoids vault → (host routine context).Respects vault

/-- Neither the program nor the host of an execution leads into the vault. Values that the embedding
program holds may do so, if they keep nothing alive that is lost. -/
structure Setting.Respects (vault : Vault) (setting : Setting) : Prop where
  program : setting.program.Avoids vault
  host : setting.host.Respects vault
  pinned : vault.AllLive setting.pinned

/-- Whatever a step comes to, it has left the vault alone and has made no way into it. -/
def Progress.Shelters (vault : Vault) : Progress → Prop
  | .next execution => execution.Shelters vault
  | .done world machine result =>
    world.Shelters vault ∧ machine.Avoids vault ∧ ResultAvoids vault result
  | .broken => True

section Worlds

variable {world : World}

theorem World.Shelters.compute {α : Type} (kept : world.Shelters vault) {action : StoreM α}
    {post : α → Prop} (guards : StoreM.Guards vault action post) :
    (world.compute action).2.Shelters vault ∧
      ∀ value, (world.compute action).1 = .ok value → post value := by
  have done := guards world.store kept.store
  unfold World.compute
  dsimp only
  cases ended : action world.store with
  | ok value store =>
    rw [ended] at done
    exact ⟨⟨done.1, kept.globals⟩, fun _ same => Except.ok.inj same ▸ done.2⟩
  | error fault store =>
    rw [ended] at done
    exact ⟨⟨done, kept.globals⟩, fun _ same => nomatch same⟩

theorem World.Shelters.setBusy (kept : world.Shelters vault) {function : Ref}
    (free : vault.Free function) (busy : Bool) : (world.setBusy function busy).Shelters vault :=
  ⟨kept.store.setBusy free busy, kept.globals⟩

theorem World.Shelters.release (kept : world.Shelters vault) {serves : Option Ref}
    (free : ∀ function ∈ serves, vault.Free function) : (world.release serves).Shelters vault := by
  cases serves with
  | none => exact kept
  | some function => exact kept.setBusy (free function rfl) false

end Worlds

theorem resultAvoids_error (fault : Fault) : ResultAvoids vault (.error fault) :=
  fun _ same => nomatch same

theorem resultAvoids_ok {value : Value} (avoids : value.Avoids vault) : ResultAvoids vault (.ok value) :=
  fun _ same => Except.ok.inj same ▸ avoids

theorem Suspended.Avoids.withNatives {suspended : Suspended} {natives : List Native}
    (avoids : suspended.Avoids vault) (known : ∀ native ∈ natives, native.Avoids vault) :
    Suspended.Avoids vault { suspended with natives } :=
  ⟨avoids.machine, avoids.pending, known⟩

theorem Suspended.Avoids.await {suspended : Suspended} {native : Native}
    (avoids : suspended.Avoids vault) (known : native.Avoids vault) :
    Suspended.Avoids vault { suspended with natives := native :: suspended.natives } :=
  avoids.withNatives (List.forall_mem_cons.mpr ⟨known, avoids.natives⟩)

section Held

theorem Request.Avoids.values {request : Request} (avoids : request.Avoids vault) :
    ∀ value ∈ request.values, value.Avoids vault := by
  intro value member
  simp only [Request.values, List.mem_cons, List.mem_append, Option.mem_toList,
    Array.mem_toList_iff] at member
  rcases member with rfl | (received | argument) | keyword
  · exact avoids.callee
  · exact avoids.receiver value received
  · exact avoids.arguments value argument
  · exact avoids.keywords.values value keyword

theorem Native.Avoids.live {native : Native} (avoids : native.Avoids vault) : vault.AllLive native.values := by
  intro value member
  cases native with
  | label callee =>
    cases List.mem_singleton.mp member
    exact Value.Avoids.live avoids
  | holding callee =>
    cases List.mem_singleton.mp member
    exact Value.Avoids.live avoids
  | construct object =>
    cases List.mem_singleton.mp member
    exact (show (Value.object object).Avoids vault from avoids).live
  | routine context held next =>
    simp only [Native.values, CallContext.values, List.mem_append, Array.mem_toList_iff,
      Option.mem_toList] at member
    rcases member with ((argument | keyword) | received) | held
    · exact (avoids.1.arguments value argument).live
    · exact (avoids.1.keywords.values value keyword).live
    · exact (avoids.1.receiver value received).live
    · exact avoids.2.1 value held

theorem Suspended.Avoids.live {suspended : Suspended} (avoids : suspended.Avoids vault) :
    ∀ other ∈ suspended.refs, vault.Live other := by
  intro other member
  rcases List.mem_append.mp member with machine | held
  · exact avoids.machine.live other machine
  · obtain ⟨value, inside, refers⟩ := List.mem_flatMap.mp held
    rcases List.mem_append.mp inside with pending | native
    · exact (avoids.pending value pending).live other refers
    · obtain ⟨native, waits, holds⟩ := List.mem_flatMap.mp native
      exact (avoids.natives native waits).live value holds other refers

theorem Setting.Respects.outside {setting : Setting} (respects : setting.Respects vault)
    {chain : List Suspended} (below : ∀ suspended ∈ chain, suspended.Avoids vault) :
    ∀ other ∈ setting.outside chain, vault.Live other := by
  intro other member
  rcases List.mem_append.mp member with held | waiting
  · obtain ⟨value, inside, refers⟩ := List.mem_flatMap.mp held
    rcases List.mem_append.mp inside with constant | pinned
    · rcases List.mem_cons.mp constant with rfl | constant
      · exact (show (Value.function _).Avoids vault from respects.program.main).live other refers
      · exact (respects.program.constants value (Array.mem_toList_iff.mp constant)).live other refers
    · exact respects.pinned value pinned other refers
  · obtain ⟨suspended, inside, refers⟩ := List.mem_flatMap.mp waiting
    exact (below suspended inside).live other refers

end Held

namespace Execution

variable {setting : Setting} {world : World} {machine : Machine} {caller : Suspended}
  {chain : List Suspended} {request : Request} {context : CallContext}

theorem avoids_child (limits : Limits) (outer : Machine) {function : Ref} (free : vault.Free function)
    {arguments keywords : Value} (given : arguments.Avoids vault) (keyed : keywords.Avoids vault) :
    (child limits outer function arguments keywords).Avoids vault := by
  refine ⟨?_, ?_, fun _ member => by cases member; exact free⟩
  · intro value member
    simp only [child, Array.mem_append, List.mem_toArray, List.mem_cons, List.not_mem_nil, or_false,
      Array.mem_replicate] at member
    rcases member with (rfl | rfl | rfl) | ⟨_, rfl⟩
    · exact free
    · exact given
    · exact keyed
    · trivial
  · intro frame member
    rcases List.mem_singleton.mp member with rfl
    refine ⟨by simp, ?_, by simp, by simp, .empty⟩
    intro keyword inside
    cases inside

section Steps

variable (below : ∀ suspended ∈ chain, suspended.Avoids vault)

include below

theorem shelters_finish {active : Active} (kept : active.Shelters vault)
    {result : Except Fault Value} (known : ResultAvoids vault result) :
    (finish active result chain).Shelters vault := by
  cases chain with
  | nil => exact ⟨kept.world, kept.machine, known⟩
  | cons caller chain =>
    obtain ⟨waiting, others⟩ := List.forall_mem_cons.mp below
    have released := kept.world.release kept.machine.serves
    have paid : Suspended.Avoids vault
        { caller with machine := { caller.machine with budget := active.machine.budget } } :=
      ⟨⟨waiting.machine.stack, waiting.machine.frames, waiting.machine.serves⟩, waiting.pending,
        waiting.natives⟩
    obtain ⟨answer, -, slot, same⟩ | ⟨-, same⟩ := finish_cons_cases active result caller chain
    · rw [same]
      refine ⟨released, fun value ok => ?_, paid, others⟩
      exact kept.machine.stack value (Array.mem_of_getElem? (slot value ok))
    · rw [same]
      trivial

theorem shelters_afterAct {result : EStateM.Result Stop Active Next}
    (ends : Ends (Active.Shelters vault) (Next.Avoids vault) result) :
    (afterAct chain result).Shelters vault := by
  unfold afterAct
  split
  · exact ⟨ends.1.world, ends.1.machine, below⟩
  · exact shelters_finish below ends.1 (resultAvoids_ok trivial)
  · exact ⟨ends.1.world, ends.2.1, ⟨ends.1.machine, ends.2.2, fun _ member => nomatch member⟩, below⟩
  · exact shelters_finish below ends (resultAvoids_error _)
  · trivial

variable (kept : world.Shelters vault) (waiting : caller.Avoids vault)

include kept waiting

theorem shelters_answerFrom {action : StoreM Value}
    (guards : StoreM.Guards vault action (Value.Avoids vault)) :
    (answerFrom world action caller chain).Shelters vault := by
  have done := kept.compute guards
  exact ⟨done.1, done.2, waiting, below⟩

theorem shelters_enterChild (setting : Setting) {function : Ref} (free : vault.Free function)
    {arguments : Array Value} {keywords : Table Value}
    (given : ∀ value ∈ arguments, value.Avoids vault) (keyed : keywords.All (Value.Avoids vault)) :
    (enterChild setting world function arguments keywords caller chain).Shelters vault := by
  unfold enterChild
  split
  · exact ⟨kept, resultAvoids_error _, waiting, below⟩
  split
  · exact ⟨kept, resultAvoids_error _, waiting, below⟩
  have made : StoreM.Guards vault (do
      return (← StoreM.newArray arguments .writable, ← StoreM.newMap keywords .writable))
      fun pair => pair.1.Avoids vault ∧ pair.2.Avoids vault := by
    apply (StoreM.guards_newArray given .writable).bind
    intro first one
    apply (StoreM.guards_newMap keyed .writable).bind
    intro second two
    exact .pure ⟨one, two⟩
  have done := (kept.setBusy free true).compute made
  dsimp only
  split
  next first second after ended =>
    rw [ended] at done
    obtain ⟨one, two⟩ := done.2 _ rfl
    exact ⟨done.1, avoids_child _ _ free one two, List.forall_mem_cons.mpr ⟨waiting, below⟩⟩
  next ended =>
    rw [ended] at done
    exact ⟨done.1, resultAvoids_error _, waiting, below⟩

theorem live_of_lives (respects : setting.Respects vault) (avoids : request.Avoids vault) {other : Ref}
    (living : lives setting world request caller chain other = true) : vault.Live other := by
  apply kept.store.live_of_keeps _ living
  intro root member
  simp only [List.mem_append] at member
  rcases member with (held | near) | (global | waits) | outside
  · exact Value.live_flatMap avoids.values root held
  · exact waiting.machine.live root (Machine.mem_refs_of_mem_nearRefs near)
  · exact Value.live_refsOf kept.globals root global
  · exact waiting.live root waits
  · exact respects.outside below root outside

theorem shelters_callPlain (respects : setting.Respects vault) (avoids : request.Avoids vault) :
    (callPlain setting world request caller chain).Shelters vault := by
  have callee := avoids.callee
  have alive (other : Ref) (living : lives setting world request caller chain other = true) :=
    live_of_lives below kept waiting respects avoids living
  unfold callPlain
  split
  next function named =>
    rw [named] at callee
    exact shelters_enterChild below kept waiting setting callee avoids.arguments avoids.keywords
  next hold inner receiver named =>
    rw [named] at callee
    split
    · exact ⟨kept, resultAvoids_error _, waiting, below⟩
    next received function _ found =>
      have held := Value.avoids_held alive callee found
      apply shelters_enterChild below kept waiting setting callee.1 _ avoids.keywords
      exact Value.avoids_append (by simpa using held) avoids.arguments
    next received native found _ =>
      have held := Value.avoids_held alive callee found
      exact ⟨kept, ⟨callee.1, avoids.arguments, avoids.keywords, by simpa using held⟩, waiting, below⟩
  · exact ⟨kept, ⟨callee, avoids.arguments, avoids.keywords, fun _ member => nomatch member⟩,
      waiting, below⟩

theorem shelters_call (respects : setting.Respects vault) (avoids : request.Avoids vault) :
    (call setting world request caller chain).Shelters vault := by
  have callee := avoids.callee
  have holding : Suspended.Avoids vault
      { caller with natives := .holding request.callee :: caller.natives } := waiting.await callee
  unfold call
  dsimp only
  split
  · exact shelters_callPlain below kept holding respects avoids
  next receiver function given named =>
    rw [named] at callee
    apply shelters_enterChild below kept holding setting callee _ avoids.keywords
    exact Value.avoids_append (by simpa using avoids.receiver receiver given) avoids.arguments
  next receiver given _ =>
    have done := kept.compute (StoreM.guards_bind .strong (avoids.receiver receiver given) callee)
    split
    next bound after ended =>
      rw [ended] at done
      have rebound : Request.Avoids vault { request with callee := bound, receiver := none } :=
        ⟨done.2 bound rfl, fun _ member => (nomatch member), avoids.arguments, avoids.keywords⟩
      exact ⟨done.1, rebound, holding, below⟩
    next ended =>
      rw [ended] at done
      exact ⟨done.1, resultAvoids_error _, holding, below⟩

theorem shelters_construct {type : Ref} (free : vault.Free type) (avoids : context.Avoids vault) :
    (construct world type context caller chain).Shelters vault := by
  have constructor := (kept.store.type free).constructor
  unfold construct
  split
  · split
    · apply shelters_answerFrom below kept waiting
      exact (StoreM.guards_newObjectWith free avoids.keywords).bind fun _ made => .pure made
    · exact ⟨kept, resultAvoids_error _, waiting, below⟩
  next function given =>
    have done := kept.compute (StoreM.guards_newObject free)
    split
    next object after ended =>
      rw [ended] at done
      have made := done.2 object rfl
      have called : Request.Avoids vault
          ⟨.function function, some (.object object), context.arguments, context.keywords⟩ :=
        ⟨constructor _ given, fun _ member => by cases member; exact made, avoids.arguments,
          avoids.keywords⟩
      exact ⟨done.1, called, waiting.await made, below⟩
    next ended =>
      rw [ended] at done
      exact ⟨done.1, resultAvoids_error _, waiting, below⟩
  next other _ given =>
    have called : Request.Avoids vault ⟨other, some (.type type), context.arguments, context.keywords⟩ :=
      ⟨constructor other given, fun _ member => by cases member; exact free, avoids.arguments,
        avoids.keywords⟩
    exact ⟨kept, called, waiting, below⟩

theorem shelters_invoke (host : setting.host.Respects vault) {callee : Value}
    (known : callee.Avoids vault) (avoids : context.Avoids vault) :
    (invoke setting world callee context caller chain).Shelters vault := by
  have labelled : Suspended.Avoids vault
      { caller with natives := .label callee :: caller.natives } := waiting.await known
  have called : Request.Avoids vault
      { callee, arguments := context.arguments, keywords := context.keywords } :=
    ⟨known, fun _ member => (nomatch member), avoids.arguments, avoids.keywords⟩
  cases callee with
  | builtin => exact shelters_answerFrom below kept labelled (Builtin.guards_run _ avoids)
  | mapper id subject =>
    have mapped : subject.Avoids vault := known
    exact shelters_answerFrom below kept labelled (guards_runMapper mapped context)
  | host => exact ⟨kept, ⟨avoids, host _ context avoids⟩, labelled, below⟩
  | type => exact shelters_construct below kept labelled known avoids
  | function | bound => exact ⟨kept, called, labelled, below⟩
  | _ => exact ⟨kept, resultAvoids_error _, labelled, below⟩

theorem shelters_routine (avoids : context.Avoids vault) {program : HostProgram}
    (respects : program.Respects vault) :
    (routine world context program caller chain).Shelters vault := by
  have made {make : StoreM Value} {next : Value → HostProgram}
      (guards : StoreM.Guards vault make (Value.Avoids vault))
      (later : ∀ value : Value, value.Avoids vault → (next value).Respects vault) :
      (routine.made world context caller chain make next).Shelters vault := by
    have done := kept.compute guards
    unfold routine.made
    split
    next value after ended =>
      rw [ended] at done
      exact ⟨done.1, ⟨avoids, later value (done.2 value rfl)⟩, waiting, below⟩
    next ended =>
      rw [ended] at done
      exact ⟨done.1, resultAvoids_error _, waiting, below⟩
  cases program with
  | reply result => exact ⟨kept, respects, waiting, below⟩
  | inspect next => exact ⟨kept, ⟨avoids, respects world.store kept.store⟩, waiting, below⟩
  | newArray elements next => exact made (StoreM.guards_newArray respects.1 .writable) respects.2
  | newMap entries next => exact made (StoreM.guards_newMap respects.1 .writable) respects.2
  | newError payload next => exact made (StoreM.guards_newError respects.1) respects.2
  | call request held next => exact ⟨kept, respects.1, waiting.await ⟨avoids, respects.2⟩, below⟩
  | abort next => exact ⟨⟨kept.store, kept.globals⟩, ⟨avoids, respects⟩, waiting, below⟩

theorem shelters_deliver (setting : Setting) {result : Except Fault Value}
    (known : ResultAvoids vault result) :
    (deliver setting world result caller chain).Shelters vault := by
  have natives := waiting.natives
  unfold deliver
  split
  next callee others named =>
    rw [named] at natives
    have rest := waiting.withNatives (List.forall_mem_cons.mp natives).2
    refine ⟨kept, ?_, rest, below⟩
    intro value same
    cases result with
    | ok held => exact known value same
    | error fault => cases same
  next callee others named =>
    rw [named] at natives
    exact ⟨kept, known, waiting.withNatives (List.forall_mem_cons.mp natives).2, below⟩
  next object others named =>
    rw [named] at natives
    obtain ⟨made, rest⟩ := List.forall_mem_cons.mp natives
    refine ⟨kept, ?_, waiting.withNatives rest, below⟩
    intro value same
    cases result with
    | ok held => exact Except.ok.inj same ▸ made
    | error fault => cases same
  next context held next others named =>
    rw [named] at natives
    obtain ⟨⟨given, _, later⟩, rest⟩ := List.forall_mem_cons.mp natives
    split
    · exact ⟨kept, known, waiting.withNatives rest, below⟩
    · exact ⟨kept, ⟨given, later result known⟩, waiting.withNatives rest, below⟩
  · split
    · exact ⟨kept, waiting.machine, known⟩
    · apply shelters_afterAct below
      exact Act.guards_resume _ waiting.pending known _ ⟨kept, waiting.machine⟩

end Steps

/-- One step, of a machine or of native code. -/
theorem shelters_step (respects : setting.Respects vault) {execution : Execution}
    (kept : execution.Shelters vault) : (step setting execution).Shelters vault := by
  obtain ⟨world, control⟩ := execution
  cases control with
  | running machine chain =>
    obtain ⟨avoids, below⟩ := kept.control
    apply shelters_afterAct below
    exact Act.guards_step ⟨respects.program, respects.outside below⟩ _ ⟨kept.world, avoids⟩
  | native task caller chain =>
    obtain ⟨known, waiting, below⟩ := kept.control
    cases task with
    | call request => exact shelters_call below kept.world waiting respects known
    | invoke callee context =>
      exact shelters_invoke below kept.world waiting respects.host known.1 known.2
    | routine context program => exact shelters_routine below kept.world waiting known.1 known.2
    | answer result => exact shelters_deliver below kept.world waiting setting known

theorem shelters_reaches (respects : setting.Respects vault) {start execution : Execution}
    (kept : start.Shelters vault) (reached : Reaches setting start execution) :
    execution.Shelters vault := by
  induction reached with
  | refl => exact kept
  | tail _ stepped ih =>
    have next := shelters_step respects ih
    rw [stepped] at next
    exact next

theorem shelters_run (respects : setting.Respects vault) (fuel : Nat) {execution : Execution}
    (kept : execution.Shelters vault) : (run setting fuel execution).Shelters vault := by
  obtain ⟨last, reached, stops | steps⟩ := exists_last_of_run setting fuel execution
  · rw [stops]
    exact shelters_reaches respects kept reached
  · rw [steps]
    exact shelters_step respects (shelters_reaches respects kept reached)

end Execution

end ScriptMachine
