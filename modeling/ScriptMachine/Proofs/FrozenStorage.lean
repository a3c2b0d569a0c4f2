import ScriptMachine.Proofs.FrozenExecutions
import ScriptMachine.Proofs.AbortRequests

/-! A storage to which only frozen handles and iterators lead is never changed again, and no other
handle of it comes about, in any run or call of a session. -/

namespace ScriptMachine

variable {vault : Vault}

section Hosts

variable {context : CallContext}

theorem CallContext.Avoids.received (avoids : context.Avoids vault) :
    (context.receiver.getD .undefined).Avoids vault :=
  Value.avoids_getD avoids.receiver

theorem Request.avoids_applied (avoids : context.Avoids vault) : (Request.applied context).Avoids vault :=
  ⟨avoids.argument 0, fun _ member => (nomatch member), Value.avoids_extract avoids.arguments _ _,
    avoids.keywords⟩

theorem Request.avoids_appliedMethod (avoids : context.Avoids vault) :
    (Request.appliedMethod context).Avoids vault := by
  refine ⟨avoids.argument 0, ?_, Value.avoids_extract avoids.arguments _ _, avoids.keywords⟩
  intro value member
  cases member
  exact avoids.argument 1

theorem Host.respects_standard (vault : Vault) : Host.standard.Respects vault := by
  intro routine context avoids
  unfold Host.standard
  split
  · refine ⟨avoids.arguments, fun arguments first => ⟨avoids.keywords, fun keywords second => ?_⟩⟩
    exact ⟨by simpa using ⟨first, second, avoids.received⟩, fun _ => resultAvoids_ok⟩
  · exact resultAvoids_ok avoids.received
  · exact ⟨Request.avoids_applied avoids, List.forall_mem_nil _, fun _ known => known⟩
  · exact ⟨Request.avoids_appliedMethod avoids, List.forall_mem_nil _, fun _ known => known⟩
  · refine ⟨Request.avoids_applied avoids, List.forall_mem_nil _, fun result known => ?_⟩
    cases result with
    | ok value => exact known
    | error fault => exact ⟨trivial, fun _ => resultAvoids_ok⟩
  · unfold HostProgram.check
    split
    · exact resultAvoids_error _
    split
    · exact resultAvoids_error _
    have four := And.intro (avoids.argument 0)
      (And.intro (avoids.argument 1) (And.intro (avoids.keyword "a") (avoids.keyword "b")))
    exact ⟨by simpa using four, fun _ => resultAvoids_ok⟩
  · unfold HostProgram.firstInt
    split
    · exact resultAvoids_ok trivial
    · exact fun _ _ => resultAvoids_error _
  · exact resultAvoids_ok (show (Value.bool true).Avoids vault from trivial)
  · exact fun _ _ => resultAvoids_error _
  · exact resultAvoids_ok Value.avoids_undefined

end Hosts

namespace Session

/-- Neither the program nor the host of a session leads into the vault. Values that the host keeps in
registers may do so, if they keep nothing alive that is lost. -/
structure Respects (vault : Vault) (session : Session) : Prop where
  program : session.program.Avoids vault
  host : session.host.Respects vault
  registers : vault.AllLive session.registers.values

/-- A session in which only frozen handles and iterators lead into the vault. -/
structure Shelters (vault : Vault) (session : Session) : Prop where
  respects : session.Respects vault
  world : session.world.Shelters vault
  machine : session.machine.Avoids vault

/-- What a run of the main function leaves of a session, or a call whose values do not lead into the vault,
however it ends. -/
inductive Continues (vault : Vault) (session : Session) : Session → Prop where
  | run (fuel : Nat) (deadline : Deadline) :
    Continues vault session (session.left (run fuel deadline))
  | call (fuel : Nat) {held : List Value} {request : Request} (alive : vault.AllLive held)
      (avoids : request.Avoids vault) :
    Continues vault session (session.left (call fuel held request))

variable {session : Session}

theorem Respects.setting (respects : session.Respects vault) {held : List Value}
    (alive : vault.AllLive held) : (session.setting held).Respects vault := by
  refine ⟨respects.program, respects.host, ?_⟩
  intro value member
  rcases List.mem_append.mp member with here | register
  · exact alive value here
  · exact respects.registers value register

theorem Respects.running (respects : session.Respects vault) :
    (session.setting []).Respects vault :=
  respects.setting fun _ member => nomatch member

theorem Respects.changed (respects : session.Respects vault) (world : World) (machine : Machine) :
    Respects vault { session with world, machine } :=
  ⟨respects.program, respects.host, respects.registers⟩

theorem Shelters.started (kept : session.Shelters vault) {deadline : Deadline}
    {machine : Machine} (started : session.startMachine deadline = .ok machine) :
    machine.Avoids vault := by
  unfold startMachine at started
  dsimp only at started
  split at started
  · cases started
  cases started
  refine ⟨?_, ?_, fun _ member => nomatch member⟩
  · intro value member
    rw [(Array.mem_replicate.mp member).2]
    trivial
  · intro frame member
    rcases List.mem_singleton.mp member with rfl
    exact ⟨fun _ member => by cases member; exact kept.respects.program.main,
      (kept.world.store.function kept.respects.program.main.live).code, by simp, by simp, .empty⟩

theorem Shelters.settle (kept : session.Shelters vault) {world : World} {machine : Machine}
    (around : world.Shelters vault) (avoids : machine.Avoids vault) :
    (session.settle world machine).Shelters vault :=
  ⟨kept.respects.changed _ _, ⟨around.store, around.globals⟩, ⟨avoids.stack, avoids.frames, avoids.serves⟩⟩

theorem Shelters.left_run (kept : session.Shelters vault) (fuel : Nat) (deadline : Deadline) :
    (session.left (run fuel deadline)).Shelters vault := by
  unfold left run
  cases started : session.startMachine deadline with
  | error fault => exact kept.settle kept.world kept.machine
  | ok machine =>
    have start : Execution.Shelters vault ⟨session.world, .running machine []⟩ :=
      ⟨kept.world, kept.started started, fun _ member => nomatch member⟩
    have ended := Execution.shelters_run kept.respects.running fuel start
    dsimp only
    cases ran : Execution.run (session.setting []) fuel ⟨session.world, .running machine []⟩ with
    | next execution =>
      rw [ran] at ended
      exact ⟨kept.respects.changed _ _, ended.world, kept.machine⟩
    | done world last result =>
      rw [ran] at ended
      have settled := kept.settle ended.1 ended.2.1
      cases result with
      | ok value => exact settled
      | error fault =>
        cases fault with
        | cellHeld => exact kept
        | _ => exact settled
    | broken => exact kept

theorem Shelters.left_call (kept : session.Shelters vault) (fuel : Nat) {held : List Value}
    {request : Request} (alive : vault.AllLive held) (avoids : request.Avoids vault) :
    (session.left (call fuel held request)).Shelters vault := by
  have caller : session.caller.Avoids vault :=
    ⟨kept.machine, fun _ member => (nomatch member), fun _ member => nomatch member⟩
  have start : (session.calling request).Shelters vault :=
    ⟨kept.world, avoids, caller, fun _ member => nomatch member⟩
  have ended := Execution.shelters_run (kept.respects.setting alive) fuel start
  unfold left call
  cases ran : Execution.run (session.setting held) fuel (session.calling request) with
  | next execution =>
    rw [ran] at ended
    exact ⟨kept.respects.changed _ _, ended.world, kept.machine⟩
  | done world last result =>
    rw [ran] at ended
    cases result with
    | ok value => exact ⟨kept.respects.changed _ _, ended.1, ended.2.1⟩
    | error fault => exact ⟨kept.respects.changed _ _, ended.1, ended.2.1⟩
  | broken => exact kept

theorem Shelters.continues (kept : session.Shelters vault) {after : Session}
    (continues : Continues vault session after) : after.Shelters vault := by
  cases continues with
  | run fuel deadline => exact kept.left_run fuel deadline
  | call fuel alive avoids => exact kept.left_call fuel alive avoids

theorem Shelters.continued (kept : session.Shelters vault) {after : Session}
    (continued : Relation.ReflTransGen (Continues vault) session after) : after.Shelters vault := by
  induction continued with
  | refl => exact kept
  | tail _ continues ih => exact ih.continues continues

/-- A run of the main function, or a call by the host, comes through a state and returns. -/
inductive Passes (vault : Vault) (session : Session) (execution : Execution) (after : Session) : Prop where
  | run {fuel : Nat} {deadline : Deadline} {machine : Machine} {ending : Ending}
      (started : session.startMachine deadline = .ok machine)
      (reached : Execution.Reaches (session.setting []) ⟨session.world, .running machine []⟩ execution)
      (done : run fuel deadline session = .ok ending after)
  | call {fuel : Nat} {held : List Value} {request : Request} (alive : vault.AllLive held)
      (reached : Execution.Reaches (session.setting held) (session.calling request) execution)
      (returned : session.Returns fuel held request after)

theorem shelters_ended {setting : Setting} {start execution : Execution} {fuel : Nat} {world : World}
    {machine : Machine} {result : Except Fault Value} (respects : setting.Respects vault)
    (frozen : execution.Shelters vault) (reached : Execution.Reaches setting start execution)
    (done : Execution.run setting fuel start = .done world machine result) :
    world.Shelters vault ∧ machine.Avoids vault := by
  obtain ⟨left, rest⟩ := Execution.run_of_reaches reached done
  have last := Execution.shelters_run respects left frozen
  rw [rest] at last
  exact ⟨last.1, last.2.1⟩

/-- What a run or call leaves when it returns, from a state in its middle. -/
theorem shelters_of_passes {after : Session} {execution : Execution} (respects : session.Respects vault)
    (frozen : execution.Shelters vault) (passes : session.Passes vault execution after) :
    after.Shelters vault := by
  cases passes with
  | run started reached done =>
    rcases run_cases done with ⟨fault, failed, _⟩ | ⟨machine, world, last, result, began, stopped, rfl, _⟩
    · rw [started] at failed
      cases failed
    · rw [started] at began
      cases began
      obtain ⟨around, avoids⟩ := shelters_ended respects.running frozen reached stopped
      exact ⟨respects.changed _ _, ⟨around.store, around.globals⟩, avoids.stack, avoids.frames, avoids.serves⟩
  | call alive reached returned =>
    obtain ⟨world, machine, result, stopped, rfl⟩ := returned.ended
    obtain ⟨around, avoids⟩ := shelters_ended (respects.setting alive) frozen reached stopped
    exact ⟨respects.changed _ _, around, avoids⟩

/-- A storage to which only frozen handles and iterators lead stays as it is. In any state of a run or
of a call, mid-way as well, no further step of a machine, of a builtin or of a machine for a call
changes it or makes another handle of it; nor does anything that is run or called afterwards. Frozen
handles themselves refuse every assignment and every deletion. -/
theorem frozen_storage_stays_frozen {execution : Execution} (respects : session.Respects vault)
    (frozen : execution.Shelters vault) :
    (∀ held later, vault.AllLive held →
      Execution.Reaches (session.setting held) execution later →
        later.Shelters vault ∧ (Execution.step (session.setting held) later).Shelters vault) ∧
    (∀ after later, session.Passes vault execution after →
      Relation.ReflTransGen (Continues vault) after later → later.Shelters vault) ∧
    ∀ store index value keys,
      StoreM.indexSet (.array .frozen vault.ref) index value store =
        .error (.notIndexAssignable "immutable-array") store ∧
      StoreM.indexSet (.map .frozen vault.ref) index value store =
        .error (.notIndexAssignable "immutable-map") store ∧
      StoreM.indexDelete (.array .frozen vault.ref) keys store =
        .error (.notIndexDeletable "immutable-array") store ∧
      StoreM.indexDelete (.map .frozen vault.ref) keys store =
        .error (.notIndexDeletable "immutable-map") store := by
  refine ⟨?_, ?_, fun store index value keys => ⟨rfl, rfl, rfl, rfl⟩⟩
  · intro held later alive reached
    have around := respects.setting alive
    have kept := Execution.shelters_reaches around frozen reached
    exact ⟨kept, Execution.shelters_step around kept⟩
  · intro after later passes continued
    exact (shelters_of_passes respects frozen passes).continued continued

def sealingCode : FunctionCode :=
  { instructions := assemble [⟨.constant, [0]⟩, ⟨.constant, [1]⟩, ⟨.setGlobalPath, [0, 1]⟩, ⟨.suspend, []⟩] }

/-- A session whose only global is a frozen array. Another array that holds its storage, with a handle
for writing, is not held by anything any more. -/
def sealing : Session where
  program := { main := 1, constants := #[.int 7, .int 0], limits := { stackSize := 2, globalsSize := 1 } }
  host := Host.standard
  world := {
    store := { cells := #[.array #[.int 1], .function { code := sealingCode }, .array #[.array .writable 0]] }
    globals := #[.array .frozen 0] }
  machine := .blank { stackSize := 2 } sealingCode

def sealingVault : Vault := ⟨0, .array #[.int 1], (· = 2)⟩

theorem shelters_sealing : sealing.Shelters sealingVault := by
  have main : sealingVault.Free 1 := ⟨by decide, by simp [sealingVault, Vault.Live]⟩
  have store : sealing.world.store.Shelters sealingVault := by
    refine ⟨rfl, ?_, ?_, ?_⟩
    · intro other cell live found
      match other, found with
      | 0, found =>
        cases found
        exact .array (by simp [Value.Avoids])
      | 1, found =>
        cases found
        exact .function ⟨fun _ member => (nomatch member), by simp⟩
      | 2, _ => exact absurd rfl live
      | other + 3, found => cases found
    · rintro other rfl
      decide
    · rintro cells upheld other inside rfl
      obtain ⟨holder, -, cell, found, held⟩ := (upheld 2 inside).resolve_left (fun root => nomatch root)
      match holder, found with
      | 0, found =>
        cases found
        cases held
      | 1, found =>
        cases found
        cases held
      | 2, found =>
        cases found
        rcases List.mem_singleton.mp held with same
        cases same
      | other + 3, found => cases found
  have blank : sealing.machine.Avoids sealingVault := by
    refine ⟨?_, fun _ member => (nomatch member), fun _ member => nomatch member⟩
    intro value member
    rw [(Array.mem_replicate.mp member).2]
    trivial
  refine ⟨⟨⟨main, by simp [sealing, Value.Avoids], by simp [sealing]⟩, Host.respects_standard _, ?_⟩,
    ⟨store, ?_⟩, blank⟩
  · have none : sealing.registers.All (Value.Avoids sealingVault) := .empty
    exact fun value member => (none.values value member).live
  · simp [sealing, sealingVault, Value.Avoids, Vault.Live]

theorem sealing_refused : (match run 6 .unlimited sealing with
    | .ok (.failed failure) _ => failure.fault == .notIndexAssignable "immutable-array"
    | _ => false) = true := by decide +kernel

theorem frozen_storage_stays_frozen_sealing :
    ∃ machine failure after, sealing.startMachine .unlimited = .ok machine ∧
      run 6 .unlimited sealing = .ok (.failed failure) after ∧
      failure.fault = .notIndexAssignable "immutable-array" ∧
      ∀ later, Relation.ReflTransGen (Continues sealingVault) after later →
        later.world.store.cells[0]? = some (.array #[.int 1]) := by
  have kept := shelters_sealing
  have refused := sealing_refused
  split at refused
  next failure after done =>
    rcases run_cases done with ⟨fault, failed, _⟩ | ⟨machine, _, _, _, started, _⟩
    · cases failed
    · have start : Execution.Shelters sealingVault ⟨sealing.world, .running machine []⟩ :=
        ⟨kept.world, kept.started started, fun _ member => nomatch member⟩
      have lasting := (frozen_storage_stays_frozen kept.respects start).2.1
      refine ⟨machine, failure, after, started, done, beq_iff_eq.mp refused, ?_⟩
      intro later continued
      exact (lasting after later (.run started .refl done) continued).world.store.here
  · cases refused

end Session

end ScriptMachine
