import ScriptMachine.Proofs.BusyFlags

/-! What can have happened to a session, and what is true of it whatever has: between two commands no
function is busy, the machine stands alone, and the main function is the one it was created with. -/

namespace ScriptMachine

theorem Except.eq_ok_get {ε α : Type} (result : Except ε α) {made : result.toOption.isSome = true} :
    result = .ok (result.toOption.get made) := by
  cases result with
  | ok value => rfl
  | error fault => cases made

/-- The functions of a store stay, though they may have become busy or free. -/
def Store.Carries (before after : Store) : Prop :=
  ∀ (ref : Ref) (function : Function), before.cells[ref]? = some (.function function) →
    ∃ busy, after.cells[ref]? = some (.function { function with busy })

namespace Store.Carries

variable {before middle after : Store}

theorem refl (store : Store) : store.Carries store := fun _ function found => ⟨function.busy, found⟩

theorem trans (first : before.Carries middle) (second : middle.Carries after) :
    before.Carries after := by
  intro ref function found
  obtain ⟨busy, there⟩ := first ref function found
  obtain ⟨later, still⟩ := second ref _ there
  exact ⟨later, still⟩

theorem ofSpares (spares : before.Spares after) : before.Carries after :=
  fun ref function found => ⟨function.busy, spares.kept ref function found⟩

theorem setBusy (store : Store) (ref : Ref) (busy : Bool) : store.Carries (store.setBusy ref busy) := by
  intro other function found
  by_cases same : ref = other
  · subst same
    refine ⟨busy, ?_⟩
    simp [Store.setBusy, Array.getElem?_modify, found]
  · refine ⟨function.busy, ?_⟩
    simp only [Store.setBusy, Array.getElem?_modify, if_neg same]
    exact found

end Store.Carries

def Progress.store? : Progress → Option Store
  | .next execution => some execution.world.store
  | .done world _ _ => some world.store
  | .broken => none

namespace Execution

variable {setting : Setting} {before after start execution : Execution}

theorem Shift.carries (shift : Shift before after) :
    before.world.store.Carries after.world.store := by
  cases shift with
  | stays follows => exact .ofSpares follows.spared
  | enters function station serves idle follows =>
    exact (Store.Carries.setBusy _ function true).trans (.ofSpares follows.spared)
  | leaves world station follows released =>
    refine (Store.Carries.ofSpares follows.spared).trans ?_
    rw [released]
    cases station.serves with
    | none => exact .refl _
    | some function => exact Store.Carries.setBusy _ function false

theorem carries_reaches (reached : Reaches setting start execution) :
    start.world.store.Carries execution.world.store := by
  induction reached with
  | refl => exact .refl _
  | tail _ stepped ih => exact ih.trans (shift_step stepped).carries

theorem Shift.remembers (shift : Shift before after) :
    before.world.store.Remembers after.world.store := by
  cases shift with
  | stays follows => exact follows.remembered
  | enters function station serves idle follows =>
    exact (before.world.store.remembers_setBusy function true).trans follows.remembered
  | leaves world station follows released =>
    rw [released]
    cases station.serves with
    | none => exact follows.remembered
    | some function => exact follows.remembered.trans (world.store.remembers_setBusy function false)

theorem remembers_step {later : Store} (left : (step setting before).store? = some later) :
    before.world.store.Remembers later := by
  have shifts := shifts_turn (turn_step setting before)
  cases stepped : step setting before with
  | next after =>
    rw [stepped] at left
    cases left
    exact (shift_step stepped).remembers
  | done world machine result =>
    rw [stepped] at left shifts
    cases left
    exact shifts.1.remembered
  | broken =>
    rw [stepped] at left
    cases left

theorem remembers_reaches (reached : Reaches setting start execution) :
    start.world.store.Remembers execution.world.store := by
  induction reached with
  | refl => exact .refl _
  | tail _ stepped ih => exact ih.trans (shift_step stepped).remembers

theorem remembers_run {fuel : Nat} {later : Store} (left : (run setting fuel start).store? = some later) :
    start.world.store.Remembers later := by
  obtain ⟨last, reached, stops | steps⟩ := exists_last_of_run setting fuel start
  · rw [stops] at left
    cases left
    exact remembers_reaches reached
  · rw [steps] at left
    exact (remembers_reaches reached).trans (remembers_step left)

theorem Shift.outermost (shift : Shift before after) :
    after.control.stations.getLast? = before.control.stations.getLast? := by
  cases shift with
  | stays _ same => rw [same]
  | enters function station _ _ _ inside =>
    rw [inside]
    exact List.getLast?_cons_cons
  | leaves _ station _ _ outside =>
    rw [outside]
    exact List.getLast?_cons_cons.symm

theorem outermost_reaches (reached : Reaches setting start execution) :
    execution.control.stations.getLast? = start.control.stations.getLast? := by
  induction reached with
  | refl => rfl
  | tail _ stepped ih => rw [(shift_step stepped).outermost, ih]

theorem reaches_of_during {caller : Suspended} {chain : List Suspended}
    (during : During setting caller chain start execution) : Reaches setting start execution := by
  induction during with
  | refl => exact .refl
  | tail _ stepped ih => exact ih.tail stepped.2

end Execution

namespace Blueprint

theorem sparing_fill (registers : Table Value) (entries : List (String × Literal)) :
    StoreM.Sparing (fill registers entries) := by
  induction entries generalizing registers with
  | nil => exact StoreM.sparing_pure _
  | cons entry rest ih => exact (Literal.harmless_build registers entry.2).sparing.bind fun _ => ih _

theorem sparing_builtinValues : StoreM.Sparing builtinValues :=
  StoreM.sparing_compositional.list_mapM _ fun _ =>
    StoreM.sparing_freshId.bind fun _ => StoreM.sparing_pure _

/-- What a session starts with has no busy function, and its main function is there. -/
theorem idle_build {blueprint : Blueprint} {program : Program} {globals : Array Value}
    {registers : Table Value} {store : Store}
    (built : blueprint.build {} = .ok (program, globals, registers) store) :
    (∀ ref, (store.function ref).busy = false) ∧
      ∃ function, store.cells[program.main]? = some (.function function) := by
  obtain ⟨filled, first, fills, built⟩ := bind_eq_ok built
  obtain ⟨keywords, second, keyed, built⟩ := bind_eq_ok built
  obtain ⟨main, third, made, built⟩ := bind_eq_ok built
  obtain ⟨constants, fourth, listed, built⟩ := bind_eq_ok built
  obtain ⟨values, fifth, valued, built⟩ := bind_eq_ok built
  obtain ⟨builtins, last, numbered, built⟩ := bind_eq_ok built
  cases built
  have early : Store.Spares {} third :=
    ((sparing_fill {} _).ok fills).trans <|
      ((Literal.harmless_buildEntries _ _).sparing.ok keyed).trans
        ((StoreM.sparing_newFunction _ _).ok made)
  have late : third.Spares store :=
    ((Literal.harmless_buildList _ _).sparing.ok listed).trans <|
      ((Literal.harmless_buildList _ _).sparing.ok valued).trans (sparing_builtinValues.ok numbered)
  refine ⟨?_, ?_⟩
  · intro ref
    rw [(early.trans late).busy_eq]
    rfl
  · cases made
    exact ⟨_, late.kept _ _ Array.getElem?_push_size⟩

end Blueprint

namespace Session

def anew (session : Session) : Session :=
  { session with machine := .blank session.program.limits session.mainCode }

/-- The sessions that an embedding program can come to have: it creates one, runs its main function,
makes calls, some of which fail, does in between what spares functions, and may go on with a new
machine. -/
inductive Arises : Session → Prop where
  | created {host : Host} {blueprint : Blueprint} {session : Session}
      (made : create host blueprint = .ok session) : Arises session
  | handled {session : Session} (world : World) (registers : Table Value) (earlier : Arises session)
      (spares : session.world.store.Spares world.store) : Arises { session with world, registers }
  | renewed {session : Session} (earlier : Arises session) : Arises session.anew
  | ran {session after : Session} {fuel : Nat} {deadline : Deadline} {ending : Ending}
      (earlier : Arises session) (done : run fuel deadline session = .ok ending after) : Arises after
  | called {session after : Session} {fuel : Nat} {held : List Value} {request : Request}
      {value : Value} (earlier : Arises session)
      (done : call fuel held request session = .ok value after) : Arises after
  | failed {session after : Session} {fuel : Nat} {held : List Value} {request : Request}
      {fault : Fault} (earlier : Arises session)
      (done : call fuel held request session = .error (.fault fault) after) : Arises after

/-- What is true of a session between two commands. As long as the main function does not fit on the
stack, only the budget of its machine has ever changed. -/
structure AtRest (session : Session) : Prop where
  idle : ∀ ref, (session.world.store.function ref).busy = false
  place : session.machine.station = ⟨none, 0, 0, .unlimited⟩
  slots : session.machine.stack.size = session.program.limits.stackSize
  main : ∃ function, session.world.store.cells[session.program.main]? = some (.function function)
  unused : session.program.limits.stackSize < session.mainCode.frameSize →
    session.machine = { Machine.blank session.program.limits session.mainCode with
      budget := session.machine.budget }

theorem AtRest.created {host : Host} {blueprint : Blueprint} {session : Session}
    (made : create host blueprint = .ok session) : session.AtRest := by
  unfold create at made
  split at made
  next program globals registers store built =>
    cases made
    obtain ⟨idle, main⟩ := Blueprint.idle_build built
    refine ⟨idle, rfl, Array.size_replicate, main, fun _ => rfl⟩
  · cases made

/-- A session is at rest again if functions are still there and free, and its machine is in its place
and has all its slots. If the main function does not fit, only the budget may have changed. -/
theorem AtRest.later {session after : Session} (rest : session.AtRest)
    (program : after.program = session.program)
    (carries : session.world.store.Carries after.world.store)
    (idle : ∀ ref, (after.world.store.function ref).busy = false)
    (place : after.machine.station = ⟨none, 0, 0, .unlimited⟩)
    (slots : after.machine.stack.size = session.machine.stack.size)
    (unused : session.program.limits.stackSize < session.mainCode.frameSize →
      after.machine = { session.machine with budget := after.machine.budget }) : after.AtRest := by
  obtain ⟨function, found⟩ := rest.main
  obtain ⟨busy, there⟩ := carries _ _ found
  have code : after.mainCode = session.mainCode := by
    simp only [mainCode, Store.function, program, found, there]
  refine ⟨idle, place, ?_, ?_, ?_⟩
  · rw [slots, program]
    exact rest.slots
  · rw [program]
    exact ⟨_, there⟩
  · rw [program, code]
    intro large
    rw [unused large, rest.unused large]

theorem AtRest.handled {session : Session} (rest : session.AtRest) (world : World)
    (registers : Table Value) (spares : session.world.store.Spares world.store) :
    AtRest { session with world, registers } := by
  refine rest.later rfl (.ofSpares spares) (fun ref => ?_) rest.place rfl fun _ => rfl
  rw [spares.busy_eq]
  exact rest.idle ref

theorem AtRest.renewed {session : Session} (rest : session.AtRest) : session.anew.AtRest :=
  ⟨rest.idle, rfl, Array.size_replicate, rest.main, fun _ => rfl⟩

theorem AtRest.guarded {session : Session} (rest : session.AtRest) {control : Control}
    (free : control.serving = []) : Execution.Guarded ⟨session.world, control⟩ := by
  refine ⟨free ▸ List.nodup_nil, fun ref => ?_⟩
  simp [free, rest.idle ref]

section Runs

variable {session after : Session} {fuel : Nat} {deadline : Deadline} {machine last : Machine}
  {world : World} {result : Except Fault Value}

theorem station_startMachine (started : session.startMachine deadline = .ok machine) :
    machine.station = ⟨none, 0, 0, deadline⟩ := by
  unfold startMachine at started
  dsimp only at started
  split at started
  · cases started
  · cases started
    rfl

theorem exists_startMachine (fits : session.mainCode.frameSize ≤ session.machine.stack.size)
    (deadline : Deadline) : ∃ machine, session.startMachine deadline = .ok machine :=
  ⟨_, if_neg (Nat.not_lt.mpr fits)⟩

theorem fits_startMachine (started : session.startMachine deadline = .ok machine) :
    session.mainCode.frameSize ≤ session.machine.stack.size := by
  unfold startMachine at started
  dsimp only at started
  split at started
  · cases started
  next fits => exact Nat.le_of_not_lt fits

/-- A run that has started from rest ends with its own machine, in its place and with all its slots,
and with no busy function. -/
theorem AtRest.ends (rest : session.AtRest) (started : session.startMachine deadline = .ok machine)
    (ended : Execution.run (session.setting []) fuel ⟨session.world, .running machine []⟩ =
      .done world last result) :
    (∀ ref, (world.store.function ref).busy = false) ∧
      session.world.store.Carries world.store ∧ last.station = ⟨none, 0, 0, deadline⟩ ∧
      last.stack.size = session.machine.stack.size := by
  obtain ⟨previous, reached, stops⟩ := Execution.reaches_of_done ended
  have place := station_startMachine started
  have begins : (Control.running machine []).Sound session.program.limits
      session.machine.stack.size := ⟨sound_startMachine started, .nil⟩
  have free : (Control.running machine []).serving = [] := by
    simp [Control.serving, Control.stations, Control.active, Control.waiting, place]
  have sound := Execution.sound_reaches begins reached
  have guarded := (rest.guarded free).reaches reached
  have outermost := Execution.outermost_reaches reached
  have stays := Execution.sound_turn (Execution.turn_step (session.setting []) previous) sound
  have shifts := Execution.shifts_turn (Execution.turn_step (session.setting []) previous)
  rw [stops] at stays shifts
  obtain ⟨follows, alone | ⟨chain, waits⟩⟩ := shifts
  · have same : last.station = ⟨none, 0, 0, deadline⟩ := by
      rw [alone] at outermost
      simpa [Control.stations, Control.active, Control.waiting, place] using outermost
    refine ⟨?_, (Execution.carries_reaches reached).trans (.ofSpares follows.spared), same,
      stays.slots⟩
    intro ref
    rw [follows.spared.busy_eq, ← Bool.not_eq_true, guarded.busy_iff]
    simp [Control.serving, alone, same]
  · rw [waits] at sound
    cases sound with
    | cons _ ready => exact ready.elim

theorem AtRest.ran {ending : Ending} (rest : session.AtRest)
    (done : run fuel deadline session = .ok ending after) : after.AtRest := by
  unfold run at done
  split at done
  · cases done
    have unlimited : session.machine.deadline = .unlimited := congrArg Station.deadline rest.place
    refine rest.later rfl (.refl _) rest.idle ?_ rfl fun _ => ?_
    · rw [← rest.place]
      simp only [settle, Machine.station, unlimited]
    · simp only [settle, ← unlimited]
  next machine started =>
    split at done
    · cases done
    next world last result _ ended =>
      cases done
      obtain ⟨idle, carries, place, slots⟩ := rest.ends started ended
      refine rest.later rfl carries idle ?_ slots ?_
      · simp only [Machine.station, Station.mk.injEq] at place
        simp only [settle, Machine.station, place]
      · have fits := fits_startMachine started
        rw [rest.slots] at fits
        intro large
        exact absurd large (Nat.not_lt.mpr fits)
    · cases done
    · cases done

end Runs

section Calls

variable {session after : Session} {fuel : Nat} {held : List Value} {request : Request}

/-- A call from rest that has come to its end. -/
theorem AtRest.settled (rest : session.AtRest) {world : World} {machine : Machine}
    {result : Except Fault Value}
    (ended : Execution.run (session.setting held) fuel (session.calling request) =
      .done world machine result) : AtRest { session with world, machine } := by
  obtain ⟨spent, during⟩ := during_calling ended
  have reached := Execution.reaches_of_during during
  have place : machine.station = ⟨none, 0, 0, .unlimited⟩ := spent.station.trans rest.place
  have free : (session.calling request).control.serving = [] := by
    simp [calling, caller, Control.serving, Control.stations, Control.active, Control.waiting,
      rest.place]
  have guarded := (rest.guarded free).reaches reached
  refine rest.later rfl (Execution.carries_reaches reached) ?_ place ?_ fun _ => spent.same
  · intro ref
    rw [← Bool.not_eq_true, guarded.busy_iff]
    simp [Control.serving, Control.stations, Control.active, Control.waiting, place]
  · exact congrArg (·.stack.size) spent.same

theorem AtRest.called {value : Value} (rest : session.AtRest)
    (done : call fuel held request session = .ok value after) : after.AtRest := by
  unfold call at done
  split at done
  next ended =>
    cases done
    exact rest.settled ended
  · cases done
  · cases done
  · cases done

theorem AtRest.failed {fault : Fault} (rest : session.AtRest)
    (done : call fuel held request session = .error (.fault fault) after) : after.AtRest := by
  unfold call at done
  split at done
  · cases done
  next ended =>
    cases done
    exact rest.settled ended
  · cases done
  · cases done

end Calls

section Steps

variable {α : Type} {session after : Session} {fuel : Nat}

def left (act : SessionM α) (session : Session) : Session :=
  match act session with
  | .ok _ after => after
  | .error _ after => after

theorem left_of_ok {act : SessionM α} {value : α} (done : act session = .ok value after) :
    session.left act = after := by
  unfold left
  rw [done]

theorem exists_ok {act : SessionM α} (succeeds : (EStateM.run' act session).isSome = true) :
    ∃ value after, act session = .ok value after := by
  unfold EStateM.run' EStateM.run at succeeds
  cases done : act session with
  | ok value after => exact ⟨value, after, rfl⟩
  | error reason after =>
    rw [done] at succeeds
    cases succeeds

theorem Arises.left_run {deadline : Deadline} (arises : session.Arises)
    (succeeds : (EStateM.run' (run fuel deadline) session).isSome = true) :
    (session.left (run fuel deadline)).Arises := by
  obtain ⟨ending, after, done⟩ := exists_ok succeeds
  exact left_of_ok done ▸ .ran arises done

theorem Arises.left_call {held : List Value} {request : Request} (arises : session.Arises)
    (succeeds : (EStateM.run' (call fuel held request) session).isSome = true) :
    (session.left (call fuel held request)).Arises := by
  obtain ⟨value, after, done⟩ := exists_ok succeeds
  exact left_of_ok done ▸ .called arises done

end Steps

/-- Whatever has happened to a session, it is at rest. -/
theorem Arises.atRest {session : Session} (arises : session.Arises) : session.AtRest := by
  induction arises with
  | created made => exact .created made
  | handled world registers _ spares rest => exact rest.handled world registers spares
  | renewed _ rest => exact rest.renewed
  | ran _ done rest => exact rest.ran done
  | called _ done rest => exact rest.called done
  | failed _ done rest => exact rest.failed done

end Session

end ScriptMachine
