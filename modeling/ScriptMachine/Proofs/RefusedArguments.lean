import ScriptMachine.Proofs.BlamedOffsets
import ScriptMachine.Proofs.HandedFaults
import ScriptMachine.Proofs.Reentrancy

/-! Whom a fault names that is about the arguments of a call. It comes up without a name, from a native
callable that refuses its arguments or from a machine that cannot carry out a call. The first label that it
is handed to names it. That is the innermost native callable at work where it came up: the one that
refused, or else the one on whose behalf the machine was running. -/

namespace ScriptMachine

namespace Act

variable {around : Surroundings} {active after : Active} {fault : Fault} {op : Opcode}

/-- Only a call refuses arguments, for their kinds or their keywords. -/
theorem execute_refuses (failed : execute around op active = .error (.fault fault) after) :
    fault.Uncalled ∨ op = .call ∧ fault.callee? = none ∧ fault ≠ .wrongArgumentCount := by
  by_cases calls : op = .call
  · subst calls
    have stays := failsInPlace_call around active _ after failed
    cases stays with
    | error _ within => exact .inr ⟨rfl, within.callee, within.counts⟩
    | here => exact .inr ⟨rfl, rfl, nofun⟩
  · left
    by_cases returns : op = .ret
    · subst returns
      have stays := failsInPlace_returnFrom active _ after failed
      exact (stays.mono fun _ => Fault.uncalled_of_unconcerned).uncalled
    · cases free : usesFree op with
      | true =>
        rw [execute_free around free] at failed
        exact ((settles_free _ free).fails _ _ _ failed).uncalled
      | false => exact ((owned_execute around calls returns free).uncalled.fails _ _ _ failed).uncalled

theorem uncalled_of_fetch (failed : fetch active = .error (.fault fault) after) : fault.Uncalled := by
  unfold fetch at failed
  dsimp only at failed
  split at failed
  · cases failed
    exact ⟨rfl, rfl⟩
  · split at failed
    · cases failed
      exact ⟨rfl, rfl⟩
    · cases failed

theorem step_refuses {world : World} {machine : Machine}
    (failed : step around ⟨world, machine⟩ = .error (.fault fault) after) :
    fault.Uncalled ∨ machine.code[machine.ip]? = some Opcode.call.byte ∧
      fault.callee? = none ∧ fault ≠ .wrongArgumentCount := by
  obtain ⟨observed, -⟩ | fetched | ⟨op, found, executed⟩ := step_eq_error failed
  · exact .inl (owned_observe.uncalled.fails _ _ _ observed).uncalled
  · exact .inl (uncalled_of_fetch fetched)
  · obtain uncalled | ⟨rfl, refuses⟩ := execute_refuses executed
    · exact .inl uncalled
    · exact .inr ⟨found, refuses⟩

end Act

/-- Native code that has been called as a host function. -/
def Native.OfHost (natives : List Native) : Prop :=
  ∃ id function, natives.head? = some (.label (.host id function))

/-- Every host function that waits does so right above its label. -/
def Native.Seated : List Native → Prop
  | [] => True
  | .routine .. :: natives => OfHost natives ∧ Seated natives
  | _ :: natives => Seated natives

/-- So does every host function that waits on one of some machines. -/
def Suspended.AllSeated (chain : List Suspended) : Prop := ∀ held ∈ chain, Native.Seated held.natives

/-- Every host function of an execution, at work or waiting, has its label below it. -/
def Execution.Hosted : Execution → Prop
  | ⟨_, .running _ chain⟩ => Suspended.AllSeated chain
  | ⟨_, .native (.routine ..) caller chain⟩ =>
    Native.OfHost caller.natives ∧ Suspended.AllSeated (caller :: chain)
  | ⟨_, .native _ caller chain⟩ => Suspended.AllSeated (caller :: chain)

/-- So has every one in the state that a step leads to. -/
def Progress.Hosted : Progress → Prop
  | .next execution => execution.Hosted
  | .done .. | .broken => True

open Native (OfHost Seated)
open Suspended (AllSeated)

namespace Execution

variable {setting : Setting} {world later : World} {machine : Machine} {caller held : Suspended}
  {chain below : List Suspended} {fault : Fault} {raised : Flight} {start execution : Execution}
  {natives : List Native}

section Hosting

theorem seated_withNatives (seated : AllSeated (caller :: chain)) (within : Seated natives) :
    AllSeated ({ caller with natives } :: chain) :=
  List.forall_mem_cons.mpr ⟨within, (List.forall_mem_cons.mp seated).2⟩

theorem hosted_enterChild {function : Ref} {arguments : Array Value} {keywords : Table Value}
    (seated : AllSeated (caller :: chain)) :
    (enterChild setting world function arguments keywords caller chain).Hosted := by
  unfold enterChild
  split
  · exact seated
  · split
    · exact seated
    · dsimp only
      split
      · exact seated
      · exact seated

theorem hosted_callPlain {request : Request} (seated : AllSeated (caller :: chain)) :
    (callPlain setting world request caller chain).Hosted := by
  unfold callPlain
  split
  · exact hosted_enterChild seated
  · split
    · exact seated
    · exact hosted_enterChild seated
    · exact seated
  · exact seated

theorem hosted_call {request : Request} (seated : AllSeated (caller :: chain)) :
    (call setting world request caller chain).Hosted := by
  have within : Seated (.holding request.callee :: caller.natives) :=
    (List.forall_mem_cons.mp seated).1
  have held := seated_withNatives seated within
  unfold call
  dsimp only
  split
  · exact hosted_callPlain held
  · exact hosted_enterChild held
  · split
    · exact held
    · exact held

theorem hosted_construct {type : Ref} {context : CallContext} (seated : AllSeated (caller :: chain)) :
    (construct world type context caller chain).Hosted := by
  have within : ∀ object, Seated (.construct object :: caller.natives) := fun _ =>
    (List.forall_mem_cons.mp seated).1
  unfold construct
  split
  · split
    · exact seated
    · exact seated
  · split
    · exact seated_withNatives seated (within _)
    · exact seated
  · exact seated

theorem hosted_invoke {callee : Value} {context : CallContext} (seated : AllSeated (caller :: chain)) :
    (invoke setting world callee context caller chain).Hosted := by
  have within : Seated (.label callee :: caller.natives) := (List.forall_mem_cons.mp seated).1
  have labelled := seated_withNatives seated within
  cases callee with
  | host => exact ⟨⟨_, _, rfl⟩, labelled⟩
  | type => exact hosted_construct labelled
  | _ => exact labelled

theorem hosted_routine {context : CallContext} {program : HostProgram} (ofHost : OfHost caller.natives)
    (seated : AllSeated (caller :: chain)) :
    (routine world context program caller chain).Hosted := by
  have made (make : StoreM Value) (next : Value → HostProgram) :
      (routine.made world context caller chain make next).Hosted := by
    unfold routine.made
    split
    · exact ⟨ofHost, seated⟩
    · exact seated
  cases program with
  | reply result => exact seated
  | inspect next => exact ⟨ofHost, seated⟩
  | newArray elements next => exact made (StoreM.newArray elements .writable) next
  | newMap entries next => exact made (StoreM.newMap entries .writable) next
  | newError payload next => exact made (StoreM.newError payload) next
  | call request held next =>
    have within : Seated (.routine context held next :: caller.natives) :=
      ⟨ofHost, (List.forall_mem_cons.mp seated).1⟩
    exact seated_withNatives seated within
  | abort next => exact ⟨ofHost, seated⟩

theorem hosted_finish {active : Active} {result : Except Fault Value} (seated : AllSeated chain) :
    (finish active result chain).Hosted := by
  cases chain with
  | nil => trivial
  | cons caller chain =>
    have spent (budget : Int) :
        AllSeated ({ caller with machine := { caller.machine with budget } } :: chain) :=
      List.forall_mem_cons.mpr (List.forall_mem_cons.mp seated)
    obtain ⟨answer, -, -, same⟩ | ⟨-, same⟩ := finish_cons_cases active result caller chain
    · rw [same]
      exact spent _
    · rw [same]
      trivial

/-- A machine that waits does so for a call. -/
theorem hosted_afterAct {result : EStateM.Result Stop Active Next} (seated : AllSeated chain)
    (awaits : ∀ task pending after, result = .ok (.await task pending) after →
      (Next.await task pending).Onward) : (afterAct chain result).Hosted := by
  cases result with
  | error stop active =>
    cases stop with
    | fault fault => exact hosted_finish seated
    | outOfRange => trivial
  | ok next active =>
    cases next with
    | proceed => exact seated
    | halt => exact hosted_finish seated
    | await task pending =>
      have empty : AllSeated ({ machine := active.machine, pending } :: chain) :=
        List.forall_mem_cons.mpr ⟨trivial, seated⟩
      cases awaits task pending active rfl with
      | call => exact empty
      | invoke => exact empty

theorem hosted_deliver {result : Except Fault Value} (seated : AllSeated (caller :: chain)) :
    (deliver setting world result caller chain).Hosted := by
  obtain ⟨machine, pending, natives⟩ := caller
  have within : Seated natives := (List.forall_mem_cons.mp seated).1
  cases natives with
  | nil =>
    have resumed : (afterAct chain
        (Act.resume setting.program.limits pending result ⟨world, machine⟩)).Hosted :=
      hosted_afterAct (List.forall_mem_cons.mp seated).2 fun task next after done =>
        Act.goes_resume _ _ _ _ _ _ done
    cases pending with
    | host => trivial
    | _ => exact resumed
  | cons native natives =>
    cases native with
    | routine context held next =>
      have lower := seated_withNatives seated within.2
      simp only [deliver]
      split
      · exact lower
      · exact ⟨within.1, lower⟩
    | _ => exact seated_withNatives seated within

theorem hosted_step (hosted : execution.Hosted) : (step setting execution).Hosted := by
  obtain ⟨world, control⟩ := execution
  cases control with
  | running machine chain =>
    exact hosted_afterAct hosted fun task pending after done => Act.onward_of_await done
  | native task caller chain =>
    cases task with
    | call request => exact hosted_call hosted
    | invoke callee context => exact hosted_invoke hosted
    | routine context program => exact hosted_routine hosted.1 hosted.2
    | answer result => exact hosted_deliver hosted

theorem hosted_reaches (hosted : start.Hosted) (reached : Reaches setting start execution) :
    execution.Hosted := by
  induction reached with
  | refl => exact hosted
  | @tail before after _ stepped ih =>
    have next : (step setting before).Hosted := hosted_step ih
    rw [stepped] at next
    exact next

end Hosting

/-- A native callable fails by itself: as it is called, or by a reply if it is a host function. -/
inductive FailsItself (callee : Value) (fault : Fault) : Execution → Prop where
  | called {world : World} {context : CallContext} {caller : Suspended} {chain : List Suspended} :
      FailsItself callee fault ⟨world, .native (.invoke callee context) caller chain⟩
  | replies {world : World} {context : CallContext} {caller : Suspended} {chain : List Suspended}
      {id : Nat} {function : HostFunction} (host : callee = .host id function)
      (label : caller.natives.head? = some (.label callee)) :
      FailsItself callee fault
        ⟨world, .native (.routine context (.reply (.error fault))) caller chain⟩

/-- A machine is about to execute a call. -/
inductive AtCall : Execution → Prop where
  | intro {world : World} {machine : Machine} {chain : List Suspended}
      (calls : machine.code[machine.ip]? = some Opcode.call.byte) :
      AtCall ⟨world, .running machine chain⟩

/-- How a fault comes to be on its way. -/
inductive Comes (execution : Execution) (raised : Flight) : Prop where
  | handed (earlier : Flight) (same : execution = earlier.state)
  | uncalled (uncalled : raised.fault.Uncalled)
  | native (callee : Value) (fails : execution.FailsItself callee raised.fault)
      (label : raised.caller.natives.head? = some (.label callee))
      (named : raised.fault.callee? = none ∨ ∃ id function, callee = .host id function)
  | machine (calls : execution.AtCall) (unnamed : raised.fault.callee? = none)
      (counts : raised.fault ≠ .wrongArgumentCount)

section Coming

theorem caller_of_answerFrom {action : StoreM Value} {task : Task}
    (answered : answerFrom world action caller chain = .next ⟨later, .native task held below⟩) :
    held = caller := by
  unfold answerFrom at answered
  cases answered
  rfl

theorem label_of_invoke {callee : Value} {context : CallContext} {result : Except Fault Value}
    (answered : invoke setting world callee context caller chain =
      .next ⟨later, .native (.answer result) held below⟩) :
    held.natives.head? = some (.label callee) := by
  cases callee with
  | builtin | mapper =>
    rw [caller_of_answerFrom answered]
    rfl
  | host | function | bound => cases answered
  | type =>
    simp only [invoke, construct] at answered
    split at answered
    · split at answered
      · rw [caller_of_answerFrom answered]
        rfl
      · cases answered
        rfl
    · split at answered
      · cases answered
      · cases answered
        rfl
    · cases answered
  | _ =>
    cases answered
    rfl

theorem failed_of_afterAct {result : EStateM.Result Stop Active Next}
    (awaits : ∀ task pending after, result = .ok (.await task pending) after →
      (Next.await task pending).Onward)
    (stepped : afterAct chain result = .next raised.state) :
    ∃ after, result = .error (.fault raised.fault) after := by
  obtain ⟨later, fault, held, below⟩ := raised
  cases result with
  | error stop active =>
    cases stop with
    | fault reason =>
      cases (error_of_finish stepped).1
      exact ⟨active, rfl⟩
    | outOfRange => cases stepped
  | ok next active =>
    cases next with
    | proceed => cases stepped
    | halt => cases (error_of_finish stepped).1
    | await task pending =>
      cases awaits task pending active rfl with
      | call => cases stepped
      | invoke => cases stepped

theorem failed_of_done {result : EStateM.Result Stop Active Next}
    (stopped : afterAct chain result = .done world machine (.error fault)) :
    ∃ after, result = .error (.fault fault) after := by
  cases result with
  | error stop active =>
    cases stop with
    | fault reason =>
      cases chain with
      | nil =>
        cases stopped
        exact ⟨active, rfl⟩
      | cons caller chain => cases stopped
    | outOfRange => cases stopped
  | ok next active =>
    cases next with
    | proceed => cases stopped
    | await task pending => cases stopped
    | halt =>
      cases chain with
      | nil => cases stopped
      | cons caller chain =>
        simp only [afterAct, finish] at stopped
        split at stopped
        · cases stopped
        · cases stopped
        · cases stopped

/-- A fault with which native code is told of a value is the machine's that goes on with it. -/
theorem uncalled_of_deliver {value : Value}
    (delivered : deliver setting world (.ok value) caller chain = .next raised.state) :
    raised.fault.Uncalled := by
  obtain ⟨machine, pending, natives⟩ := caller
  cases natives with
  | nil =>
    have resumed (stepped : afterAct chain (Act.resume setting.program.limits pending (.ok value)
        ⟨world, machine⟩) = .next raised.state) : raised.fault.Uncalled := by
      obtain ⟨after, failed⟩ := failed_of_afterAct
        (fun task next after done => Act.goes_resume _ _ _ _ _ _ done) stepped
      have owns := Act.owned_resume setting.program.limits pending value
      exact (owns.uncalled.fails _ _ _ failed).uncalled
    cases pending with
    | host => cases delivered
    | _ => exact resumed delivered
  | cons native natives =>
    cases native with
    | routine context held next =>
      simp only [deliver] at delivered
      split at delivered
      next held => cases held
      · cases delivered
    | _ => cases delivered

theorem comes_of_step (hosted : execution.Hosted)
    (stepped : step setting execution = .next raised.state) : Comes execution raised := by
  obtain ⟨world, control⟩ := execution
  obtain ⟨later, fault, held, below⟩ := raised
  cases control with
  | running machine chain =>
    obtain ⟨after, failed⟩ := failed_of_afterAct
      (fun task pending after done => Act.onward_of_await done) stepped
    obtain uncalled | ⟨calls, unnamed, counts⟩ := Act.step_refuses failed
    · exact .uncalled uncalled
    · exact .machine ⟨calls⟩ unnamed counts
  | native task caller chain =>
    cases task with
    | call request => exact .uncalled (Fault.uncalled_of_unconcerned (unconcerned_of_call stepped))
    | invoke callee context =>
      exact .native callee .called (label_of_invoke stepped) (.inl (anonymous_of_invoke stepped).callee)
    | routine context program =>
      obtain unconcerned | rfl := unconcerned_of_routine stepped
      · exact .uncalled (Fault.uncalled_of_unconcerned unconcerned)
      · obtain ⟨⟨id, function, label⟩, -⟩ := hosted
        cases stepped
        exact .native _ (.replies rfl label) label (.inr ⟨id, function, rfl⟩)
    | answer result =>
      cases result with
      | error fault => exact .handed ⟨world, fault, caller, chain⟩ rfl
      | ok value => exact .uncalled (uncalled_of_deliver stepped)

/-- A fault that an execution ends with was on its way, or it is the last machine's. -/
theorem flight_of_done (stopped : step setting execution = .done world machine (.error fault)) :
    (∃ last : Flight, execution = last.state ∧ last.fault = fault) ∨ fault.callee? = none := by
  have turn := turn_step setting execution
  generalize step setting execution = progress at turn stopped
  cases turn with
  | instruction =>
    right
    obtain ⟨after, failed⟩ := failed_of_done stopped
    obtain uncalled | ⟨-, unnamed, -⟩ := Act.step_refuses failed
    · exact uncalled.callee
    · exact unnamed
  | @completion world result waiting pending chain =>
    obtain ⟨after, failed⟩ := failed_of_done stopped
    cases result with
    | error reason =>
      have same : reason = fault := by
        cases failed
        rfl
      exact .inl ⟨⟨world, reason, ⟨waiting, pending, []⟩, chain⟩, rfl, same⟩
    | ok value =>
      have owns := Act.owned_resume setting.program.limits pending value
      exact .inr (owns.uncalled.fails _ _ _ failed).uncalled.callee
  | @reply world result waits chain =>
    cases stopped
    exact .inl ⟨⟨_, fault, ⟨_, .host, []⟩, chain⟩, rfl, rfl⟩
  | native => cases stopped
  | child => cases stopped

end Coming

theorem hosted_begins {session : Session} (begins : session.Begins setting start) : start.Hosted := by
  cases begins with
  | run => exact nofun
  | call => exact List.forall_mem_cons.mpr ⟨trivial, nofun⟩

theorem not_flight_of_begins {session : Session} (begins : session.Begins setting start)
    (flight : Flight) : flight.state ≠ start := by
  obtain ⟨world, fault, caller, chain⟩ := flight
  cases begins with
  | run => nofun
  | call => nofun

/-- If a run or a call ends with a fault that names a callee, the fault came up in it and was handed on to
the end. Either a host function replied with the name. Or the fault came up without a name, because a
native callable failed by itself or because a machine failed at a call, and the innermost native callable
at work there is the one that it names: in the first case the one that failed, but in the second case the
one on whose behalf the machine ran, and not the function that was called there. -/
theorem argument_faults_name_callables {session : Session} {fuel : Nat} {name : String}
    (begins : session.Begins setting start)
    (ended : run setting fuel start = .done world machine (.error fault))
    (named : fault.callee? = some name) :
    ∃ execution raised last, Originates setting start execution raised ∧
      Relation.ReflTransGen (HandsOn setting) raised last ∧
      step setting last.state = .done world machine (.error fault) ∧
      ((∃ id function, execution.FailsItself (.host id function) fault ∧ raised.fault = fault) ∨
        ∃ labelled callee, Labelled setting raised labelled callee ∧
          Relation.ReflTransGen (HandsOn setting) labelled last ∧
          name = callee.kind labelled.world.store ∧ fault = raised.fault.inCall name ∧
          (execution.FailsItself callee raised.fault ∨
            execution.AtCall ∧ raised.fault ≠ .wrongArgumentCount)) := by
  obtain ⟨state, reached, stopped⟩ := reaches_of_done ended
  obtain ⟨last, rfl, rfl⟩ | unnamed := flight_of_done stopped
  rotate_left
  · cases named.symm.trans unnamed
  obtain ⟨execution, raised, origin, onward⟩ := exists_origin (not_flight_of_begins begins) ended reached
  refine ⟨execution, raised, last, origin, onward, stopped, ?_⟩
  have comes := comes_of_step (hosted_reaches (hosted_begins begins) origin.reached) origin.stepped
  have fresh (earlier : Flight) : execution ≠ earlier.state := by
    rintro rfl
    exact origin.first earlier origin.reached (.onward origin.stepped)
  obtain kept | ⟨refuses, labelled, callee, given, rest, called⟩ := labelled_of_changed onward
  · left
    rw [kept] at named ⊢
    cases comes with
    | handed earlier same => exact absurd same (fresh earlier)
    | uncalled uncalled => cases named.symm.trans uncalled.callee
    | machine calls unnamed => cases named.symm.trans unnamed
    | native callee fails label names =>
      obtain unnamed | ⟨id, function, rfl⟩ := names
      · cases named.symm.trans unnamed
      · exact ⟨id, function, fails, rfl⟩
  · right
    have same : name = callee.kind labelled.world.store := by
      rw [called, Fault.callee?_inCall refuses] at named
      exact (Option.some.inj named).symm
    subst same
    refine ⟨labelled, callee, given, rest, rfl, called, ?_⟩
    cases comes with
    | handed earlier same => exact absurd same (fresh earlier)
    | uncalled uncalled => cases refuses.symm.trans uncalled.settled
    | machine calls unnamed counts => exact .inr ⟨calls, counts⟩
    | native failing fails label =>
      have same : failing = callee := by
        have innermost := given.innermost
        rw [head?_callables label] at innermost
        exact Option.some.inj innermost
      exact .inl (same ▸ fails)

section Examples

/-- The fault that is on its way after some steps. -/
def flying? : Progress → Option Fault
  | .next ⟨_, .native (.answer (.error fault)) _ _⟩ => some fault
  | _ => none

/-- The fault that an execution has ended with after some steps. -/
def failure? : Progress → Option Fault
  | .done _ _ (.error fault) => some fault
  | _ => none

theorem exists_flight {progress : Progress} (flying : flying? progress = some fault) :
    ∃ flight : Flight, progress = .next flight.state ∧ flight.fault = fault := by
  unfold flying? at flying
  split at flying
  · cases flying
    exact ⟨⟨_, fault, _, _⟩, rfl, rfl⟩
  · cases flying

theorem exists_done {progress : Progress} (failed : failure? progress = some fault) :
    ∃ world machine, progress = .done world machine (.error fault) := by
  unfold failure? at failed
  split at failed
  · cases failed
    exact ⟨_, _, rfl⟩
  · cases failed

def resting : Session where
  program := { main := 0, limits := { stackSize := 4 } }
  host := .standard
  world := { store := { cells := #[.function { code := {} }] } }
  machine := .blank { stackSize := 4 } {}

/-- The call of a host function that calls another one without arguments. -/
def passing : Request where
  callee := .host 0 ⟨"apply", "apply", false⟩
  arguments := #[.host 1 ⟨"check", "check", false⟩]

theorem argument_faults_name_callables_passing :
    ∃ execution raised, Originates (resting.setting []) (resting.calling passing) execution raised ∧
      ((∃ id function, execution.FailsItself (.host id function) raised.fault) ∨
        ∃ labelled callee, Labelled (resting.setting []) raised labelled callee ∧
          "user-function:check" = callee.kind labelled.world.store) := by
  have failed : failure? (run (resting.setting []) 13 (resting.calling passing)) =
      some (.wrongArgumentCountInCall "user-function:check") := by decide +kernel
  obtain ⟨world, machine, ended⟩ := exists_done failed
  obtain ⟨execution, raised, last, origin, -, -, host | ⟨labelled, callee, given, -, name, -⟩⟩ :=
    argument_faults_name_callables (.call [] passing) ended rfl
  · obtain ⟨id, function, fails, same⟩ := host
    exact ⟨execution, raised, origin, .inl ⟨id, function, same ▸ fails⟩⟩
  · exact ⟨execution, raised, origin, .inr ⟨labelled, callee, given, name⟩⟩

/-- A session with a type whose constructor is a function that takes one argument and no keywords. -/
def building : Session where
  program := { main := 0, limits := { stackSize := 4 } }
  host := .standard
  world := { store := { cells := #[.function { code := {} },
    .type { name := "Point", constructor := some (.function 2), fields := 3, methods := 4, properties := 5 },
    .function { code := { instructions := assemble [⟨.ret, [0]⟩], arity := 1 } },
    .members .field {}, .members .method {}, .members .property {}] } }
  machine := .blank { stackSize := 4 } {}

/-- The call of the type with a keyword. -/
def newPoint : Request where
  callee := .type 1
  keywords := Table.empty.insert "x" (.int 1)

/-- The function that is called by the code which starts a native-side call, if that runs. -/
def starting? : Progress → Option Ref
  | .next ⟨_, .running machine _⟩ =>
    if machine.code[machine.ip]? = some Opcode.call.byte then machine.serves else none
  | _ => none

/-- The constructor refuses the keyword, and the fault names the type. -/
theorem refused_keyword_names_type :
    ∃ world machine chain raised later last,
      Reaches (building.setting []) (building.calling newPoint) ⟨world, .running machine chain⟩ ∧
      AtCall ⟨world, .running machine chain⟩ ∧ machine.serves = some 2 ∧
      step (building.setting []) ⟨world, .running machine chain⟩ = .next (Flight.state raised) ∧
      raised.fault = .unexpectedKeywords ∧
      run (building.setting []) 9 (building.calling newPoint) =
        .done later last (.error (.unexpectedKeywordsInCall "type")) ∧
      Value.kind world.store (.function 2) = "compiled-function" := by
  have starts : starting? (run (building.setting []) 3 (building.calling newPoint)) = some 2 := by
    decide +kernel
  have refuses : flying? (run (building.setting []) (3 + 1) (building.calling newPoint)) =
      some .unexpectedKeywords := by decide +kernel
  have failed : failure? (run (building.setting []) 9 (building.calling newPoint)) =
      some (.unexpectedKeywordsInCall "type") := by decide +kernel
  obtain ⟨raised, flies, fault⟩ := exists_flight refuses
  obtain ⟨later, last, ended⟩ := exists_done failed
  unfold starting? at starts
  split at starts
  next world machine chain reached =>
    split at starts
    next calls =>
      rw [run_add, reached] at flies
      refine ⟨world, machine, chain, raised, later, last, reaches_of_run 3 reached, ⟨calls⟩, starts,
        ?_, fault, ended, rfl⟩
      simp only [run] at flies
      split at flies
      next stepped => rw [stepped, flies]
      · cases flies
      · cases flies
    · cases starts
  · cases starts

end Examples

end Execution

end ScriptMachine
