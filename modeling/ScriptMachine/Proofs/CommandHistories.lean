import ScriptMachine.Session.Command
import ScriptMachine.Proofs.SessionHistories

/-! The commands of an embedding program. Whatever they are and however they end, instances lose nothing,
and the session they leave is one that can arise, unless the steps granted to one of them were used up in
its middle. -/

namespace ScriptMachine.Session

variable {α β : Type}

/-- What is done with a session takes nothing from instances, and leaves one that can arise if this one
can. -/
structure Lasting (act : SessionM α) : Prop where
  remembers : ∀ session : Session, session.world.store.Remembers (session.left act).world.store
  arises : ∀ session : Session, session.Arises →
    match act session with
    | .ok _ after => after.Arises
    | .error reason after => reason ≠ .exhausted → after.Arises

theorem lasting_compositional : Compositional (m := SessionM) @Lasting where
  pure _ := ⟨fun session => .refl session.world.store, fun _ arises => arises⟩
  bind := by
    intro α β first rest kept later
    refine ⟨fun session => ?_, fun session arises => ?_⟩
    · have begun := kept.remembers session
      unfold left at begun ⊢
      simp only [bind, EStateM.bind]
      cases ended : first session with
      | ok value after =>
        rw [ended] at begun
        exact begun.trans ((later value).remembers after)
      | error reason after =>
        rw [ended] at begun
        exact begun
    · have done := kept.arises session arises
      simp only [bind, EStateM.bind]
      cases ended : first session with
      | ok value after =>
        rw [ended] at done
        exact (later value).arises after done
      | error reason after =>
        rw [ended] at done
        exact done

theorem Lasting.bind {first : SessionM α} {rest : α → SessionM β} (kept : Lasting first)
    (later : ∀ value, Lasting (rest value)) : Lasting (first >>= rest) :=
  lasting_compositional.bind kept later

theorem lasting_pure (value : α) : Lasting (pure value) := lasting_compositional.pure value

theorem lasting_get : Lasting get := ⟨fun session => .refl session.world.store, fun _ arises => arises⟩

theorem lasting_throw (reason : Interruption) : Lasting (throw reason : SessionM α) :=
  ⟨fun session => .refl session.world.store, fun _ arises _ => arises⟩

theorem lasting_ofExcept (result : Except Fault α) : Lasting (ofExcept result) := by
  cases result with
  | ok value => exact lasting_pure value
  | error fault => exact lasting_throw _

theorem lasting_modify {change : Session → Session}
    (handles : ∀ session : Session, ∃ world registers,
      change session = { session with world, registers } ∧ session.world.Follows world) :
    Lasting (modify change) := by
  refine ⟨fun session => ?_, fun session arises => ?_⟩
  · obtain ⟨world, registers, same, follows⟩ := handles session
    have after : session.world.store.Remembers (change session).world.store := same ▸ follows.remembered
    exact after
  · obtain ⟨world, registers, same, follows⟩ := handles session
    have after : (change session).Arises := same ▸ .handled world registers arises follows.spared
    exact after

theorem lasting_onStore {compute : StoreM α} (harmless : StoreM.Harmless compute) :
    Lasting (onStore compute) := by
  refine ⟨fun session => ?_, fun session arises => ?_⟩
  · have remembers := harmless.remembering session.world.store
    unfold left onStore
    cases done : compute session.world.store with
    | ok result store =>
      rw [done] at remembers
      exact remembers
    | error fault store =>
      rw [done] at remembers
      exact remembers
  · have spares := harmless.sparing session.world.store
    unfold onStore
    cases done : compute session.world.store with
    | ok result store =>
      rw [done] at spares
      exact .handled { session.world with store } _ arises spares
    | error fault store =>
      rw [done] at spares
      exact fun _ => .handled { session.world with store } _ arises spares

theorem lasting_build (literal : Literal) : Lasting (build literal) :=
  lasting_get.bind fun _ => lasting_onStore (Literal.harmless_build _ literal)

theorem remembers_run (fuel : Nat) (deadline : Deadline) (session : Session) :
    session.world.store.Remembers (session.left (run fuel deadline)).world.store := by
  cases started : session.startMachine deadline with
  | error fault =>
    simp only [left, run, started]
    exact .refl _
  | ok machine =>
    have remembers {later : Store} (last : (Execution.run (session.setting []) fuel
        ⟨session.world, .running machine []⟩).store? = some later) :
        session.world.store.Remembers later := Execution.remembers_run last
    cases ended : Execution.run (session.setting []) fuel ⟨session.world, .running machine []⟩ with
    | next execution =>
      rw [ended] at remembers
      simp only [left, run, started, ended]
      exact remembers rfl
    | broken =>
      simp only [left, run, started, ended]
      exact .refl _
    | done world last result =>
      rw [ended] at remembers
      by_cases held : result = .error .cellHeld
      · subst held
        simp only [left, run, started, ended]
        exact .refl _
      · have left : session.left (run fuel deadline) = session.settle world last := by
          simp only [left, run, started, ended]
        rw [left]
        exact remembers rfl

/-- A run that does not come to an end with its steps is the only one that leaves something else. -/
theorem lasting_run (fuel : Nat) (deadline : Deadline) : Lasting (run fuel deadline) := by
  refine ⟨remembers_run fuel deadline, fun session arises => ?_⟩
  cases done : run fuel deadline session with
  | ok ending after => exact .ran arises done
  | error reason after =>
    intro enough
    unfold run at done
    split at done
    · cases done
    · split at done
      · cases done
        exact arises
      · cases done
      · cases done
        exact absurd rfl enough
      · cases done
        exact arises

theorem remembers_call (fuel : Nat) (held : List Value) (request : Request) (session : Session) :
    session.world.store.Remembers (session.left (call fuel held request)).world.store := by
  have remembers {later : Store} (last : (Execution.run (session.setting held) fuel
      (session.calling request)).store? = some later) : session.world.store.Remembers later :=
    Execution.remembers_run last
  cases ended : Execution.run (session.setting held) fuel (session.calling request) with
  | next execution =>
    rw [ended] at remembers
    simp only [left, call, ended]
    exact remembers rfl
  | broken =>
    simp only [left, call, ended]
    exact .refl _
  | done world last result =>
    rw [ended] at remembers
    cases result with
    | _ =>
      simp only [left, call, ended]
      exact remembers rfl

theorem lasting_call (fuel : Nat) (held : List Value) (request : Request) :
    Lasting (call fuel held request) := by
  refine ⟨remembers_call fuel held request, fun session arises => ?_⟩
  have unbroken := spent_call session fuel held request
  cases done : call fuel held request session with
  | ok value after => exact .called arises done
  | error reason after =>
    intro enough
    rw [done] at unbroken
    cases reason with
    | fault fault => exact .failed arises done
    | exhausted => exact absurd rfl enough
    | broken => exact absurd rfl unbroken.1

theorem lasting_answered (fuel : Nat) (held : List Value) (answer : Answer) :
    Lasting (answered fuel held answer) := by
  cases answer with
  | value value => exact lasting_pure value
  | call property request => exact lasting_call _ _ _

theorem lasting_snapshots (values : List Value) : Lasting (snapshots values) :=
  ⟨fun session => .refl session.world.store, fun _ arises => arises⟩

theorem lasting_snapshot (value : Value) : Lasting (snapshot value) :=
  ⟨fun session => .refl session.world.store, fun _ arises => arises⟩

theorem lasting_describe (value : Value) : Lasting (describe value) :=
  ⟨fun session => .refl session.world.store, fun _ arises => arises⟩

theorem lasting_shownGlobals (count : Nat) : Lasting (shownGlobals count) := by
  refine lasting_get.bind fun session => ?_
  refine (lasting_compositional.list_mapM _ lasting_describe).bind fun descriptions => ?_
  exact (lasting_snapshots _).bind fun shown => lasting_pure _

theorem lasting_keep (register : Option String) (value : Value) : Lasting (keep register value) := by
  cases register with
  | none => exact lasting_pure ()
  | some name =>
    exact lasting_modify fun session =>
      ⟨session.world, session.registers.insert name value, rfl, .refl _⟩

theorem lasting_reply (register : Option String) (value : Value) : Lasting (reply register value) :=
  (lasting_snapshot value).bind fun shown =>
    (lasting_keep register value).bind fun _ => lasting_pure (Reply.value shown)

theorem lasting_setGlobal (index : Nat) (value : Value) : Lasting (setGlobal index value) :=
  ⟨fun session => .refl session.world.store, fun _ arises => .handled _ _ arises (.refl _)⟩

theorem lasting_buildIterator (literal : Literal) : Lasting (buildIterator literal) := by
  refine (lasting_build literal).bind fun value => ?_
  cases value with
  | iterator ref => exact lasting_pure ref
  | _ => exact lasting_get.bind fun session => lasting_throw _

theorem lasting_changeElements (register : Option String) (target : Value)
    (change : Array Value → Array Value) : Lasting (changeElements register target change) := by
  cases target with
  | array handle ref =>
    exact (lasting_onStore (StoreM.harmless_changeElements ref change)).bind fun _ =>
      lasting_reply register _
  | _ => exact lasting_get.bind fun session => lasting_throw _

theorem lasting_runReply (fuel shown : Nat) (deadline : Deadline) :
    Lasting (runReply fuel shown deadline) := by
  refine (lasting_run fuel deadline).bind fun ending => ?_
  refine (lasting_shownGlobals shown).bind fun globals => lasting_get.bind fun session => ?_
  cases ending with
  | completed => exact lasting_pure _
  | failed failure => exact lasting_pure _

theorem lasting_callReply (fuel : Nat) (register : Option String) (callee : Literal)
    (receiver : Option Literal) (arguments : List Literal) (keywords : List (String × Literal)) :
    Lasting (callReply fuel register callee receiver arguments keywords) := by
  refine lasting_get.bind fun session => (lasting_build callee).bind fun callee => ?_
  have called (receiver : Option Value) : Lasting (do
      let arguments ← onStore (Literal.buildList session.registers arguments)
      let keywords ← onStore (Literal.buildEntries session.registers keywords)
      let request : Request :=
        { callee, receiver, arguments := arguments.toArray, keywords := .ofList keywords }
      reply register (← call fuel request.values request)) := by
    refine (lasting_onStore (Literal.harmless_buildList _ arguments)).bind fun arguments => ?_
    refine (lasting_onStore (Literal.harmless_buildEntries _ keywords)).bind
      fun keywords => ?_
    exact (lasting_call fuel _ _).bind fun value => lasting_reply register value
  cases receiver with
  | none => exact (lasting_pure none).bind called
  | some literal => exact (lasting_compositional.map some (lasting_build literal)).bind called

theorem lasting_drainReply (value : Value) : Lasting (drainReply value) := by
  refine lasting_get.bind fun session => (lasting_ofExcept _).bind fun sequence => ?_
  exact (lasting_snapshots _).bind fun elements => lasting_pure _

/-- Every command is a sequence of parts that last: building its operands, one computation or run, keeping
and showing the result. -/
theorem lasting_perform (fuel shown : Nat) (register : Option String) (command : Command) :
    Lasting (perform fuel shown register command) := by
  cases command with
  | run deadline => exact lasting_runReply fuel shown deadline
  | abort =>
    have asked : Lasting (modify fun session : Session =>
        { session with world := { session.world with aborting := true } }) :=
      lasting_modify fun session => ⟨_, session.registers, rfl, .refl _, .refl _, fun _ => rfl⟩
    exact asked.bind fun _ => lasting_pure _
  | isAborting => exact lasting_get.bind fun session => lasting_pure _
  | globals =>
    exact (lasting_shownGlobals shown).bind fun globals => lasting_get.bind fun session => lasting_pure _
  | global index => exact lasting_get.bind fun session => lasting_reply register _
  | setGlobal index value =>
    exact (lasting_build value).bind fun value =>
      (lasting_setGlobal index value).bind fun known => lasting_pure _
  | call callee receiver arguments keywords =>
    exact lasting_callReply fuel register callee receiver arguments keywords
  | value value => exact (lasting_build value).bind fun value => lasting_reply register value
  | forget name =>
    have forgotten : Lasting (modify fun session : Session =>
        { session with registers := session.registers.erase name }) :=
      lasting_modify fun session => ⟨session.world, _, rfl, .refl _⟩
    exact forgotten.bind fun _ => lasting_pure _
  | get target key =>
    refine (lasting_build target).bind fun target => (lasting_build key).bind fun key => ?_
    refine (lasting_onStore (StoreM.harmless_indexGet target key)).bind fun answer => ?_
    exact (lasting_answered fuel _ answer).bind fun value => lasting_reply register value
  | set target key value =>
    refine (lasting_build target).bind fun target => (lasting_build key).bind fun key => ?_
    refine (lasting_build value).bind fun value => ?_
    refine (lasting_onStore (StoreM.harmless_indexSet target key value)).bind fun answer => ?_
    exact (lasting_answered fuel _ answer).bind fun _ => lasting_reply register target
  | delete target keys =>
    refine (lasting_build target).bind fun target => lasting_get.bind fun session => ?_
    refine (lasting_onStore (Literal.harmless_buildList _ keys)).bind fun keys => ?_
    refine (lasting_onStore (StoreM.harmless_indexDelete target keys)).bind fun _ => ?_
    exact lasting_reply register target
  | slice target low high =>
    refine (lasting_build target).bind fun target => (lasting_build low).bind fun low => ?_
    refine (lasting_build high).bind fun high => ?_
    exact (lasting_onStore (StoreM.harmless_slice target low high)).bind fun part =>
      lasting_reply register part
  | binary operator left right =>
    refine (lasting_build left).bind fun left => (lasting_build right).bind fun right => ?_
    refine (lasting_onStore (StoreM.harmless_binary operator left right)).bind
      fun result => ?_
    refine (lasting_snapshot result).bind fun shown => (lasting_keep register result).bind fun _ => ?_
    exact (lasting_describe result).bind fun description => lasting_pure _
  | negate value =>
    refine (lasting_build value).bind fun value => lasting_get.bind fun session => ?_
    exact (lasting_ofExcept _).bind fun result => lasting_reply register result
  | complement value =>
    refine (lasting_build value).bind fun value => lasting_get.bind fun session => ?_
    exact (lasting_ofExcept _).bind fun result => lasting_reply register result
  | equal left right =>
    refine (lasting_build left).bind fun left => (lasting_build right).bind fun right => ?_
    exact lasting_get.bind fun session => lasting_pure _
  | copy value =>
    refine (lasting_build value).bind fun value => ?_
    exact (lasting_onStore (StoreM.harmless_copy value)).bind fun copy => lasting_reply register copy
  | mapping deep value =>
    refine (lasting_build value).bind fun value => ?_
    refine (lasting_onStore (StoreM.harmless_mapping deep value)).bind fun mapping => ?_
    cases mapping with
    | none => exact lasting_pure _
    | some mapping =>
      exact (lasting_onStore (StoreM.harmless_newMap mapping .writable)).bind fun map =>
        lasting_reply register map
  | inspect value =>
    exact (lasting_build value).bind fun value => lasting_get.bind fun session => lasting_pure _
  | bind callee receiver =>
    refine (lasting_build callee).bind fun callee => (lasting_build receiver).bind fun receiver => ?_
    exact (lasting_onStore (StoreM.harmless_bind .strong receiver callee)).bind fun bound =>
      lasting_reply register bound
  | iterate value =>
    refine (lasting_build value).bind fun value => ?_
    exact (lasting_onStore (StoreM.harmless_newIterator value)).bind fun iterator =>
      lasting_reply register iterator
  | next iterator =>
    refine (lasting_buildIterator iterator).bind fun ref => ?_
    exact (lasting_onStore (StoreM.harmless_iteratorNext ref)).bind fun stands =>
      lasting_pure _
  | key iterator =>
    refine (lasting_buildIterator iterator).bind fun ref => ?_
    exact lasting_get.bind fun session => lasting_reply register _
  | element iterator =>
    refine (lasting_buildIterator iterator).bind fun ref => ?_
    exact lasting_get.bind fun session => lasting_reply register _
  | drain value => exact (lasting_build value).bind fun value => lasting_drainReply value
  | values values =>
    refine lasting_get.bind fun session => ?_
    refine (lasting_onStore (Literal.harmless_buildList _ values)).bind fun values => ?_
    exact (lasting_snapshots values).bind fun shown => lasting_pure _
  | push target value =>
    refine (lasting_build target).bind fun target => (lasting_build value).bind fun value => ?_
    exact lasting_changeElements register target _
  | pop target =>
    exact (lasting_build target).bind fun target => lasting_changeElements register target _
  | limits => exact lasting_get.bind fun session => lasting_pure _
  | machine => exact lasting_get.bind fun session => lasting_pure _
  | listing => exact lasting_get.bind fun session => lasting_pure _

theorem remembers_respond (fuel shown : Nat) (register : Option String) (command : Command)
    (session : Session) : session.world.store.Remembers
      (respond fuel shown register command session).2.world.store := by
  have remembers := (lasting_perform fuel shown register command).remembers session
  unfold left at remembers
  unfold respond
  cases done : perform fuel shown register command session with
  | ok reply after =>
    rw [done] at remembers
    exact remembers
  | error reason after =>
    rw [done] at remembers
    exact remembers

/-- A session before and after a command for which the steps sufficed. -/
def Obeys (before after : Session) : Prop :=
  ∃ fuel shown register command reply,
    respond fuel shown register command before = (reply, after) ∧ reply ≠ .interrupted .exhausted

theorem Arises.obeys {before after : Session} (arises : before.Arises) (obeys : before.Obeys after) :
    after.Arises := by
  obtain ⟨fuel, shown, register, command, reply, responds, enough⟩ := obeys
  have lasts := (lasting_perform fuel shown register command).arises before arises
  unfold respond at responds
  cases done : perform fuel shown register command before with
  | ok value later =>
    rw [done] at responds lasts
    cases responds
    exact lasts
  | error reason later =>
    rw [done] at responds lasts
    cases responds
    exact lasts fun used => enough (used ▸ rfl)

/-- Whatever commands a session is given after its creation, it is one of those that can arise. -/
theorem arises_of_commands {host : Host} {blueprint : Blueprint} {start session : Session}
    (made : create host blueprint = .ok start)
    (commanded : Relation.ReflTransGen Obeys start session) : session.Arises := by
  induction commanded with
  | refl => exact .created made
  | tail _ obeys ih => exact ih.obeys obeys

end ScriptMachine.Session
