import ScriptMachine.Proofs.Aborting

/-! How a fault travels. Whoever waits is told of it and hands it on, named by the labels that it comes to
or as it is. In an execution that ends, every fault on its way has come up somewhere: counting steps back
from the end leads to a state to which nobody has handed it. -/

namespace ScriptMachine

namespace Fault

variable {fault : Fault} {callee : String}

theorem inCall_of_settled (settled : fault.refusesArguments = false) : fault.inCall callee = fault := by
  cases fault with
  | wrongArgumentCount | unexpectedKeywords | invalidArgumentType => cases settled
  | _ => rfl

theorem callee?_inCall (refuses : fault.refusesArguments = true) :
    (fault.inCall callee).callee? = some callee := by
  cases fault with
  | wrongArgumentCount | unexpectedKeywords | invalidArgumentType => rfl
  | _ => cases refuses

theorem settled_inCall (callee : String) (fault : Fault) :
    (fault.inCall callee).refusesArguments = false := by
  cases fault with
  | _ => rfl

end Fault

/-- The callable that a label is for. -/
def Native.callable? : Native → Option Value
  | label callee => some callee
  | _ => none

/-- A fault on its way: whoever waits is about to be told of it. -/
structure Flight where
  world : World
  fault : Fault
  caller : Suspended
  chain : List Suspended

namespace Flight

def state (flight : Flight) : Execution :=
  ⟨flight.world, .native (.answer (.error flight.fault)) flight.caller flight.chain⟩

/-- The native callables at work, innermost first. -/
def callables (flight : Flight) : List Value :=
  (flight.caller :: flight.chain).flatMap fun held => held.natives.filterMap Native.callable?

end Flight

namespace Execution

variable {setting : Setting} {world : World} {machine : Machine} {chain : List Suspended} {fault : Fault}
  {before after raised last : Flight} {start execution : Execution}

/-- Whoever is told of a fault hands it on. A host function does so if it then replies with it. -/
inductive HandsOn (setting : Setting) : Flight → Flight → Prop where
  | onward {before after : Flight} (stepped : step setting before.state = .next after.state) :
      HandsOn setting before after
  | replies {world later : World} {fault : Fault} {caller : Suspended} {machine : Machine}
      {chain : List Suspended} {context : CallContext} {kept : List Value}
      {next : Except Fault Value → HostProgram} (told : fault ≠ .cellHeld)
      (during : During setting caller chain
        ⟨world, .native (.routine context (next (.error fault))) caller chain⟩
        ⟨later, .native (.answer (.error fault)) { caller with machine } chain⟩) :
      HandsOn setting
        ⟨world, fault, { caller with natives := .routine context kept next :: caller.natives }, chain⟩
        ⟨later, fault, { caller with machine }, chain⟩

section Tracing

theorem head?_callables {callee : Value} (label : raised.caller.natives.head? = some (.label callee)) :
    raised.callables.head? = some callee := by
  obtain ⟨natives, top⟩ := List.head?_eq_some_iff.mp label
  rw [Flight.callables, List.flatMap_cons, top]
  rfl

/-- A machine that stops hands nothing on but the fault it stops with. -/
theorem error_of_finish {active : Active} {result : Except Fault Value}
    (finished : finish active result chain = .next after.state) :
    result = .error after.fault ∧
      after.callables = chain.flatMap fun held => held.natives.filterMap Native.callable? := by
  cases chain with
  | nil => cases finished
  | cons caller chain =>
    obtain ⟨later, fault, held, below⟩ := after
    obtain ⟨answer, failed, -, same⟩ | ⟨-, same⟩ := finish_cons_cases active result caller chain
    · rw [same] at finished
      cases finished
      exact ⟨failed fault rfl, rfl⟩
    · rw [same] at finished
      cases finished

/-- A label names the fault that it hands on. Everything else leaves the fault as it is. -/
theorem HandsOn.cases_label (hands : HandsOn setting before after) :
    after.fault = before.fault ∧ after.callables = before.callables ∨
      ∃ callee, before.caller.natives.head? = some (.label callee) ∧
        after.fault = before.fault.inCall (callee.kind before.world.store) ∧
        before.callables = callee :: after.callables := by
  cases hands with
  | replies => exact .inl ⟨rfl, rfl⟩
  | onward stepped =>
    obtain ⟨world, fault, ⟨machine, pending, natives⟩, chain⟩ := before
    obtain ⟨later, passed, held, below⟩ := after
    cases natives with
    | cons native natives =>
      cases native with
      | label callee =>
        cases stepped
        exact .inr ⟨callee, rfl, rfl, rfl⟩
      | holding callee =>
        cases stepped
        exact .inl ⟨rfl, rfl⟩
      | construct object =>
        cases stepped
        exact .inl ⟨rfl, rfl⟩
      | routine context kept next =>
        simp only [Flight.state, step, deliver] at stepped
        split at stepped
        · cases stepped
          exact .inl ⟨rfl, rfl⟩
        · cases stepped
    | nil =>
      by_cases hosted : pending = .host
      · subst hosted
        cases stepped
      · have finished : finish ⟨world, machine⟩ (.error fault) chain =
            .next (Flight.mk later passed held below).state := by
          cases pending with
          | host => exact absurd rfl hosted
          | _ => exact stepped
        obtain ⟨same, around⟩ := error_of_finish finished
        cases same
        exact .inl ⟨rfl, around⟩

/-- The fault that was raised is handed on unnamed until it comes to the label of the innermost native
callable. -/
structure Labelled (setting : Setting) (raised named : Flight) (callee : Value) : Prop where
  passed : Relation.ReflTransGen (HandsOn setting) raised named
  unnamed : named.fault = raised.fault
  innermost : raised.callables.head? = some callee
  label : named.caller.natives.head? = some (.label callee)

/-- A fault that is handed on either stays what it is, or is named once, by the first label on the way that
takes a fault about arguments. -/
theorem labelled_of_changed (onward : Relation.ReflTransGen (HandsOn setting) raised last) :
    last.fault = raised.fault ∨ raised.fault.refusesArguments = true ∧
      ∃ named callee, Labelled setting raised named callee ∧
        Relation.ReflTransGen (HandsOn setting) named last ∧
        last.fault = raised.fault.inCall (callee.kind named.world.store) := by
  induction onward using Relation.ReflTransGen.head_induction_on with
  | refl => exact .inl rfl
  | @head raised next hands onward ih =>
    obtain ⟨same, around⟩ | ⟨callee, label, given, around⟩ := hands.cases_label
    · obtain kept | ⟨refuses, named, callee, labelled, rest, given⟩ := ih
      · exact .inl (kept.trans same)
      · refine .inr ⟨same ▸ refuses, named, callee, ⟨?_, ?_, ?_, labelled.label⟩, rest, ?_⟩
        · exact .head hands labelled.passed
        · exact labelled.unnamed.trans same
        · rw [← around]
          exact labelled.innermost
        · rw [← same]
          exact given
    · obtain kept | ⟨refuses, -⟩ := ih
      · cases refuses : raised.fault.refusesArguments with
        | true =>
          refine .inr ⟨rfl, raised, callee, ⟨.refl, rfl, ?_, label⟩, .head hands onward, ?_⟩
          · rw [around]
            rfl
          · exact kept.trans given
        | false =>
          rw [given, Fault.inCall_of_settled refuses] at kept
          exact .inl kept
      · rw [given, Fault.settled_inCall] at refuses
        cases refuses

end Tracing

section Counting

variable {count fuel period : Nat} {other : Execution} {result : Except Fault Value}

theorem run_add (count more : Nat) (start : Execution) :
    run setting (count + more) start =
      match run setting count start with
      | .next middle => run setting more middle
      | ended => ended := by
  induction count generalizing start with
  | zero => rw [Nat.zero_add, run]
  | succ count ih =>
    rw [Nat.succ_add, run, run]
    cases step setting start with
    | next after => exact ih after
    | done world machine result => rfl
    | broken => rfl

theorem exists_count (reached : Reaches setting start execution) :
    ∃ count, run setting count start = .next execution := by
  induction reached using Relation.ReflTransGen.head_induction_on with
  | refl => exact ⟨0, rfl⟩
  | head stepped _ ih =>
    obtain ⟨count, passed⟩ := ih
    refine ⟨count + 1, ?_⟩
    simp only [run, stepped, passed]

theorem not_done_of_returns (returns : run setting (period + 1) start = .next start) :
    run setting fuel start ≠ .done world machine result := by
  induction fuel using Nat.strongRecOn with
  | ind fuel ih =>
    intro ended
    obtain short | long := Nat.lt_or_ge fuel (period + 1)
    · rw [← Nat.add_sub_cancel' (Nat.le_of_lt short), run_add, ended] at returns
      cases returns
    · obtain ⟨left, rfl⟩ := Nat.exists_eq_add_of_le long
      rw [run_add, returns] at ended
      exact ih left (by omega) ended

theorem count_lt {earlier : Nat} (ended : run setting fuel start = .done world machine result)
    (passed : run setting earlier start = .next other)
    (leads : run setting (period + 1) other = .next execution)
    (reached : run setting count start = .next execution) : earlier < count := by
  by_contra late
  obtain ⟨gap, rfl⟩ := Nat.exists_eq_add_of_le (Nat.le_of_not_lt late)
  rw [run_add, reached] at passed
  change run setting gap execution = .next other at passed
  have returns : run setting (gap + (period + 1)) execution = .next execution := by
    rw [run_add, passed]
    exact leads
  obtain ⟨left, stops⟩ := run_of_reaches (reaches_of_run count reached) ended
  exact not_done_of_returns returns stops

theorem HandsOn.exists_run (hands : HandsOn setting before after) :
    ∃ count, run setting (count + 1) before.state = .next after.state := by
  cases hands with
  | onward stepped => exact ⟨0, by simp only [run, stepped]⟩
  | @replies world later fault caller machine chain context kept next told during =>
    obtain ⟨count, passed⟩ := exists_count (reaches_of_during during)
    refine ⟨count, ?_⟩
    have delivered : step setting ⟨world, .native (.answer (.error fault))
        { caller with natives := .routine context kept next :: caller.natives } chain⟩ =
        .next ⟨world, .native (.routine context (next (.error fault))) caller chain⟩ := by
      cases fault with
      | cellHeld => exact absurd rfl told
      | _ => rfl
    simp only [Flight.state, run, delivered]
    exact passed

/-- A fault that is on its way at the end of an execution was raised in it: there is a first flight,
which nothing hands on. -/
theorem exists_raised (ended : run setting fuel start = .done world machine result)
    (count : Nat) (flight : Flight) (passed : run setting count start = .next flight.state)
    (onward : Relation.ReflTransGen (HandsOn setting) flight last) :
    ∃ raised, Reaches setting start raised.state ∧
      (∀ earlier, Reaches setting start earlier.state → ¬HandsOn setting earlier raised) ∧
      Relation.ReflTransGen (HandsOn setting) raised last := by
  induction count using Nat.strongRecOn generalizing flight with
  | ind count ih =>
    by_cases first : ∀ earlier, Reaches setting start earlier.state → ¬HandsOn setting earlier flight
    · exact ⟨flight, reaches_of_run count passed, first, onward⟩
    · push Not at first
      obtain ⟨earlier, reached, hands⟩ := first
      obtain ⟨sooner, visited⟩ := exists_count reached
      obtain ⟨period, leads⟩ := hands.exists_run
      exact ih sooner (count_lt ended visited leads passed) earlier visited (.head hands onward)

end Counting

/-- A step of an execution with which a fault comes up. Nobody hands it on to there. -/
structure Originates (setting : Setting) (start execution : Execution) (raised : Flight) : Prop where
  reached : Reaches setting start execution
  stepped : step setting execution = .next raised.state
  first : ∀ earlier, Reaches setting start earlier.state → ¬HandsOn setting earlier raised

theorem exists_origin {fuel : Nat} (fresh : ∀ flight : Flight, flight.state ≠ start)
    (ended : run setting fuel start = .done world machine (.error fault))
    (reached : Reaches setting start last.state) :
    ∃ execution raised, Originates setting start execution raised ∧
      Relation.ReflTransGen (HandsOn setting) raised last := by
  obtain ⟨count, passed⟩ := exists_count reached
  obtain ⟨raised, visited, first, onward⟩ := exists_raised ended count last passed .refl
  obtain same | ⟨execution, before, stepped⟩ := visited.cases_tail
  · exact absurd same (fresh raised)
  · exact ⟨execution, raised, ⟨before, stepped, first⟩, onward⟩

end Execution

end ScriptMachine
