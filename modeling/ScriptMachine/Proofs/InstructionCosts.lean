import ScriptMachine.Proofs.ChargeLogic

/-! What each operation is charged. An operation that makes objects is charged for them, except for
eight operations that can make objects for nothing. -/

namespace ScriptMachine

def Opcode.price : Opcode → Price
  | getLocalBox | setGlobalPath | setLocalPath | setFreePath | index | call | callArguments
  | callKeywords => .any
  | _ => .fair

def Pending.price : Pending → Price
  | walk .. => .any
  | _ => .fair

namespace Act

variable {limits : Limits}

theorem costs_changeUnless {stop? : Machine → Option Stop} {change : Machine → Machine}
    (stops : ∀ machine budget, stop? { machine with budget } = stop? machine)
    (changes : ∀ machine budget, change { machine with budget } = { change machine with budget }) :
    Costs limits .fair (changeUnless stop? change) := by
  refine costs_of_blind fun world machine => ?_
  cases forbidden : stop? machine with
  | some stop =>
    refine ⟨by simp only [changeUnless, forbidden, final], fun budget => ?_⟩
    have again : stop? { machine with budget } = some stop := (stops machine budget).trans forbidden
    simp only [changeUnless, Active.withBudget, rebudget, forbidden, again]
  | none =>
    refine ⟨by simp only [changeUnless, forbidden, final], fun budget => ?_⟩
    have again : stop? { machine with budget } = none := (stops machine budget).trans forbidden
    have same : change { machine with budget } = { change machine with budget } :=
      changes machine budget
    simp only [changeUnless, Active.withBudget, rebudget, forbidden, again, same]

theorem costs_enterFrame (granted : Limits) (function : Ref) (callee : Function)
    (parameters arguments : Array Value) (keywords : Table Value) (start : Nat) :
    Costs limits .fair
      (enterFrame granted function callee parameters arguments keywords start) := by
  unfold enterFrame
  exact costs_changeUnless (fun _ _ => rfl) fun _ _ => rfl

theorem costs_reenterFrame (callee : Function) (parameters arguments : Array Value)
    (keywords : Table Value) :
    Costs limits .fair (reenterFrame callee parameters arguments keywords) := by
  unfold reenterFrame
  exact costs_changeUnless (fun _ _ => rfl) fun _ _ => rfl

/-- Binding arguments may gather some of them in a new array or map, which is not charged. -/
theorem costs_enter (granted : Limits) (function : Ref) (arguments : Array Value)
    (keywords : Table Value) (start : Nat) :
    Costs limits .any (enter granted function arguments keywords start) := by
  refine (costs_readStore _).bind fun callee => ?_
  refine (costs_onStore _).loose fun parameters => ?_
  refine (costs_readMachine fun _ _ => rfl).bind fun reuses => ?_
  exact (costs_reenterFrame _ _ _ _).any.ite (costs_enterFrame _ _ _ _ _ _ _).any

theorem costs_leave (result : Value) : Costs limits .fair (leave result) := by
  refine (costs_readMachine fun _ _ => rfl).bind fun depth => ?_
  refine (costs_pure _).ite ?_
  refine Costs.thenProceed (costs_changeUnless (fun _ _ => rfl) ?_)
  intro machine budget
  have same : Machine.frames { machine with budget } = machine.frames := rfl
  simp only [Machine.popFrame, same]
  split
  · rfl
  · rfl

theorem costs_receiver (around : Surroundings) (hold : Hold) (value : Value) :
    Costs limits .fair (receiver around hold value) := by
  refine costs_of_blind fun world machine => ?_
  have near (budget : Int) : Machine.nearRefs { machine with budget } = machine.nearRefs := rfl
  have refs (budget : Int) : Machine.refs { machine with budget } = machine.refs := rfl
  simp only [receiver, Active.withBudget, rebudget, final, near, refs]
  generalize Value.heldReceiver? _ hold value = held
  cases held with
  | some held => exact ⟨rfl, fun _ => rfl⟩
  | none => exact ⟨rfl, fun _ => rfl⟩

theorem costs_global (index : Nat) : Costs limits .fair (global index) := by
  refine costs_of_blind fun world machine => ?_
  cases found : world.globals[index]? with
  | some value => simp [global, Active.withBudget, rebudget, final, found]
  | none => simp [global, Active.withBudget, rebudget, final, found]

theorem costs_setGlobal (index : Nat) (value : Value) : Costs limits .fair (setGlobal index value) := by
  refine costs_of_blind fun world machine => ?_
  obtain ⟨store, globals, aborting⟩ := world
  by_cases inside : index < globals.size
  · simp [setGlobal, Active.withBudget, rebudget, final, inside]
  · simp [setGlobal, Active.withBudget, rebudget, final, inside]

theorem costs_localSlot : Costs limits .fair localSlot := by
  refine costs_readByte.bind fun index => ?_
  refine costs_frame.bind fun frame => ?_
  refine (costs_readMachine fun _ _ => rfl).bind fun size => ?_
  exact (costs_pure _).ite (costs_fail _)

theorem costs_unboxed (value : Value) : Costs limits .fair (unboxed value) := by
  unfold unboxed
  split
  · exact costs_readStore _
  · exact costs_pure _

theorem costs_freeBox (index : Nat) : Costs limits .fair (freeBox index) := by
  refine costs_frame.bind fun frame => ?_
  split
  · exact costs_pure _
  · exact costs_fail _

/-- Looking a member up on the way may make one, which is not charged. -/
theorem costs_walk (assignment : Assignment) (container : Value) (rest : List Value) :
    Costs limits .any (walk assignment container rest) := by
  induction rest generalizing container with
  | nil =>
    refine (costs_onStore _).loose fun answer => ?_
    cases answer with
    | value value => exact (costs_pure _).any
    | call property request => exact (costs_pure _).any
  | cons selector rest ih =>
    refine (costs_onStore _).loose fun answer => ?_
    cases answer with
    | value next => exact ih next
    | call property request => exact (costs_pure _).any

theorem costs_assignPath (target : Value) (count : Nat) :
    Costs limits .any (assignPath target count) := by
  refine (costs_popMany count).bind fun selectors => ?_
  refine costs_pop.bind fun value => ?_
  split
  · exact costs_failHere
  · exact costs_walk _ _ _

theorem costs_pushIndexed (target index : Value) : Costs limits .any (pushIndexed target index) := by
  refine (costs_onStore _).loose fun answer => ?_
  cases answer with
  | value value => exact (costs_push value).any.thenProceed
  | call property request => exact (costs_pure _).any

theorem costs_popIterator : Costs limits .fair popIterator := by
  refine costs_pop.bind fun value => ?_
  split
  · exact costs_pure _
  · exact (costs_readStore _).bind fun _ => costs_fail _

/-- The charge for a closure covers the boxes of what it captures. -/
theorem costs_closure (program : Program) :
    Costs program.limits .charged (closure program) := by
  refine costs_readPair.bind fun index => ?_
  refine costs_readByte.bind fun count => ?_
  split
  next ref _ =>
    refine (costs_readStore _).bind fun callee => ?_
    refine (costs_popMany count).bind fun values => ?_
    refine (costs_onStore _).covered fun free => ?_
    refine costs_charge.paid fun _ => ?_
    exact (costs_onStore _).loose fun ref => (costs_push _).any
  · exact (costs_readStore _).bind fun _ => costs_fail _
  · exact costs_failHere

theorem made_write {ref : Ref} {cell : Cell} {store after : Store} {value : Unit}
    (done : StoreM.write ref cell store = .ok value after) : after.made = store.made := by
  cases done
  simp only [Store.made, Store.overwrite, Array.size_modify]

theorem costs_access (program : Program) (op : Opcode) :
    Costs limits op.price (access program op) := by
  cases op with
  | constant =>
    refine costs_readPair.bind fun index => ?_
    split
    · exact (costs_push _).thenProceed
    · exact costs_failHere
  | pushUndefined => exact (costs_push _).thenProceed
  | pushDefault => exact (costs_push _).thenProceed
  | pushTrue => exact (costs_push _).thenProceed
  | pushFalse => exact (costs_push _).thenProceed
  | pop => exact costs_pop.bind fun _ => costs_pure _
  | getGlobal =>
    refine costs_readPair.bind fun index => ?_
    exact (costs_global index).bind fun value => (costs_push value).thenProceed
  | setGlobal =>
    refine costs_readPair.bind fun index => ?_
    refine costs_pop.bind fun value => ?_
    exact (costs_setGlobal index value).thenProceed
  | setGlobalPath =>
    refine costs_readPair.bind fun index => ?_
    refine costs_readByte.bind fun count => ?_
    exact (costs_global index).bind fun target => costs_assignPath target count
  | getLocal =>
    refine costs_localSlot.bind fun index => ?_
    refine (costs_slot index).bind fun held => ?_
    exact (costs_unboxed held).bind fun value => (costs_push value).thenProceed
  | setLocal =>
    refine costs_localSlot.bind fun index => ?_
    refine costs_pop.bind fun value => ?_
    refine (costs_slot index).bind fun held => ?_
    split
    · exact (costs_onStore_of_made fun _ _ _ done => made_write done).thenProceed
    · exact (costs_setSlot index value).thenProceed
  | defineLocal =>
    refine costs_localSlot.bind fun index => ?_
    exact costs_pop.bind fun value => (costs_setSlot index value).thenProceed
  | setLocalPath =>
    refine costs_localSlot.bind fun index => ?_
    refine costs_readByte.bind fun count => ?_
    refine (costs_slot index).bind fun held => ?_
    exact (costs_unboxed held).bind fun target => costs_assignPath target count
  | getLocalBox =>
    refine costs_localSlot.bind fun index => ?_
    refine (costs_slot index).bind fun held => ?_
    split
    · exact (costs_push _).any.thenProceed
    · refine (costs_onStore _).loose fun box => ?_
      exact (costs_setSlot index _).bind fun _ => (costs_push _).any.thenProceed
  | getBuiltin =>
    refine costs_readByte.bind fun index => ?_
    split
    · exact (costs_push _).thenProceed
    · exact costs_failHere
  | getFree =>
    refine costs_readByte.bind fun index => ?_
    refine (costs_freeBox index).bind fun box => ?_
    exact (costs_readStore _).bind fun value => (costs_push value).thenProceed
  | setFree =>
    refine costs_readByte.bind fun index => ?_
    refine costs_pop.bind fun value => ?_
    refine (costs_freeBox index).bind fun box => ?_
    exact (costs_onStore_of_made fun _ _ _ done => made_write done).thenProceed
  | getFreeBox =>
    refine costs_readByte.bind fun index => ?_
    exact (costs_freeBox index).bind fun box => (costs_push _).thenProceed
  | setFreePath =>
    refine costs_readByte.bind fun index => ?_
    refine costs_readByte.bind fun count => ?_
    refine (costs_freeBox index).bind fun box => ?_
    exact (costs_readStore _).bind fun target => costs_assignPath target count
  | _ => exact costs_fail _

theorem costs_operator (op : Opcode) : Costs limits op.price (operator limits op) := by
  cases op with
  | binary =>
    refine costs_readByte.bind fun token => ?_
    split
    · exact costs_failHere
    · refine costs_pop.bind fun right => ?_
      refine costs_pop.bind fun left => ?_
      refine Costs.fair ?_
      exact (costs_onStore _).covered fun result => (costs_pushCharged result).thenProceed
  | equal =>
    refine costs_pop.bind fun right => ?_
    refine costs_pop.bind fun left => ?_
    exact (costs_readStore _).bind fun same => (costs_push _).thenProceed
  | notEqual =>
    refine costs_pop.bind fun right => ?_
    refine costs_pop.bind fun left => ?_
    exact (costs_readStore _).bind fun same => (costs_push _).thenProceed
  | logicalNot =>
    refine costs_pop.bind fun value => ?_
    exact (costs_readStore _).bind fun falsy => (costs_push _).thenProceed
  | complement =>
    refine costs_pop.bind fun value => ?_
    refine (costs_readStore _).bind fun outcome => ?_
    exact (costs_ofExcept outcome).bind fun result => (costs_pushCharged result).fair.thenProceed
  | negate =>
    refine costs_pop.bind fun value => ?_
    refine (costs_readStore _).bind fun outcome => ?_
    exact (costs_ofExcept outcome).bind fun result => (costs_pushCharged result).fair.thenProceed
  | _ => exact costs_fail _

theorem costs_control (op : Opcode) : Costs limits op.price (control op) := by
  cases op with
  | jump => exact costs_readPair.bind fun target => (costs_jumpTo target).thenProceed
  | jumpFalsy =>
    refine costs_readPair.bind fun target => ?_
    refine costs_pop.bind fun value => ?_
    refine (costs_readStore _).bind fun falsy => ?_
    exact (costs_jumpTo target).thenProceed.ite (costs_pure _)
  | andJump =>
    refine costs_readPair.bind fun target => ?_
    refine costs_top.bind fun value => ?_
    refine (costs_readStore _).bind fun falsy => ?_
    exact (costs_jumpTo target).thenProceed.ite (costs_pop.bind fun _ => costs_pure _)
  | orJump =>
    refine costs_readPair.bind fun target => ?_
    refine costs_top.bind fun value => ?_
    refine (costs_readStore _).bind fun falsy => ?_
    exact (costs_pop.bind fun _ => costs_pure _).ite (costs_jumpTo target).thenProceed
  | suspend => exact costs_pure _
  | _ => exact costs_fail _

/-- An object that is made right after its charge. -/
theorem costs_pushMade (make : StoreM Value) :
    Costs limits .fair (charge limits >>= fun _ => onStore make >>= fun made =>
      thenProceed (push made)) := by
  refine Costs.fair (costs_charge.paid fun _ => ?_)
  exact (costs_onStore make).loose fun made => (costs_push made).any.thenProceed

theorem costs_containers (op : Opcode) : Costs limits op.price (containers limits op) := by
  cases op with
  | array =>
    refine costs_readPair.bind fun count => ?_
    exact (costs_popMany count).bind fun elements => costs_pushMade _
  | map =>
    refine costs_readPair.bind fun count => ?_
    refine (costs_popMany count).bind fun elements => ?_
    refine (costs_readStore _).bind fun store => ?_
    exact (costs_ofExcept _).bind fun entries => costs_pushMade _
  | error => exact costs_pop.bind fun value => costs_pushMade _
  | freeze =>
    refine costs_pop.bind fun value => ?_
    split
    · exact (costs_pushCharged _).fair.thenProceed
    · exact (costs_pushCharged _).fair.thenProceed
    · exact (costs_push _).thenProceed
  | index =>
    refine costs_pop.bind fun index => ?_
    exact costs_pop.bind fun target => costs_pushIndexed target index
  | slice =>
    refine costs_pop.bind fun high => ?_
    refine costs_pop.bind fun low => ?_
    refine costs_pop.bind fun target => ?_
    refine Costs.fair ?_
    exact (costs_onStore _).covered fun part => (costs_pushCharged part).thenProceed
  | _ => exact costs_fail _

theorem costs_spread (value : Value) : Costs limits .fair (spread value) := by
  unfold spread
  split
  · exact costs_readStore _
  · exact (costs_readStore _).bind fun _ => costs_fail _

theorem costs_gatherKeywords (keywords : Table Value) (maps : List Value) :
    Costs limits .fair (gatherKeywords keywords maps) := by
  induction maps generalizing keywords with
  | nil => exact costs_pure _
  | cons value rest ih =>
    unfold gatherKeywords
    split
    · exact costs_pure _
    next same => cases same; exact (costs_readStore _).bind fun _ => ih _
    next same => cases same; exact ih _
    next same => cases same; exact (costs_readStore _).bind fun _ => costs_fail _

theorem costs_callSite : Costs limits .fair callSite := by
  refine costs_readByte.bind fun count => ?_
  refine costs_readFlag.bind fun spreads => ?_
  refine costs_readFlag.bind fun keyed => ?_
  refine costs_readFlag.bind fun catches => ?_
  have found (arity : Nat) : Costs limits .fair (argumentStart arity) :=
    (costs_readMachine fun _ _ => rfl).bind fun _ => (costs_fail _).ite (costs_pure _)
  refine (found _).bind fun start => ?_
  refine (costs_slot _).bind fun callee => ?_
  have callable : Costs limits .fair (requireCallable callee) :=
    (costs_pure _).ite ((costs_readStore _).bind fun _ => costs_fail _)
  refine callable.bind fun _ => ?_
  refine (costs_slots _ _).bind fun positional => ?_
  have added : Costs limits .fair (spreadArguments spreads (start + count)) :=
    ((costs_slot _).bind costs_spread).ite (costs_pure _)
  refine added.bind fun more => ?_
  refine (costs_readMachine fun _ _ => rfl).bind fun sp => ?_
  refine (costs_slots _ _).bind fun maps => ?_
  exact (costs_gatherKeywords _ _).bind fun keywords => costs_pure _

theorem costs_resolve (around : Surroundings) (site : CallSite) :
    Costs limits .fair (resolve around site) := by
  unfold resolve
  split
  · exact costs_pure _
  · exact (costs_receiver _ _ _).bind fun _ => costs_pure _
  · exact (costs_receiver _ _ _).bind fun _ => costs_pure _
  · refine (costs_readStore _).bind fun store => ?_
    exact ((costs_slot _).bind fun _ => costs_pure _).ite (costs_pure _)

theorem costs_call (around : Surroundings) : Costs limits .any (call around) := by
  refine costs_callSite.bind fun site => ?_
  refine (costs_resolve around site).bind fun target => ?_
  cases target with
  | function ref arguments => exact (costs_enter _ _ _ _ _).thenProceed
  | native callee context fromStack => exact (costs_pure _).any

theorem costs_returnFrom : Costs limits .fair returnFrom := by
  have handed : Costs limits .fair returned :=
    costs_readFlag.bind fun _ => costs_pop.ite (costs_pure _)
  exact handed.bind fun result => costs_leave result

theorem costs_functions (around : Surroundings) (op : Opcode) :
    Costs around.program.limits op.price (functions around op) := by
  cases op with
  | call => exact costs_call around
  | ret => exact costs_returnFrom
  | closure => exact (costs_closure around.program).fair.thenProceed
  | callee => exact costs_frame.bind fun frame => (costs_push _).thenProceed
  | callArguments =>
    refine costs_frame.bind fun frame => ?_
    exact (costs_onStore _).loose fun array => (costs_push array).any.thenProceed
  | callKeywords =>
    refine costs_frame.bind fun frame => ?_
    exact (costs_onStore _).loose fun map => (costs_push map).any.thenProceed
  | _ => exact costs_fail _

theorem made_iteratorNext {ref : Ref} {store after : Store} {value : Bool}
    (done : StoreM.iteratorNext ref store = .ok value after) : after.made = store.made := by
  cases done
  simp only [Store.made, Store.overwrite, Array.size_modify]

theorem costs_iteration (op : Opcode) : Costs limits op.price (iteration limits op) := by
  cases op with
  | iterate =>
    refine costs_pop.bind fun value => ?_
    refine (costs_readStore _).bind fun store => ?_
    refine (costs_ofExcept _).bind fun sequence => ?_
    refine Costs.fair (costs_charge.paid fun _ => ?_)
    exact (costs_onStore _).loose fun cursor => (costs_push _).any.thenProceed
  | iteratorNext =>
    refine costs_popIterator.bind fun cursor => ?_
    refine (costs_onStore_of_made fun _ _ _ done => made_iteratorNext done).bind fun more => ?_
    exact (costs_push _).thenProceed
  | iteratorKey =>
    refine costs_popIterator.bind fun cursor => ?_
    exact (costs_readStore _).bind fun key => (costs_push key).thenProceed
  | iteratorValue =>
    refine costs_popIterator.bind fun cursor => ?_
    exact (costs_readStore _).bind fun value => (costs_push value).thenProceed
  | _ => exact costs_fail _

/-- Whatever the operation, its charges are in a ledger, and it pays its price. -/
theorem costs_execute (around : Surroundings) (op : Opcode) :
    Costs around.program.limits op.price (execute around op) := by
  rcases execute_cases around op with same | same | same | same | same | same <;> rw [same]
  · exact costs_access _ op
  · exact costs_operator op
  · exact costs_control op
  · exact costs_containers op
  · exact costs_functions around op
  · exact costs_iteration op

theorem costs_observe : Costs limits .fair observe := by
  refine costs_of_blind fun world machine => ?_
  have same (budget : Int) :
      Machine.expiry? world.store { machine with budget } = machine.expiry? world.store := rfl
  by_cases aborting : world.aborting = true
  · simp [observe, Active.withBudget, rebudget, final, aborting]
  · cases expired : machine.expiry? world.store with
    | some fault => simp [observe, Active.withBudget, rebudget, final, aborting, same, expired]
    | none => simp [observe, Active.withBudget, rebudget, final, aborting, same, expired]

theorem costs_fetch : Costs limits .fair fetch := by
  refine costs_of_blind fun world machine => ?_
  cases found : machine.code[machine.ip]? with
  | none => simp [fetch, Active.withBudget, rebudget, final, found]
  | some byte =>
    cases known : Opcode.ofByte? byte with
    | none => simp [fetch, Active.withBudget, rebudget, final, found, known]
    | some op => simp [fetch, Active.withBudget, rebudget, final, found, known]

theorem costs_step (around : Surroundings) :
    Costs around.program.limits .any (step around) := by
  refine costs_observe.bind fun _ => ?_
  exact costs_fetch.bind fun op => (costs_execute around op).any

theorem costs_finishNative (start : Nat) (fromStack : Bool) (result : Value) :
    Costs limits .charged (finishNative limits start fromStack result) := by
  refine (costs_require _).bind fun _ => ?_
  refine (costs_dropTo _).bind fun _ => ?_
  exact costs_charge.paid fun _ => (costs_setTop result).any.ite (costs_push result).any

theorem costs_resume (pending : Pending) (result : Except Fault Value) :
    Costs limits pending.price (resume limits pending result) := by
  refine (costs_ofExcept result).bind fun value => ?_
  cases pending with
  | push held => exact (costs_push value).thenProceed
  | walk assignment rest held => exact costs_walk assignment value rest
  | finish held => exact costs_pure _
  | native start fromStack => exact (costs_finishNative start fromStack value).fair.thenProceed
  | host => exact costs_pure _

end Act

end ScriptMachine
