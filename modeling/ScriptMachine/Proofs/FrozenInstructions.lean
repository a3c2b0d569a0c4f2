import ScriptMachine.Proofs.FrozenMachines

/-! Every instruction keeps out of a vault: none makes another handle of a frozen one. -/

namespace ScriptMachine.Act

variable {vault : Vault}

section Selectors

variable {assignment : Assignment}

theorem guards_walk (avoids : ∀ value ∈ assignment.values, value.Avoids vault) {container : Value}
    (known : container.Avoids vault) {rest : List Value} (others : ∀ value ∈ rest, value.Avoids vault) :
    Guards vault (walk assignment container rest) (Next.Avoids vault) := by
  have assigned : assignment.value.Avoids vault := avoids _ List.mem_cons_self
  induction rest generalizing container with
  | nil =>
    apply (guards_onStore (StoreM.guards_indexSet known assignment.last assigned)).bind
    intro answer answered
    cases answer with
    | value _ => exact .pure trivial
    | call property request =>
      apply Maintains.pure
      refine ⟨answered.2, List.forall_mem_cons.mpr ⟨known, List.forall_mem_cons.mpr ⟨answered.1, ?_⟩⟩⟩
      intro selector member
      exact avoids selector (List.mem_cons_of_mem _ (List.mem_cons_of_mem _ member))
  | cons selector rest ih =>
    have later := (List.forall_mem_cons.mp others).2
    apply (guards_onStore (StoreM.guards_indexGet known selector)).bind
    intro answer answered
    cases answer with
    | value next => exact ih answered later
    | call property request =>
      apply Maintains.pure
      refine ⟨answered.2, ?_⟩
      intro value member
      simp only [Pending.values, List.mem_append, List.mem_cons, List.not_mem_nil, or_false] at member
      rcases member with (held | walked) | rfl | rfl
      · exact avoids value held
      · exact later value walked
      · exact known
      · exact answered.1

theorem guards_assignPath {target : Value} (avoids : target.Avoids vault) (count : Nat) :
    Guards vault (assignPath target count) (Next.Avoids vault) := by
  apply (guards_popMany count).bind
  intro selectors known
  apply guards_pop.bind
  intro value assigned
  split
  · exact guards_failHere
  next last rest spelled =>
    have listed : ∀ value ∈ last :: rest, value.Avoids vault := fun value member =>
      known value (Array.mem_toList_iff.mp (spelled ▸ member))
    have both := List.forall_mem_cons.mp listed
    apply guards_walk _ avoids
    · exact fun value member => both.2 value (List.mem_reverse.mp member)
    · exact List.forall_mem_cons.mpr ⟨assigned, List.forall_mem_cons.mpr ⟨both.1, listed⟩⟩

theorem guards_pushIndexed {target index : Value} (avoids : target.Avoids vault)
    (known : index.Avoids vault) :
    Guards vault (pushIndexed target index) (Next.Avoids vault) := by
  apply (guards_onStore (StoreM.guards_indexGet avoids index)).bind
  intro answer answered
  cases answer with
  | value held => exact (guards_push answered).bind fun _ _ => .pure trivial
  | call property request =>
    apply Maintains.pure
    refine ⟨answered.2, ?_⟩
    intro value member
    simp only [Pending.values, List.mem_cons, List.not_mem_nil, or_false] at member
    rcases member with rfl | rfl | rfl
    · exact avoids
    · exact known
    · exact answered.1

end Selectors

section Calls

theorem avoids_pairUp {store : Store} {values : List Value} {table entries : Table Value}
    (known : table.All (Value.Avoids vault)) (avoids : ∀ value ∈ values, value.Avoids vault)
    (done : pairUp store table values = .ok entries) : entries.All (Value.Avoids vault) := by
  fun_induction pairUp store table values with
  | case1 => cases done; exact known
  | case2 => cases done
  | case3 table first key value rest _ ih =>
    have both := List.forall_mem_cons.mp (List.forall_mem_cons.mp avoids).2
    exact ih (known.insert key both.1) both.2 done
  | case4 table first key _ =>
    cases done
    exact known.insert key Value.avoids_undefined

theorem guards_closure {program : Program} (avoids : program.Avoids vault) :
    Guards vault (closure program) fun _ => True := by
  apply guards_readPair.bind
  intro index _
  apply guards_readByte.bind
  intro count _
  split
  next other found =>
    have constant : vault.Free other := avoids.constants _ (Array.mem_of_getElem? found)
    apply readStore_bind
    intro store kept
    apply (guards_popMany count).bind
    intro values known
    apply Maintains.bind (guards_onStore (StoreM.guards_captured fun value member =>
      known value (Array.mem_toList_iff.mp member)))
    intro boxes free
    apply (guards_charge _).bind
    intro _ _
    apply Maintains.bind (guards_onStore (StoreM.guards_newFunction (kept.function constant.live).code
      fun box member => free box (List.mem_toArray.mp member)))
    intro made free
    exact guards_push free
  · apply readStore_bind
    intro store _
    exact guards_fail _
  · exact guards_failHere

theorem guards_spread {value : Value} (avoids : value.Avoids vault) :
    Guards vault (spread value) fun elements => ∀ value ∈ elements, value.Avoids vault := by
  unfold spread
  split
  · exact fun active kept => ⟨kept, kept.world.store.elements avoids.array_live⟩
  · apply readStore_bind
    intro store _
    exact guards_fail _

theorem guards_gatherKeywords {keywords : Table Value} (known : keywords.All (Value.Avoids vault))
    {values : List Value} (avoids : ∀ value ∈ values, value.Avoids vault) :
    Guards vault (gatherKeywords keywords values) (Table.All (Value.Avoids vault)) := by
  fun_induction gatherKeywords keywords values with
  | case1 => exact .pure known
  | case2 keywords handle other rest ih =>
    obtain ⟨first, others⟩ := List.forall_mem_cons.mp avoids
    apply readStore_bind
    intro store kept
    exact ih _ (known.insertAll (kept.entries first.map_live).entries) others
  | case3 keywords rest ih => exact ih known (List.forall_mem_cons.mp avoids).2
  | case4 =>
    apply readStore_bind
    intro store _
    exact guards_fail _

theorem guards_spreadArguments (spreads : Bool) (index : Nat) :
    Guards vault (spreadArguments spreads index) fun elements =>
      ∀ value ∈ elements, value.Avoids vault := by
  apply Maintains.ite
  · intro _
    exact (guards_slot index).bind fun _ known => guards_spread known
  · intro _
    exact .pure (by simp)

theorem guards_argumentStart (arity : Nat) :
    Guards vault (argumentStart arity) fun _ => True := by
  apply readMachine_bind
  intro machine _
  exact Maintains.ite (fun _ => guards_fail _) fun _ => .pure trivial

theorem guards_requireCallable (callee : Value) :
    Guards vault (requireCallable callee) fun _ => True := by
  apply Maintains.ite
  · intro _
    exact .pure trivial
  · intro _
    apply readStore_bind
    intro store _
    exact guards_fail _

structure CallSite.Avoids (vault : Vault) (site : CallSite) : Prop where
  callee : site.callee.Avoids vault
  arguments : ∀ value ∈ site.arguments, value.Avoids vault
  keywords : site.keywords.All (Value.Avoids vault)

theorem guards_callSite : Guards vault callSite (CallSite.Avoids vault) := by
  apply guards_readByte.bind
  intro count _
  apply guards_readFlag.bind
  intro spreads _
  apply guards_readFlag.bind
  intro keyed _
  apply guards_readFlag.bind
  intro catches _
  apply (guards_argumentStart _).bind
  intro start _
  apply (guards_slot _).bind
  intro callee known
  apply (guards_requireCallable callee).bind
  intro _ _
  apply (guards_slots _ _).bind
  intro positional first
  apply (guards_spreadArguments spreads _).bind
  intro more second
  apply readMachine_bind
  intro machine _
  apply (guards_slots _ _).bind
  intro maps listed
  apply Maintains.bind (guards_gatherKeywords .empty fun value member =>
    listed value (Array.mem_toList_iff.mp member))
  intro keywords third
  exact .pure ⟨known, Value.avoids_append first second, third⟩

def CallTarget.Avoids (vault : Vault) : CallTarget → Prop
  | .function callee arguments => vault.Free callee ∧ ∀ value ∈ arguments, value.Avoids vault
  | .native callee context _ => callee.Avoids vault ∧ context.Avoids vault

theorem guards_resolve {around : Surroundings} (respects : around.Respects vault) {site : CallSite}
    (avoids : site.Avoids vault) :
    Guards vault (resolve around site) (CallTarget.Avoids vault) := by
  have callee := avoids.callee
  unfold resolve
  split
  next other named =>
    rw [named] at callee
    exact .pure ⟨callee, avoids.arguments⟩
  next hold other value named =>
    rw [named] at callee
    apply (guards_receiver respects callee).bind
    intro receiver received
    apply Maintains.pure
    refine ⟨callee.1, Value.avoids_append ?_ avoids.arguments⟩
    simpa using received
  next hold native value _ named =>
    rw [named] at callee
    apply (guards_receiver respects callee).bind
    intro receiver received
    apply Maintains.pure
    refine ⟨callee.1, avoids.arguments, avoids.keywords, ?_⟩
    simpa using received
  · apply readStore_bind
    intro store _
    apply Maintains.ite
    · intro _
      apply (guards_slot _).bind
      intro receiver received
      apply Maintains.pure
      refine ⟨callee, avoids.arguments, avoids.keywords, ?_⟩
      simpa using received
    · intro _
      apply Maintains.pure
      exact ⟨callee, avoids.arguments, avoids.keywords, fun _ member => nomatch member⟩

theorem guards_changeUnless {stop? : Machine → Option Stop} {change : Machine → Machine}
    (keeps : ∀ machine : Machine, machine.Avoids vault → (change machine).Avoids vault) :
    Guards vault (changeUnless stop? change) fun _ => True := by
  intro ⟨world, machine⟩ kept
  unfold changeUnless
  dsimp only
  split
  · exact kept
  · exact ⟨⟨kept.world, keeps machine kept.machine⟩, trivial⟩

theorem guards_enter (limits : Limits) {function : Ref} (free : vault.Free function)
    {arguments : Array Value} {keywords : Table Value}
    (given : ∀ value ∈ arguments, value.Avoids vault) (keyed : keywords.All (Value.Avoids vault))
    (start : Nat) :
    Guards vault (enter limits function arguments keywords start) fun _ => True := by
  apply readStore_bind
  intro store kept
  have callee := kept.function free.live
  apply (guards_onStore (StoreM.guards_bindArguments callee.code given keyed)).bind
  intro parameters bound
  apply readMachine_bind
  intro machine _
  apply Maintains.ite
  · intro _
    unfold reenterFrame
    exact guards_changeUnless fun _ avoids => avoids.restartFrame _ bound given keyed
  · intro _
    have entered : ((store.function function).frame function arguments keywords start).Avoids vault :=
      ⟨fun _ member => by cases member; exact free, callee.code, callee.free, given, keyed⟩
    unfold enterFrame
    exact guards_changeUnless fun _ avoids => avoids.pushFrame entered bound

theorem guards_call {around : Surroundings} (respects : around.Respects vault) :
    Guards vault (call around) (Next.Avoids vault) := by
  apply guards_callSite.bind
  intro site avoids
  apply (guards_resolve respects avoids).bind
  intro target resolved
  cases target with
  | function callee arguments =>
    apply (guards_enter _ resolved.1 resolved.2 avoids.keywords _).bind
    intro _ _
    exact .pure trivial
  | native callee context fromStack => exact .pure ⟨resolved, fun _ member => nomatch member⟩

theorem guards_leave {result : Value} (avoids : result.Avoids vault) :
    Guards vault (leave result) (Next.Avoids vault) := by
  apply readMachine_bind
  intro machine _
  apply Maintains.ite
  · intro _
    exact .pure trivial
  · intro _
    apply (guards_changeUnless fun _ known => known.popFrame avoids).bind
    intro _ _
    exact .pure trivial

theorem guards_returnFrom : Guards vault returnFrom (Next.Avoids vault) := by
  have handed : Guards vault returned (Value.Avoids vault) := by
    apply guards_readFlag.bind
    intro flag _
    exact Maintains.ite (fun _ => guards_pop) fun _ => .pure trivial
  exact handed.bind fun _ known => guards_leave known

end Calls

section Operations

theorem guards_popIterator : Guards vault popIterator vault.Free := by
  apply guards_pop.bind
  intro value known
  split
  · exact .pure known
  · apply readStore_bind
    intro store _
    exact guards_fail _

theorem guards_thenProceed {act : Act Unit} (guards : Guards vault act fun _ => True) :
    Guards vault (thenProceed act) (Next.Avoids vault) :=
  guards.bind fun _ _ => .pure trivial

theorem guards_pushBool (flag : Bool) :
    Guards vault (thenProceed (push (.bool flag))) (Next.Avoids vault) :=
  guards_thenProceed (guards_push (show (Value.bool flag).Avoids vault from trivial))

theorem guards_access {program : Program} (avoids : program.Avoids vault) (op : Opcode) :
    Guards vault (access program op) (Next.Avoids vault) := by
  cases op with
  | constant =>
    apply guards_readPair.bind
    intro index _
    split
    next value found =>
      exact guards_thenProceed (guards_push (avoids.constants value (Array.mem_of_getElem? found)))
    · exact guards_failHere
  | pushUndefined => exact guards_thenProceed (guards_push Value.avoids_undefined)
  | pushDefault =>
    exact guards_thenProceed (guards_push (show Value.useDefault.Avoids vault from trivial))
  | pushTrue => exact guards_pushBool true
  | pushFalse => exact guards_pushBool false
  | pop => exact guards_pop.bind fun _ _ => .pure trivial
  | getGlobal =>
    apply guards_readPair.bind
    intro index _
    apply (guards_global index).bind
    intro value known
    exact guards_thenProceed (guards_push known)
  | setGlobal =>
    apply guards_readPair.bind
    intro index _
    apply guards_pop.bind
    intro value known
    exact guards_thenProceed (guards_setGlobal index known)
  | setGlobalPath =>
    apply guards_readPair.bind
    intro index _
    apply guards_readByte.bind
    intro count _
    apply (guards_global index).bind
    intro value known
    exact guards_assignPath known count
  | getLocal =>
    apply guards_localSlot.bind
    intro index _
    apply (guards_slot index).bind
    intro value known
    apply (guards_unboxed known).bind
    intro held there
    exact guards_thenProceed (guards_push there)
  | setLocal =>
    apply guards_localSlot.bind
    intro index _
    apply guards_pop.bind
    intro value known
    apply (guards_slot index).bind
    intro old there
    split
    · exact guards_thenProceed (guards_onStore (StoreM.guards_write there (.box known)))
    · exact guards_thenProceed (guards_setSlot index known)
  | defineLocal =>
    apply guards_localSlot.bind
    intro index _
    apply guards_pop.bind
    intro value known
    exact guards_thenProceed (guards_setSlot index known)
  | setLocalPath =>
    apply guards_localSlot.bind
    intro index _
    apply guards_readByte.bind
    intro count _
    apply (guards_slot index).bind
    intro value known
    apply (guards_unboxed known).bind
    intro held there
    exact guards_assignPath there count
  | getLocalBox =>
    apply guards_localSlot.bind
    intro index _
    apply (guards_slot index).bind
    intro value known
    split
    · exact guards_thenProceed (guards_push known)
    · apply Maintains.bind (guards_onStore (StoreM.guards_alloc (.box known)))
      intro made free
      have boxed : (Value.box made).Avoids vault := free
      apply (guards_setSlot index boxed).bind
      intro _ _
      exact guards_thenProceed (guards_push boxed)
  | getBuiltin =>
    apply guards_readByte.bind
    intro index _
    split
    next value found =>
      exact guards_thenProceed (guards_push (avoids.builtins value (Array.mem_of_getElem? found)))
    · exact guards_failHere
  | getFree =>
    apply guards_readByte.bind
    intro index _
    apply (guards_freeBox index).bind
    intro box free
    apply readStore_bind
    intro store kept
    exact guards_thenProceed (guards_push (kept.boxed free.live))
  | setFree =>
    apply guards_readByte.bind
    intro index _
    apply guards_pop.bind
    intro value known
    apply (guards_freeBox index).bind
    intro box free
    exact guards_thenProceed (guards_onStore (StoreM.guards_write free (.box known)))
  | getFreeBox =>
    apply guards_readByte.bind
    intro index _
    apply (guards_freeBox index).bind
    intro box free
    exact guards_thenProceed (guards_push (show (Value.box box).Avoids vault from free))
  | setFreePath =>
    apply guards_readByte.bind
    intro index _
    apply guards_readByte.bind
    intro count _
    apply (guards_freeBox index).bind
    intro box free
    apply readStore_bind
    intro store kept
    exact guards_assignPath (kept.boxed free.live) count
  | _ => exact guards_fail _

theorem guards_operator (limits : Limits) (op : Opcode) :
    Guards vault (operator limits op) (Next.Avoids vault) := by
  cases op with
  | binary =>
    apply guards_readByte.bind
    intro token _
    split
    · exact guards_failHere
    next operator _ =>
      apply guards_pop.bind
      intro right second
      apply guards_pop.bind
      intro left first
      apply (guards_onStore (Value.guards_binary operator first second)).bind
      intro result known
      exact guards_thenProceed (guards_pushCharged limits known)
  | equal | notEqual =>
    apply guards_pop.bind
    intro right _
    apply guards_pop.bind
    intro left _
    apply readStore_bind
    intro store _
    exact guards_pushBool _
  | logicalNot =>
    apply guards_pop.bind
    intro value _
    apply readStore_bind
    intro store _
    exact guards_pushBool _
  | complement =>
    apply guards_pop.bind
    intro value _
    apply readStore_bind
    intro store _
    apply Maintains.bind (guards_ofExcept fun _ => Value.avoids_complement)
    intro result known
    exact guards_thenProceed (guards_pushCharged limits known)
  | negate =>
    apply guards_pop.bind
    intro value _
    apply readStore_bind
    intro store _
    apply Maintains.bind (guards_ofExcept fun _ => Value.avoids_negative)
    intro result known
    exact guards_thenProceed (guards_pushCharged limits known)
  | _ => exact guards_fail _

theorem guards_control (op : Opcode) : Guards vault (control op) (Next.Avoids vault) := by
  have dropped : Guards vault (do let _ ← pop; return .proceed) (Next.Avoids vault) :=
    guards_pop.bind fun _ _ => .pure trivial
  cases op with
  | jump => exact guards_readPair.bind fun target _ => guards_thenProceed (guards_jumpTo target)
  | jumpFalsy =>
    apply guards_readPair.bind
    intro target _
    apply guards_pop.bind
    intro value _
    apply readStore_bind
    intro store _
    exact Maintains.ite (fun _ => guards_thenProceed (guards_jumpTo target)) fun _ => .pure trivial
  | andJump =>
    apply guards_readPair.bind
    intro target _
    apply guards_top.bind
    intro value _
    apply readStore_bind
    intro store _
    exact Maintains.ite (fun _ => guards_thenProceed (guards_jumpTo target)) fun _ => dropped
  | orJump =>
    apply guards_readPair.bind
    intro target _
    apply guards_top.bind
    intro value _
    apply readStore_bind
    intro store _
    exact Maintains.ite (fun _ => dropped) fun _ => guards_thenProceed (guards_jumpTo target)
  | suspend => exact .pure trivial
  | _ => exact guards_fail _

/-- Freezing makes a frozen handle and no other. -/
theorem guards_containers (limits : Limits) (op : Opcode) :
    Guards vault (containers limits op) (Next.Avoids vault) := by
  cases op with
  | array =>
    apply guards_readPair.bind
    intro count _
    apply (guards_popMany count).bind
    intro elements known
    apply (guards_charge limits).bind
    intro _ _
    apply (guards_onStore (StoreM.guards_newArray known .writable)).bind
    intro made free
    exact guards_thenProceed (guards_push free)
  | map =>
    apply guards_readPair.bind
    intro count _
    apply (guards_popMany count).bind
    intro elements known
    apply readStore_bind
    intro store _
    apply Maintains.bind (guards_ofExcept fun _ => avoids_pairUp .empty fun value member =>
      known value (Array.mem_toList_iff.mp member))
    intro entries paired
    apply (guards_charge limits).bind
    intro _ _
    apply (guards_onStore (StoreM.guards_newMap paired .writable)).bind
    intro made free
    exact guards_thenProceed (guards_push free)
  | error =>
    apply guards_pop.bind
    intro value known
    apply (guards_charge limits).bind
    intro _ _
    apply (guards_onStore (StoreM.guards_newError known)).bind
    intro made free
    exact guards_thenProceed (guards_push free)
  | freeze =>
    apply guards_pop.bind
    intro value known
    split
    next other =>
      have frozen : (Value.array .frozen other).Avoids vault := known.array_live
      exact guards_thenProceed (guards_pushCharged limits frozen)
    next other =>
      have frozen : (Value.map .frozen other).Avoids vault := known.map_live
      exact guards_thenProceed (guards_pushCharged limits frozen)
    · exact guards_thenProceed (guards_push known)
  | index =>
    apply guards_pop.bind
    intro index known
    apply guards_pop.bind
    intro target aimed
    exact guards_pushIndexed aimed known
  | slice =>
    apply guards_pop.bind
    intro high _
    apply guards_pop.bind
    intro low _
    apply guards_pop.bind
    intro target aimed
    apply (guards_onStore (Value.guards_slice aimed low high)).bind
    intro part known
    exact guards_thenProceed (guards_pushCharged limits known)
  | _ => exact guards_fail _

theorem guards_functions {around : Surroundings} (respects : around.Respects vault) (op : Opcode) :
    Guards vault (functions around op) (Next.Avoids vault) := by
  cases op with
  | call => exact guards_call respects
  | ret => exact guards_returnFrom
  | closure => exact guards_thenProceed (guards_closure respects.program)
  | callee =>
    apply guards_frame.bind
    intro frame known
    apply guards_thenProceed
    apply guards_push
    apply Value.avoids_getD
    intro value named
    obtain ⟨callee, running, rfl⟩ := Option.map_eq_some_iff.mp named
    exact known.function callee running
  | callArguments =>
    apply guards_frame.bind
    intro frame known
    apply (guards_onStore (StoreM.guards_newArray known.arguments .frozen)).bind
    intro made free
    exact guards_thenProceed (guards_push free)
  | callKeywords =>
    apply guards_frame.bind
    intro frame known
    apply (guards_onStore (StoreM.guards_newMap known.keywords .frozen)).bind
    intro made free
    exact guards_thenProceed (guards_push free)
  | _ => exact guards_fail _

theorem guards_iteration (limits : Limits) (op : Opcode) :
    Guards vault (iteration limits op) (Next.Avoids vault) := by
  cases op with
  | iterate =>
    apply guards_pop.bind
    intro value known
    apply readStore_bind
    intro store kept
    apply Maintains.bind (guards_ofExcept fun _ => kept.sequence known)
    intro sequence live
    apply (guards_charge limits).bind
    intro _ _
    apply (guards_onStore (StoreM.guards_alloc (.iterator live))).bind
    intro made free
    exact guards_thenProceed (guards_push (show (Value.iterator made).Avoids vault from free))
  | iteratorNext =>
    apply guards_popIterator.bind
    intro iterator free
    apply (guards_onStore (StoreM.guards_iteratorNext free)).bind
    intro inside _
    exact guards_pushBool inside
  | iteratorKey =>
    apply guards_popIterator.bind
    intro iterator _
    apply readStore_bind
    intro store _
    exact guards_thenProceed (guards_push (Cursor.avoids_key _))
  | iteratorValue =>
    apply guards_popIterator.bind
    intro iterator free
    apply readStore_bind
    intro store kept
    exact guards_thenProceed (guards_push (kept.cursorValue _ (kept.cursor free.live)))
  | _ => exact guards_fail _

theorem guards_execute {around : Surroundings} (respects : around.Respects vault) (op : Opcode) :
    Guards vault (execute around op) (Next.Avoids vault) := by
  rcases execute_cases around op with same | same | same | same | same | same <;> rw [same]
  · exact guards_access respects.program op
  · exact guards_operator _ op
  · exact guards_control op
  · exact guards_containers _ op
  · exact guards_functions respects op
  · exact guards_iteration _ op

theorem guards_observe : Guards vault observe fun _ => True := by
  intro ⟨world, machine⟩ kept
  unfold observe
  dsimp only
  split
  · exact kept
  · split
    · exact ⟨⟨kept.world.store, kept.world.globals⟩, kept.machine⟩
    · exact ⟨kept, trivial⟩

theorem guards_fetch : Guards vault fetch fun _ => True := by
  intro ⟨world, machine⟩ kept
  unfold fetch
  dsimp only
  split
  · exact ⟨kept.world, kept.machine.stack, kept.machine.frames, kept.machine.serves⟩
  · split
    · exact ⟨kept.world, kept.machine.stack, kept.machine.frames, kept.machine.serves⟩
    · exact ⟨⟨kept.world, kept.machine.stack, kept.machine.frames, kept.machine.serves⟩, trivial⟩

theorem guards_step {around : Surroundings} (respects : around.Respects vault) :
    Guards vault (step around) (Next.Avoids vault) := by
  apply guards_observe.bind
  intro _ _
  apply guards_fetch.bind
  intro op _
  exact guards_execute respects op

theorem guards_finishNative (limits : Limits) (start : Nat) (fromStack : Bool) {result : Value}
    (avoids : result.Avoids vault) :
    Guards vault (finishNative limits start fromStack result) fun _ => True := by
  apply (guards_require _).bind
  intro _ _
  apply (guards_dropTo _).bind
  intro _ _
  apply (guards_charge limits).bind
  intro _ _
  exact Maintains.ite (fun _ => guards_setTop avoids) fun _ => guards_push avoids

theorem guards_resume (limits : Limits) {pending : Pending} {result : Except Fault Value}
    (held : ∀ value ∈ pending.values, value.Avoids vault)
    (answered : ∀ value, result = .ok value → value.Avoids vault) :
    Guards vault (resume limits pending result) (Next.Avoids vault) := by
  apply (guards_ofExcept answered).bind
  intro value known
  cases pending with
  | push _ => exact guards_thenProceed (guards_push known)
  | walk assignment rest kept =>
    apply guards_walk _ known
    · exact fun value member => held value (by simp [Pending.values, member])
    · exact fun value member => held value (by simp [Pending.values, member])
  | finish _ => exact .pure trivial
  | native start fromStack => exact guards_thenProceed (guards_finishNative limits start fromStack known)
  | host => exact .pure trivial

end Operations

end ScriptMachine.Act
