import ScriptMachine.Proofs.CallSafety

/-! Every instruction is made of moves and uses no slot that is missing, whatever the bytes of the
code are. -/

namespace ScriptMachine.Act

variable {limits : Limits} {size : Nat}

theorem travels_localSlot :
    Travels limits size (fun _ => True) localSlot fun index _ => index < size := by
  refine safe_readByte.bind fun index => ?_
  refine quiet_frame.bind fun frame _ => ?_
  apply Travels.readMachine
  intro slots
  apply Travels.ite
  · intro inside
    apply Travels.assuming (slots = size)
    · intro machine sound known
      obtain ⟨-, rfl⟩ := known
      exact sound.slots
    · rintro rfl
      exact .pure fun _ _ => inside
  · intro _
    exact .fail _

theorem steps_atLocal {rest : Nat → Act Next}
    (next : ∀ index, index < size → Steps limits size (rest index)) :
    Steps limits size (localSlot >>= rest) :=
  travels_localSlot.bind fun index active sound inside => next index inside active sound trivial

theorem quiet_unboxed (value : Value) : Quiet size (unboxed value) := by
  unfold unboxed
  split
  · exact quiet_readStore _
  · exact .pure trivial

theorem quiet_freeBox (index : Nat) : Quiet size (freeBox index) := by
  refine quiet_frame.chain fun frame _ => ?_
  split
  · exact .pure trivial
  · exact still_fail _

theorem quiet_global (index : Nat) : Quiet size (global index) := by
  intro active _
  simp only [global]
  cases active.world.globals[index]? with
  | some value => exact ⟨rfl, trivial⟩
  | none => exact ⟨by simp, rfl⟩

theorem quiet_setGlobal (index : Nat) (value : Value) : Quiet size (setGlobal index value) := by
  intro active _
  obtain ⟨⟨store, globals, aborting⟩, machine⟩ := active
  by_cases inside : index < globals.size
  · simp only [setGlobal, if_pos inside]
    exact ⟨trivial, trivial⟩
  · simp only [setGlobal, if_neg inside]
    exact ⟨by simp, trivial⟩

/-- Walking along selectors leaves the machine alone and waits for accessors only. -/
theorem steps_walk (assignment : Assignment) (container : Value) (rest : List Value) :
    Steps limits size (walk assignment container rest) := by
  induction rest generalizing container with
  | nil =>
    refine (quiet_onStore _).bind fun answer _ => ?_
    cases answer with
    | value value => exact .pure fun _ _ => trivial
    | call property request => exact .pure fun _ _ => trivial
  | cons selector rest ih =>
    refine (quiet_onStore _).bind fun answer _ => ?_
    cases answer with
    | value next => exact ih next
    | call property request => exact .pure fun _ _ => trivial

theorem steps_assignPath (target : Value) (count : Nat) :
    Steps limits size (assignPath target count) := by
  refine (safe_popMany count).bind fun selectors => ?_
  refine safe_pop.bind fun value => ?_
  split
  · exact .failHere
  · exact steps_walk _ _ _

theorem steps_pushIndexed (target index : Value) : Steps limits size (pushIndexed target index) := by
  refine (quiet_onStore _).bind fun answer _ => ?_
  cases answer with
  | value value => exact (safe_push value).thenProceed
  | call property request => exact .pure fun _ _ => trivial

theorem safe_popIterator : Safe limits size popIterator := by
  refine safe_pop.bind fun value => ?_
  split
  · exact .pure fun _ _ => trivial
  · exact (quiet_readStore _).bind fun _ _ => .fail _

theorem safe_closure (program : Program) : Safe limits size (closure program) := by
  refine safe_readPair.bind fun index => ?_
  refine safe_readByte.bind fun count => ?_
  split
  next ref _ =>
    refine (quiet_readStore _).bind fun callee _ => ?_
    refine (safe_popMany count).bind fun values => ?_
    refine (quiet_onStore _).bind fun free _ => ?_
    refine (safe_charge _).bind fun _ => ?_
    exact (quiet_onStore _).bind fun ref _ => safe_push _
  · exact (quiet_readStore _).bind fun _ _ => .fail _
  · exact .failHere

theorem steps_access (program : Program) (op : Opcode) :
    Steps limits size (access program op) := by
  cases op with
  | constant =>
    refine safe_readPair.bind fun index => ?_
    split
    · exact (safe_push _).thenProceed
    · exact .failHere
  | pushUndefined => exact (safe_push _).thenProceed
  | pushDefault => exact (safe_push _).thenProceed
  | pushTrue => exact (safe_push _).thenProceed
  | pushFalse => exact (safe_push _).thenProceed
  | pop => exact safe_pop.bind fun _ => .pure fun _ _ => trivial
  | getGlobal =>
    refine safe_readPair.bind fun index => ?_
    exact (quiet_global index).bind fun value _ => (safe_push value).thenProceed
  | setGlobal =>
    refine safe_readPair.bind fun index => ?_
    refine safe_pop.bind fun value => ?_
    exact (quiet_setGlobal index value).bind fun _ _ => .pure fun _ _ => trivial
  | setGlobalPath =>
    refine safe_readPair.bind fun index => ?_
    refine safe_readByte.bind fun count => ?_
    exact (quiet_global index).bind fun target _ => steps_assignPath target count
  | getLocal =>
    refine steps_atLocal fun index inside => ?_
    refine (quiet_slot inside).bind fun held _ => ?_
    exact (quiet_unboxed held).bind fun value _ => (safe_push value).thenProceed
  | setLocal =>
    refine steps_atLocal fun index inside => ?_
    refine safe_pop.bind fun value => ?_
    refine (quiet_slot inside).bind fun held _ => ?_
    split
    · exact (quiet_onStore _).bind fun _ _ => .pure fun _ _ => trivial
    · exact (safe_setSlot inside value).thenProceed
  | defineLocal =>
    refine steps_atLocal fun index inside => ?_
    exact safe_pop.bind fun value => (safe_setSlot inside value).thenProceed
  | setLocalPath =>
    refine steps_atLocal fun index inside => ?_
    refine safe_readByte.bind fun count => ?_
    refine (quiet_slot inside).bind fun held _ => ?_
    exact (quiet_unboxed held).bind fun target _ => steps_assignPath target count
  | getLocalBox =>
    refine steps_atLocal fun index inside => ?_
    refine (quiet_slot inside).bind fun held _ => ?_
    split
    · exact (safe_push _).thenProceed
    · refine (quiet_onStore _).bind fun box _ => ?_
      exact (safe_setSlot inside _).bind fun _ => (safe_push _).thenProceed
  | getBuiltin =>
    refine safe_readByte.bind fun index => ?_
    split
    · exact (safe_push _).thenProceed
    · exact .failHere
  | getFree =>
    refine safe_readByte.bind fun index => ?_
    refine (quiet_freeBox index).bind fun box _ => ?_
    exact (quiet_readStore _).bind fun value _ => (safe_push value).thenProceed
  | setFree =>
    refine safe_readByte.bind fun index => ?_
    refine safe_pop.bind fun value => ?_
    refine (quiet_freeBox index).bind fun box _ => ?_
    exact (quiet_onStore _).bind fun _ _ => .pure fun _ _ => trivial
  | getFreeBox =>
    refine safe_readByte.bind fun index => ?_
    exact (quiet_freeBox index).bind fun box _ => (safe_push _).thenProceed
  | setFreePath =>
    refine safe_readByte.bind fun index => ?_
    refine safe_readByte.bind fun count => ?_
    refine (quiet_freeBox index).bind fun box _ => ?_
    exact (quiet_readStore _).bind fun target _ => steps_assignPath target count
  | _ => exact .fail _

theorem steps_operator (budget : Limits) (op : Opcode) :
    Steps limits size (operator budget op) := by
  cases op with
  | binary =>
    refine safe_readByte.bind fun token => ?_
    split
    · exact .failHere
    · refine safe_pop.bind fun right => ?_
      refine safe_pop.bind fun left => ?_
      exact (quiet_onStore _).bind fun result _ => (safe_pushCharged budget result).thenProceed
  | equal =>
    refine safe_pop.bind fun right => ?_
    refine safe_pop.bind fun left => ?_
    exact (quiet_readStore _).bind fun same _ => (safe_push _).thenProceed
  | notEqual =>
    refine safe_pop.bind fun right => ?_
    refine safe_pop.bind fun left => ?_
    exact (quiet_readStore _).bind fun same _ => (safe_push _).thenProceed
  | logicalNot =>
    refine safe_pop.bind fun value => ?_
    exact (quiet_readStore _).bind fun falsy _ => (safe_push _).thenProceed
  | complement =>
    refine safe_pop.bind fun value => ?_
    refine (quiet_readStore _).bind fun outcome _ => ?_
    exact (quiet_ofExcept outcome).bind fun result _ => (safe_pushCharged budget result).thenProceed
  | negate =>
    refine safe_pop.bind fun value => ?_
    refine (quiet_readStore _).bind fun outcome _ => ?_
    exact (quiet_ofExcept outcome).bind fun result _ => (safe_pushCharged budget result).thenProceed
  | _ => exact .fail _

theorem steps_control (op : Opcode) : Steps limits size (control op) := by
  cases op with
  | jump => exact safe_readPair.bind fun target => (safe_jumpTo target).thenProceed
  | jumpFalsy =>
    refine safe_readPair.bind fun target => ?_
    refine safe_pop.bind fun value => ?_
    refine (quiet_readStore _).bind fun falsy _ => ?_
    apply Travels.ite
    · intro _
      exact (safe_jumpTo target).thenProceed
    · intro _
      exact .pure fun _ _ => trivial
  | andJump =>
    refine safe_readPair.bind fun target => ?_
    refine quiet_top.bind fun value _ => ?_
    refine (quiet_readStore _).bind fun falsy _ => ?_
    apply Travels.ite
    · intro _
      exact (safe_jumpTo target).thenProceed
    · intro _
      exact safe_pop.bind fun _ => .pure fun _ _ => trivial
  | orJump =>
    refine safe_readPair.bind fun target => ?_
    refine quiet_top.bind fun value _ => ?_
    refine (quiet_readStore _).bind fun falsy _ => ?_
    apply Travels.ite
    · intro _
      exact safe_pop.bind fun _ => .pure fun _ _ => trivial
    · intro _
      exact (safe_jumpTo target).thenProceed
  | suspend => exact .pure fun _ _ => trivial
  | _ => exact .fail _

theorem steps_containers (budget : Limits) (op : Opcode) :
    Steps limits size (containers budget op) := by
  cases op with
  | array =>
    refine safe_readPair.bind fun count => ?_
    refine (safe_popMany count).bind fun elements => ?_
    refine (safe_charge budget).bind fun _ => ?_
    exact (quiet_onStore _).bind fun array _ => (safe_push array).thenProceed
  | map =>
    refine safe_readPair.bind fun count => ?_
    refine (safe_popMany count).bind fun elements => ?_
    refine (quiet_readStore _).bind fun store _ => ?_
    refine (quiet_ofExcept _).bind fun entries _ => ?_
    refine (safe_charge budget).bind fun _ => ?_
    exact (quiet_onStore _).bind fun map _ => (safe_push map).thenProceed
  | error =>
    refine safe_pop.bind fun value => ?_
    refine (safe_charge budget).bind fun _ => ?_
    exact (quiet_onStore _).bind fun error _ => (safe_push error).thenProceed
  | freeze =>
    refine safe_pop.bind fun value => ?_
    split
    · exact (safe_pushCharged budget _).thenProceed
    · exact (safe_pushCharged budget _).thenProceed
    · exact (safe_push _).thenProceed
  | index =>
    refine safe_pop.bind fun index => ?_
    exact safe_pop.bind fun target => steps_pushIndexed target index
  | slice =>
    refine safe_pop.bind fun high => ?_
    refine safe_pop.bind fun low => ?_
    refine safe_pop.bind fun target => ?_
    exact (quiet_onStore _).bind fun part _ => (safe_pushCharged budget part).thenProceed
  | _ => exact .fail _

theorem steps_functions (around : Surroundings) (op : Opcode) :
    Steps around.program.limits size (functions around op) := by
  cases op with
  | call => exact steps_call around
  | ret => exact steps_returnFrom
  | closure => exact (safe_closure around.program).thenProceed
  | callee => exact quiet_frame.bind fun frame _ => (safe_push _).thenProceed
  | callArguments =>
    refine quiet_frame.bind fun frame _ => ?_
    exact (quiet_onStore _).bind fun array _ => (safe_push array).thenProceed
  | callKeywords =>
    refine quiet_frame.bind fun frame _ => ?_
    exact (quiet_onStore _).bind fun map _ => (safe_push map).thenProceed
  | _ => exact .fail _

theorem steps_iteration (budget : Limits) (op : Opcode) :
    Steps limits size (iteration budget op) := by
  cases op with
  | iterate =>
    refine safe_pop.bind fun value => ?_
    refine (quiet_readStore _).bind fun store _ => ?_
    refine (quiet_ofExcept _).bind fun sequence _ => ?_
    refine (safe_charge budget).bind fun _ => ?_
    exact (quiet_onStore _).bind fun cursor _ => (safe_push _).thenProceed
  | iteratorNext =>
    refine safe_popIterator.bind fun cursor => ?_
    exact (quiet_onStore _).bind fun more _ => (safe_push _).thenProceed
  | iteratorKey =>
    refine safe_popIterator.bind fun cursor => ?_
    exact (quiet_readStore _).bind fun key _ => (safe_push key).thenProceed
  | iteratorValue =>
    refine safe_popIterator.bind fun cursor => ?_
    exact (quiet_readStore _).bind fun value _ => (safe_push value).thenProceed
  | _ => exact .fail _

theorem steps_execute (around : Surroundings) (op : Opcode) :
    Steps around.program.limits size (execute around op) := by
  rcases execute_cases around op with same | same | same | same | same | same <;> rw [same]
  · exact steps_access _ op
  · exact steps_operator _ op
  · exact steps_control op
  · exact steps_containers _ op
  · exact steps_functions around op
  · exact steps_iteration _ op

theorem quiet_observe : Quiet size observe := by
  intro active _
  obtain ⟨world, machine⟩ := active
  simp only [observe]
  by_cases aborting : world.aborting = true
  · simp only [if_pos aborting]
    exact ⟨by simp, trivial⟩
  · simp only [if_neg aborting]
    cases machine.expiry? world.store with
    | some fault => exact ⟨by simp, rfl⟩
    | none => exact ⟨rfl, trivial⟩

theorem safe_fetch : Safe limits size fetch := by
  intro active _ _
  obtain ⟨world, machine⟩ := active
  simp only [fetch]
  cases machine.code[machine.ip]? with
  | none => exact ⟨by simp, .single (.seek machine.ip machine.ip (Nat.le_succ _))⟩
  | some byte =>
    simp only
    cases Opcode.ofByte? byte with
    | none => exact ⟨by simp, .single (.seek (machine.ip + 1) machine.ip (Nat.le_succ _))⟩
    | some op => exact ⟨.single (.seek (machine.ip + 1) machine.ip (Nat.le_succ _)), trivial⟩

theorem steps_step (around : Surroundings) : Steps around.program.limits size (step around) := by
  refine quiet_observe.bind fun _ _ => ?_
  exact safe_fetch.bind fun op => steps_execute around op

/-- A native call that has been answered goes off the stack, and its result has a slot there. -/
theorem travels_finishNative (budget : Limits) (start : Nat) (fromStack : Bool) (result : Value) :
    Travels limits size (fun machine => (Pending.native start fromStack).Ready machine.sp)
      (finishNative budget start fromStack result) fun _ _ => True := by
  apply Travels.assuming (1 ≤ start ∧ (fromStack = true → 2 ≤ start))
  · exact fun _ _ ready => ⟨ready.1, ready.2.2⟩
  intro known
  obtain ⟨base, room⟩ := known
  refine (quiet_require base).bind fun _ _ => ?_
  have dropped : Travels limits size (fun machine => (Pending.native start fromStack).Ready machine.sp)
      (dropTo (start - 1)) fun _ machine => machine.sp = start - 1 :=
    travels_dropTo.weaken (fun machine ready => Nat.le_trans (Nat.sub_le _ _) ready.2.1)
      fun _ _ reached => reached
  refine dropped.bind fun _ => ?_
  refine (travels_charge budget fun _ _ kept => kept).bind fun _ => ?_
  apply Travels.ite
  · intro taken
    have below := room taken
    exact travels_setTop.weaken (fun machine reached => by omega) fun _ _ _ => trivial
  · intro _
    exact (safe_push result).weaken (fun _ _ => trivial) fun _ _ _ => trivial

theorem travels_resume (budget : Limits) (pending : Pending) (result : Except Fault Value) :
    Travels limits size (fun machine => pending.Ready machine.sp) (resume budget pending result)
      fun next machine => next.Ready machine := by
  refine (quiet_ofExcept result).bind fun value _ => ?_
  cases pending with
  | push held => exact (safe_push value).thenProceed
  | walk assignment rest held => exact steps_walk assignment value rest
  | finish held => exact .pure fun _ _ => trivial
  | native start fromStack =>
    exact (travels_finishNative budget start fromStack value).bind fun _ => .pure fun _ _ => trivial
  | host => exact fun _ _ impossible => impossible.elim

end ScriptMachine.Act
