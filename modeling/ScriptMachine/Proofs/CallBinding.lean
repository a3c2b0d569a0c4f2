import ScriptMachine.Proofs.ArgumentBinding
import ScriptMachine.Proofs.SelfCalls

/-! Calls as the stack spells them. The callee, its positional arguments and the operands that flags
announce stand one above the other; what the frame of the call gets is told by them alone. -/

namespace ScriptMachine

namespace Machine

variable {machine : Machine} {size frameSize : Nat} {parameters : Array Value}

def past (machine : Machine) (bytes : Nat) : Machine := { machine with ip := machine.ip + bytes }

theorem restartStop?_of_room (sound : machine.Sound size) {frame : Frame} {callers : List Frame}
    (top : machine.frames = frame :: callers) (few : parameters.size ≤ frameSize)
    (room : frame.base + frameSize ≤ machine.stack.size) :
    machine.restartStop? frameSize parameters = none := by
  simp only [restartStop?, top]
  rw [if_neg (Nat.not_lt.mpr room), if_pos (canLoad_of_fits sound few room)]

theorem pushStop?_of_room (sound : machine.Sound size) {limits : Limits} {frame : Frame}
    (few : parameters.size ≤ frame.code.frameSize) (shallow : machine.frameDepth < limits.maxFrames)
    (room : frame.base + frame.code.frameSize ≤ machine.stack.size) :
    machine.pushStop? limits frame parameters = none := by
  simp only [pushStop?]
  rw [if_neg (Nat.not_le.mpr shallow), if_neg (Nat.not_lt.mpr room),
    if_pos (canLoad_of_fits sound few room)]

end Machine

namespace Act

/-- What an operand contributes to a call. It stands on the stack only if its flag is set. -/
inductive Operand {α : Type} (reads : Value → α → Prop) (absent : α) :
    UInt8 → List Value → α → Prop where
  | missing : Operand reads absent 0 [] absent
  | given {flag : UInt8} {value : Value} {content : α} (set : flag ≠ 0) (read : reads value content) :
      Operand reads absent flag [value] content

/-- The arguments in a spread operand. -/
inductive Spreads (store : Store) : Value → Array Value → Prop where
  | array (handle : Handle) (ref : Ref) : Spreads store (.array handle ref) (store.elements ref)

/-- The keywords in a keyword operand. -/
inductive Keys (store : Store) : Value → Table Value → Prop where
  | map (handle : Handle) (ref : Ref) : Keys store (.map handle ref) (store.entries ref)
  | undefined : Keys store .undefined ∅

/-- What a callee puts before the arguments: a function nothing, a method its receiver. -/
inductive Brings (ref : Ref) : Value → Array Value → Prop where
  | function : Brings ref (.function ref) #[]
  | method (id : Nat) (hold : Hold) (value : Value) :
      Brings ref (.bound id hold (.function ref) value) #[value]

/-- A call of a function, spelled by the operands in the code and the values on top of the stack. -/
structure SpelledCall (active : Active) where
  below : List Value
  callee : Value
  ref : Ref
  receiver : Array Value
  brings : Brings ref callee receiver
  count : UInt8
  positional : List Value
  counted : positional.length = count.toNat
  spreadFlag : UInt8
  spreadSlots : List Value
  elements : Array Value
  spreads : Operand (Spreads active.world.store) #[] spreadFlag spreadSlots elements
  keyFlag : UInt8
  keySlots : List Value
  named : Table Value
  names : Operand (Keys active.world.store) ∅ keyFlag keySlots named
  catchFlag : UInt8
  catchSlots : List Value
  caught : Table Value
  catches : Operand (Keys active.world.store) ∅ catchFlag catchSlots caught
  /-- All the keywords: where both operands have one, the later operand tells its value. -/
  keywords : Table Value
  union : ∀ name, keywords.get? name = (caught.get? name).or (named.get? name)
  rest : List UInt8
  code : active.machine.code.toList.drop active.machine.ip =
    count :: spreadFlag :: keyFlag :: catchFlag :: rest
  stack : active.machine.stack.toList.take active.machine.sp =
    below ++ callee :: (positional ++ (spreadSlots ++ (keySlots ++ catchSlots)))

section Reading

variable {world : World} {machine : Machine}

theorem readByte_eq (world : World) {byte : UInt8} (found : machine.code[machine.ip]? = some byte) :
    readByte ⟨world, machine⟩ = .ok byte.toNat ⟨world, { machine with ip := machine.ip + 1 }⟩ := by
  simp only [readByte, Instruction.readByte?, found, Option.map_some]

theorem argumentStart_eq {arity : Nat} (enough : arity + 1 ≤ machine.sp) :
    argumentStart arity ⟨world, machine⟩ = .ok (machine.sp - arity) ⟨world, machine⟩ := by
  have short : ¬machine.sp < arity + 1 := Nat.not_lt.mpr enough
  simp only [argumentStart, readMachine, Bind.bind, EStateM.bind, if_neg short, Pure.pure, EStateM.pure]

theorem slot_eq {index : Nat} {value : Value} (found : machine.stack[index]? = some value) :
    slot index ⟨world, machine⟩ = .ok value ⟨world, machine⟩ := by
  simp only [slot, found]

theorem slots_eq (world : World) (first middle last : List Value)
    (stack : machine.stack.toList.take machine.sp = first ++ (middle ++ last)) :
    slots first.length (first.length + middle.length) ⟨world, machine⟩ =
      .ok middle.toArray ⟨world, machine⟩ := by
  have lengths := congrArg List.length stack
  simp only [List.length_take, List.length_append, Array.length_toList] at lengths
  have inside : first.length + middle.length ≤ machine.stack.size := by omega
  simp only [slots]
  rw [if_pos ⟨Nat.le_add_right _ _, inside⟩]
  have part : machine.stack.extract first.length (first.length + middle.length) = middle.toArray := by
    have cut : (machine.stack.toList.take machine.sp).take (first.length + middle.length) =
        first ++ middle := by
      rw [stack, ← List.append_assoc, ← List.length_append, List.take_left]
    rw [List.take_take, Nat.min_eq_left (by omega)] at cut
    rw [← Array.toList_inj, Array.toList_extract, List.extract_eq_take_drop, Nat.add_sub_cancel_left,
      List.take_drop, cut, List.drop_left]
  rw [part]

end Reading

namespace Operand

variable {α : Type} {reads : Value → α → Prop} {absent content : α} {flag : UInt8}
  {operands : List Value} {world : World} {machine : Machine}

theorem toNat_flag (operand : Operand reads absent flag operands content) :
    (decide (flag ≠ 0)).toNat = operands.length := by
  cases operand with
  | missing => rfl
  | given set _ =>
    rw [decide_eq_true set]
    rfl

theorem spreadArguments_eq {elements : Array Value}
    (spreads : Operand (Spreads world.store) #[] flag operands elements) (first last : List Value)
    (stack : machine.stack.toList.take machine.sp = first ++ (operands ++ last)) :
    spreadArguments (decide (flag ≠ 0)) first.length ⟨world, machine⟩ =
      .ok elements ⟨world, machine⟩ := by
  cases spreads with
  | missing => rfl
  | given set read =>
    cases read with
    | array handle ref =>
      rw [decide_eq_true set]
      have found : machine.stack[first.length]? = some (.array handle ref) := by
        have lengths := congrArg List.length stack
        simp only [List.length_take, List.length_append, List.length_cons] at lengths
        have slot := congrArg (·[first.length]?) stack
        simpa [List.getElem?_take_of_lt (show first.length < machine.sp by omega)] using slot
      show (slot first.length >>= spread) _ = _
      rw [bind_of_ok (slot_eq found)]
      rfl

theorem gatherKeywords_eq {table : Table Value}
    (names : Operand (Keys world.store) ∅ flag operands table) (keywords : Table Value)
    (rest : List Value) :
    gatherKeywords keywords (operands ++ rest) ⟨world, machine⟩ =
      gatherKeywords (keywords.insertAll table.entries) rest ⟨world, machine⟩ := by
  cases names with
  | missing => rfl
  | given set read =>
    cases read with
    | map handle ref => rfl
    | undefined => rfl

end Operand

section Receiver

variable {around : Surroundings} {world : World} {machine : Machine} {hold : Hold} {value : Value}

/-- Which references live is told by the stack and the frames, not by the place in the code. -/
theorem heldReceiver?_past (around : Surroundings) (world : World) (machine : Machine) (hold : Hold)
    (value : Value) (bytes : Nat) :
    receiver around hold value ⟨world, machine.past bytes⟩ =
      .ok value ⟨world, machine.past bytes⟩ ↔
    receiver around hold value ⟨world, machine⟩ = .ok value ⟨world, machine⟩ := by
  have near : (machine.past bytes).nearRefs = machine.nearRefs := rfl
  have all : (machine.past bytes).refs = machine.refs := rfl
  simp only [receiver, near, all]
  split
  · simp
  · simp

theorem receiver_gone (gone : receiver around hold value ⟨world, machine⟩ ≠ .ok value ⟨world, machine⟩) :
    receiver around hold value ⟨world, machine⟩ =
      .error (.fault .receiverGone) ⟨world, machine⟩ := by
  simp only [receiver] at gone ⊢
  split at gone
  next kept held =>
    have same : kept = value := by
      unfold Value.heldReceiver? at held
      split at held
      · split at held
        · cases held
          rfl
        · cases held
      · cases held
        rfl
    exact absurd (same ▸ rfl) gone
  next => rfl

end Receiver

namespace Brings

variable {ref : Ref} {callee : Value} {receiver : Array Value}

theorem inversion (brings : Brings ref callee receiver) :
    callee = .function ref ∧ receiver = #[] ∨
      ∃ id hold value, callee = .bound id hold (.function ref) value ∧ receiver = #[value] := by
  cases brings with
  | function => exact .inl ⟨rfl, rfl⟩
  | method id hold value => exact .inr ⟨id, hold, value, rfl, rfl⟩

theorem requireCallable_eq (brings : Brings ref callee receiver) (active : Active) :
    requireCallable callee active = .ok () active := by
  cases brings with
  | function => rfl
  | method => rfl

end Brings

namespace SpelledCall

variable {around : Surroundings} {active : Active} {size : Nat} (spelled : SpelledCall active)

def function : Function := active.world.store.function spelled.ref

def arguments : Array Value := spelled.receiver ++ (spelled.positional.toArray ++ spelled.elements)

def site : CallSite where
  start := spelled.below.length + 1
  callee := spelled.callee
  arguments := spelled.positional.toArray ++ spelled.elements
  keywords := spelled.keywords

theorem keywords_eq :
    spelled.keywords =
      ((∅ : Table Value).insertAll spelled.named.entries).insertAll spelled.caught.entries := by
  apply Table.ext
  intro name
  have none : (∅ : Table Value).get? name = none := Table.get?_empty name
  rw [spelled.union, Table.get?_insertAll_entries, Table.get?_insertAll_entries, none, Option.or_none]

theorem gatherKeywords_eq (machine : Machine) :
    gatherKeywords ∅ (spelled.keySlots ++ spelled.catchSlots) ⟨active.world, machine⟩ =
      .ok spelled.keywords ⟨active.world, machine⟩ := by
  rw [spelled.names.gatherKeywords_eq, ← List.append_nil spelled.catchSlots,
    spelled.catches.gatherKeywords_eq, ← spelled.keywords_eq]
  rfl

theorem sp_eq (sound : active.machine.Sound size) :
    active.machine.sp = spelled.below.length + 1 + (spelled.count.toNat + spelled.spreadSlots.length +
      spelled.keySlots.length + spelled.catchSlots.length) := by
  have lengths := congrArg List.length spelled.stack
  have used := sound.used
  rw [← sound.slots] at used
  simp only [List.length_take, List.length_append, List.length_cons, Array.length_toList,
    Nat.min_eq_left used, spelled.counted] at lengths
  omega

theorem getElem?_code (index : Nat) {byte : UInt8}
    (found : (spelled.count :: spelled.spreadFlag :: spelled.keyFlag :: spelled.catchFlag ::
      spelled.rest)[index]? = some byte) :
    active.machine.code[active.machine.ip + index]? = some byte := by
  rw [← spelled.code, List.getElem?_drop, Array.getElem?_toList] at found
  exact found

theorem getElem?_callee (sound : active.machine.Sound size) :
    active.machine.stack[spelled.below.length]? = some spelled.callee := by
  have top := spelled.sp_eq sound
  have slot := congrArg (·[spelled.below.length]?) spelled.stack
  simpa [List.getElem?_take_of_lt (show spelled.below.length < active.machine.sp by omega)] using slot

theorem callSite_eq (sound : active.machine.Sound size) :
    callSite active = .ok spelled.site ⟨active.world, active.machine.past 4⟩ := by
  have top := spelled.sp_eq sound
  have counted := spelled.counted
  have stack : (active.machine.past 4).stack.toList.take (active.machine.past 4).sp = _ :=
    spelled.stack
  have first : readByte active = .ok spelled.count.toNat ⟨active.world, active.machine.past 1⟩ :=
    readByte_eq active.world (spelled.getElem?_code 0 rfl)
  have second : readFlag ⟨active.world, active.machine.past 1⟩ =
      .ok (decide (spelled.spreadFlag ≠ 0)) ⟨active.world, active.machine.past 2⟩ :=
    readFlag_eq active.world (spelled.getElem?_code 1 rfl)
  have third : readFlag ⟨active.world, active.machine.past 2⟩ =
      .ok (decide (spelled.keyFlag ≠ 0)) ⟨active.world, active.machine.past 3⟩ :=
    readFlag_eq active.world (spelled.getElem?_code 2 rfl)
  have fourth : readFlag ⟨active.world, active.machine.past 3⟩ =
      .ok (decide (spelled.catchFlag ≠ 0)) ⟨active.world, active.machine.past 4⟩ :=
    readFlag_eq active.world (spelled.getElem?_code 3 rfl)
  have begins : argumentStart (spelled.count.toNat + spelled.spreadSlots.length +
      spelled.keySlots.length + spelled.catchSlots.length) ⟨active.world, active.machine.past 4⟩ =
      .ok (spelled.below.length + 1) ⟨active.world, active.machine.past 4⟩ := by
    rw [argumentStart_eq (by simp only [Machine.past]; omega)]
    congr 1
    simp only [Machine.past]
    omega
  have callee : slot (spelled.below.length + 1 - 1) ⟨active.world, active.machine.past 4⟩ =
      .ok spelled.callee ⟨active.world, active.machine.past 4⟩ :=
    slot_eq (spelled.getElem?_callee sound)
  have positional := slots_eq active.world (spelled.below ++ [spelled.callee]) spelled.positional
    (spelled.spreadSlots ++ (spelled.keySlots ++ spelled.catchSlots))
    (by simpa only [List.append_assoc, List.cons_append, List.nil_append] using stack)
  have more := spelled.spreads.spreadArguments_eq
    (spelled.below ++ [spelled.callee] ++ spelled.positional)
    (spelled.keySlots ++ spelled.catchSlots)
    (by simpa only [List.append_assoc, List.cons_append, List.nil_append] using stack)
  have maps := slots_eq active.world
    (spelled.below ++ [spelled.callee] ++ spelled.positional ++ spelled.spreadSlots)
    (spelled.keySlots ++ spelled.catchSlots) []
    (by simpa only [List.append_assoc, List.cons_append, List.nil_append, List.append_nil] using stack)
  simp only [List.length_append, List.length_singleton, counted] at positional more maps
  have last : (active.machine.past 4).sp = spelled.below.length + 1 + spelled.count.toNat +
      spelled.spreadSlots.length + (spelled.keySlots.length + spelled.catchSlots.length) := by
    simp only [Machine.past]
    omega
  unfold callSite
  rw [bind_of_ok first, bind_of_ok second, bind_of_ok third, bind_of_ok fourth,
    spelled.spreads.toNat_flag, spelled.names.toNat_flag, spelled.catches.toNat_flag,
    bind_of_ok begins, bind_of_ok callee, bind_of_ok (spelled.brings.requireCallable_eq _),
    bind_of_ok positional, bind_of_ok more]
  show (slots _ (active.machine.past 4).sp >>= _) _ = _
  rw [last, bind_of_ok maps, bind_of_ok (spelled.gatherKeywords_eq _)]
  rfl

/-- Whether the limits leave room for the call: for one more frame on the stack, or, where the call
takes over the running frame, for the slots of that one. -/
def Fits (around : Surroundings) : Prop :=
  if (active.machine.past 4).reusesFrame spelled.ref then
    ∀ running ∈ active.machine.frames.head?,
      running.base + spelled.function.code.frameSize ≤ active.machine.stack.size
  else
    active.machine.frameDepth < around.program.limits.maxFrames ∧
      spelled.below.length + 1 + spelled.function.code.frameSize ≤ active.machine.stack.size

/-- A call that has been entered: its frame runs, it notes the arguments and keywords as received,
and its slots hold the parameters and nothing else. Below them the stack is as before. -/
structure Entered (parameters : Array Value) (after : Active) : Prop where
  running : ∃ frame callers, after.machine.frames = frame :: callers ∧
    frame.function = some spelled.ref ∧ frame.arguments = spelled.arguments ∧
    frame.keywords = spelled.keywords ∧
    after.machine.sp = frame.base + spelled.function.code.frameSize ∧
    (∀ index < spelled.function.code.frameSize,
      after.machine.stack[frame.base + index]? = some (parameters[index]?.getD .undefined)) ∧
    ∀ slot < frame.base, after.machine.stack[slot]? = active.machine.stack[slot]?
  ip : after.machine.ip = 0
  globals : after.world.globals = active.world.globals
  aborting : after.world.aborting = active.world.aborting

/-- The receiver of the method that is called, if one is called, has not gone. -/
def Present (around : Surroundings) : Prop :=
  ∀ id hold callee value, spelled.callee = .bound id hold callee value →
    Act.receiver around hold value active = .ok value active

theorem resolve_eq (present : spelled.Present around) :
    resolve around spelled.site ⟨active.world, active.machine.past 4⟩ =
      .ok (.function spelled.ref spelled.arguments) ⟨active.world, active.machine.past 4⟩ := by
  rcases spelled.brings.inversion with ⟨called, alone⟩ | ⟨id, hold, value, called, brought⟩
  · simp only [resolve, site, called, arguments, alone, Array.empty_append]
    rfl
  · have found := (heldReceiver?_past around active.world active.machine hold value 4).mpr
      (present id hold _ value called)
    simp only [resolve, site, called, arguments, brought]
    rw [bind_of_ok found]
    rfl

theorem resolve_gone (gone : ¬spelled.Present around) :
    resolve around spelled.site ⟨active.world, active.machine.past 4⟩ =
      .error (.fault .receiverGone) ⟨active.world, active.machine.past 4⟩ := by
  rcases spelled.brings.inversion with ⟨called, -⟩ | ⟨id, hold, value, called, -⟩
  · exfalso
    apply gone
    intro id hold callee value bound
    rw [called] at bound
    cases bound
  · have missing : Act.receiver around hold value active ≠ .ok value active := by
      intro held
      apply gone
      intro other how callee whose same
      rw [called] at same
      cases same
      exact held
    have gone := receiver_gone (fun held => missing
      ((heldReceiver?_past around active.world active.machine hold value 4).mp held))
    simp only [resolve, site, called]
    exact bind_of_error gone

def bind (sound : active.machine.Sound size) (present : spelled.Present around)
    {parameters : Array Value} {store : Store}
    (bound : StoreM.bindArguments spelled.function.code spelled.arguments spelled.keywords
      active.world.store = .ok parameters store) : BoundCall around active where
  site := spelled.site
  found := ⟨active.world, active.machine.past 4⟩
  read := spelled.callSite_eq sound
  ref := spelled.ref
  arguments := spelled.arguments
  ready := ⟨active.world, active.machine.past 4⟩
  resolved := spelled.resolve_eq present
  parameters := parameters
  store := store
  bound := bound

theorem sound_past (sound : active.machine.Sound size) : (active.machine.past 4).Sound size :=
  ⟨sound.slots, sound.used, sound.frames, sound.code⟩

theorem entered_reentering (sound : active.machine.Sound size) {parameters : Array Value}
    (few : parameters.size ≤ spelled.function.code.frameSize)
    (reuses : (active.machine.past 4).reusesFrame spelled.ref = true)
    (fits : ∀ running ∈ active.machine.frames.head?,
      running.base + spelled.function.code.frameSize ≤ active.machine.stack.size) (store : Store) :
    ∃ after, (reenterFrame spelled.function parameters spelled.arguments spelled.keywords).thenProceed
        ⟨{ active.world with store }, active.machine.past 4⟩ = .ok .proceed after ∧
      after.world.store = store ∧ spelled.Entered parameters after := by
  obtain ⟨running, callers, below⟩ := sound.frames.exists_running
  have top : (active.machine.past 4).frames = running :: callers := below
  have room := fits running (by rw [below]; rfl)
  have allowed := Machine.restartStop?_of_room (sound_past sound) top few room
  have frames := Machine.frames_restartFrame _ parameters spelled.function.code.frameSize
    spelled.arguments spelled.keywords top
  have base : (((active.machine.past 4).frames.head?.map Frame.base).getD 0) = running.base := by
    rw [top]
    rfl
  refine ⟨⟨{ active.world with store }, (active.machine.past 4).restartFrame
    spelled.function.code.frameSize parameters spelled.arguments spelled.keywords⟩, ?_, rfl,
    ⟨⟨_, _, frames, ?_, rfl, rfl, ?_, ?_, ?_⟩, rfl, rfl, rfl⟩⟩
  · simp only [thenProceed, reenterFrame, changeUnless, Bind.bind, EStateM.bind, allowed]
    rfl
  · simp only [Machine.reusesFrame, top, Bool.and_eq_true, beq_iff_eq] at reuses
    exact reuses.1
  · simp only [Machine.restartFrame, base]
  · intro index inside
    simp only [Machine.restartFrame, base]
    exact Machine.getElem?_loadSlots_frame _ _ (Nat.le_max_right _ _) room inside
  · intro slot low
    simp only [Machine.restartFrame, base]
    exact Machine.getElem?_loadSlots_below _ _ _ _ _ low

theorem entered_pushing (sound : active.machine.Sound size) {parameters : Array Value}
    (few : parameters.size ≤ spelled.function.code.frameSize) {limits : Limits}
    (shallow : active.machine.frameDepth < limits.maxFrames)
    (room : spelled.below.length + 1 + spelled.function.code.frameSize ≤ active.machine.stack.size)
    (store : Store) :
    ∃ after, (enterFrame limits spelled.ref spelled.function parameters spelled.arguments
        spelled.keywords (spelled.below.length + 1)).thenProceed
          ⟨{ active.world with store }, active.machine.past 4⟩ = .ok .proceed after ∧
      after.world.store = store ∧ spelled.Entered parameters after := by
  obtain ⟨running, callers, below⟩ := sound.frames.exists_running
  have top : (active.machine.past 4).frames = running :: callers := below
  have allowed : (active.machine.past 4).pushStop? limits (spelled.function.frame
      spelled.ref spelled.arguments spelled.keywords (spelled.below.length + 1)) parameters = none :=
    Machine.pushStop?_of_room (sound_past sound) few shallow room
  have frames := Machine.frames_pushFrame _ parameters (spelled.function.frame spelled.ref
    spelled.arguments spelled.keywords (spelled.below.length + 1)) top
  refine ⟨⟨{ active.world with store }, (active.machine.past 4).pushFrame _ parameters⟩, ?_, rfl,
    ⟨⟨_, _, frames, rfl, rfl, rfl, rfl, ?_, ?_⟩, rfl, rfl, rfl⟩⟩
  · simp only [thenProceed, enterFrame, changeUnless, Bind.bind, EStateM.bind, allowed]
    rfl
  · intro index inside
    exact Machine.getElem?_loadSlots_frame _ _ (Nat.le_max_right _ _) room inside
  · intro slot low
    exact Machine.getElem?_loadSlots_below _ _ _ _ _ low

/-- A call whose parameters are bound is entered where the limits leave room for it. -/
theorem entered_of_bound (sound : active.machine.Sound size) (present : spelled.Present around)
    (fits : spelled.Fits around)
    {parameters : Array Value} {store : Store}
    (bound : StoreM.bindArguments spelled.function.code spelled.arguments spelled.keywords
      active.world.store = .ok parameters store) :
    ∃ after, call around active = .ok .proceed after ∧ after.world.store = store ∧
      spelled.Entered parameters after := by
  have called : call around active =
      (if (active.machine.past 4).reusesFrame spelled.ref then
        reenterFrame spelled.function parameters spelled.arguments spelled.keywords
      else enterFrame around.program.limits spelled.ref spelled.function parameters
        spelled.arguments spelled.keywords (spelled.below.length + 1)).thenProceed
        ⟨{ active.world with store }, active.machine.past 4⟩ := (spelled.bind sound present bound).call_eq
  have few : parameters.size ≤ spelled.function.code.frameSize := (spelled.bind sound present bound).few
  rw [called]
  unfold Fits at fits
  split at fits
  next reuses =>
    rw [if_pos reuses]
    exact spelled.entered_reentering sound few reuses fits store
  next pushes =>
    rw [if_neg pushes]
    exact spelled.entered_pushing sound few fits.1 fits.2 store

/-- A call whose parameters cannot be bound fails for that reason, and the machine is left where it
has read the call. -/
theorem refused_of_unbound (sound : active.machine.Sound size) (present : spelled.Present around)
    {fault : Fault} {store : Store}
    (unbound : StoreM.bindArguments spelled.function.code spelled.arguments spelled.keywords
      active.world.store = .error fault store) :
    call around active =
      .error (.fault fault) ⟨{ active.world with store }, active.machine.past 4⟩ := by
  have looked : readStore (·.function spelled.ref) ⟨active.world, active.machine.past 4⟩ =
      .ok spelled.function ⟨active.world, active.machine.past 4⟩ := rfl
  have stopped : onStore (StoreM.bindArguments spelled.function.code spelled.arguments
      spelled.keywords) ⟨active.world, active.machine.past 4⟩ =
      .error (.fault fault) ⟨{ active.world with store }, active.machine.past 4⟩ := by
    simp only [onStore, World.compute, unbound]
  unfold call
  rw [bind_of_ok (spelled.callSite_eq sound), bind_of_ok (spelled.resolve_eq present)]
  apply bind_of_error
  unfold enter
  rw [bind_of_ok looked]
  exact bind_of_error stopped

theorem call_gone (sound : active.machine.Sound size) (gone : ¬spelled.Present around) :
    call around active =
      .error (.fault .receiverGone) ⟨active.world, active.machine.past 4⟩ := by
  unfold call
  rw [bind_of_ok (spelled.callSite_eq sound)]
  exact bind_of_error (spelled.resolve_gone gone)

theorem binds_of_accepts (sound : active.machine.Sound size) (present : spelled.Present around)
    (fits : spelled.Fits around)
    (accepts : spelled.function.code.Accepts spelled.arguments spelled.keywords) :
    ∃ parameters after, call around active = .ok .proceed after ∧
      spelled.function.code.Bound spelled.arguments spelled.keywords active.world.store parameters
        after.world.store ∧
      spelled.Entered parameters after := by
  obtain ⟨parameters, store, bound, placed⟩ :=
    StoreM.bindArguments_of_accepts accepts active.world.store
  obtain ⟨after, called, rfl, entered⟩ := spelled.entered_of_bound sound present fits bound
  exact ⟨parameters, after, called, placed, entered⟩

/-- The store of a call that does not bind has every cell that it had. -/
theorem fails_of_refuses (sound : active.machine.Sound size) (present : spelled.Present around)
    (unfit : ¬spelled.function.code.Accepts spelled.arguments spelled.keywords) :
    ∃ fault cells, spelled.function.code.Refuses spelled.arguments spelled.keywords fault ∧
      call around active = .error (.fault fault)
        ⟨{ active.world with
            store := { active.world.store with cells := active.world.store.cells ++ cells } },
          active.machine.past 4⟩ := by
  obtain ⟨fault, refuses⟩ := (StoreM.accepts_or_refuses _ _ _).resolve_left unfit
  obtain ⟨cells, unbound⟩ := StoreM.bindArguments_of_refuses refuses active.world.store
  exact ⟨fault, cells, refuses, spelled.refused_of_unbound sound present unbound⟩

end SpelledCall

/-- A call binds exactly if its function has a place for every argument and every keyword, and then
each of them stands in its place and nothing else does. A call that does not bind fails for the first
reason there is and enters nothing. -/
theorem call_binds_exactly {around : Surroundings} {active : Active} {size : Nat}
    (sound : active.machine.Sound size) (spelled : SpelledCall active)
    (fits : spelled.Fits around) :
    (spelled.Present around →
      ((∃ after, execute around .call active = .ok .proceed after) ↔
        spelled.function.code.Accepts spelled.arguments spelled.keywords) ∧
      (spelled.function.code.Accepts spelled.arguments spelled.keywords →
        ∃ parameters after, execute around .call active = .ok .proceed after ∧
          spelled.function.code.Bound spelled.arguments spelled.keywords active.world.store parameters
            after.world.store ∧
          spelled.Entered parameters after) ∧
      (¬spelled.function.code.Accepts spelled.arguments spelled.keywords →
        ∃ fault cells, spelled.function.code.Refuses spelled.arguments spelled.keywords fault ∧
          execute around .call active = .error (.fault fault)
            ⟨{ active.world with
                store := { active.world.store with cells := active.world.store.cells ++ cells } },
              active.machine.past 4⟩)) ∧
    (¬spelled.Present around →
      execute around .call active =
        .error (.fault .receiverGone) ⟨active.world, active.machine.past 4⟩) := by
  have instruction : execute around .call active = call around active := rfl
  rw [instruction]
  constructor
  · intro present
    refine ⟨⟨?_, ?_⟩, spelled.binds_of_accepts sound present fits,
      spelled.fails_of_refuses sound present⟩
    · rintro ⟨after, called⟩
      by_contra unfit
      obtain ⟨fault, cells, -, failed⟩ := spelled.fails_of_refuses sound present unfit
      rw [failed] at called
      cases called
    · intro accepts
      obtain ⟨parameters, after, called, -⟩ := spelled.binds_of_accepts sound present fits accepts
      exact ⟨after, called⟩
  · intro gone
    exact spelled.call_gone sound gone

def namedKeywords : Table Value := .ofList [("by", .useDefault), ("to", .int 5)]

def caughtKeywords : Table Value := .ofList [("of", .int 9), ("to", .int 6)]

/-- About to call a method with an argument, two more in an array, and keywords in two maps that
disagree about one of them. -/
def furnished : Active :=
  let code : FunctionCode :=
    { arity := 2, variadic := true, keywords := [("by", .int 1), ("of", .int 2)], catchAll := true
      locals := 8 }
  { world :=
      { store :=
          { cells := #[.function { code }, .array #[.int 11, .int 12],
              .map namedKeywords, .map caughtKeywords] } }
    machine :=
      { stack := #[.bound 0 .strong (.function 0) (.int 7), .int 10, .array .frozen 1, .map .writable 2,
          .map .frozen 3] ++ Array.replicate 11 .undefined
        sp := 5
        calls := CallStack.empty.push
          { function := some 4, code := { instructions := #[Opcode.call.byte, 1, 1, 1, 1] } }
        code := #[Opcode.call.byte, 1, 1, 1, 1]
        ip := 1
        budget := 0 } }

def furnishedCall : SpelledCall furnished where
  below := []
  callee := .bound 0 .strong (.function 0) (.int 7)
  ref := 0
  receiver := #[.int 7]
  brings := .method 0 .strong (.int 7)
  count := 1
  positional := [.int 10]
  counted := rfl
  spreadFlag := 1
  spreadSlots := [.array .frozen 1]
  elements := #[.int 11, .int 12]
  spreads := .given (by decide) (.array .frozen 1)
  keyFlag := 1
  keySlots := [.map .writable 2]
  named := namedKeywords
  names := .given (by decide) (.map .writable 2)
  catchFlag := 1
  catchSlots := [.map .frozen 3]
  caught := caughtKeywords
  catches := .given (by decide) (.map .frozen 3)
  keywords := namedKeywords.insertAll caughtKeywords.entries
  union := namedKeywords.get?_insertAll_entries caughtKeywords
  rest := []
  code := rfl
  stack := rfl

theorem call_binds_exactly_furnished :
    furnishedCall.Fits ⟨{ main := 4 }, fun _ => []⟩ ∧
    ∃ parameters after, execute ⟨{ main := 4 }, fun _ => []⟩ .call furnished = .ok .proceed after ∧
      furnishedCall.function.code.Bound #[.int 7, .int 10, .int 11, .int 12] furnishedCall.keywords
        furnished.world.store parameters after.world.store ∧
      furnishedCall.Entered parameters after := by
  have sound : furnished.machine.Sound 16 := by
    refine ⟨rfl, by decide, .bottom rfl (by decide), ?_⟩
    intro frame callers same
    cases same
    rfl
  have fits : furnishedCall.Fits ⟨{ main := 4 }, fun _ => []⟩ := by
    show 1 < 1024 ∧ 0 + 1 + 8 ≤ 16
    decide
  have present : furnishedCall.Present ⟨{ main := 4 }, fun _ => []⟩ := by
    intro id hold callee value bound
    cases bound
    rfl
  have accepts : furnishedCall.function.code.Accepts furnishedCall.arguments furnishedCall.keywords :=
    ⟨show 2 ≤ 4 by decide, .inl rfl⟩
  exact ⟨fits, ((call_binds_exactly sound furnishedCall fits).1 present).2.1 accepts⟩

end Act

end ScriptMachine
