import ScriptMachine.Proofs.ChildAnswers
import ScriptMachine.Proofs.UnchargedObjects
import ScriptMachine.Proofs.BusyFlags

/-! Native-side calls and the instruction that calls. Both bind the same arguments to the same
parameters, or refuse them for the same reason, and what a function returns to native code is what it
returns. -/

namespace ScriptMachine

namespace FunctionCode

variable {code : FunctionCode} {arguments : Array Value} {keywords : Table Value}

/-- Values that two calls have put in the same place: one value, or an array or a map that each call
has made, with the same contents. -/
inductive Twins (before after before' after' : Store) : Value → Value → Prop where
  | same (value : Value) : Twins before after before' after' value value
  | array {ref ref' : Ref} {elements : Array Value} (new : before.cells[ref]? = none)
      (new' : before'.cells[ref']? = none) (held : after.cells[ref]? = some (.array elements))
      (held' : after'.cells[ref']? = some (.array elements)) :
      Twins before after before' after' (.array .writable ref) (.array .writable ref')
  | map {ref ref' : Ref} {entries : Table Value} (new : before.cells[ref]? = none)
      (new' : before'.cells[ref']? = none) (held : after.cells[ref]? = some (.map entries))
      (held' : after'.cells[ref']? = some (.map entries)) :
      Twins before after before' after' (.map .writable ref) (.map .writable ref')

theorem Twins.earlier {before earlier after before' after' : Store} {value value' : Value}
    (twins : Twins before after before' after' value value')
    (older : ∀ ref : Ref, before.cells[ref]? = none → earlier.cells[ref]? = none) :
    Twins earlier after before' after' value value' := by
  cases twins with
  | same => exact .same value
  | array new new' held held' => exact .array (older _ new) new' held held'
  | map new new' held held' => exact .map (older _ new) new' held held'

theorem Receives.eq_keywordValue {name : String} {default value : Value}
    (receives : Receives keywords name default value) :
    value = StoreM.keywordValue keywords name default := by
  unfold StoreM.keywordValue
  cases receives with
  | absent missing => rw [missing]
  | asked passed => rw [passed]
  | passed given other =>
    rw [given]
    split
    next missing => cases missing
    next asked =>
      cases asked
      exact absurd rfl other
    next same =>
      cases same
      rfl

variable {before after before' after' : Store} {parameters parameters' : Array Value}

/-- Two bindings of the same arguments and keywords put the same values into all slots, but for the
arrays and maps that they make. -/
theorem Bound.twins (bound : code.Bound arguments keywords before parameters after)
    (bound' : code.Bound arguments keywords before' parameters' after') (index : Nat) :
    Twins before after before' after' (parameters[index]?.getD .undefined)
      (parameters'[index]?.getD .undefined) := by
  have size := bound.size
  have size' := bound'.size
  simp only [paramSlots] at size size'
  by_cases positional : index < code.arity
  · rw [bound.positional index positional, bound'.positional index positional]
    exact .same _
  by_cases gathered : index < code.arity + code.variadic.toNat
  · cases variadic : code.variadic with
    | false =>
      rw [variadic, Bool.toNat_false] at gathered
      omega
    | true =>
      rw [variadic, Bool.toNat_true] at gathered
      obtain rfl : index = code.arity := by omega
      obtain ⟨ref, slot, new, held⟩ := bound.gathered variadic
      obtain ⟨ref', slot', new', held'⟩ := bound'.gathered variadic
      rw [slot, slot']
      exact .array new new' held held'
  by_cases declared : index < code.arity + code.variadic.toNat + code.keywords.length
  · obtain ⟨offset, rfl⟩ := Nat.exists_eq_add_of_le (Nat.le_of_not_lt gathered)
    have inside : offset < code.keywords.length := by omega
    have found := List.getElem?_eq_getElem inside
    obtain ⟨value, slot, receives⟩ := bound.declared offset _ _ found
    obtain ⟨value', slot', again⟩ := bound'.declared offset _ _ found
    rw [slot, slot', receives.eq_keywordValue, again.eq_keywordValue]
    exact .same _
  by_cases caught : index < parameters.size
  · cases catches : code.catchAll with
    | false =>
      rw [catches, Bool.toNat_false] at size
      omega
    | true =>
      rw [catches, Bool.toNat_true] at size
      obtain rfl : index = code.arity + code.variadic.toNat + code.keywords.length := by omega
      obtain ⟨ref, rest, slot, new, held, entries⟩ := bound.caught catches
      obtain ⟨ref', rest', slot', new', held', entries'⟩ := bound'.caught catches
      have same : rest = rest' := by
        apply Table.ext
        intro name
        apply Option.ext
        intro value
        exact (entries name value).trans (entries' name value).symm
      subst same
      rw [slot, slot']
      exact .map new new' held held'
  · rw [Array.getElem?_eq_none (by omega), Array.getElem?_eq_none (by omega)]
    exact .same _

end FunctionCode

namespace Machine

/-- The slots of a frame of a given size that has just been entered: parameters and nothing else. -/
def freshSlots (size : Nat) (parameters : Array Value) : Array Value :=
  .ofFn fun index : Fin size => parameters[index.val]?.getD .undefined

theorem eq_of_freshSlots {size index : Nat} {parameters : Array Value} {value : Value}
    (found : (freshSlots size parameters)[index]? = some value) :
    value = parameters[index]?.getD .undefined := by
  simp only [freshSlots, Array.getElem?_ofFn] at found
  split at found
  · exact (Option.some.inj found).symm
  · cases found

/-- A machine that is about to run a function which has just been called. Its frame notes what it was
called with, and the slots in use from the frame's base on are its locals. -/
structure Enters (machine : Machine) (function : Ref) (arguments : Array Value)
    (keywords : Table Value) (locals : Array Value) : Prop where
  ip : machine.ip = 0
  running : ∃ frame callers, machine.frames = frame :: callers ∧
    frame.function = some function ∧ frame.arguments = arguments ∧ frame.keywords = keywords ∧
    machine.stack.extract frame.base machine.sp = locals

end Machine

theorem Act.SpelledCall.Entered.enters {active after : Active} {spelled : SpelledCall active}
    {parameters : Array Value} (entered : spelled.Entered parameters after) :
    after.machine.Enters spelled.ref spelled.arguments spelled.keywords
      (Machine.freshSlots spelled.function.code.frameSize parameters) := by
  obtain ⟨frame, callers, top, runs, given, named, used, slots, -⟩ := entered.running
  refine ⟨entered.ip, frame, callers, top, runs, given, named, ?_⟩
  apply Array.ext_getElem?
  intro index
  by_cases inside : index < spelled.function.code.frameSize
  · have held := slots index inside
    have bound : frame.base + index < after.machine.stack.size :=
      (Array.getElem?_eq_some_iff.mp held).1
    simp only [Array.getElem?_extract, Machine.freshSlots, Array.getElem?_ofFn, inside, used]
    rw [if_pos (by omega), held]
    rfl
  · rw [Array.getElem?_eq_none (by rw [Array.size_extract]; omega),
      Array.getElem?_eq_none (by rw [Machine.freshSlots, Array.size_ofFn]; omega)]

namespace World

variable (world : World) (function : Ref) (arguments : Array Value) (keywords : Table Value)

theorem cells_readied : (world.readied function arguments keywords).store.cells =
    ((world.store.setBusy function true).cells.push (.array arguments)).push (.map keywords) := rfl

theorem elements_readied :
    (world.readied function arguments keywords).store.elements world.store.cells.size =
      arguments := by
  have size := world.store.size_setBusy function true
  simp only [Store.elements, cells_readied, Array.getElem?_push, Array.size_push, size]
  simp

theorem entries_readied :
    (world.readied function arguments keywords).store.entries (world.store.cells.size + 1) =
      keywords := by
  have size := world.store.size_setBusy function true
  simp only [Store.entries, cells_readied, Array.getElem?_push, Array.size_push, size]
  simp

theorem code_readied (idle : world.store.isIdle function = true) :
    ((world.readied function arguments keywords).store.function function).code =
      (world.store.function function).code := by
  obtain ⟨known, found, -⟩ := (Store.isIdle_eq_true_iff _ _).mp idle
  have inside : function < world.store.cells.size := (Array.getElem?_eq_some_iff.mp found).1
  have size := world.store.size_setBusy function true
  have first : function ≠ world.store.cells.size := Nat.ne_of_lt inside
  have second : function ≠ world.store.cells.size + 1 := Nat.ne_of_lt (Nat.lt_succ_of_lt inside)
  simp only [Store.function, cells_readied, Array.getElem?_push, Array.size_push, size, if_neg first,
    if_neg second]
  simp only [Store.setBusy, Array.getElem?_modify, if_pos, found, Option.map_some]

theorem new_of_readied {ref : Ref}
    (new : (world.readied function arguments keywords).store.cells[ref]? = none) :
    world.store.cells[ref]? = none := by
  have size := world.store.size_setBusy function true
  rw [Array.getElem?_eq_none_iff, cells_readied, Array.size_push, Array.size_push, size] at new
  exact Array.getElem?_eq_none (by omega)

end World

namespace Execution

variable {setting : Setting} {world : World} {request : Request} {caller : Suspended}
  {chain : List Suspended} {function : Ref} {arguments : Array Value} {keywords : Table Value}

def reading (setting : Setting) (world : World) (function : Ref) (arguments : Array Value)
    (keywords : Table Value) (caller : Suspended) : Active :=
  ⟨world.readied function arguments keywords, (child setting.program.limits caller.machine function
    (.array .writable world.store.cells.size)
    (.map .writable (world.store.cells.size + 1))).fetched⟩

def spelled (setting : Setting) (world : World) (function : Ref) (arguments : Array Value)
    (keywords : Table Value) (caller : Suspended) :
    Act.SpelledCall (reading setting world function arguments keywords caller) :=
  childCall setting.program.limits caller.machine function world.store.cells.size
    (world.store.cells.size + 1) (world.readied function arguments keywords)

theorem sound_reading : (reading setting world function arguments keywords caller).machine.Sound
    (max setting.program.limits.stackSize 3) := (sound_child _ _ _ _).fetched

theorem arguments_spelled :
    (spelled setting world function arguments keywords caller).arguments = arguments := by
  simp only [Act.SpelledCall.arguments, spelled, childCall, World.elements_readied,
    Array.empty_append]

theorem keywords_spelled :
    (spelled setting world function arguments keywords caller).keywords = keywords :=
  world.entries_readied function arguments keywords

theorem code_spelled (idle : world.store.isIdle function = true) :
    (spelled setting world function arguments keywords caller).function.code =
      (world.store.function function).code :=
  world.code_readied function arguments keywords idle

/-- Its callee is the function itself, so there is no receiver that could have gone. -/
theorem present_spelled (around : Surroundings) :
    (spelled setting world function arguments keywords caller).Present around := by
  intro id hold callee value bound
  cases bound

/-- A machine that calls needs room for one more frame, and for its slots above that of the callee. -/
theorem fits_spelled (arguments : Array Value) (keywords : Table Value)
    (idle : world.store.isIdle function = true)
    (shallow : caller.machine.frameDepth + 1 < setting.program.limits.maxFrames)
    (room : 1 + (world.store.function function).code.frameSize ≤
      max setting.program.limits.stackSize 3) (outside : Unit → List Ref) :
    (spelled setting world function arguments keywords caller).Fits
      ⟨setting.program, outside⟩ := by
  refine ⟨shallow, ?_⟩
  rw [sound_reading.slots, code_spelled idle]
  exact room

/-- Nothing asks the machine at work to stop before its next instruction. -/
def Passes : Execution → Prop
  | ⟨world, .running machine _⟩ => world.aborting = false ∧ machine.expiry? world.store = none
  | ⟨_, .native ..⟩ => True

theorem step_hosting
    (passes : (hosting setting world function arguments keywords caller chain).Passes) :
    step setting (hosting setting world function arguments keywords caller chain) =
      afterAct (caller :: chain) (Act.call
        ⟨setting.program, fun _ => setting.outside (caller :: chain)⟩
        (reading setting world function arguments keywords caller)) := by
  let machine := child setting.program.limits caller.machine function
    (.array .writable world.store.cells.size) (.map .writable (world.store.cells.size + 1))
  have calls : machine.code[machine.ip]? = some Opcode.call.byte :=
    show trampoline.instructions[0]? = _ by decide
  exact step_of_calm passes.1 passes.2 calls

theorem hosting_enters (setting : Setting) (caller : Suspended) (chain : List Suspended)
    (passes : (hosting setting world function arguments keywords caller chain).Passes)
    (idle : world.store.isIdle function = true)
    (shallow : caller.machine.frameDepth + 1 < setting.program.limits.maxFrames)
    (room : 1 + (world.store.function function).code.frameSize ≤
      max setting.program.limits.stackSize 3)
    (accepts : (world.store.function function).code.Accepts arguments keywords) :
    ∃ (parameters : Array Value) (hosted : Active),
      step setting (hosting setting world function arguments keywords caller chain) =
        .next ⟨hosted.world, .running hosted.machine (caller :: chain)⟩ ∧
      (world.store.function function).code.Bound arguments keywords
        (world.readied function arguments keywords).store parameters hosted.world.store ∧
      hosted.machine.Enters function arguments keywords
        (Machine.freshSlots (world.store.function function).code.frameSize parameters) := by
  let call := spelled setting world function arguments keywords caller
  have fits := fits_spelled arguments keywords idle shallow room
    fun _ => setting.outside (caller :: chain)
  have code : call.function.code = _ := code_spelled idle
  have given : call.arguments = arguments := arguments_spelled
  have named : call.keywords = keywords := keywords_spelled
  have taken : call.function.code.Accepts call.arguments call.keywords := by
    rw [code, given, named]
    exact accepts
  obtain ⟨parameters, hosted, called, bound, entered⟩ :=
    call.binds_of_accepts sound_reading (present_spelled _) fits taken
  have enters := entered.enters
  rw [code, given, named] at bound enters
  refine ⟨parameters, hosted, ?_, bound, enters⟩
  rw [step_hosting passes, called]
  rfl

theorem hosting_refuses (setting : Setting) (caller : Suspended) (chain : List Suspended)
    (passes : (hosting setting world function arguments keywords caller chain).Passes)
    (idle : world.store.isIdle function = true) {fault : Fault}
    (refuses : (world.store.function function).code.Refuses arguments keywords fault) :
    ∃ later machine,
      step setting (hosting setting world function arguments keywords caller chain) =
        .next ⟨later, .native (.answer (.error fault)) { caller with machine } chain⟩ := by
  let call := spelled setting world function arguments keywords caller
  have code : call.function.code = _ := code_spelled idle
  have given : call.arguments = arguments := arguments_spelled
  have named : call.keywords = keywords := keywords_spelled
  have refused : call.function.code.Refuses call.arguments call.keywords fault := by
    rw [code, given, named]
    exact refuses
  obtain ⟨cells, unbound⟩ := StoreM.bindArguments_of_refuses refused _
  have stopped := call.refused_of_unbound sound_reading (present_spelled
    ⟨setting.program, fun _ => setting.outside (caller :: chain)⟩) unbound
  rw [step_hosting passes, stopped]
  exact ⟨_, _, rfl⟩

theorem not_answers_running {machine : Machine} {waiting : List Suspended} :
    ¬Execution.Answers caller chain ⟨world, .running machine waiting⟩ := by
  rintro ⟨later, result, other, same⟩
  cases same

theorem during_handed {first : Execution} {result : Except Fault Value} {machine : Machine}
    (reached : During setting caller chain first
      ⟨world, .native (.answer result) { holding caller request with machine } chain⟩) :
    During setting caller chain first
      ⟨world, .native (.answer result) { caller with machine } chain⟩ := by
  refine reached.tail ⟨?_, rfl⟩
  rintro ⟨later, other, spent, same⟩
  have natives := congrArg List.length (congrArg (fun execution : Execution =>
    match execution.control with
    | .native _ top _ => top.natives
    | .running .. => []) same)
  simp only [holding, List.length_cons] at natives
  omega

theorem during_begins (asks : Asks setting world request caller chain function arguments)
    (allowed : caller.machine.nesting < setting.program.limits.maxNestedCalls)
    (idle : world.store.isIdle function = true) :
    During setting caller chain ⟨world, .native (.call request) caller chain⟩
      (hosting setting world function arguments request.keywords (holding caller request)
        chain) := by
  refine .single ⟨?_, ?_⟩
  · rintro ⟨later, result, machine, same⟩
    cases same
  · exact (call_of_asks asks).trans (enterChild_of_idle allowed idle)

/-- A machine right above the one that made the call is the one that was made for it. -/
theorem serves_of_asks (asks : Asks setting world request caller chain function arguments)
    (allowed : caller.machine.nesting < setting.program.limits.maxNestedCalls)
    (idle : world.store.isIdle function = true) {later : World} {machine : Machine}
    (reached : During setting caller chain ⟨world, .native (.call request) caller chain⟩
      ⟨later, .running machine (holding caller request :: chain)⟩) :
    Serves setting function (holding caller request) chain
      (hosting setting world function arguments request.keywords (holding caller request) chain)
      ⟨later, .running machine (holding caller request :: chain)⟩ := by
  have called : step setting ⟨world, .native (.call request) caller chain⟩ = _ :=
    (call_of_asks asks).trans (enterChild_of_idle allowed idle)
  rcases reached.cases_head with same | ⟨first, stepped, rest⟩
  · cases same
  · cases stepped.2.symm.trans called
    rcases during_holding request rest with inside | ⟨_, _, _, -, same⟩
    · exact serves_during inside
    · cases same

/-- The function's own frame returns, and what it returns is the answer. -/
theorem returned_answers {first : Execution} {machine : Machine} {value : Value}
    (serves : Serves setting function caller chain first ⟨world, .running machine (caller :: chain)⟩)
    (passes : Passes ⟨world, .running machine (caller :: chain)⟩)
    (onward : ∀ next, step setting ⟨world, .running machine (caller :: chain)⟩ = .next next → next.Passes)
    (last : machine.frames.length = 2) (returns : machine.Returns value) :
    ∃ middle ended spent,
      step setting ⟨world, .running machine (caller :: chain)⟩ =
        .next ⟨world, .running middle (caller :: chain)⟩ ∧
      step setting ⟨world, .running middle (caller :: chain)⟩ =
        .next ⟨ended, .native (.answer (.ok value)) { caller with machine := spent } chain⟩ := by
  cases serves with
  | begun => cases last
  | waits sound hosts ready under =>
    exact absurd under.length_lt (Nat.lt_irrefl _)
  | ended reached frames runs returned executed ended =>
    have here := returns.opcode
    rw [ended.code, ended.ip] at here
    cases here
  | answered same => cases same
  | works sound hosts =>
    obtain ⟨upper, frame, bottom, frames, -⟩ := hosts.exists_callee
    obtain rfl : upper = [] := by simpa [frames] using last
    let around : Surroundings := ⟨setting.program, fun _ => setting.outside (caller :: chain)⟩
    obtain ⟨popped, kept, same, executed⟩ := Act.execute_ret_eq returns sound frames around world
    have ended : (popped.popFrame value).Ended value :=
      .of_popFrame kept (frames ▸ hosts) (same.trans frames) value
    have returned : step setting ⟨world, .running machine (caller :: chain)⟩ =
        .next ⟨world, .running (popped.popFrame value) (caller :: chain)⟩ :=
      step_of_execute passes.1 passes.2 returns.opcode executed
    have again := onward _ returned
    have stops : (popped.popFrame value).code[(popped.popFrame value).ip]? =
        some Opcode.suspend.byte := by
      rw [ended.code, ended.ip]
      decide
    have stopped : step setting ⟨world, .running (popped.popFrame value) (caller :: chain)⟩ = _ :=
      (step_of_calm again.1 again.2 stops).trans
        (finish_slot ⟨world, (popped.popFrame value).fetched⟩ caller chain ended.slot)
    exact ⟨popped.popFrame value, _, _, returned, stopped⟩

/-- A machine about to call a function with some arguments and keywords, and with room for its
frame. -/
structure DirectCall (around : Surroundings) (active : Active) (function : Ref)
    (code : FunctionCode) (arguments : Array Value) (keywords : Table Value) where
  size : Nat
  sound : active.machine.Sound size
  spelled : Act.SpelledCall active
  present : spelled.Present around
  fits : spelled.Fits around
  ref_eq : spelled.ref = function
  code_eq : spelled.function.code = code
  arguments_eq : spelled.arguments = arguments
  keywords_eq : spelled.keywords = keywords

namespace DirectCall

variable {around : Surroundings} {active : Active} {code : FunctionCode}
  (direct : DirectCall around active function code arguments keywords)
include direct

theorem enters (accepts : code.Accepts arguments keywords) :
    ∃ parameters entered, Act.execute around .call active = .ok .proceed entered ∧
      code.Bound arguments keywords active.world.store parameters entered.world.store ∧
      entered.machine.Enters function arguments keywords
        (Machine.freshSlots code.frameSize parameters) := by
  obtain ⟨size, sound, spelled, present, fits, rfl, rfl, rfl, rfl⟩ := direct
  obtain ⟨parameters, entered, executed, bound, enters⟩ :=
    spelled.binds_of_accepts sound present fits accepts
  exact ⟨parameters, entered, executed, bound, enters.enters⟩

theorem refuses {fault : Fault} (refuses : code.Refuses arguments keywords fault) :
    ∃ stopped, Act.execute around .call active = .error (.fault fault) stopped := by
  obtain ⟨size, sound, spelled, present, fits, rfl, rfl, rfl, rfl⟩ := direct
  obtain ⟨cells, unbound⟩ := StoreM.bindArguments_of_refuses refuses active.world.store
  exact ⟨_, spelled.refused_of_unbound sound present unbound⟩

end DirectCall

open FunctionCode

/-- A native-side call of a function does what the instruction does that calls it with the same
arguments and keywords. Both enter a frame with the same arguments, keywords and locals, but for the
arrays and maps that binding makes, or both fail with the same fault. And once that frame returns on the
machine of the native-side call, native code is answered with what it returns. -/
theorem native_calls_agree_with_calls
    (asks : Asks setting world request caller chain function arguments)
    (allowed : caller.machine.nesting < setting.program.limits.maxNestedCalls)
    (idle : world.store.isIdle function = true)
    (passes : (hosting setting world function arguments request.keywords (holding caller request)
      chain).Passes)
    (shallow : caller.machine.frameDepth + 1 < setting.program.limits.maxFrames)
    (room : 1 + (world.store.function function).code.frameSize ≤
      max setting.program.limits.stackSize 3) :
    (∀ around active,
      DirectCall around active function (world.store.function function).code arguments
        request.keywords →
      (∃ (hosted entered : Active) (locals locals' : Array Value),
        During setting caller chain ⟨world, .native (.call request) caller chain⟩
          ⟨hosted.world, .running hosted.machine (holding caller request :: chain)⟩ ∧
        Act.execute around .call active = .ok .proceed entered ∧
        hosted.machine.Enters function arguments request.keywords locals ∧
        entered.machine.Enters function arguments request.keywords locals' ∧
        locals.size = locals'.size ∧
        ∀ (index : Nat) value value', locals[index]? = some value → locals'[index]? = some value' →
          Twins world.store hosted.world.store active.world.store entered.world.store value value') ∨
      ∃ fault later machine stopped,
        (world.store.function function).code.Refuses arguments request.keywords fault ∧
        During setting caller chain ⟨world, .native (.call request) caller chain⟩
          ⟨later, .native (.answer (.error fault)) { caller with machine } chain⟩ ∧
        Act.execute around .call active = .error (.fault fault) stopped) ∧
    ∀ later machine value,
      During setting caller chain ⟨world, .native (.call request) caller chain⟩
        ⟨later, .running machine (holding caller request :: chain)⟩ →
      machine.frames.length = 2 → machine.Returns value →
      Passes ⟨later, .running machine (holding caller request :: chain)⟩ →
      (∀ next, step setting ⟨later, .running machine (holding caller request :: chain)⟩ = .next next →
        next.Passes) →
        ∃ ended spent, During setting caller chain ⟨world, .native (.call request) caller chain⟩
          ⟨ended, .native (.answer (.ok value)) { caller with machine := spent } chain⟩ := by
  have begins := during_begins asks allowed idle
  refine ⟨?_, ?_⟩
  · intro around active direct
    rcases StoreM.accepts_or_refuses (world.store.function function).code arguments
      request.keywords with accepts | ⟨fault, refuses⟩
    · obtain ⟨parameters, hosted, entering, bound, enters⟩ := hosting_enters setting
        (holding caller request) chain passes idle shallow room accepts
      obtain ⟨parameters', entered, executed, bound', enters'⟩ := direct.enters accepts
      refine .inl ⟨hosted, entered, _, _, begins.tail ⟨not_answers_running, entering⟩, executed,
        enters, enters', ?_, ?_⟩
      · simp only [Machine.freshSlots, Array.size_ofFn]
      · intro index value value' first second
        rw [Machine.eq_of_freshSlots first, Machine.eq_of_freshSlots second]
        exact (bound.twins bound' index).earlier fun ref new => world.new_of_readied _ _ _ new
    · obtain ⟨later, machine, refused⟩ := hosting_refuses setting
        (holding caller request) chain passes idle refuses
      obtain ⟨stopped, failed⟩ := direct.refuses refuses
      exact .inr ⟨fault, later, machine, stopped, refuses,
        during_handed (begins.tail ⟨not_answers_running, refused⟩), failed⟩
  · intro later machine value reached last returns quiet onward
    obtain ⟨middle, ended, spent, returned, stopped⟩ :=
      returned_answers (serves_of_asks asks allowed idle reached) quiet onward last returns
    have returning := reached.tail ⟨not_answers_running, returned⟩
    exact ⟨ended, spent, during_handed (returning.tail ⟨not_answers_running, stopped⟩)⟩

/-- A session with a function that gathers all its arguments but one, and returns what it has
gathered. -/
def gathering : Session where
  program := { main := 0, limits := { stackSize := 6 } }
  host := .standard
  world := { store := { cells := #[.function { code := {} }, .function { code := {
    arity := 1, variadic := true, instructions := #[Opcode.ret.byte, 1] } }] } }
  machine := .blank { stackSize := 6 } {}

/-- The function called as a method by native code. -/
def gatheringCall : Request :=
  { callee := .function 1, receiver := some (.int 5), arguments := #[.int 6, .int 7] }

/-- The function about to be called as a bound method by an instruction. -/
def gatheringActive : Active where
  world := gathering.world
  machine :=
    { stack := #[.bound 0 .strong (.function 1) (.int 5), .int 6, .int 7, .undefined, .undefined,
        .undefined]
      sp := 3
      calls := CallStack.empty.push
        { function := some 0, code := { instructions := #[Opcode.call.byte, 2, 0, 0, 0] } }
      code := #[Opcode.call.byte, 2, 0, 0, 0]
      ip := 1
      budget := 0 }

def gatheringDirect : DirectCall ⟨gathering.program, fun _ => []⟩ gatheringActive 1
    (gathering.world.store.function 1).code #[.int 5, .int 6, .int 7] {} where
  size := 6
  sound := by
    refine ⟨rfl, by decide, .bottom rfl (by decide), ?_⟩
    intro frame callers same
    cases same
    rfl
  spelled :=
    { below := []
      callee := .bound 0 .strong (.function 1) (.int 5)
      ref := 1
      receiver := #[.int 5]
      brings := .method 0 .strong (.int 5)
      count := 2
      positional := [.int 6, .int 7]
      counted := rfl
      spreadFlag := 0
      spreadSlots := []
      elements := #[]
      spreads := .missing
      keyFlag := 0
      keySlots := []
      named := ∅
      names := .missing
      catchFlag := 0
      catchSlots := []
      caught := ∅
      catches := .missing
      keywords := ∅
      union := fun name => (Option.or_self).symm
      rest := []
      code := rfl
      stack := rfl }
  present := by
    intro id hold callee value bound
    cases bound
    rfl
  fits := by
    show 1 < 1024 ∧ 0 + 1 + 2 ≤ 6
    decide
  ref_eq := rfl
  code_eq := rfl
  arguments_eq := rfl
  keywords_eq := rfl

theorem gathering_entered : (match step (gathering.setting []) (hosting (gathering.setting [])
      gathering.world 1 #[.int 5, .int 6, .int 7] gatheringCall.keywords
      (holding gathering.caller gatheringCall) []) with
    | .next ⟨world, .running machine chain⟩ => some (world.aborting, machine.expiry? world.store,
        machine.frames.length, machine.code, machine.ip, machine.sp, machine.stack[2]?,
        match step (gathering.setting []) ⟨world, .running machine chain⟩ with
        | .next ⟨later, .running after _⟩ => some (later.aborting, after.expiry? later.store)
        | _ => none)
    | _ => none) =
    some (false, none, 2, #[Opcode.ret.byte, 1], 0, 3, some (.array .writable 4),
      some (false, none)) := by cbv

theorem passes_gathering : (hosting (gathering.setting []) gathering.world 1
    #[.int 5, .int 6, .int 7] gatheringCall.keywords (holding gathering.caller gatheringCall) []).Passes :=
  ⟨rfl, rfl⟩

/-- Both ways of calling the method enter it with three arguments, and native code gets the array in
which the last two have been gathered. -/
theorem native_calls_agree_with_calls_gathering :
    (∃ (hosted entered : Active) (locals locals' : Array Value),
      Act.execute ⟨gathering.program, fun _ => []⟩ .call gatheringActive = .ok .proceed entered ∧
      hosted.machine.Enters 1 #[.int 5, .int 6, .int 7] {} locals ∧
      entered.machine.Enters 1 #[.int 5, .int 6, .int 7] {} locals' ∧
      locals.size = locals'.size) ∧
    ∃ ended spent, During (gathering.setting []) gathering.caller []
      (gathering.calling gatheringCall)
      ⟨ended, .native (.answer (.ok (.array .writable 4))) { gathering.caller with machine := spent }
        []⟩ := by
  have asks : Asks (gathering.setting []) gathering.world gatheringCall gathering.caller [] 1
      (#[.int 5] ++ #[.int 6, .int 7]) := .method rfl rfl
  have room : 1 + (gathering.world.store.function 1).code.frameSize ≤ max 6 3 := by decide
  obtain ⟨enters, answers⟩ := native_calls_agree_with_calls asks (by decide) rfl passes_gathering
    (by decide) room
  refine ⟨?_, ?_⟩
  · rcases enters _ _ gatheringDirect with
      ⟨hosted, entered, locals, locals', -, executed, one, other, size, -⟩ |
      ⟨fault, -, -, -, refuses, -⟩
    · exact ⟨hosted, entered, locals, locals', executed, one, other, size⟩
    · exfalso
      cases refuses with
      | tooFew variadic short => exact absurd short (by decide)
      | miscounted fixed => cases fixed
      | unwanted count closed none name passed => cases passed
      | unknown count closed some => exact some rfl
  · have accepts : (gathering.world.store.function 1).code.Accepts
        #[.int 5, .int 6, .int 7] gatheringCall.keywords :=
      ⟨show 1 ≤ 3 by decide, .inr (by intro name passed; cases passed)⟩
    obtain ⟨parameters, hosted, stepped, -, -⟩ := hosting_enters (gathering.setting [])
      (holding gathering.caller gatheringCall) [] passes_gathering rfl (by decide) room accepts
    have looked := gathering_entered
    rw [stepped] at looked
    simp only [Option.some.injEq, Prod.mk.injEq] at looked
    obtain ⟨calm, timely, frames, code, ip, used, top, again⟩ := looked
    have returned : hosted.machine.code[hosted.machine.ip]? = some Opcode.ret.byte := by
      rw [code, ip]
      rfl
    have valued : hosted.machine.code[hosted.machine.ip + 1]? = some 1 := by
      rw [code, ip]
      rfl
    have returns : hosted.machine.Returns (.array .writable 4) :=
      .value returned valued (by decide) used top
    refine answers _ _ _ ((during_begins asks (by decide) rfl).tail
      ⟨not_answers_running, stepped⟩) frames returns ⟨calm, timely⟩ fun next went => ?_
    rw [went] at again
    obtain ⟨later, machine | _⟩ := next
    · simpa [Passes] using again
    · trivial

end Execution

end ScriptMachine
