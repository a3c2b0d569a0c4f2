import ScriptMachine.Proofs.WorldEffects
import ScriptMachine.Execution

/-! What one step of an execution can be: an act of the machine at work, or something that native
code does while that machine waits. Whatever is true of every turn is true of every run. -/

namespace ScriptMachine

namespace Control

def active : Control → Machine
  | .running machine _ => machine
  | .native _ caller _ => caller.machine

def waiting : Control → List Suspended
  | .running _ chain => chain
  | .native _ _ chain => chain

end Control

def World.release (world : World) : Option Ref → World
  | some function => world.setBusy function false
  | none => world

namespace Execution

/-- A machine that stops above another one gives its budget back and answers with the fault it stops with,
or else with what is in its lowest slot. -/
theorem finish_cons_cases (active : Active) (result : Except Fault Value) (caller : Suspended)
    (chain : List Suspended) :
    (∃ answer, (∀ fault, answer = .error fault → result = .error fault) ∧
      (∀ value, answer = .ok value → active.machine.stack[0]? = some value) ∧
      finish active result (caller :: chain) =
        .next ⟨active.world.release active.machine.serves, .native (.answer answer)
          { caller with machine := { caller.machine with budget := active.machine.budget } } chain⟩) ∨
    active.machine.stack[0]? = none ∧ finish active result (caller :: chain) = .broken := by
  cases result with
  | error fault =>
    refine .inl ⟨.error fault, fun _ same => same, ?_, rfl⟩
    intro value impossible
    cases impossible
  | ok value =>
    simp only [finish]
    cases active.machine.stack[0]? with
    | none => exact .inr ⟨rfl, rfl⟩
    | some slot =>
      refine .inl ⟨.ok slot, ?_, ?_, rfl⟩
      · intro fault impossible
        cases impossible
      · intro value same
        rw [Except.ok.inj same]

/-- The act that the next step consists of, with what it works on. Native code that is not done has
none. -/
def act? (setting : Setting) : Execution → Option (Act Next × Active)
  | ⟨world, .running machine chain⟩ =>
    some (Act.step ⟨setting.program, fun _ => setting.outside chain⟩, ⟨world, machine⟩)
  | ⟨_, .native (.answer _) ⟨_, .host, []⟩ _⟩ => none
  | ⟨world, .native (.answer result) ⟨machine, pending, []⟩ _⟩ =>
    some (Act.resume setting.program.limits pending result, ⟨world, machine⟩)
  | _ => none

/-- Native code before and after something is done for a task: more of it waits, or the innermost has
taken an answer. -/
inductive Continues (task : Task) (before after : List Native) : Prop where
  | under (more : before <:+ after)
  | taken (result : Except Fault Value) (native : Native) (given : task = .answer result)
      (top : before = native :: after)

/-- The ways in which a step can turn out. -/
inductive Turn (setting : Setting) : Execution → Progress → Prop where
  | instruction {world : World} {machine : Machine} {chain : List Suspended} :
      Turn setting ⟨world, .running machine chain⟩
        (afterAct chain
          (Act.step ⟨setting.program, fun _ => setting.outside chain⟩ ⟨world, machine⟩))
  | completion {world : World} {result : Except Fault Value} {machine : Machine} {pending : Pending}
      {chain : List Suspended} (waits : pending ≠ .host) :
      Turn setting ⟨world, .native (.answer result) ⟨machine, pending, []⟩ chain⟩
        (afterAct chain (Act.resume setting.program.limits pending result ⟨world, machine⟩))
  | reply {world : World} {result : Except Fault Value} {machine : Machine}
      {chain : List Suspended} :
      Turn setting ⟨world, .native (.answer result) ⟨machine, .host, []⟩ chain⟩
        (.done world machine result)
  /-- Native code goes on; its machine still waits. -/
  | native {world later : World} {task next : Task} {caller : Suspended} {chain : List Suspended}
      (natives : List Native) (silent : act? setting ⟨world, .native task caller chain⟩ = none)
      (continues : Continues task caller.natives natives) (follows : world.Follows later) :
      Turn setting ⟨world, .native task caller chain⟩
        (.next ⟨later, .native next { caller with natives } chain⟩)
  /-- Native code has a function run on a machine of its own. -/
  | child {world later : World} {task : Task} {caller : Suspended} {chain : List Suspended}
      (natives : List Native) (function : Ref) (arguments keywords : Value)
      (silent : act? setting ⟨world, .native task caller chain⟩ = none)
      (allowed : caller.machine.nesting < setting.program.limits.maxNestedCalls)
      (under : caller.natives <:+ natives) (idle : world.store.isIdle function = true)
      (follows : (world.setBusy function true).Follows later)
      (grows : world.store.cells.size < later.store.cells.size) :
      Turn setting ⟨world, .native task caller chain⟩
        (.next ⟨later, .running
          (child setting.program.limits caller.machine function arguments keywords)
          ({ caller with natives } :: chain)⟩)

section Native

variable {setting : Setting} {world : World} {task : Task} {caller : Suspended}
  {chain : List Suspended} {natives : List Native}

theorem turn_enterChild (silent : act? setting ⟨world, .native task caller chain⟩ = none)
    (under : caller.natives <:+ natives) (function : Ref) (arguments : Array Value)
    (keywords : Table Value) :
    Turn setting ⟨world, .native task caller chain⟩
      (enterChild setting world function arguments keywords { caller with natives } chain) := by
  unfold enterChild
  split
  · exact .native natives silent (.under under) (.refl world)
  next shallow =>
    split
    · exact .native natives silent (.under under) (.refl world)
    next free =>
      have make : (world.setBusy function true).Follows
          ((world.setBusy function true).compute (do
            return (← StoreM.newArray arguments .writable, ← StoreM.newMap keywords .writable))).2 := by
        refine World.follows_compute _ ((StoreM.harmless_newArray _ _).bind fun array => ?_)
        exact (StoreM.harmless_newMap _ _).bind fun map => StoreM.behaves_pure _
      refine .child natives function _ _ silent (Nat.lt_of_not_le shallow) under (by simpa using free)
        make ?_
      show world.store.cells.size <
        (((world.store.setBusy function true).cells.push (.array arguments)).push (.map keywords)).size
      simp only [Array.size_push, Store.setBusy, Array.size_modify]
      omega

theorem turn_callPlain (silent : act? setting ⟨world, .native task caller chain⟩ = none)
    (under : caller.natives <:+ natives) (request : Request) :
    Turn setting ⟨world, .native task caller chain⟩
      (callPlain setting world request { caller with natives } chain) := by
  unfold callPlain
  split
  · exact turn_enterChild silent under _ _ _
  · split
    · exact .native natives silent (.under under) (.refl world)
    · exact turn_enterChild silent under _ _ _
    · exact .native natives silent (.under under) (.refl world)
  · exact .native natives silent (.under under) (.refl world)

theorem turn_call (silent : act? setting ⟨world, .native task caller chain⟩ = none)
    (request : Request) :
    Turn setting ⟨world, .native task caller chain⟩ (call setting world request caller chain) := by
  have under : caller.natives <:+ .holding request.callee :: caller.natives := List.suffix_cons _ _
  unfold call
  dsimp only
  split
  · exact turn_callPlain silent under request
  · exact turn_enterChild silent under _ _ _
  next receiver _ _ =>
    have follows := world.follows_compute (StoreM.harmless_bind .strong receiver request.callee)
    split
    next made =>
      rw [made] at follows
      exact .native _ silent (.under under) follows
    next made =>
      rw [made] at follows
      exact .native _ silent (.under under) follows

theorem turn_construct (silent : act? setting ⟨world, .native task caller chain⟩ = none)
    (under : caller.natives <:+ natives) (type : Ref) (context : CallContext) :
    Turn setting ⟨world, .native task caller chain⟩
      (construct world type context { caller with natives } chain) := by
  unfold construct
  split
  · split
    · have made := (StoreM.harmless_newObjectWith type context.keywords).bind fun ref =>
        StoreM.behaves_pure (Value.object ref)
      exact .native natives silent (.under under) (world.follows_compute made)
    · exact .native natives silent (.under under) (.refl world)
  · have follows := world.follows_compute (StoreM.harmless_newObject type)
    split
    next made =>
      rw [made] at follows
      exact .native _ silent (.under (under.trans (List.suffix_cons _ _))) follows
    next made =>
      rw [made] at follows
      exact .native natives silent (.under under) follows
  · exact .native natives silent (.under under) (.refl world)

theorem turn_invoke (silent : act? setting ⟨world, .native task caller chain⟩ = none)
    (callee : Value) (context : CallContext) :
    Turn setting ⟨world, .native task caller chain⟩
      (invoke setting world callee context caller chain) := by
  have under : caller.natives <:+ .label callee :: caller.natives := List.suffix_cons _ _
  have pass (next : Task) : Turn setting ⟨world, .native task caller chain⟩ (.next ⟨world,
      .native next { caller with natives := .label callee :: caller.natives } chain⟩) :=
    .native _ silent (.under under) (.refl world)
  cases callee with
  | builtin id entry =>
    exact .native _ silent (.under under)
      (world.follows_compute (Builtin.anonymous_run context _))
  | mapper id subject =>
    exact .native _ silent (.under under)
      (world.follows_compute (anonymous_runMapper _ context))
  | type ref => exact turn_construct silent under ref context
  | _ => exact pass _

theorem turn_routine (silent : act? setting ⟨world, .native task caller chain⟩ = none)
    (context : CallContext) (program : HostProgram) :
    Turn setting ⟨world, .native task caller chain⟩
      (routine world context program caller chain) := by
  have same : Continues task caller.natives caller.natives := .under (List.suffix_refl _)
  have made {make : StoreM Value} (harmless : StoreM.Harmless make) (next : Value → HostProgram) :
      Turn setting ⟨world, .native task caller chain⟩
        (routine.made world context caller chain make next) := by
    have follows := world.follows_compute harmless
    unfold routine.made
    split
    next made =>
      rw [made] at follows
      exact .native caller.natives silent same follows
    next made =>
      rw [made] at follows
      exact .native caller.natives silent same follows
  unfold routine
  cases program with
  | reply result => exact .native caller.natives silent same (.refl world)
  | inspect next => exact .native caller.natives silent same (.refl world)
  | newArray elements next => exact made (StoreM.harmless_newArray _ _) next
  | newMap entries next => exact made (StoreM.harmless_newMap _ _) next
  | newError payload next => exact made (StoreM.harmless_newError _) next
  | call request held next =>
    exact .native _ silent (.under (List.suffix_cons _ _)) (.refl world)
  | abort next => exact .native caller.natives silent same ⟨.refl _, .refl _, fun _ => rfl⟩

theorem turn_deliver (result : Except Fault Value) :
    Turn setting ⟨world, .native (.answer result) caller chain⟩
      (deliver setting world result caller chain) := by
  obtain ⟨machine, pending, natives⟩ := caller
  cases natives with
  | nil => cases pending with
    | host => exact .reply
    | push held => exact .completion (by simp)
    | walk assignment rest held => exact .completion (by simp)
    | finish held => exact .completion (by simp)
    | native start fromStack => exact .completion (by simp)
  | cons native natives =>
    have silent : act? setting
        ⟨world, .native (.answer result) ⟨machine, pending, native :: natives⟩ chain⟩ = none := by
      cases pending with
      | _ => rfl
    have taken : Continues (.answer result) (native :: natives) natives := .taken result native rfl rfl
    cases native with
    | label callee => exact .native natives silent taken (.refl world)
    | holding callee => exact .native natives silent taken (.refl world)
    | construct object => exact .native natives silent taken (.refl world)
    | routine context held next =>
      simp only [deliver]
      split
      · exact .native natives silent taken (.refl world)
      · exact .native natives silent taken (.refl world)

end Native

theorem turn_step (setting : Setting) (execution : Execution) :
    Turn setting execution (step setting execution) := by
  obtain ⟨world, control⟩ := execution
  cases control with
  | running machine chain => exact .instruction
  | native task caller chain =>
    cases task with
    | call request => exact turn_call rfl request
    | invoke callee context => exact turn_invoke rfl callee context
    | routine context program => exact turn_routine rfl context program
    | answer result => exact turn_deliver result

end Execution

end ScriptMachine
