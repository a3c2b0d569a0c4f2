import ScriptMachine.Proofs.CompletedInstructions

/-! What acts do to the stack: they take values off it, put values on it and leave the slots below
alone. Rules follow the way acts are put together, so the numbers of an instruction are sums. -/

namespace ScriptMachine

namespace Machine

/-- A machine that has taken some values off its stack, has then put some on it and is otherwise the
same, but for its budget and perhaps one `place` on the stack. The slots that it has left are empty. -/
structure Shifts (place : Option Nat) (taken given : Nat) (before after : Machine) : Prop where
  enough : taken ≤ before.sp
  sp : after.sp = before.sp - taken + given
  size : after.stack.size = before.stack.size
  below : ∀ slot, slot < before.sp - taken → place ≠ some slot →
    after.stack[slot]? = before.stack[slot]?
  above : ∀ slot, after.sp ≤ slot → place ≠ some slot →
    after.stack[slot]? = if slot < before.sp then some .undefined else before.stack[slot]?
  setup : after.setup = before.setup
  ip : after.ip = before.ip

namespace Shifts

variable {place : Option Nat} {taken more given : Nat} {before middle after : Machine}

theorem refl (place : Option Nat) (machine : Machine) : machine.Shifts place 0 0 machine where
  enough := Nat.zero_le _
  sp := rfl
  size := rfl
  below _ _ _ := rfl
  above slot high _ := by rw [if_neg (Nat.not_lt_of_le high)]
  setup := rfl
  ip := rfl

theorem trans (first : before.Shifts place taken 0 middle)
    (second : middle.Shifts place more given after) :
    before.Shifts place (taken + more) given after := by
  have middleSp : middle.sp = before.sp - taken := first.sp
  have enough := first.enough
  have enoughMore := second.enough
  refine ⟨by omega, ?_, second.size.trans first.size, ?_, ?_, second.setup.trans first.setup,
    second.ip.trans first.ip⟩
  · rw [second.sp, middleSp, Nat.sub_sub]
  · intro slot low other
    rw [second.below slot (by omega) other, first.below slot (by omega) other]
  · intro slot high other
    rw [second.above slot high other]
    by_cases left : slot < middle.sp
    · rw [if_pos left, if_pos (by omega)]
    · rw [if_neg left, first.above slot (Nat.le_of_not_lt left) other]

theorem atPlace (shifts : before.Shifts none taken given after) (place : Option Nat) :
    before.Shifts place taken given after :=
  ⟨shifts.enough, shifts.sp, shifts.size, fun slot low _ => shifts.below slot low nofun,
    fun slot high _ => shifts.above slot high nofun, shifts.setup, shifts.ip⟩

theorem atIp (shifts : before.Shifts place taken given after) (ip : Nat) :
    Machine.Shifts place taken given { before with ip } { after with ip } :=
  ⟨shifts.enough, shifts.sp, shifts.size, shifts.below, shifts.above, shifts.setup, rfl⟩

theorem ofSpent (spent : before.Spent after) : before.Shifts none 0 0 after := by
  rw [spent.same]
  exact ⟨Nat.zero_le _, rfl, rfl, fun _ _ _ => rfl,
    fun slot high _ => by rw [if_neg (Nat.not_lt_of_le high)], rfl, rfl⟩

end Shifts

end Machine

namespace Act

variable {α β : Type} {place : Option Nat} {taken more given : Nat}

/-- Whenever it does not fail, the act takes and gives so many values. -/
def Effect (place : Option Nat) (taken given : Nat) (act : Act α) : Prop :=
  ∀ active value after, act active = .ok value after →
    active.machine.Shifts place taken given after.machine

namespace Effect

variable {act first : Act α} {rest : α → Act β}

theorem bind (begins : Effect place taken 0 first) (next : ∀ value, Effect place more given (rest value)) :
    Effect place (taken + more) given (first >>= rest) := by
  intro active result after done
  obtain ⟨value, middle, begun, ended⟩ := bind_eq_ok done
  exact (begins _ _ _ begun).trans (next _ _ _ _ ended)

/-- What only looks around, or changes the world, does not count. -/
theorem after (begins : Effect place 0 0 first) (next : ∀ value, Effect place taken given (rest value)) :
    Effect place taken given (first >>= rest) := by
  have whole := begins.bind next
  rwa [Nat.zero_add] at whole

theorem before (begins : Effect place taken 0 first) (next : ∀ value, Effect place 0 given (rest value)) :
    Effect place taken given (first >>= rest) := begins.bind next

end Effect

/-- An act that only looks around. Nothing has changed when it does not fail. -/
def Looks (act : Act α) : Prop :=
  ∀ active value after, act active = .ok value after → after = active

namespace Looks

theorem bind {act : Act α} {rest : α → Act β} (first : Looks act) (next : ∀ value, Looks (rest value)) :
    Looks (act >>= rest) := by
  intro active result after done
  obtain ⟨value, middle, begun, ended⟩ := bind_eq_ok done
  obtain rfl := first active value middle begun
  exact next value middle result after ended

theorem bind_eq_ok {act : Act α} {rest : α → Act β} {active after : Active} {result : β}
    (first : Looks act) (done : (act >>= rest) active = .ok result after) :
    ∃ value, act active = .ok value active ∧ rest value active = .ok result after := by
  obtain ⟨value, middle, begun, ended⟩ := ScriptMachine.bind_eq_ok done
  obtain rfl := first active value middle begun
  exact ⟨value, begun, ended⟩

theorem ite {condition : Prop} [Decidable condition] {yes no : Act α} (positive : Looks yes)
    (negative : Looks no) : Looks (if condition then yes else no) := by
  split
  · exact positive
  · exact negative

theorem effect {act : Act α} (looks : Looks act) : Effect place 0 0 act := by
  intro active value after done
  obtain rfl := looks active value after done
  exact .refl place after.machine

end Looks

section Looking

theorem looks_pure (value : α) : Looks (pure value : Act α) := by
  rintro active result after ⟨⟩
  rfl

theorem looks_fail (fault : Fault) : Looks (fail fault : Act α) := by
  rintro active result after ⟨⟩

theorem looks_readStore (view : Store → α) : Looks (readStore view) := by
  rintro active result after ⟨⟩
  rfl

theorem looks_readMachine (view : Machine → α) : Looks (readMachine view) := by
  rintro active result after ⟨⟩
  rfl

theorem looks_ofExcept (result : Except Fault α) : Looks (ofExcept result) := by
  cases result with
  | ok value => exact looks_pure value
  | error fault => exact looks_fail fault

theorem slot_eq_ok {active after : Active} {index : Nat} {value : Value}
    (read : slot index active = .ok value after) :
    active.machine.stack[index]? = some value ∧ after = active := by
  unfold slot at read
  split at read
  next found =>
    cases read
    exact ⟨found, rfl⟩
  · cases read

theorem looks_slot (index : Nat) : Looks (slot index) := fun _ _ _ read => (slot_eq_ok read).2

theorem looks_slots (first last : Nat) : Looks (slots first last) := by
  intro active values after done
  unfold slots at done
  split at done
  · cases done
    rfl
  · cases done

theorem looks_top : Looks top := by
  intro active value after done
  unfold top at done
  split at done
  · cases done
  · exact looks_slot _ _ _ _ done

theorem looks_frame : Looks frame := by
  intro active value after done
  unfold frame at done
  split at done
  · cases done
    rfl
  · cases done

theorem looks_global (index : Nat) : Looks (global index) := by
  intro active value after done
  unfold global at done
  split at done
  · cases done
    rfl
  · cases done

theorem looks_receiver (around : Surroundings) (hold : Hold) (value : Value) :
    Looks (receiver around hold value) := by
  intro active result after done
  simp only [receiver] at done
  split at done
  · cases done
    rfl
  · cases done

theorem looks_unboxed (value : Value) : Looks (unboxed value) := by
  unfold unboxed
  split
  · exact looks_readStore _
  · exact looks_pure _

theorem looks_freeBox (index : Nat) : Looks (freeBox index) := by
  refine looks_frame.bind fun frame => ?_
  split
  · exact looks_pure _
  · exact looks_fail _

theorem looks_spreadArguments (spreads : Bool) (index : Nat) :
    Looks (spreadArguments spreads index) := by
  refine .ite ((looks_slot index).bind fun value => ?_) (looks_pure _)
  unfold spread
  split
  · exact looks_readStore _
  · exact (looks_readStore _).bind fun _ => looks_fail _

theorem looks_requireCallable (callee : Value) : Looks (requireCallable callee) :=
  .ite (looks_pure _) ((looks_readStore _).bind fun _ => looks_fail _)

theorem looks_gatherKeywords (keywords : Table Value) (maps : List Value) :
    Looks (gatherKeywords keywords maps) := by
  induction maps generalizing keywords with
  | nil => exact looks_pure _
  | cons value rest ih =>
    unfold gatherKeywords
    split
    · exact looks_pure _
    next same => cases same; exact (looks_readStore _).bind fun _ => ih _
    next same => cases same; exact ih _
    next same => cases same; exact (looks_readStore _).bind fun _ => looks_fail _

end Looking

section Primitives

theorem effect_fail (fault : Fault) : Effect place taken given (fail fault : Act α) := by
  rintro active value after ⟨⟩

theorem effect_failHere : Effect place taken given (failHere : Act α) := by
  rintro active value after ⟨⟩

theorem onStore_eq_ok {action : StoreM α} {active after : Active} {value : α}
    (done : onStore action active = .ok value after) :
    ∃ store, action active.world.store = .ok value store ∧
      after = ⟨{ active.world with store }, active.machine⟩ := by
  unfold onStore World.compute at done
  dsimp only at done
  cases computed : action active.world.store with
  | ok result store =>
    rw [computed] at done
    cases done
    exact ⟨store, rfl, rfl⟩
  | error fault store =>
    rw [computed] at done
    cases done

theorem effect_onStore (action : StoreM α) : Effect place 0 0 (onStore action) := by
  intro active value after done
  obtain ⟨store, -, rfl⟩ := onStore_eq_ok done
  exact .refl place active.machine

theorem effect_charge (limits : Limits) : Effect place 0 0 (charge limits) := by
  intro active value after done
  unfold charge at done
  dsimp only at done
  split at done
  · cases done
    exact .refl place active.machine
  · split at done
    · cases done
    · cases done
      exact ⟨Nat.zero_le _, rfl, rfl, fun _ _ _ => rfl,
        fun slot high _ => by rw [if_neg (Nat.not_lt_of_le high)], rfl, rfl⟩

theorem effect_push (value : Value) : Effect place 0 1 (push value) := by
  intro active done after pushed
  unfold push at pushed
  dsimp only at pushed
  split at pushed
  next room =>
    cases pushed
    refine ⟨Nat.zero_le _, rfl, by simp, ?_, ?_, rfl, rfl⟩
    · intro slot low _
      exact Array.getElem?_setIfInBounds_ne (by omega)
    · intro slot high _
      rw [if_neg (by dsimp only at high; omega)]
      exact Array.getElem?_setIfInBounds_ne (by dsimp only at high; omega)
  · cases pushed

theorem effect_pushCharged (limits : Limits) (value : Value) :
    Effect place 0 1 (pushCharged limits value) :=
  (effect_charge limits).after fun _ => effect_push value

theorem shifts_dropTo {active after : Active} {start : Nat}
    (dropped : dropTo start active = .ok () after) :
    start ≤ active.machine.sp ∧
      active.machine.Shifts place (active.machine.sp - start) 0 after.machine := by
  unfold dropTo at dropped
  dsimp only at dropped
  split at dropped
  next inside =>
    cases dropped
    obtain ⟨used, room⟩ := inside
    refine ⟨used, Nat.sub_le _ _, by dsimp only; omega, by simp, ?_, ?_, rfl, rfl⟩
    · intro slot low _
      rw [Machine.getElem?_clearSlots _ _ _ _ (by omega), if_neg (by omega)]
    · intro slot high _
      dsimp only at high
      by_cases left : slot < active.machine.sp
      · rw [Machine.getElem?_clearSlots _ _ _ _ (by omega), if_pos (by omega), if_pos left]
      · by_cases exists_slot : slot < active.machine.stack.size
        · rw [Machine.getElem?_clearSlots _ _ _ _ exists_slot, if_neg (by omega), if_neg left]
        · rw [if_neg left, Array.getElem?_eq_none (by simpa using exists_slot),
            Array.getElem?_eq_none (by simpa using exists_slot)]
  · cases dropped

theorem pop_eq_ok {active after : Active} {value : Value} (popped : pop active = .ok value after) :
    ∃ below, active.machine.sp = below + 1 ∧ active.machine.stack[below]? = some value ∧
      after = ⟨active.world, { active.machine with
        stack := active.machine.stack.setIfInBounds below .undefined
        sp := below }⟩ := by
  unfold pop at popped
  dsimp only at popped
  split at popped
  · cases popped
  next below used =>
    split at popped
    · cases popped
    next found =>
      cases popped
      exact ⟨below, used, found, rfl⟩

theorem effect_pop : Effect place 1 0 pop := by
  intro active value after popped
  obtain ⟨below, used, found, rfl⟩ := pop_eq_ok popped
  obtain ⟨inside, -⟩ := Array.getElem?_eq_some_iff.mp found
  refine ⟨by omega, by dsimp only; omega, by simp, ?_, ?_, rfl, rfl⟩
  · intro slot low _
    exact Array.getElem?_setIfInBounds_ne (by omega)
  · intro slot high _
    dsimp only at high
    by_cases same : below = slot
    · subst same
      rw [if_pos (by omega)]
      exact Array.getElem?_setIfInBounds_self_of_lt inside
    · rw [if_neg (by omega)]
      exact Array.getElem?_setIfInBounds_ne same

theorem effect_popMany (count : Nat) : Effect place count 0 (popMany count) := by
  intro active values after popped
  obtain ⟨sp, _, read, rest⟩ := bind_eq_ok popped
  cases read
  split at rest
  · cases rest
  next enough =>
    obtain ⟨_, middle, taken, rest⟩ := bind_eq_ok rest
    obtain ⟨_, last, dropped, done⟩ := bind_eq_ok rest
    cases done
    unfold slots at taken
    split at taken
    · cases taken
      obtain ⟨-, shifts⟩ := @shifts_dropTo place _ _ _ dropped
      have count_eq : active.machine.sp - (active.machine.sp - count) = count :=
        Nat.sub_sub_self (Nat.le_of_not_lt enough)
      rwa [count_eq] at shifts
    · cases taken

theorem effect_setSlot (index : Nat) (value : Value) :
    Effect (some index) 0 0 (setSlot index value) := by
  intro active done after written
  unfold setSlot at written
  dsimp only at written
  split at written
  · cases written
    refine ⟨Nat.zero_le _, rfl, by simp, ?_, ?_, rfl, rfl⟩
    · intro slot low other
      exact Array.getElem?_setIfInBounds_ne fun same => other (congrArg some same)
    · intro slot high other
      rw [if_neg (Nat.not_lt_of_le high)]
      exact Array.getElem?_setIfInBounds_ne fun same => other (congrArg some same)
  · cases written

theorem effect_setTop (value : Value) : Effect place 1 1 (setTop value) := by
  intro active done after written
  unfold setTop at written
  split at written
  · cases written
  next below used =>
    have shifts := effect_setSlot below value active done after written
    refine ⟨by omega, by rw [shifts.sp]; omega, shifts.size, ?_, ?_, shifts.setup, shifts.ip⟩
    · intro slot low _
      exact shifts.below slot (by omega) (by simp; omega)
    · intro slot high _
      have same := shifts.sp
      exact shifts.above slot high (by simp; omega)

theorem effect_setGlobal (index : Nat) (value : Value) :
    Effect place 0 0 (setGlobal index value) := by
  intro active value after done
  unfold setGlobal at done
  dsimp only at done
  split at done
  · cases done
    exact .refl place active.machine
  · cases done

theorem effect_popIterator : Effect place 1 0 popIterator := by
  refine effect_pop.before fun value => ?_
  split
  · exact (looks_pure _).effect
  · exact (looks_readStore _).effect.after fun _ => effect_fail _

theorem effect_closureOf (program : Program) (index count : Nat) :
    Effect place count 1 (closureOf program index count) := by
  unfold closureOf
  split
  · refine (looks_readStore _).effect.after fun callee => ?_
    refine (effect_popMany count).before fun values => ?_
    refine (effect_onStore _).after fun free => ?_
    refine (effect_charge _).after fun _ => ?_
    exact (effect_onStore _).after fun ref => effect_push _
  · exact (looks_readStore _).effect.after fun _ => effect_fail _
  · exact effect_failHere

end Primitives

end Act

/-- What a waiting instruction still puts on the stack once its answer comes. -/
inductive Pending.Owes : Pending → Nat → Prop where
  | push (held : List Value) : Owes (.push held) 1
  | walk (assignment : Assignment) (rest held : List Value) : Owes (.walk assignment rest held) 0
  | finish (held : List Value) : Owes (.finish held) 0

/-- An instruction that goes on has taken and given so many values. One that waits has taken them all
and owes what it gives. -/
def Machine.Settled (place : Option Nat) (taken given : Nat) (before : Machine) :
    Next → Machine → Prop
  | .proceed, after => before.Shifts place taken given after
  | .await _ pending, after => before.Shifts place taken 0 after ∧ pending.Owes given
  | .halt, _ => True

theorem Machine.Shifts.settled {place : Option Nat} {taken more given : Nat}
    {before middle after : Machine} {next : Next} (first : before.Shifts place taken 0 middle)
    (rest : middle.Settled place more given next after) :
    before.Settled place (taken + more) given next after := by
  cases next with
  | proceed => exact first.trans rest
  | halt => trivial
  | await task pending => exact ⟨first.trans rest.1, rest.2⟩

namespace Act

variable {α : Type} {place : Option Nat} {taken more given : Nat}

/-- Whenever it does not fail, the act settles for so many values. -/
def Settling (place : Option Nat) (taken given : Nat) (act : Act Next) : Prop :=
  ∀ active next after, act active = .ok next after →
    active.machine.Settled place taken given next after.machine

namespace Settling

variable {first : Act α} {rest : α → Act Next}

theorem bind (begins : Effect place taken 0 first) (next : ∀ value, Settling place more given (rest value)) :
    Settling place (taken + more) given (first >>= rest) := by
  intro active decided after done
  obtain ⟨value, middle, begun, ended⟩ := bind_eq_ok done
  exact (begins _ _ _ begun).settled (next _ _ _ _ ended)

theorem after (begins : Effect place 0 0 first) (next : ∀ value, Settling place taken given (rest value)) :
    Settling place taken given (first >>= rest) := by
  have whole := bind begins next
  rwa [Nat.zero_add] at whole

theorem before (begins : Effect place taken 0 first) (next : ∀ value, Settling place 0 given (rest value)) :
    Settling place taken given (first >>= rest) := bind begins next

end Settling

theorem settling_thenProceed {act : Act Unit} (effect : Effect place taken given act) :
    Settling place taken given (thenProceed act) := by
  intro active next after done
  obtain ⟨value, middle, begun, ended⟩ := bind_eq_ok done
  cases ended
  exact effect _ _ _ begun

theorem settling_proceed : Settling place 0 0 (pure .proceed) := by
  rintro active next after ⟨⟩
  exact .refl place active.machine

theorem settling_await {task : Task} {pending : Pending} (owes : pending.Owes given) :
    Settling place 0 given (pure (.await task pending)) := by
  rintro active next after ⟨⟩
  exact ⟨.refl place active.machine, owes⟩

theorem settling_failHere : Settling place taken given failHere := by
  rintro active next after ⟨⟩

/-- A walk along selectors puts nothing on the stack, wherever it has to wait. -/
theorem settling_walk (assignment : Assignment) (container : Value) (rest : List Value) :
    Settling place 0 0 (walk assignment container rest) := by
  induction rest generalizing container with
  | nil =>
    refine .after (effect_onStore _) fun answer => ?_
    cases answer with
    | value value => exact settling_proceed
    | call property request => exact settling_await (.finish _)
  | cons selector rest ih =>
    refine .after (effect_onStore _) fun answer => ?_
    cases answer with
    | value next => exact ih next
    | call property request => exact settling_await (.walk _ _ _)

theorem settling_assignPath (target : Value) (count : Nat) :
    Settling place (count + 1) 0 (assignPath target count) := by
  refine .bind (effect_popMany count) fun selectors => ?_
  refine .before effect_pop fun value => ?_
  split
  · exact settling_failHere
  · exact settling_walk _ _ _

theorem settling_pushIndexed (target index : Value) :
    Settling place 0 1 (pushIndexed target index) := by
  refine .after (effect_onStore _) fun answer => ?_
  cases answer with
  | value value => exact settling_thenProceed (effect_push value)
  | call property request => exact settling_await (.push _)

/-- Once the answer comes, the rest of an instruction takes nothing more and gives what it owes. -/
theorem settling_resume {pending : Pending} (owes : pending.Owes given) (limits : Limits)
    (result : Except Fault Value) : Settling place 0 given (resume limits pending result) := by
  refine .after (looks_ofExcept result).effect fun value => ?_
  cases owes with
  | push => exact settling_thenProceed (effect_push value)
  | walk => exact settling_walk _ _ _
  | finish => exact settling_proceed

end Act

end ScriptMachine
