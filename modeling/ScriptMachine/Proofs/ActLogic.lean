import ScriptMachine.Proofs.InvariantLogic
import ScriptMachine.Proofs.MachineMoves

/-! Rules for acts that make moves only and use no slot that is missing. They follow the way acts are
put together, so what an instruction does is read off its definition. -/

namespace ScriptMachine

namespace Act

variable {α β : Type} {limits : Limits} {size : Nat} {pre : Machine → Prop}

/-- On a machine in working order that meets `pre`, the act makes moves only, stops for no missing
slot, and its result meets `post`. -/
def Travels (limits : Limits) (size : Nat) (pre : Machine → Prop) (act : Act α)
    (post : α → Machine → Prop) : Prop :=
  ∀ active : Active, active.machine.Sound size → pre active.machine →
    match act active with
    | .ok value after =>
      Machine.Moves limits active.machine after.machine ∧ post value after.machine
    | .error stop after => stop ≠ .outOfRange ∧ Machine.Moves limits active.machine after.machine

abbrev Safe (limits : Limits) (size : Nat) (act : Act α) : Prop :=
  Travels limits size (fun _ => True) act fun _ _ => True

/-- An act that leaves the machine alone, with a result of which `fact` is true. -/
def Still (size : Nat) (act : Act α) (fact : α → Prop) : Prop :=
  ∀ active : Active, active.machine.Sound size →
    match act active with
    | .ok value after => after.machine = active.machine ∧ fact value
    | .error stop after => stop ≠ .outOfRange ∧ after.machine = active.machine

abbrev Quiet (size : Nat) (act : Act α) : Prop := Still size act fun _ => True

theorem Travels.bind {act : Act α} {rest : α → Act β} {middle : α → Machine → Prop}
    {post : β → Machine → Prop} (first : Travels limits size pre act middle)
    (next : ∀ value, Travels limits size (middle value) (rest value) post) :
    Travels limits size pre (act >>= rest) post := by
  intro active sound holds
  have begun := first active sound holds
  simp only [Bind.bind, EStateM.bind]
  cases done : act active with
  | error stop after =>
    rw [done] at begun
    exact begun
  | ok value after =>
    rw [done] at begun
    have ended := next value after (sound.moves begun.1) begun.2
    simp only
    cases finished : rest value after with
    | ok result last =>
      rw [finished] at ended
      exact ⟨begun.1.trans ended.1, ended.2⟩
    | error stop last =>
      rw [finished] at ended
      exact ⟨ended.1, begun.1.trans ended.2⟩

theorem Travels.weaken {act : Act α} {required : Machine → Prop} {post other : α → Machine → Prop}
    (travels : Travels limits size required act post)
    (implies : ∀ machine, pre machine → required machine)
    (gives : ∀ value machine, post value machine → other value machine) :
    Travels limits size pre act other := by
  intro active sound holds
  have ended := travels active sound (implies _ holds)
  cases done : act active with
  | ok value after =>
    rw [done] at ended
    exact ⟨ended.1, gives _ _ ended.2⟩
  | error stop after =>
    rw [done] at ended
    exact ended

theorem Travels.pure {post : α → Machine → Prop} {value : α}
    (holds : ∀ machine, pre machine → post value machine) :
    Travels limits size pre (Pure.pure value : Act α) post :=
  fun active _ met => ⟨.refl, holds active.machine met⟩

theorem Still.travels {act : Act α} {fact : α → Prop} {post : α → Machine → Prop}
    (still : Still size act fact)
    (holds : ∀ value machine, fact value → pre machine → post value machine) :
    Travels limits size pre act post := by
  intro active sound met
  have ended := still active sound
  cases done : act active with
  | ok value after =>
    rw [done] at ended
    obtain ⟨same, known⟩ := ended
    simp only [same]
    exact ⟨.refl, holds _ _ known met⟩
  | error stop after =>
    rw [done] at ended
    obtain ⟨fault, same⟩ := ended
    simp only [same]
    exact ⟨fault, .refl⟩

theorem Travels.ite {condition : Prop} [Decidable condition] {yes no : Act α}
    {post : α → Machine → Prop} (positive : condition → Travels limits size pre yes post)
    (negative : ¬condition → Travels limits size pre no post) :
    Travels limits size pre (if condition then yes else no) post := by
  by_cases holds : condition
  · rw [if_pos holds]
    exact positive holds
  · rw [if_neg holds]
    exact negative holds

theorem Still.bind {act : Act α} {rest : α → Act β} {fact : α → Prop} {post : β → Machine → Prop}
    (first : Still size act fact)
    (next : ∀ value, fact value → Travels limits size pre (rest value) post) :
    Travels limits size pre (act >>= rest) post := by
  have begun : Travels limits size pre act fun value machine => fact value ∧ pre machine :=
    first.travels fun _ _ known met => ⟨known, met⟩
  exact begun.bind fun value active sound known => next value known.1 active sound known.2

theorem Still.chain {act : Act α} {rest : α → Act β} {fact : α → Prop} {last : β → Prop}
    (first : Still size act fact) (next : ∀ value, fact value → Still size (rest value) last) :
    Still size (act >>= rest) last := by
  intro active sound
  have begun := first active sound
  simp only [Bind.bind, EStateM.bind]
  cases done : act active with
  | error stop after =>
    rw [done] at begun
    exact begun
  | ok value after =>
    rw [done] at begun
    have ended := next value begun.2 after (begun.1 ▸ sound)
    rw [begun.1] at ended
    exact ended

theorem Still.pure {fact : α → Prop} {value : α} (holds : fact value) :
    Still size (Pure.pure value : Act α) fact :=
  fun _ _ => ⟨rfl, holds⟩

theorem Travels.readMachine {view : Machine → α} {rest : α → Act β} {post : β → Machine → Prop}
    (next : ∀ value, Travels limits size (fun machine => pre machine ∧ view machine = value)
      (rest value) post) :
    Travels limits size pre (Act.readMachine view >>= rest) post :=
  fun active sound holds => next (view active.machine) active sound ⟨holds, rfl⟩

theorem Travels.assuming {act : Act α} {post : α → Machine → Prop} (fact : Prop)
    (follows : ∀ machine, machine.Sound size → pre machine → fact)
    (travels : fact → Travels limits size pre act post) : Travels limits size pre act post :=
  fun active sound holds => travels (follows _ sound holds) active sound holds

section Primitives

theorem Travels.fail {post : α → Machine → Prop} (fault : Fault) :
    Travels limits size pre (Act.fail fault) post :=
  fun _ _ _ => ⟨by simp, .refl⟩

theorem Travels.failHere {post : α → Machine → Prop} :
    Travels limits size pre (Act.failHere) post :=
  fun _ _ _ => ⟨by simp, .refl⟩

theorem still_fail {fact : α → Prop} (fault : Fault) : Still size (fail fault : Act α) fact :=
  fun _ _ => ⟨by simp, rfl⟩

theorem quiet_readStore (view : Store → α) : Quiet size (readStore view) := fun _ _ => ⟨rfl, trivial⟩

theorem quiet_readMachine (view : Machine → α) : Quiet size (Act.readMachine view) :=
  fun _ _ => ⟨rfl, trivial⟩

theorem still_onStore {action : StoreM α} {fact : α → Prop}
    (holds : ∀ store value after, action store = .ok value after → fact value) :
    Still size (onStore action) fact := by
  intro active _
  obtain ⟨⟨store, globals, aborting⟩, machine⟩ := active
  simp only [onStore, World.compute]
  cases done : action store with
  | ok value after => exact ⟨rfl, holds _ _ _ done⟩
  | error fault after => exact ⟨by simp, rfl⟩

theorem quiet_onStore (action : StoreM α) : Quiet size (onStore action) :=
  still_onStore fun _ _ _ _ => trivial

theorem quiet_ofExcept (result : Except Fault α) : Quiet size (ofExcept result) := by
  cases result with
  | ok value => exact .pure trivial
  | error fault => exact still_fail fault

theorem quiet_require {inside : Prop} [Decidable inside] (holds : inside) :
    Quiet size (require inside) := by
  intro active _
  simp only [require, if_pos holds]
  exact ⟨trivial, trivial⟩

theorem quiet_slot {index : Nat} (inside : index < size) : Quiet size (slot index) := by
  intro active sound
  have exists_slot : index < active.machine.stack.size := sound.slots ▸ inside
  simp only [slot, Array.getElem?_eq_getElem exists_slot]
  exact ⟨trivial, trivial⟩

theorem quiet_slots {first last : Nat} (ordered : first ≤ last) (inside : last ≤ size) :
    Quiet size (slots first last) := by
  intro active sound
  have range : first ≤ last ∧ last ≤ active.machine.stack.size := ⟨ordered, sound.slots ▸ inside⟩
  simp only [slots, if_pos range]
  exact ⟨trivial, trivial⟩

theorem quiet_frame : Quiet size frame := by
  intro active sound
  obtain ⟨running, callers, top⟩ := sound.frames.exists_running
  simp only [frame, top]
  exact ⟨trivial, trivial⟩

theorem safe_setSlot {index : Nat} (inside : index < size) (value : Value) :
    Safe limits size (setSlot index value) := by
  intro active sound _
  have exists_slot : index < active.machine.stack.size := sound.slots ▸ inside
  simp only [setSlot, if_pos exists_slot]
  exact ⟨.single (.write index value exists_slot), trivial⟩

theorem safe_push (value : Value) : Safe limits size (push value) := by
  intro active _ _
  by_cases room : active.machine.sp < active.machine.stack.size
  · simp only [push, if_pos room]
    exact ⟨.single (.push value room), trivial⟩
  · simp only [push, if_neg room]
    exact ⟨by simp, .refl⟩

theorem safe_pop : Safe limits size pop := by
  intro active sound _
  obtain ⟨world, machine⟩ := active
  simp only [pop]
  cases used : machine.sp with
  | zero => exact ⟨by simp, .refl⟩
  | succ below =>
    have inside : below < machine.stack.size := by
      have := sound.used
      have := sound.slots
      simp only at *
      omega
    have one : machine.sp - below = 1 := by omega
    have moved := @Machine.Move.drop limits machine below (by omega)
    rw [one] at moved
    simp only [Array.getElem?_eq_getElem inside]
    exact ⟨.single moved, trivial⟩

theorem quiet_top : Quiet size top := by
  intro active sound
  simp only [top]
  cases used : active.machine.sp with
  | zero => exact ⟨by simp, rfl⟩
  | succ below =>
    have inside : below < size := by
      have := sound.used
      omega
    exact quiet_slot inside active sound

theorem travels_setTop {value : Value} :
    Travels limits size (fun machine => 1 ≤ machine.sp) (setTop value) fun _ _ => True := by
  intro active sound used
  obtain ⟨world, machine⟩ := active
  simp only [setTop]
  cases slots : machine.sp with
  | zero => simp only [slots] at used; omega
  | succ below =>
    have inside : below < size := by
      have := sound.used
      simp only [slots] at this
      omega
    exact safe_setSlot inside value ⟨world, machine⟩ sound trivial

theorem travels_dropTo {start : Nat} :
    Travels limits size (fun machine => start ≤ machine.sp) (dropTo start)
      fun _ machine => machine.sp = start := by
  intro active sound used
  obtain ⟨world, machine⟩ := active
  have inside : start ≤ machine.sp ∧ machine.sp ≤ machine.stack.size :=
    ⟨used, sound.slots ▸ sound.used⟩
  simp only [dropTo, if_pos inside]
  exact ⟨.single (.drop start used), trivial⟩

theorem safe_popMany (count : Nat) : Safe limits size (popMany count) := by
  apply Travels.readMachine
  intro sp
  apply Travels.ite
  · intro _
    exact .fail _
  · intro enough
    apply Travels.assuming (sp ≤ size)
    · intro machine sound known
      obtain ⟨-, rfl⟩ := known
      exact sound.used
    · intro used
      refine (quiet_slots (Nat.sub_le _ _) used).bind fun values _ => ?_
      refine Travels.bind (travels_dropTo.weaken ?_ fun _ _ _ => trivial) fun _ => ?_
      · intro machine known
        obtain ⟨-, rfl⟩ := known
        exact Nat.sub_le _ _
      · exact .pure fun _ _ => trivial

theorem safe_readByte : Safe limits size readByte := by
  intro active _ _
  obtain ⟨world, machine⟩ := active
  simp only [readByte]
  cases Instruction.readByte? machine.code machine.ip with
  | none => exact ⟨by simp, .refl⟩
  | some operand => exact ⟨.single (.seek (machine.ip + 1) machine.opIp (Nat.le_refl _)), trivial⟩

theorem safe_readPair : Safe limits size readPair := by
  intro active _ _
  obtain ⟨world, machine⟩ := active
  simp only [readPair]
  cases Instruction.readPair? machine.code machine.ip with
  | none => exact ⟨by simp, .refl⟩
  | some operand => exact ⟨.single (.seek (machine.ip + 2) machine.opIp (Nat.le_refl _)), trivial⟩

theorem safe_readFlag : Safe limits size readFlag :=
  safe_readByte.bind fun _ => .pure fun _ _ => trivial

theorem safe_jumpTo (target : Nat) : Safe limits size (jumpTo target) :=
  fun active _ _ =>
    ⟨.single (.seek target active.machine.opIp (Nat.le_refl _)), trivial⟩

/-- Charging touches the budget alone, so what a budget cannot change stays true. -/
theorem travels_charge (budget : Limits)
    (kept : ∀ machine : Machine, ∀ left, pre machine → pre { machine with budget := left }) :
    Travels limits size pre (charge budget) fun _ machine => pre machine := by
  intro active _ met
  obtain ⟨world, machine⟩ := active
  by_cases unlimited : budget.maxAllocations < 0
  · simp only [charge, if_pos unlimited]
    exact ⟨.refl, met⟩
  · simp only [charge, if_neg unlimited]
    by_cases spent : machine.budget - 1 ≤ 0
    · simp only [if_pos spent]
      exact ⟨by simp, .single .spend⟩
    · simp only [if_neg spent]
      exact ⟨.single .spend, kept machine _ met⟩

theorem safe_charge (budget : Limits) : Safe limits size (charge budget) :=
  travels_charge budget fun _ _ _ => trivial

theorem safe_pushCharged (budget : Limits) (value : Value) :
    Safe limits size (pushCharged budget value) :=
  (safe_charge budget).bind fun _ => safe_push value

end Primitives

end Act

end ScriptMachine
