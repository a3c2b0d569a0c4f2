import ScriptMachine.Proofs.ActLogic
import ScriptMachine.Machine.Step

/-! What acts are charged. An act consists of parts that neither read nor change the budget and of
single charges; its ledger lists how the charges went, one after the other. -/

namespace ScriptMachine

/-- How many objects have been made so far: cells, and values with an identity of their own. -/
def Store.made (store : Store) : Nat := store.cells.size + store.nextId

def Active.withBudget (active : Active) (budget : Int) : Active :=
  ⟨active.world, { active.machine with budget }⟩

namespace Act

variable {α β : Type} {limits : Limits} {active : Active} {log : List Bool}

/-- What an act leaves behind, whether it has stopped or not. -/
def final : EStateM.Result Stop Active α → Active
  | .ok _ after => after
  | .error _ after => after

def rebudget (budget : Int) : EStateM.Result Stop Active α → EStateM.Result Stop Active α
  | .ok value after => .ok value (after.withBudget budget)
  | .error stop after => .error stop (after.withBudget budget)

/-- An act that neither reads nor changes the budget. -/
def Unpriced (act : Act α) : Prop :=
  ∀ active budget, act (active.withBudget budget) = rebudget budget (act active)

theorem Unpriced.budget_eq {act : Act α} (unpriced : Unpriced act) (active : Active) :
    (final (act active)).machine.budget = active.machine.budget := by
  have same := unpriced active active.machine.budget
  change act active = _ at same
  rw [same]
  cases act active with
  | ok value after => rfl
  | error stop after => rfl

/-- The charges that an act makes in a state: for each one whether it was granted. -/
inductive Ledger (limits : Limits) : {α : Type} → Act α → Active → List Bool → Prop where
  | unpriced {α : Type} {act : Act α} {active : Active} (unpriced : Unpriced act) :
      Ledger limits act active []
  | granted {active after : Active} (done : charge limits active = .ok () after) :
      Ledger limits (charge limits) active [true]
  | refused {active after : Active} {stop : Stop} (failed : charge limits active = .error stop after) :
      Ledger limits (charge limits) active [false]
  | bind {α β : Type} {act : Act α} {rest : α → Act β} {active middle : Active} {value : α}
      {first second : List Bool} (begun : Ledger limits act active first)
      (done : act active = .ok value middle) (ended : Ledger limits (rest value) middle second) :
      Ledger limits (act >>= rest) active (first ++ second)
  | stopped {α β : Type} {act : Act α} {rest : α → Act β} {active after : Active} {stop : Stop}
      {first : List Bool} (begun : Ledger limits act active first)
      (failed : act active = .error stop after) : Ledger limits (act >>= rest) active first

theorem charge_eq (limited : 0 ≤ limits.maxAllocations) (active : Active) :
    charge limits active =
      if active.machine.budget - 1 ≤ 0 then
        .error (.fault .allocationLimit) (active.withBudget (active.machine.budget - 1))
      else .ok () (active.withBudget (active.machine.budget - 1)) := by
  simp only [charge, if_neg (Int.not_lt.mpr limited), Active.withBudget]

theorem charge_unlimited (unlimited : limits.maxAllocations < 0) (active : Active) :
    charge limits active = .ok () active := by
  simp only [charge, if_pos unlimited]

theorem charge_eq_error {stop : Stop} {after : Active}
    (failed : charge limits active = .error stop after) : stop = .fault .allocationLimit := by
  by_cases limited : 0 ≤ limits.maxAllocations
  · rw [charge_eq limited] at failed
    split at failed
    · cases failed
      rfl
    · cases failed
  · rw [charge_unlimited (Int.not_le.mp limited)] at failed
    cases failed

namespace Ledger

/-- Under a limit, every charge takes one allocation from the budget, whether it is granted or not. -/
theorem budget_eq (limited : 0 ≤ limits.maxAllocations) {act : Act α}
    (ledger : Ledger limits act active log) :
    (final (act active)).machine.budget = active.machine.budget - log.length := by
  induction ledger with
  | unpriced unpriced =>
    rw [unpriced.budget_eq]
    simp
  | granted done =>
    rw [charge_eq limited]
    split
    · rfl
    · rfl
  | refused failed =>
    rw [charge_eq limited]
    split
    · rfl
    · rfl
  | bind begun done ended first second =>
    rw [done] at first
    rw [bind_of_ok done, second, List.length_append]
    simp only [final] at first
    omega
  | stopped begun failed first =>
    rw [failed] at first
    rw [bind_of_error failed]
    exact first

theorem granted_iff (limited : 0 ≤ limits.maxAllocations) {act : Act α}
    (ledger : Ledger limits act active log) {index : Nat} {granted : Bool}
    (charged : log[index]? = some granted) :
    granted = true ↔ (index : Int) + 1 < active.machine.budget := by
  induction ledger generalizing index with
  | unpriced => simp at charged
  | granted done =>
    obtain ⟨rfl, rfl⟩ : index = 0 ∧ true = granted := by
      simpa [List.getElem?_singleton] using charged
    rw [charge_eq limited] at done
    split at done
    · cases done
    next enough => simp; omega
  | refused failed =>
    obtain ⟨rfl, rfl⟩ : index = 0 ∧ false = granted := by
      simpa [List.getElem?_singleton] using charged
    rw [charge_eq limited] at failed
    split at failed
    next short => simp; omega
    · cases failed
  | @bind _ _ act rest active middle value first second begun done ended earlier later =>
    have spent := begun.budget_eq limited
    rw [done] at spent
    simp only [final] at spent
    by_cases inside : index < first.length
    · rw [List.getElem?_append_left inside] at charged
      exact earlier charged
    · rw [List.getElem?_append_right (Nat.le_of_not_lt inside)] at charged
      rw [later charged]
      omega
  | stopped begun failed earlier => exact earlier charged

theorem eq_error {act : Act α} (ledger : Ledger limits act active log) (refused : false ∈ log) :
    ∃ after, act active = .error (.fault .allocationLimit) after := by
  induction ledger with
  | unpriced => simp at refused
  | granted => simp at refused
  | @refused active after stop failed =>
    rw [charge_eq_error failed] at failed
    exact ⟨after, failed⟩
  | bind begun done ended first second =>
    rw [bind_of_ok done]
    rcases List.mem_append.mp refused with early | late
    · obtain ⟨after, failed⟩ := first early
      rw [done] at failed
      cases failed
    · exact second late
  | stopped begun failed first =>
    obtain ⟨after, same⟩ := first refused
    exact ⟨after, bind_of_error same⟩

theorem all_granted (unlimited : limits.maxAllocations < 0) {act : Act α}
    (ledger : Ledger limits act active log) : false ∉ log := by
  induction ledger with
  | unpriced => simp
  | granted => simp
  | refused failed =>
    rw [charge_unlimited unlimited] at failed
    cases failed
  | bind begun done ended first second =>
    rw [List.mem_append]
    rintro (early | late)
    · exact first early
    · exact second late
  | stopped begun failed first => exact first

end Ledger

end Act

/-- What an act that completes under a limit has paid for the objects it has made. -/
inductive Price where
  /-- It has made none, or something has been charged. -/
  | fair
  /-- Something has been charged. -/
  | charged
  /-- It may have made objects for nothing. -/
  | any
  deriving DecidableEq

def Price.Met (before after : Active) : Price → Prop
  | fair => after.world.store.made = before.world.store.made ∨
      after.machine.budget < before.machine.budget
  | charged => after.machine.budget < before.machine.budget
  | any => True

namespace Act

variable {α β : Type} {limits : Limits} {price : Price}

/-- An act with a ledger in every state, which has paid its price when it completes. -/
structure Costs (limits : Limits) (price : Price) (act : Act α) : Prop where
  ledger : ∀ active, ∃ log, Ledger limits act active log
  met : 0 ≤ limits.maxAllocations → ∀ active value after, act active = .ok value after →
    price.Met active after

namespace Costs

theorem budget_le {act : Act α} (costs : Costs limits price act) (limited : 0 ≤ limits.maxAllocations)
    {active after : Active} {value : α} (done : act active = .ok value after) :
    after.machine.budget ≤ active.machine.budget := by
  obtain ⟨log, ledger⟩ := costs.ledger active
  have spent := ledger.budget_eq limited
  rw [done] at spent
  simp only [final] at spent
  omega

theorem sequence {act : Act α} {rest : α → Act β} {first second : Price}
    (begun : Costs limits first act) (ended : ∀ value, Costs limits second (rest value))
    (joins : ∀ before middle after : Active, middle.machine.budget ≤ before.machine.budget →
      after.machine.budget ≤ middle.machine.budget → first.Met before middle →
      second.Met middle after → price.Met before after) :
    Costs limits price (act >>= rest) := by
  constructor
  · intro active
    obtain ⟨early, begins⟩ := begun.ledger active
    cases done : act active with
    | ok value middle =>
      obtain ⟨late, ends⟩ := (ended value).ledger middle
      exact ⟨early ++ late, .bind begins done ends⟩
    | error stop after => exact ⟨early, .stopped begins done⟩
  · intro limited active result after done
    obtain ⟨value, middle, early, late⟩ := bind_eq_ok done
    exact joins active middle after (begun.budget_le limited early)
      ((ended value).budget_le limited late) (begun.met limited _ _ _ early)
      ((ended value).met limited _ _ _ late)

theorem bind {act : Act α} {rest : α → Act β} (begun : Costs limits .fair act)
    (ended : ∀ value, Costs limits price (rest value)) : Costs limits price (act >>= rest) := by
  refine begun.sequence ended ?_
  intro before middle after less lesser first second
  cases price with
  | fair => simp only [Price.Met] at first second ⊢; omega
  | charged => simp only [Price.Met] at second ⊢; omega
  | any => trivial

theorem paid {act : Act α} {rest : α → Act β} (begun : Costs limits .charged act)
    (ended : ∀ value, Costs limits .any (rest value)) : Costs limits .charged (act >>= rest) :=
  begun.sequence ended fun _ _ _ _ lesser first _ => Int.lt_of_le_of_lt lesser first

theorem covered {act : Act α} {rest : α → Act β} (begun : Costs limits .any act)
    (ended : ∀ value, Costs limits .charged (rest value)) : Costs limits .charged (act >>= rest) :=
  begun.sequence ended fun _ _ _ less _ _ second => Int.lt_of_lt_of_le second less

theorem loose {act : Act α} {rest : α → Act β} (begun : Costs limits .any act)
    (ended : ∀ value, Costs limits .any (rest value)) : Costs limits .any (act >>= rest) :=
  begun.sequence ended fun _ _ _ _ _ _ _ => trivial

theorem fair {act : Act α} (costs : Costs limits .charged act) : Costs limits .fair act :=
  ⟨costs.ledger, fun limited active value after done => .inr (costs.met limited active value after done)⟩

theorem any {act : Act α} (costs : Costs limits price act) : Costs limits .any act :=
  ⟨costs.ledger, fun _ _ _ _ _ => trivial⟩

theorem ite {condition : Prop} [Decidable condition] {yes no : Act α}
    (positive : Costs limits price yes) (negative : Costs limits price no) :
    Costs limits price (if condition then yes else no) := by
  split
  · exact positive
  · exact negative

end Costs

theorem Unpriced.costs {act : Act α} (unpriced : Unpriced act) : Costs limits .any act :=
  ⟨fun _ => ⟨[], .unpriced unpriced⟩, fun _ _ _ _ _ => trivial⟩

/-- An act that has nothing to do with the budget and makes no object. -/
theorem costs_of_blind {act : Act α}
    (blind : ∀ world machine,
      (final (act ⟨world, machine⟩)).world.store.made = world.store.made ∧
      ∀ budget, act (Active.withBudget ⟨world, machine⟩ budget) =
        rebudget budget (act ⟨world, machine⟩)) : Costs limits .fair act := by
  constructor
  · exact fun _ => ⟨[], .unpriced fun active budget => (blind active.world active.machine).2 budget⟩
  · intro _ active value after done
    have same := (blind active.world active.machine).1
    rw [show act ⟨active.world, active.machine⟩ = _ from done] at same
    exact .inl same

theorem costs_charge : Costs limits .charged (charge limits) := by
  constructor
  · intro active
    cases done : charge limits active with
    | ok value after => exact ⟨[true], .granted done⟩
    | error stop after => exact ⟨[false], .refused done⟩
  · intro limited active value after done
    rw [charge_eq limited] at done
    split at done
    · cases done
    · cases done
      exact Int.sub_lt_self _ Int.one_pos

theorem costs_push (value : Value) : Costs limits .fair (push value) := by
  refine costs_of_blind fun world machine => ?_
  by_cases room : machine.sp < machine.stack.size
  · simp [push, Active.withBudget, rebudget, final, room]
  · simp [push, Active.withBudget, rebudget, final, room]

theorem costs_pushCharged (value : Value) : Costs limits .charged (pushCharged limits value) :=
  costs_charge.paid fun _ => (costs_push value).any

theorem costs_pure (value : α) : Costs limits .fair (Pure.pure value : Act α) :=
  costs_of_blind fun _ _ => ⟨rfl, fun _ => rfl⟩

theorem costs_fail (fault : Fault) : Costs limits price (fail fault : Act α) :=
  ⟨fun _ => ⟨[], .unpriced fun _ _ => rfl⟩, fun _ _ _ _ done => by cases done⟩

theorem costs_failHere : Costs limits price (failHere : Act α) :=
  ⟨fun _ => ⟨[], .unpriced fun _ _ => rfl⟩, fun _ _ _ _ done => by cases done⟩

theorem costs_readStore (view : Store → α) : Costs limits .fair (readStore view) :=
  costs_of_blind fun _ _ => ⟨rfl, fun _ => rfl⟩

theorem costs_readMachine {view : Machine → α}
    (blind : ∀ machine budget, view { machine with budget } = view machine) :
    Costs limits .fair (readMachine view) := by
  refine costs_of_blind fun world machine => ⟨rfl, fun budget => ?_⟩
  simp only [readMachine, Active.withBudget, rebudget, blind]

theorem unpriced_onStore (action : StoreM α) : Unpriced (onStore action) := by
  rintro ⟨⟨store, globals, aborting⟩, machine⟩ budget
  simp only [onStore, World.compute, Active.withBudget]
  cases action store with
  | ok value after => rfl
  | error fault after => rfl

theorem costs_onStore (action : StoreM α) : Costs limits .any (onStore action) :=
  (unpriced_onStore action).costs

theorem costs_onStore_of_made {action : StoreM α}
    (same : ∀ store value after, action store = .ok value after → after.made = store.made) :
    Costs limits .fair (onStore action) := by
  refine ⟨fun _ => ⟨[], .unpriced (unpriced_onStore action)⟩, ?_⟩
  rintro _ ⟨⟨store, globals, aborting⟩, machine⟩ value after done
  simp only [onStore, World.compute] at done
  cases computed : action store with
  | ok result changed =>
    rw [computed] at done
    cases done
    exact .inl (same _ _ _ computed)
  | error fault changed =>
    rw [computed] at done
    cases done

theorem costs_ofExcept (result : Except Fault α) : Costs limits .fair (ofExcept result) := by
  cases result with
  | ok value => exact costs_pure value
  | error fault => exact costs_fail fault

theorem costs_require (inside : Prop) [Decidable inside] : Costs limits .fair (require inside) := by
  refine costs_of_blind fun world machine => ?_
  by_cases holds : inside
  · simp [require, Active.withBudget, rebudget, final, holds]
  · simp [require, Active.withBudget, rebudget, final, holds]

theorem costs_slot (index : Nat) : Costs limits .fair (slot index) := by
  refine costs_of_blind fun world machine => ?_
  cases found : machine.stack[index]? with
  | some value => simp [slot, Active.withBudget, rebudget, final, found]
  | none => simp [slot, Active.withBudget, rebudget, final, found]

theorem costs_slots (first last : Nat) : Costs limits .fair (slots first last) := by
  refine costs_of_blind fun world machine => ?_
  by_cases inside : first ≤ last ∧ last ≤ machine.stack.size
  · simp [slots, Active.withBudget, rebudget, final, inside]
  · simp only [slots, Active.withBudget, rebudget, final, inside, if_false]
    exact ⟨trivial, fun _ => trivial⟩

theorem costs_setSlot (index : Nat) (value : Value) : Costs limits .fair (setSlot index value) := by
  refine costs_of_blind fun world machine => ?_
  by_cases inside : index < machine.stack.size
  · simp [setSlot, Active.withBudget, rebudget, final, inside]
  · simp [setSlot, Active.withBudget, rebudget, final, inside]

theorem costs_pop : Costs limits .fair pop := by
  refine costs_of_blind fun world machine => ?_
  cases used : machine.sp with
  | zero => simp [pop, Active.withBudget, rebudget, final, used]
  | succ below =>
    cases found : machine.stack[below]? with
    | none => simp [pop, Active.withBudget, rebudget, final, used, found]
    | some value => simp [pop, Active.withBudget, rebudget, final, used, found]

theorem costs_top : Costs limits .fair top := by
  refine costs_of_blind fun world machine => ?_
  cases used : machine.sp with
  | zero => simp [top, Active.withBudget, rebudget, final, used]
  | succ below =>
    cases found : machine.stack[below]? with
    | none => simp [top, slot, Active.withBudget, rebudget, final, used, found]
    | some value => simp [top, slot, Active.withBudget, rebudget, final, used, found]

theorem costs_setTop (value : Value) : Costs limits .fair (setTop value) := by
  refine costs_of_blind fun world machine => ?_
  cases used : machine.sp with
  | zero => simp [setTop, Active.withBudget, rebudget, final, used]
  | succ below =>
    by_cases inside : below < machine.stack.size
    · simp [setTop, setSlot, Active.withBudget, rebudget, final, used, inside]
    · simp [setTop, setSlot, Active.withBudget, rebudget, final, used, inside]

theorem costs_dropTo (start : Nat) : Costs limits .fair (dropTo start) := by
  refine costs_of_blind fun world machine => ?_
  by_cases inside : start ≤ machine.sp ∧ machine.sp ≤ machine.stack.size
  · simp [dropTo, Active.withBudget, rebudget, final, inside]
  · simp only [dropTo, Active.withBudget, rebudget, final, inside, if_false]
    exact ⟨trivial, fun _ => trivial⟩

theorem costs_popMany (count : Nat) : Costs limits .fair (popMany count) := by
  refine (costs_readMachine fun _ _ => rfl).bind fun sp => ?_
  refine Costs.ite (costs_fail _) ?_
  refine (costs_slots _ _).bind fun values => ?_
  exact (costs_dropTo _).bind fun _ => costs_pure values

theorem costs_readByte : Costs limits .fair readByte := by
  refine costs_of_blind fun world machine => ?_
  cases found : Instruction.readByte? machine.code machine.ip with
  | some operand => simp [readByte, Active.withBudget, rebudget, final, found]
  | none => simp [readByte, Active.withBudget, rebudget, final, found]

theorem costs_readPair : Costs limits .fair readPair := by
  refine costs_of_blind fun world machine => ?_
  cases found : Instruction.readPair? machine.code machine.ip with
  | some operand => simp [readPair, Active.withBudget, rebudget, final, found]
  | none => simp [readPair, Active.withBudget, rebudget, final, found]

theorem costs_readFlag : Costs limits .fair readFlag := costs_readByte.bind fun _ => costs_pure _

theorem costs_jumpTo (target : Nat) : Costs limits .fair (jumpTo target) :=
  costs_of_blind fun _ _ => ⟨rfl, fun _ => rfl⟩

theorem costs_frame : Costs limits .fair frame := by
  refine costs_of_blind fun world machine => ?_
  have same (budget : Int) : Machine.frames { machine with budget } = machine.frames := rfl
  cases top : machine.frames with
  | nil => simp [frame, Active.withBudget, rebudget, final, same, top]
  | cons running callers => simp [frame, Active.withBudget, rebudget, final, same, top]

theorem Costs.thenProceed {act : Act Unit} (costs : Costs limits price act) :
    Costs limits price (Act.thenProceed act) := by
  refine costs.sequence (fun _ => costs_pure Next.proceed) ?_
  intro before middle after less lesser first second
  cases price with
  | fair => simp only [Price.Met] at first second ⊢; omega
  | charged => exact Int.lt_of_le_of_lt lesser first
  | any => trivial

end Act

end ScriptMachine
