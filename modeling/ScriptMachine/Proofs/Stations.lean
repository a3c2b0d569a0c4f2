import ScriptMachine.Proofs.ExecutionTurns

/-! What a turn does to the functions of the store and to the places of the machines. Machines are
entered and left one at a time, each for one function, and nothing else happens to busy flags. -/

namespace ScriptMachine

/-- The places of all machines of an execution, the one at work first. -/
def Control.stations (control : Control) : List Station :=
  control.active.station :: control.waiting.map (·.machine.station)

namespace Execution

/-- The ways in which functions and machines can come out of a step. -/
inductive Shift (before after : Execution) : Prop where
  | stays (follows : before.world.Follows after.world)
      (same : after.control.stations = before.control.stations)
  /-- A machine is made for a function. -/
  | enters (function : Ref) (station : Station) (serves : station.serves = some function)
      (idle : before.world.store.isIdle function = true)
      (follows : (before.world.setBusy function true).Follows after.world)
      (inside : after.control.stations = station :: before.control.stations)
  /-- A machine stops, which may have worked before. -/
  | leaves (world : World) (station : Station) (follows : before.world.Follows world)
      (released : after.world = world.release station.serves)
      (outside : before.control.stations = station :: after.control.stations)

/-- How a step can come out. An execution ends with its only machine, or with the one on which the
host has made a call. -/
def Shifts (before : Execution) : Progress → Prop
  | .next after => Shift before after
  | .done world machine result => before.world.Follows world ∧
      (before.control.stations = [machine.station] ∨
        ∃ chain, before.control = .native (.answer result) { machine, pending := .host } chain)
  | .broken => True

variable {setting : Setting} {before : Execution} {chain : List Suspended} {active after : Active}

theorem shifts_finish (follows : before.world.Follows active.world)
    (stations : before.control.stations =
      active.machine.station :: chain.map (·.machine.station)) (result : Except Fault Value) :
    Shifts before (finish active result chain) := by
  cases chain with
  | nil => exact ⟨follows, .inl stations⟩
  | cons caller chain =>
    obtain ⟨answer, -, -, same⟩ | ⟨-, same⟩ := finish_cons_cases active result caller chain
    · rw [same]
      exact .leaves active.world active.machine.station follows rfl stations
    · rw [same]
      trivial

theorem shifts_afterAct {act : Act Next} (tame : act.Tame) (world : before.world = active.world)
    (stations : before.control.stations =
      active.machine.station :: chain.map (·.machine.station)) :
    Shifts before (afterAct chain (act active)) := by
  have left := tame active
  have kept : before.world.Follows (Act.final (act active)).world := world ▸ left.world
  rw [← left.kept] at stations
  cases done : act active with
  | ok next after =>
    rw [done] at kept stations
    cases next with
    | proceed => exact .stays kept stations.symm
    | halt => exact shifts_finish kept stations _
    | await task pending => exact .stays kept stations.symm
  | error stop after =>
    rw [done] at kept stations
    cases stop with
    | fault fault => exact shifts_finish kept stations _
    | outOfRange => trivial

theorem shifts_turn {progress : Progress} (turn : Turn setting before progress) :
    Shifts before progress := by
  cases turn with
  | instruction => exact shifts_afterAct (Act.tame_step _) rfl rfl
  | completion waits => exact shifts_afterAct ((Act.orderly_resume _ _ _).tame) rfl rfl
  | reply => exact ⟨.refl _, .inr ⟨_, rfl⟩⟩
  | native natives silent continues follows => exact .stays follows rfl
  | child natives function arguments keywords silent allowed under idle follows =>
    exact .enters function _ rfl idle follows rfl

theorem shift_step {after : Execution} (stepped : step setting before = .next after) :
    Shift before after := by
  have shifts := shifts_turn (turn_step setting before)
  rw [stepped] at shifts
  exact shifts

end Execution

end ScriptMachine
