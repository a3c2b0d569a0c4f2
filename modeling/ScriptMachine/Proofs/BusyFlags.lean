import ScriptMachine.Proofs.NativeCalls

/-! The busy flag of a function. In every state it is set for exactly the functions for which a
machine is at work or waits, and no function has two. -/

namespace ScriptMachine

namespace Store

variable (store : Store) (ref other : Ref)

theorem isIdle_eq_true_iff :
    store.isIdle ref = true ↔
      ∃ function, store.cells[ref]? = some (.function function) ∧ function.busy = false := by
  unfold isIdle
  split
  next function found => simp [found]
  next absent =>
    constructor
    · intro holds
      cases holds
    · rintro ⟨function, found, -⟩
      exact absurd found (absent function)

theorem busy_setBusy_ne (busy : Bool) (apart : ref ≠ other) :
    ((store.setBusy ref busy).function other).busy = (store.function other).busy := by
  simp only [setBusy, function, Array.getElem?_modify, if_neg apart]

theorem busy_setBusy_false : ((store.setBusy ref false).function ref).busy = false := by
  simp only [setBusy, function, Array.getElem?_modify, if_pos]
  cases store.cells[ref]? with
  | none => rfl
  | some cell => cases cell with
    | _ => rfl

theorem busy_setBusy_true (idle : store.isIdle ref = true) :
    ((store.setBusy ref true).function ref).busy = true := by
  obtain ⟨function, found, -⟩ := (store.isIdle_eq_true_iff ref).mp idle
  simp only [setBusy, Store.function, Array.getElem?_modify, if_pos, found]
  rfl

end Store

/-- The functions that the machines of an execution serve. -/
def Control.serving (control : Control) : List Ref := control.stations.filterMap (·.serves)

namespace Execution

/-- The busy functions are those that machines serve, each by one machine. -/
structure Guarded (execution : Execution) : Prop where
  once : execution.control.serving.Nodup
  busy_iff : ∀ ref, (execution.world.store.function ref).busy = true ↔ ref ∈ execution.control.serving

variable {setting : Setting} {before after : Execution}

theorem Guarded.shift (guarded : before.Guarded) (shift : Shift before after) : after.Guarded := by
  cases shift with
  | stays follows same =>
    have serving : after.control.serving = before.control.serving := by
      simp only [Control.serving, same]
    refine ⟨serving ▸ guarded.once, fun ref => ?_⟩
    rw [serving, follows.spared.busy_eq]
    exact guarded.busy_iff ref
  | enters function station serves idle follows inside =>
    have serving : after.control.serving = function :: before.control.serving := by
      simp only [Control.serving, inside, List.filterMap_cons, serves]
    have free : function ∉ before.control.serving := by
      intro served
      have busy := (guarded.busy_iff function).mpr served
      obtain ⟨known, found, not⟩ := (Store.isIdle_eq_true_iff _ _).mp idle
      simp only [Store.function, found, not] at busy
      cases busy
    refine ⟨serving ▸ List.nodup_cons.mpr ⟨free, guarded.once⟩, fun ref => ?_⟩
    rw [serving, follows.spared.busy_eq, List.mem_cons]
    by_cases same : ref = function
    · subst same
      simp only [World.setBusy, Store.busy_setBusy_true _ _ idle, true_or]
    · simp only [World.setBusy, Store.busy_setBusy_ne _ _ _ _ (Ne.symm same), same, false_or]
      exact guarded.busy_iff ref
  | leaves world station follows released outside =>
    have left := guarded.once
    have busy (ref : Ref) := follows.spared.busy_eq ref ▸ guarded.busy_iff ref
    cases serves : station.serves with
    | none =>
      have serving : before.control.serving = after.control.serving := by
        simp only [Control.serving, outside, List.filterMap_cons, serves]
      rw [serves] at released
      refine ⟨serving ▸ left, fun ref => ?_⟩
      rw [released, ← serving]
      exact busy ref
    | some function =>
      have serving : before.control.serving = function :: after.control.serving := by
        simp only [Control.serving, outside, List.filterMap_cons, serves]
      rw [serves] at released
      rw [serving] at left
      obtain ⟨free, once⟩ := List.nodup_cons.mp left
      refine ⟨once, fun ref => ?_⟩
      rw [released]
      by_cases same : ref = function
      · subst same
        simp [World.release, World.setBusy, Store.busy_setBusy_false, free]
      · simp only [World.release, World.setBusy, Store.busy_setBusy_ne _ _ _ _ (Ne.symm same)]
        rw [busy ref, serving, List.mem_cons]
        simp only [same, false_or]

theorem Guarded.reaches {start execution : Execution} (guarded : start.Guarded)
    (reached : Reaches setting start execution) : execution.Guarded := by
  induction reached with
  | refl => exact guarded
  | tail _ stepped ih => exact ih.shift (shift_step stepped)

end Execution

end ScriptMachine
