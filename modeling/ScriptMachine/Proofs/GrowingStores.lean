import ScriptMachine.Proofs.KeptCells
import ScriptMachine.Proofs.InvariantLogic

/-! Computations that add cells to a store and leave those there are. What they read stays true, so what
one of them is known to give can be used after all that follow. -/

namespace ScriptMachine.StoreM

open Store

variable {α β : Type} {fails : Prop} {inv : Store → Prop} {base : Store}

/-- A computation that keeps all cells, and an invariant, wherever the cells of a base store are kept.
It gives such a result, or fails if it may. -/
def Builds (fails : Prop) (inv : Store → Prop) (base : Store) (action : StoreM α)
    (post : Store → α → Prop) : Prop :=
  ∀ store, base.Kept store → inv store →
    match action.run store with
    | .ok value later => store.Kept later ∧ inv later ∧ post later value
    | .error _ later => fails ∧ store.Kept later ∧ inv later

namespace Builds

variable {post : Store → α → Prop} {action : StoreM α}

theorem run (builds : Builds False inv base action post) {store : Store} (kept : base.Kept store)
    (valid : inv store) :
    ∃ value later, action.run store = .ok value later ∧ store.Kept later ∧ inv later ∧
      post later value := by
  have done := builds store kept valid
  cases result : action.run store with
  | ok value later =>
    rw [result] at done
    exact ⟨value, later, rfl, done⟩
  | error fault later =>
    rw [result] at done
    exact done.1.elim

theorem of_ok (builds : Builds fails inv base action post) {store later : Store} {value : α}
    (kept : base.Kept store) (valid : inv store) (ran : action.run store = .ok value later) :
    store.Kept later ∧ inv later ∧ post later value := by
  have done := builds store kept valid
  rw [ran] at done
  exact done

theorem pure {value : α} (holds : ∀ store, base.Kept store → post store value) :
    Builds fails inv base (Pure.pure value) post :=
  fun store kept valid => ⟨.refl store, valid, holds store kept⟩

theorem throw (may : fails) (fault : Fault) : Builds fails inv base (throw fault) post :=
  fun store _ valid => ⟨may, .refl store, valid⟩

theorem weaken {other : Store → α → Prop} (builds : Builds fails inv base action post)
    (implies : ∀ store value, base.Kept store → post store value → other store value) :
    Builds fails inv base action other := by
  intro store kept valid
  have done := builds store kept valid
  cases result : action.run store with
  | ok value later =>
    rw [result] at done
    exact ⟨done.1, done.2.1, implies later value (kept.trans done.1) done.2.2⟩
  | error fault later =>
    rw [result] at done
    exact done

/-- What only adds cells keeps all that lasts as cells are added. -/
theorem maintains_of_kept {lasting : Store → Prop} {known : α → Prop}
    (builds : ∀ base, Builds fails (fun _ => True) base action fun _ => known)
    (lasts : ∀ {store later : Store}, store.Kept later → lasting store → lasting later) :
    Maintains lasting action known := by
  intro store valid
  have done := builds store store (.refl store) trivial
  show Ends lasting known (action.run store)
  cases result : action.run store with
  | ok value later =>
    rw [result] at done
    exact ⟨lasts done.1 valid, done.2.2⟩
  | error fault later =>
    rw [result] at done
    exact lasts done.2.1 valid

/-- What keeps an invariant while it adds cells keeps the invariant. -/
theorem maintains {known : α → Prop} (builds : ∀ base, Builds fails inv base action fun _ => known) :
    Maintains inv action known := by
  intro store valid
  have done := builds store store (.refl store) valid
  show Ends inv known (action.run store)
  cases result : action.run store with
  | ok value later =>
    rw [result] at done
    exact done.2
  | error fault later =>
    rw [result] at done
    exact done.2.2

theorem bind {first : StoreM α} {rest : α → StoreM β} {last : Store → β → Prop}
    (begins : Builds fails inv base first post)
    (next : ∀ store value, base.Kept store → post store value →
      Builds fails inv store (rest value) last) :
    Builds fails inv base (first >>= rest) last := by
  intro store kept valid
  have begun := begins store kept valid
  rw [EStateM.run_bind]
  cases ran : first.run store with
  | error fault later =>
    rw [ran] at begun
    exact begun
  | ok value middle =>
    rw [ran] at begun
    obtain ⟨since, still, holds⟩ := begun
    have ended := next middle value (kept.trans since) holds middle (.refl middle) still
    show match (rest value).run middle with
      | .ok value later => store.Kept later ∧ inv later ∧ last later value
      | .error _ later => fails ∧ store.Kept later ∧ inv later
    cases result : (rest value).run middle with
    | ok result later =>
      rw [result] at ended
      exact ⟨since.trans ended.1, ended.2⟩
    | error fault later =>
      rw [result] at ended
      exact ⟨ended.1, since.trans ended.2.1, ended.2.2⟩

theorem map (f : α → β) {last : Store → β → Prop} (builds : Builds fails inv base action post)
    (implies : ∀ store value, base.Kept store → post store value → last store (f value)) :
    Builds fails inv base (f <$> action) last := by
  intro store kept valid
  have done := builds store kept valid
  cases ran : action.run store with
  | ok value later =>
    have result : (f <$> action).run store = .ok (f value) later := by
      change EStateM.map f action store = _
      unfold EStateM.map
      rw [show action store = .ok value later from ran]
    rw [ran] at done
    rw [result]
    exact ⟨done.1, done.2.1, implies later value (kept.trans done.1) done.2.2⟩
  | error fault later =>
    have result : (f <$> action).run store = .error fault later := by
      change EStateM.map f action store = _
      unfold EStateM.map
      rw [show action store = .error fault later from ran]
    rw [ran] at done
    rw [result]
    exact done

theorem get_bind {rest : Store → StoreM β} {last : Store → β → Prop}
    (next : ∀ store, base.Kept store → Builds fails inv store (rest store) last) :
    Builds fails inv base (get >>= rest) last :=
  fun store kept valid => next store kept store (.refl store) valid

theorem ite {condition : Prop} [Decidable condition] {yes no : StoreM α}
    (positive : condition → Builds fails inv base yes post)
    (negative : ¬condition → Builds fails inv base no post) :
    Builds fails inv base (if condition then yes else no) post := by
  split
  next holds => exact positive holds
  next refuted => exact negative refuted

theorem alloc {cell : Cell} (valid : ∀ store, base.Kept store → inv store →
    inv { store with cells := store.cells.push cell }) :
    Builds fails inv base (alloc cell) fun later ref =>
      base.cells.size ≤ ref ∧ later.cells[ref]? = some cell := by
  intro store kept holds
  exact ⟨.push store cell, valid store kept holds, kept.size_le, Array.getElem?_push_size⟩

section Collections

variable {body : α → StoreM β} {related : Store → α → β → Prop}
  (lasting : ∀ {store later : Store}, store.Kept later → ∀ value result,
    related store value result → related later value result)

include lasting

theorem list_mapM (values : List α)
    (each : ∀ value ∈ values, Builds fails inv base (body value) fun later => related later value) :
    Builds fails inv base (values.mapM body) fun later => List.Forall₂ (related later) values := by
  induction values generalizing base with
  | nil => exact .pure fun _ _ => .nil
  | cons value rest ih =>
    rw [List.mapM_cons]
    refine (each value (.head _)).bind fun store first kept holds => ?_
    have others : ∀ other ∈ rest, Builds fails inv store (body other) fun later =>
        related later other :=
      fun other member further since => each other (.tail _ member) further (kept.trans since)
    refine (ih others).bind fun later results since all => ?_
    exact .pure fun further after =>
      .cons (lasting (since.trans after) _ _ holds) (all.imp (lasting after))

theorem table_mapM (table : Table α)
    (each : ∀ name value, table.get? name = some value →
      Builds fails inv base (body value) fun later => related later value) :
    Builds fails inv base (table.mapM body) fun later => Table.Agree (related later) table := by
  have pairwise {store later : Store} (kept : store.Kept later) (entry : String × α)
      (pair : String × β) (both : pair.1 = entry.1 ∧ related store entry.2 pair.2) :
      pair.1 = entry.1 ∧ related later entry.2 pair.2 :=
    ⟨both.1, lasting kept _ _ both.2⟩
  have entries : ∀ entry ∈ table.entries, Builds fails inv base (do return (entry.1, ← body entry.2))
      fun later pair => pair.1 = entry.1 ∧ related later entry.2 pair.2 := by
    intro entry member
    have held := (table.mem_entries_iff entry.1 entry.2).mp member
    refine (each entry.1 entry.2 held).bind fun store result _ holds => ?_
    exact .pure fun further since => ⟨rfl, lasting since _ _ holds⟩
  refine (list_mapM pairwise table.entries entries).bind fun store pairs _ agree => ?_
  exact .pure fun further since => (Table.agree_ofList agree).mono (lasting since)

end Collections

end Builds

/-- An invariant that new maps keep is all it takes to make one. -/
theorem builds_newMap (maps : ∀ (store : Store) (entries : Table Value), inv store →
      inv { store with cells := store.cells.push (.map entries) })
    (entries : Table Value) (handle : Handle) :
    Builds fails inv base (newMap entries handle) fun later value =>
      ∃ ref, value = .map handle ref ∧ later.cells[ref]? = some (.map entries) := by
  refine (Builds.alloc fun store _ valid => maps store entries valid).bind ?_
  intro store ref _ made
  exact .pure fun later since => ⟨ref, rfl, since ref _ made.2⟩

/-- A computation that succeeds in a store exactly if it is accepted there, and then has such a result. -/
def Decides (store : Store) (action : StoreM α) (accepted : Prop) (post : Store → α → Prop) : Prop :=
  match action.run store with
  | .ok value later => accepted ∧ post later value
  | .error _ _ => ¬accepted

namespace Decides

variable {store : Store} {action : StoreM α} {accepted also : Prop} {post : Store → α → Prop}

theorem ok_of_accepted (decides : Decides store action accepted post) (holds : accepted) :
    ∃ value later, action.run store = .ok value later ∧ post later value := by
  unfold Decides at decides
  cases result : action.run store with
  | ok value later =>
    rw [result] at decides
    exact ⟨value, later, rfl, decides.2⟩
  | error fault later =>
    rw [result] at decides
    exact absurd holds decides

theorem error_of_refused (decides : Decides store action accepted post) (refused : ¬accepted) :
    ∃ fault later, action.run store = .error fault later := by
  unfold Decides at decides
  cases result : action.run store with
  | ok value later =>
    rw [result] at decides
    exact absurd decides.1 refused
  | error fault later => exact ⟨fault, later, rfl⟩

theorem pure {value : α} (holds : accepted) (known : post store value) :
    Decides store (Pure.pure value) accepted post :=
  ⟨holds, known⟩

theorem of_run {value : α} {later : Store} (ran : action.run store = .ok value later) (holds : accepted)
    (known : post later value) : Decides store action accepted post := by
  unfold Decides
  rw [ran]
  exact ⟨holds, known⟩

theorem throw (refused : ¬accepted) (fault : Fault) : Decides store (throw fault) accepted post := refused

theorem congr (decides : Decides store action accepted post) (same : accepted ↔ also) :
    Decides store action also post := by
  rwa [← propext same]

theorem imp {other : Store → α → Prop} (decides : Decides store action accepted post)
    (implies : ∀ later value, post later value → other later value) :
    Decides store action accepted other := by
  unfold Decides at decides ⊢
  cases result : action.run store with
  | ok value later =>
    rw [result] at decides
    exact ⟨decides.1, implies later value decides.2⟩
  | error fault later =>
    rw [result] at decides
    exact decides

theorem of_builds {base : Store} (builds : Builds False (fun _ => True) base action post)
    (kept : base.Kept store) : Decides store action True fun later value =>
      store.Kept later ∧ post later value := by
  obtain ⟨value, later, ran, since, -, holds⟩ := builds.run kept trivial
  exact .of_run ran trivial ⟨since, holds⟩

theorem bind {first : StoreM α} {rest : α → StoreM β} {last : Store → β → Prop}
    (begins : Decides store first accepted post)
    (next : ∀ later value, post later value → Decides later (rest value) also last) :
    Decides store (first >>= rest) (accepted ∧ also) last := by
  unfold Decides at begins ⊢
  rw [EStateM.run_bind]
  cases begun : first.run store with
  | error fault later =>
    rw [begun] at begins
    exact fun both => begins both.1
  | ok value middle =>
    rw [begun] at begins
    have ended := next middle value begins.2
    unfold Decides at ended
    show match (rest value).run middle with
      | .ok value later => (accepted ∧ also) ∧ last later value
      | .error _ _ => ¬(accepted ∧ also)
    cases result : (rest value).run middle with
    | ok result later =>
      rw [result] at ended
      exact ⟨⟨begins.1, ended.1⟩, ended.2⟩
    | error fault later =>
      rw [result] at ended
      exact fun both => ended both.2

theorem get_bind {rest : Store → StoreM β} {last : Store → β → Prop}
    (next : Decides store (rest store) accepted last) : Decides store (get >>= rest) accepted last :=
  next

end Decides

end ScriptMachine.StoreM
