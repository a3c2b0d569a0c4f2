import ScriptMachine.Proofs.TableContents

/-! Computations that keep an invariant of their state and have results of a known kind. What holds of
every step of a loop holds of the loop. -/

namespace ScriptMachine

/-- Contracts, each of a computation with a condition on its result, that go together in sequence. -/
structure Sequential {m : Type → Type} [Monad m] (meets : {α : Type} → m α → (α → Prop) → Prop) :
    Prop where
  pure : ∀ {α : Type} {post : α → Prop} {value : α}, post value → meets (Pure.pure value) post
  bind : ∀ {α β : Type} {first : m α} {rest : α → m β} {middle : α → Prop} {post : β → Prop},
    meets first middle → (∀ value, middle value → meets (rest value) post) →
      meets (first >>= rest) post

namespace Sequential

variable {α β : Type} {m : Type → Type} [Monad m] {meets : {α : Type} → m α → (α → Prop) → Prop}

theorem list_foldlM (closed : Sequential @meets) {inv : β → Prop} (items : List α)
    {body : β → α → m β} (each : ∀ sum, inv sum → ∀ item ∈ items, meets (body sum item) inv)
    {start : β} (first : inv start) : meets (items.foldlM body start) inv := by
  induction items generalizing start with
  | nil => exact closed.pure first
  | cons item rest ih =>
    rw [List.foldlM_cons]
    apply closed.bind (each start first item List.mem_cons_self)
    intro sum kept
    apply ih _ kept
    intro other known later member
    exact each other known later (List.mem_cons_of_mem _ member)

theorem list_forM (closed : Sequential @meets) (items : List α) {body : α → m PUnit}
    (each : ∀ item ∈ items, meets (body item) fun _ => True) :
    meets (items.forM body) fun _ => True := by
  induction items with
  | nil => exact closed.pure trivial
  | cons item rest ih =>
    apply closed.bind (each item List.mem_cons_self)
    intro _ _
    exact ih fun later member => each later (List.mem_cons_of_mem _ member)

variable [LawfulMonad m] {post : α → Prop} {other : β → Prop}

theorem map (closed : Sequential @meets) (f : α → β) {action : m α} (holds : meets action post)
    (implies : ∀ value, post value → other (f value)) : meets (f <$> action) other := by
  rw [map_eq_pure_bind]
  exact closed.bind holds fun value known => closed.pure (implies value known)

theorem list_mapM (closed : Sequential @meets) (items : List α) {body : α → m β}
    (each : ∀ item ∈ items, meets (body item) other) :
    meets (items.mapM body) fun results => ∀ result ∈ results, other result := by
  induction items with
  | nil => exact closed.pure fun _ member => nomatch member
  | cons item rest ih =>
    rw [List.mapM_cons]
    apply closed.bind (each item List.mem_cons_self)
    intro first head
    apply closed.bind (ih fun later member => each later (List.mem_cons_of_mem _ member))
    intro others tail
    apply closed.pure
    intro result member
    rcases List.mem_cons.mp member with rfl | later
    · exact head
    · exact tail result later

theorem array_mapM (closed : Sequential @meets) (items : Array α) {body : α → m β}
    (each : ∀ item ∈ items, meets (body item) other) :
    meets (items.mapM body) fun results => ∀ result ∈ results, other result := by
  rw [Array.mapM_eq_mapM_toList]
  apply closed.map List.toArray (closed.list_mapM items.toList fun item member =>
    each item (Array.mem_toList_iff.mp member))
  intro results each result member
  exact each result (List.mem_toArray.mp member)

theorem option_mapM (closed : Sequential @meets) (item : Option α) {body : α → m β}
    (each : ∀ value ∈ item, meets (body value) other) :
    meets (item.mapM body) fun result => ∀ value ∈ result, other value := by
  cases item with
  | none => exact closed.pure fun _ member => nomatch member
  | some value =>
    apply closed.map some (each value rfl)
    intro result known value member
    cases member
    exact known

theorem table_mapM (closed : Sequential @meets) {table : Table α} (all : table.All post)
    {body : α → m β} (each : ∀ value, post value → meets (body value) other) :
    meets (table.mapM body) (Table.All other) := by
  have entries : meets (table.entries.mapM fun entry => return (entry.1, ← body entry.2))
      fun results => ∀ result ∈ results, other result.2 := by
    apply closed.list_mapM
    intro entry member
    apply closed.bind (each entry.2 (all.entries entry member))
    intro value known
    exact closed.pure known
  apply closed.bind entries
  intro results known
  exact closed.pure (.ofList known)

end Sequential

theorem bind_eq_ok {ε σ α β : Type} {first : EStateM ε σ α} {rest : α → EStateM ε σ β}
    {state after : σ} {result : β} (done : (first >>= rest) state = .ok result after) :
    ∃ value middle, first state = .ok value middle ∧ rest value middle = .ok result after := by
  simp only [Bind.bind, EStateM.bind] at done
  cases begun : first state with
  | ok value middle =>
    rw [begun] at done
    exact ⟨value, middle, rfl, done⟩
  | error fault middle =>
    rw [begun] at done
    cases done

theorem bind_of_ok {ε σ α β : Type} {first : EStateM ε σ α} {rest : α → EStateM ε σ β}
    {state middle : σ} {value : α} (done : first state = .ok value middle) :
    (first >>= rest) state = rest value middle := by
  simp only [Bind.bind, EStateM.bind, done]

theorem bind_of_error {ε σ α β : Type} {first : EStateM ε σ α} {rest : α → EStateM ε σ β}
    {state after : σ} {fault : ε} (failed : first state = .error fault after) :
    (first >>= rest) state = .error fault after := by
  simp only [Bind.bind, EStateM.bind, failed]

/-- An outcome in which an invariant holds, and a condition on the result if there is one. -/
abbrev Ends {ε σ α : Type} (inv : σ → Prop) (post : α → Prop) : EStateM.Result ε σ α → Prop
  | .ok value after => inv after ∧ post value
  | .error _ after => inv after

/-- A computation that keeps an invariant, whether it succeeds or not, and has such a result. -/
def Maintains {ε σ α : Type} (inv : σ → Prop) (action : EStateM ε σ α) (post : α → Prop) : Prop :=
  ∀ state, inv state → Ends inv post (action state)

namespace Maintains

variable {ε σ α β : Type} {inv : σ → Prop}

theorem sequential (ε : Type) (inv : σ → Prop) :
    Sequential (m := EStateM ε σ) fun action post => Maintains inv action post where
  pure known _ kept := ⟨kept, known⟩
  bind {_ _ first rest _ _} begins next state kept := by
    have begun := begins state kept
    simp only [Bind.bind, EStateM.bind]
    cases done : first state with
    | ok value middle =>
      rw [done] at begun
      exact next value begun.2 middle begun.1
    | error reason after =>
      rw [done] at begun
      exact begun

variable {middle : α → Prop} {post : β → Prop}

theorem pure {value : β} (known : post value) : Maintains inv (Pure.pure value : EStateM ε σ β) post :=
  fun _ kept => ⟨kept, known⟩

theorem bind {first : EStateM ε σ α} {rest : α → EStateM ε σ β} (begins : Maintains inv first middle)
    (next : ∀ value, middle value → Maintains inv (rest value) post) :
    Maintains inv (first >>= rest) post :=
  (sequential ε inv).bind begins next

theorem map (f : α → β) {action : EStateM ε σ α} (holds : Maintains inv action middle)
    (implies : ∀ value, middle value → post (f value)) : Maintains inv (f <$> action) post :=
  (sequential ε inv).map f holds implies

theorem giving {action : EStateM ε σ α} (holds : Maintains inv action middle) (f : α → β) :
    Maintains inv (do return f (← action)) fun _ => True :=
  holds.bind fun _ _ => pure trivial

theorem throw (reason : ε) : Maintains inv (throw reason : EStateM ε σ β) post := fun _ kept => kept

theorem get : Maintains inv (get : EStateM ε σ σ) inv := fun _ kept => ⟨kept, kept⟩

theorem modify {change : σ → σ} (keeps : ∀ state, inv state → inv (change state)) :
    Maintains inv (modify change : EStateM ε σ PUnit) fun _ => True :=
  fun state kept => ⟨keeps state kept, trivial⟩

theorem ite {condition : Prop} [Decidable condition] {yes no : EStateM ε σ β}
    (positive : condition → Maintains inv yes post) (negative : ¬condition → Maintains inv no post) :
    Maintains inv (if condition then yes else no) post := by
  split
  next holds => exact positive holds
  next fails => exact negative fails

end Maintains

end ScriptMachine
