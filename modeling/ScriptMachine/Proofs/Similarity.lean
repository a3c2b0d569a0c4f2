import ScriptMachine.Proofs.TableRelations
import ScriptMachine.Value.Equality
import Mathlib.Data.Finset.Prod
import Mathlib.Data.List.Forall2
import Mathlib.Order.Bounds.Defs

/-! Equality of values is the greatest relation that agrees with what values hold. Pairs that a
comparison has entered and left again are justified by the pairs entered since. -/

namespace ScriptMachine

/-- Values that are equal on their own, by their identity, or because `held` relates the containers
they refer to. -/
inductive Value.Matches (held : Store.ContainerKind → Ref → Ref → Prop) : Value → Value → Prop where
  | undefined : Matches held .undefined .undefined
  | useDefault : Matches held .useDefault .useDefault
  | bool (b : Bool) : Matches held (.bool b) (.bool b)
  | int (i : Int64) : Matches held (.int i) (.int i)
  | float {x y : Float} (same : (x == y) = true) : Matches held (.float x) (.float y)
  | char (c : Char) : Matches held (.char c) (.char c)
  | string (s : String) : Matches held (.string s) (.string s)
  | bytes (data : Array UInt8) : Matches held (.bytes data) (.bytes data)
  | sameArray (handle other : Handle) (ref : Ref) :
      Matches held (.array handle ref) (.array other ref)
  | array (handle other : Handle) {first second : Ref} (alike : held .array first second) :
      Matches held (.array handle first) (.array other second)
  | sameMap (handle other : Handle) (ref : Ref) : Matches held (.map handle ref) (.map other ref)
  | map (handle other : Handle) {first second : Ref} (alike : held .map first second) :
      Matches held (.map handle first) (.map other second)
  | sameObject (ref : Ref) : Matches held (.object ref) (.object ref)
  | object {first second : Ref} (alike : held .object first second) :
      Matches held (.object first) (.object second)
  | error (id : Nat) (payload other : Value) : Matches held (.error id payload) (.error id other)
  | function (ref : Ref) : Matches held (.function ref) (.function ref)
  | builtin (id : Nat) (entry other : RegistryEntry Builtin) :
      Matches held (.builtin id entry) (.builtin id other)
  | host (id : Nat) (function other : HostFunction) : Matches held (.host id function) (.host id other)
  | mapper (id : Nat) (subject other : Value) : Matches held (.mapper id subject) (.mapper id other)
  | bound (id : Nat) (hold grip : Hold) (callee receiver other target : Value) :
      Matches held (.bound id hold callee receiver) (.bound id grip other target)
  | box (ref : Ref) : Matches held (.box ref) (.box ref)
  | type (ref : Ref) : Matches held (.type ref) (.type ref)
  | member (kind : MemberKind) (ref : Ref) : Matches held (.member kind ref) (.member kind ref)
  | members (kind : MemberKind) (ref : Ref) : Matches held (.members kind ref) (.members kind ref)
  | iterator (ref : Ref) : Matches held (.iterator ref) (.iterator ref)

namespace Store

variable {store : Store} {related weaker : Value → Value → Prop}

/-- Containers that hold related values: arrays element by element, maps key by key, instances of
one type key by key. -/
def HoldAlike (store : Store) (related : Value → Value → Prop) : ContainerKind → Ref → Ref → Prop
  | .array, first, second =>
    List.Forall₂ related (store.elements first).toList (store.elements second).toList
  | .map, first, second => Table.Agree related (store.entries first) (store.entries second)
  | .object, first, second =>
    (store.object first).type = (store.object second).type ∧
      Table.Agree related (store.valuesOf first) (store.valuesOf second)

/-- Values that are equal provided that `related` says so of what they hold. -/
def Agrees (store : Store) (related : Value → Value → Prop) : Value → Value → Prop :=
  Value.Matches (store.HoldAlike related)

theorem HoldAlike.mono (implies : ∀ v w, related v w → weaker v w) {kind : ContainerKind}
    {first second : Ref} (alike : store.HoldAlike related kind first second) :
    store.HoldAlike weaker kind first second := by
  cases kind with
  | array => exact alike.imp implies
  | map => exact Table.Agree.mono implies alike
  | object => exact ⟨alike.1, alike.2.mono implies⟩

end Store

theorem Value.Matches.mono {held wider : Store.ContainerKind → Ref → Ref → Prop}
    (implies : ∀ kind first second, held kind first second → wider kind first second) {v w : Value}
    (matched : v.Matches held w) : v.Matches wider w := by
  cases matched with
  | array handle other alike => exact .array handle other (implies _ _ _ alike)
  | map handle other alike => exact .map handle other (implies _ _ _ alike)
  | object alike => exact .object (implies _ _ _ alike)
  | float same => exact .float same
  | _ => constructor

namespace Store

variable {store : Store}

/-- Values that are equal if the pairs of containers in a set are. -/
def Linked (entered : Entered) : Value → Value → Prop :=
  Value.Matches fun kind first second => (kind, first, second) ∈ entered

theorem Linked.mono {before after : Entered} (grows : ∀ pair ∈ before, pair ∈ after) {v w : Value}
    (linked : Linked before v w) : Linked after v w :=
  Value.Matches.mono (fun _ _ _ => grows _) linked

/-- From one set of pairs to a larger one: every pair that came in between holds values that are
equal if the pairs of the larger set are. -/
structure Justified (store : Store) (before after : Entered) : Prop where
  grows : ∀ pair ∈ before, pair ∈ after
  holds : ∀ kind first second, (kind, first, second) ∈ after → (kind, first, second) ∉ before →
    store.HoldAlike (Linked after) kind first second

theorem Justified.refl (entered : Entered) : store.Justified entered entered :=
  ⟨fun _ member => member, fun _ _ _ member fresh => absurd member fresh⟩

theorem Justified.trans {before middle after : Entered} (first : store.Justified before middle)
    (second : store.Justified middle after) : store.Justified before after := by
  refine ⟨fun pair member => second.grows pair (first.grows pair member), ?_⟩
  intro kind one two member fresh
  by_cases known : (kind, one, two) ∈ middle
  · exact (first.holds kind one two known fresh).mono fun _ _ linked => linked.mono second.grows
  · exact second.holds kind one two member known

/-- A comparison whose success establishes a claim about the pairs entered by its end. -/
def Establishes (store : Store) (act : StateM Entered Bool) (claim : Entered → Prop) : Prop :=
  ∀ before, (∀ pair ∈ before, pair ∈ (act.run before).2) ∧
    ((act.run before).1 = true → claim (act.run before).2 ∧ store.Justified before (act.run before).2)

variable {claim other : Entered → Prop}

theorem Establishes.pure {result : Bool} (holds : result = true → ∀ entered, claim entered) :
    store.Establishes (Pure.pure result) claim :=
  fun before => ⟨fun _ member => member, fun success => ⟨holds success before, .refl before⟩⟩

theorem Establishes.ofBEq {α : Type} [BEq α] [LawfulBEq α] {first second : α}
    (holds : first = second → ∀ entered, claim entered) :
    store.Establishes (Pure.pure (first == second)) claim :=
  .pure fun same => holds (eq_of_beq same)

theorem Establishes.both {act rest : StateM Entered Bool} (first : store.Establishes act claim)
    (next : store.Establishes rest other)
    (kept : ∀ before after, (∀ pair ∈ before, pair ∈ after) → claim before → claim after) :
    store.Establishes (do if ← act then rest else return false)
      fun entered => claim entered ∧ other entered := by
  intro before
  obtain ⟨grows, sound⟩ := first before
  simp only [StateT.run_bind]
  cases result : act.run before with
  | mk success middle =>
    rw [result] at grows sound
    cases success with
    | false => exact ⟨grows, fun impossible => by cases impossible⟩
    | true =>
      obtain ⟨later, ended⟩ := next middle
      obtain ⟨known, justified⟩ := sound rfl
      refine ⟨fun pair member => later pair (grows pair member), fun success => ?_⟩
      obtain ⟨last, since⟩ := ended success
      exact ⟨⟨kept _ _ since.grows known, last⟩, justified.trans since⟩

theorem Establishes.weaken {act : StateM Entered Bool} (first : store.Establishes act claim)
    (implies : ∀ entered, claim entered → other entered) : store.Establishes act other :=
  fun before => ⟨(first before).1, fun success =>
    ⟨implies _ ((first before).2 success).1, ((first before).2 success).2⟩⟩

theorem mem_insert_pair {before : Entered} {added pair : ContainerKind × Ref × Ref} :
    pair ∈ before.insert added ↔ pair = added ∨ pair ∈ before := by
  rw [Std.HashSet.mem_insert, beq_iff_eq, eq_comm]

theorem run_enterPair (kind : ContainerKind) (first second : Ref) (compare : StateM Entered Bool)
    (before : Entered) :
    (enterPair kind first second compare).run before =
      if first = second then (true, before)
      else if (kind, first, second) ∈ before then (true, before.insert (kind, first, second))
      else compare.run (before.insert (kind, first, second)) := by
  unfold enterPair
  split
  · rfl
  · simp only [StateT.run_bind, StateT.run_modifyGet, Std.HashSet.containsThenInsert_fst,
      Std.HashSet.containsThenInsert_snd, pure_bind, Std.HashSet.mem_iff_contains]
    split
    · rfl
    · rfl

/-- Entering a pair links it: by the comparison that follows, or by the one that entered it. -/
theorem establishes_enterPair {kind : ContainerKind} {first second : Ref}
    {compare : StateM Entered Bool}
    (compares : store.Establishes compare fun entered =>
      store.HoldAlike (Linked entered) kind first second) :
    store.Establishes (enterPair kind first second compare) fun entered =>
      first = second ∨ (kind, first, second) ∈ entered := by
  intro before
  rw [run_enterPair]
  by_cases same : first = second
  · rw [if_pos same]
    exact ⟨fun _ member => member, fun _ => ⟨.inl same, .refl before⟩⟩
  rw [if_neg same]
  by_cases known : (kind, first, second) ∈ before
  · rw [if_pos known]
    have grows : ∀ pair ∈ before, pair ∈ before.insert (kind, first, second) :=
      fun _ member => mem_insert_pair.mpr (.inr member)
    refine ⟨grows, fun _ => ⟨.inr (grows _ known), grows, ?_⟩⟩
    intro other one two member fresh
    rcases mem_insert_pair.mp member with same | old
    · exact absurd (same ▸ known) fresh
    · exact absurd old fresh
  · rw [if_neg known]
    obtain ⟨later, sound⟩ := compares (before.insert (kind, first, second))
    have grows : ∀ pair ∈ before, pair ∈ (compare.run (before.insert (kind, first, second))).2 :=
      fun pair member => later pair (mem_insert_pair.mpr (.inr member))
    refine ⟨grows, fun success => ?_⟩
    obtain ⟨alike, justified⟩ := sound success
    refine ⟨.inr (later _ Std.HashSet.mem_insert_self), grows, ?_⟩
    intro other one two member fresh
    by_cases added : (other, one, two) = (kind, first, second)
    · cases added
      exact alike
    · exact justified.holds other one two member fun present =>
        (mem_insert_pair.mp present).elim added fresh

section Comparisons

variable {equal : Value → Value → StateM Entered Bool}

theorem establishes_equalLists
    (compares : ∀ v w, store.Establishes (equal v w) fun entered => Linked entered v w)
    (firsts seconds : List Value) :
    store.Establishes (equalLists equal firsts seconds) fun entered =>
      List.Forall₂ (Linked entered) firsts seconds := by
  induction firsts generalizing seconds with
  | nil =>
    cases seconds with
    | nil => exact .pure fun _ _ => .nil
    | cons => exact .pure fun impossible => by cases impossible
  | cons first firsts ih =>
    cases seconds with
    | nil => exact .pure fun impossible => by cases impossible
    | cons second seconds =>
      refine ((compares first second).both (ih seconds) fun _ _ grows linked => linked.mono grows).weaken ?_
      exact fun _ both => .cons both.1 both.2

theorem establishes_equalArrays
    (compares : ∀ v w, store.Establishes (equal v w) fun entered => Linked entered v w)
    (first second : Array Value) :
    store.Establishes (equalArrays equal first second) fun entered =>
      List.Forall₂ (Linked entered) first.toList second.toList := by
  unfold equalArrays
  split
  · exact establishes_equalLists compares _ _
  · exact .pure fun impossible => by cases impossible

theorem establishes_equalEntries
    (compares : ∀ v w, store.Establishes (equal v w) fun entered => Linked entered v w)
    (table : Table Value) (listed : List (String × Value)) :
    store.Establishes (equalEntries equal table listed) fun entered =>
      ∀ key value, (key, value) ∈ listed →
        ∃ other, table.get? key = some other ∧ Linked entered value other := by
  induction listed with
  | nil => exact .pure fun _ _ _ _ member => by cases member
  | cons entry rest ih =>
    obtain ⟨key, value⟩ := entry
    unfold equalEntries
    split
    · exact .pure fun impossible => by cases impossible
    next other there =>
      refine ((compares value other).both ih fun _ _ grows linked => linked.mono grows).weaken ?_
      intro entered both wanted held member
      obtain ⟨linked, others⟩ := both
      rcases List.mem_cons.mp member with same | later
      · cases same
        exact ⟨other, there, linked⟩
      · exact others wanted held later

theorem establishes_equalTables
    (compares : ∀ v w, store.Establishes (equal v w) fun entered => Linked entered v w)
    {listed : List (String × Value)} {first : Table Value} (second : Table Value)
    (visits : listed.Perm first.entries) :
    store.Establishes (equalTables equal listed first second) fun entered =>
      Table.Agree (Linked entered) first second := by
  unfold equalTables
  split
  next size =>
    refine (establishes_equalEntries compares second listed).weaken fun entered partners => ?_
    refine .of_partners size fun key value held => partners key value ?_
    exact visits.mem_iff.mpr ((first.mem_entries_iff key value).mpr held)
  next => exact .pure fun impossible => by cases impossible

/-- A comparison that succeeds links its values, where what they hold is compared in the same way. -/
theorem establishes_equalWith {order : VisitOrder}
    (visits : ∀ ref entries, (order ref entries).Perm entries)
    (compares : ∀ v w, store.Establishes (equal v w) fun entered => Linked entered v w)
    (v w : Value) :
    store.Establishes (store.equalWith order equal v w) fun entered => Linked entered v w := by
  unfold equalWith
  split
  · exact .pure fun _ _ => .undefined
  · exact .pure fun _ _ => .useDefault
  next => exact .ofBEq fun same _ => same ▸ .bool _
  next => exact .ofBEq fun same _ => same ▸ .int _
  next => exact .pure fun same _ => .float same
  next => exact .ofBEq fun same _ => same ▸ .char _
  next => exact .ofBEq fun same _ => same ▸ .string _
  next => exact .ofBEq fun same _ => same ▸ .bytes _
  next handle a other b =>
    refine (establishes_enterPair (establishes_equalArrays compares _ _)).weaken ?_
    intro entered either
    rcases either with rfl | linked
    · exact .sameArray handle other a
    · exact .array handle other linked
  next handle a other b =>
    refine (establishes_enterPair (establishes_equalTables compares _ (visits _ _))).weaken ?_
    intro entered either
    rcases either with rfl | linked
    · exact .sameMap handle other a
    · exact .map handle other linked
  next a b =>
    split
    next same =>
      subst same
      exact .pure fun _ _ => .sameObject a
    next =>
      split
      next typed =>
        have values := establishes_equalTables compares (store.valuesOf b)
          (visits (store.object a).values (store.valuesOf a).entries)
        have alike : store.Establishes _ fun entered =>
            store.HoldAlike (Linked entered) .object a b :=
          values.weaken fun _ agree => ⟨typed, agree⟩
        refine (establishes_enterPair alike).weaken ?_
        intro entered either
        rcases either with rfl | linked
        · exact .sameObject a
        · exact .object linked
      next => exact .pure fun impossible => by cases impossible
  next => exact .ofBEq fun same _ => same ▸ .error _ _ _
  next => exact .ofBEq fun same _ => same ▸ .function _
  next => exact .ofBEq fun same _ => same ▸ .builtin _ _ _
  next => exact .ofBEq fun same _ => same ▸ .host _ _ _
  next => exact .ofBEq fun same _ => same ▸ .mapper _ _ _
  next => exact .ofBEq fun same _ => same ▸ .bound _ _ _ _ _ _ _
  next => exact .ofBEq fun same _ => same ▸ .box _
  next => exact .ofBEq fun same _ => same ▸ .type _
  next =>
    refine .pure fun same _ => ?_
    simp only [Bool.and_eq_true, beq_iff_eq] at same
    obtain ⟨rfl, rfl⟩ := same
    exact .member _ _
  next =>
    refine .pure fun same _ => ?_
    simp only [Bool.and_eq_true, beq_iff_eq] at same
    obtain ⟨rfl, rfl⟩ := same
    exact .members _ _
  next => exact .ofBEq fun same _ => same ▸ .iterator _
  next => exact .pure fun impossible => by cases impossible

theorem establishes_equalIn {order : VisitOrder}
    (visits : ∀ ref entries, (order ref entries).Perm entries) (fuel : Nat) (v w : Value) :
    store.Establishes (store.equalIn order fuel v w) fun entered => Linked entered v w := by
  induction fuel generalizing v w with
  | zero => exact .pure fun impossible => by cases impossible
  | succ fuel ih => exact establishes_equalWith visits ih v w

end Comparisons

section Exhaustion

variable {size : Nat}

def pairs (size : Nat) : Finset (ContainerKind × Ref × Ref) :=
  {.array, .map, .object} ×ˢ Finset.range size ×ˢ Finset.range size

def remaining (size : Nat) (entered : Entered) : Nat :=
  ((pairs size).filter (· ∉ entered)).card

theorem remaining_empty (size : Nat) : remaining size ∅ = 3 * (size * size) := by
  have all : (pairs size).filter (· ∉ (∅ : Entered)) = pairs size :=
    Finset.filter_true_of_mem fun _ _ => Std.HashSet.not_mem_empty
  rw [remaining, all, pairs, Finset.card_product, Finset.card_product, Finset.card_range]
  rfl

theorem remaining_le {before after : Entered} (grows : ∀ pair ∈ before, pair ∈ after) :
    remaining size after ≤ remaining size before := by
  apply Finset.card_le_card
  intro pair member
  rw [Finset.mem_filter] at member ⊢
  exact ⟨member.1, fun old => member.2 (grows pair old)⟩

theorem remaining_insert_lt {before : Entered} {kind : ContainerKind} {first second : Ref}
    (low : first < size) (high : second < size) (fresh : (kind, first, second) ∉ before) :
    remaining size (before.insert (kind, first, second)) < remaining size before := by
  apply Finset.card_lt_card
  refine ⟨?_, fun same => ?_⟩
  · intro pair member
    rw [Finset.mem_filter] at member ⊢
    exact ⟨member.1, fun old => member.2 (mem_insert_pair.mpr (.inr old))⟩
  · have member : (kind, first, second) ∈ (pairs size).filter (· ∉ before) := by
      rw [Finset.mem_filter]
      refine ⟨?_, fresh⟩
      simp only [pairs, Finset.mem_product, Finset.mem_range]
      refine ⟨?_, low, high⟩
      cases kind <;> simp
    exact (Finset.mem_filter.mp (same member)).2 Std.HashSet.mem_insert_self

/-- A comparison that succeeds as long as fewer pairs than `bound` are left to be entered. -/
def Succeeds (size bound : Nat) (act : StateM Entered Bool) : Prop :=
  ∀ before, remaining size before < bound → (act.run before).1 = true

theorem succeeds_true {bound : Nat} : Succeeds size bound (pure true) := fun _ _ => rfl

theorem Succeeds.both {bound : Nat} {act rest : StateM Entered Bool}
    (first : Succeeds size bound act)
    (grows : ∀ before, ∀ pair ∈ before, pair ∈ (act.run before).2)
    (next : Succeeds size bound rest) :
    Succeeds size bound (do if ← act then rest else return false) := by
  intro before few
  have success := first before few
  have later : remaining size _ ≤ remaining size before := remaining_le (grows before)
  simp only [StateT.run_bind]
  cases result : act.run before with
  | mk outcome middle =>
    rw [result] at success later
    cases success
    exact next middle (Nat.lt_of_le_of_lt later few)

/-- A pair of cells that has not been entered is one fewer to enter; cells that do not exist hold
nothing, so comparing them enters nothing. -/
theorem succeeds_enterPair {bound : Nat} {kind : ContainerKind} {first second : Ref}
    {compare : StateM Entered Bool}
    (inside : first < size → second < size → Succeeds size bound compare)
    (outside : ¬(first < size ∧ second < size) → ∀ bound, Succeeds size bound compare) :
    Succeeds size (bound + 1) (enterPair kind first second compare) := by
  intro before few
  rw [run_enterPair]
  by_cases same : first = second
  · rw [if_pos same]
  rw [if_neg same]
  by_cases known : (kind, first, second) ∈ before
  · rw [if_pos known]
  rw [if_neg known]
  by_cases exist : first < size ∧ second < size
  · have fewer := remaining_insert_lt exist.1 exist.2 known
    exact inside exist.1 exist.2 _ (by omega)
  · exact outside exist _ _ (Nat.lt_succ_self _)

variable {equal : Value → Value → StateM Entered Bool} {related : Value → Value → Prop}
  {bound : Nat}
  (grows : ∀ v w before, ∀ pair ∈ before, pair ∈ ((equal v w).run before).2)

include grows

theorem succeeds_equalLists {firsts seconds : List Value}
    (alike : List.Forall₂ related firsts seconds)
    (compares : firsts ≠ [] → ∀ v w, related v w → Succeeds size bound (equal v w)) :
    Succeeds size bound (equalLists equal firsts seconds) := by
  induction alike with
  | nil => exact succeeds_true
  | cons head rest ih =>
    have later := compares (List.cons_ne_nil _ _)
    exact (later _ _ head).both (grows _ _) (ih fun _ => later)

theorem succeeds_equalArrays {first second : Array Value}
    (alike : List.Forall₂ related first.toList second.toList)
    (compares : first.toList ≠ [] → ∀ v w, related v w → Succeeds size bound (equal v w)) :
    Succeeds size bound (equalArrays equal first second) := by
  have length : first.size = second.size := by simpa using alike.length_eq
  unfold equalArrays
  rw [if_pos length]
  exact succeeds_equalLists grows alike compares

theorem succeeds_equalEntries {table : Table Value} {listed : List (String × Value)}
    (partners : ∀ key value, (key, value) ∈ listed →
      ∃ other, table.get? key = some other ∧ related value other)
    (compares : listed ≠ [] → ∀ v w, related v w → Succeeds size bound (equal v w)) :
    Succeeds size bound (equalEntries equal table listed) := by
  induction listed with
  | nil => exact succeeds_true
  | cons entry rest ih =>
    obtain ⟨key, value⟩ := entry
    obtain ⟨other, there, holds⟩ := partners key value (by simp)
    have later := compares (List.cons_ne_nil _ _)
    simp only [equalEntries, there]
    refine (later value other holds).both (grows _ _) (ih ?_ fun _ => later)
    exact fun key value member => partners key value (List.mem_cons_of_mem _ member)

theorem succeeds_equalTables {listed : List (String × Value)} {first second : Table Value}
    (visits : listed.Perm first.entries) (agree : Table.Agree related first second)
    (compares : first ≠ ∅ → ∀ v w, related v w → Succeeds size bound (equal v w)) :
    Succeeds size bound (equalTables equal listed first second) := by
  have partners : ∀ key value, (key, value) ∈ listed →
      ∃ other, second.get? key = some other ∧ related value other :=
    fun key value member =>
      agree.partner ((first.mem_entries_iff key value).mp (visits.mem_iff.mp member))
  unfold equalTables
  rw [if_pos agree.size_eq]
  refine succeeds_equalEntries grows partners fun listing => compares ?_
  rintro rfl
  exact listing (List.Perm.eq_nil visits)

omit grows

theorem elements_outside {ref : Ref} (outside : ¬ref < store.cells.size) :
    store.elements ref = #[] := by
  rw [elements, Array.getElem?_eq_none (Nat.le_of_not_lt outside)]

theorem entries_outside {ref : Ref} (outside : ¬ref < store.cells.size) :
    store.entries ref = ∅ := by
  rw [entries, Array.getElem?_eq_none (Nat.le_of_not_lt outside)]

theorem valuesOf_outside {ref : Ref} (outside : ¬ref < store.cells.size) :
    store.valuesOf ref = ∅ := by
  rw [valuesOf, object, Array.getElem?_eq_none (Nat.le_of_not_lt outside)]
  exact entries_outside outside

theorem eq_empty_of_outside {cells : Nat} {first second : Ref} {view : Ref → Table Value}
    (agree : Table.Agree related (view first) (view second))
    (empty : ∀ ref, ¬ref < cells → view ref = ∅) (outside : ¬(first < cells ∧ second < cells)) :
    view first = ∅ := by
  by_cases exist : first < cells
  · have missing : ¬second < cells := fun other => outside ⟨exist, other⟩
    rw [empty second missing] at agree
    exact agree.eq_empty
  · exact empty first exist

include grows

/-- A comparison of values that agree succeeds if comparing what they hold does. -/
theorem succeeds_equalWith {order : VisitOrder}
    (visits : ∀ ref entries, (order ref entries).Perm entries)
    (compares : ∀ v w, related v w → Succeeds store.cells.size bound (equal v w)) {v w : Value}
    (agrees : store.Agrees related v w) :
    Succeeds store.cells.size (bound + 1) (store.equalWith order equal v w) := by
  cases agrees with
  | float same => exact fun before _ => same
  | @array handle other first second alike =>
    refine succeeds_enterPair ?_ ?_
    · exact fun _ _ => succeeds_equalArrays grows alike fun _ => compares
    · intro outside bound
      refine succeeds_equalArrays grows alike fun holding => (holding ?_).elim
      by_cases exist : first < store.cells.size
      · have missing : ¬second < store.cells.size := fun other => outside ⟨exist, other⟩
        simp only [HoldAlike, elements_outside missing, List.forall₂_nil_right_iff] at alike
        exact alike
      · rw [elements_outside exist]
  | @map handle other first second alike =>
    refine succeeds_enterPair ?_ ?_
    · exact fun _ _ => succeeds_equalTables grows (visits _ _) alike fun _ => compares
    · intro outside bound
      refine succeeds_equalTables grows (visits _ _) alike fun holding => (holding ?_).elim
      exact eq_empty_of_outside alike (fun _ => entries_outside) outside
  | @object first second alike =>
    obtain ⟨typed, agree⟩ := alike
    simp only [equalWith]
    by_cases same : first = second
    · rw [if_pos same]
      exact succeeds_true
    rw [if_neg same, if_pos typed]
    refine succeeds_enterPair ?_ ?_
    · exact fun _ _ => succeeds_equalTables grows (visits _ _) agree fun _ => compares
    · intro outside bound
      refine succeeds_equalTables grows (visits _ _) agree fun holding => (holding ?_).elim
      exact eq_empty_of_outside agree (fun _ => valuesOf_outside) outside
  | _ => simp [equalWith, enterPair, succeeds_true]

end Exhaustion

section Greatest

variable {order : VisitOrder} (visits : ∀ ref entries, (order ref entries).Perm entries)

include visits

/-- Values in a relation that agrees with itself compare equal: no pair is entered twice, so a
comparison gets to its end. -/
theorem succeeds_equalIn {related : Value → Value → Prop}
    (closed : ∀ v w, related v w → store.Agrees related v w) (fuel : Nat) {v w : Value}
    (holds : related v w) : Succeeds store.cells.size fuel (store.equalIn order fuel v w) := by
  induction fuel generalizing v w with
  | zero => exact fun before few => absurd few (Nat.not_lt_zero _)
  | succ fuel ih =>
    have grows : ∀ v w before, ∀ pair ∈ before, pair ∈ ((store.equalIn order fuel v w).run before).2 :=
      fun v w before => (establishes_equalIn visits fuel v w before).1
    exact succeeds_equalWith grows visits (fun _ _ => ih) (closed v w holds)

theorem equalVisiting_of_related {related : Value → Value → Prop}
    (closed : ∀ v w, related v w → store.Agrees related v w) {v w : Value} (holds : related v w) :
    store.equalVisiting order v w = true := by
  refine succeeds_equalIn visits closed _ holds ∅ ?_
  rw [remaining_empty]
  exact Nat.lt_succ_self _

/-- The pairs entered by a comparison that succeeds make up a relation that agrees with itself. -/
theorem exists_related_of_equalVisiting {v w : Value} (equal : store.equalVisiting order v w = true) :
    ∃ related, (∀ v w, related v w → store.Agrees related v w) ∧ related v w := by
  obtain ⟨linked, justified⟩ := (establishes_equalIn visits _ v w ∅).2 equal
  refine ⟨_, fun v w matched => ?_, linked⟩
  refine Value.Matches.mono (fun kind first second member => ?_) matched
  exact justified.holds kind first second member Std.HashSet.not_mem_empty

omit visits

/-- Equality is the greatest relation that agrees with what values hold, and the order in which maps
are visited does not matter. -/
theorem equal_isGreatest (store : Store) :
    IsGreatest { related | ∀ v w, related v w → store.Agrees related v w }
      (fun v w => store.equal v w = true) ∧
    ∀ order : VisitOrder, (∀ ref entries, (order ref entries).Perm entries) →
      ∀ v w, store.equalVisiting order v w = store.equal v w := by
  have plain : ∀ (ref : Ref) (entries : List (String × Value)), entries.Perm entries :=
    fun _ entries => .refl entries
  refine ⟨⟨?_, ?_⟩, ?_⟩
  · intro v w equal
    obtain ⟨related, closed, holds⟩ := exists_related_of_equalVisiting plain equal
    refine Value.Matches.mono (fun _ _ _ => HoldAlike.mono fun v w => ?_) (closed v w holds)
    exact equalVisiting_of_related plain closed
  · intro related closed v w holds
    exact equalVisiting_of_related plain closed holds
  · intro order visits v w
    rw [Bool.eq_iff_iff]
    constructor
    · intro equal
      obtain ⟨related, closed, holds⟩ := exists_related_of_equalVisiting visits equal
      exact equalVisiting_of_related plain closed holds
    · intro equal
      obtain ⟨related, closed, holds⟩ := exists_related_of_equalVisiting plain equal
      exact equalVisiting_of_related visits closed holds

/-- Two maps, each of which holds itself. -/
def twoCycles : Store where
  cells := #[.map (Table.empty.insert "next" (.map .writable 0)),
    .map (Table.empty.insert "next" (.map .frozen 1))]

theorem equal_isGreatest_twoCycles :
    twoCycles.equal (.map .writable 0) (.map .frozen 1) = true ∧
    twoCycles.equalVisiting (fun _ entries => entries.reverse) (.map .writable 0) (.map .frozen 1) =
      twoCycles.equal (.map .writable 0) (.map .frozen 1) := by
  obtain ⟨⟨-, greatest⟩, anyOrder⟩ := equal_isGreatest twoCycles
  have closed : ∀ v w, v = .map .writable 0 ∧ w = .map .frozen 1 →
      twoCycles.Agrees (fun v w => v = .map .writable 0 ∧ w = .map .frozen 1) v w := by
    rintro _ _ ⟨rfl, rfl⟩
    refine .map _ _ ⟨?_, ?_⟩
    · intro key
      rw [Table.mem_keys_iff, Table.mem_keys_iff]
      simp [twoCycles, entries]
    · intro key value other held there
      simp [twoCycles, entries] at held there
      exact ⟨held.2.symm, there.2.symm⟩
  exact ⟨greatest closed _ _ ⟨rfl, rfl⟩, anyOrder _ (fun _ entries => entries.reverse_perm) _ _⟩

end Greatest

end Store

end ScriptMachine
