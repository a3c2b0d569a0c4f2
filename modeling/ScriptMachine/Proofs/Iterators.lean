import ScriptMachine.Proofs.ByteOrder
import ScriptMachine.Proofs.MemberAccess

/-! Iterators over storage that changes. The positions are those at the creation of an iterator, and what is
found at them is read when it is asked for. Whatever else is done in between, an iterator goes once
through its positions. -/

namespace ScriptMachine

open StoreM

/-- A position of an iteration: its key, and the element that is found there in a store. -/
structure Visit where
  key : Value
  element : Store → Value

/-- Keys in the order of their bytes, exactly those that a table has. -/
structure Table.Lists {α : Type} (table : Table α) (keys : List String) : Prop where
  ascending : keys.Pairwise fun first second => Text.utf8 first < Text.utf8 second
  present : ∀ key, key ∈ keys ↔ (table.get? key).isSome

theorem Table.lists_keys {α : Type} (table : Table α) : table.Lists table.keys :=
  ⟨table.ascending_keys, fun key => (table.mem_keys_iff key).trans Option.isSome_iff_exists.symm⟩

namespace Visit

def item (storage : Ref) (position : Nat) : Visit :=
  ⟨.int (Int64.ofNat position), fun later => (later.elements storage)[position]?.getD .undefined⟩

def fixed (position : Nat) (value : Value) : Visit := ⟨.int (Int64.ofNat position), fun _ => value⟩

def entry (storage : Ref) (key : String) : Visit :=
  ⟨.string key, fun later => ((later.entries storage).get? key).getD .undefined⟩

/-- What an iterator stands on after it was advanced: nothing at first, and nothing after the last. -/
def at? (visits : List Visit) : Nat → Option Visit
  | 0 => none
  | count + 1 => visits[count]?

/-- The key that is shown after a number of advances. -/
def keyAt (visits : List Visit) (count : Nat) : Value := ((at? visits count).map Visit.key).getD .undefined

/-- The element that is shown after a number of advances, as it is in a store. -/
def elementAt (visits : List Visit) (count : Nat) (later : Store) : Value :=
  ((at? visits count).map fun visit => visit.element later).getD .undefined

end Visit

namespace Store

/-- The positions of a value: each element of an array, octet of bytes, character of text in turn, or each
key of a map or of the storage of an instance in the order of its bytes. -/
inductive Visits (store : Store) : Value → List Visit → Prop where
  | undefined : Visits store .undefined []
  | useDefault : Visits store .useDefault []
  | array (handle : Handle) (ref : Ref) :
      Visits store (.array handle ref) ((List.range (store.elements ref).size).map (Visit.item ref))
  | bytes (data : Array UInt8) : Visits store (.bytes data)
      (data.toList.mapIdx fun position octet => .fixed position (.int (Int64.ofNat octet.toNat)))
  | string (text : String) : Visits store (.string text)
      (text.toList.mapIdx fun position char => .fixed position (.char char))
  | map (handle : Handle) (ref : Ref) {keys : List String} (lists : (store.entries ref).Lists keys) :
      Visits store (.map handle ref) (keys.map (Visit.entry ref))
  | object (ref : Ref) {keys : List String} (lists : (store.valuesOf ref).Lists keys) :
      Visits store (.object ref) (keys.map (Visit.entry (store.object ref).values))

def count (store : Store) : Value → Nat
  | .array _ ref => (store.elements ref).size
  | .bytes data => data.size
  | .string text => text.length
  | .map _ ref => (store.entries ref).size
  | .object ref => (store.valuesOf ref).size
  | _ => 0

end Store

/-- A sequence that goes through some positions. -/
structure Sequence.Shows (sequence : Sequence) (visits : List Visit) : Prop where
  count : visits.length = sequence.count
  visit : ∀ position : Fin sequence.count, visits[position.val]? =
    some ⟨sequence.keyAt position, fun later => sequence.valueAt later position⟩

namespace Sequence

theorem shows_nothing : nothing.Shows [] := ⟨rfl, fun position => position.elim0⟩

theorem shows_elements (storage : Ref) (size : Nat) :
    (elements storage size).Shows ((List.range size).map (Visit.item storage)) := by
  refine ⟨by simp [count], fun ⟨position, (inside : position < size)⟩ => ?_⟩
  rw [List.getElem?_map, List.getElem?_range inside]
  rfl

theorem shows_octets (data : Array UInt8) : (octets data).Shows
    (data.toList.mapIdx fun position octet => .fixed position (.int (Int64.ofNat octet.toNat))) := by
  refine ⟨by simp [count], fun ⟨position, (inside : position < data.size)⟩ => ?_⟩
  rw [List.getElem?_mapIdx, Array.getElem?_toList, Array.getElem?_eq_getElem inside]
  rfl

theorem shows_characters (text : List Char) : (characters text.toArray).Shows
    (text.mapIdx fun position char => .fixed position (.char char)) := by
  refine ⟨by simp [count], fun ⟨position, (inside : position < text.length)⟩ => ?_⟩
  rw [List.getElem?_mapIdx, List.getElem?_eq_getElem inside]
  rfl

theorem shows_entries (storage : Ref) (keys : List String) :
    (entries storage keys.toArray).Shows (keys.map (Visit.entry storage)) := by
  refine ⟨by simp [count], fun ⟨position, (inside : position < keys.length)⟩ => ?_⟩
  rw [List.getElem?_map, List.getElem?_eq_getElem inside]
  rfl

theorem exists_visits (store : Store) {value : Value} (iterable : value.isIterable = true) :
    ∃ sequence visits, Sequence.of store value = .ok sequence ∧ store.Visits value visits ∧
      visits.length = store.count value ∧ sequence.Shows visits := by
  cases value with
  | undefined => exact ⟨_, _, rfl, .undefined, rfl, shows_nothing⟩
  | useDefault => exact ⟨_, _, rfl, .useDefault, rfl, shows_nothing⟩
  | array handle ref => exact ⟨_, _, rfl, .array handle ref, by simp [Store.count], shows_elements _ _⟩
  | bytes data => exact ⟨_, _, rfl, .bytes data, by simp [Store.count], shows_octets _⟩
  | string text => exact ⟨_, _, rfl, .string text, by simp [Store.count, String.length_toList], shows_characters _⟩
  | map handle ref =>
    refine ⟨_, _, rfl, .map handle ref (store.entries ref).lists_keys, ?_, shows_entries _ _⟩
    rw [List.length_map, Table.length_keys, Store.count]
  | object ref =>
    refine ⟨_, _, rfl, .object ref (store.valuesOf ref).lists_keys, ?_, shows_entries _ _⟩
    rw [List.length_map, Table.length_keys, Store.count]
  | _ => cases iterable

end Sequence

namespace Cursor

variable {sequence : Sequence} {visits : List Visit}

/-- An iterator that was advanced a number of times. It goes one step past its last position. -/
theorem iterate_advance (sequence : Sequence) (count : Nat) :
    advance^[count] (start sequence) = ⟨sequence, min count (sequence.count + 1)⟩ := by
  induction count with
  | zero => simp [start]
  | succ count ih =>
    rw [Function.iterate_succ_apply', ih, advance]
    dsimp only
    split
    next inside =>
      congr 1
      omega
    next outside =>
      congr 1
      omega

theorem inside_advanced (shows : sequence.Shows visits) (count : Nat) :
    (advance^[count + 1] (start sequence)).inside = decide (count < visits.length) := by
  rw [iterate_advance, inside, shows.count, decide_eq_decide]
  dsimp only
  omega

theorem current?_advanced (shows : sequence.Shows visits) (count : Nat) :
    ((advance^[count] (start sequence)).current?.map fun position =>
      Visit.mk (Sequence.keyAt _ position) fun later => Sequence.valueAt later _ position) =
      Visit.at? visits count := by
  rw [iterate_advance]
  unfold current?
  dsimp only
  cases count with
  | zero => simp [Visit.at?]
  | succ position =>
    split
    next inside =>
      have there : position < sequence.count := by omega
      have same : min (position + 1) (sequence.count + 1) - 1 = position := by omega
      simp only [same]
      exact (shows.visit ⟨position, there⟩).symm
    next outside =>
      have gone : visits.length ≤ position := by
        rw [shows.count]
        omega
      exact (List.getElem?_eq_none gone).symm

theorem key_advanced (shows : sequence.Shows visits) (count : Nat) :
    (advance^[count] (start sequence)).key = Visit.keyAt visits count := by
  rw [Visit.keyAt, ← current?_advanced shows, key]
  split
  next found => rw [found]; rfl
  next found => rw [found]; rfl

theorem value_advanced (shows : sequence.Shows visits) (count : Nat) (later : Store) :
    (advance^[count] (start sequence)).value later = Visit.elementAt visits count later := by
  rw [Visit.elementAt, ← current?_advanced shows, value]
  split
  next found => rw [found]; rfl
  next found => rw [found]; rfl

end Cursor

namespace Store

def withIterator (store : Store) (sequence : Sequence) : Store :=
  { store with cells := store.cells.push (.iterator (.start sequence)) }

@[simp] theorem getElem?_withIterator (store : Store) (sequence : Sequence) :
    (store.withIterator sequence).cells[store.cells.size]? = some (.iterator (.start sequence)) :=
  Array.getElem?_push_size

theorem newIterator_eq {store : Store} {value : Value} {sequence : Sequence}
    (of : Sequence.of store value = .ok sequence) :
    newIterator value store = .ok (.iterator store.cells.size) (store.withIterator sequence) := by
  have read : (get : StoreM Store) store = .ok store store := rfl
  rw [newIterator, bind_of_ok read, of]
  rfl

end Store

namespace Machine

def HasTop (machine : Machine) (value : Value) : Prop :=
  0 < machine.sp ∧ machine.stack[machine.sp - 1]? = some value

theorem HasTop.unique {machine : Machine} {value other : Value} (first : machine.HasTop value)
    (second : machine.HasTop other) : value = other :=
  Option.some.inj (first.2.symm.trans second.2)

def withTop (machine : Machine) (value : Value) : Machine :=
  { machine with stack := machine.stack.setIfInBounds (machine.sp - 1) value }

def lowered (machine : Machine) : Machine :=
  { machine with stack := machine.stack.setIfInBounds (machine.sp - 1) .undefined, sp := machine.sp - 1 }

end Machine

namespace Act

variable {machine : Machine} {value : Value} (world : World)

theorem pop_of_top (top : machine.HasTop value) :
    pop ⟨world, machine⟩ = .ok value ⟨world, machine.lowered⟩ := by
  obtain ⟨stack, sp⟩ := machine
  obtain ⟨used, found⟩ := top
  cases sp with
  | zero => cases used
  | succ below =>
    have there : stack[below]? = some value := found
    simp only [pop, there]
    rfl

/-- There is always room for a value in place of the one on top. -/
theorem push_lowered (top : machine.HasTop value) (other : Value) :
    push other ⟨world, machine.lowered⟩ = .ok () ⟨world, machine.withTop other⟩ := by
  obtain ⟨stack, sp⟩ := machine
  obtain ⟨used, found⟩ := top
  cases sp with
  | zero => cases used
  | succ below =>
    have inside : below < stack.size := (Array.getElem?_eq_some_iff.mp found).1
    simp only [push, Machine.lowered, Machine.withTop, Nat.add_sub_cancel, Array.size_setIfInBounds,
      if_pos inside, Array.setIfInBounds_setIfInBounds]

theorem push_eq_ok {other : Value} {active after : Active} (done : push other active = .ok () after) :
    after.world = active.world ∧ after.machine.HasTop other := by
  simp only [push] at done
  split at done
  next inside =>
    cases done
    exact ⟨rfl, Nat.succ_pos _, by simp [inside]⟩
  next => cases done

theorem charge_eq_ok {limits : Limits} {active after : Active} (done : charge limits active = .ok () after) :
    after.world = active.world := by
  by_cases limited : 0 ≤ limits.maxAllocations
  · rw [charge_eq limited] at done
    split at done
    · cases done
    · cases done
      rfl
  · rw [charge_unlimited (Int.not_le.mp limited)] at done
    cases done
    rfl

/-- The instruction that begins an iteration leaves a new iterator on top of the stack. -/
theorem iteration_iterate {limits : Limits} {sequence : Sequence} {after : Active} {next : Next}
    (top : machine.HasTop value) (of : Sequence.of world.store value = .ok sequence)
    (done : iteration limits .iterate ⟨world, machine⟩ = .ok next after) :
    after.world.store = world.store.withIterator sequence ∧
      after.machine.HasTop (.iterator world.store.cells.size) := by
  obtain ⟨_, _, popped, done⟩ := bind_eq_ok done
  cases (pop_of_top world top).symm.trans popped
  obtain ⟨_, _, read, done⟩ := bind_eq_ok done
  cases read
  obtain ⟨_, _, found, done⟩ := bind_eq_ok done
  have known : ofExcept (Sequence.of world.store value) ⟨world, machine.lowered⟩ =
      .ok sequence ⟨world, machine.lowered⟩ := by
    rw [of]
    rfl
  cases known.symm.trans found
  obtain ⟨_, charged, paid, done⟩ := bind_eq_ok done
  have spent := charge_eq_ok paid
  obtain ⟨_, grown, made, done⟩ := bind_eq_ok done
  cases made
  obtain ⟨_, _, pushed, done⟩ := bind_eq_ok done
  cases done
  obtain ⟨same, on⟩ := push_eq_ok pushed
  rw [same]
  obtain ⟨_, _⟩ := charged
  subst spent
  exact ⟨rfl, on⟩

theorem popIterator_of_top {ref : Ref} (top : machine.HasTop (.iterator ref)) :
    popIterator ⟨world, machine⟩ = .ok ref ⟨world, machine.lowered⟩ :=
  bind_of_ok (pop_of_top world top)

section Instructions

variable (limits : Limits) {ref : Ref} (top : machine.HasTop (.iterator ref))

include top

theorem iteration_next {more : Bool} {after : Store}
    (done : iteratorNext ref world.store = .ok more after) :
    iteration limits .iteratorNext ⟨world, machine⟩ =
      .ok .proceed ⟨{ world with store := after }, machine.withTop (.bool more)⟩ := by
  have advanced : onStore (iteratorNext ref) ⟨world, machine.lowered⟩ =
      .ok more ⟨{ world with store := after }, machine.lowered⟩ := by
    simp only [onStore, World.compute, done]
  refine (bind_of_ok (popIterator_of_top world top)).trans ((bind_of_ok advanced).trans ?_)
  exact bind_of_ok (push_lowered _ top (.bool more))

theorem iteration_key : iteration limits .iteratorKey ⟨world, machine⟩ =
    .ok .proceed ⟨world, machine.withTop (world.store.cursor ref).key⟩ := by
  refine (bind_of_ok (popIterator_of_top world top)).trans ?_
  exact bind_of_ok (push_lowered _ top _)

theorem iteration_value : iteration limits .iteratorValue ⟨world, machine⟩ =
    .ok .proceed ⟨world, machine.withTop ((world.store.cursor ref).value world.store)⟩ := by
  refine (bind_of_ok (popIterator_of_top world top)).trans ?_
  exact bind_of_ok (push_lowered _ top _)

end Instructions

end Act

namespace Store

/-- A value is given an iterator, by native code or by an instruction. -/
inductive Begins (store : Store) (value : Value) : Ref → Store → Prop where
  | native {ref : Ref} {start : Store} (made : newIterator value store = .ok (.iterator ref) start) :
      Begins store value ref start
  | instruction {limits : Limits} {world : World} {machine : Machine} {after : Active} {ref : Ref}
      (here : world.store = store) (given : machine.HasTop value)
      (made : Act.iteration limits .iterate ⟨world, machine⟩ = .ok .proceed after)
      (top : after.machine.HasTop (.iterator ref)) : Begins store value ref after.world.store

/-- A store after an iterator was advanced a number of times, where anything may have been done to other
cells before, in between and afterwards. -/
inductive Advanced (ref : Ref) (start : Store) : Nat → Store → Prop where
  | start : Advanced ref start 0 start
  | next {count : Nat} {store after : Store} {more : Bool} (before : Advanced ref start count store)
      (done : iteratorNext ref store = .ok more after) : Advanced ref start (count + 1) after
  | change {count : Nat} {store later : Store} (before : Advanced ref start count store)
      (kept : later.cells[ref]? = store.cells[ref]?) : Advanced ref start count later

/-- What advancing an iterator, and asking for its key and its element, gives after a number of advances:
to native code, and as an instruction in place of the iterator on the stack. -/
structure Iterates (store : Store) (ref : Ref) (visits : List Visit) (count : Nat) : Prop where
  next : ∃ after, iteratorNext ref store = .ok (decide (count < visits.length)) after ∧
    (∀ other, other ≠ ref → after.cells[other]? = store.cells[other]?) ∧
    ∀ limits world machine, world.store = store → machine.HasTop (.iterator ref) →
      Act.iteration limits .iteratorNext ⟨world, machine⟩ = .ok .proceed
        ⟨{ world with store := after }, machine.withTop (.bool (decide (count < visits.length)))⟩
  key : (store.cursor ref).key = Visit.keyAt visits count ∧
    ∀ limits world machine, world.store = store → machine.HasTop (.iterator ref) →
      Act.iteration limits .iteratorKey ⟨world, machine⟩ =
        .ok .proceed ⟨world, machine.withTop (Visit.keyAt visits count)⟩
  element : (store.cursor ref).value store = Visit.elementAt visits count store ∧
    ∀ limits world machine, world.store = store → machine.HasTop (.iterator ref) →
      Act.iteration limits .iteratorValue ⟨world, machine⟩ =
        .ok .proceed ⟨world, machine.withTop (Visit.elementAt visits count store)⟩

variable {store start later : Store} {ref : Ref} {value : Value} {cursor : Cursor} {count : Nat}
  {sequence : Sequence} {visits : List Visit}

theorem cursor_eq (found : store.cells[ref]? = some (.iterator cursor)) : store.cursor ref = cursor := by
  simp only [Store.cursor, found]

/-- A new iterator has a cell of its own, before its first position. -/
theorem Begins.cell (begins : store.Begins value ref start) (of : Sequence.of store value = .ok sequence) :
    start.cells[ref]? = some (.iterator (.start sequence)) := by
  cases begins with
  | native made =>
    rw [newIterator_eq of] at made
    cases made
    exact getElem?_withIterator store sequence
  | instruction here given made top =>
    subst here
    obtain ⟨store, on⟩ := Act.iteration_iterate _ given of made
    have same : ref = _ := Value.iterator.inj (top.unique on)
    rw [same, store]
    exact getElem?_withIterator _ sequence

theorem iteratorNext_eq (found : store.cells[ref]? = some (.iterator cursor)) :
    iteratorNext ref store =
      .ok cursor.advance.inside (store.overwrite ref (.iterator cursor.advance)) := by
  show EStateM.Result.ok (store.cursor ref).advance.inside
    (store.overwrite ref (.iterator (store.cursor ref).advance)) = _
  rw [cursor_eq found]

theorem Advanced.cell (advanced : start.Advanced ref count later)
    (found : start.cells[ref]? = some (.iterator cursor)) :
    later.cells[ref]? = some (.iterator (Cursor.advance^[count] cursor)) := by
  induction advanced with
  | start => exact found
  | next before done ih =>
    rw [iteratorNext_eq ih] at done
    cases done
    rw [Function.iterate_succ_apply']
    exact getElem?_overwrite ih rfl
  | change before kept ih => exact kept.trans ih

theorem exists_advanced (found : start.cells[ref]? = some (.iterator cursor)) (count : Nat) :
    ∃ later, start.Advanced ref count later := by
  induction count with
  | zero => exact ⟨start, .start⟩
  | succ count ih =>
    obtain ⟨later, advanced⟩ := ih
    exact ⟨_, advanced.next (iteratorNext_eq (advanced.cell found))⟩

/-- Nothing that programs and the embedding program do has another effect on an iterator than advancing it. -/
theorem advanced_of_becomes (found : start.cells[ref]? = some (.iterator cursor))
    (history : Relation.ReflTransGen Becomes start later) : ∃ count, start.Advanced ref count later := by
  obtain ⟨_, there, count, rfl⟩ := (remembers_of_becomes history).iterator found
  obtain ⟨middle, advanced⟩ := exists_advanced found count
  exact ⟨count, advanced.change (there.trans (advanced.cell found).symm)⟩

theorem Advanced.iterates (advanced : start.Advanced ref count later)
    (found : start.cells[ref]? = some (.iterator (.start sequence))) (shows : sequence.Shows visits) :
    later.Iterates ref visits count := by
  have here := advanced.cell found
  have done := iteratorNext_eq here
  rw [← Function.iterate_succ_apply' Cursor.advance, Cursor.inside_advanced shows] at done
  have key : (later.cursor ref).key = Visit.keyAt visits count := by
    rw [cursor_eq here, Cursor.key_advanced shows]
  have element : (later.cursor ref).value later = Visit.elementAt visits count later := by
    rw [cursor_eq here, Cursor.value_advanced shows]
  refine ⟨⟨_, done, fun other apart => getElem?_overwrite_of_ne _ apart, ?_⟩, ⟨key, ?_⟩, ⟨element, ?_⟩⟩
  · rintro limits world machine rfl top
    exact Act.iteration_next world limits top done
  · rintro limits world machine rfl top
    rw [Act.iteration_key world limits top, key]
  · rintro limits world machine rfl top
    rw [Act.iteration_value world limits top, element]

/-- An iterator over a value goes once through the positions that the value had at its creation, whatever is
done between its steps: it can be advanced as often as there are positions and not again, and shows the
key of each and the element that is there at the moment. -/
theorem iteration_is_exact (store : Store) {value : Value} (iterable : value.isIterable = true) :
    ∃ visits, store.Visits value visits ∧ visits.length = store.count value ∧
      (∃ ref start, newIterator value store = .ok (.iterator ref) start) ∧
      ∀ ref start, store.Begins value ref start →
        (∀ count later, start.Advanced ref count later → later.Iterates ref visits count) ∧
        ∀ later, Relation.ReflTransGen Becomes start later → ∃ count, start.Advanced ref count later := by
  obtain ⟨sequence, visits, of, has, length, shows⟩ := Sequence.exists_visits store iterable
  refine ⟨visits, has, length, ?_, fun ref start begins => ?_⟩
  · exact ⟨_, _, newIterator_eq of⟩
  · have found := begins.cell of
    exact ⟨fun count later advanced => advanced.iterates found shows,
      fun later history => advanced_of_becomes found history⟩

def twoNumbers : Store := { cells := #[.array #[.int 10, .int 20]] }

/-- Both positions of the array are visited, although it is emptied after the first. -/
theorem iteration_is_exact_emptied :
    ∃ ref start first second,
      newIterator (.array .writable 0) twoNumbers = .ok (.iterator ref) start ∧
      iteratorNext ref start = .ok true first ∧ (first.cursor ref).value first = .int 10 ∧
      iteratorNext ref (first.overwrite 0 (.array #[])) = .ok true second ∧
      (second.cursor ref).key = .int 1 ∧ (second.cursor ref).value second = .undefined ∧
      ∃ last, iteratorNext ref second = .ok false last := by
  have iterable : (Value.array .writable 0).isIterable = true := rfl
  obtain ⟨visits, has, -, -, exact⟩ := iteration_is_exact twoNumbers iterable
  cases has
  have made : newIterator (.array .writable 0) twoNumbers = .ok (.iterator 1) _ := rfl
  have iterates := (exact 1 _ (.native made)).1
  obtain ⟨first, one, others, -⟩ := (iterates 0 _ .start).next
  have entered := Advanced.start.next one
  have emptied := entered.change (getElem?_overwrite_of_ne (.array #[]) Nat.one_ne_zero)
  obtain ⟨second, two, others', -⟩ := (iterates 1 _ emptied).next
  have left := emptied.next two
  obtain ⟨last, three, -⟩ := (iterates 2 _ left).next
  have kept := others 0 (by decide)
  have gone := others' 0 (by decide)
  rw [getElem?_overwrite kept rfl] at gone
  refine ⟨1, _, first, second, made, one, (iterates 1 _ entered).element.1.trans ?_, two,
    (iterates 2 _ left).key.1, (iterates 2 _ left).element.1.trans ?_, last, three⟩
  · show (first.elements 0)[0]?.getD .undefined = _
    rw [Store.elements, kept]
    rfl
  · show (second.elements 0)[1]?.getD .undefined = _
    rw [Store.elements, gone]
    rfl

end Store

end ScriptMachine
