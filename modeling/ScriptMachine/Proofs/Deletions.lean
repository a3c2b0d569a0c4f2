import ScriptMachine.Index
import ScriptMachine.Proofs.KeptCells
import ScriptMachine.Proofs.Liveness
import ScriptMachine.Proofs.InvariantLogic

/-! Deleting keys. A deletion reads its keys one after the other and removes each entry at once, so a
key that is refused leaves the entries before it deleted. A map is held meanwhile: a key whose text is
read off the map itself is refused as well. -/

namespace ScriptMachine

theorem Table.erase_empty {α : Type} (key : String) : (∅ : Table α).erase key = ∅ := by
  refine Table.ext fun wanted => ?_
  rw [Table.get?_erase]
  split
  · exact (Table.get?_empty wanted).symm
  · rfl

namespace Store

variable {store : Store} {ref other root : Ref} {entries : Table Value}

section Written

theorem getElem?_overwrite_map (store : Store) (ref other : Ref) (entries : Table Value) :
    (store.overwrite ref (.map entries)).cells[other]? = store.cells[other]? ∨
      other = ref ∧ (∃ old, store.cells[other]? = some (.map old)) ∧
        (store.overwrite ref (.map entries)).cells[other]? = some (.map entries) := by
  by_cases same : other = ref
  · subst same
    cases found : store.cells[other]? with
    | none =>
      left
      simp only [overwrite, Array.getElem?_modify, found, ↓reduceIte, Option.map_none]
    | some cell =>
      cases cell with
      | map old => exact .inr ⟨rfl, ⟨old, rfl⟩, getElem?_overwrite found rfl⟩
      | _ =>
        left
        simp [overwrite, Array.getElem?_modify, found, Cell.admits]
  · exact .inl (getElem?_overwrite_of_ne _ same)

theorem type_overwrite_map : (store.overwrite ref (.map entries)).type other = store.type other := by
  rcases store.getElem?_overwrite_map ref other entries with same | ⟨-, ⟨old, before⟩, after⟩
  · simp only [Store.type, same]
  · simp only [Store.type, before, after]

theorem object_overwrite_map : (store.overwrite ref (.map entries)).object other = store.object other := by
  rcases store.getElem?_overwrite_map ref other entries with same | ⟨-, ⟨old, before⟩, after⟩
  · simp only [Store.object, same]
  · simp only [Store.object, before, after]

theorem elements_overwrite_map : (store.overwrite ref (.map entries)).elements other = store.elements other := by
  rcases store.getElem?_overwrite_map ref other entries with same | ⟨-, ⟨old, before⟩, after⟩
  · simp only [Store.elements, same]
  · simp only [Store.elements, before, after]

theorem entry_overwrite_map : (store.overwrite ref (.map entries)).entry other = store.entry other := by
  rcases store.getElem?_overwrite_map ref other entries with same | ⟨-, ⟨old, before⟩, after⟩
  · simp only [Store.entry, same]
  · simp only [Store.entry, before, after]

theorem members_overwrite_map : (store.overwrite ref (.map entries)).members other = store.members other := by
  rcases store.getElem?_overwrite_map ref other entries with same | ⟨-, ⟨old, before⟩, after⟩
  · simp only [Store.members, same]
  · simp only [Store.members, before, after]

theorem typeNameOf_overwrite_map (store : Store) (ref other : Ref) (entries : Table Value) :
    (store.overwrite ref (.map entries)).typeNameOf other = store.typeNameOf other := by
  simp only [typeNameOf, type_overwrite_map, object_overwrite_map]

theorem entries_overwrite_of_ne {cell : Cell} (apart : other ≠ ref) :
    (store.overwrite ref cell).entries other = store.entries other := by
  simp only [Store.entries, getElem?_overwrite_of_ne cell apart]

theorem entries_overwrite_erase (key : String) :
    (store.overwrite ref (.map ((store.entries ref).erase key))).entries ref =
      (store.entries ref).erase key := by
  have written : (store.overwrite ref (.map ((store.entries ref).erase key))).cells[ref]? = _ :=
    getElem?_overwrite_self _
  unfold Store.entries at written ⊢
  rw [written]
  cases store.cells[ref]? with
  | none => exact (Table.erase_empty key).symm
  | some cell =>
    cases cell with
    | map old => rfl
    | _ => exact (Table.erase_empty key).symm

end Written

section Members

variable {table : Ref} {change : Table Ref → Table Ref}

theorem getElem?_changeMembers (store : Store) (table other : Ref) (change : Table Ref → Table Ref) :
    (store.changeMembers table change).cells[other]? = store.cells[other]? ∨
      ∃ kind listed, store.cells[other]? = some (.members kind listed) ∧
        (store.changeMembers table change).cells[other]? = some (.members kind (change listed)) := by
  by_cases same : other = table
  · subst same
    cases found : store.cells[other]? with
    | none =>
      left
      simp only [changeMembers, Array.getElem?_modify, found, ↓reduceIte, Option.map_none]
    | some cell =>
      cases cell with
      | members kind listed => exact .inr ⟨kind, listed, rfl, getElem?_changeMembers_self found⟩
      | _ =>
        left
        simp [changeMembers, Array.getElem?_modify, found]
  · exact .inl (getElem?_changeMembers_of_ne same)

theorem typeNameOf_changeMembers (store : Store) (table other : Ref) (change : Table Ref → Table Ref) :
    (store.changeMembers table change).typeNameOf other = store.typeNameOf other := by
  have types (ref : Ref) : (store.changeMembers table change).type ref = store.type ref := by
    rcases store.getElem?_changeMembers table ref change with same | ⟨kind, listed, before, after⟩
    · simp only [Store.type, same]
    · simp only [Store.type, before, after]
  have objects : (store.changeMembers table change).object other = store.object other := by
    rcases store.getElem?_changeMembers table other change with same | ⟨kind, listed, before, after⟩
    · simp only [Store.object, same]
    · simp only [Store.object, before, after]
  simp only [typeNameOf, types, objects]

theorem members_changeMembers_erase (key : String) :
    (store.changeMembers table (·.erase key)).members table = (store.members table).erase key := by
  simp only [Store.members, changeMembers, Array.getElem?_modify, ↓reduceIte]
  cases store.cells[table]? with
  | none => exact (Table.erase_empty key).symm
  | some cell =>
    cases cell with
    | members kind listed => rfl
    | _ => exact (Table.erase_empty key).symm

end Members

section Texts

/-- No text that is read off a cell leads to the given one. -/
def Hides (store : Store) (ref root : Ref) : Prop :=
  ¬Relation.ReflTransGen (store.Leads Cell.shownRefs) root ref

theorem Hides.ne (hides : store.Hides ref root) : root ≠ ref := fun same => hides (same ▸ .refl)

theorem Hides.step {cell : Cell} {held : Ref} (hides : store.Hides ref root)
    (found : store.cells[root]? = some cell) (shown : held ∈ cell.shownRefs) : store.Hides ref held :=
  fun path => hides (.head ⟨cell, found, shown⟩ path)

theorem hides_of_shows {value : Value} (hidden : store.shows value ref = false) :
    ∀ root ∈ value.shownRefs, store.Hides ref root := by
  intro root inside path
  have shown := reachesIn_allSteps_iff.mpr ⟨root, inside, path⟩
  cases hidden.symm.trans shown

theorem Hides.element (hides : store.Hides ref root) {value : Value}
    (inside : value ∈ store.elements root) : ∀ held ∈ value.shownRefs, store.Hides ref held := by
  intro held shown
  unfold elements at inside
  split at inside
  next found =>
    exact hides.step found (List.mem_flatMap.mpr ⟨value, Array.mem_toList_iff.mpr inside, shown⟩)
  · exact absurd inside (Array.not_mem_empty value)

theorem Hides.listed (hides : store.Hides ref root) {key : String} {value : Value}
    (inside : (key, value) ∈ (store.entries root).entries) :
    ∀ held ∈ value.shownRefs, store.Hides ref held := by
  intro held shown
  rw [Table.mem_entries_iff] at inside
  unfold Store.entries at inside
  split at inside
  next found => exact hides.step found (List.mem_flatMap.mpr ⟨value, Table.mem_values inside, shown⟩)
  · cases (Table.get?_empty key).symm.trans inside

theorem Hides.storage (hides : store.Hides ref root) : store.Hides ref (store.object root).values := by
  unfold object
  split
  next found => exact hides.step found List.mem_cons_self
  · exact hides

theorem Hides.declared (hides : store.Hides ref root) :
    ∀ held ∈ (store.entry root).value.shownRefs, store.Hides ref held := by
  intro held shown
  unfold entry at shown
  split at shown
  next found => exact hides.step found shown
  · cases shown

theorem writeWith_congr {later : Store} {container other : Value → Writer} {hidden : Ref → Prop}
    (types : ∀ ref, later.type ref = store.type ref)
    (members : ∀ ref, later.members ref = store.members ref)
    (alike : ∀ value : Value, value.shownRefs ≠ [] → (∀ root ∈ value.shownRefs, hidden root) →
      container value = other value) {value : Value}
    (outside : ∀ root ∈ value.shownRefs, hidden root) :
    value.writeWith later container = value.writeWith store other := by
  induction value with
  | error id payload ih => exact congrArg (Writer.andThen _) (ih outside)
  | bound id hold callee receiver ih _ => exact ih outside
  | type ref =>
    simp only [Value.writeWith, types]
  | members kind ref =>
    simp only [Value.writeWith, members]
  | member kind ref =>
    cases kind with
    | property => rfl
    | _ => exact alike _ (List.cons_ne_nil _ _) outside
  | array handle ref => exact alike _ (List.cons_ne_nil _ _) outside
  | map handle ref => exact alike _ (List.cons_ne_nil _ _) outside
  | object ref => exact alike _ (List.cons_ne_nil _ _) outside
  | _ => rfl

theorem writeEntries_eq {write other : Value → Writer} {table : Table Value}
    (alike : ∀ key value, (key, value) ∈ table.entries → write value = other value) :
    writeEntries write table = writeEntries other table := by
  unfold writeEntries
  dsimp only
  rw [List.map_congr_left fun entry inside => by rw [alike entry.1 entry.2 inside]]

/-- Each round opens containers that do not lead to the map, and what these hold does not either. -/
theorem write_overwrite_map (fuel : Nat) (path : Path) {value : Value}
    (hidden : ∀ root ∈ value.shownRefs, store.Hides ref root) :
    (store.overwrite ref (.map entries)).write fuel path value = store.write fuel path value := by
  induction fuel generalizing path value with
  | zero =>
    exact writeWith_congr (fun _ => type_overwrite_map) (fun _ => members_overwrite_map)
      (fun _ _ _ => rfl) hidden
  | succ fuel ih =>
    refine writeWith_congr (fun _ => type_overwrite_map) (fun _ => members_overwrite_map)
      (fun value shown hidden => ?_) hidden
    cases value with
    | array handle root =>
      have hides := hidden root List.mem_cons_self
      have inside : (store.elements root).toList.map
          ((store.overwrite ref (.map entries)).write fuel (path.insert root)) =
          (store.elements root).toList.map (store.write fuel (path.insert root)) :=
        List.map_congr_left fun value held => ih _ (hides.element (Array.mem_toList_iff.mp held))
      simp only [writeContainer, elements_overwrite_map, inside]
    | map handle root =>
      have hides := hidden root List.mem_cons_self
      simp only [writeContainer, entries_overwrite_of_ne hides.ne]
      split
      · rfl
      · exact writeEntries_eq fun key value held => ih _ (hides.listed held)
    | object root =>
      have hides := (hidden root List.mem_cons_self).storage
      simp only [writeContainer, typeNameOf, valuesOf, type_overwrite_map, object_overwrite_map,
        entries_overwrite_of_ne hides.ne]
      split
      · rfl
      · exact congrArg _ (writeEntries_eq fun key value held => ih _ (hides.listed held))
    | member kind root =>
      cases kind with
      | property => exact absurd rfl shown
      | _ =>
        have hides := hidden root List.mem_cons_self
        simp only [writeContainer, entry_overwrite_map, ih _ hides.declared]
    | _ => simp only [writeContainer]

theorem path_congr {later : Store} {edges : Cell → List Ref}
    (same : ∀ other, other ≠ ref → later.cells[other]? = store.cells[other]?)
    (path : Relation.ReflTransGen (store.Leads edges) root ref) :
    Relation.ReflTransGen (later.Leads edges) root ref := by
  induction path using Relation.ReflTransGen.head_induction_on with
  | refl => exact .refl
  | @head origin next step _ ih =>
    by_cases here : origin = ref
    · exact here ▸ .refl
    · obtain ⟨cell, found, leads⟩ := step
      exact .head ⟨cell, (same origin here).trans found, leads⟩ ih

theorem shows_overwrite (cell : Cell) (value : Value) :
    (store.overwrite ref cell).shows value ref = store.shows value ref := by
  have same (other : Ref) (apart : other ≠ ref) :
      (store.overwrite ref cell).cells[other]? = store.cells[other]? := getElem?_overwrite_of_ne cell apart
  unfold shows
  rw [Bool.eq_iff_iff, reachesIn_allSteps_iff, reachesIn_allSteps_iff]
  refine exists_congr fun root => and_congr_right fun _ => ⟨path_congr ?_, path_congr same⟩
  exact fun other apart => (same other apart).symm

theorem keyText?_overwrite_map {value : Value} (hidden : store.shows value ref = false) :
    (store.overwrite ref (.map entries)).keyText? value = store.keyText? value := by
  have same : (store.overwrite ref (.map entries)).display value = store.display value := by
    have depth : (store.overwrite ref (.map entries)).depth = store.depth := by
      simp only [depth, overwrite, Array.size_modify]
    unfold display
    rw [depth, write_overwrite_map _ _ (hides_of_shows hidden)]
  cases value <;> simp only [keyText?, same]

end Texts

end Store

theorem Value.kind_congr {store later : Store} (named : ∀ ref, later.typeNameOf ref = store.typeNameOf ref)
    (value : Value) : value.kind later = value.kind store := by
  induction value with
  | object ref => exact congrArg _ (named ref)
  | bound id hold callee receiver ih _ => exact ih
  | array handle ref => cases handle <;> rfl
  | map handle ref => cases handle <;> rfl
  | _ => rfl

open Store StoreM

namespace StoreM

variable (store : Store) (index : Value)

theorem run_intIndex : (intIndex index).run store =
    match index.int? with
    | some position => .ok position store
    | none => .error (.invalidIndexType (index.kind store)) store := by
  unfold intIndex
  cases index.int? <;> rfl

theorem run_textIndex : (textIndex index).run store =
    match index.text? with
    | some key => .ok key store
    | none => .error (.invalidIndexType (index.kind store)) store := by
  unfold textIndex
  cases index.text? <;> rfl

theorem run_mapIndex : (mapIndex index).run store =
    match store.keyText? index with
    | some key => .ok key store
    | none => .error (.invalidIndexType (index.kind store)) store := by
  have read : (get : StoreM Store).run store = .ok store store := rfl
  refine (bind_of_ok read).trans ?_
  cases store.keyText? index <;> rfl

end StoreM

/-- A container that keys can be deleted from. -/
inductive Collection where
  | map (ref : Ref)
  | members (kind : MemberKind) (ref : Ref)

namespace Collection

def value : Collection → Value
  | map ref => .map .writable ref
  | members kind ref => .members kind ref

def ref : Collection → Ref
  | map ref | members _ ref => ref

def find? (collection : Collection) (store : Store) (key : String) : Option Value :=
  match collection with
  | map ref => (store.entries ref).get? key
  | members kind ref => ((store.members ref).get? key).map (.member kind)

/-- The key that an index stands for while entries are deleted, or why it stands for none. -/
def key (collection : Collection) (store : Store) (index : Value) : Except Fault String :=
  match collection with
  | map ref =>
    if store.shows index ref then .error .cellHeld
    else match store.keyText? index with
      | some key => .ok key
      | none => .error (.invalidIndexType (index.kind store))
  | members _ _ =>
    match index.text? with
    | some key => .ok key
    | none => .error (.invalidIndexType (index.kind store))

/-- The keys that indices stand for, up to the first that stands for none, and why that one does not. -/
def keys (collection : Collection) (store : Store) : List Value → List String × Option Fault
  | [] => ([], none)
  | index :: rest =>
    match collection.key store index with
    | .ok key => (key :: (collection.keys store rest).1, (collection.keys store rest).2)
    | .error fault => ([], some fault)

def without (collection : Collection) (store : Store) (key : String) : Store :=
  match collection with
  | map ref => store.overwrite ref (.map ((store.entries ref).erase key))
  | members _ ref => store.changeMembers ref (·.erase key)

variable (collection : Collection) (store : Store)

theorem key_without (removed : String) (index : Value) :
    collection.key (collection.without store removed) index = collection.key store index := by
  cases collection with
  | map ref =>
    simp only [key, without, shows_overwrite,
      Value.kind_congr (fun other => store.typeNameOf_overwrite_map ref other _) index]
    cases hidden : store.shows index ref with
    | true => simp only [↓reduceIte]
    | false => simp only [keyText?_overwrite_map hidden]
  | members kind ref =>
    simp only [key, without,
      Value.kind_congr (fun other => store.typeNameOf_changeMembers ref other _) index]

theorem find?_without (removed wanted : String) :
    collection.find? (collection.without store removed) wanted =
      if removed = wanted then none else collection.find? store wanted := by
  cases collection with
  | map ref => simp only [find?, without, entries_overwrite_erase, Table.get?_erase]
  | members kind ref =>
    simp only [find?, without, members_changeMembers_erase, Table.get?_erase]
    split <;> rfl

theorem getElem?_without {other : Ref} (key : String) (apart : other ≠ collection.ref) :
    (collection.without store key).cells[other]? = store.cells[other]? := by
  cases collection with
  | map ref => exact getElem?_overwrite_of_ne _ apart
  | members kind ref => exact getElem?_changeMembers_of_ne apart

theorem nextId_without (key : String) : (collection.without store key).nextId = store.nextId := by
  cases collection <;> rfl

theorem run_indexDelete_nil : (indexDelete collection.value []).run store = .ok () store := by
  cases collection <;> rfl

/-- One key after the other is read, and its entry removed. -/
theorem run_indexDelete_cons (index : Value) (rest : List Value) :
    (indexDelete collection.value (index :: rest)).run store =
      match collection.key store index with
      | .ok key => (indexDelete collection.value rest).run (collection.without store key)
      | .error fault => .error fault store := by
  cases collection with
  | map ref =>
    have here : (get : StoreM Store).run store = .ok store store := rfl
    have read := run_mapIndex store index
    refine (bind_of_ok here).trans ?_
    simp only [key]
    cases store.shows index ref with
    | true => rfl
    | false =>
      simp only [Bool.false_eq_true, ↓reduceIte]
      cases text : store.keyText? index with
      | some key =>
        rw [text] at read
        exact bind_of_ok read
      | none =>
        rw [text] at read
        exact bind_of_error read
  | members kind ref =>
    have read := run_textIndex store index
    simp only [key]
    cases text : index.text? with
    | some key =>
      rw [text] at read
      exact bind_of_ok read
    | none =>
      rw [text] at read
      exact bind_of_error read

/-- Removing an entry does not change which keys are deleted. -/
theorem keys_without (removed : String) (indices : List Value) :
    collection.keys (collection.without store removed) indices = collection.keys store indices := by
  induction indices with
  | nil => rfl
  | cons index rest ih => simp only [keys, key_without, ih]

/-- A deletion takes its keys in their order, as they stand in the store before it. The first that is
refused ends it, and the entries of those before stay deleted; nothing else changes. -/
theorem deletion_stops_at_refused_key (indices : List Value) :
    ∃ after, (indexDelete collection.value indices).run store =
        (match (collection.keys store indices).2 with
        | none => .ok () after
        | some fault => .error fault after) ∧
      (∀ key, collection.find? after key =
        if key ∈ (collection.keys store indices).1 then none else collection.find? store key) ∧
      (∀ other, other ≠ collection.ref → after.cells[other]? = store.cells[other]?) ∧
      after.nextId = store.nextId := by
  induction indices generalizing store with
  | nil =>
    exact ⟨store, collection.run_indexDelete_nil store, by simp [keys], fun _ _ => rfl, rfl⟩
  | cons index rest ih =>
    have begun := collection.run_indexDelete_cons store index rest
    cases named : collection.key store index with
    | error fault =>
      rw [named] at begun
      have refused : collection.keys store (index :: rest) = ([], some fault) := by
        simp only [keys, named]
      rw [refused]
      exact ⟨store, begun, fun key => rfl, fun _ _ => rfl, rfl⟩
    | ok key =>
      rw [named] at begun
      obtain ⟨after, done, erased, kept, fresh⟩ := ih (collection.without store key)
      have listed : collection.keys store (index :: rest) =
          (key :: (collection.keys store rest).1, (collection.keys store rest).2) := by
        simp only [keys, named]
      rw [keys_without] at done erased
      rw [listed]
      refine ⟨after, begun.trans done, fun wanted => ?_, fun other apart => ?_, ?_⟩
      · rw [erased, find?_without]
        by_cases first : wanted = key
        · rw [if_pos (List.mem_cons.mpr (.inl first)), if_pos first.symm, ite_self]
        · rw [if_neg (Ne.symm first)]
          exact if_congr (List.mem_cons.trans (or_iff_right first)).symm rfl rfl
      · rw [kept other apart, getElem?_without collection store key apart]
      · rw [fresh, nextId_without]

def single : Store := { cells := #[.map (Table.empty.insert "a" (.int 1))] }

/-- A refused key leaves the entry of the key before it deleted, and a map that is a key of its own
deletion cannot be read. -/
theorem refused_deletion_is_partial :
    (∃ after, (indexDelete (map 0).value [.string "a", .undefined]).run single =
        .error (.invalidIndexType "undefined") after ∧
        (map 0).find? single "a" = some (.int 1) ∧ (map 0).find? after "a" = none) ∧
      (indexDelete (map 0).value [(map 0).value]).run single = .error .cellHeld single := by
  refine ⟨⟨_, rfl, rfl, rfl⟩, rfl⟩

end Collection

end ScriptMachine
