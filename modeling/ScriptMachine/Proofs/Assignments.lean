import ScriptMachine.Proofs.Deletions
import ScriptMachine.Proofs.SharedStructure
import ScriptMachine.Proofs.ValueConversions

/-! What an assignment under an index changes: a container, in the one place that the index names, and
under the key of an accessor the property that it belongs to. Whatever fails is found out before. -/

namespace ScriptMachine

open Store StoreM

/-- A later form of a field or method in which a key has been assigned at most. -/
structure Entry.SameBut (key : String) (entry later : Entry) : Prop where
  value : key ≠ "value" → later.value = entry.value
  tags : key ≠ "tags" → later.tags = entry.tags

/-- A later form of a property in which a key has been assigned at most. -/
structure Property.SameBut (key : String) (property later : Property) : Prop where
  getter : key ≠ "get" → later.getter = property.getter
  setter : key ≠ "set" → later.setter = property.setter
  tags : key ≠ "tags" → later.tags = property.tags

/-- Looking something up in two stores comes to the same: the same answer, new maps of the same entries,
or the same fault. -/
inductive AnswersAlike (store later : Store) :
    EStateM.Result Fault Store Answer → EStateM.Result Fault Store Answer → Prop where
  | same (answer : Answer) (after last : Store) : AnswersAlike store later (.ok answer after) (.ok answer last)
  | made {after last : Store} {ref other : Ref} (new : store.cells.size ≤ ref) (also : later.cells.size ≤ other)
      (entries : last.entries other = after.entries ref) :
      AnswersAlike store later (.ok (.value (.map .writable ref)) after) (.ok (.value (.map .writable other)) last)
  | refused (fault : Fault) (after last : Store) : AnswersAlike store later (.error fault after) (.error fault last)

/-- What a value holds under an index is the same in a later store. -/
def Store.ReadsAlike (store later : Store) (target index : Value) : Prop :=
  AnswersAlike store later ((indexGet target index).run store) ((indexGet target index).run later)

namespace StoreM

section Members

variable {store later : Store} {ref : Ref} {key : String} {value : Value}

theorem rewritten_entry {kind : MemberKind} {entry : Entry} (found : store.cells[ref]? = some (.entry entry))
    (ran : (entrySet kind ref key value).run store = .ok () later) :
    ∃ middle changed, store.Kept middle ∧ later = middle.overwrite ref (.entry changed) ∧
      entry.SameBut key changed := by
  have view {middle : Store} (kept : store.Kept middle) : middle.entry ref = entry := Store.entry_eq (kept _ _ found)
  unfold entrySet at ran
  split at ran
  · obtain ⟨declared, middle, converted, written⟩ := bind_eq_ok ran
    have builds : Builds True (fun _ => True) store (declaredValue kind value) _ := builds_declaredValue kind value
    obtain ⟨kept, -⟩ := builds.of_ok (.refl store) trivial converted
    cases written
    refine ⟨middle, _, kept, rfl, fun other => absurd rfl other, fun _ => ?_⟩
    rw [view kept]
  · obtain ⟨tags, middle, converted, written⟩ := bind_eq_ok ran
    obtain ⟨kept, -⟩ := (builds_tagsFrom mappable_shallow none trivial).of_ok (.refl store) trivial converted
    cases written
    refine ⟨middle, _, kept, rfl, fun _ => ?_, fun other => absurd rfl other⟩
    rw [view kept]
  · cases ran

theorem rewritten_property {property : Property} (found : store.cells[ref]? = some (.property property))
    (ran : (propertySet ref key value).run store = .ok () later) :
    ∃ middle changed, store.Kept middle ∧ later = middle.overwrite ref (.property changed) ∧
      property.SameBut key changed := by
  have view : store.property ref = property := Store.property_eq found
  have builds : Builds True (fun _ => True) store (propertyWith none property key value) fun _ changed =>
      property.SameBut key changed := by
    unfold propertyWith
    split
    · exact (builds_accessor value).bind fun _ getter _ _ => .pure fun _ _ =>
        ⟨fun other => absurd rfl other, fun _ => rfl, fun _ => rfl⟩
    · exact (builds_accessor value).bind fun _ setter _ _ => .pure fun _ _ =>
        ⟨fun _ => rfl, fun other => absurd rfl other, fun _ => rfl⟩
    · exact (builds_tagsFrom mappable_shallow none trivial).bind fun _ tags _ _ => .pure fun _ _ =>
        ⟨fun _ => rfl, fun _ => rfl, fun other => absurd rfl other⟩
    · exact .throw trivial _
  have asked : (propertySet ref key value).run store =
      (propertyWith none property key value >>= fun changed => write ref (.property changed)).run store := by
    rw [← view]
    rfl
  rw [asked] at ran
  obtain ⟨changed, middle, converted, written⟩ := bind_eq_ok ran
  obtain ⟨kept, -, same⟩ := builds.of_ok (.refl store) trivial converted
  cases written
  exact ⟨middle, changed, kept, rfl, same⟩

/-- A change to a member that fails leaves the store as it is. -/
theorem eq_of_memberSet_error {kind : MemberKind} {fault : Fault}
    (failed : (memberSet kind ref key value).run store = .error fault later) : later = store := by
  have alone : Hindered False store (memberSet kind ref key value) _ := hindered_memberSet kind ref key value
  unfold Hindered at alone
  rw [failed] at alone
  exact alone.2.1

end Members

end StoreM

section Reading

variable {store later : Store} {ref : Ref} {key other : String}

theorem AnswersAlike.value {first second : Value} {after last : Store} (is : second = first) :
    AnswersAlike store later (.ok (.value first) after) (.ok (.value second) last) :=
  is ▸ .same _ _ _

theorem alike_newMap {first second : Table Value} (same : second = first) :
    AnswersAlike store later ((Answer.value <$> newMap first .writable).run store)
      ((Answer.value <$> newMap second .writable).run later) := by
  subst same
  refine .made (Nat.le_refl _) (Nat.le_refl _) ?_
  simp [Store.entries]

theorem readsAlike_type (same : (store.type ref).SameBut key (later.type ref)) (assignable : key ∈ assignableKeys)
    (apart : other ≠ key) (single : other ≠ mapKey) :
    store.ReadsAlike later (.type ref) (.string other) := by
  change AnswersAlike store later ((Answer.value <$> typeGet ref other).run store)
    ((Answer.value <$> typeGet ref other).run later)
  unfold typeGet
  split
  · exact .value (congrArg Value.string same.name)
  · exact alike_newMap (same.tags apart.symm)
  · exact .value (congrArg (Option.getD · Value.undefined) (same.constructor apart.symm))
  · exact .value (congrArg (Value.members .field) (same.fields apart.symm))
  · exact .value (congrArg (Value.members .method) (same.methods apart.symm))
  · refine .value (congrArg (Value.members .property) (same.properties apart.symm ?_))
    rintro rfl
    exact absurd assignable (by decide)
  · exact absurd rfl single
  · exact .refused _ _ _

theorem run_indexGet_member {kind : MemberKind} (single : other ≠ mapKey) (store : Store) :
    (indexGet (.member kind ref) (.string other)).run store =
      (Answer.value <$> memberGet kind ref other).run store := by
  change EStateM.run (if other = mapKey then Answer.value <$> newMapper _ else _) store = _
  rw [if_neg single]

theorem readsAlike_entry {kind : MemberKind} (plain : kind ≠ .property)
    (same : (store.entry ref).SameBut key (later.entry ref)) (apart : other ≠ key) (single : other ≠ mapKey) :
    store.ReadsAlike later (.member kind ref) (.string other) := by
  unfold Store.ReadsAlike
  rw [run_indexGet_member single, run_indexGet_member single]
  have read : memberGet kind ref other = entryGet ref other := by cases kind <;> first | rfl | exact absurd rfl plain
  rw [read]
  unfold entryGet
  split
  · exact .value (same.value apart.symm)
  · exact alike_newMap (same.tags apart.symm)
  · exact .refused _ _ _

theorem readsAlike_property (same : (store.property ref).SameBut key (later.property ref)) (apart : other ≠ key)
    (single : other ≠ mapKey) : store.ReadsAlike later (.member .property ref) (.string other) := by
  unfold Store.ReadsAlike
  rw [run_indexGet_member single, run_indexGet_member single]
  change AnswersAlike store later ((Answer.value <$> propertyGet ref other).run store)
    ((Answer.value <$> propertyGet ref other).run later)
  unfold propertyGet
  split
  · exact .value (congrArg (Option.getD · Value.undefined) (same.getter apart.symm))
  · exact .value (congrArg (Option.getD · Value.undefined) (same.setter apart.symm))
  · exact alike_newMap (same.tags apart.symm)
  · exact .refused _ _ _

theorem readsAlike_members {kind : MemberKind}
    (same : (later.members ref).get? other = (store.members ref).get? other) (single : other ≠ mapKey) :
    store.ReadsAlike later (.members kind ref) (.string other) := by
  have read (there : Store) : (indexGet (.members kind ref) (.string other)).run there =
      .ok (.value (((there.members ref).get? other |>.map (.member kind)).getD .undefined)) there := by
    change EStateM.run (if other = mapKey then Answer.value <$> newMapper _ else _) there = _
    rw [if_neg single]
    rfl
  unfold Store.ReadsAlike
  rw [read, read]
  exact .value (by rw [same])

theorem readsAlike_map {handle : Handle}
    (same : (later.entries ref).get? other = (store.entries ref).get? other) :
    store.ReadsAlike later (.map handle ref) (.string other) := by
  have read (there : Store) : (indexGet (.map handle ref) (.string other)).run there =
      .ok (.value (((there.entries ref).get? other).getD .undefined)) there := rfl
  unfold Store.ReadsAlike
  rw [read, read]
  exact .value (by rw [same])

theorem readsAlike_array {handle : Handle} {position : Int64}
    (same : 0 ≤ position.toInt →
      (later.elements ref)[position.toInt.toNat]? = (store.elements ref)[position.toInt.toNat]?) :
    store.ReadsAlike later (.array handle ref) (.int position) := by
  have read (there : Store) : (indexGet (.array handle ref) (.int position)).run there =
      .ok (.value (((position? position (there.elements ref).size).map ((there.elements ref)[·])).getD .undefined))
        there := rfl
  unfold Store.ReadsAlike
  have placed (elements : Array Value) : (position? position elements.size).map (elements[·]) = _ :=
    map_position? position elements id
  rw [read, read, placed, placed]
  refine .value ?_
  by_cases positive : 0 ≤ position.toInt
  · rw [if_pos positive, if_pos positive, same positive]
  · rw [if_neg positive, if_neg positive]

end Reading

/-- The containers that take a value under an index: arrays, maps, types, and the members of types and
their tables. -/
inductive Assignable where
  | array (ref : Ref)
  | map (ref : Ref)
  | type (ref : Ref)
  | member (kind : MemberKind) (ref : Ref)
  | members (kind : MemberKind) (ref : Ref)

namespace Assignable

def value : Assignable → Value
  | array ref => .array .writable ref
  | map ref => .map .writable ref
  | type ref => .type ref
  | member kind ref => .member kind ref
  | members kind ref => .members kind ref

def ref : Assignable → Ref
  | array ref | map ref | type ref | member _ ref | members _ ref => ref

/-- The container's own cell is there and of its kind. -/
def Present (store : Store) : Assignable → Prop
  | array ref => ∃ elements, store.cells[ref]? = some (.array elements)
  | map ref => ∃ entries, store.cells[ref]? = some (.map entries)
  | type ref => ∃ type, store.cells[ref]? = some (.type type)
  | member .property ref => ∃ property, store.cells[ref]? = some (.property property)
  | member _ ref => ∃ entry, store.cells[ref]? = some (.entry entry)
  | members kind ref => ∃ members, store.cells[ref]? = some (.members kind members)

/-- An index that stands for one part of the container, rather than for the whole of it. -/
def Single (index : Value) : Assignable → Prop
  | member .. | members .. => index ≠ .string mapKey
  | _ => True

/-- The listed property that an index edits one accessor of. -/
def Edits (store : Store) (index : Value) (ref : Ref) : Assignable → Prop
  | members .property table => ∃ key isSetter name, index = .string key ∧
      accessorKey? key = some (isSetter, name) ∧ (store.members table).get? name = some ref
  | _ => False

/-- The properties that the conversion of a value edits, for the properties of a type: those that are
there, and that the value lists under a name for which it has an accessor too. -/
def Disturbs (store : Store) (index value : Value) (ref : Ref) : Assignable → Prop
  | type _ => index = .string "props" ∧
      ∃ handle source, value = .map handle source ∧ store.Crosses (store.entries source) ref
  | _ => False

/-- All that a container holds elsewhere than under an index is the same in a later store. An accessor
is a part of the property that it belongs to. -/
def KeepsOthers (store later : Store) (index : Value) (container : Assignable) : Prop :=
  match container with
  | array _ => ∀ position : Int64, index ≠ .int position →
      store.ReadsAlike later container.value (.int position)
  | map _ => ∀ key, store.keyText? index ≠ some key → store.ReadsAlike later container.value (.string key)
  | members .property _ => ∀ name, name ≠ mapKey → index.text?.map subject ≠ some name →
      store.ReadsAlike later container.value (.string name)
  | _ => ∀ key, key ≠ mapKey → index ≠ .string key → store.ReadsAlike later container.value (.string key)

/-- What an assignment comes to: it fails and changes nothing that was there, or it succeeds and
changes the container alone, where it was to, and the property that it edits. Properties that the
conversion of its value edits come on top, whether it succeeds or not. -/
def Assigned (container : Assignable) (store : Store) (index value : Value) :
    EStateM.Result Fault Store Answer → Prop
  | .ok answer later => answer = .value .undefined ∧
      store.KeptBut (fun ref => ref = container.ref ∨ container.Edits store index ref ∨
        container.Disturbs store index value ref) later ∧ container.KeepsOthers store later index
  | .error _ later => store.KeptBut (fun ref => container.Disturbs store index value ref) later

variable {store : Store} {index value : Value} {ref : Ref}

theorem assigned_of_refused {container : Assignable} {fault : Fault} :
    container.Assigned store index value (.error fault store) := (Kept.refl store).but

theorem assigned_of_refused_index {container : Assignable} {α : Type} {read : StoreM α} {rest : α → StoreM Answer}
    {fault : Fault} (refused : read.run store = .error fault store) :
    container.Assigned store index value ((read >>= rest).run store) := by
  rw [show (read >>= rest).run store = .error fault store from bind_of_error refused]
  exact assigned_of_refused

theorem getElem?_changeElements_of_ne {change : Array Value → Array Value} {other : Ref} (apart : other ≠ ref) :
    (store.changeElements ref change).cells[other]? = store.cells[other]? := by
  simp only [Store.changeElements, Array.getElem?_modify, if_neg apart.symm]

theorem elements_changeElements {change : Array Value → Array Value} {elements : Array Value}
    (found : store.cells[ref]? = some (.array elements)) :
    (store.changeElements ref change).elements ref = change elements := by
  simp [Store.elements, Store.changeElements, Array.getElem?_modify, found]

theorem eq_of_position? {position : Int64} {size : Nat} {inside : Fin size}
    (placed : position? position size = some inside) : 0 ≤ position.toInt ∧ inside = position.toInt.toNat := by
  unfold position? at placed
  split at placed
  next within =>
    cases placed
    exact ⟨within.1, rfl⟩
  · cases placed

theorem run_indexSet_array (position : Int64) :
    (indexSet (.array .writable ref) (.int position) value).run store =
      match position? position (store.elements ref).size with
      | some inside => .ok (.value .undefined) (store.changeElements ref (·.setIfInBounds inside value))
      | none => .error .indexOutOfBounds store := by
  have read : (intIndex (.int position)).run store = .ok position store := rfl
  refine (bind_of_ok read).trans ?_
  have here : (get : StoreM Store).run store = .ok store store := rfl
  refine (bind_of_ok here).trans ?_
  cases position? position (store.elements ref).size <;> rfl

theorem assigned_array (there : (array ref).Present store) :
    (array ref).Assigned store index value ((indexSet (array ref).value index value).run store) := by
  obtain ⟨elements, found⟩ := there
  have view : store.elements ref = elements := Store.elements_eq found
  cases named : index.int? with
  | none =>
    have read := run_intIndex store index
    rw [named] at read
    exact assigned_of_refused_index read
  | some position =>
    obtain rfl : index = .int position := by
      cases index <;> cases named
      rfl
    rw [show (indexSet (array ref).value (.int position) value).run store = _ from run_indexSet_array position]
    cases placed : position? position (store.elements ref).size with
    | none => exact assigned_of_refused
    | some inside =>
      refine ⟨rfl, fun other cell there still => ?_, fun other apart => readsAlike_array fun positive => ?_⟩
      · have apart : other ≠ ref := fun same => still (.inl same)
        rw [getElem?_changeElements_of_ne apart, there]
      · obtain ⟨within, is⟩ := eq_of_position? placed
        have elsewhere : inside.val ≠ other.toInt.toNat := by
          intro same
          have numbers : position.toInt = other.toInt := by omega
          exact apart (congrArg Value.int (Int64.toInt_inj.mp numbers))
        rw [elements_changeElements found, Array.getElem?_setIfInBounds_ne elsewhere, view]

theorem assigned_map (there : (map ref).Present store) :
    (map ref).Assigned store index value ((indexSet (map ref).value index value).run store) := by
  obtain ⟨entries, found⟩ := there
  have view : store.entries ref = entries := Store.entries_eq found
  have read := run_mapIndex store index
  cases named : store.keyText? index with
  | none =>
    rw [named] at read
    exact assigned_of_refused_index read
  | some key =>
    rw [named] at read
    rw [show (indexSet (map ref).value index value).run store =
      .ok (.value .undefined) (store.overwrite ref (.map ((store.entries ref).insert key value))) from bind_of_ok read]
    have written : (store.overwrite ref (.map (entries.insert key value))).cells[ref]? =
      some (.map (entries.insert key value)) := getElem?_overwrite found rfl
    refine ⟨rfl, (Kept.refl store).but.overwrite (.inl rfl) _, fun other apart => readsAlike_map ?_⟩
    rw [view]
    have other_key : key ≠ other := fun same => apart (named.trans (congrArg some same))
    simp only [Store.entries, written, Table.get?_insert, if_neg other_key]

theorem assigned_of_put {container : Assignable} (put : String → StoreM Unit)
    (asked : indexSet container.value index value = do
      put (← textIndex index)
      return .value .undefined)
    (each : ∀ key, index = .string key → match (put key).run store with
      | .ok _ later => store.KeptBut (fun ref => ref = container.ref ∨ container.Edits store index ref ∨
          container.Disturbs store index value ref) later ∧ container.KeepsOthers store later index
      | .error _ later => store.KeptBut (fun ref => container.Disturbs store index value ref) later) :
    container.Assigned store index value ((indexSet container.value index value).run store) := by
  rw [asked]
  have read := run_textIndex store index
  cases named : index.text? with
  | none =>
    rw [named] at read
    exact assigned_of_refused_index read
  | some key =>
    rw [named] at read
    obtain rfl : index = .string key := by
      cases index <;> cases named
      rfl
    have known := each key rfl
    rw [show (textIndex (.string key) >>= _).run store = (put key >>= fun _ =>
      pure (Answer.value .undefined)).run store from bind_of_ok read]
    cases ran : (put key).run store with
    | ok done later =>
      rw [ran] at known
      rw [show (put key >>= _).run store = .ok (Answer.value .undefined) later from bind_of_ok ran]
      exact ⟨rfl, known⟩
    | error fault later =>
      rw [ran] at known
      rw [show (put key >>= _).run store = .error fault later from bind_of_error ran]
      exact known

theorem reads_of_typeChange {type : TypeObject} {key : String} {change : TypeObject → TypeObject} {middle : Store}
    (found : store.cells[ref]? = some (.type type)) (assignable : key ∈ assignableKeys)
    (kept : store.KeptBut (TypeCrosses store key value) middle)
    (same : ∀ type : TypeObject, type.SameBut key (change type)) :
    store.KeptBut (fun other => other = ref ∨ TypeCrosses store key value other)
        (middle.overwrite ref (.type (change (middle.type ref)))) ∧
      ∀ other, other ≠ key → other ≠ mapKey → store.ReadsAlike
        (middle.overwrite ref (.type (change (middle.type ref)))) (.type ref) (.string other) := by
  have stays : middle.cells[ref]? = some (.type type) := by
    refine kept ref _ found fun crosses => ?_
    obtain ⟨-, _, _, -, ⟨property, is⟩, -⟩ := crosses
    cases found.symm.trans is
  have view : middle.type ref = type := Store.type_eq stays
  have written : (middle.overwrite ref (.type (change type))).cells[ref]? = some (.type (change type)) :=
    getElem?_overwrite stays rfl
  rw [view]
  refine ⟨(kept.mono fun other crosses => .inr crosses).overwrite (.inl rfl) _, fun other apart single => ?_⟩
  refine readsAlike_type ?_ assignable apart single
  simpa only [Store.type, found, written] using same type

theorem disturbs_of_crosses {key : String} {other : Ref} (assignable : key ∈ assignableKeys)
    (crosses : TypeCrosses store key value other) : (type ref).Disturbs store (.string key) value other := by
  obtain ⟨rfl | rfl, rest⟩ := crosses
  · exact ⟨rfl, rest⟩
  · exact absurd assignable (by decide)

theorem assigned_type (there : (type ref).Present store) :
    (type ref).Assigned store index value ((indexSet (type ref).value index value).run store) := by
  obtain ⟨type, found⟩ := there
  refine assigned_of_put (typeSet ref · value) rfl fun key is => ?_
  subst is
  unfold typeSet
  by_cases assignable : key ∈ assignableKeys
  · rw [if_pos assignable]
    have converts := ends_typeChange store key value
    cases ran : (typeChange key value).run store with
    | error fault middle =>
      rw [ran] at converts
      rw [show (typeChange key value >>= _).run store = .error fault middle from bind_of_error ran]
      exact converts.mono fun other => disturbs_of_crosses assignable
    | ok change middle =>
      rw [ran] at converts
      rw [show (typeChange key value >>= _).run store =
        .ok () (middle.overwrite ref (.type (change (middle.type ref)))) from bind_of_ok ran]
      obtain ⟨kept, reads⟩ := reads_of_typeChange found assignable converts.1 converts.2
      refine ⟨kept.mono fun other => ?_, fun other single apart => reads other (fun is => apart (is ▸ rfl)) single⟩
      exact Or.imp_right fun crosses => .inr (disturbs_of_crosses assignable crosses)
  · rw [if_neg assignable]
    exact (Kept.refl store).but

theorem reads_of_memberSet {kind : MemberKind} {key : String} {later : Store}
    (there : (member kind ref).Present store) (ran : (memberSet kind ref key value).run store = .ok () later) :
    store.KeptBut (· = ref) later ∧ ∀ other, other ≠ key → other ≠ mapKey →
      store.ReadsAlike later (.member kind ref) (.string other) := by
  have entries (plain : kind ≠ .property) (found : ∃ entry, store.cells[ref]? = some (.entry entry))
      (ran : (entrySet kind ref key value).run store = .ok () later) :
      store.KeptBut (· = ref) later ∧ ∀ other, other ≠ key → other ≠ mapKey →
        store.ReadsAlike later (.member kind ref) (.string other) := by
    obtain ⟨entry, found⟩ := found
    obtain ⟨middle, changed, kept, rfl, same⟩ := rewritten_entry found ran
    have written : (middle.overwrite ref (.entry changed)).cells[ref]? = some (.entry changed) :=
      getElem?_overwrite (kept _ _ found) rfl
    have others : store.KeptBut (· = ref) middle := kept.but
    refine ⟨others.overwrite rfl _, fun other apart single => readsAlike_entry plain ?_ apart single⟩
    simpa only [Store.entry, found, written] using same
  cases kind with
  | field => exact entries (by decide) there ran
  | method => exact entries (by decide) there ran
  | property =>
    obtain ⟨property, found⟩ := there
    obtain ⟨middle, changed, kept, rfl, same⟩ := rewritten_property found ran
    have written : (middle.overwrite ref (.property changed)).cells[ref]? = some (.property changed) :=
      getElem?_overwrite (kept _ _ found) rfl
    have others : store.KeptBut (· = ref) middle := kept.but
    refine ⟨others.overwrite rfl _, fun other apart single => readsAlike_property ?_ apart single⟩
    simpa only [Store.property, found, written] using same

theorem assigned_member {kind : MemberKind} (there : (member kind ref).Present store)
    (single : (member kind ref).Single index) :
    (member kind ref).Assigned store index value ((indexSet (member kind ref).value index value).run store) := by
  refine assigned_of_put (fun key => do
    if key = mapKey then loadMember kind ref (← reloadMapping value) else memberSet kind ref key value) ?_ ?_
  · refine bind_congr fun key => ?_
    split <;> simp only [bind_assoc]
  intro key is
  subst is
  have apart : key ≠ mapKey := fun is => single (congrArg Value.string is)
  rw [if_neg apart]
  cases ran : (memberSet kind ref key value).run store with
  | ok done later =>
    obtain ⟨kept, reads⟩ := reads_of_memberSet there ran
    exact ⟨kept.mono fun other is => .inl is, fun other whole apart => reads other (fun is => apart (is ▸ rfl)) whole⟩
  | error fault later =>
    rw [eq_of_memberSet_error ran]
    exact (Kept.refl store).but

theorem assigned_members {kind : MemberKind} (there : (members kind ref).Present store)
    (single : (members kind ref).Single index) :
    (members kind ref).Assigned store index value ((indexSet (members kind ref).value index value).run store) := by
  obtain ⟨listed, found⟩ := there
  refine assigned_of_put (fun key => do
    if key = mapKey then declareAll (some ref) kind ref (← reloadMapping value).entries
    else declare none kind ref key value) ?_ ?_
  · refine bind_congr fun key => ?_
    split <;> simp only [bind_assoc]
  intro key is
  subst is
  have apart : key ≠ mapKey := fun is => single (congrArg Value.string is)
  rw [if_neg apart]
  cases ran : (declare none kind ref key value).run store with
  | error fault later =>
    rw [eq_of_declare_error ran]
    exact (Kept.refl store).but
  | ok done later =>
    by_cases is : kind = .property
    · subst is
      obtain ⟨current, changed, redeclared⟩ := redeclared_of_ok found ran
      refine ⟨fun other cell there still => ?_, fun name whole apart => readsAlike_members ?_ whole⟩
      · refine redeclared.relisted.kept other cell there (fun is => still (.inl is)) fun is => still (.inr (.inl ?_))
        obtain ⟨reads, before, -⟩ := redeclared.edits other is
        obtain ⟨⟨isSetter, name⟩, reads⟩ := Option.isSome_iff_exists.mp reads
        exact ⟨key, isSetter, name, rfl, reads, subject_of_reads reads ▸ before⟩
      · exact redeclared.relisted.others name fun is => apart (congrArg some is.symm)
    · obtain ⟨middle, new, kept, rfl⟩ := inserted_of_ok is ran
      have written : (middle.changeMembers ref (·.insert key new)).members ref = listed.insert key new :=
        members_eq (getElem?_changeMembers_self (kept _ _ found))
      refine ⟨kept.but.changeMembers (.inl rfl) _, ?_⟩
      have others (name : String) (whole : name ≠ mapKey) (apart : Value.string key ≠ .string name) :
          store.ReadsAlike (middle.changeMembers ref (·.insert key new)) (.members kind ref) (.string name) := by
        refine readsAlike_members ?_ whole
        rw [written, members_eq found, Table.get?_insert, if_neg fun same : key = name => apart (congrArg Value.string same)]
      cases kind with
      | property => exact absurd rfl is
      | _ => exact others

/-- An assignment that fails changes nothing that was there. One that succeeds changes the container
alone, and nothing that it holds elsewhere, and under the key of an accessor the listed property. The
one exception are the properties that a mapping disturbs while it is converted for a type. -/
theorem assignment_is_local (container : Assignable) (present : container.Present store)
    (single : container.Single index) :
    container.Assigned store index value ((indexSet container.value index value).run store) := by
  cases container with
  | array ref => exact assigned_array present
  | map ref => exact assigned_map present
  | type ref => exact assigned_type present
  | member kind ref => exact assigned_member present single
  | members kind ref => exact assigned_members present single

def receiverOf (name : String) : Value := .host name.length ⟨name, "this", false⟩

/-- A type with some table of properties, a property with some getter, a mapping that lists the property
and has another getter for its name, and the same with an entry that is refused. -/
def crossing (properties : Ref) (getter : Value) (loaded : Array Cell) : Store :=
  let mapping := (Table.empty.insert "a" (.member .property 4)).insert "get_a" (receiverOf "other")
  { cells := #[.members .field {}, .members .method {}, .members .property (Table.empty.insert "x" 4),
      .type { name := "T", fields := 0, methods := 1, properties }, .property { getter := some getter },
      .map mapping, .map (mapping.insert "z" (.int 5))] ++ loaded }

theorem assignment_is_local_accessor :
    (members .property 2).Present (crossing 2 (receiverOf "own") #[]) ∧
      (members .property 2).Single (.string "set_x") ∧
      (members .property 2).Assigned (crossing 2 (receiverOf "own") #[]) (.string "set_x") (receiverOf "other")
        ((indexSet (members .property 2).value (.string "set_x") (receiverOf "other")).run
          (crossing 2 (receiverOf "own") #[])) :=
  ⟨⟨_, rfl⟩, by simp [Single, mapKey], assignment_is_local _ ⟨_, rfl⟩ (by simp [Single, mapKey])⟩

/-- A type is assigned its properties from a mapping that lists a property and has a getter for its name:
that property gets the getter, whether the assignment succeeds or is refused in the end. -/
theorem crossed_assignment_edits_property :
    ((crossing 2 (receiverOf "own") #[]).property 4).getter = some (receiverOf "own") ∧
      (∃ after, (indexSet (type 3).value (.string "props") (.map .writable 5)).run
          (crossing 2 (receiverOf "own") #[]) = .ok (.value .undefined) after ∧
        (after.property 4).getter = some (receiverOf "other")) ∧
      ∃ after, (indexSet (type 3).value (.string "props") (.map .writable 6)).run
          (crossing 2 (receiverOf "own") #[]) = .error (.invalidIndexValueType "int") after ∧
        (after.property 4).getter = some (receiverOf "other") := by
  let loaded : Cell := .members .property (Table.empty.insert "a" 4)
  refine ⟨rfl, ⟨crossing 7 (receiverOf "other") #[loaded], ?_, rfl⟩,
    crossing 2 (receiverOf "other") #[loaded], ?_, rfl⟩
  · with_unfolding_all rfl
  · with_unfolding_all rfl

end Assignable

end ScriptMachine
