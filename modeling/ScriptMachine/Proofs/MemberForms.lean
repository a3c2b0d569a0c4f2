import ScriptMachine.Proofs.CopiedValues
import ScriptMachine.TypeSystem.Members

/-! Tables of members and their mappings. A deep mapping describes a copy of every member, and loading
it makes these copies. -/

namespace ScriptMachine

namespace Store

/-- The tags that a mapping describes: none, or those of a map. -/
inductive TagForm (store : Store) (form : Table Value) : Table Value → Prop where
  | absent (missing : form.get? "tags" = none) : TagForm store form ∅
  | present {handle : Handle} {ref : Ref} {tags : Table Value}
      (found : form.get? "tags" = some (.map handle ref))
      (cell : store.cells[ref]? = some (.map tags)) : TagForm store form tags

/-- The field, method or property that a mapping describes. -/
inductive Form (store : Store) (form : Table Value) : Cell → Prop where
  | entry {entry : Entry} (value : form.get? "value" = some entry.value)
      (tags : store.TagForm form entry.tags) : Form store form (.entry entry)
  | property {property : Property} (getter : form.get? "get" = property.getter)
      (setter : form.get? "set" = property.setter) (tags : store.TagForm form property.tags) :
      Form store form (.property property)

def Describes (store : Store) (value : Value) (cell : Cell) : Prop :=
  ∃ handle ref form, value = .map handle ref ∧ store.cells[ref]? = some (.map form) ∧
    store.Form form cell

/-- The contents of a member and those of its copy. -/
inductive MemberCopy (base later : Store) : Cell → Cell → Prop where
  | entry {entry copied : Entry} (value : base.DeepCopy later entry.value copied.value)
      (tags : base.DeepCopies later entry.tags copied.tags) :
      MemberCopy base later (.entry entry) (.entry copied)
  | property {property copied : Property}
      (getter : Option.Rel (base.DeepCopy later) property.getter copied.getter)
      (setter : Option.Rel (base.DeepCopy later) property.setter copied.setter)
      (tags : base.DeepCopies later property.tags copied.tags) :
      MemberCopy base later (.property property) (.property copied)

section Lasting

variable {base middle store later : Store} {form tags : Table Value} {value : Value}
  {cell copied : Cell}

theorem TagForm.lasting (described : store.TagForm form tags) (kept : store.Kept later) :
    later.TagForm form tags := by
  cases described with
  | absent missing => exact .absent missing
  | present found cell => exact .present found (kept _ _ cell)

theorem Form.lasting (described : store.Form form cell) (kept : store.Kept later) :
    later.Form form cell := by
  cases described with
  | entry value tags => exact .entry value (tags.lasting kept)
  | property getter setter tags => exact .property getter setter (tags.lasting kept)

theorem Describes.lasting (described : store.Describes value cell) (kept : store.Kept later) :
    later.Describes value cell := by
  obtain ⟨handle, ref, form, same, found, shape⟩ := described
  exact ⟨handle, ref, form, same, kept _ _ found, shape.lasting kept⟩

theorem MemberCopy.lasting (copy : MemberCopy base store cell copied) (kept : store.Kept later) :
    MemberCopy base later cell copied := by
  cases copy with
  | entry value tags => exact .entry (value.lasting kept) (tags.lasting kept)
  | property getter setter tags =>
    refine .property ?_ ?_ (tags.lasting kept)
    · exact optionRel_mono (fun _ _ copy => copy.lasting kept) getter
    · exact optionRel_mono (fun _ _ copy => copy.lasting kept) setter

theorem MemberCopy.since_earlier (copy : MemberCopy middle later cell copied)
    (kept : base.Kept middle) : MemberCopy base later cell copied := by
  cases copy with
  | entry value tags => exact .entry (value.since_earlier kept) (tags.since_earlier kept)
  | property getter setter tags =>
    refine .property ?_ ?_ (tags.since_earlier kept)
    · exact optionRel_mono (fun _ _ copy => copy.since_earlier kept) getter
    · exact optionRel_mono (fun _ _ copy => copy.since_earlier kept) setter

end Lasting

end Store

open Store

namespace StoreM

section Mapping

variable {fails : Prop} {inv : Store → Prop} {base : Store} (tolerant : Tolerant inv)

include tolerant

theorem builds_withTags {tags : Table Value} (grounded : tags.All base.Grounded) {mapping : Table Value}
    (missing : mapping.get? "tags" = none) :
    Builds fails inv base (withTags true tags mapping) fun later form =>
      (∃ copied, later.TagForm form copied ∧ base.DeepCopies later tags copied) ∧
        ∀ key ≠ "tags", form.get? key = mapping.get? key := by
  refine .ite (fun empty => ?_) fun _ => ?_
  · have none : tags = ∅ := by
      cases tags
      exact congrArg Table.mk (Std.ExtTreeMap.isEmpty_iff.mp empty)
    refine .pure fun store kept => ⟨⟨∅, .absent missing, ?_⟩, fun _ _ => rfl⟩
    rw [none]
    exact ⟨store, store, kept, rfl, .refl store⟩
  · refine (builds_copyTable tolerant grounded).bind fun store copied kept copies => ?_
    refine (builds_newMap tolerant.map copied .writable).bind fun later value since made => ?_
    obtain ⟨ref, rfl, cell⟩ := made
    refine .pure fun further after => ⟨⟨copied, ?_, copies.lasting (since.trans after)⟩, ?_⟩
    · exact .present (by rw [Table.get?_insert, if_pos rfl]) (after _ _ cell)
    · intro key other
      rw [Table.get?_insert, if_neg other.symm]

theorem builds_entryMapping {entry : Entry} (value : base.Grounded entry.value)
    (tags : entry.tags.All base.Grounded) :
    Builds fails inv base (entryMapping true entry) fun later form =>
      ∃ copied, later.Form form copied ∧ MemberCopy base later (.entry entry) copied := by
  refine (builds_copy tolerant value).bind fun store copied kept copy => ?_
  have lifted : entry.tags.All store.Grounded := fun name tag found => kept.grounded (tags name tag found)
  have missing : (Table.empty.insert "value" copied).get? "tags" = none := by simp
  refine (builds_withTags tolerant lifted missing).weaken fun later form since made => ?_
  obtain ⟨⟨copiedTags, described, copies⟩, other⟩ := made
  refine ⟨.entry ⟨copied, copiedTags⟩, .entry ?_ described, .entry (copy.lasting since) ?_⟩
  · rw [other "value" (by decide), Table.get?_insert, if_pos rfl]
  · exact copies.since_earlier kept

theorem builds_withAccessor {accessor : Option Value}
    (grounded : ∀ function, accessor = some function → base.Grounded function) (key : String)
    {mapping : Table Value} (missing : mapping.get? key = none) :
    Builds fails inv base (withAccessor true key accessor mapping) fun later form =>
      Option.Rel (base.DeepCopy later) accessor (form.get? key) ∧
        ∀ other ≠ key, form.get? other = mapping.get? other := by
  cases accessor with
  | none =>
    refine .pure fun store _ => ⟨?_, fun _ _ => rfl⟩
    rw [missing]
    exact .none
  | some function =>
    refine (builds_copy tolerant (grounded function rfl)).bind fun store copied kept copy => ?_
    refine .pure fun later since => ⟨?_, fun other apart => ?_⟩
    · rw [Table.get?_insert, if_pos rfl]
      exact .some (copy.lasting since)
    · rw [Table.get?_insert, if_neg apart.symm]

theorem builds_propertyMapping {property : Property}
    (getter : ∀ function, property.getter = some function → base.Grounded function)
    (setter : ∀ function, property.setter = some function → base.Grounded function)
    (tags : property.tags.All base.Grounded) :
    Builds fails inv base (propertyMapping true property) fun later form =>
      ∃ copied, later.Form form copied ∧ MemberCopy base later (.property property) copied := by
  have missing (key : String) : (∅ : Table Value).get? key = none := Table.get?_empty key
  refine (builds_withAccessor tolerant getter "get" (missing _)).bind fun store got kept made => ?_
  obtain ⟨copiedGetter, other⟩ := made
  have setterThere := fun function found => kept.grounded (setter function found)
  have noSetter : got.get? "set" = none := (other "set" (by decide)).trans (missing _)
  refine (builds_withAccessor tolerant setterThere "set" noSetter).bind fun middle both since made => ?_
  obtain ⟨copiedSetter, others⟩ := made
  have path := kept.trans since
  have tagsThere : property.tags.All middle.Grounded := fun name tag found =>
    path.grounded (tags name tag found)
  have noTags : both.get? "tags" = none :=
    (others "tags" (by decide)).trans ((other "tags" (by decide)).trans (missing _))
  refine (builds_withTags tolerant tagsThere noTags).weaken fun later form after made => ?_
  obtain ⟨⟨copiedTags, described, copies⟩, rest⟩ := made
  refine ⟨.property ⟨got.get? "get", both.get? "set", copiedTags⟩, .property ?_ ?_ described,
    .property ?_ ?_ (copies.since_earlier path)⟩
  · rw [rest "get" (by decide), others "get" (by decide)]
  · rw [rest "set" (by decide)]
  · exact optionRel_mono (fun _ _ copy => copy.lasting (since.trans after)) copiedGetter
  · exact optionRel_mono (fun _ _ copy => (copy.lasting after).since_earlier kept) copiedSetter

/-- The deep mapping of a member describes a copy of it. -/
theorem builds_memberMapping {kind : MemberKind} {ref : Ref}
    (grounded : base.Grounded (.member kind ref)) :
    Builds fails inv base (memberMapping true kind ref) fun later form =>
      ∃ cell copied, base.cells[ref]? = some cell ∧ later.Form form copied ∧
        MemberCopy base later cell copied := by
  have mapped (plain : kind ≠ .property) :
      Builds fails inv base (do entryMapping true ((← get).entry ref)) fun later form =>
        ∃ cell copied, base.cells[ref]? = some cell ∧ later.Form form copied ∧
          MemberCopy base later cell copied := by
    have cell := grounded.fits.entry_cell plain
    refine .get_bind fun store kept => ?_
    rw [Store.entry_eq (kept ref _ cell)]
    have value := kept.grounded (grounded.of_holds (.declared plain ref))
    refine (builds_entryMapping tolerant value ?_).weaken fun later form _ described => ?_
    · exact fun name tag found => kept.grounded (grounded.of_holds (.tag plain name found))
    · obtain ⟨copied, shape, copy⟩ := described
      exact ⟨_, copied, cell, shape, copy.since_earlier kept⟩
  cases kind with
  | field => exact mapped nofun
  | method => exact mapped nofun
  | property =>
    have cell := grounded.fits.property_cell
    refine .get_bind fun store kept => ?_
    rw [Store.property_eq (kept ref _ cell)]
    have made := @builds_propertyMapping fails inv store tolerant (base.property ref)
      (fun function found => kept.grounded (grounded.of_holds (.getter found)))
      (fun function found => kept.grounded (grounded.of_holds (.setter found)))
      fun name tag found => kept.grounded (grounded.of_holds (.propertyTag name found))
    refine made.weaken fun later form _ described => ?_
    obtain ⟨copied, shape, copy⟩ := described
    exact ⟨_, copied, cell, shape, copy.since_earlier kept⟩

/-- The deep mapping of a table describes copies of its members, each under its name. -/
theorem builds_membersMapping {kind : MemberKind} {table : Ref} {members : Table Ref}
    (cell : base.cells[table]? = some (.members kind members))
    (grounded : base.Grounded (.members kind table)) :
    Builds fails inv base (membersMapping true kind table) fun later =>
      Table.Agree (fun member value => ∃ cell copied, base.cells[member]? = some cell ∧
        later.Describes value copied ∧ MemberCopy base later cell copied) members := by
  have view : base.members table = members := Store.members_eq cell
  refine .get_bind fun store kept => ?_
  have same : store.members table = members := Store.members_eq (kept table _ cell)
  rw [same]
  refine Builds.table_mapM ?_ members fun name member found => ?_
  · intro earlier later since member value described
    obtain ⟨cell, copied, there, shape, copy⟩ := described
    exact ⟨cell, copied, there, shape.lasting since, copy.lasting since⟩
  · have inside := grounded.of_holds (.listed kind name (view ▸ found))
    refine (builds_memberMapping tolerant (kept.grounded inside)).bind fun middle form since made => ?_
    obtain ⟨cell, copied, there, shape, copy⟩ := made
    refine (builds_newMap tolerant.map form .writable).weaken fun later value after made => ?_
    obtain ⟨ref, rfl, mapped⟩ := made
    have origin : base.cells[member]? = some cell := by
      have known := Array.getElem?_eq_getElem (inside.fits.lt (.member kind member))
      rw [kept _ _ known] at there
      cases there
      exact known
    refine ⟨cell, copied, origin, ⟨_, ref, form, rfl, mapped, shape.lasting after⟩, ?_⟩
    exact (copy.lasting after).since_earlier kept

end Mapping

end StoreM

/-- A member that can be declared under a name. A property needs an accessor, and a name that is not
the key of one. -/
inductive Declarable : MemberKind → String → Cell → Prop where
  | field {name : String} (named : name ≠ "") (entry : Entry) : Declarable .field name (.entry entry)
  | method {name : String} (named : name ≠ "") {entry : Entry}
      (serves : entry.value.isMethodConvertible = true) : Declarable .method name (.entry entry)
  | property {name : String} (named : name ≠ "") (plain : StoreM.accessorKey? name = none)
      {property : Property}
      (getter : ∀ function, property.getter = some function → function.isMethodConvertible = true)
      (setter : ∀ function, property.setter = some function → function.isMethodConvertible = true)
      (furnished : property.isEmpty = false) : Declarable .property name (.property property)

section Describing

variable {base store later : Store} {kind : MemberKind} {name other : String} {form : Table Value}
  {cell contents : Cell}

theorem Store.TagForm.unique {tags others : Table Value} (described : store.TagForm form tags)
    (also : store.TagForm form others) : tags = others := by
  cases described with
  | absent missing =>
    cases also with
    | absent => rfl
    | present found => cases found.symm.trans missing
  | present found cell =>
    cases also with
    | absent missing => cases found.symm.trans missing
    | present same there =>
      cases found.symm.trans same
      cases cell.symm.trans there
      rfl

/-- Of each kind of members, a mapping describes only one. -/
theorem Store.Describes.unique {value : Value} (described : store.Describes value cell)
    (declarable : Declarable kind name cell) (also : store.Describes value contents)
    (declares : Declarable kind other contents) : cell = contents := by
  obtain ⟨handle, ref, form, rfl, found, shape⟩ := described
  obtain ⟨_, _, _, same, there, also⟩ := also
  cases same
  cases found.symm.trans there
  cases shape with
  | @entry entry value tags =>
    cases also with
    | @entry twin others same =>
      obtain ⟨held, tagged⟩ := entry
      obtain ⟨_, _⟩ := twin
      cases value.symm.trans others
      cases tags.unique same
      rfl
    | property =>
      cases declares
      cases declarable
  | @property property getter setter tags =>
    cases also with
    | entry => cases declares <;> cases declarable
    | @property twin gets sets same =>
      obtain ⟨get, set, tagged⟩ := property
      obtain ⟨_, _, _⟩ := twin
      cases getter.symm.trans gets
      cases setter.symm.trans sets
      cases tags.unique same
      rfl

end Describing

namespace StoreM

section Loading

variable {store : Store} {form tags : Table Value}

theorem run_tagsFrom_map {handle : Handle} {ref : Ref} (cell : store.cells[ref]? = some (.map tags)) :
    (tagsFrom none (.map handle ref)).run store = .ok tags store := by
  have view : store.entries ref = tags := Store.entries_eq cell
  rw [← view]
  rfl

theorem run_tagsOf (described : store.TagForm form tags) :
    (tagsOf none form).run store = .ok tags store := by
  cases described with
  | absent missing =>
    simp only [tagsOf, missing]
    rfl
  | present found cell =>
    simp only [tagsOf, found]
    exact run_tagsFrom_map cell

theorem run_accessor {function : Value} (serves : function.isMethodConvertible = true) :
    (accessor function).run store = .ok (some function) store := by
  cases function with
  | undefined => cases serves
  | _ => simp_all [accessor, methodValue]

theorem run_declaredValue {kind : MemberKind} {value : Value}
    (serves : kind = .method → value.isMethodConvertible = true) :
    (declaredValue kind value).run store = .ok value store := by
  cases kind with
  | method => simp [declaredValue, methodValue, serves rfl]
  | _ => rfl

theorem run_entryFrom (kind : MemberKind) {entry : Entry}
    (described : store.Form form (.entry entry))
    (serves : kind = .method → entry.value.isMethodConvertible = true) :
    (entryFrom none kind form).run store = .ok entry store := by
  cases described with
  | entry value tags =>
    simp only [entryFrom, value, Option.getD_some, EStateM.run_bind, run_declaredValue serves,
      run_tagsOf tags]
    rfl

/-- Applying the keys that a mapping has: one after the other, or straight on to the next. -/
theorem run_present {known last : Property} (next : Property) {key : String} {keys : List String}
    (absent : form.get? key = none → next = known)
    (found : ∀ value, form.get? key = some value →
      (propertyWith none known key value).run store = .ok next store)
    (rest : ((present form keys).foldlM (fun property entry =>
      propertyWith none property entry.1 entry.2) next).run store = .ok last store) :
    ((present form (key :: keys)).foldlM (fun property entry =>
      propertyWith none property entry.1 entry.2) known).run store = .ok last store := by
  unfold present at rest ⊢
  cases there : form.get? key with
  | none =>
    rw [absent there] at rest
    rw [List.filterMap_cons_none (by rw [there]; rfl)]
    exact rest
  | some value =>
    rw [List.filterMap_cons_some (b := (key, value)) (by rw [there]; rfl), List.foldlM_cons,
      EStateM.run_bind, found value there]
    exact rest

theorem run_propertyFrom {property : Property} (described : store.Form form (.property property))
    (getter : ∀ function, property.getter = some function → function.isMethodConvertible = true)
    (setter : ∀ function, property.setter = some function → function.isMethodConvertible = true) :
    (propertyFrom none form).run store = .ok property store := by
  obtain ⟨get, set, tags⟩ := property
  cases described with
  | property foundGetter foundSetter described =>
    refine run_present { getter := get } ?_ ?_ ?_
    · intro missing
      rw [← foundGetter.symm.trans missing]
    · intro function there
      have same : get = some function := foundGetter.symm.trans there
      subst same
      simp only [propertyWith, EStateM.run_bind, run_accessor (getter function rfl)]
      rfl
    refine run_present { getter := get, setter := set } ?_ ?_ ?_
    · intro missing
      rw [← foundSetter.symm.trans missing]
    · intro function there
      have same : set = some function := foundSetter.symm.trans there
      subst same
      simp only [propertyWith, EStateM.run_bind, run_accessor (setter function rfl)]
      rfl
    refine run_present { getter := get, setter := set, tags } ?_ ?_ rfl
    · intro missing
      cases described with
      | absent => rfl
      | present found => cases found.symm.trans missing
    · intro value there
      cases described with
      | absent missing => cases there.symm.trans missing
      | present found cell =>
        cases found.symm.trans there
        simp only [propertyWith, EStateM.run_bind, run_tagsFrom_map cell]
        rfl

theorem run_declare {kind : MemberKind} {name : String} {value : Value} {cell : Cell} (table : Ref)
    (declarable : Declarable kind name cell) (described : store.Describes value cell) :
    (declare none kind table name value).run store =
      (do insertMember table name (← alloc cell) : StoreM Unit).run store := by
  obtain ⟨handle, ref, form, rfl, found, shape⟩ := described
  have view : store.entries ref = form := Store.entries_eq found
  cases declarable with
  | field named entry =>
    have read := run_entryFrom .field shape (by simp)
    simp [declare, named, declareField, EStateM.run_bind, view, read]
  | method named serves =>
    have read := run_entryFrom .method shape fun _ => serves
    simp [declare, named, declareMethod, EStateM.run_bind, view, read]
  | property named plain getter setter furnished =>
    have read := run_propertyFrom shape getter setter
    simp [declare, named, propertyUpdate, plain, furnished, applyUpdate, EStateM.run_bind, view, read]

theorem run_declare_member {kind : MemberKind} {name : String} {member : Ref} {cell : Cell}
    (table : Ref) (declarable : Declarable kind name cell) :
    (declare none kind table name (.member kind member)).run store =
      (insertMember table name member).run store := by
  cases declarable with
  | field named => simp [declare, named, declareField]
  | method named => simp [declare, named, declareMethod]
  | property named plain => simp [declare, named, propertyUpdate, plain, applyUpdate]

end Loading

section Tables

variable {base store : Store} {kind : MemberKind} {table : Ref} (made : Value → Ref → Cell → Prop)

/-- Each declaration of a list puts a member into the table. Members stay as they were made, since
later declarations change nothing but the table. -/
theorem run_declareAll {list : List (String × Value)} (above : base.cells.size ≤ table)
    (each : ∀ entry ∈ list, ∀ store members, base.Kept store →
      store.cells[table]? = some (.members kind members) → ∃ ref cell middle,
        (declare none kind table entry.1 entry.2).run store = (insertMember table entry.1 ref).run middle ∧
          store.Kept middle ∧ ref ≠ table ∧ middle.cells[ref]? = some cell ∧ made entry.2 ref cell)
    (kept : base.Kept store) {members : Table Ref}
    (found : store.cells[table]? = some (.members kind members)) :
    ∃ later pairs, (declareAll none kind table list).run store = .ok () later ∧ base.Kept later ∧
      later.cells[table]? = some (.members kind (members.insertAll pairs)) ∧
      (∀ ref cell, ref ≠ table → store.cells[ref]? = some cell → later.cells[ref]? = some cell) ∧
      List.Forall₂ (fun entry pair => pair.1 = entry.1 ∧
        ∃ cell, later.cells[pair.2]? = some cell ∧ made entry.2 pair.2 cell) list pairs := by
  induction list generalizing store members with
  | nil => exact ⟨store, [], rfl, kept, found, fun _ _ _ there => there, .nil⟩
  | cons entry rest ih =>
    obtain ⟨ref, cell, middle, run, since, apart, there, known⟩ :=
      each entry List.mem_cons_self store members kept found
    let next := middle.changeMembers table (·.insert entry.1 ref)
    have inserted : next.cells[table]? = some (.members kind (members.insert entry.1 ref)) :=
      getElem?_changeMembers_self (since _ _ found)
    have still : base.Kept next := (kept.trans since).changeMembers above
    obtain ⟨later, pairs, ran, ends, listed, frame, all⟩ :=
      ih (fun other member => each other (List.mem_cons_of_mem _ member)) still inserted
    refine ⟨later, (entry.1, ref) :: pairs, ?_, ends, listed, ?_, .cons ⟨rfl, cell, ?_, known⟩ all⟩
    · rw [declareAll, EStateM.run_bind, run]
      exact ran
    · intro other old off before
      refine frame other old off ?_
      rw [getElem?_changeMembers_of_ne off]
      exact since other old before
    · refine frame ref cell apart ?_
      rw [getElem?_changeMembers_of_ne apart]
      exact there

/-- Loading a mapping into a new table makes a member for each of its entries. -/
theorem run_membersFrom {form : Table Value}
    (each : ∀ name value, form.get? name = some value → ∀ table store members, base.Kept store →
      base.cells.size ≤ table → store.cells[table]? = some (.members kind members) →
        ∃ ref cell middle,
          (declare none kind table name value).run store = (insertMember table name ref).run middle ∧
            store.Kept middle ∧ ref ≠ table ∧ middle.cells[ref]? = some cell ∧ made value ref cell) :
    ∃ table later members, (membersFrom kind form).run base = .ok table later ∧ base.Kept later ∧
      base.cells.size ≤ table ∧ later.cells[table]? = some (.members kind members) ∧
      Table.Agree (fun value ref => ∃ cell, later.cells[ref]? = some cell ∧ made value ref cell)
        form members := by
  let table := base.cells.size
  let start : Store := { base with cells := base.cells.push (.members kind ∅) }
  have blank : start.cells[table]? = some (.members kind ∅) := Array.getElem?_push_size
  obtain ⟨later, pairs, run, kept, found, -, all⟩ := run_declareAll made (Nat.le_refl table)
    (fun entry member store members since there =>
      each entry.1 entry.2 ((form.mem_entries_iff _ _).mp member) table store members since
        (Nat.le_refl _) there) (.push base _) blank
  refine ⟨table, later, Table.ofList pairs, ?_, kept, Nat.le_refl _, found, Table.agree_ofList all⟩
  rw [membersFrom, EStateM.run_bind]
  change ((declareAll none kind table form.entries >>= fun _ => pure table : StoreM Ref).run start) = _
  rw [EStateM.run_bind, run]
  rfl

end Tables

end StoreM

section Copies

variable {base later : Store} {kind : MemberKind} {table member : Ref} {members : Table Ref}
  {name : String} {cell contents : Cell}

theorem Declarable.of_copy (declarable : Declarable kind name cell)
    (grounded : base.Grounded (.member kind member)) (found : base.cells[member]? = some cell)
    (copy : MemberCopy base later cell contents) : Declarable kind name contents := by
  cases declarable with
  | field named entry =>
    cases copy with
    | entry => exact .field named _
  | @method name named entry serves =>
    have view : base.entry member = entry := Store.entry_eq found
    cases copy with
    | entry value =>
      refine .method named ?_
      rw [value.isMethodConvertible_eq (view ▸ grounded.of_holds (.declared (by decide) member)), serves]
  | @property name named plain property getter setter furnished =>
    have view : base.property member = property := Store.property_eq found
    cases copy with
    | property copiedGetter copiedSetter tags =>
      refine .property named plain ?_ ?_ ?_
      · intro function there
        obtain ⟨origin, held, copy⟩ := exists_of_optionRel copiedGetter there
        rw [copy.isMethodConvertible_eq (grounded.of_holds (.getter (view ▸ held))), getter origin held]
      · intro function there
        obtain ⟨origin, held, copy⟩ := exists_of_optionRel copiedSetter there
        rw [copy.isMethodConvertible_eq (grounded.of_holds (.setter (view ▸ held))), setter origin held]
      · have getters := isSome_eq_of_optionRel copiedGetter
        have setters := isSome_eq_of_optionRel copiedSetter
        simpa only [Property.isEmpty, ← Option.not_isSome, getters, setters] using furnished

theorem members_copied (found : base.cells[table]? = some (.members kind members))
    (grounded : base.Grounded (.members kind table))
    (each : ∀ name member, members.get? name = some member →
      ∃ cell, base.cells[member]? = some cell ∧ Declarable kind name cell) :
    ∃ form mapped copied later twins,
      (StoreM.membersMapping true kind table).run base = .ok form mapped ∧
      (StoreM.membersFrom kind form).run mapped = .ok copied later ∧ base.Kept later ∧
      base.cells.size ≤ copied ∧ later.cells[copied]? = some (.members kind twins) ∧
      Table.Agree (fun member twin => base.cells.size ≤ twin ∧ ∃ cell contents,
        base.cells[member]? = some cell ∧ later.cells[twin]? = some contents ∧
          MemberCopy base later cell contents) members twins := by
  have view : base.members table = members := Store.members_eq found
  have indifferent : StoreM.Tolerant fun _ => True :=
    ⟨fun _ _ _ => trivial, fun _ _ _ => trivial, fun _ _ _ => trivial⟩
  obtain ⟨form, mapped, run, since, -, described⟩ :=
    (StoreM.builds_membersMapping indifferent found grounded).run (.refl base) trivial
  have declarable {name : String} {member : Ref} (listed : members.get? name = some member)
      {cell contents : Cell} (there : base.cells[member]? = some cell)
      (copy : MemberCopy base mapped cell contents) : Declarable kind name contents := by
    obtain ⟨known, same, declares⟩ := each name member listed
    cases there.symm.trans same
    exact declares.of_copy (grounded.of_holds (.listed kind name (view ▸ listed))) there copy
  let made (value : Value) (ref : Ref) (contents : Cell) : Prop :=
    base.cells.size ≤ ref ∧ mapped.Describes value contents ∧ ∃ name, Declarable kind name contents
  obtain ⟨copied, later, twins, ran, kept, above, listed, agree⟩ :=
    @StoreM.run_membersFrom mapped kind made form (by
      intro name value there into store others after wide blank
      obtain ⟨member, origin, cell, contents, before, shape, copy⟩ := described.origin there
      have declares := declarable origin before copy
      refine ⟨store.cells.size, contents, { store with cells := store.cells.push contents }, ?_,
        .push store contents, ?_, Array.getElem?_push_size, ?_, shape, name, declares⟩
      · exact StoreM.run_declare into declares (shape.lasting after)
      · exact Nat.ne_of_gt (lt_of_getElem?_eq_some blank)
      · exact (since.trans after).size_le)
  refine ⟨form, mapped, copied, later, twins, run, ran, since.trans kept,
    Nat.le_trans since.size_le above, listed, ?_⟩
  refine ⟨fun name => (described.keys name).trans (agree.keys name), ?_⟩
  intro name member twin origin there
  obtain ⟨value, mid, cell, contents, before, shape, copy⟩ := described.partner origin
  obtain ⟨other, stored, wide, also, label, declares⟩ := agree.values name value twin mid there
  cases shape.unique (declarable origin before copy) also declares
  exact ⟨wide, cell, contents, before, stored, copy.lasting kept⟩

theorem members_shared (found : base.cells[table]? = some (.members kind members))
    (each : ∀ name member, members.get? name = some member →
      ∃ cell, base.cells[member]? = some cell ∧ Declarable kind name cell) :
    ∃ form mapped shared later,
      (StoreM.membersMapping false kind table).run base = .ok form mapped ∧
      (StoreM.membersFrom kind form).run mapped = .ok shared later ∧ base.Kept later ∧
      later.cells[shared]? = some (.members kind members) := by
  have mapping : StoreM.Builds False (fun _ => True) base (StoreM.membersMapping false kind table)
      fun _ => Table.Agree (fun member value => value = .member kind member) members := by
    refine .get_bind fun store kept => ?_
    have same : store.members table = members := Store.members_eq (kept table _ found)
    rw [same]
    refine StoreM.Builds.table_mapM ?_ members fun name member listed => ?_
    · exact fun _ _ _ same => same
    · exact .pure fun _ _ => rfl
  obtain ⟨form, mapped, run, since, -, named⟩ := mapping.run (.refl base) trivial
  obtain ⟨shared, later, twins, ran, kept, above, listed, agree⟩ :=
    @StoreM.run_membersFrom mapped kind (fun value ref _ => value = .member kind ref) form (by
      intro name value there into store others after wide blank
      obtain ⟨member, origin, rfl⟩ := named.origin there
      obtain ⟨cell, before, declarable⟩ := each name member origin
      have stored := (since.trans after) _ _ before
      refine ⟨member, cell, store, ?_, .refl store, ?_, stored, rfl⟩
      · exact StoreM.run_declare_member into declarable
      · have below := Nat.lt_of_lt_of_le (lt_of_getElem?_eq_some before) since.size_le
        exact Nat.ne_of_lt (Nat.lt_of_lt_of_le below wide))
  refine ⟨form, mapped, shared, later, run, ran, since.trans kept, ?_⟩
  have same : members = twins := by
    refine (named.trans agree ?_).eq
    intro member value twin shares made
    obtain ⟨cell, -, same⟩ := made
    cases shares.symm.trans same
    rfl
  rw [listed, same]

end Copies

end ScriptMachine
