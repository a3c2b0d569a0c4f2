import ScriptMachine.Proofs.CopiedProperties
import ScriptMachine.Builtins

/-! What changes properties and tables of properties keeps a store furnished, as long as the objects
that it stores count as given. -/

namespace ScriptMachine

def Property.withFunction (property : Property) (isSetter : Bool) (function : Option Value) : Property :=
  if isSetter then { property with setter := function } else { property with getter := function }

theorem Property.Serves.withFunction {property : Property} (known : property.Serves) (isSetter : Bool)
    {function : Option Value}
    (serves : ∀ value, function = some value → value.isMethodConvertible = true) :
    (property.withFunction isSetter function).Serves := by
  cases isSetter with
  | true => exact ⟨known.getter, serves⟩
  | false => exact ⟨serves, known.setter⟩

namespace StoreM

open Store

def accessorOf (mapping : Table Value) (key : String) : StoreM (Option Value) :=
  match mapping.get? key with
  | some value => accessor value
  | none => return none

theorem propertyFrom_eq (held : Option Ref) (mapping : Table Value) :
    propertyFrom held mapping = do
      let getter ← accessorOf mapping "get"
      let setter ← accessorOf mapping "set"
      let tags ← tagsOf held mapping
      return { getter, setter, tags } := by
  unfold propertyFrom present propertyKeys accessorOf tagsOf
  cases getter : mapping.get? "get" <;> cases setter : mapping.get? "set" <;>
    cases tags : mapping.get? "tags" <;>
      simp [getter, setter, tags, propertyWith]

def GivesAccessor (mapping : Table Value) : Prop :=
  ∃ key ∈ ["get", "set"], ∃ value, mapping.get? key = some value ∧ value ≠ .undefined

section Running

variable {store : Store} {table ref : Ref} {name : String} (isSetter : Bool) (function : Option Value)

/-- Once the property is known, it is written, and removed if it has lost its last accessor. -/
theorem run_accessorUpdate_of_named {found : Store} (named : (propertyNamed table name).run store = .ok ref found) :
    (applyUpdate table (.accessor name isSetter function)).run store = .ok ()
      (let property := (found.property ref).withFunction isSetter function
      let written := found.overwrite ref (.property property)
      if property.isEmpty then written.changeMembers table (·.erase name) else written) := by
  rw [applyUpdate, EStateM.run_bind, named]
  change EStateM.run (if ((found.property ref).withFunction isSetter function).isEmpty = true
    then eraseMember table name else pure ()) (found.overwrite ref (.property _)) = _
  dsimp only
  split <;> rfl

theorem run_accessorUpdate (listed : (store.members table).get? name = some ref) :
    (applyUpdate table (.accessor name isSetter function)).run store = .ok ()
      (let property := (store.property ref).withFunction isSetter function
      let written := store.overwrite ref (.property property)
      if property.isEmpty then written.changeMembers table (·.erase name) else written) := by
  refine run_accessorUpdate_of_named isSetter function ?_
  simp [propertyNamed, EStateM.run_bind, listed]

/-- A name that the table does not list gets a new property. -/
theorem run_accessorUpdate_new (unlisted : (store.members table).get? name = none) :
    (applyUpdate table (.accessor name isSetter function)).run store = .ok ()
      (let property := Property.withFunction {} isSetter function
      let written := Furnished.added store table name property
      if property.isEmpty then written.changeMembers table (·.erase name) else written) := by
  let made : Store := { store with cells := store.cells.push (.property {}) }
  have blank : made.cells[store.cells.size]? = some (.property {}) := Array.getElem?_push_size
  let found := made.changeMembers table (·.insert name store.cells.size)
  have named : (propertyNamed table name).run store = .ok store.cells.size found := by
    simp [propertyNamed, EStateM.run_bind, unlisted]
    rfl
  have view : found.property store.cells.size = {} := by
    rw [Store.property, Furnished.getElem?_changeMembers_property.mpr blank]
  rw [run_accessorUpdate_of_named isSetter function named, view]
  rfl

end Running

section Reading

variable {inv : Store → Prop}

theorem left_of_maintains {α : Type} {action : StoreM α} {post : α → Prop} {store : Store}
    (maintains : Maintains inv action post) (valid : inv store) : inv (left (action.run store)) := by
  have done := maintains store valid
  show inv (left (action store))
  cases ran : action store with
  | ok value later =>
    rw [ran] at done
    exact done.1
  | error fault later =>
    rw [ran] at done
    exact done

/-- What is left after two computations is what the first leaves with its fault, or else the second. -/
theorem left_bind {α β : Type} {first : StoreM α} {rest : α → StoreM β} {post : α → Prop} {store : Store}
    {motive : Store → Prop} (maintains : Maintains inv first post) (valid : inv store)
    (failed : ∀ later, inv later → motive later)
    (next : ∀ value later, inv later → post value → motive (left ((rest value).run later))) :
    motive (left ((first >>= rest).run store)) := by
  have done := maintains store valid
  rw [EStateM.run_bind]
  cases ran : first.run store with
  | ok value later =>
    rw [show first store = .ok value later from ran] at done
    exact next value later done.1 done.2
  | error fault later =>
    rw [show first store = .error fault later from ran] at done
    exact failed later done

theorem left_bind_pure {α β : Type} (action : StoreM α) (f : α → β) (store : Store) :
    left ((action >>= fun value => pure (f value)).run store) = left (action.run store) := by
  rw [EStateM.run_bind]
  cases action.run store <;> rfl

theorem mappable_shallow : Mappable false True (fun _ => True) (fun _ _ => True) fun _ _ => True :=
  mappable_any fun _ _ _ => trivial

theorem builds_accessorOf {base : Store} (mapping : Table Value) (key : String) :
    Builds True (fun _ => True) base (accessorOf mapping key) fun _ _ => True := by
  unfold accessorOf
  split
  · exact (builds_accessor _).weaken fun _ _ _ _ => trivial
  · exact .pure fun _ _ => trivial

theorem builds_propertyFrom {base : Store} (mapping : Table Value) :
    Builds True (fun _ => True) base (propertyFrom none mapping) fun _ _ => True := by
  rw [propertyFrom_eq]
  refine (builds_accessorOf mapping "get").bind fun _ getter _ _ => ?_
  refine (builds_accessorOf mapping "set").bind fun _ setter _ _ => ?_
  refine (builds_tagsOf mappable_shallow none fun _ _ _ => trivial).bind fun _ tags _ _ => ?_
  exact .pure fun _ _ => trivial

theorem maintains_accessor (value : Value) :
    Maintains inv (accessor value) fun accessor =>
      (∀ function, accessor = some function → function.isMethodConvertible = true) ∧
        (value ≠ .undefined → accessor.isSome = true) := by
  unfold accessor
  split
  · exact .pure ⟨fun _ same => (nomatch same), fun defined => absurd rfl defined⟩
  · have builds (base : Store) : Builds True inv base (methodValue value) fun _ given =>
        given.isMethodConvertible = true := by
      refine (builds_methodValue value).weaken ?_
      rintro _ _ _ ⟨rfl, serves⟩
      exact serves
    refine (Builds.maintains builds).bind fun function serves => .pure ⟨fun other same => ?_, fun _ => rfl⟩
    cases same
    exact serves

theorem maintains_accessorOf (mapping : Table Value) (key : String) :
    Maintains inv (accessorOf mapping key) fun accessor =>
      (∀ function, accessor = some function → function.isMethodConvertible = true) ∧
        ∀ value, mapping.get? key = some value → value ≠ .undefined → accessor.isSome = true := by
  unfold accessorOf
  split
  next value found =>
    rw [← bind_pure (accessor value)]
    refine (maintains_accessor value).bind fun accessor known => .pure ⟨known.1, fun other same => ?_⟩
    cases found.symm.trans same
    exact known.2
  next missing =>
    refine .pure ⟨fun _ same => (nomatch same), fun value found => ?_⟩
    cases missing.symm.trans found

theorem maintains_declarations {held : Option Ref} {kind : MemberKind} {table : Ref}
    {list : List (String × Value)}
    (each : ∀ entry ∈ list, Maintains inv (declare held kind table entry.1 entry.2) fun _ => True) :
    Maintains inv (declareAll held kind table list) fun _ => True := by
  induction list with
  | nil => exact .pure trivial
  | cons entry rest ih =>
    refine (each entry List.mem_cons_self).bind fun _ _ => ih fun later member => ?_
    exact each later (List.mem_cons_of_mem _ member)

theorem maintains_requireCount (context : CallContext) (least most : Nat) :
    Maintains inv (Builtin.requireCount context least most) fun _ => True :=
  .ite (fun _ => .pure trivial) fun _ => .throw _

theorem maintains_requireOnly (context : CallContext) (allowed : List String) :
    Maintains inv (Builtin.requireOnly context allowed) fun _ => True :=
  .ite (fun _ => .pure trivial) fun _ => .throw _

end Reading

section Curating

variable {given : Ref → Prop} {base : Store}

theorem mappable_curated : Mappable false True (Curated given base) (fun _ _ => True) fun _ _ => True :=
  mappable_any fun _ entries curated => curated.push_map entries

theorem maintains_tagsFrom (held : Option Ref) (value : Value) :
    Maintains (Curated given base) (tagsFrom held value) fun _ => True :=
  Builds.maintains fun _ => (builds_tagsFrom mappable_curated held trivial).weaken fun _ _ _ _ => trivial

theorem maintains_tagsOf (held : Option Ref) (mapping : Table Value) :
    Maintains (Curated given base) (tagsOf held mapping) fun _ => True := by
  unfold tagsOf
  split
  · exact maintains_tagsFrom held _
  · exact .pure trivial

theorem maintains_propertyFrom (held : Option Ref) (mapping : Table Value) :
    Maintains (Curated given base) (propertyFrom held mapping) fun property =>
      property.Serves ∧ (GivesAccessor mapping → property.isEmpty = false) := by
  rw [propertyFrom_eq]
  refine (maintains_accessorOf mapping "get").bind fun getter knownGetter => ?_
  refine (maintains_accessorOf mapping "set").bind fun setter knownSetter => ?_
  refine (maintains_tagsOf held mapping).bind fun tags _ => .pure ⟨⟨knownGetter.1, knownSetter.1⟩, ?_⟩
  rintro ⟨key, one, value, found, defined⟩
  rcases List.mem_pair.mp one with rfl | rfl
  · have there := knownGetter.2 value found defined
    simp [Property.isEmpty, ← Option.not_isSome, there]
  · have there := knownSetter.2 value found defined
    simp [Property.isEmpty, ← Option.not_isSome, there]

theorem maintains_propertyWith (held : Option Ref) {property : Property} (known : property.Serves)
    (key : String) (value : Value) :
    Maintains (Curated given base) (propertyWith held property key value) Property.Serves :=
  Builds.maintains fun _ => builds_propertyWith mappable_curated held known key trivial

theorem maintains_newProperty {property : Property} (serves : property.Serves) :
    Maintains (Curated given base) (alloc (.property property)) fun _ => True :=
  fun _ curated => ⟨curated.push (fun _ is => by cases is; exact serves) (fun _ is => nomatch is), trivial⟩

section Tables

variable {table : Ref} {members : Table Ref} {name : String}

theorem maintains_eraseMember (table : Ref) (name : String) :
    Maintains (Curated given base) (eraseMember table name) fun _ => True :=
  .modify fun _ curated => curated.changeMembers (curated.furnished.erase table name)

theorem maintains_insertMember {ref : Ref} {property : Property}
    (found : base.cells[ref]? = some (.property property)) (handed : given ref) :
    Maintains (Curated given base) (insertMember table name ref) fun _ => True := by
  refine .modify fun store curated => curated.changeMembers ?_
  obtain ⟨edited, there⟩ := curated.edits.property found
  exact curated.furnished.insert table name there (.inl handed)

/-- A table can take a new property that has an accessor or counts as given. -/
theorem curated_insertNew {store : Store} {property : Property} (curated : Curated given base store)
    (serves : property.Serves) (own : given store.cells.size ∨ property.isEmpty = false) :
    Curated given base (Store.changeMembers { store with cells := store.cells.push (.property property) } table
      (·.insert name store.cells.size)) := by
  let made : Store := { store with cells := store.cells.push (.property property) }
  have next : Curated given base made :=
    curated.push (fun _ is => by cases is; exact serves) fun _ is => nomatch is
  have there : made.cells[store.cells.size]? = some (.property property) := Array.getElem?_push_size
  refine next.changeMembers (next.furnished.insert table name there (own.imp_right fun furnished => ?_))
  refine ⟨furnished, fun other label lists => ?_⟩
  exact curated.furnished.not_lists_size (lists.of_push fun _ is => by cases is)

theorem maintains_insertNew {property : Property} (serves : property.Serves)
    (furnished : property.isEmpty = false) :
    Maintains (Curated given base) (do insertMember table name (← alloc (.property property)))
      fun _ => True :=
  fun _ curated => ⟨curated_insertNew curated serves (.inr furnished), trivial⟩

/-- Members of other kinds do not matter. -/
theorem maintains_insertOther {kind : MemberKind} (plain : kind ≠ .property)
    (found : base.cells[table]? = some (.members kind members)) (ref : Ref) :
    Maintains (Curated given base) (insertMember table name ref) fun _ => True := by
  refine .modify fun store curated => curated.changeMembers ?_
  obtain ⟨edited, there⟩ := curated.edits.members found
  refine curated.furnished.insert_elsewhere name ref fun others also => ?_
  cases there.symm.trans also
  exact plain rfl

/-- Giving a property an accessor, or taking it away, leaves no property without accessors behind. -/
theorem maintains_accessorUpdate (found : base.cells[table]? = some (.members .property members))
    (isSetter : Bool) {function : Option Value}
    (serves : ∀ value, function = some value → value.isMethodConvertible = true) :
    Maintains (Curated given base) (applyUpdate table (.accessor name isSetter function))
      fun _ => True := by
  intro store curated
  obtain ⟨edited, there⟩ := curated.edits.members found
  have view : store.members table = edited := Store.members_eq there
  cases listed : edited.get? name with
  | some ref =>
    have lists : store.Lists table name ref := ⟨edited, there, listed⟩
    obtain ⟨old, cell, -⟩ := curated.furnished.listed table name ref lists
    let property := (store.property ref).withFunction isSetter function
    have served : property.Serves := (curated.furnished.property_serves ref).withFunction isSetter serves
    have written := (edits_overwrite cell (.property old property) trivial).1
    rw [show applyUpdate _ _ store = _ from run_accessorUpdate isSetter function (view ▸ listed)]
    refine ⟨?_, trivial⟩
    by_cases empty : property.isEmpty = true
    · rw [if_pos empty]
      refine ⟨curated.furnished.remove lists cell served, ?_⟩
      exact (curated.edits.trans written).trans (edits_changeMembers _ _ _)
    · rw [if_neg empty]
      refine ⟨curated.furnished.rewrite cell served (.inr (.inl ?_)), curated.edits.trans written⟩
      simpa using empty
  | none =>
    let property := Property.withFunction {} isSetter function
    have served : property.Serves := Property.Serves.blank.withFunction isSetter serves
    rw [show applyUpdate _ _ store = _ from run_accessorUpdate_new isSetter function (view ▸ listed)]
    refine ⟨?_, trivial⟩
    have edits : base.Edits (Furnished.added store table name property) :=
      curated.edits.trans Furnished.edits_added.1
    by_cases empty : property.isEmpty = true
    · rw [if_pos empty]
      exact ⟨curated.furnished.add_remove served, edits.trans (edits_changeMembers _ _ _)⟩
    · rw [if_neg empty]
      exact ⟨curated.furnished.add served (by simpa using empty), edits⟩

/-- An object that a table is to store has been given, and is there. -/
def Handed (given : Ref → Prop) (base : Store) (value : Value) : Prop :=
  ∀ ref, value = .member .property ref →
    given ref ∧ ∃ property, base.cells[ref]? = some (.property property)

theorem maintains_declareProperty (found : base.cells[table]? = some (.members .property members))
    (held : Option Ref) (key : String) {value : Value} (handed : Handed given base value) :
    Maintains (Curated given base) (declare held .property table key value) fun _ => True := by
  have refused (fault : Store → Fault) : Maintains (Curated given base)
      ((do throw (fault (← get)) : StoreM PropertyUpdate) >>= applyUpdate table) fun _ => True :=
    fun store curated => curated
  refine .ite (fun _ => fun store curated => curated) fun _ => ?_
  unfold propertyUpdate
  cases accessorKey? key with
  | some named =>
    simp only [bind_assoc, pure_bind]
    refine (maintains_accessor value).bind fun function known => ?_
    exact maintains_accessorUpdate found named.1 known.1
  | none =>
    cases value with
    | undefined => exact maintains_eraseMember table key
    | map handle ref =>
      simp only [bind_assoc]
      refine .bind .get fun store _ => ?_
      refine (maintains_propertyFrom held _).bind fun property known => ?_
      split
      next => exact maintains_eraseMember table key
      next furnished =>
        simp only [bind_assoc, pure_bind]
        exact maintains_insertNew known.1 (by simpa using furnished)
    | member kind ref =>
      cases kind with
      | property =>
        obtain ⟨given, property, there⟩ := handed ref rfl
        exact maintains_insertMember there given
      | _ => exact refused _
    | _ => exact refused _

theorem Handed.lift {later : Store} {value : Value} (handed : Handed given base value)
    (edits : base.Edits later) : Handed given later value := by
  intro ref same
  obtain ⟨known, property, there⟩ := handed ref same
  exact ⟨known, edits.property there⟩

theorem maintains_declareOther {kind : MemberKind} (plain : kind ≠ .property)
    (found : base.cells[table]? = some (.members kind members)) (held : Option Ref) (key : String)
    (value : Value) : Maintains (Curated given base) (declare held kind table key value) fun _ => True := by
  have entries (store : Store) (entry : Entry) (curated : Curated given base store) :=
    curated.push_entry entry
  refine .ite (fun _ => fun store curated => curated) fun _ => ?_
  cases kind with
  | property => exact absurd rfl plain
  | field =>
    have made : Maintains (Curated given base) (declareField held value) fun _ => True :=
      Builds.maintains fun _ =>
        (builds_declareField mappable_curated entries held trivial).weaken fun _ _ _ _ => trivial
    exact made.bind fun ref _ => maintains_insertOther plain found ref
  | method =>
    have made : Maintains (Curated given base) (declareMethod held value) fun _ => True :=
      Builds.maintains fun _ =>
        (builds_declareMethod mappable_curated entries held trivial).weaken fun _ _ _ _ => trivial
    exact made.bind fun ref _ => maintains_insertOther plain found ref

theorem maintains_declareAll {kind : MemberKind} (found : base.cells[table]? = some (.members kind members))
    (held : Option Ref) {list : List (String × Value)}
    (handed : kind = .property → ∀ entry ∈ list, Handed given base entry.2) :
    Maintains (Curated given base) (declareAll held kind table list) fun _ => True := by
  refine maintains_declarations fun entry member => ?_
  by_cases is : kind = .property
  · subst is
    exact maintains_declareProperty found held entry.1 (handed rfl entry member)
  · exact maintains_declareOther is found held entry.1 entry.2

/-- What goes on with a new table can take the store with that table as its base. -/
theorem maintains_newMembers (kind : MemberKind) {α : Type} {rest : Ref → StoreM α} {post : α → Prop}
    (next : ∀ later table, base.Edits later → later.cells[table]? = some (.members kind ∅) →
      Maintains (Curated given later) (rest table) post) :
    Maintains (Curated given base) (newMembers kind >>= rest) post := by
  intro store curated
  let made : Store := { store with cells := store.cells.push (.members kind ∅) }
  have begun : Curated given base made := curated.push (fun _ is => nomatch is) fun _ is => by
    cases is
    rfl
  have done := next made store.cells.size begun.edits Array.getElem?_push_size made (.refl begun.furnished)
  show Ends _ _ (rest store.cells.size made)
  cases ran : rest store.cells.size made with
  | ok value later =>
    rw [ran] at done
    exact ⟨⟨done.1.furnished, begun.edits.trans done.1.edits⟩, done.2⟩
  | error fault later =>
    rw [ran] at done
    exact ⟨done.furnished, begun.edits.trans done.edits⟩

theorem maintains_membersFrom (kind : MemberKind) {mapping : Table Value}
    (handed : kind = .property → mapping.All (Handed given base)) :
    Maintains (Curated given base) (membersFrom kind mapping) fun _ => True := by
  refine maintains_newMembers kind fun later table edits found => ?_
  refine (maintains_declareAll found none fun is entry member => ?_).bind fun _ _ => .pure trivial
  exact (handed is entry.1 entry.2 ((mapping.mem_entries_iff _ _).mp member)).lift edits

end Tables

section Types

/-- The objects in a map have been given, and are there. -/
def HandedInside (given : Ref → Prop) (base : Store) (value : Value) : Prop :=
  ∀ handle ref, value = .map handle ref →
    ∃ entries, base.cells[ref]? = some (.map entries) ∧ entries.All (Handed given base)

theorem maintains_membersValue (key : String) (kind : MemberKind) {value : Value}
    (handed : kind = .property → HandedInside given base value) :
    Maintains (Curated given base) (membersValue key kind value) fun _ => True := by
  unfold membersValue
  split
  · have made : Maintains (Curated given base) (newMembers kind >>= pure) fun _ => True :=
      maintains_newMembers kind fun _ _ _ _ => .pure trivial
    rwa [bind_pure] at made
  next handle ref =>
    refine .bind .get fun store curated => maintains_membersFrom kind fun is => ?_
    obtain ⟨entries, found, inside⟩ := handed is handle ref rfl
    rw [curated.edits.entries_eq found]
    exact inside
  · exact .ite (fun _ => .pure trivial) fun _ => .throw _
  · exact .throw _

theorem maintains_typeChange (key : String) {value : Value}
    (handed : key = "properties" ∨ key = "props" → HandedInside given base value) :
    Maintains (Curated given base) (typeChange key value) fun _ => True := by
  unfold typeChange
  split
  · exact (maintains_tagsFrom none value).bind fun _ _ => .pure trivial
  · have made : Maintains (Curated given base) (constructorValue value) fun _ => True := by
      unfold constructorValue
      split
      · exact .pure trivial
      · exact .ite (fun _ => .pure trivial) fun _ => .throw _
    exact made.bind fun _ _ => .pure trivial
  · exact (maintains_membersValue _ .field fun is => by cases is).bind fun _ _ => .pure trivial
  · exact (maintains_membersValue _ .method fun is => by cases is).bind fun _ _ => .pure trivial
  · exact (maintains_membersValue _ _ fun _ => handed (by simp)).bind fun _ _ => .pure trivial
  · exact (maintains_membersValue _ _ fun _ => handed (by simp)).bind fun _ _ => .pure trivial
  · exact .throw _

theorem maintains_typeFrom {mapping : Table Value}
    (handed : ∀ value, mapping.get? "properties" = some value → HandedInside given base value) :
    Maintains (Curated given base) (typeFrom mapping) fun _ => True := by
  have named : Maintains (Curated given base) (typeName mapping) fun _ => True := by
    unfold typeName
    split
    · exact .throw _
    · exact .throw _
    · exact .ite (fun _ => .throw _) fun _ => .pure trivial
    · exact .bind .get fun _ _ => .throw _
  have blank (name : String) : Maintains (Curated given base) (blankType name) fun _ => True :=
    maintains_newMembers _ fun _ _ _ _ => maintains_newMembers _ fun _ _ _ _ =>
      maintains_newMembers _ fun _ _ _ _ => .pure trivial
  have changed (type : TypeObject) (entry : String × Value) (member : entry ∈ present mapping typeKeys) :
      Maintains (Curated given base) (do let change ← typeChange entry.1 entry.2; return change type)
        fun _ => True := by
    refine (maintains_typeChange entry.1 fun is => handed _ ?_).bind fun _ _ => .pure trivial
    obtain ⟨key, one, same⟩ := List.mem_filterMap.mp member
    obtain ⟨value, found, rfl⟩ := Option.map_eq_some_iff.mp same
    rcases is with rfl | rfl
    · exact found
    · simp [typeKeys] at one
  refine named.bind fun name _ => (blank name).bind fun type _ => ?_
  have all : Maintains (Curated given base) ((present mapping typeKeys).foldlM (fun type entry => do
      let change ← typeChange entry.1 entry.2
      return change type) type) fun _ => True :=
    (Maintains.sequential _ _).list_foldlM _ (fun type _ entry member => changed type entry member) trivial
  refine all.bind fun type _ store curated => ⟨?_, trivial⟩
  exact curated.push (fun _ is => nomatch is) fun _ is => nomatch is

end Types

section Assigning

variable {ref : Ref}

theorem maintains_propertySet {property : Property} (found : base.cells[ref]? = some (.property property))
    (handed : given ref) (key : String) (value : Value) :
    Maintains (Curated given base) (propertySet ref key value) fun _ => True := by
  refine .bind .get fun store curated => ?_
  refine (maintains_propertyWith none (curated.furnished.property_serves ref) key value).bind ?_
  intro changed serves
  refine .modify fun later next => ?_
  obtain ⟨edited, there⟩ := next.edits.property found
  have written := (edits_overwrite there (.property edited changed) trivial).1
  exact ⟨next.furnished.rewrite there serves (.inl handed), next.edits.trans written⟩

theorem maintains_loadProperty {property : Property} (found : base.cells[ref]? = some (.property property))
    (handed : given ref) (mapping : Table Value) :
    Maintains (Curated given base) (loadMember .property ref mapping) fun _ => True :=
  (Maintains.sequential _ _).list_forM _ fun entry _ => maintains_propertySet found handed entry.1 entry.2

theorem maintains_typeSet {type : TypeObject} (found : base.cells[ref]? = some (.type type)) (key : String)
    {value : Value} (handed : HandedInside given base value) :
    Maintains (Curated given base) (typeSet ref key value) fun _ => True := by
  refine .ite (fun _ => ?_) fun _ => .throw _
  refine (maintains_typeChange key fun _ => handed).bind fun change _ => .bind .get fun store _ => ?_
  refine .modify fun later curated => ?_
  obtain ⟨edited, there⟩ := curated.edits.type found
  have written := (edits_overwrite there (.type edited (change (store.type ref))) trivial).1
  exact ⟨curated.furnished.retype there, curated.edits.trans written⟩

theorem maintains_deleteFromMembers (table : Ref) (keys : List Value) :
    Maintains (Curated given base) (deleteFromMembers table keys) fun _ => True := by
  induction keys with
  | nil => exact .pure trivial
  | cons index rest ih =>
    have text : Maintains (Curated given base) (textIndex index) fun _ => True := by
      unfold textIndex
      split
      · exact .pure trivial
      · exact .bind .get fun _ _ => .throw _
    exact text.bind fun key _ => (maintains_eraseMember table key).bind fun _ _ => ih

end Assigning

section Building

open Builtin

/-- What is left lists a property without accessors under some of the names only if it counts as given. -/
def Excuses (given : Ref → Prop) (bare : String → Prop) (table : Ref) (store : Store) : Prop :=
  ∀ name ref property, bare name → store.Lists table name ref →
    store.cells[ref]? = some (.property property) → property.isEmpty = true → given ref

section Keywords

variable {bare : String → Prop} {table : Ref} {members : Table Ref} {list : List (String × Value)}

/-- What a keyword gives can be listed under its name: an object that has been given, or a property read
from a mapping, with an accessor unless the name is excused. -/
structure KeywordFurnishes (given : Ref → Prop) (bare : String → Prop) (base : Store)
    (entry : String × Value) : Prop where
  handed : Handed given base entry.2
  mapping : ∀ handle ref, entry.2 = .map handle ref →
    ∃ entries, base.cells[ref]? = some (.map entries) ∧ (bare entry.1 ∨ GivesAccessor entries)

theorem KeywordFurnishes.lift {later : Store} {entry : String × Value}
    (furnishes : KeywordFurnishes given bare base entry) (edits : base.Edits later) :
    KeywordFurnishes given bare later entry := by
  refine ⟨furnishes.handed.lift edits, fun handle ref same => ?_⟩
  obtain ⟨entries, found, known⟩ := furnishes.mapping handle ref same
  obtain ⟨cell, there, edit⟩ := edits ref _ found
  cases edit with
  | same => exact ⟨entries, there, known⟩

theorem builds_keywordProperty {base : Store} (name : String) (value : Value) :
    Builds True (fun _ => True) base (keywordProperty name value) fun _ _ => True := by
  unfold keywordProperty
  split
  · exact .pure fun _ _ => trivial
  · refine .get_bind fun _ _ => (builds_propertyFrom _).bind fun _ _ _ _ => ?_
    exact (Builds.alloc fun _ _ _ => trivial).weaken fun _ _ _ _ => trivial
  · exact .throw trivial _

/-- A property stays listed while others are declared under other names. -/
theorem maintains_listing {name : String} {ref : Ref} {property : Property}
    (others : ∀ entry ∈ list, entry.1 ≠ name) :
    Maintains (fun store => store.Lists table name ref ∧ store.cells[ref]? = some (.property property))
      (declareKeywords .property table list) fun _ => True := by
  induction list with
  | nil => exact .pure trivial
  | cons entry rest ih =>
    have made : Maintains (fun store => store.Lists table name ref ∧
        store.cells[ref]? = some (.property property)) (keywordProperty entry.1 entry.2) fun _ => True :=
      Builds.maintains_of_kept (fun _ => builds_keywordProperty entry.1 entry.2)
        fun kept listed => ⟨listed.1.kept kept, kept ref _ listed.2⟩
    have apart := others entry List.mem_cons_self
    have inserted (other : Ref) : Maintains (fun store => store.Lists table name ref ∧
        store.cells[ref]? = some (.property property)) (insertMember table entry.1 other) fun _ => True :=
      .modify fun store listed =>
        ⟨listed.1.insert_other apart.symm, Furnished.getElem?_changeMembers_property.mpr listed.2⟩
    refine made.bind fun other _ => (inserted other).bind fun _ _ => ih fun later member => ?_
    exact others later (List.mem_cons_of_mem _ member)

/-- Declarations by keyword leave the store furnished if all that is excused in the end counts as given: what
a keyword puts into the table stays there. -/
theorem curated_declareKeywords (found : base.cells[table]? = some (.members .property members))
    (distinct : (list.map Prod.fst).Nodup) (each : ∀ entry ∈ list, KeywordFurnishes given bare base entry)
    {store : Store} (curated : Curated given base store) :
    Excuses given bare table (left ((declareKeywords .property table list).run store)) →
      Curated given base (left ((declareKeywords .property table list).run store)) := by
  induction list generalizing store with
  | nil => exact fun _ => curated
  | cons entry rest ih =>
    obtain ⟨name, value⟩ := entry
    obtain ⟨handed, mapping⟩ := each _ List.mem_cons_self
    obtain ⟨apart, distinct⟩ := List.nodup_cons.mp distinct
    have others (entry : String × Value) (member : entry ∈ rest) : entry.1 ≠ name := by
      rintro rfl
      exact apart (List.mem_map.mpr ⟨entry, member, rfl⟩)
    have ih {store : Store} (curated : Curated given base store) :=
      ih distinct (fun other member => each other (List.mem_cons_of_mem _ member)) curated
    unfold declareKeywords keywordMember keywordProperty
    dsimp only
    split
    next ref =>
      obtain ⟨known, property, there⟩ := handed ref rfl
      have inserted : Maintains (Curated given base) (insertMember table name ref) fun _ => True :=
        maintains_insertMember there known
      exact ih (inserted store curated).1
    next handle ref =>
      obtain ⟨entries, there, known⟩ := mapping handle ref rfl
      simp only [bind_assoc]
      show Excuses _ _ _ (left ((propertyFrom none (store.entries ref) >>= _).run store)) → Curated _ _
        (left ((propertyFrom none (store.entries ref) >>= _).run store))
      rw [curated.edits.entries_eq there]
      refine left_bind (motive := fun later => Excuses given bare table later → Curated given base later)
        (maintains_propertyFrom none entries) curated (fun _ curated _ => curated) ?_
      intro property middle curated ⟨serves, gives⟩ excuses
      obtain ⟨edited, lists⟩ := curated.edits.members found
      let made : Store := { middle with cells := middle.cells.push (.property property) }
      have listed := left_of_maintains (maintains_listing others)
        (⟨.insert_self (Kept.push middle _ table _ lists) name middle.cells.size,
          Furnished.getElem?_changeMembers_property.mpr Array.getElem?_push_size⟩ :
          (made.changeMembers table (·.insert name middle.cells.size)).Lists table name middle.cells.size ∧
            (made.changeMembers table (·.insert name middle.cells.size)).cells[middle.cells.size]? =
              some (.property property))
      refine ih (curated_insertNew curated serves ?_) excuses
      rcases known with excused | gives'
      · cases empty : property.isEmpty with
        | false => exact .inr rfl
        | true => exact .inl (excuses name _ property excused listed.1 listed.2 empty)
      · exact .inr (gives gives')
    next => exact fun _ => curated

theorem curated_runMembers {context : CallContext} {store : Store} (furnished : store.Furnished given)
    (arguments : ∀ value ∈ context.arguments, HandedInside given store value)
    (keywords : ∀ entry ∈ context.keywords.entries, KeywordFurnishes given bare store entry) :
    Excuses given bare store.cells.size (left ((runMembers .property context).run store)) →
      Curated given store (left ((runMembers .property context).run store)) := by
  have positional : Maintains (· = store) (positionalEntries context) fun entries =>
      ∀ entry ∈ entries, Handed given store entry.2 := by
    unfold positionalEntries
    split
    · exact .pure fun _ member => nomatch member
    next handle ref rest given' =>
      refine .bind .get fun _ same => .pure fun entry member => ?_
      have first : Value.map handle ref ∈ context.arguments := by
        rw [← Array.mem_toList_iff, given']
        exact List.mem_cons_self
      obtain ⟨entries, found, inside⟩ := arguments _ first handle ref rfl
      rw [same, entries_eq found] at member
      exact inside entry.1 entry.2 ((entries.mem_entries_iff _ _).mp member)
    · exact .bind .get fun _ _ => .throw _
  let motive (later : Store) : Prop :=
    Excuses given bare store.cells.size later → Curated given store later
  have unchanged (later : Store) (same : later = store) : motive later := fun _ => by
    subst same
    exact .refl furnished
  have counted : Maintains (· = store) (requireCount context 0 1) fun _ => True :=
    maintains_requireCount context 0 1
  refine left_bind (motive := motive) counted rfl unchanged ?_
  rintro _ _ rfl -
  refine left_bind (motive := motive) positional rfl unchanged ?_
  rintro entries store rfl handed
  let made : Store := { store with cells := store.cells.push (.members .property ∅) }
  have begun : Curated given store made := (Curated.refl furnished).push (fun _ is => nomatch is) fun _ is => by
    cases is
    rfl
  have found : made.cells[store.cells.size]? = some (.members .property ∅) := Array.getElem?_push_size
  have declared : Maintains (Curated given made) (declareAll none .property store.cells.size entries)
      fun _ => True :=
    maintains_declareAll found none fun _ entry member => (handed entry member).lift begun.edits
  have onward {last : Store} (curated : Curated given made last) : Curated given store last :=
    ⟨curated.furnished, begun.edits.trans curated.edits⟩
  show motive (left ((declareAll none .property store.cells.size entries >>= fun _ =>
    declareKeywords .property store.cells.size context.keywords.entries >>= fun _ =>
      pure (Value.members .property store.cells.size)).run made))
  refine left_bind (motive := motive) declared (.refl begun.furnished) (fun last curated _ => onward curated) ?_
  intro _ last curated _ excuses
  rw [left_bind_pure] at excuses ⊢
  refine onward (curated_declareKeywords found (Table.nodup_map_fst (.refl _)) ?_ curated excuses)
  exact fun entry member => (keywords entry member).lift begun.edits

end Keywords

theorem maintains_runProperty (context : CallContext) :
    Maintains (Curated given base) (runProperty context) fun _ => True := by
  have made (getter setter : Value) (tags : Table Value) : Maintains (Curated given base) (do
      let getter ← accessor getter
      let setter ← accessor setter
      return Value.member .property (← alloc (.property { getter, setter, tags }))) fun _ => True := by
    refine (maintains_accessor getter).bind fun getter knownGetter => ?_
    refine (maintains_accessor setter).bind fun setter knownSetter => ?_
    exact (maintains_newProperty ⟨knownGetter.1, knownSetter.1⟩).bind fun _ _ => .pure trivial
  unfold runProperty
  split
  · exact made _ _ _
  · exact made _ _ _
  · exact fun store curated => curated

end Building

end Curating

end StoreM

end ScriptMachine
