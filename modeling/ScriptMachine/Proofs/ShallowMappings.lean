import ScriptMachine.Proofs.DeclaredMembers

/-! What a shallow mapping consists of. Apart from the references of new maps it depends only on the cells
that it is read from, not on when it is made. -/

namespace ScriptMachine

/-- What stands under a key of a mapping: a value of its subject, or a new map with such entries. -/
inductive Shown where
  | value (value : Value)
  | entries (entries : Table Value)

/-- A value stands for what is shown. -/
inductive Shown.Stands (store : Store) : Shown → Value → Prop where
  | value (value : Value) : Stands store (.value value) value
  | entries {entries : Table Value} {ref : Ref} (found : store.cells[ref]? = some (.map entries)) :
      Stands store (.entries entries) (.map .writable ref)

/-- The shape of a mapping with tags, which are left out if there are none. -/
def shapeTags (tags : Table Value) (shape : Table Shown) : Table Shown :=
  if tags.isEmpty then shape else shape.insert "tags" (.entries tags)

/-- The shape of a mapping with an accessor or a constructor, if there is one. -/
def shapeAccessor (key : String) (accessor : Option Value) (shape : Table Shown) : Table Shown :=
  match accessor with
  | some function => shape.insert key (.value function)
  | none => shape

namespace Store

variable (store : Store)

def memberShape (kind : MemberKind) (ref : Ref) : Table Shown :=
  match kind with
  | .property =>
    let property := store.property ref
    shapeTags property.tags (shapeAccessor "set" property.setter (shapeAccessor "get" property.getter {}))
  | _ =>
    let entry := store.entry ref
    shapeTags entry.tags (Table.empty.insert "value" (.value entry.value))

/-- The mapping of a table of members, which are not copied. -/
def membersShape (kind : MemberKind) (ref : Ref) : Table Value :=
  (store.members ref).mapValues (Value.member kind)

def typeShape (ref : Ref) : Table Shown :=
  let type := store.type ref
  let shape := Table.empty.insert "name" (.value (.string type.name))
  let shape := shapeTags type.tags (shapeAccessor "new" type.constructor shape)
  let methods := store.membersShape .method type.methods
  let fields := store.membersShape .field type.fields
  let properties := store.membersShape .property type.properties
  ((shape.insert "methods" (.entries methods)).insert "fields" (.entries fields)).insert "properties"
    (.entries properties)

/-- The shape of the shallow mapping of a value, if it has one. -/
def shape? : Value → Option (Table Shown)
  | .map _ ref => some ((store.entries ref).mapValues Shown.value)
  | .object ref => some ((store.valuesOf ref).mapValues Shown.value)
  | .type ref => some (store.typeShape ref)
  | .member kind ref => some (store.memberShape kind ref)
  | .members kind ref => some ((store.membersShape kind ref).mapValues Shown.value)
  | _ => none

variable {store} {later : Store} {kind : MemberKind} {ref : Ref}

/-- What is looked at to show a value: itself, and the tables of a type. -/
inductive Shows (store : Store) : Value → Value → Prop where
  | self (value : Value) : Shows store value value
  | fields (ref : Ref) : Shows store (.type ref) (.members .field (store.type ref).fields)
  | methods (ref : Ref) : Shows store (.type ref) (.members .method (store.type ref).methods)
  | properties (ref : Ref) : Shows store (.type ref) (.members .property (store.type ref).properties)

/-- Stores in which all that is looked at to show a value lies in the same cells. -/
structure LooksSame (store later : Store) (value : Value) : Prop where
  shown : ∀ shown, store.Shows value shown → store.SameFor later shown
  type : ∀ ref, value = .type ref → later.cells[ref]? = store.cells[ref]?

/-- A value that can be shown: the cells that are looked at exist and are of their kinds. -/
structure Legible (store : Store) (value : Value) : Prop where
  shown : ∀ shown, store.Shows value shown → store.Fits shown
  type : ∀ ref, value = .type ref → ∃ type, store.cells[ref]? = some (.type type)

theorem LooksSame.own {value : Value} (same : store.LooksSame later value) : store.SameFor later value :=
  same.shown value (.self value)

theorem Firm.legible {value : Value} (firm : store.Firm value) : store.Legible value := by
  refine ⟨fun shown looked => ?_, (firm _ .refl).2⟩
  cases looked with
  | self => exact firm.grounded.fits
  | fields ref => exact (firm.of_involves (.fields ref)).grounded.fits
  | methods ref => exact (firm.of_involves (.methods ref)).grounded.fits
  | properties ref => exact (firm.of_involves (.properties ref)).grounded.fits

theorem memberShape_eq (same : store.SameFor later (.member kind ref)) :
    later.memberShape kind ref = store.memberShape kind ref := by
  have cell := same ref (.member kind ref)
  cases kind <;> simp only [memberShape, Store.property, Store.entry, cell]

theorem membersShape_eq (same : store.SameFor later (.members kind ref)) :
    later.membersShape kind ref = store.membersShape kind ref := by
  simp only [membersShape, Store.members, same ref (.members kind ref)]

theorem typeShape_eq (same : store.LooksSame later (.type ref)) : later.typeShape ref = store.typeShape ref := by
  have view : later.type ref = store.type ref := by simp only [Store.type, same.type ref rfl]
  simp only [typeShape, view, membersShape_eq (same.shown _ (.methods ref)),
    membersShape_eq (same.shown _ (.fields ref)), membersShape_eq (same.shown _ (.properties ref))]

theorem shape?_eq {value : Value} (same : store.LooksSame later value) :
    later.shape? value = store.shape? value := by
  cases value with
  | map handle ref => simp only [shape?, Store.entries, same.own ref (.map handle ref)]
  | object ref =>
    have view : later.object ref = store.object ref := same.own.object_eq
    simp only [shape?, valuesOf, Store.entries, view, same.own _ (.storage ref)]
  | type ref => simp only [shape?, typeShape_eq same]
  | member kind ref => simp only [shape?, memberShape_eq same.own]
  | members kind ref => simp only [shape?, membersShape_eq same.own]
  | _ => rfl

theorem Kept.looksSame (kept : store.Kept later) {value : Value} (legible : store.Legible value) :
    store.LooksSame later value := by
  refine ⟨fun shown looked => kept.sameFor (legible.shown shown looked), ?_⟩
  rintro ref rfl
  obtain ⟨type, cell⟩ := legible.type ref rfl
  rw [cell, kept ref _ cell]

end Store

open Store

abbrev Table.Shaped (store : Store) (shape : Table Shown) (mapping : Table Value) : Prop :=
  Table.Agree (Shown.Stands store) shape mapping

section Shaped

variable {store later : Store} {shape : Table Shown} {mapping : Table Value}

/-- The maps of a store are in a later one as they were. -/
def Store.KeptMaps (store later : Store) : Prop :=
  ∀ (ref : Ref) (entries : Table Value), store.cells[ref]? = some (.map entries) →
    later.cells[ref]? = some (.map entries)

theorem Shown.Stands.mono {shown : Shown} {value : Value} (stands : shown.Stands store value)
    (maps : store.KeptMaps later) : shown.Stands later value := by
  cases stands with
  | value => exact .value _
  | entries found => exact .entries (maps _ _ found)

theorem Table.Shaped.mono (shaped : Table.Shaped store shape mapping) (maps : store.KeptMaps later) :
    Table.Shaped later shape mapping :=
  Agree.mono (fun _ _ stands => stands.mono maps) shaped

theorem Shown.Stands.lasting {shown : Shown} {value : Value} (stands : shown.Stands store value)
    (kept : store.Kept later) : shown.Stands later value :=
  stands.mono fun ref _ found => kept ref _ found

theorem Table.Shaped.lasting (shaped : Table.Shaped store shape mapping) (kept : store.Kept later) :
    Table.Shaped later shape mapping :=
  shaped.mono fun ref _ found => kept ref _ found

theorem Table.shaped_values (store : Store) (table : Table Value) :
    Table.Shaped store (table.mapValues Shown.value) table := by
  refine .of_rel fun key => ?_
  rw [Table.get?_mapValues]
  cases table.get? key with
  | some value => exact .some (.value value)
  | none => exact .none

end Shaped

namespace StoreM

variable {base : Store}

/-- A computation that succeeds, adding cells at most. -/
abbrev Makes {α : Type} (base : Store) (action : StoreM α) (post : Store → α → Prop) : Prop :=
  Builds False (fun _ => True) base action post

theorem makes_map (entries : Table Value) :
    Makes base (newMap entries .writable) fun later value => Shown.Stands later (.entries entries) value := by
  refine (builds_newMap (fun _ _ _ => trivial) entries .writable).weaken ?_
  rintro later _ _ ⟨ref, rfl, found⟩
  exact .entries found

theorem makes_withTags (tags : Table Value) {shape : Table Shown} {mapping : Table Value}
    (shaped : Table.Shaped base shape mapping) :
    Makes base (withTags false tags mapping) fun later form =>
      Table.Shaped later (shapeTags tags shape) form := by
  unfold shapeTags
  refine .ite (fun empty => ?_) fun tagged => ?_
  · rw [if_pos empty]
    exact .pure fun store kept => shaped.lasting kept
  · rw [if_neg tagged]
    refine (makes_map tags).bind fun store value kept stands => .pure fun later since => ?_
    exact (shaped.lasting (kept.trans since)).insert "tags" (stands.lasting since)

theorem makes_withAccessor (key : String) (accessor : Option Value) {shape : Table Shown}
    {mapping : Table Value} (shaped : Table.Shaped base shape mapping) :
    Makes base (withAccessor false key accessor mapping) fun later form =>
      Table.Shaped later (shapeAccessor key accessor shape) form := by
  cases accessor with
  | some function => exact .pure fun store kept => (shaped.lasting kept).insert key (.value function)
  | none => exact .pure fun store kept => shaped.lasting kept

theorem shaped_empty (store : Store) : Table.Shaped store ∅ ∅ := by
  refine .of_rel fun key => ?_
  rw [show (∅ : Table Shown).get? key = none from Table.get?_empty key,
    show (∅ : Table Value).get? key = none from Table.get?_empty key]
  exact .none

theorem makes_memberMapping {kind : MemberKind} {ref : Ref} (fits : base.Fits (.member kind ref)) :
    Makes base (memberMapping false kind ref) fun later form =>
      Table.Shaped later (base.memberShape kind ref) form := by
  have entry (plain : kind ≠ .property) : Makes base (do entryMapping false ((← get).entry ref))
      fun later form => Table.Shaped later (base.memberShape kind ref) form := by
    refine .get_bind fun store kept => ?_
    rw [← memberShape_eq (kept.sameFor fits)]
    have made := makes_withTags (store.entry ref).tags
      ((shaped_empty store).insert "value" (.value (store.entry ref).value))
    cases kind with
    | property => exact absurd rfl plain
    | field => exact made
    | method => exact made
  cases kind with
  | property =>
    refine .get_bind fun store kept => ?_
    rw [← memberShape_eq (kept.sameFor fits)]
    refine (makes_withAccessor "get" _ (shaped_empty store)).bind fun first got _ shaped => ?_
    refine (makes_withAccessor "set" _ shaped).bind fun second both _ shaped => ?_
    exact makes_withTags _ shaped
  | field => exact entry (by decide)
  | method => exact entry (by decide)

theorem makes_membersMapping {kind : MemberKind} {ref : Ref} (fits : base.Fits (.members kind ref)) :
    Makes base (membersMapping false kind ref) fun _ form => form = base.membersShape kind ref := by
  refine .get_bind fun store kept => ?_
  rw [← membersShape_eq (kept.sameFor fits)]
  have each : Makes store ((store.members ref).mapM fun member => (return .member kind member : StoreM Value))
      fun _ => Table.Agree (fun member value => value = .member kind member) (store.members ref) :=
    Builds.table_mapM (fun _ _ _ same => same) _ fun _ _ _ => .pure fun _ _ => rfl
  refine each.weaken fun later form _ agree => ?_
  refine Table.ext fun name => ?_
  rw [membersShape, Table.get?_mapValues]
  generalize (store.members ref).get? name = member, form.get? name = given, agree.optionRel name = both
  cases both with
  | some same => rw [same, Option.map_some]
  | none => rfl

theorem makes_typeMapping {ref : Ref} (legible : base.Legible (.type ref)) :
    Makes base (typeMapping false ref) fun later form => Table.Shaped later (base.typeShape ref) form := by
  have looked := legible.shown
  rw [typeMapping_eq]
  refine .get_bind fun store kept => ?_
  have same := kept.looksSame legible
  have view : store.type ref = base.type ref := by simp only [Store.type, same.type ref rfl]
  have named := (shaped_empty store).insert "name" (.value (.string (base.type ref).name))
  have opened : Table.Shaped store
      (shapeAccessor "new" (base.type ref).constructor
        (Table.empty.insert "name" (.value (.string (base.type ref).name)))) (opening (base.type ref)) := by
    unfold opening
    cases (base.type ref).constructor with
    | some constructor => exact named.insert "new" (.value constructor)
    | none => exact named
  have listed {kind : MemberKind} {table : Ref} (inside : base.Shows (.type ref) (.members kind table))
      {later : Store} (since : base.Kept later) :
      Makes later (membersMapping false kind table) fun _ form => form = base.membersShape kind table := by
    have fits := looked _ inside
    rw [← membersShape_eq (since.sameFor fits)]
    exact makes_membersMapping (since.fits fits)
  dsimp only
  rw [view]
  refine (makes_withTags _ opened).bind fun first mapping step shaped => ?_
  have toFirst := kept.trans step
  refine (listed (.methods ref) toFirst).bind fun _ _ step same => ?_
  subst same
  refine (makes_map _).bind fun second methods next newMethods => ?_
  have toSecond := step.trans next
  refine (listed (.fields ref) (toFirst.trans toSecond)).bind fun _ _ step same => ?_
  subst same
  refine (makes_map _).bind fun third fields next newFields => ?_
  have toThird := step.trans next
  refine (listed (.properties ref) ((toFirst.trans toSecond).trans toThird)).bind fun _ _ step same => ?_
  subst same
  refine (makes_map _).bind fun fourth properties next newProperties => .pure fun later last => ?_
  have toLast := (step.trans next).trans last
  have whole := shaped.lasting ((toSecond.trans toThird).trans toLast)
  refine ((whole.insert "methods" ?_).insert "fields" ?_).insert "properties" ?_
  · exact newMethods.lasting (toThird.trans toLast)
  · exact newFields.lasting toLast
  · exact newProperties.lasting last

/-- The shallow mapping of a value is made, if it has a shape, and has that shape. -/
theorem makes_mapping? {value : Value} (legible : base.Legible value) :
    Makes base (mapping? false value) fun later => Option.Rel (Table.Shaped later) (base.shape? value) := by
  have some {act : StoreM (Table Value)} {shape : Table Shown}
      (made : Makes base act fun later => Table.Shaped later shape) :
      Makes base (Option.some <$> act) fun later => Option.Rel (Table.Shaped later) (Option.some shape) :=
    made.map _ fun _ _ _ shaped => .some shaped
  cases value with
  | map handle ref =>
    refine .get_bind fun store kept => .pure fun later since => ?_
    rw [← shape?_eq (kept.looksSame legible)]
    exact .some (Table.shaped_values later _)
  | object ref =>
    refine .get_bind fun store kept => .pure fun later since => ?_
    rw [← shape?_eq (kept.looksSame legible)]
    exact .some (Table.shaped_values later _)
  | type ref => exact some (makes_typeMapping legible)
  | member kind ref => exact some (makes_memberMapping (legible.shown _ (.self _)))
  | members kind ref =>
    refine some ((makes_membersMapping (legible.shown _ (.self _))).weaken fun later form _ same => ?_)
    rw [same]
    exact Table.shaped_values later _
  | _ => exact .pure fun _ _ => .none

end StoreM

end ScriptMachine
