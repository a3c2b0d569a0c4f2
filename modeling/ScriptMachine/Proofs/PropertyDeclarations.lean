import ScriptMachine.Proofs.ShallowMappings
import ScriptMachine.Proofs.PropertyChanges

/-! What the declaration of a property does to a table, case by case, and when it succeeds. -/

namespace ScriptMachine

namespace Store

/-- A table of properties, all of which are there. -/
structure PropertyTable (store : Store) (table : Ref) : Prop where
  cell : ∃ members, store.cells[table]? = some (.members .property members)
  listed : ∀ name ref, (store.members table).get? name = some ref →
    ∃ property, store.cells[ref]? = some (.property property)

/-- A later store whose table lists something else under one name. But for the table and one cell, all
that was there is as it was. -/
structure Relisted (store later : Store) (table : Ref) (name : String) (listed changed : Option Ref) :
    Prop where
  stays : ∃ members, later.cells[table]? = some (.members .property members)
  own : (later.members table).get? name = listed
  others : ∀ other, other ≠ name → (later.members table).get? other = (store.members table).get? other
  kept : ∀ ref cell, store.cells[ref]? = some cell → ref ≠ table → changed ≠ some ref →
    later.cells[ref]? = some cell

variable {store middle later : Store} {table ref : Ref} {name : String} {listed changed : Option Ref}
  {property : Property}

theorem PropertyTable.apart (known : store.PropertyTable table)
    (found : store.cells[ref]? = some (.property property)) : ref ≠ table := by
  rintro rfl
  obtain ⟨members, cell⟩ := known.cell
  cases cell.symm.trans found

theorem PropertyTable.lasting (known : store.PropertyTable table) (kept : store.Kept later) :
    later.PropertyTable table := by
  obtain ⟨members, found⟩ := known.cell
  refine ⟨⟨members, kept _ _ found⟩, fun name ref listed => ?_⟩
  rw [members_eq (kept _ _ found), ← members_eq found] at listed
  obtain ⟨property, cell⟩ := known.listed name ref listed
  exact ⟨property, kept _ _ cell⟩

theorem Kept.relisted (kept : store.Kept later)
    (cell : ∃ members, store.cells[table]? = some (.members .property members)) (name : String)
    (changed : Option Ref) : store.Relisted later table name ((store.members table).get? name) changed := by
  obtain ⟨members, found⟩ := cell
  have same : later.members table = store.members table := by
    rw [members_eq found, members_eq (kept _ _ found)]
  exact ⟨⟨members, kept _ _ found⟩, by rw [same], fun other _ => by rw [same],
    fun ref cell found _ _ => kept ref cell found⟩

namespace Relisted

variable (relisted : store.Relisted later table name listed changed)

include relisted

theorem change {change : Table Ref → Table Ref} {new : Option Ref}
    (own : ∀ members, (change members).get? name = new)
    (others : ∀ members other, other ≠ name → (change members).get? other = members.get? other) :
    store.Relisted (later.changeMembers table change) table name new changed := by
  obtain ⟨members, found⟩ := relisted.stays
  have written : (later.changeMembers table change).cells[table]? =
      some (.members .property (change members)) := getElem?_changeMembers_self found
  refine ⟨⟨_, written⟩, ?_, fun other apart => ?_, fun ref cell there apart still => ?_⟩
  · rw [members_eq written, own]
  · rw [members_eq written, others members other apart, ← relisted.others other apart, members_eq found]
  · rw [getElem?_changeMembers_of_ne apart, relisted.kept ref cell there apart still]

theorem erase : store.Relisted (later.changeMembers table (·.erase name)) table name none changed :=
  relisted.change (fun members => by rw [Table.get?_erase, if_pos rfl])
    fun members other apart => by rw [Table.get?_erase, if_neg apart.symm]

theorem insert (ref : Ref) :
    store.Relisted (later.changeMembers table (·.insert name ref)) table name (some ref) changed :=
  relisted.change (fun members => by rw [Table.get?_insert, if_pos rfl])
    fun members other apart => by rw [Table.get?_insert, if_neg apart.symm]

theorem overwrite (apart : ref ≠ table) (cell : Cell)
    (free : ∀ old, store.cells[ref]? = some old → changed = some ref) :
    store.Relisted (later.overwrite ref cell) table name listed changed := by
  obtain ⟨members, found⟩ := relisted.stays
  have same : (later.overwrite ref cell).cells[table]? = some (.members .property members) := by
    rw [getElem?_overwrite_of_ne _ apart.symm, found]
  have view : (later.overwrite ref cell).members table = later.members table := by
    rw [members_eq same, members_eq found]
  refine ⟨⟨members, same⟩, by rw [view, relisted.own], fun other away => ?_, fun other old there away still => ?_⟩
  · rw [view, relisted.others other away]
  · have elsewhere : other ≠ ref := by
      rintro rfl
      exact still (free old there)
    rw [getElem?_overwrite_of_ne _ elsewhere, relisted.kept other old there away still]

theorem maps (known : store.PropertyTable table)
    (edited : ∀ ref, changed = some ref → ∃ property, store.cells[ref]? = some (.property property)) :
    store.KeptMaps later := by
  intro ref entries found
  refine relisted.kept ref _ found ?_ ?_
  · rintro rfl
    obtain ⟨members, cell⟩ := known.cell
    cases cell.symm.trans found
  · intro same
    obtain ⟨property, cell⟩ := edited ref same
    cases cell.symm.trans found

end Relisted

end Store

open Store

namespace StoreM

def accessorKeyOf (isSetter : Bool) (name : String) : String :=
  (if isSetter then "set_" else "get_") ++ name

theorem after?_eq_some_iff {start key name : String} :
    after? start key = some name ↔ key = start ++ name ∧ name ≠ "" := by
  unfold after?
  constructor
  · intro found
    split at found
    next both =>
      rw [Bool.and_eq_true, String.startsWith_string_iff, decide_eq_true_iff] at both
      obtain ⟨⟨rest, same⟩, longer⟩ := both
      cases found
      have named : key.toList.drop start.length = rest := by
        rw [← same, ← String.length_toList, List.drop_left]
      rw [named]
      refine ⟨?_, ?_⟩
      · apply String.toList_injective
        simp [← same]
      · rintro empty
        have none : rest = [] := by simpa using congrArg String.toList empty
        rw [none, List.append_nil] at same
        rw [← String.length_toList, ← String.length_toList, same] at longer
        exact Nat.lt_irrefl _ longer
    next => cases found
  · rintro ⟨rfl, named⟩
    have longer : (start ++ name).length > start.length := by
      have : name.length ≠ 0 := by simpa using named
      simp
      omega
    have begun : (start ++ name).startsWith start = true := by
      rw [String.startsWith_string_iff, String.toList_append]
      exact List.prefix_append _ _
    rw [if_pos (by rw [begun, Bool.true_and, decide_eq_true_iff]; exact longer)]
    rw [String.toList_append, ← String.length_toList, List.drop_left, String.ofList_toList]

theorem accessorKeyOf_injective {first second : Bool} {name other : String}
    (same : accessorKeyOf first name = accessorKeyOf second other) : first = second ∧ name = other := by
  have chars := congrArg String.toList same
  cases first <;> cases second <;> simp [accessorKeyOf] at chars
  · exact ⟨rfl, String.toList_injective chars⟩
  · exact ⟨rfl, String.toList_injective chars⟩

/-- Keys of accessors are those made of a prefix and a name. -/
theorem accessorKey?_eq_some_iff {key name : String} {isSetter : Bool} :
    accessorKey? key = some (isSetter, name) ↔ key = accessorKeyOf isSetter name ∧ name ≠ "" := by
  have getter {name : String} : after? "get_" key = some name ↔ key = accessorKeyOf false name ∧ name ≠ "" :=
    after?_eq_some_iff
  have setter {name : String} : after? "set_" key = some name ↔ key = accessorKeyOf true name ∧ name ≠ "" :=
    after?_eq_some_iff
  unfold accessorKey?
  cases read : after? "get_" key with
  | some found =>
    obtain ⟨is, named⟩ := getter.mp read
    constructor
    · intro same
      cases same
      exact ⟨is, named⟩
    · rintro ⟨also, -⟩
      obtain ⟨rfl, rfl⟩ := accessorKeyOf_injective (is.symm.trans also)
      rfl
  | none =>
    cases isSetter with
    | true => simpa using setter
    | false =>
      constructor
      · intro same
        cases written : after? "set_" key <;> simp [written] at same
      · intro known
        cases read.symm.trans (getter.mpr known)

/-- The accessor that a value gives. -/
def functionOf : Value → Option Value
  | .undefined => none
  | value => some value

/-- A value that gives an accessor, or takes it away. -/
def GivesFunction (value : Value) : Prop := value = .undefined ∨ value.isMethodConvertible = true

def functionUnder (mapping : Table Value) (key : String) : Option Value :=
  (mapping.get? key).bind functionOf

/-- A value is no type one of whose tables is held. -/
def Unheld (held : Option Ref) (store : Store) (value : Value) : Prop :=
  ∀ table ref, held = some table → value = .type ref →
    ¬(table = (store.type ref).fields ∨ table = (store.type ref).methods ∨
      table = (store.type ref).properties)

/-- A value that tags can be read from. -/
def GivesTags (held : Option Ref) (store : Store) (value : Value) : Prop :=
  value = .undefined ∨ (Unheld held store value ∧ (store.shape? value).isSome = true)

/-- The shape of the tags that a mapping describes. -/
def tagShape (store : Store) (mapping : Table Value) : Table Shown :=
  ((mapping.get? "tags").bind store.shape?).getD ∅

/-- A mapping that a property can be read from. -/
structure Describes (held : Option Ref) (store : Store) (mapping : Table Value) : Prop where
  getter : ∀ value, mapping.get? "get" = some value → GivesFunction value
  setter : ∀ value, mapping.get? "set" = some value → GivesFunction value
  tags : ∀ value, mapping.get? "tags" = some value → GivesTags held store value

structure Described (store : Store) (mapping : Table Value) (later : Store) (property : Property) :
    Prop where
  getter : property.getter = functionUnder mapping "get"
  setter : property.setter = functionUnder mapping "set"
  tags : Table.Shaped later (tagShape store mapping) property.tags

/-- A value that can be declared as a property under a key. -/
def Acceptable (held : Option Ref) (store : Store) (key : String) (value : Value) : Prop :=
  key ≠ "" ∧ match accessorKey? key with
    | some _ => GivesFunction value
    | none => value = .undefined ∨ (∃ ref, value = .member .property ref) ∨
        ∃ handle ref, value = .map handle ref ∧ Describes held store (store.entries ref)

/-- What is listed of a property that an accessor was given to, or taken from. -/
def listing (ref : Ref) (property : Property) : Option Ref :=
  if property.isEmpty then none else some ref

theorem eq_of_listing {ref other : Ref} {property : Property} (same : listing ref property = some other) :
    other = ref ∧ property.isEmpty = false := by
  unfold listing at same
  split at same
  · cases same
  next full =>
    cases same
    exact ⟨rfl, eq_false_of_ne_true full⟩

/-- What the declaration of a property makes of a store. -/
inductive Declared (store : Store) (table : Ref) (key : String) (later : Store) : Value → Prop where
  /-- A listed property has an accessor changed. -/
  | edited {isSetter : Bool} {name : String} (reads : accessorKey? key = some (isSetter, name))
      (value : Value) {ref : Ref} (found : (store.members table).get? name = some ref) {property : Property}
      (is : property = (store.property ref).withFunction isSetter (functionOf value))
      (written : later.cells[ref]? = some (.property property))
      (relisted : store.Relisted later table name (listing ref property) (some ref)) :
      Declared store table key later value
  /-- A name that is not listed gets a new property. -/
  | begun {isSetter : Bool} {name : String} (reads : accessorKey? key = some (isSetter, name))
      (value : Value) (missing : (store.members table).get? name = none) {property : Property}
      (is : property = Property.withFunction {} isSetter (functionOf value))
      (written : later.cells[store.cells.size]? = some (.property property))
      (relisted : store.Relisted later table name (listing store.cells.size property) none) :
      Declared store table key later value
  | removed (plain : accessorKey? key = none) (relisted : store.Relisted later table key none none) :
      Declared store table key later .undefined
  | object (plain : accessorKey? key = none) (ref : Ref)
      (relisted : store.Relisted later table key (some ref) none) :
      Declared store table key later (.member .property ref)
  /-- A property that a mapping describes is new, and listed unless it has no accessor. -/
  | mapped (plain : accessorKey? key = none) (handle : Handle) (source : Ref) {ref : Ref} {property : Property}
      (described : Described store (store.entries source) later property) (fresh : store.cells.size ≤ ref)
      (written : property.isEmpty = false → later.cells[ref]? = some (.property property))
      (relisted : store.Relisted later table key (listing ref property) none) :
      Declared store table key later (.map handle source)

section Deciding

variable {store : Store} {value : Value} {mapping : Table Value} {held : Option Ref}

theorem decides_methodValue (value : Value) :
    Decides store (methodValue value) (value.isMethodConvertible = true)
      fun later given => later = store ∧ given = value := by
  unfold methodValue
  by_cases serves : value.isMethodConvertible = true
  · rw [if_pos serves]
    exact .pure serves ⟨rfl, rfl⟩
  · rw [if_neg serves]
    exact .get_bind (.throw serves _)

theorem decides_accessor (value : Value) :
    Decides store (accessor value) (GivesFunction value)
      fun later function => later = store ∧ function = functionOf value := by
  by_cases undefined : value = .undefined
  · subst undefined
    exact .pure (.inl rfl) ⟨rfl, rfl⟩
  · have given : functionOf value = some value := by
      cases value <;> first | rfl | exact absurd rfl undefined
    have asked : accessor value = do return some (← methodValue value) := by
      cases value <;> first | rfl | exact absurd rfl undefined
    rw [asked, given]
    have decides : Decides store (do return some (← methodValue value))
        (value.isMethodConvertible = true ∧ True)
        fun later function => later = store ∧ function = some value := by
      refine (decides_methodValue value).bind fun later function known => ?_
      obtain ⟨rfl, rfl⟩ := known
      exact .pure trivial ⟨rfl, rfl⟩
    exact decides.congr (by simp [GivesFunction, undefined])

theorem decides_accessorOf (mapping : Table Value) (key : String) :
    Decides store (accessorOf mapping key)
      (∀ value, mapping.get? key = some value → GivesFunction value)
      fun later function => later = store ∧ function = functionUnder mapping key := by
  unfold accessorOf functionUnder
  cases mapping.get? key with
  | some value => exact (decides_accessor value).congr (by simp)
  | none => exact .pure (by simp) ⟨rfl, rfl⟩

theorem decides_refuseHeld (held : Option Ref) (value : Value) :
    Decides store (refuseHeld held value) (Unheld held store value) fun later _ => later = store := by
  unfold refuseHeld
  split
  next table ref =>
    refine .get_bind ?_
    dsimp only
    split
    next inside => exact .throw (fun unheld => unheld table ref rfl rfl inside) _
    next outside =>
      refine .pure ?_ rfl
      rintro _ _ ⟨⟩ ⟨⟩
      exact outside
  next other => exact .pure (fun table ref is typed => absurd typed (other table ref is)) rfl

theorem tagsFrom_eq (held : Option Ref) (defined : value ≠ .undefined) :
    tagsFrom held value = refuseHeld held value >>= fun _ => mapping? false value >>= fun
      | some tags => return tags
      | none => throw (.conversion "value of \"tags\" isn't convertible to map") := by
  cases value <;> first | rfl | exact absurd rfl defined

theorem decides_tagsFrom (held : Option Ref) (legible : store.Legible value) :
    Decides store (tagsFrom held value) (GivesTags held store value) fun later tags =>
      store.Kept later ∧ Table.Shaped later ((store.shape? value).getD ∅) tags := by
  by_cases undefined : value = .undefined
  · subst undefined
    exact .pure (.inl rfl) ⟨.refl store, shaped_empty store⟩
  · rw [tagsFrom_eq held undefined, GivesTags, or_iff_right undefined]
    refine (decides_refuseHeld held value).bind fun later _ same => ?_
    subst same
    have made := Decides.of_builds (makes_mapping? legible) (.refl later)
    refine (made.bind fun after form known => ?_).congr (iff_of_eq (true_and _))
    obtain ⟨kept, shaped⟩ := known
    cases found : later.shape? value with
    | some shape =>
      rw [found] at shaped
      cases shaped with
      | some shaped => exact .pure rfl ⟨kept, shaped⟩
    | none =>
      rw [found] at shaped
      cases shaped
      exact .throw (by simp) _

theorem decides_tagsOf (held : Option Ref) (legible : ∀ value, mapping.get? "tags" = some value →
      store.Legible value) :
    Decides store (tagsOf held mapping)
      (∀ value, mapping.get? "tags" = some value → GivesTags held store value) fun later tags =>
        store.Kept later ∧ Table.Shaped later (tagShape store mapping) tags := by
  unfold tagsOf tagShape
  cases found : mapping.get? "tags" with
  | some value => exact (decides_tagsFrom held (legible value found)).congr (by simp)
  | none => exact .pure (by simp) ⟨.refl store, shaped_empty store⟩

theorem decides_propertyFrom (held : Option Ref) (legible : ∀ value, mapping.get? "tags" = some value →
      store.Legible value) :
    Decides store (propertyFrom held mapping) (Describes held store mapping)
      fun later property => store.Kept later ∧ Described store mapping later property := by
  rw [propertyFrom_eq]
  have decides : Decides store (do
      let getter ← accessorOf mapping "get"
      let setter ← accessorOf mapping "set"
      let tags ← tagsOf held mapping
      return { getter, setter, tags }) ((∀ value, mapping.get? "get" = some value → GivesFunction value) ∧
        (∀ value, mapping.get? "set" = some value → GivesFunction value) ∧
        (∀ value, mapping.get? "tags" = some value → GivesTags held store value) ∧ True)
      fun later property => store.Kept later ∧ Described store mapping later property := by
    refine (decides_accessorOf mapping "get").bind fun later getter known => ?_
    obtain ⟨rfl, rfl⟩ := known
    refine (decides_accessorOf mapping "set").bind fun after setter known => ?_
    obtain ⟨rfl, rfl⟩ := known
    refine (decides_tagsOf held legible).bind fun last tags known => ?_
    exact .pure trivial ⟨known.1, rfl, rfl, known.2⟩
  exact decides.congr ⟨fun all => ⟨all.1, all.2.1, all.2.2.1⟩,
    fun describes => ⟨describes.getter, describes.setter, describes.tags, trivial⟩⟩

/-- A table lists a property that was changed, unless the property has lost its last accessor. -/
theorem relisted_listing {written : Store} {table ref : Ref} {name : String} {property : Property}
    {changed : Option Ref} (relisted : store.Relisted written table name (some ref) changed)
    (there : written.cells[ref]? = some (.property property)) :
    let later := if property.isEmpty then written.changeMembers table (·.erase name) else written
    store.Relisted later table name (listing ref property) changed ∧
      later.cells[ref]? = some (.property property) := by
  intro later
  unfold later listing
  split
  · exact ⟨relisted.erase, Furnished.getElem?_changeMembers_property.mpr there⟩
  · exact ⟨relisted, there⟩

/-- The accessor that is given under a key that names one. -/
theorem decides_accessorDeclaration (held : Option Ref) {table : Ref} (known : store.PropertyTable table)
    {key name : String} {isSetter : Bool} (reads : accessorKey? key = some (isSetter, name)) (value : Value) :
    Decides store (do applyUpdate table (← propertyUpdate held key value)) (GivesFunction value)
      fun later _ => Declared store table key later value := by
  have decides : Decides store (accessor value >>= fun function =>
      applyUpdate table (.accessor name isSetter function)) (GivesFunction value ∧ True)
      fun later _ => Declared store table key later value := by
    refine (decides_accessor value).bind fun later function same => ?_
    obtain ⟨rfl, rfl⟩ := same
    cases found : (later.members table).get? name with
    | some ref =>
      refine .of_run (run_accessorUpdate isSetter (functionOf value) found) trivial ?_
      obtain ⟨property, cell⟩ := known.listed name ref found
      have old := (Kept.refl later).relisted known.cell name (some ref)
      rw [found] at old
      obtain ⟨relisted, written⟩ := relisted_listing (old.overwrite (known.apart cell) _ fun _ _ => rfl)
        (edits_overwrite cell (.property property _) trivial).2
      exact .edited reads value found rfl written relisted
    | none =>
      refine .of_run (run_accessorUpdate_new isSetter (functionOf value) found) trivial ?_
      obtain ⟨members, cell⟩ := known.cell
      have outside : later.cells.size ≠ table := (Nat.ne_of_lt (lt_of_getElem?_eq_some cell)).symm
      have new := ((Kept.push later (.property {})).relisted known.cell name none).insert
        later.cells.size
      obtain ⟨relisted, written⟩ := relisted_listing (new.overwrite outside _ fun old there =>
        absurd (lt_of_getElem?_eq_some there) (Nat.lt_irrefl _)) Furnished.edits_added.2
      exact .begun reads value found rfl written relisted
  simp only [propertyUpdate, reads, bind_assoc, pure_bind]
  exact decides.congr (iff_of_eq (and_true _))

/-- A mapping under a plain key takes the property's place, or removes it if it has no accessor. -/
theorem decides_mappingDeclaration (held : Option Ref) {table : Ref} (known : store.PropertyTable table)
    {key : String} (plain : accessorKey? key = none) (handle : Handle) (source : Ref)
    (legible : ∀ tags, (store.entries source).get? "tags" = some tags → store.Legible tags) :
    Decides store (do applyUpdate table (← propertyUpdate held key (.map handle source)))
      (Describes held store (store.entries source))
      fun later _ => Declared store table key later (.map handle source) := by
  have decides : Decides store (propertyFrom held (store.entries source) >>= fun property =>
      if property.isEmpty then applyUpdate table (.replace key none)
      else alloc (.property property) >>= fun made => applyUpdate table (.replace key (some made)))
      (Describes held store (store.entries source) ∧ True)
      fun later _ => Declared store table key later (.map handle source) := by
    refine (decides_propertyFrom held legible).bind fun middle property made => ?_
    obtain ⟨kept, described⟩ := made
    have lasting {later : Store} {listed : Option Ref}
        (relisted : middle.Relisted later table key listed none) :
        Described store (store.entries source) later property :=
      ⟨described.getter, described.setter,
        described.tags.mono (relisted.maps (known.lasting kept) fun _ same => by cases same)⟩
    split
    next empty =>
      have erased := (kept.relisted known.cell key none).erase
      have still := ((Kept.refl middle).relisted (known.lasting kept).cell key none).erase
      refine .of_run rfl trivial (.mapped plain handle source (lasting still) (Nat.le_refl _) ?_ ?_)
      · exact fun full => by cases empty.symm.trans full
      · rw [listing, if_pos empty]
        exact erased
    next full =>
      have pushed := Kept.push middle (.property property)
      have inserted := ((kept.trans pushed).relisted known.cell key none).insert middle.cells.size
      have still := (pushed.relisted (known.lasting kept).cell key none).insert middle.cells.size
      refine .of_run rfl trivial (.mapped plain handle source (lasting still) kept.size_le (fun _ => ?_) ?_)
      · exact Furnished.getElem?_changeMembers_property.mpr Array.getElem?_push_size
      · rw [listing, if_neg full]
        exact inserted
  have asked : (do applyUpdate table (← propertyUpdate held key (.map handle source)) : StoreM Unit) =
      get >>= fun store => propertyFrom held (store.entries source) >>= fun property =>
        if property.isEmpty then applyUpdate table (.replace key none)
        else alloc (.property property) >>= fun made => applyUpdate table (.replace key (some made)) := by
    simp only [propertyUpdate, plain, bind_assoc]
    congr 1
    funext store
    congr 1
    funext property
    split <;> simp
  rw [asked]
  exact (decides.congr (iff_of_eq (and_true _))).get_bind

/-- A declaration succeeds exactly if its value is acceptable. -/
theorem decides_declare (held : Option Ref) {table : Ref} (known : store.PropertyTable table) (key : String)
    (legible : ∀ handle ref, value = .map handle ref → ∀ tags, (store.entries ref).get? "tags" = some tags →
      store.Legible tags) :
    Decides store (declare held .property table key value) (Acceptable held store key value)
      fun later _ => Declared store table key later value := by
  by_cases empty : key = ""
  · subst empty
    exact .throw (fun accepted => accepted.1 rfl) _
  have asked : declare held .property table key value =
      (do applyUpdate table (← propertyUpdate held key value)) := by
    simp [declare, empty]
  have here := (Kept.refl store).relisted known.cell key none
  rw [asked]
  unfold Acceptable
  cases reads : accessorKey? key with
  | some named => exact (decides_accessorDeclaration held known reads value).congr (by simp [empty])
  | none =>
    cases value with
    | undefined =>
      rw [show propertyUpdate held key .undefined = return .replace key none by simp [propertyUpdate, reads]]
      exact .of_run rfl (by simp [empty]) (.removed reads here.erase)
    | map handle ref =>
      exact (decides_mappingDeclaration held known reads handle ref (legible handle ref rfl)).congr
        (by simp [empty])
    | member kind ref =>
      cases kind with
      | property =>
        rw [show propertyUpdate held key (.member .property ref) = return .replace key (some ref) by
          simp [propertyUpdate, reads]]
        exact .of_run rfl (by simp [empty]) (.object reads ref (here.insert ref))
      | _ =>
        simp only [propertyUpdate, reads, bind_assoc]
        exact .get_bind (.throw (by simp) _)
    | _ =>
      simp only [propertyUpdate, reads, bind_assoc]
      exact .get_bind (.throw (by simp) _)

end Deciding

end StoreM

end ScriptMachine
