import ScriptMachine.Proofs.PropertyLoads

/-! The order in which a table of properties is loaded. What the loaded table lists can be told from the
mapping alone, unless some of its entries are about the same property. -/

namespace ScriptMachine

open StoreM

/-- Tables that have every entry of a smaller one. -/
def Table.Within {α : Type} (small large : Table α) : Prop :=
  ∀ key value, small.get? key = some value → large.get? key = some value

namespace Table

variable (mapping : Table Value)

/-- The value under a key that is the name of a property. -/
def plain? (name : String) : Option Value :=
  if (accessorKey? name).isSome then none else mapping.get? name

def given? (isSetter : Bool) (name : String) : Option Value :=
  if name = "" then none else mapping.get? (accessorKeyOf isSetter name)

def edits (name : String) : Bool := (mapping.given? false name).isSome || (mapping.given? true name).isSome

end Table

/-- The name of the property that a key is about. -/
def subject (key : String) : String :=
  match accessorKey? key with
  | some (_, name) => name
  | none => key

def Property.function (property : Property) (isSetter : Bool) : Option Value :=
  if isSetter then property.setter else property.getter

/-- A property with the accessors that a mapping has for it. -/
def Property.editedBy (property : Property) (mapping : Table Value) (name : String) : Property :=
  { property with
    getter := ((mapping.given? false name).map functionOf).getD property.getter
    setter := ((mapping.given? true name).map functionOf).getD property.setter }

section Entries

variable {mapping large : Table Value} {name other key : String} {value : Value} {isSetter : Bool}
  {property : Property}

theorem Table.Within.plain? (within : mapping.Within large) (found : mapping.plain? name = some value) :
    large.plain? name = some value := by
  unfold Table.plain? at found ⊢
  split at found
  · cases found
  next plain =>
    rw [if_neg plain]
    exact within name value found

theorem Table.Within.plain?_eq_none (within : mapping.Within large) (absent : large.plain? name = none) :
    mapping.plain? name = none := by
  cases found : mapping.plain? name with
  | none => rfl
  | some value => cases absent.symm.trans (within.plain? found)

theorem Table.Within.given? (within : mapping.Within large) (found : mapping.given? isSetter name = some value) :
    large.given? isSetter name = some value := by
  unfold Table.given? at found ⊢
  split at found
  · cases found
  next named =>
    rw [if_neg named]
    exact within _ value found

theorem Table.edits_iff : mapping.edits name = true ↔ ∃ isSetter value, mapping.given? isSetter name = some value := by
  simp only [edits, Bool.or_eq_true, Option.isSome_iff_exists, Bool.exists_bool]

theorem Table.Within.edits (within : mapping.Within large) (edits : mapping.edits name = true) :
    large.edits name = true := by
  rw [Table.edits_iff] at edits ⊢
  obtain ⟨isSetter, value, found⟩ := edits
  exact ⟨isSetter, value, within.given? found⟩

theorem subject_of_reads (reads : accessorKey? key = some (isSetter, name)) : subject key = name := by
  rw [subject, reads]

theorem subject_of_plain (plain : accessorKey? key = none) : subject key = key := by
  rw [subject, plain]

theorem Table.plain?_insert_of_ne (apart : other ≠ subject key) :
    (mapping.insert key value).plain? other = mapping.plain? other := by
  unfold Table.plain?
  split
  · rfl
  next plain =>
    rw [get?_insert, if_neg]
    rintro rfl
    exact apart (subject_of_plain (Option.not_isSome_iff_eq_none.mp plain)).symm

theorem Table.given?_insert_of_ne (apart : other ≠ subject key) :
    (mapping.insert key value).given? isSetter other = mapping.given? isSetter other := by
  unfold Table.given?
  split
  · rfl
  next named =>
    rw [get?_insert, if_neg]
    intro same
    exact apart (subject_of_reads (accessorKey?_eq_some_iff.mpr ⟨same, named⟩)).symm

theorem Table.edits_insert_of_ne (apart : other ≠ subject key) :
    (mapping.insert key value).edits other = mapping.edits other := by
  rw [edits, edits, given?_insert_of_ne apart, given?_insert_of_ne apart]

theorem Property.editedBy_insert_of_ne (property : Property) (apart : other ≠ subject key) :
    property.editedBy (mapping.insert key value) other = property.editedBy mapping other := by
  rw [editedBy, editedBy, Table.given?_insert_of_ne apart, Table.given?_insert_of_ne apart]

theorem Table.plain?_insert (plain : accessorKey? key = none) :
    (mapping.insert key value).plain? key = some value := by
  rw [plain?, plain, get?_insert, if_pos rfl]
  rfl

theorem Table.given?_insert (reads : accessorKey? key = some (isSetter, name)) (other : Bool) :
    (mapping.insert key value).given? other name =
      if other = isSetter then some value else mapping.given? other name := by
  obtain ⟨rfl, named⟩ := accessorKey?_eq_some_iff.mp reads
  rw [given?, given?, if_neg named, if_neg named, get?_insert]
  by_cases same : other = isSetter
  · subst same
    rw [if_pos rfl, if_pos rfl]
  · rw [if_neg same, if_neg fun keys => same (accessorKeyOf_injective keys).1.symm]

theorem Table.edits_insert (reads : accessorKey? key = some (isSetter, name)) :
    (mapping.insert key value).edits name = true :=
  edits_iff.mpr ⟨isSetter, value, by rw [given?_insert reads, if_pos rfl]⟩

theorem Property.editedBy_insert (property : Property) (reads : accessorKey? key = some (isSetter, name)) :
    property.editedBy (mapping.insert key value) name =
      (property.editedBy mapping name).withFunction isSetter (functionOf value) := by
  rw [editedBy, Table.given?_insert reads, Table.given?_insert reads]
  cases isSetter <;> rfl

theorem Table.given?_of_missing (reads : accessorKey? key = some (isSetter, name))
    (missing : mapping.get? key = none) : mapping.given? isSetter name = none := by
  obtain ⟨rfl, named⟩ := accessorKey?_eq_some_iff.mp reads
  rw [given?, if_neg named, missing]

theorem Table.within_insert (missing : mapping.get? key = none) :
    mapping.Within (mapping.insert key value) := by
  intro other held found
  rw [get?_insert, if_neg, found]
  rintro rfl
  cases missing.symm.trans found

theorem Property.function_editedBy (property : Property) (mapping : Table Value) (name : String)
    (isSetter : Bool) : (property.editedBy mapping name).function isSetter =
      ((mapping.given? isSetter name).map functionOf).getD (property.function isSetter) := by
  cases isSetter <;> rfl

theorem Property.function_of_isEmpty (empty : property.isEmpty = true) (isSetter : Bool) :
    property.function isSetter = none := by
  simp only [Property.isEmpty, Bool.and_eq_true, Option.isNone_iff_eq_none] at empty
  cases isSetter with
  | false => exact empty.1
  | true => exact empty.2

theorem Property.withFunction_function (property : Property) (isSetter : Bool) :
    property.withFunction isSetter (property.function isSetter) = property := by
  cases isSetter <;> rfl

theorem Property.editedBy_of_not_edits (property : Property) (unedited : mapping.edits name = false) :
    property.editedBy mapping name = property := by
  simp only [Table.edits, Bool.or_eq_false_iff, Option.isSome_eq_false_iff, Option.isNone_iff_eq_none] at unedited
  rw [editedBy, unedited.1, unedited.2]
  rfl

end Entries

/-- What a loaded table has under a name: nothing, a property of before, or a new one. -/
inductive Slot where
  | absent
  | object (ref : Ref)
  | new (getter setter : Option Value) (tags : Table Shown)

/-- A new property is listed if it has an accessor. -/
def Slot.ofNew (getter setter : Option Value) (tags : Table Shown) : Slot :=
  if getter.isNone && setter.isNone then .absent else .new getter setter tags

namespace Store

variable (base : Store) (table : Ref) (mapping : Table Value)

/-- What is expected under a name when a mapping has been loaded, in whatever order. -/
def slot (name : String) : Slot :=
  match mapping.plain? name with
  | some (.member .property ref) => .object ref
  | some (.map _ source) =>
    .ofNew (functionUnder (base.entries source) "get") (functionUnder (base.entries source) "set")
      (tagShape base (base.entries source))
  | some _ => .absent
  | none =>
    match (base.members table).get? name with
    | some ref =>
      if mapping.edits name && ((base.property ref).editedBy mapping name).isEmpty then .absent else .object ref
    | none =>
      let property := Property.editedBy {} mapping name
      .ofNew property.getter property.setter ∅

/-- A mapping no two entries of which are at odds. -/
structure Unambiguous : Prop where
  /-- A name does not have both a key of its own and one for an accessor. -/
  apart : ∀ name value, mapping.plain? name = some value → mapping.edits name = false
  /-- Names with keys for accessors do not list the same property. -/
  alone : ∀ name other ref, (base.members table).get? name = some ref →
    (base.members table).get? other = some ref → mapping.edits name = true → mapping.edits other = true →
      name = other
  /-- A listed property that has one accessor taken away and the other set has had that one before. -/
  keeps : ∀ name ref isSetter value, (base.members table).get? name = some ref →
    mapping.given? (!isSetter) name = some .undefined → mapping.given? isSetter name = some value →
      value ≠ .undefined → ((base.property ref).function isSetter).isSome = true
  /-- Tags are read neither from the table nor from a property whose accessors change. -/
  steady : ∀ name handle source tags, mapping.plain? name = some (.map handle source) →
    (base.entries source).get? "tags" = some tags → ∀ shown ref, base.Shows tags shown →
      base.Occupies shown ref → ref ≠ table ∧
        ∀ label, (base.members table).get? label = some ref → mapping.edits label = false

variable {base table mapping}

theorem Unambiguous.within {small : Table Value} (unambiguous : base.Unambiguous table mapping)
    (within : small.Within mapping) : base.Unambiguous table small := by
  have unedited {name : String} (still : mapping.edits name = false) : small.edits name = false :=
    Bool.eq_false_iff.mpr fun edits => Bool.eq_false_iff.mp still (within.edits edits)
  refine ⟨fun name value found => ?_, fun name other ref listed also edits others => ?_,
    fun name ref isSetter value listed undefined found => ?_, fun name handle source tags found has shown ref looked there => ?_⟩
  · exact unedited (unambiguous.apart name value (within.plain? found))
  · exact unambiguous.alone name other ref listed also (within.edits edits) (within.edits others)
  · exact unambiguous.keeps name ref isSetter value listed (within.given? undefined) (within.given? found)
  · obtain ⟨apart, still⟩ := unambiguous.steady name handle source tags (within.plain? found) has shown ref looked there
    exact ⟨apart, fun label listed => unedited (still label listed)⟩

end Store

/-- What is listed stands for what is expected. -/
inductive Slot.Stands (base store : Store) : Slot → Option Ref → Prop where
  | absent : Stands base store .absent none
  | object {ref : Ref} {property : Property} (found : base.cells[ref]? = some (.property property)) :
      Stands base store (.object ref) (some ref)
  | new {ref : Ref} {property : Property} {tags : Table Shown} (fresh : base.cells.size ≤ ref)
      (found : store.cells[ref]? = some (.property property)) (shaped : Table.Shaped store tags property.tags) :
      Stands base store (.new property.getter property.setter tags) (some ref)

theorem Slot.stands_ofNew {base store : Store} {ref : Ref} {property : Property} {tags : Table Shown}
    (fresh : base.cells.size ≤ ref)
    (found : property.isEmpty = false → store.cells[ref]? = some (.property property))
    (shaped : Table.Shaped store tags property.tags) :
    (Slot.ofNew property.getter property.setter tags).Stands base store (listing ref property) := by
  unfold ofNew listing
  change Stands base store (if property.isEmpty then _ else _) _
  split
  · exact .absent
  next full => exact .new fresh (found (eq_false_of_ne_true full)) shaped

namespace Slot

variable {base store : Store} {getter setter : Option Value} {tags : Table Shown} {ref : Ref}

theorem Stands.made {listed : Option Ref} (stands : (Slot.new getter setter tags).Stands base store listed) :
    ∃ ref property, listed = some ref ∧ base.cells.size ≤ ref ∧
      store.cells[ref]? = some (.property property) ∧ property.getter = getter ∧ property.setter = setter ∧
        Table.Shaped store tags property.tags := by
  cases stands with
  | new fresh found shaped => exact ⟨_, _, rfl, fresh, found, rfl, rfl, shaped⟩

theorem of_stands_some (stands : (ofNew getter setter tags).Stands base store (some ref)) :
    ∃ property, base.cells.size ≤ ref ∧ store.cells[ref]? = some (.property property) ∧
      property.getter = getter ∧ property.setter = setter ∧ Table.Shaped store tags property.tags := by
  unfold ofNew at stands
  split at stands
  · cases stands
  · obtain ⟨_, property, is, found⟩ := stands.made
    cases is
    exact ⟨property, found⟩

theorem of_stands_none (stands : (ofNew getter setter tags).Stands base store none) :
    getter = none ∧ setter = none := by
  unfold ofNew at stands
  split at stands
  next empty => simpa using empty
  next => cases stands

end Slot

/-- A store in which the entries of a mapping have been declared in a table. -/
structure Store.Loaded (base : Store) (table : Ref) (mapping : Table Value) (store : Store) : Prop where
  around : base.Around store table
  slots : ∀ name, (base.slot table mapping name).Stands base store ((store.members table).get? name)
  edited : ∀ name ref, (base.members table).get? name = some ref → mapping.edits name = true →
    store.cells[ref]? = some (.property ((base.property ref).editedBy mapping name))
  others : ∀ (ref : Ref) (cell : Cell), base.cells[ref]? = some cell → ref ≠ table →
    (∀ name, (base.members table).get? name = some ref → mapping.edits name = false) →
      store.cells[ref]? = some cell
  own : ∀ name other ref, (store.members table).get? name = some ref →
    (store.members table).get? other = some ref → base.cells.size ≤ ref → name = other

section Declaring

variable {base store later : Store} {table : Ref} {mapping : Table Value} {key : String} {value : Value}
  {listed changed : Option Ref}

theorem Store.slot_insert_of_ne {other : String} (apart : other ≠ subject key) :
    base.slot table (mapping.insert key value) other = base.slot table mapping other := by
  simp only [slot, Table.plain?_insert_of_ne apart, Table.edits_insert_of_ne apart,
    Property.editedBy_insert_of_ne _ apart]

namespace Store.Loaded

/-- A declaration leaves other names as they are if it changes no other property than the one its key is
about. -/
theorem insert (loaded : base.Loaded table mapping store)
    (within : mapping.Within (mapping.insert key value))
    (unambiguous : base.Unambiguous table (mapping.insert key value)) (around : base.Around later table)
    (relisted : store.Relisted later table (subject key) listed changed)
    (whose : ∀ ref, changed = some ref → (store.members table).get? (subject key) = some ref ∧
      (base.cells.size ≤ ref ∨ (base.members table).get? (subject key) = some ref ∧
        (mapping.insert key value).edits (subject key) = true))
    (slot : (base.slot table (mapping.insert key value) (subject key)).Stands base later listed)
    (fresh : ∀ ref, listed = some ref → base.cells.size ≤ ref →
      (store.members table).get? (subject key) = some ref ∨ store.cells.size ≤ ref)
    (edited : ∀ ref, (base.members table).get? (subject key) = some ref →
      (mapping.insert key value).edits (subject key) = true →
        later.cells[ref]? = some (.property
          ((base.property ref).editedBy (mapping.insert key value) (subject key)))) :
    base.Loaded table (mapping.insert key value) later := by
  have maps : store.KeptMaps later := relisted.maps loaded.around.known fun ref same =>
    loaded.around.known.listed _ ref (whose ref same).1
  have inside {ref : Ref} {name : String} (there : (store.members table).get? name = some ref) :
      ref < store.cells.size := by
    obtain ⟨property, found⟩ := loaded.around.known.listed name ref there
    exact lt_of_getElem?_eq_some found
  refine ⟨around, fun name => ?_, fun name ref held edits => ?_, fun ref cell found apart unedited => ?_,
    fun name other ref there also new => ?_⟩
  · by_cases same : name = subject key
    · subst same
      rw [relisted.own]
      exact slot
    · rw [slot_insert_of_ne same, relisted.others name same]
      have before := loaded.slots name
      generalize place : (store.members table).get? name = held at before
      generalize base.slot table mapping name = expected at before
      cases before with
      | absent => exact .absent
      | object found => exact .object found
      | @new ref property tags above found shaped =>
        refine .new above (relisted.kept ref _ found (loaded.around.known.apart found) fun is => ?_)
          (shaped.mono maps)
        exact same (loaded.own name _ ref place (whose ref is).1 above)
  · by_cases same : name = subject key
    · subst same
      exact edited ref held edits
    · have before : mapping.edits name = true := by rwa [Table.edits_insert_of_ne same] at edits
      have found := loaded.edited name ref held before
      rw [Property.editedBy_insert_of_ne _ same]
      refine relisted.kept ref _ found (loaded.around.known.apart found) fun is => ?_
      obtain ⟨property, cell⟩ := loaded.around.origin.listed name ref held
      rcases (whose ref is).2 with above | ⟨also, edited⟩
      · exact Nat.lt_irrefl _ (Nat.lt_of_lt_of_le (lt_of_getElem?_eq_some cell) above)
      · exact same (unambiguous.alone name _ ref held also edits edited)
  · refine relisted.kept ref cell (loaded.others ref cell found apart fun name held => ?_) apart fun is => ?_
    · exact Bool.eq_false_iff.mpr fun edits =>
        Bool.eq_false_iff.mp (unedited name held) (within.edits edits)
    · rcases (whose ref is).2 with above | ⟨held, edited⟩
      · exact Nat.lt_irrefl _ (Nat.lt_of_lt_of_le (lt_of_getElem?_eq_some found) above)
      · exact Bool.eq_false_iff.mp (unedited _ held) edited
  · have alone {name : String} (apart : name ≠ subject key) (there : (store.members table).get? name = some ref)
        (is : listed = some ref) : False := by
      rcases fresh ref is new with old | above
      · exact apart (loaded.own name _ ref there old new)
      · exact Nat.lt_irrefl _ (Nat.lt_of_lt_of_le (inside there) above)
    by_cases first : name = subject key
    · by_cases second : other = subject key
      · rw [first, second]
      · rw [first, relisted.own] at there
        rw [relisted.others other second] at also
        exact (alone second also there).elim
    · rw [relisted.others name first] at there
      by_cases second : other = subject key
      · rw [second, relisted.own] at also
        exact (alone first there also).elim
      · rw [relisted.others other second] at also
        exact loaded.own name other ref there also new

/-- The tags of a new property are the same whenever they are read. -/
theorem tagShape_eq {large : Table Value} (loaded : base.Loaded table mapping store)
    (within : mapping.Within large) (unambiguous : base.Unambiguous table large) {name : String}
    {handle : Handle} {source : Ref} (found : large.plain? name = some (.map handle source))
    (firm : base.Firm (.map handle source)) :
    tagShape store (base.entries source) = tagShape base (base.entries source) := by
  unfold tagShape
  cases has : (base.entries source).get? "tags" with
  | none => rfl
  | some tags =>
    have legible := legible_tags firm has
    have same : base.LooksSame store tags := by
      refine ⟨fun shown looked ref there => ?_, fun ref is => ?_⟩
      · obtain ⟨apart, unedited⟩ := unambiguous.steady name handle source tags found has shown ref looked there
        have inside := Array.getElem?_eq_getElem ((legible.shown shown looked).lt there)
        rw [inside, loaded.others ref _ inside apart fun label listed => ?_]
        exact Bool.eq_false_iff.mpr fun edits =>
          Bool.eq_false_iff.mp (unedited label listed) (within.edits edits)
      · subst is
        exact loaded.around.type_cell legible
    simp only [Option.bind_some, shape?_eq same]

section Accessors

variable {isSetter : Bool} {name : String} {ref : Ref} {property : Property}

theorem plain?_of_edits (unambiguous : base.Unambiguous table mapping) (edits : mapping.edits name = true) :
    mapping.plain? name = none := by
  cases found : mapping.plain? name with
  | none => rfl
  | some value => cases edits.symm.trans (unambiguous.apart name value found)

theorem slot_listed (plain : mapping.plain? name = none) (held : (base.members table).get? name = some ref) :
    base.slot table mapping name =
      if mapping.edits name && ((base.property ref).editedBy mapping name).isEmpty then .absent
      else .object ref := by
  rw [Store.slot, plain]
  dsimp only
  rw [held]

theorem slot_unlisted (plain : mapping.plain? name = none) (missing : (base.members table).get? name = none) :
    base.slot table mapping name = .ofNew (Property.editedBy {} mapping name).getter
      (Property.editedBy {} mapping name).setter ∅ := by
  rw [Store.slot, plain]
  dsimp only
  rw [missing]

/-- A property of before that one name has keys for has the accessors of that name. -/
theorem current {large : Table Value} (loaded : base.Loaded table mapping store)
    (within : mapping.Within large) (unambiguous : base.Unambiguous table large)
    (held : (base.members table).get? name = some ref) (edits : large.edits name = true) :
    store.cells[ref]? = some (.property ((base.property ref).editedBy mapping name)) := by
  cases before : mapping.edits name with
  | true => exact loaded.edited name ref held before
  | false =>
    obtain ⟨property, found⟩ := loaded.around.origin.listed name ref held
    have view : base.property ref = property := Store.property_eq found
    rw [Property.editedBy_of_not_edits _ before, view]
    refine loaded.others ref _ found (loaded.around.origin.apart found) fun label also => ?_
    refine Bool.eq_false_iff.mpr fun changed => ?_
    obtain rfl := unambiguous.alone label name ref also held (within.edits changed) edits
    cases before.symm.trans changed

variable (missing : mapping.get? key = none) (unambiguous : base.Unambiguous table (mapping.insert key value))
  (reads : accessorKey? key = some (isSetter, subject key))

include missing unambiguous reads

/-- A property that has lost its last accessor meanwhile is not given another. -/
theorem functionOf_eq_none {old : Ref} (held : (base.members table).get? (subject key) = some old)
    (edits : mapping.edits (subject key) = true)
    (empty : ((base.property old).editedBy mapping (subject key)).isEmpty = true) :
    functionOf value = none := by
  have unset := Table.given?_of_missing reads missing
  obtain ⟨side, other, given⟩ := Table.edits_iff.mp edits
  obtain rfl : side = !isSetter := by
    refine Bool.eq_not_of_ne ?_
    rintro rfl
    cases unset.symm.trans given
  have taken : other = .undefined := by
    have nothing := Property.function_of_isEmpty empty (!isSetter)
    rw [Property.function_editedBy, given] at nothing
    cases other <;> first | rfl | cases nothing
  by_contra something
  have defined : value ≠ .undefined := by
    rintro rfl
    exact something rfl
  have old := unambiguous.keeps _ old isSetter value held
    ((Table.within_insert missing).given? (taken ▸ given)) (by rw [Table.given?_insert reads, if_pos rfl]) defined
  have nothing := Property.function_of_isEmpty empty isSetter
  rw [Property.function_editedBy, unset] at nothing
  rw [show (base.property _).function isSetter = none from nothing] at old
  cases old

variable (loaded : base.Loaded table mapping store) (around : base.Around later table)

include loaded around

/-- An accessor of a property that the table has listed from the beginning. -/
theorem edit_old {old : Ref} (held : (base.members table).get? (subject key) = some old)
    (found : (store.members table).get? (subject key) = some ref)
    (is : property = (store.property ref).withFunction isSetter (functionOf value))
    (written : later.cells[ref]? = some (.property property))
    (relisted : store.Relisted later table (subject key) (listing ref property) (some ref)) :
    base.Loaded table (mapping.insert key value) later := by
  have within : mapping.Within (mapping.insert key value) := Table.within_insert missing
  have edits : (mapping.insert key value).edits (subject key) = true := Table.edits_insert reads
  have plain := plain?_of_edits unambiguous edits
  obtain rfl : ref = old := by
    have stands := loaded.slots (subject key)
    rw [slot_listed (within.plain?_eq_none plain) held, found] at stands
    split at stands
    · cases stands
    · cases stands
      rfl
  have view : store.property ref = (base.property ref).editedBy mapping (subject key) := by
    simp only [Store.property, loaded.current within unambiguous held edits]
  rw [view, ← Property.editedBy_insert _ reads] at is
  subst is
  refine loaded.insert within unambiguous around relisted (fun other same => ?_) ?_ (fun other same _ => ?_)
    fun other also _ => ?_
  · cases same
    exact ⟨found, .inr ⟨held, edits⟩⟩
  · rw [slot_listed plain held, edits, Bool.true_and, listing]
    split
    · exact .absent
    · obtain ⟨property, cell⟩ := loaded.around.origin.listed _ ref held
      exact .object cell
  · obtain ⟨rfl, -⟩ := eq_of_listing same
    exact .inl found
  · cases held.symm.trans also
    exact written

/-- An accessor of a property that the table got meanwhile. -/
theorem edit_new (unlisted : (base.members table).get? (subject key) = none)
    (found : (store.members table).get? (subject key) = some ref)
    (is : property = (store.property ref).withFunction isSetter (functionOf value))
    (written : later.cells[ref]? = some (.property property))
    (relisted : store.Relisted later table (subject key) (listing ref property) (some ref)) :
    base.Loaded table (mapping.insert key value) later := by
  have within : mapping.Within (mapping.insert key value) := Table.within_insert missing
  have edits : (mapping.insert key value).edits (subject key) = true := Table.edits_insert reads
  have plain := plain?_of_edits unambiguous edits
  have maps : store.KeptMaps later := relisted.maps loaded.around.known fun ref same =>
    loaded.around.known.listed _ ref (by rwa [← same])
  have stands := loaded.slots (subject key)
  rw [slot_unlisted (within.plain?_eq_none plain) unlisted, found] at stands
  obtain ⟨old, fresh, cell, getter, setter, shaped⟩ := Slot.of_stands_some stands
  have view : store.property ref = old := Store.property_eq cell
  have same : (Property.editedBy {} (mapping.insert key value) (subject key)).getter = property.getter ∧
      (Property.editedBy {} (mapping.insert key value) (subject key)).setter = property.setter := by
    rw [Property.editedBy_insert _ reads, is, view]
    cases isSetter with
    | false => exact ⟨rfl, setter.symm⟩
    | true => exact ⟨getter.symm, rfl⟩
  have tags : property.tags = old.tags := by
    rw [is, view]
    cases isSetter <;> rfl
  refine loaded.insert within unambiguous around relisted (fun other is => ?_) ?_ (fun other is _ => ?_)
    fun other also _ => ?_
  · cases is
    exact ⟨found, .inl fresh⟩
  · rw [slot_unlisted plain unlisted, same.1, same.2]
    refine Slot.stands_ofNew fresh (fun _ => written) ?_
    rw [tags]
    exact shaped.mono maps
  · obtain ⟨rfl, -⟩ := eq_of_listing is
    exact .inl found
  · cases unlisted.symm.trans also

/-- An accessor of a property that the table has listed, and that has lost all of them meanwhile. -/
theorem begin_again {old : Ref} (held : (base.members table).get? (subject key) = some old)
    (gone : (store.members table).get? (subject key) = none)
    (is : property = Property.withFunction {} isSetter (functionOf value))
    (relisted : store.Relisted later table (subject key) (listing store.cells.size property) none) :
    base.Loaded table (mapping.insert key value) later := by
  have within : mapping.Within (mapping.insert key value) := Table.within_insert missing
  have edits : (mapping.insert key value).edits (subject key) = true := Table.edits_insert reads
  have plain := plain?_of_edits unambiguous edits
  have cell := loaded.current within unambiguous held edits
  have stands := loaded.slots (subject key)
  rw [slot_listed (within.plain?_eq_none plain) held, gone] at stands
  obtain ⟨before, empty⟩ : mapping.edits (subject key) = true ∧
      ((base.property old).editedBy mapping (subject key)).isEmpty = true := by
    split at stands
    next both => exact Bool.and_eq_true_iff.mp both
    next => cases stands
  have nothing := functionOf_eq_none missing unambiguous reads held before empty
  rw [nothing] at is
  have still : (base.property old).editedBy (mapping.insert key value) (subject key) =
      (base.property old).editedBy mapping (subject key) := by
    rw [Property.editedBy_insert _ reads, nothing, ← Property.function_of_isEmpty empty isSetter,
      Property.withFunction_function]
  have unlisted : listing store.cells.size property = none := by
    rw [is, listing]
    cases isSetter <;> rfl
  rw [unlisted] at relisted
  refine loaded.insert within unambiguous around relisted (fun other is => by cases is) ?_ (fun other is _ => by cases is)
    fun other also _ => ?_
  · rw [slot_listed plain held, edits, still, empty]
    exact .absent
  · cases held.symm.trans also
    rw [still]
    exact relisted.kept old _ cell (loaded.around.known.apart cell) fun is => by cases is

/-- The first accessor of a property that the table has not listed. -/
theorem begin_new (unlisted : (base.members table).get? (subject key) = none)
    (gone : (store.members table).get? (subject key) = none)
    (is : property = Property.withFunction {} isSetter (functionOf value))
    (written : later.cells[store.cells.size]? = some (.property property))
    (relisted : store.Relisted later table (subject key) (listing store.cells.size property) none) :
    base.Loaded table (mapping.insert key value) later := by
  have within : mapping.Within (mapping.insert key value) := Table.within_insert missing
  have edits : (mapping.insert key value).edits (subject key) = true := Table.edits_insert reads
  have plain := plain?_of_edits unambiguous edits
  have stands := loaded.slots (subject key)
  rw [slot_unlisted (within.plain?_eq_none plain) unlisted, gone] at stands
  obtain ⟨getter, setter⟩ := Slot.of_stands_none stands
  have blank : Property.editedBy {} mapping (subject key) = {} := by
    change ({ getter := (Property.editedBy {} mapping (subject key)).getter
              setter := (Property.editedBy {} mapping (subject key)).setter } : Property) = {}
    rw [getter, setter]
  have same : property = Property.editedBy {} (mapping.insert key value) (subject key) := by
    rw [is, Property.editedBy_insert _ reads, blank]
  refine loaded.insert within unambiguous around relisted (fun other is => by cases is) ?_ (fun other is _ => ?_)
    fun other also _ => by cases unlisted.symm.trans also
  · rw [slot_unlisted plain unlisted, ← same]
    have tags : property.tags = ∅ := by
      rw [same]
      rfl
    refine Slot.stands_ofNew loaded.around.size_le (fun _ => written) ?_
    rw [tags]
    exact shaped_empty later
  · obtain ⟨rfl, -⟩ := eq_of_listing is
    exact .inr (Nat.le_refl _)

end Accessors

/-- Each declaration brings the table to what is expected of one entry more. An accessor edits what its
name lists by now, which may be a property of before or a new one. -/
theorem declared (loaded : base.Loaded table mapping store) (missing : mapping.get? key = none)
    (unambiguous : base.Unambiguous table (mapping.insert key value)) (firm : base.Firm value)
    (declared : Declared store table key later value) :
    base.Loaded table (mapping.insert key value) later := by
  have within : mapping.Within (mapping.insert key value) := Table.within_insert missing
  have around := declared.around loaded.around firm
  have plainly {listed : Option Ref} (plain : accessorKey? key = none)
      (relisted : store.Relisted later table key listed none)
      (slot : (base.slot table (mapping.insert key value) key).Stands base later listed)
      (fresh : ∀ ref, listed = some ref → base.cells.size ≤ ref → store.cells.size ≤ ref) :
      base.Loaded table (mapping.insert key value) later := by
    have own := subject_of_plain plain
    refine loaded.insert within unambiguous around (by rwa [own]) (fun _ is => by cases is) (by rwa [own])
      (fun ref is above => .inr (fresh ref is above)) fun ref _ edits => ?_
    rw [own] at edits
    cases edits.symm.trans (unambiguous.apart key value (Table.plain?_insert plain))
  cases declared with
  | edited reads value found is written relisted =>
    obtain rfl := subject_of_reads reads
    cases held : (base.members table).get? (subject key) with
    | some old => exact edit_old missing unambiguous reads loaded around held found is written relisted
    | none => exact edit_new missing unambiguous reads loaded around held found is written relisted
  | begun reads value gone is written relisted =>
    obtain rfl := subject_of_reads reads
    cases held : (base.members table).get? (subject key) with
    | some old => exact begin_again missing unambiguous reads loaded around held gone is relisted
    | none => exact begin_new missing unambiguous reads loaded around held gone is written relisted
  | removed plain relisted =>
    refine plainly plain relisted ?_ fun _ is => by cases is
    rw [Store.slot, Table.plain?_insert plain]
    exact .absent
  | object plain ref relisted =>
    have found := firm.grounded.fits.property_cell
    refine plainly plain relisted ?_ fun other is above => ?_
    · rw [Store.slot, Table.plain?_insert plain]
      exact .object found
    · cases is
      exact absurd above (Nat.not_le_of_lt (lt_of_getElem?_eq_some found))
  | @mapped plain handle source ref property described fresh written relisted =>
    have inserted : (mapping.insert key (.map handle source)).plain? key = some (.map handle source) :=
      Table.plain?_insert plain
    refine plainly plain relisted ?_ fun other is _ => ?_
    · have getter := described.getter
      have setter := described.setter
      have tags := described.tags
      rw [loaded.around.entries_eq firm.grounded.fits] at getter setter tags
      rw [loaded.tagShape_eq within unambiguous inserted firm] at tags
      rw [Store.slot, inserted]
      dsimp only
      rw [← getter, ← setter]
      exact Slot.stands_ofNew (Nat.le_trans loaded.around.size_le fresh) written tags
    · obtain ⟨rfl, -⟩ := eq_of_listing is
      exact fresh

end Store.Loaded

end Declaring

section Orders

variable {base store later : Store} {table : Ref} {mapping : Table Value}

theorem Store.PropertyTable.loaded (known : base.PropertyTable table) : base.Loaded table ∅ base := by
  have blank (name : String) : (∅ : Table Value).get? name = none := Table.get?_empty name
  have plain (name : String) : (∅ : Table Value).plain? name = none := by
    rw [Table.plain?, blank, ite_self]
  have unedited (name : String) : (∅ : Table Value).edits name = false := by
    simp only [Table.edits, Table.given?, blank, ite_self, Option.isSome_none, Bool.or_self]
  refine ⟨known.around, fun name => ?_, fun name ref _ edits => ?_, fun ref cell found _ _ => found,
    fun name other ref there _ above => ?_⟩
  · cases held : (base.members table).get? name with
    | some ref =>
      obtain ⟨property, found⟩ := known.listed name ref held
      rw [Loaded.slot_listed (plain name) held, unedited]
      exact .object found
    | none =>
      rw [Loaded.slot_unlisted (plain name) held, Property.editedBy_of_not_edits _ (unedited name)]
      exact .absent
  · cases (unedited name).symm.trans edits
  · obtain ⟨property, found⟩ := known.listed name ref there
    exact absurd above (Nat.not_le_of_lt (lt_of_getElem?_eq_some found))

/-- Declarations bring the table to what is expected of all their entries. -/
theorem Store.Loaded.declaredAll {done : Table Value} {entries : List (String × Value)}
    (all : DeclaredAll table store entries later) (loaded : base.Loaded table done store)
    (within : done.Within mapping) (unambiguous : base.Unambiguous table mapping)
    (distinct : (entries.map Prod.fst).Nodup)
    (each : ∀ entry ∈ entries, mapping.get? entry.1 = some entry.2 ∧ done.get? entry.1 = none ∧
      base.Firm entry.2) : base.Loaded table (done.insertAll entries) later := by
  induction all generalizing done with
  | nil store => exact loaded
  | @cons store middle later key value rest first others ih =>
    obtain ⟨given, missing, firm⟩ := each _ List.mem_cons_self
    rw [List.map_cons, List.nodup_cons] at distinct
    have next : (done.insert key value).Within mapping := by
      intro name held found
      rw [Table.get?_insert] at found
      split at found
      next same =>
        cases found
        rwa [← same]
      next => exact within name held found
    refine ih (loaded.declared missing (unambiguous.within next) firm first) next distinct.2 fun entry member => ?_
    obtain ⟨given, missing, firm⟩ := each entry (.tail _ member)
    refine ⟨given, ?_, firm⟩
    rw [Table.get?_insert, if_neg, missing]
    exact fun same => distinct.1 (List.mem_map.mpr ⟨entry, member, same.symm⟩)

/-- Tags that are the same, or new maps with the same entries. -/
inductive SameTag (first second : Store) : Value → Value → Prop where
  | same (value : Value) : SameTag first second value value
  | maps {one other : Ref} {entries : Table Value} (left : first.cells[one]? = some (.map entries))
      (right : second.cells[other]? = some (.map entries)) :
      SameTag first second (.map .writable one) (.map .writable other)

/-- Properties with the same accessors and the same tags. -/
structure SameProperty (first second : Store) (one other : Property) : Prop where
  getter : one.getter = other.getter
  setter : one.setter = other.setter
  tags : Table.Agree (SameTag first second) one.tags other.tags

theorem SameProperty.refl {first second : Store} (property : Property) :
    SameProperty first second property property := by
  refine ⟨rfl, rfl, .of_rel fun key => ?_⟩
  cases property.tags.get? key with
  | some tag => exact .some (.same tag)
  | none => exact .none

/-- Stores in which a table lists the same properties. All else that was there before is the same. -/
structure SameTable (base first second : Store) (table : Ref) : Prop where
  listed : Table.Agree (fun one other => SameProperty first second (first.property one) (second.property other))
    (first.members table) (second.members table)
  elsewhere : ∀ ref, ref < base.cells.size → ref ≠ table → first.cells[ref]? = second.cells[ref]?

theorem Shown.Stands.sameTag {first second : Store} {shown : Shown} {one other : Value}
    (stands : shown.Stands first one) (also : shown.Stands second other) : SameTag first second one other := by
  cases stands with
  | value =>
    cases also
    exact .same one
  | entries left =>
    cases also with
    | entries right => exact .maps left right

theorem Table.Shaped.sameTags {first second : Store} {shape : Table Shown} {tags others : Table Value}
    (shaped : Table.Shaped first shape tags) (also : Table.Shaped second shape others) :
    Table.Agree (SameTag first second) tags others := by
  refine .of_rel fun name => ?_
  have one := shaped.optionRel name
  have other := also.optionRel name
  generalize tags.get? name = left at one
  generalize others.get? name = right at other
  generalize shape.get? name = shown at one other
  cases one with
  | some stands =>
    cases other with
    | some again => exact .some (stands.sameTag again)
  | none =>
    cases other
    exact .none

/-- A loaded table does not depend on how it came about. -/
theorem Store.Loaded.sameTable {first second : Store} (known : base.PropertyTable table) (left : base.Loaded table mapping first)
    (right : base.Loaded table mapping second) : SameTable base first second table := by
  have elsewhere (ref : Ref) (inside : ref < base.cells.size) (apart : ref ≠ table) :
      first.cells[ref]? = second.cells[ref]? := by
    by_cases edits : ∃ name, (base.members table).get? name = some ref ∧ mapping.edits name = true
    · obtain ⟨name, held, edits⟩ := edits
      rw [left.edited name ref held edits, right.edited name ref held edits]
    · have unedited (name : String) (held : (base.members table).get? name = some ref) :
          mapping.edits name = false :=
        Bool.eq_false_iff.mpr fun changed => edits ⟨name, held, changed⟩
      have found := Array.getElem?_eq_getElem inside
      rw [left.others ref _ found apart unedited, right.others ref _ found apart unedited]
  refine ⟨.of_rel fun name => ?_, elsewhere⟩
  have one := left.slots name
  have other := right.slots name
  generalize (first.members table).get? name = here at one
  generalize (second.members table).get? name = there at other
  generalize base.slot table mapping name = slot at one other
  cases one with
  | absent =>
    cases other
    exact .none
  | @object ref property found =>
    cases other with
    | object =>
      have same := elsewhere ref (lt_of_getElem?_eq_some found) (known.apart found)
      have view : first.property ref = second.property ref := by simp only [Store.property, same]
      refine .some ?_
      rw [view]
      exact .refl _
  | @new ref property tags _ found shaped =>
    obtain ⟨its, twin, rfl, -, there, getter, setter, also⟩ := other.made
    refine .some ?_
    rw [show first.property ref = property by simp only [Store.property, found],
      show second.property its = twin by simp only [Store.property, there]]
    exact ⟨getter.symm, setter.symm, shaped.sameTags also⟩

/-- Loading a table of properties succeeds in every order of the entries, or fails in every order. If no
two entries are at odds, the loaded table is the same in every order. -/
theorem StoreM.loads_in_any_order (held : Option Ref) (known : base.PropertyTable table)
    (firm : mapping.All base.Firm) {first second : List (String × Value)}
    (visits : first.Perm mapping.entries) (others : second.Perm mapping.entries) :
    ((∃ fault later, (declareAll held .property table first).run base = .error fault later) ∧
      ∃ fault later, (declareAll held .property table second).run base = .error fault later) ∨
    ∃ later last, (declareAll held .property table first).run base = .ok () later ∧
      (declareAll held .property table second).run base = .ok () last ∧
      (base.Unambiguous table mapping → SameTable base later last table) := by
  have entries {list : List (String × Value)} (visits : list.Perm mapping.entries) :
      ∀ entry ∈ list, mapping.get? entry.1 = some entry.2 :=
    fun entry member => (mapping.mem_entries_iff _ _).mp (visits.mem_iff.mp member)
  have decides {list : List (String × Value)} (visits : list.Perm mapping.entries) :
      Decides base (declareAll held .property table list)
        (∀ entry ∈ mapping.entries, Acceptable held base entry.1 entry.2)
        fun later _ => DeclaredAll table base list later := by
    refine (decides_declareAll held known.around list fun entry member => ?_).congr ?_
    · exact firm _ _ (entries visits entry member)
    · exact forall_congr' fun entry => by rw [visits.mem_iff]
  have loads {list : List (String × Value)} (visits : list.Perm mapping.entries) {later : Store}
      (all : DeclaredAll table base list later) (unambiguous : base.Unambiguous table mapping) :
      base.Loaded table mapping later := by
    rw [← Table.insertAll_of_perm visits]
    refine known.loaded.declaredAll all (fun _ _ found => ?_) unambiguous (Table.nodup_map_fst visits)
      fun entry member => ?_
    · cases found.symm.trans (Table.get?_empty _)
    · have found := entries visits entry member
      exact ⟨found, Table.get?_empty _, firm _ _ found⟩
  by_cases accepted : ∀ entry ∈ mapping.entries, Acceptable held base entry.1 entry.2
  · obtain ⟨_, later, ran, all⟩ := (decides visits).ok_of_accepted accepted
    obtain ⟨_, last, runs, every⟩ := (decides others).ok_of_accepted accepted
    exact .inr ⟨later, last, ran, runs, fun unambiguous =>
      (loads visits all unambiguous).sameTable known (loads others every unambiguous)⟩
  · exact .inl ⟨(decides visits).error_of_refused accepted, (decides others).error_of_refused accepted⟩

end Orders

/-- An empty table of properties, and a mapping that describes a property with a getter. -/
def unloaded : Store where
  cells := #[.members .property ∅, .map (Table.empty.insert "get" (.host 0 ⟨"f", "this", false⟩))]

/-- A mapping with a property and an accessor of another one. -/
def uncrossed : Table Value :=
  (Table.empty.insert "x" (.map .writable 1)).insert "get_y" (.host 1 ⟨"g", "this", false⟩)

/-- A mapping with a property and an accessor of the same one. -/
def crossed : Table Value :=
  (Table.empty.insert "x" (.map .writable 1)).insert "get_x" (.host 1 ⟨"g", "this", false⟩)

theorem unloaded_table : unloaded.PropertyTable 0 :=
  ⟨⟨∅, rfl⟩, fun name _ found => by cases found.symm.trans (Table.get?_empty name)⟩

theorem all_firm (key : String) : ((Table.empty.insert "x" (.map .writable 1)).insert key
    (.host 1 ⟨"g", "this", false⟩)).All unloaded.Firm := by
  intro name value found
  rw [Table.get?_insert] at found
  split at found
  · cases found
    exact .of_alone trivial
  · obtain ⟨-, rfl⟩ := Table.eq_of_get?_single found
    refine .of_each (.map _ _ rfl) (fun _ same => nomatch same) fun held involves => ?_
    cases involves with
    | holds inside =>
      cases inside with
      | contains inside =>
        cases inside with
        | entry handle label given =>
          obtain ⟨-, rfl⟩ := Table.eq_of_get?_single given
          exact .of_alone trivial

theorem unambiguous_uncrossed : unloaded.Unambiguous 0 uncrossed := by
  have unlisted (name : String) : (unloaded.members 0).get? name = none := Table.get?_empty name
  have only {name : String} {value : Value} (found : uncrossed.plain? name = some value) :
      name = "x" ∧ value = .map .writable 1 := by
    unfold Table.plain? at found
    split at found
    · cases found
    next plain =>
      rw [uncrossed, Table.get?_insert, if_neg] at found
      · exact Table.eq_of_get?_single found
      · rintro rfl
        exact plain (by decide +kernel)
  refine ⟨fun name value found => ?_, fun name _ _ listed => ?_, fun name _ _ _ listed => ?_,
    fun name handle source tags found has => ?_⟩
  · obtain ⟨rfl, -⟩ := only found
    cbv
  · cases (unlisted name).symm.trans listed
  · cases (unlisted name).symm.trans listed
  · obtain ⟨-, is⟩ := only found
    cases is
    exact absurd (Table.eq_of_get?_single has).1 (by decide)

theorem StoreM.loads_in_any_order_uncrossed :
    unloaded.PropertyTable 0 ∧ uncrossed.All unloaded.Firm ∧ unloaded.Unambiguous 0 uncrossed ∧
      ∃ later last,
        (declareAll none .property 0 [("x", .map .writable 1), ("get_y", .host 1 ⟨"g", "this", false⟩)]).run
          unloaded = .ok () later ∧
        (declareAll none .property 0 [("get_y", .host 1 ⟨"g", "this", false⟩), ("x", .map .writable 1)]).run
          unloaded = .ok () last ∧ SameTable unloaded later last 0 := by
  have sorted : uncrossed.entries = [("get_y", .host 1 ⟨"g", "this", false⟩), ("x", .map .writable 1)] := rfl
  have visits : [("x", .map .writable 1), ("get_y", .host 1 ⟨"g", "this", false⟩)].Perm uncrossed.entries := by
    rw [sorted]
    exact .swap _ _ _
  refine ⟨unloaded_table, all_firm "get_y", unambiguous_uncrossed, ?_⟩
  rcases loads_in_any_order none unloaded_table (all_firm "get_y") visits (.of_eq sorted.symm) with
    ⟨⟨fault, later, failed⟩, -⟩ | ⟨later, last, ran, runs, same⟩
  · have ran : (declareAll none .property 0
        [("x", .map .writable 1), ("get_y", .host 1 ⟨"g", "this", false⟩)]).run unloaded =
          .ok () { cells := #[.members .property ((Table.empty.insert "x" 2).insert "y" 3),
            .map (Table.empty.insert "get" (.host 0 ⟨"f", "this", false⟩)),
            .property { getter := some (.host 0 ⟨"f", "this", false⟩) },
            .property { getter := some (.host 1 ⟨"g", "this", false⟩) }] } := by cbv
    cases ran.symm.trans failed
  · exact ⟨later, last, ran, runs, same unambiguous_uncrossed⟩

/-- If a mapping has a property and one of its accessors, the later of the two is what counts. -/
theorem StoreM.crossed_loads_differ :
    unloaded.PropertyTable 0 ∧ crossed.All unloaded.Firm ∧
      ∃ first second later last, first.Perm crossed.entries ∧ second.Perm crossed.entries ∧
        (declareAll none .property 0 first).run unloaded = .ok () later ∧
        (declareAll none .property 0 second).run unloaded = .ok () last ∧
        ¬SameTable unloaded later last 0 := by
  have sorted : crossed.entries = [("get_x", .host 1 ⟨"g", "this", false⟩), ("x", .map .writable 1)] := rfl
  let mapping : Cell := .map (Table.empty.insert "get" (.host 0 ⟨"f", "this", false⟩))
  let given : Cell := .property { getter := some (.host 1 ⟨"g", "this", false⟩) }
  let described : Cell := .property { getter := some (.host 0 ⟨"f", "this", false⟩) }
  refine ⟨unloaded_table, all_firm "get_x", [("x", .map .writable 1), ("get_x", .host 1 ⟨"g", "this", false⟩)],
    [("get_x", .host 1 ⟨"g", "this", false⟩), ("x", .map .writable 1)],
    { cells := #[.members .property (Table.empty.insert "x" 2), mapping, given] },
    { cells := #[.members .property ((Table.empty.insert "x" 2).insert "x" 3), mapping, given, described] },
    ?_, .of_eq sorted.symm, by cbv, by cbv, fun same => ?_⟩
  · rw [sorted]
    exact .swap _ _ _
  · have alike := same.listed.values "x" 2 3 (by simp [Store.members]) (by simp [Store.members])
    have getters := alike.getter
    cases getters

end ScriptMachine
