import ScriptMachine.Proofs.HeldTables
import ScriptMachine.Proofs.LoadOrders

/-! What the conversion of a value for a table or a type leaves as it was. New tables are loaded into new
cells, but a mapping of properties may list one that is there and edit it as well. -/

namespace ScriptMachine

open StoreM

namespace Store

variable {store middle later : Store} {table ref : Ref} {changed other : Ref → Prop}

/-- All cells of a store but some are in a later one as they were. -/
def KeptBut (changed : Ref → Prop) (store later : Store) : Prop :=
  ∀ ref cell, store.cells[ref]? = some cell → ¬changed ref → later.cells[ref]? = some cell

theorem Kept.but (kept : store.Kept later) : store.KeptBut changed later :=
  fun ref cell found _ => kept ref cell found

/-- A property of a store that a mapping lists under a name for which it has an accessor too. -/
def Crosses (store : Store) (mapping : Table Value) (ref : Ref) : Prop :=
  (∃ property, store.cells[ref]? = some (.property property)) ∧
    ∃ name, mapping.plain? name = some (.member .property ref) ∧ mapping.edits name = true

namespace KeptBut

theorem mono (kept : store.KeptBut changed later) (more : ∀ ref, changed ref → other ref) :
    store.KeptBut other later :=
  fun ref cell found still => kept ref cell found fun changed => still (more ref changed)

theorem overwrite (kept : store.KeptBut changed later) (own : changed ref) (cell : Cell) :
    store.KeptBut changed (later.overwrite ref cell) := by
  intro other old found still
  have apart : other ≠ ref := fun same => still (same ▸ own)
  rw [getElem?_overwrite_of_ne cell apart]
  exact kept other old found still

theorem changeMembers (kept : store.KeptBut changed later) (own : changed table)
    (change : Table Ref → Table Ref) : store.KeptBut changed (later.changeMembers table change) := by
  intro other old found still
  have apart : other ≠ table := fun same => still (same ▸ own)
  rw [getElem?_changeMembers_of_ne apart]
  exact kept other old found still

end KeptBut

/-- Nothing that is no property can be written over by one. -/
theorem overwrite_property_of_other (other : ∀ property, store.cells[ref]? ≠ some (.property property))
    (property : Property) : store.overwrite ref (.property property) = store := by
  have same (place : Ref) : (store.overwrite ref (.property property)).cells[place]? = store.cells[place]? := by
    by_cases here : place = ref
    · subst here
      rw [getElem?_overwrite_self]
      cases found : store.cells[place]? with
      | none => rfl
      | some cell =>
        cases cell with
        | property held => exact absurd found (other held)
        | _ => rfl
    · exact getElem?_overwrite_of_ne _ here
  have cells : (store.overwrite ref (.property property)).cells = store.cells :=
    Array.ext_getElem? same
  exact congrArg (fun cells => ({ store with cells } : Store)) cells

end Store

open Store

/-- A later form of a type in which a key has been assigned at most. -/
structure TypeObject.SameBut (key : String) (type later : TypeObject) : Prop where
  name : later.name = type.name
  tags : key ≠ "tags" → later.tags = type.tags
  constructor : key ≠ "new" → later.constructor = type.constructor
  fields : key ≠ "fields" → later.fields = type.fields
  methods : key ≠ "methods" → later.methods = type.methods
  properties : key ≠ "props" → key ≠ "properties" → later.properties = type.properties

namespace StoreM

theorem Ends.imp {α : Type} {inv other : Store → Prop} {post : α → Prop}
    {result : EStateM.Result Fault Store α} (implies : ∀ later, inv later → other later)
    (ends : Ends inv post result) : Ends other post result := by
  cases result with
  | ok value later => exact ⟨implies later ends.1, ends.2⟩
  | error fault later => exact implies later ends

section Declaring

variable {store middle later : Store} {table : Ref} {members : Table Ref} {key : String} {value : Value}

/-- An update is about the property that its key names. What it stores is new, or was given. -/
def PropertyUpdate.Follows (store : Store) (key : String) (value : Value) : PropertyUpdate → Prop
  | accessor name isSetter _ => accessorKey? key = some (isSetter, name)
  | replace name listed => accessorKey? key = none ∧ name = key ∧
      ∀ ref, listed = some ref → store.cells.size ≤ ref ∨ value = .member .property ref

theorem builds_propertyUpdate {base : Store} (key : String) (value : Value) :
    Builds True (fun _ => True) base (propertyUpdate none key value) fun _ update =>
      update.Follows base key value := by
  unfold propertyUpdate
  cases reads : accessorKey? key with
  | some named =>
    exact (builds_accessor value).bind fun _ function _ _ => .pure fun _ _ => reads
  | none =>
    have refused (value : Value) : Builds True (fun _ => True) base
        (do throw (.invalidIndexValueType (value.kind (← get))) : StoreM PropertyUpdate) fun _ update =>
          update.Follows base key value :=
      .get_bind fun _ _ => .throw trivial _
    cases value with
    | undefined => exact .pure fun _ _ => ⟨reads, rfl, fun _ is => nomatch is⟩
    | map handle source =>
      refine .get_bind fun store kept => (builds_propertyFrom _).bind fun middle property since _ => ?_
      refine .ite (fun _ => .pure fun _ _ => ⟨reads, rfl, fun _ is => nomatch is⟩) fun _ => ?_
      refine (Builds.alloc fun _ _ _ => trivial).bind fun _ ref _ made => .pure fun _ _ => ⟨reads, rfl, ?_⟩
      intro other is
      cases is
      exact .inl ((kept.trans since).size_le.trans made.1)
    | member kind ref =>
      cases kind with
      | property =>
        refine .pure fun _ _ => ⟨reads, rfl, fun other is => ?_⟩
        cases is
        exact .inr rfl
      | _ => exact refused _
    | _ => exact refused _

/-- What the declaration of a property makes of its table. A property that was listed is edited under
the key of an accessor only, and what is listed then is new, was given, or was listed before. -/
structure Redeclared (store later : Store) (table : Ref) (key : String) (value : Value)
    (listed changed : Option Ref) : Prop where
  relisted : store.Relisted later table (subject key) listed changed
  edits : ∀ ref, changed = some ref → (accessorKey? key).isSome ∧
    (store.members table).get? (subject key) = some ref ∧ ∃ property, store.cells[ref]? = some (.property property)
  source : ∀ ref, listed = some ref → store.cells.size ≤ ref ∨
    (accessorKey? key = none ∧ value = .member .property ref) ∨
      (store.members table).get? (subject key) = some ref

/-- A property without accessors is removed. -/
theorem relisted_emptied {written : Store} {name : String} {listed changed : Option Ref}
    (relisted : store.Relisted written table name listed changed) (empty : Bool) :
    store.Relisted (if empty then written.changeMembers table (·.erase name) else written) table name
      (if empty then none else listed) changed := by
  cases empty with
  | true => exact relisted.erase
  | false => exact relisted

/-- Writing a property where there was none changes nothing that was there. -/
theorem relisted_overwrite_other {name : String} {listed : Option Ref} {ref : Ref}
    (relisted : store.Relisted later table name listed none)
    (other : ∀ property, store.cells[ref]? ≠ some (.property property)) (property : Property) :
    store.Relisted (later.overwrite ref (.property property)) table name listed none := by
  by_cases there : ∃ held, later.cells[ref]? = some (.property held)
  · obtain ⟨held, cell⟩ := there
    have apart : ref ≠ table := by
      rintro rfl
      obtain ⟨members, stays⟩ := relisted.stays
      cases cell.symm.trans stays
    refine relisted.overwrite apart _ fun old found => ?_
    cases cell.symm.trans (relisted.kept ref old found apart nofun)
    exact absurd found (other held)
  · push Not at there
    rwa [overwrite_property_of_other there]

theorem redeclared_accessor (found : store.cells[table]? = some (.members .property members))
    (kept : store.Kept middle) {isSetter : Bool} {name : String} {function : Option Value}
    (reads : accessorKey? key = some (isSetter, name))
    (ran : (applyUpdate table (.accessor name isSetter function)).run middle = .ok () later) :
    ∃ listed changed, Redeclared store later table key value listed changed := by
  obtain rfl : subject key = name := subject_of_reads reads
  have stays : middle.cells[table]? = some (.members .property members) := kept _ _ found
  have same : middle.members table = store.members table := by rw [members_eq found, members_eq stays]
  have seen : (accessorKey? key).isSome := by rw [reads]; rfl
  have begun := kept.relisted ⟨members, found⟩ (subject key)
  cases listed : (store.members table).get? (subject key) with
  | none =>
    rw [run_accessorUpdate_new isSetter function (same ▸ listed)] at ran
    cases ran
    have outside : middle.cells.size ≠ table := (Nat.ne_of_lt (lt_of_getElem?_eq_some stays)).symm
    have pushed := (kept.trans (.push middle (.property {}))).relisted ⟨members, found⟩ (subject key) none
    have added := (pushed.insert middle.cells.size).overwrite outside
      (.property (Property.withFunction {} isSetter function)) fun old there =>
        absurd (lt_of_getElem?_eq_some (kept _ _ there)) (Nat.lt_irrefl _)
    refine ⟨_, none, relisted_emptied added _, nofun, fun ref is => .inl ?_⟩
    split at is
    · cases is
    · cases is
      exact kept.size_le
  | some ref =>
    rw [run_accessorUpdate isSetter function (same ▸ listed)] at ran
    cases ran
    rw [listed] at begun
    have source (empty : Bool) (other : Ref) (is : (if empty then none else some ref) = some other) :
        store.cells.size ≤ other ∨ (accessorKey? key = none ∧ value = .member .property other) ∨
          (store.members table).get? (subject key) = some other := by
      split at is
      · cases is
      · cases is
        exact .inr (.inr listed)
    by_cases there : ∃ property, store.cells[ref]? = some (.property property)
    · obtain ⟨property, cell⟩ := there
      have apart : ref ≠ table := by
        rintro rfl
        cases cell.symm.trans found
      refine ⟨_, some ref, relisted_emptied ((begun (some ref)).overwrite apart _ fun _ _ => rfl) _,
        fun other is => ?_, source _⟩
      cases is
      exact ⟨seen, listed, property, cell⟩
    · push Not at there
      exact ⟨_, none, relisted_emptied (relisted_overwrite_other (begun none) there _) _, nofun, source _⟩

theorem named_of_declared {kind : MemberKind} (ran : (declare none kind table key value).run store = .ok () later) :
    key ≠ "" := by
  rintro rfl
  cases ran

theorem redeclared_of_ok (found : store.cells[table]? = some (.members .property members))
    (ran : (declare none .property table key value).run store = .ok () later) :
    ∃ listed changed, Redeclared store later table key value listed changed := by
  have asked : declare none .property table key value =
      (do applyUpdate table (← propertyUpdate none key value)) := by
    simp [declare, named_of_declared ran]
  rw [asked] at ran
  obtain ⟨update, middle, asked, applied⟩ := bind_eq_ok ran
  obtain ⟨kept, -, follows⟩ := (builds_propertyUpdate key value).of_ok (.refl store) trivial asked
  cases update with
  | accessor name isSetter function => exact redeclared_accessor found kept follows applied
  | replace name listed =>
    obtain ⟨plain, rfl, source⟩ := follows
    have begun := kept.relisted ⟨members, found⟩ name none
    have named := subject_of_plain plain
    cases listed with
    | none =>
      cases applied
      exact ⟨none, none, named.symm ▸ begun.erase, by rintro _ ⟨⟩, by rintro _ ⟨⟩⟩
    | some ref =>
      cases applied
      refine ⟨some ref, none, named.symm ▸ begun.insert ref, by rintro _ ⟨⟩, fun other is => ?_⟩
      exact (source other is).imp_right fun given => .inl ⟨plain, given⟩

end Declaring

section Loading

variable {base store later : Store} {mapping : Table Value} {table : Ref} {key : String} {value : Value}

theorem edits_of_get? {isSetter : Bool} {name : String} (found : mapping.get? key = some value)
    (reads : accessorKey? key = some (isSetter, name)) : mapping.edits name = true := by
  obtain ⟨rfl, named⟩ := accessorKey?_eq_some_iff.mp reads
  exact Table.edits_iff.mpr ⟨isSetter, value, by rw [Table.given?, if_neg named, found]⟩

theorem plain?_of_get? (found : mapping.get? key = some value) (plain : accessorKey? key = none) :
    mapping.plain? key = some value := by
  rw [Table.plain?, plain, found]
  rfl

/-- A new table that is being loaded from a mapping. It lists new properties and those that the mapping
lists; all that was there before is as it was, except where the mapping crosses itself. -/
structure Loading (base : Store) (mapping : Table Value) (table : Ref) (store : Store) : Prop where
  fresh : base.cells.size ≤ table
  cell : ∃ members, store.cells[table]? = some (.members .property members)
  kept : base.KeptBut (base.Crosses mapping) store
  listed : ∀ name ref, (store.members table).get? name = some ref →
    base.cells.size ≤ ref ∨ mapping.plain? name = some (.member .property ref)

theorem Loading.redeclared (loading : Loading base mapping table store) (given : mapping.get? key = some value)
    {listed changed : Option Ref} (redeclared : Redeclared store later table key value listed changed) :
    Loading base mapping table later where
  fresh := loading.fresh
  cell := redeclared.relisted.stays
  kept ref cell found uncrossed := by
    have there := loading.kept ref cell found uncrossed
    have inside : ref < base.cells.size := lt_of_getElem?_eq_some found
    have apart : ref ≠ table := Nat.ne_of_lt (Nat.lt_of_lt_of_le inside loading.fresh)
    refine redeclared.relisted.kept ref cell there apart fun same => uncrossed ?_
    obtain ⟨reads, before, property, is⟩ := redeclared.edits ref same
    obtain ⟨named, reads⟩ := Option.isSome_iff_exists.mp reads
    cases there.symm.trans is
    rcases loading.listed _ ref before with beyond | lists
    · exact absurd inside (Nat.not_lt.mpr beyond)
    · exact ⟨⟨property, found⟩, subject key, lists, subject_of_reads reads ▸ edits_of_get? given reads⟩
  listed name ref found := by
    obtain ⟨members, cell⟩ := loading.cell
    have inside : table < store.cells.size := lt_of_getElem?_eq_some cell
    by_cases own : name = subject key
    · subst own
      rcases redeclared.source ref (redeclared.relisted.own.symm.trans found) with new | ⟨plain, is⟩ | before
      · exact .inl (Nat.le_trans loading.fresh (Nat.le_trans (Nat.le_of_lt inside) new))
      · rw [subject_of_plain plain]
        exact .inr (plain?_of_get? (is ▸ given) plain)
      · exact loading.listed _ ref before
    · rw [redeclared.relisted.others name own] at found
      exact loading.listed name ref found

/-- A declaration that fails leaves the store as it is. -/
theorem eq_of_declare_error {kind : MemberKind} {fault : Fault}
    (failed : (declare none kind table key value).run store = .error fault later) : later = store := by
  have alone : Hindered False store (declare none kind table key value) _ :=
    (hindered_declare table kind key value).alone
  unfold Hindered at alone
  rw [failed] at alone
  exact alone.2.1

theorem maintains_loading (given : mapping.get? key = some value) :
    Maintains (Loading base mapping table) (declare none .property table key value) fun _ => True := by
  intro store loading
  change Ends _ _ ((declare none .property table key value).run store)
  cases ran : (declare none .property table key value).run store with
  | ok done later =>
    obtain ⟨members, cell⟩ := loading.cell
    obtain ⟨listed, changed, redeclared⟩ := redeclared_of_ok cell ran
    exact ⟨loading.redeclared given redeclared, trivial⟩
  | error fault later =>
    rw [eq_of_declare_error ran]
    exact loading

/-- The declaration of a field or method lists it, after all that it takes has been made. -/
theorem inserted_of_ok {kind : MemberKind} (plain : kind ≠ .property)
    (ran : (declare none kind table key value).run store = .ok () later) :
    ∃ middle ref, store.Kept middle ∧ later = middle.changeMembers table (·.insert key ref) := by
  have named := named_of_declared ran
  have inserted {made : StoreM Ref} {post : Store → Ref → Prop}
      (builds : Builds True (fun _ => True) store made post)
      (ran : (made >>= insertMember table key).run store = .ok () later) :
      ∃ middle ref, store.Kept middle ∧ later = middle.changeMembers table (·.insert key ref) := by
    obtain ⟨ref, middle, made, applied⟩ := bind_eq_ok ran
    cases applied
    exact ⟨middle, ref, (builds.of_ok (.refl store) trivial made).1, rfl⟩
  cases kind with
  | property => exact absurd rfl plain
  | field =>
    have asked : declare none .field table key value = declareField none value >>= insertMember table key := by
      simp [declare, named]
    rw [asked] at ran
    exact inserted (builds_declareField mappable_shallow (fun _ _ _ => trivial) none trivial) ran
  | method =>
    have asked : declare none .method table key value = declareMethod none value >>= insertMember table key := by
      simp [declare, named]
    rw [asked] at ran
    exact inserted (builds_declareMethod mappable_shallow (fun _ _ _ => trivial) none trivial) ran

theorem maintains_kept {kind : MemberKind} (plain : kind ≠ .property) (fresh : base.cells.size ≤ table) :
    Maintains base.Kept (declare none kind table key value) fun _ => True := by
  intro store kept
  change Ends _ _ ((declare none kind table key value).run store)
  cases ran : (declare none kind table key value).run store with
  | ok done later =>
    obtain ⟨middle, ref, since, rfl⟩ := inserted_of_ok plain ran
    exact ⟨(kept.trans since).changeMembers fresh, trivial⟩
  | error fault later =>
    rw [eq_of_declare_error ran]
    exact kept

/-- A new table is filled after all that was there has been kept. -/
theorem ends_membersFrom_of {inv : Store → Prop} {kind : MemberKind} {mapping : Table Value}
    (each : ∀ key value, mapping.get? key = some value →
      Maintains inv (declare none kind base.cells.size key value) fun _ => True)
    (begun : inv { base with cells := base.cells.push (.members kind {}) }) :
    Ends inv (fun _ => True) ((membersFrom kind mapping).run base) := by
  have loads : Maintains inv (declareAll none kind base.cells.size mapping.entries) fun _ => True :=
    maintains_declarations fun entry member => each _ _ ((mapping.mem_entries_iff _ _).mp member)
  have whole : Maintains inv (declareAll none kind base.cells.size mapping.entries >>= fun _ =>
      pure base.cells.size : StoreM Ref) fun _ => True := loads.bind fun _ _ => .pure trivial
  exact whole _ begun

/-- Loading a new table edits no more than the properties that its mapping crosses. -/
theorem ends_membersFrom (kind : MemberKind) (mapping : Table Value) :
    Ends (base.KeptBut fun ref => kind = .property ∧ base.Crosses mapping ref) (fun _ => True)
      ((membersFrom kind mapping).run base) := by
  have pushed := Kept.push base (.members kind {})
  by_cases is : kind = .property
  · subst is
    have blank : ({ base with cells := base.cells.push (.members .property {}) } : Store).cells[base.cells.size]? =
        some (.members .property {}) := Array.getElem?_push_size
    refine Ends.imp (fun later loaded => loaded.kept.mono fun _ crosses => ⟨rfl, crosses⟩)
      (ends_membersFrom_of (fun _ _ given => maintains_loading given) {
        fresh := Nat.le_refl _
        cell := ⟨_, blank⟩
        kept := pushed.but
        listed := fun name ref found => ?_ })
    rw [members_eq blank] at found
    cases (Table.get?_empty name).symm.trans found
  · exact Ends.imp (fun later kept => kept.but)
      (ends_membersFrom_of (fun _ _ _ => maintains_kept is (Nat.le_refl _)) pushed)

end Loading

section Types

variable {store : Store} {changed : Ref → Prop}

theorem ends_of_builds {α : Type} {action : StoreM α} {post : Store → α → Prop}
    (builds : Builds True (fun _ => True) store action post) :
    Ends (store.KeptBut changed) (fun _ => True) (action.run store) := by
  have done := builds store (.refl store) trivial
  cases ran : action.run store with
  | ok value later =>
    rw [ran] at done
    exact ⟨done.1.but, trivial⟩
  | error fault later =>
    rw [ran] at done
    exact done.2.1.but

theorem Ends.giving {α β : Type} {make : StoreM α} {inv : Store → Prop} {post : β → Prop} {give : α → β}
    (ends : Ends inv (fun _ => True) (make.run store)) (known : ∀ value, post (give value)) :
    Ends inv post ((make >>= fun value => pure (give value)).run store) := by
  cases ran : make.run store with
  | ok value later =>
    rw [ran] at ends
    rw [show (make >>= fun value => pure (give value)).run store = .ok (give value) later from bind_of_ok ran]
    exact ⟨ends.1, known value⟩
  | error fault later =>
    rw [ran] at ends
    rw [show (make >>= fun value => pure (give value)).run store = .error fault later from bind_of_error ran]
    exact ends

/-- What the table that is to be a type's comes to: properties that its mapping crosses are edited. -/
theorem ends_membersValue (store : Store) (key : String) (kind : MemberKind) (value : Value) :
    Ends (store.KeptBut fun ref => kind = .property ∧ ∃ handle source, value = .map handle source ∧
        store.Crosses (store.entries source) ref) (fun _ => True)
      ((membersValue key kind value).run store) := by
  have same {changed : Ref → Prop} : store.KeptBut changed store := (Kept.refl store).but
  cases value with
  | undefined => exact ⟨(Kept.push store _).but, trivial⟩
  | map handle source =>
    have loaded : Ends (store.KeptBut _) _ ((membersFrom kind (store.entries source)).run store) :=
      ends_membersFrom kind (store.entries source)
    exact Ends.imp (fun later kept => kept.mono fun ref both => ⟨both.1, handle, source, rfl, both.2⟩) loaded
  | members other ref =>
    unfold membersValue
    dsimp only
    split
    · exact ⟨same, trivial⟩
    · exact same
  | _ => exact same

/-- The properties that the conversion of a value for a key of a type may edit. -/
def TypeCrosses (store : Store) (key : String) (value : Value) (ref : Ref) : Prop :=
  (key = "props" ∨ key = "properties") ∧
    ∃ handle source, value = .map handle source ∧ store.Crosses (store.entries source) ref

theorem ends_typeChange (store : Store) (key : String) (value : Value) :
    Ends (store.KeptBut (TypeCrosses store key value))
      (fun change => ∀ type : TypeObject, type.SameBut key (change type)) ((typeChange key value).run store) := by
  have plain {kind : MemberKind} (is : kind ≠ .property) :
      Ends (store.KeptBut (TypeCrosses store key value)) (fun _ => True)
        ((membersValue key kind value).run store) :=
    Ends.imp (fun later kept => kept.mono fun ref both => absurd both.1 is) (ends_membersValue store key kind value)
  have crossing (is : key = "props" ∨ key = "properties") :
      Ends (store.KeptBut (TypeCrosses store key value)) (fun _ => True)
        ((membersValue key .property value).run store) :=
    Ends.imp (fun later kept => kept.mono fun ref both => ⟨is, both.2⟩) (ends_membersValue store key .property value)
  have same (store : Store) : store.KeptBut (TypeCrosses store key value) store := (Kept.refl store).but
  unfold typeChange
  split
  · refine Ends.giving (ends_of_builds (builds_tagsFrom mappable_shallow none trivial)) fun tags => fun type => ?_
    exact ⟨rfl, fun other => absurd rfl other, fun _ => rfl, fun _ => rfl, fun _ => rfl, fun _ _ => rfl⟩
  · refine Ends.giving ?_ fun constructor => fun type => ?_
    · unfold constructorValue
      split
      · exact ⟨same store, trivial⟩
      · split
        · exact ⟨same store, trivial⟩
        · exact same store
    · exact ⟨rfl, fun _ => rfl, fun other => absurd rfl other, fun _ => rfl, fun _ => rfl, fun _ _ => rfl⟩
  · refine Ends.giving (plain nofun) fun fields => fun type => ?_
    exact ⟨rfl, fun _ => rfl, fun _ => rfl, fun other => absurd rfl other, fun _ => rfl, fun _ _ => rfl⟩
  · refine Ends.giving (plain nofun) fun methods => fun type => ?_
    exact ⟨rfl, fun _ => rfl, fun _ => rfl, fun _ => rfl, fun other => absurd rfl other, fun _ _ => rfl⟩
  · refine Ends.giving (crossing (.inr rfl)) fun properties => fun type => ?_
    exact ⟨rfl, fun _ => rfl, fun _ => rfl, fun _ => rfl, fun _ => rfl, fun _ other => absurd rfl other⟩
  · refine Ends.giving (crossing (.inl rfl)) fun properties => fun type => ?_
    exact ⟨rfl, fun _ => rfl, fun _ => rfl, fun _ => rfl, fun _ => rfl, fun other => absurd rfl other⟩
  · exact same store

end Types

end StoreM

end ScriptMachine
