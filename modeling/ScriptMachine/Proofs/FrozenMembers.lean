import ScriptMachine.Proofs.FrozenCells
import ScriptMachine.TypeSystem.Types

/-! The computations of the type system keep out of a vault: given values that do not lead into it, they
leave it alone, and what they make does not lead into it either. -/

namespace ScriptMachine

variable {vault : Vault}

namespace StoreM

section Mappings

variable (deep : Bool)

theorem guards_tableForm {table : Table Value} (avoids : table.All (Value.Avoids vault)) :
    Guards vault (tableForm deep table) (Table.All (Value.Avoids vault)) :=
  Maintains.ite (fun _ => guards_copyTable avoids) fun _ => .pure avoids

theorem guards_valueForm {value : Value} (avoids : value.Avoids vault) :
    Guards vault (valueForm deep value) (Value.Avoids vault) :=
  Maintains.ite (fun _ => guards_copy avoids) fun _ => .pure avoids

theorem guards_withTags {tags mapping : Table Value} (tagged : tags.All (Value.Avoids vault))
    (avoids : mapping.All (Value.Avoids vault)) :
    Guards vault (withTags deep tags mapping) (Table.All (Value.Avoids vault)) := by
  apply Maintains.ite
  · intro _
    exact .pure avoids
  · intro _
    apply (guards_tableForm deep tagged).bind
    intro form known
    apply (guards_newMap known .writable).bind
    intro made free
    exact .pure (avoids.insert "tags" free)

theorem guards_withAccessor (key : String) {accessor : Option Value} {mapping : Table Value}
    (known : ∀ value ∈ accessor, value.Avoids vault) (avoids : mapping.All (Value.Avoids vault)) :
    Guards vault (withAccessor deep key accessor mapping) (Table.All (Value.Avoids vault)) := by
  cases accessor with
  | some function =>
    apply (guards_valueForm deep (known function rfl)).bind
    intro form formed
    exact .pure (avoids.insert key formed)
  | none => exact .pure avoids

theorem guards_entryMapping {entry : Entry} (avoids : entry.Avoids vault) :
    Guards vault (entryMapping deep entry) (Table.All (Value.Avoids vault)) := by
  apply (guards_valueForm deep avoids.value).bind
  intro value known
  exact guards_withTags deep avoids.tags (Table.All.empty.insert "value" known)

theorem guards_propertyMapping {property : Property} (avoids : property.Avoids vault) :
    Guards vault (propertyMapping deep property) (Table.All (Value.Avoids vault)) := by
  apply (guards_withAccessor deep "get" avoids.getter .empty).bind
  intro first got
  apply (guards_withAccessor deep "set" avoids.setter got).bind
  intro second both
  exact guards_withTags deep avoids.tags both

theorem guards_memberMapping (kind : MemberKind) {other : Ref} (live : vault.Live other) :
    Guards vault (memberMapping deep kind other) (Table.All (Value.Avoids vault)) := by
  cases kind with
  | property => exact Maintains.get.bind fun _ kept => guards_propertyMapping deep (kept.property live)
  | _ => exact Maintains.get.bind fun _ kept => guards_entryMapping deep (kept.entry live)

theorem guards_membersMapping (kind : MemberKind) {other : Ref} (live : vault.Live other) :
    Guards vault (membersMapping deep kind other) (Table.All (Value.Avoids vault)) := by
  apply Maintains.get.bind
  intro store kept
  apply (Maintains.sequential Fault _).table_mapM (kept.members live)
  intro member free
  apply Maintains.ite
  · intro _
    apply (guards_memberMapping true kind free.live).bind
    intro mapping avoids
    exact guards_newMap avoids .writable
  · intro _
    exact .pure free

theorem guards_typeMapping {other : Ref} (free : vault.Free other) :
    Guards vault (typeMapping deep other) (Table.All (Value.Avoids vault)) := by
  apply Maintains.get.bind
  intro store kept
  have known := kept.type free
  have named : (Table.empty.insert "name" (.string (store.type other).name)).All (Value.Avoids vault) :=
    Table.All.empty.insert "name" trivial
  apply Maintains.bind (guards_withTags deep known.tags ?made)
  · intro mapping avoids
    apply (guards_membersMapping deep .method known.methods.live).bind
    intro _ all
    apply (guards_newMap all .writable).bind
    intro methods first
    apply (guards_membersMapping deep .field known.fields.live).bind
    intro _ all
    apply (guards_newMap all .writable).bind
    intro fields second
    apply (guards_membersMapping deep .property known.properties.live).bind
    intro _ all
    apply (guards_newMap all .writable).bind
    intro properties third
    exact .pure (((avoids.insert _ first).insert _ second).insert _ third)
  · split
    next constructor given => exact named.insert "new" (known.constructor _ given)
    · exact named

theorem guards_mapping {value : Value} (avoids : value.Avoids vault) :
    Guards vault (mapping? deep value) fun mapping =>
      ∀ table ∈ mapping, table.All (Value.Avoids vault) := by
  have wrapped : ∀ {make : StoreM (Table Value)},
      Guards vault make (Table.All (Value.Avoids vault)) →
        Guards vault (some <$> make) fun mapping =>
          ∀ table ∈ mapping, table.All (Value.Avoids vault) := by
    intro make makes
    apply makes.map
    intro table known found member
    cases member
    exact known
  cases value with
  | map handle other =>
    apply Maintains.get.bind
    intro store kept
    apply (guards_tableForm deep (kept.entries avoids.map_live)).bind
    intro table known
    exact .pure fun _ member => by cases member; exact known
  | object other =>
    apply Maintains.get.bind
    intro store kept
    apply (guards_tableForm deep (kept.entries (kept.object avoids).values.live)).bind
    intro table known
    exact .pure fun _ member => by cases member; exact known
  | type other => exact wrapped (guards_typeMapping deep avoids)
  | member kind other =>
    have free : vault.Free other := avoids
    exact wrapped (guards_memberMapping deep kind free.live)
  | members kind other =>
    have free : vault.Free other := avoids
    exact wrapped (guards_membersMapping deep kind free.live)
  | _ => exact .pure fun _ member => nomatch member

end Mappings

theorem guards_newMapper {subject : Value} (avoids : subject.Avoids vault) :
    Guards vault (newMapper subject) (Value.Avoids vault) :=
  guards_freshId.bind fun _ _ => .pure avoids

theorem guards_refuseHeld (held : Option Ref) (value : Value) :
    Guards vault (refuseHeld held value) fun _ => True := by
  unfold refuseHeld
  split
  · apply Maintains.get.bind
    intro store kept
    exact Maintains.ite (fun _ => .throw _) fun _ => .pure trivial
  · exact .pure trivial

theorem guards_tagsFrom (held : Option Ref) {value : Value} (avoids : value.Avoids vault) :
    Guards vault (tagsFrom held value) (Table.All (Value.Avoids vault)) := by
  unfold tagsFrom
  split
  · exact .pure .empty
  · apply (guards_refuseHeld held _).bind
    intro _ _
    apply (guards_mapping false avoids).bind
    intro mapping known
    split
    next tags => exact .pure (known tags rfl)
    · exact .throw _

theorem guards_newFunction {code : FunctionCode} {free : Array Ref} (known : code.Avoids vault)
    (boxes : ∀ box ∈ free, vault.Free box) : Guards vault (newFunction code free) vault.Free := by
  have made : Function.Avoids vault { code, free } := ⟨known, boxes⟩
  exact guards_alloc (.function made)

theorem guards_bind (hold : Hold) {receiver value : Value} (received : receiver.Avoids vault)
    (avoids : value.Avoids vault) : Guards vault (bind hold receiver value) (Value.Avoids vault) := by
  unfold bind
  split
  · exact guards_freshId.bind fun _ _ => .pure ⟨avoids.1, .inl received⟩
  next other =>
    have free : vault.Free other := avoids
    apply Maintains.get.bind
    intro store kept
    have known := kept.function free.live
    apply (guards_newFunction known.code known.free).bind
    intro copied free
    exact guards_freshId.bind fun _ _ => .pure ⟨free, .inl received⟩
  · apply Maintains.ite
    · intro _
      exact guards_freshId.bind fun _ _ => .pure ⟨avoids, .inl received⟩
    · intro _
      exact Maintains.get.bind fun _ _ => .throw _

section Members

theorem guards_methodValue {value : Value} (avoids : value.Avoids vault) :
    Guards vault (methodValue value) (Value.Avoids vault) :=
  Maintains.ite (fun _ => .pure avoids) fun _ => Maintains.get.bind fun _ _ => .throw _

theorem guards_declaredValue (kind : MemberKind) {value : Value} (avoids : value.Avoids vault) :
    Guards vault (declaredValue kind value) (Value.Avoids vault) := by
  cases kind with
  | method => exact guards_methodValue avoids
  | _ => exact .pure avoids

theorem guards_accessor {value : Value} (avoids : value.Avoids vault) :
    Guards vault (accessor value) fun accessor => ∀ value ∈ accessor, value.Avoids vault := by
  unfold accessor
  split
  · exact .pure fun _ member => nomatch member
  · apply (guards_methodValue avoids).bind
    intro method known
    exact .pure fun _ member => by cases member; exact known

theorem guards_tagsOf (held : Option Ref) {mapping : Table Value}
    (avoids : mapping.All (Value.Avoids vault)) :
    Guards vault (tagsOf held mapping) (Table.All (Value.Avoids vault)) := by
  unfold tagsOf
  split
  next tags found => exact guards_tagsFrom held (avoids _ tags found)
  · exact .pure .empty

theorem guards_entryFrom (held : Option Ref) (kind : MemberKind) {mapping : Table Value}
    (avoids : mapping.All (Value.Avoids vault)) :
    Guards vault (entryFrom held kind mapping) (Entry.Avoids vault) := by
  apply (guards_declaredValue kind (avoids.getD "value" Value.avoids_undefined)).bind
  intro value known
  apply (guards_tagsOf held avoids).bind
  intro tags tagged
  exact .pure ⟨known, tagged⟩

theorem guards_propertyWith (held : Option Ref) {property : Property} (known : property.Avoids vault)
    (key : String) {value : Value} (avoids : value.Avoids vault) :
    Guards vault (propertyWith held property key value) (Property.Avoids vault) := by
  unfold propertyWith
  split
  · apply (guards_accessor avoids).bind
    intro getter got
    exact .pure ⟨got, known.setter, known.tags⟩
  · apply (guards_accessor avoids).bind
    intro setter set
    exact .pure ⟨known.getter, set, known.tags⟩
  · apply (guards_tagsFrom held avoids).bind
    intro tags tagged
    exact .pure ⟨known.getter, known.setter, tagged⟩
  · exact .throw _

theorem avoids_present {mapping : Table Value} (avoids : mapping.All (Value.Avoids vault))
    (keys : List String) : ∀ entry ∈ present mapping keys, entry.2.Avoids vault := by
  intro entry member
  obtain ⟨key, _, found⟩ := List.mem_filterMap.mp member
  obtain ⟨value, there, rfl⟩ := Option.map_eq_some_iff.mp found
  exact avoids key value there

theorem guards_propertyFrom (held : Option Ref) {mapping : Table Value}
    (avoids : mapping.All (Value.Avoids vault)) :
    Guards vault (propertyFrom held mapping) (Property.Avoids vault) := by
  apply (Maintains.sequential Fault _).list_foldlM
  · intro property known entry member
    exact guards_propertyWith held known entry.1 (avoids_present avoids _ entry member)
  · exact .empty

theorem guards_memberGet (kind : MemberKind) {other : Ref} (live : vault.Live other) (key : String) :
    Guards vault (memberGet kind other key) (Value.Avoids vault) := by
  have entry : Guards vault (entryGet other key) (Value.Avoids vault) := by
    apply Maintains.get.bind
    intro store kept
    have known := kept.entry live
    split
    · exact .pure known.value
    · exact guards_newMap known.tags .writable
    · exact .throw _
  cases kind with
  | property =>
    apply Maintains.get.bind
    intro store kept
    have known := kept.property live
    split
    · exact .pure (Value.avoids_getD known.getter)
    · exact .pure (Value.avoids_getD known.setter)
    · exact guards_newMap known.tags .writable
    · exact .throw _
  | _ => exact entry

theorem guards_writeEntry {other : Ref} (free : vault.Free other) (change : Entry → Entry)
    (keeps : ∀ entry : Entry, entry.Avoids vault → (change entry).Avoids vault) :
    Guards vault (do write other (.entry (change ((← get).entry other)))) fun _ => True :=
  Maintains.get.bind fun _ kept => guards_write free (.entry (keeps _ (kept.entry free.live)))

theorem guards_entrySet (kind : MemberKind) {other : Ref} (free : vault.Free other) (key : String)
    {value : Value} (avoids : value.Avoids vault) :
    Guards vault (entrySet kind other key value) fun _ => True := by
  unfold entrySet
  split
  · apply (guards_declaredValue kind avoids).bind
    intro value known
    exact guards_writeEntry free ({ · with value }) fun _ entry => ⟨known, entry.tags⟩
  · apply (guards_tagsFrom none avoids).bind
    intro tags tagged
    exact guards_writeEntry free ({ · with tags }) fun _ entry => ⟨entry.value, tagged⟩
  · exact .throw _

theorem guards_propertySet {other : Ref} (free : vault.Free other) (key : String) {value : Value}
    (avoids : value.Avoids vault) :
    Guards vault (propertySet other key value) fun _ => True := by
  apply Maintains.get.bind
  intro store kept
  apply (guards_propertyWith none (kept.property free.live) key avoids).bind
  intro property known
  exact guards_write free (.property known)

theorem guards_memberSet (kind : MemberKind) {other : Ref} (free : vault.Free other) (key : String)
    {value : Value} (avoids : value.Avoids vault) :
    Guards vault (memberSet kind other key value) fun _ => True := by
  cases kind with
  | property => exact guards_propertySet free key avoids
  | field => exact guards_entrySet .field free key avoids
  | method => exact guards_entrySet .method free key avoids

theorem guards_loadMember (kind : MemberKind) {other : Ref} (free : vault.Free other)
    {mapping : Table Value} (avoids : mapping.All (Value.Avoids vault)) :
    Guards vault (loadMember kind other mapping) fun _ => True := by
  have entry (kind : MemberKind) : Guards vault (do
      entrySet kind other "value" ((mapping.get? "value").getD .undefined)
      let tags ← tagsOf none mapping
      write other (.entry { (← get).entry other with tags })) fun _ => True := by
    apply (guards_entrySet kind free _ (avoids.getD _ Value.avoids_undefined)).bind
    intro _ _
    apply (guards_tagsOf none avoids).bind
    intro tags tagged
    exact guards_writeEntry free ({ · with tags }) fun _ entry => ⟨entry.value, tagged⟩
  cases kind with
  | property =>
    apply (Maintains.sequential Fault _).list_forM
    intro entry member
    exact guards_propertySet free entry.1 (avoids_present avoids _ entry member)
  | field => exact entry .field
  | method => exact entry .method

theorem guards_newEntry {value : Value} (avoids : value.Avoids vault) :
    Guards vault (alloc (.entry { value })) vault.Free := by
  have made : Entry.Avoids vault { value } := ⟨avoids, .empty⟩
  exact guards_alloc (.entry made)

theorem guards_declareField (held : Option Ref) {value : Value} (avoids : value.Avoids vault) :
    Guards vault (declareField held value) vault.Free := by
  unfold declareField
  split
  · exact .pure avoids
  next other =>
    apply Maintains.get.bind
    intro store kept
    apply (guards_entryFrom held .field (kept.entries avoids.map_live)).bind
    intro entry known
    exact guards_alloc (.entry known)
  · exact guards_alloc (.entry .empty)
  · exact guards_newEntry avoids

theorem guards_declareMethod (held : Option Ref) {value : Value} (avoids : value.Avoids vault) :
    Guards vault (declareMethod held value) vault.Free := by
  unfold declareMethod
  split
  · exact .pure avoids
  next other =>
    apply Maintains.get.bind
    intro store kept
    apply (guards_entryFrom held .method (kept.entries avoids.map_live)).bind
    intro entry known
    exact guards_alloc (.entry known)
  · exact (guards_methodValue avoids).bind fun _ known => guards_newEntry known

def PropertyUpdate.Avoids (vault : Vault) : PropertyUpdate → Prop
  | .accessor _ _ function => ∀ value ∈ function, value.Avoids vault
  | .replace _ property => ∀ member ∈ property, vault.Free member

theorem guards_propertyUpdate (held : Option Ref) (key : String) {value : Value}
    (avoids : value.Avoids vault) :
    Guards vault (propertyUpdate held key value) (PropertyUpdate.Avoids vault) := by
  unfold propertyUpdate
  split
  · exact (guards_accessor avoids).bind fun _ known => .pure known
  · split
    · exact .pure fun _ member => nomatch member
    next other =>
      apply Maintains.get.bind
      intro store kept
      apply (guards_propertyFrom held (kept.entries avoids.map_live)).bind
      intro property known
      apply Maintains.ite
      · intro _
        exact .pure fun _ member => nomatch member
      · intro _
        apply (guards_alloc (.property known)).bind
        intro made free
        exact .pure fun _ member => by cases member; exact free
    · exact .pure fun _ member => by cases member; exact avoids
    · exact Maintains.get.bind fun _ _ => .throw _

theorem guards_insertMember {table member : Ref} (free : vault.Free table) (key : String)
    (new : vault.Free member) : Guards vault (insertMember table key member) fun _ => True :=
  guards_changeMembers free fun _ known => known.insert key new

theorem guards_eraseMember {table : Ref} (free : vault.Free table) (key : String) :
    Guards vault (eraseMember table key) fun _ => True :=
  guards_changeMembers free fun _ known => known.erase key

theorem guards_propertyNamed {table : Ref} (free : vault.Free table) (name : String) :
    Guards vault (propertyNamed table name) vault.Free := by
  apply Maintains.get.bind
  intro store kept
  split
  next member found => exact .pure (kept.members free.live name member found)
  · apply (guards_alloc (.property .empty)).bind
    intro made new
    apply (guards_insertMember free name new).bind
    intro _ _
    exact .pure new

theorem guards_applyUpdate {table : Ref} (free : vault.Free table) {update : PropertyUpdate}
    (avoids : update.Avoids vault) : Guards vault (applyUpdate table update) fun _ => True := by
  match update, avoids with
  | .accessor name isSetter function, avoids =>
    apply (guards_propertyNamed free name).bind
    intro other named
    apply Maintains.get.bind
    intro store kept
    have known := kept.property named.live
    have changed : Property.Avoids vault
        (if isSetter then { store.property other with setter := function }
          else { store.property other with getter := function }) := by
      split
      · exact ⟨known.getter, avoids, known.tags⟩
      · exact ⟨avoids, known.setter, known.tags⟩
    apply (guards_write named (.property changed)).bind
    intro _ _
    exact Maintains.ite (fun _ => guards_eraseMember free name) fun _ => .pure trivial
  | .replace name (some member), avoids => exact guards_insertMember free name (avoids member rfl)
  | .replace name none, _ => exact guards_eraseMember free name

theorem guards_declare (held : Option Ref) (kind : MemberKind) {table : Ref} (free : vault.Free table)
    (key : String) {value : Value} (avoids : value.Avoids vault) :
    Guards vault (declare held kind table key value) fun _ => True := by
  apply Maintains.ite
  · intro _
    exact .throw _
  · intro _
    cases kind with
    | field =>
      exact (guards_declareField held avoids).bind fun _ new => guards_insertMember free key new
    | method =>
      exact (guards_declareMethod held avoids).bind fun _ new => guards_insertMember free key new
    | property =>
      exact (guards_propertyUpdate held key avoids).bind fun _ known => guards_applyUpdate free known

theorem guards_declareAll (held : Option Ref) (kind : MemberKind) {table : Ref} (free : vault.Free table)
    {list : List (String × Value)} (avoids : ∀ entry ∈ list, entry.2.Avoids vault) :
    Guards vault (declareAll held kind table list) fun _ => True := by
  induction list with
  | nil => exact .pure trivial
  | cons entry rest ih =>
    apply (guards_declare held kind free entry.1 (avoids entry List.mem_cons_self)).bind
    intro _ _
    exact ih fun later member => avoids later (List.mem_cons_of_mem _ member)

theorem guards_newMembers (kind : MemberKind) : Guards vault (newMembers kind) vault.Free :=
  guards_alloc (.members kind .empty)

theorem guards_membersFrom (kind : MemberKind) {mapping : Table Value}
    (avoids : mapping.All (Value.Avoids vault)) :
    Guards vault (membersFrom kind mapping) vault.Free := by
  apply (guards_newMembers kind).bind
  intro table free
  apply (guards_declareAll none kind free avoids.entries).bind
  intro _ _
  exact .pure free

end Members

section Types

theorem guards_blankType (name : String) : Guards vault (blankType name) (TypeObject.Avoids vault) := by
  apply (guards_newMembers .field).bind
  intro fields first
  apply (guards_newMembers .method).bind
  intro methods second
  apply (guards_newMembers .property).bind
  intro properties third
  exact .pure ⟨.empty, fun _ member => (nomatch member), first, second, third⟩

theorem guards_membersValue (key : String) (kind : MemberKind) {value : Value}
    (avoids : value.Avoids vault) :
    Guards vault (membersValue key kind value) vault.Free := by
  unfold membersValue
  split
  · exact guards_newMembers kind
  next other => exact Maintains.get.bind fun _ kept => guards_membersFrom kind (kept.entries avoids.map_live)
  · exact Maintains.ite (fun _ => .pure avoids) fun _ => .throw _
  · exact .throw _

theorem guards_constructorValue {value : Value} (avoids : value.Avoids vault) :
    Guards vault (constructorValue value) fun constructor =>
      ∀ value ∈ constructor, value.Avoids vault := by
  unfold constructorValue
  split
  · exact .pure fun _ member => nomatch member
  · apply Maintains.ite
    · intro _
      exact .pure fun _ member => by cases member; exact avoids
    · intro _
      exact .throw _

theorem guards_typeChange (key : String) {value : Value} (avoids : value.Avoids vault) :
    Guards vault (typeChange key value) fun change =>
      ∀ type : TypeObject, type.Avoids vault → (change type).Avoids vault := by
  unfold typeChange
  split
  · apply (guards_tagsFrom none avoids).bind
    intro tags tagged
    exact .pure fun _ known => ⟨tagged, known.constructor, known.fields, known.methods, known.properties⟩
  · apply (guards_constructorValue avoids).bind
    intro constructor given
    exact .pure fun _ known => ⟨known.tags, given, known.fields, known.methods, known.properties⟩
  · apply (guards_membersValue _ .field avoids).bind
    intro fields free
    exact .pure fun _ known => ⟨known.tags, known.constructor, free, known.methods, known.properties⟩
  · apply (guards_membersValue _ .method avoids).bind
    intro methods free
    exact .pure fun _ known => ⟨known.tags, known.constructor, known.fields, free, known.properties⟩
  · apply (guards_membersValue _ .property avoids).bind
    intro properties free
    exact .pure fun _ known => ⟨known.tags, known.constructor, known.fields, known.methods, free⟩
  · apply (guards_membersValue _ .property avoids).bind
    intro properties free
    exact .pure fun _ known => ⟨known.tags, known.constructor, known.fields, known.methods, free⟩
  · exact .throw _

theorem guards_typeName (mapping : Table Value) :
    Guards vault (typeName mapping) fun _ => True := by
  unfold typeName
  split
  · exact .throw _
  · exact .throw _
  · exact Maintains.ite (fun _ => .throw _) fun _ => .pure trivial
  · exact Maintains.get.bind fun _ _ => .throw _

theorem guards_typeFrom {mapping : Table Value} (avoids : mapping.All (Value.Avoids vault)) :
    Guards vault (typeFrom mapping) vault.Free := by
  apply (guards_typeName mapping).bind
  intro name _
  apply (guards_blankType name).bind
  intro blank empty
  apply Maintains.bind ((Maintains.sequential Fault _).list_foldlM _ ?each empty)
  · intro type known
    exact guards_alloc (.type known)
  · intro type known entry member
    apply (guards_typeChange entry.1 (avoids_present avoids _ entry member)).bind
    intro change keeps
    exact .pure (keeps type known)

theorem guards_typeGet {other : Ref} (free : vault.Free other) (key : String) :
    Guards vault (typeGet other key) (Value.Avoids vault) := by
  apply Maintains.get.bind
  intro store kept
  have known := kept.type free
  split
  · exact .pure trivial
  · exact guards_newMap known.tags .writable
  · exact .pure (Value.avoids_getD known.constructor)
  · exact .pure known.fields
  · exact .pure known.methods
  · exact .pure known.properties
  · exact (guards_typeMapping true free).bind fun _ all => guards_newMap all .writable
  · exact .throw _

theorem guards_typeSet {other : Ref} (free : vault.Free other) (key : String) {value : Value}
    (avoids : value.Avoids vault) : Guards vault (typeSet other key value) fun _ => True := by
  apply Maintains.ite
  · intro _
    apply (guards_typeChange key avoids).bind
    intro change keeps
    apply Maintains.get.bind
    intro store kept
    exact guards_write free (.type (keeps _ (kept.type free)))
  · intro _
    exact .throw _

theorem guards_newObject {type : Ref} (free : vault.Free type) :
    Guards vault (newObject type) vault.Free := by
  apply Maintains.get.bind
  intro store kept
  apply Maintains.get.bind
  intro _ same
  have fields := kept.members (same.type free).fields.live
  apply Maintains.bind ((Maintains.sequential Fault _).table_mapM fields ?each)
  · intro values avoids
    apply (guards_alloc (.map avoids)).bind
    intro storage stored
    have made : Object.Avoids vault { type, values := storage } := ⟨free, stored, .empty⟩
    exact guards_alloc (.object made)
  · intro field declared
    exact Maintains.get.bind fun _ kept => guards_copy (kept.entry declared.live).value

theorem guards_newObjectWith {type : Ref} (free : vault.Free type) {values : Table Value}
    (avoids : values.All (Value.Avoids vault)) :
    Guards vault (newObjectWith type values) vault.Free := by
  apply (guards_newObject free).bind
  intro object new
  apply Maintains.get.bind
  intro store kept
  apply Maintains.get.bind
  intro later holds
  have storage := (kept.object new).values
  apply (guards_write storage (.map ((holds.entries storage.live).insertAll avoids.entries))).bind
  intro _ _
  exact .pure new

end Types

end StoreM

end ScriptMachine
