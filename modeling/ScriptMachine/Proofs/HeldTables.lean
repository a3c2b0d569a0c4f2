import ScriptMachine.Proofs.PropertyDeclarations

/-! Declarations made while their table is held for writing, beside the same ones made while it is not.
Tags are what is converted last, so the two differ only where the declaration would succeed and its tags
are a type that the table belongs to. A declaration that fails leaves the store as it was. -/

namespace ScriptMachine.StoreM

open Store

variable {α β : Type} {store : Store}

def Sure (action : StoreM α) : Prop := ∀ store, ∃ value later, action.run store = .ok value later

theorem sure_compositional : Compositional @Sure where
  pure value store := ⟨value, store, rfl⟩
  bind first next store := by
    obtain ⟨value, middle, ran⟩ := first store
    obtain ⟨result, later, done⟩ := next value middle
    exact ⟨result, later, (bind_of_ok ran).trans done⟩

theorem sure_ite {condition : Prop} [Decidable condition] {yes no : StoreM α} (positive : Sure yes)
    (negative : Sure no) : Sure (if condition then yes else no) := by
  split
  · exact positive
  · exact negative

theorem sure_get : Sure (get : StoreM Store) := fun store => ⟨store, store, rfl⟩

theorem sure_alloc (cell : Cell) : Sure (alloc cell) := fun _ => ⟨_, _, rfl⟩

theorem sure_write (ref : Ref) (cell : Cell) : Sure (write ref cell) := fun _ => ⟨_, _, rfl⟩

theorem sure_insertMember (table : Ref) (key : String) (member : Ref) :
    Sure (insertMember table key member) := fun _ => ⟨_, _, rfl⟩

theorem sure_eraseMember (table : Ref) (key : String) : Sure (eraseMember table key) :=
  fun _ => ⟨_, _, rfl⟩

theorem sure_applyUpdate (table : Ref) (update : PropertyUpdate) : Sure (applyUpdate table update) := by
  cases update with
  | accessor name isSetter function =>
    have named : Sure (propertyNamed table name) := by
      refine sure_compositional.bind sure_get fun store => ?_
      cases (store.members table).get? name with
      | some ref => exact sure_compositional.pure ref
      | none =>
        refine sure_compositional.bind (sure_alloc _) fun ref => ?_
        exact sure_compositional.bind (sure_insertMember table name ref) fun _ =>
          sure_compositional.pure ref
    refine sure_compositional.bind named fun ref => ?_
    refine sure_compositional.bind sure_get fun store => ?_
    refine sure_compositional.bind (sure_write ref _) fun _ => ?_
    exact sure_ite (sure_eraseMember table name) (sure_compositional.pure ())
  | replace name property =>
    cases property with
    | some ref => exact sure_insertMember table name ref
    | none => exact sure_eraseMember table name

/-- A computation that leaves the store as it is, and fails only for what it is given. -/
def Checks (store : Store) (action : StoreM α) : Prop :=
  match action.run store with
  | .ok _ later => later = store
  | .error fault later => fault ≠ .cellHeld ∧ later = store

/-- A computation made while a table is held, beside the same one made while none is. The latter leaves
the store as it is when it fails, and then both fail alike. When it succeeds, the former succeeds alike
unless there is a clash, which it finds before it changes anything. -/
def Hindered (clash : Prop) (store : Store) (holding free : StoreM α) : Prop :=
  match free.run store with
  | .ok value later => (clash ∧ holding.run store = .error .cellHeld store) ∨
      (¬clash ∧ holding.run store = .ok value later)
  | .error fault later => fault ≠ .cellHeld ∧ later = store ∧ holding.run store = .error fault later

theorem Checks.pure (value : α) : Checks store (Pure.pure value : StoreM α) :=
  show store = store from rfl

theorem Checks.throw {fault : Fault} (other : fault ≠ .cellHeld) :
    Checks store (throw fault : StoreM α) := ⟨other, rfl⟩

theorem Checks.get_bind {rest : Store → StoreM α} (next : Checks store (rest store)) :
    Checks store (get >>= rest) := next

theorem Checks.bind {first : StoreM α} {rest : α → StoreM β} (checks : Checks store first)
    (next : ∀ value, Checks store (rest value)) : Checks store (first >>= rest) := by
  unfold Checks at checks
  cases ran : first.run store with
  | ok value middle =>
    rw [ran] at checks
    obtain rfl : middle = store := checks
    unfold Checks
    rw [show (first >>= rest).run middle = (rest value).run middle from bind_of_ok ran]
    exact next value
  | error fault middle =>
    rw [ran] at checks
    unfold Checks
    rw [show (first >>= rest).run store = .error fault middle from bind_of_error ran]
    exact checks

namespace Hindered

variable {clash other : Prop} {holding free : StoreM α}

theorem of_checks {action : StoreM α} (none : ¬clash) (checks : Checks store action) :
    Hindered clash store action action := by
  unfold Checks at checks
  unfold Hindered
  cases ran : action.run store with
  | ok value later => exact .inr ⟨none, rfl⟩
  | error fault later =>
    rw [ran] at checks
    exact ⟨checks.1, checks.2, rfl⟩

theorem of_sure {action : StoreM α} (none : ¬clash) (sure : Sure action) :
    Hindered clash store action action := by
  obtain ⟨value, later, ran⟩ := sure store
  unfold Hindered
  rw [ran]
  exact .inr ⟨none, rfl⟩

theorem throw {fault : Fault} (other : fault ≠ .cellHeld) :
    Hindered clash store (throw fault : StoreM α) (throw fault) := ⟨other, rfl, rfl⟩

theorem congr (hindered : Hindered clash store holding free) (same : clash ↔ other) :
    Hindered other store holding free := by
  rwa [← propext same]

/-- What is checked first is checked alike. -/
theorem after_check {first : StoreM β} {rest last : β → StoreM α} (checks : Checks store first)
    (next : ∀ value, Hindered clash store (rest value) (last value)) :
    Hindered clash store (first >>= rest) (first >>= last) := by
  unfold Checks at checks
  cases ran : first.run store with
  | ok value middle =>
    rw [ran] at checks
    obtain rfl : middle = store := checks
    have go (after : β → StoreM α) : (first >>= after).run middle = (after value).run middle :=
      bind_of_ok ran
    unfold Hindered
    rw [go rest, go last]
    exact next value
  | error fault middle =>
    rw [ran] at checks
    have stop (after : β → StoreM α) : (first >>= after).run store = .error fault middle :=
      bind_of_error ran
    unfold Hindered
    rw [stop rest, stop last]
    exact ⟨checks.1, checks.2, rfl⟩

/-- What cannot fail changes nothing about whether a computation does. -/
theorem followed {rest : α → StoreM β} (hindered : Hindered clash store holding free)
    (sure : ∀ value, Sure (rest value)) :
    Hindered clash store (holding >>= rest) (free >>= rest) := by
  unfold Hindered at hindered ⊢
  cases ran : free.run store with
  | ok value later =>
    rw [ran] at hindered
    obtain ⟨result, last, done⟩ := sure value later
    rw [show (free >>= rest).run store = .ok result last from (bind_of_ok ran).trans done]
    refine hindered.imp (fun both => ⟨both.1, bind_of_error both.2⟩) fun both => ⟨both.1, ?_⟩
    exact (bind_of_ok both.2).trans done
  | error fault later =>
    rw [ran] at hindered
    rw [show (free >>= rest).run store = .error fault later from bind_of_error ran]
    exact ⟨hindered.1, hindered.2.1, bind_of_error hindered.2.2⟩

theorem get_bind {rest last : Store → StoreM α} (next : Hindered clash store (rest store) (last store)) :
    Hindered clash store (get >>= rest) (get >>= last) := next

/-- A computation by itself, with no table held. -/
theorem alone (hindered : Hindered clash store holding free) : Hindered False store free free := by
  unfold Hindered at hindered ⊢
  cases ran : free.run store with
  | ok value later => exact .inr ⟨id, rfl⟩
  | error fault later =>
    rw [ran] at hindered
    exact ⟨hindered.1, hindered.2.1, rfl⟩

end Hindered

theorem checks_methodValue (value : Value) : Checks store (methodValue value) := by
  unfold methodValue
  split
  · exact .pure value
  · exact .get_bind (.throw Fault.noConfusion)

theorem checks_declaredValue (kind : MemberKind) (value : Value) :
    Checks store (declaredValue kind value) := by
  cases kind with
  | method => exact checks_methodValue value
  | _ => exact .pure value

theorem checks_accessor (value : Value) : Checks store (accessor value) := by
  unfold accessor
  split
  · exact .pure none
  · exact (checks_methodValue _).bind fun _ => .pure _

theorem checks_accessorOf (mapping : Table Value) (key : String) :
    Checks store (accessorOf mapping key) := by
  unfold accessorOf
  split
  · exact checks_accessor _
  · exact .pure none

/-- A value without a mapping is found out before anything is made. -/
theorem eq_of_mapping?_none {deep : Bool} {value : Value} {later : Store}
    (ran : (mapping? deep value).run store = .ok none later) : later = store := by
  have mapped (act : StoreM (Table Value)) :
      (do return some (← act) : StoreM (Option (Table Value))).run store ≠ .ok none later := by
    intro ran
    obtain ⟨form, middle, -, ended⟩ := bind_eq_ok ran
    cases ended
  cases value with
  | map handle ref => exact absurd ran (mapped _)
  | object ref => exact absurd ran (mapped _)
  | type ref =>
    rw [mapping?, map_eq_pure_bind] at ran
    exact absurd ran (mapped _)
  | member kind ref =>
    rw [mapping?, map_eq_pure_bind] at ran
    exact absurd ran (mapped _)
  | members kind ref =>
    rw [mapping?, map_eq_pure_bind] at ran
    exact absurd ran (mapped _)
  | _ =>
    cases ran
    rfl

theorem sure_mapping? (value : Value) : Sure (mapping? false value) := by
  intro store
  have maps (store : Store) (entries : Table Value) (_ : True) : True := trivial
  have made : Builds False (fun _ => True) store (mapping? false value) _ :=
    (mappable_any maps).mapping? trivial
  obtain ⟨form, later, ran, -⟩ := made.run (.refl store) trivial
  exact ⟨form, later, ran⟩

def tagsOrRefusal : Option (Table Value) → StoreM (Table Value)
  | some tags => return tags
  | none => throw (.conversion "value of \"tags\" isn't convertible to map")

theorem run_mapping?_type (ref : Ref) (store : Store) :
    ∃ tags later, (mapping? false (.type ref)).run store = .ok (some tags) later := by
  obtain ⟨form, later, ran⟩ := sure_mapping? (.type ref) store
  cases form with
  | some tags => exact ⟨tags, later, ran⟩
  | none =>
    rw [mapping?, map_eq_pure_bind] at ran
    obtain ⟨form, middle, -, ended⟩ := bind_eq_ok ran
    cases ended

variable (table : Ref)

theorem run_refuseHeld {value : Value} (unheld : Unheld (some table) store value) :
    (refuseHeld (some table) value).run store = .ok () store := by
  obtain ⟨_, later, ran, rfl⟩ := (decides_refuseHeld (some table) value).ok_of_accepted unheld
  exact ran

theorem run_refuseHeld_type {value : Value} (owning : ¬Unheld (some table) store value) :
    (refuseHeld (some table) value).run store = .error .cellHeld store ∧ ∃ ref, value = .type ref := by
  unfold Unheld at owning
  push Not at owning
  obtain ⟨_, ref, ⟨⟩, rfl, own⟩ := owning
  refine ⟨?_, ref, rfl⟩
  have asked : (refuseHeld (some table) (.type ref)).run store =
      (if table = (store.type ref).fields ∨ table = (store.type ref).methods ∨
        table = (store.type ref).properties then throw .cellHeld else pure () : StoreM Unit).run store := rfl
  rw [asked, if_pos own]
  rfl

/-- A type always has a mapping, so it is the clash alone that makes the difference. -/
theorem hindered_tagsFrom (value : Value) :
    Hindered (¬Unheld (some table) store value) store (tagsFrom (some table) value) (tagsFrom none value) := by
  by_cases undefined : value = .undefined
  · subst undefined
    exact .of_checks (fun owning => owning fun _ _ _ is => nomatch is) (.pure _)
  rw [tagsFrom_eq _ undefined, tagsFrom_eq _ undefined]
  let rest (_ : Unit) : StoreM (Table Value) := mapping? false value >>= tagsOrRefusal
  show Hindered _ store (refuseHeld (some table) value >>= rest) (rest ())
  by_cases unheld : Unheld (some table) store value
  · have go : (refuseHeld (some table) value >>= rest).run store = (rest ()).run store :=
      bind_of_ok (run_refuseHeld table unheld)
    obtain ⟨form, middle, ran⟩ := sure_mapping? value store
    have made : (rest ()).run store = (tagsOrRefusal form).run middle := bind_of_ok ran
    unfold Hindered
    rw [go, made]
    cases form with
    | some tags => exact .inr ⟨fun owning => owning unheld, rfl⟩
    | none =>
      obtain rfl := eq_of_mapping?_none ran
      exact ⟨Fault.noConfusion, rfl, rfl⟩
  · obtain ⟨refused, ref, rfl⟩ := run_refuseHeld_type table unheld
    obtain ⟨tags, later, ran⟩ := run_mapping?_type ref store
    have made : (rest ()).run store = .ok tags later := bind_of_ok ran
    unfold Hindered
    rw [made]
    exact .inl ⟨unheld, bind_of_error refused⟩

/-- A mapping whose tags are a type that a table belongs to. -/
def OwningTags (store : Store) (mapping : Table Value) : Prop :=
  ∃ tags, mapping.get? "tags" = some tags ∧ ¬Unheld (some table) store tags

/-- A value that describes a member by such a mapping. -/
def OwningMapping (store : Store) (value : Value) : Prop :=
  ∃ handle source, value = .map handle source ∧ OwningTags table store (store.entries source)

theorem hindered_tagsOf (mapping : Table Value) :
    Hindered (OwningTags table store mapping) store (tagsOf (some table) mapping) (tagsOf none mapping) := by
  unfold tagsOf OwningTags
  cases mapping.get? "tags" with
  | some tags => exact (hindered_tagsFrom table tags).congr (by simp)
  | none => exact .of_checks (by simp) (.pure _)

theorem hindered_entryFrom (kind : MemberKind) (mapping : Table Value) :
    Hindered (OwningTags table store mapping) store (entryFrom (some table) kind mapping)
      (entryFrom none kind mapping) :=
  .after_check (checks_declaredValue kind _) fun _ =>
    (hindered_tagsOf table mapping).followed fun _ => sure_compositional.pure _

theorem hindered_propertyFrom (mapping : Table Value) :
    Hindered (OwningTags table store mapping) store (propertyFrom (some table) mapping)
      (propertyFrom none mapping) := by
  rw [propertyFrom_eq, propertyFrom_eq]
  refine .after_check (checks_accessorOf mapping "get") fun _ => ?_
  refine .after_check (checks_accessorOf mapping "set") fun _ => ?_
  exact (hindered_tagsOf table mapping).followed fun _ => sure_compositional.pure _

theorem owningMapping_map {handle : Handle} {source : Ref} :
    OwningMapping table store (.map handle source) ↔ OwningTags table store (store.entries source) := by
  simp [OwningMapping]

theorem not_owningMapping {value : Value} (other : ∀ handle source, value ≠ .map handle source) :
    ¬OwningMapping table store value :=
  fun ⟨handle, source, is, _⟩ => other handle source is

theorem hindered_mapped (kind : MemberKind) (handle : Handle) (source : Ref) :
    Hindered (OwningMapping table store (.map handle source)) store
      (do alloc (.entry (← entryFrom (some table) kind ((← get).entries source))))
      (do alloc (.entry (← entryFrom none kind ((← get).entries source)))) := by
  rw [owningMapping_map]
  exact .get_bind ((hindered_entryFrom table kind _).followed fun _ => sure_alloc _)

theorem hindered_declareField (value : Value) :
    Hindered (OwningMapping table store value) store (declareField (some table) value)
      (declareField none value) := by
  cases value with
  | map handle source => exact hindered_mapped table .field handle source
  | member kind ref =>
    cases kind with
    | field => exact .of_sure (not_owningMapping table fun _ _ is => nomatch is) (sure_compositional.pure ref)
    | _ => exact .of_sure (not_owningMapping table fun _ _ is => nomatch is) (sure_alloc _)
  | _ => exact .of_sure (not_owningMapping table fun _ _ is => nomatch is) (sure_alloc _)

/-- A value that is stored as it is, if it can serve as a method. -/
theorem hindered_methodValue {value : Value} (other : ∀ handle source, value ≠ .map handle source) :
    Hindered (OwningMapping table store value) store
      (do alloc (.entry { value := ← methodValue value })) (do alloc (.entry { value := ← methodValue value })) :=
  .followed (.of_checks (not_owningMapping table other) (checks_methodValue value)) fun _ => sure_alloc _

theorem hindered_declareMethod (value : Value) :
    Hindered (OwningMapping table store value) store (declareMethod (some table) value)
      (declareMethod none value) := by
  cases value with
  | map handle source => exact hindered_mapped table .method handle source
  | member kind ref =>
    cases kind with
    | method => exact .of_sure (not_owningMapping table fun _ _ is => nomatch is) (sure_compositional.pure ref)
    | _ => exact hindered_methodValue table fun _ _ is => nomatch is
  | _ => exact hindered_methodValue table fun _ _ is => nomatch is

theorem hindered_accessorUpdate (name : String) (isSetter : Bool) (value : Value) :
    Hindered (OwningMapping table store value) store
      (do return PropertyUpdate.accessor name isSetter (← accessor value))
      (do return PropertyUpdate.accessor name isSetter (← accessor value)) := by
  by_cases mapped : ∃ handle source, value = .map handle source
  · obtain ⟨handle, source, rfl⟩ := mapped
    exact .get_bind (.throw Fault.noConfusion)
  · push Not at mapped
    exact .followed (.of_checks (not_owningMapping table mapped) (checks_accessor value)) fun _ =>
      sure_compositional.pure _

theorem hindered_propertyUpdate (key : String) (value : Value) :
    Hindered (OwningMapping table store value) store (propertyUpdate (some table) key value)
      (propertyUpdate none key value) := by
  unfold propertyUpdate
  cases accessorKey? key with
  | some named => exact hindered_accessorUpdate table named.2 named.1 value
  | none =>
    have refused {value : Value} (other : ∀ handle source, value ≠ .map handle source) :
        Hindered (OwningMapping table store value) store
          (do throw (.invalidIndexValueType (value.kind (← get))) : StoreM PropertyUpdate)
          (do throw (.invalidIndexValueType (value.kind (← get)))) :=
      .get_bind (.throw Fault.noConfusion)
    cases value with
    | undefined => exact .of_checks (not_owningMapping table fun _ _ is => nomatch is) (.pure _)
    | map handle source =>
      rw [owningMapping_map]
      refine .get_bind ((hindered_propertyFrom table _).followed fun property => ?_)
      refine sure_ite (sure_compositional.pure _) ?_
      exact sure_compositional.bind (sure_alloc _) fun _ => sure_compositional.pure _
    | member kind ref =>
      cases kind with
      | property => exact .of_checks (not_owningMapping table fun _ _ is => nomatch is) (.pure _)
      | _ => exact refused fun _ _ is => nomatch is
    | _ => exact refused fun _ _ is => nomatch is

/-- A declaration while its table is held fails alike, or succeeds alike unless its tags are a type that
the table belongs to. -/
theorem hindered_declare (kind : MemberKind) (key : String) (value : Value) :
    Hindered (OwningMapping table store value) store (declare (some table) kind table key value)
      (declare none kind table key value) := by
  unfold declare
  cases key.isEmpty with
  | true => exact .throw Fault.noConfusion
  | false =>
    cases kind with
    | field => exact (hindered_declareField table value).followed fun _ => sure_insertMember _ _ _
    | method => exact (hindered_declareMethod table value).followed fun _ => sure_insertMember _ _ _
    | property => exact (hindered_propertyUpdate table key value).followed fun _ => sure_applyUpdate _ _

theorem hindered_propertyWith (property : Property) (key : String) (value : Value) :
    Hindered False store (propertyWith none property key value) (propertyWith none property key value) := by
  have given (change : Option Value → Property) :
      Hindered False store (do return change (← accessor value)) (do return change (← accessor value)) :=
    .of_checks id ((checks_accessor value).bind fun _ => .pure _)
  unfold propertyWith
  split
  · exact given fun getter => { property with getter }
  · exact given fun setter => { property with setter }
  · exact (hindered_tagsFrom 0 value).alone.followed fun _ => sure_compositional.pure _
  · exact .throw Fault.noConfusion

theorem hindered_entrySet (kind : MemberKind) (ref : Ref) (key : String) (value : Value) :
    Hindered False store (entrySet kind ref key value) (entrySet kind ref key value) := by
  unfold entrySet
  split
  · refine .followed (.of_checks id (checks_declaredValue kind value)) fun _ => ?_
    exact sure_compositional.bind sure_get fun _ => sure_write _ _
  · refine (hindered_tagsFrom 0 value).alone.followed fun _ => ?_
    exact sure_compositional.bind sure_get fun _ => sure_write _ _
  · exact .throw Fault.noConfusion

/-- A change to a member that fails leaves the store as it is. -/
theorem hindered_memberSet (kind : MemberKind) (ref : Ref) (key : String) (value : Value) :
    Hindered False store (memberSet kind ref key value) (memberSet kind ref key value) := by
  cases kind with
  | property => exact .get_bind ((hindered_propertyWith _ key value).followed fun _ => sure_write _ _)
  | _ => exact hindered_entrySet _ ref key value

end ScriptMachine.StoreM
