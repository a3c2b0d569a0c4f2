import ScriptMachine.Proofs.Ranges
import ScriptMachine.Proofs.FrozenComputations
import ScriptMachine.Machine.Step

/-! The binding of arguments, the builtins and the mappings of values keep out of a vault. -/

namespace ScriptMachine

variable {vault : Vault}

section Calls

variable {code : FunctionCode} {arguments : Array Value} {keywords : Table Value}

namespace StoreM

theorem guards_bindPositional (code : FunctionCode)
    (given : ∀ value ∈ arguments, value.Avoids vault) :
    Guards vault (bindPositional code arguments) fun slots =>
      ∀ value ∈ slots, value.Avoids vault := by
  have part := Value.avoids_extract given
  apply Maintains.ite
  · intro _
    apply Maintains.ite
    · intro _
      exact .throw _
    · intro _
      apply (guards_newArray (part code.arity _) .writable).bind
      intro rest free
      exact .pure (Value.avoids_push (part _ _) free)
  · intro _
    exact Maintains.ite (fun _ => .throw _) fun _ => .pure given

theorem avoids_declaredKeywords (known : code.Avoids vault) (keyed : keywords.All (Value.Avoids vault)) :
    ∀ value ∈ declaredKeywords code keywords, value.Avoids vault := by
  intro value member
  obtain ⟨keyword, declared, rfl⟩ := List.mem_map.mp (List.mem_toArray.mp member)
  have default := known keyword declared
  simp only [keywordValue]
  split
  · exact default
  · exact default
  next passed _ found => exact keyed _ passed found

theorem guards_bindKeywords (known : code.Avoids vault) (keyed : keywords.All (Value.Avoids vault)) :
    Guards vault (bindKeywords code keywords) fun slots =>
      ∀ value ∈ slots, value.Avoids vault := by
  have declared := avoids_declaredKeywords known keyed
  apply Maintains.ite
  · intro _
    apply (guards_newMap (keyed.filterKeys _) .writable).bind
    intro caught free
    exact .pure (Value.avoids_push declared free)
  · intro _
    have refused : Guards vault (refuseUndeclared code keywords) fun _ => True := by
      unfold refuseUndeclared
      split
      · exact .pure trivial
      · exact .throw _
    exact refused.bind fun _ _ => .pure declared

theorem guards_bindArguments (known : code.Avoids vault) (given : ∀ value ∈ arguments, value.Avoids vault)
    (keyed : keywords.All (Value.Avoids vault)) :
    Guards vault (bindArguments code arguments keywords) fun slots =>
      ∀ value ∈ slots, value.Avoids vault := by
  apply (guards_bindPositional code given).bind
  intro positional first
  apply (guards_bindKeywords known keyed).bind
  intro named second
  exact .pure (Value.avoids_append first second)

theorem guards_captured {values : List Value} (avoids : ∀ value ∈ values, value.Avoids vault) :
    Guards vault (Act.captured values) fun boxes => ∀ box ∈ boxes, vault.Free box := by
  fun_induction Act.captured values with
  | case1 => exact .pure fun _ member => nomatch member
  | case2 other rest ih =>
    apply (ih fun later member => avoids later (List.mem_cons_of_mem _ member)).bind
    intro boxes known
    exact .pure (List.forall_mem_cons.mpr ⟨avoids _ List.mem_cons_self, known⟩)
  | case3 value rest _ ih =>
    have boxed : Guards vault (newBox value) vault.Free :=
      guards_alloc (.box (avoids _ List.mem_cons_self))
    apply boxed.bind
    intro made free
    apply (ih fun later member => avoids later (List.mem_cons_of_mem _ member)).bind
    intro boxes known
    exact .pure (List.forall_mem_cons.mpr ⟨free, known⟩)

end StoreM

end Calls

structure CallContext.Avoids (vault : Vault) (context : CallContext) : Prop where
  arguments : ∀ value ∈ context.arguments, value.Avoids vault
  keywords : context.keywords.All (Value.Avoids vault)
  receiver : ∀ value ∈ context.receiver, value.Avoids vault

namespace CallContext.Avoids

variable {context : CallContext}

theorem argument (avoids : context.Avoids vault) (position : Nat) :
    (context.argument position).Avoids vault := by
  apply Value.avoids_getD
  intro value found
  exact avoids.arguments value (Array.mem_of_getElem? found)

theorem keyword (avoids : context.Avoids vault) (name : String) : (context.keyword name).Avoids vault :=
  avoids.keywords.getD name Value.avoids_undefined

theorem listed (avoids : context.Avoids vault) : ∀ value ∈ context.arguments.toList, value.Avoids vault :=
  fun value member => avoids.arguments value (Array.mem_toList_iff.mp member)

end CallContext.Avoids

namespace Builtin

open StoreM

variable {context : CallContext}

theorem guards_requireCount (context : CallContext) (least most : Nat) :
    Guards vault (requireCount context least most) fun _ => True :=
  Maintains.ite (fun _ => .pure trivial) fun _ => .throw _

theorem guards_requireOnly (context : CallContext) (allowed : List String) :
    Guards vault (requireOnly context allowed) fun _ => True :=
  Maintains.ite (fun _ => .pure trivial) fun _ => .throw _

theorem guards_intArgument (context : CallContext) (position : Nat) (name : String) :
    Guards vault (intArgument context position name) fun _ => True := by
  unfold intArgument
  split
  · exact .pure trivial
  · exact Maintains.get.bind fun _ _ => .throw _

theorem guards_runRange (context : CallContext) :
    Guards vault (runRange context) (Value.Avoids vault) := by
  have made (start stop step : Int64) :
      Guards vault (newArray (rangeNumbers start stop step) .writable) (Value.Avoids vault) := by
    apply guards_newArray _ .writable
    intro value member
    rw [rangeNumbers_eq, List.mem_toArray] at member
    obtain ⟨_, _, rfl⟩ := List.mem_map.mp member
    trivial
  have finished (start stop step : Int64) : Guards vault (do
      if step ≤ 0 then throw .invalidRangeStep
      if (rangeCount start stop step).toNat > maxArraySize then throw .arrayLimit
      newArray (rangeNumbers start stop step) .writable) (Value.Avoids vault) := by
    have fits : Guards vault (do
        if (rangeCount start stop step).toNat > maxArraySize then throw .arrayLimit
        newArray (rangeNumbers start stop step) .writable) (Value.Avoids vault) :=
      Maintains.ite (fun _ => (Maintains.throw _).bind fun _ (_ : True) => made start stop step)
        fun _ => made start stop step
    exact Maintains.ite (fun _ => (Maintains.throw _).bind fun _ (_ : True) => fits) fun _ => fits
  apply (guards_requireCount context 2 3).bind
  intro _ _
  apply (guards_requireOnly context []).bind
  intro _ _
  apply (guards_intArgument context 0 "start").bind
  intro start _
  apply (guards_intArgument context 1 "stop").bind
  intro stop _
  apply Maintains.ite
  · intro _
    exact (guards_intArgument context 2 "step").bind fun step _ => finished start stop step
  · intro _
    exact finished start stop 1

theorem guards_typeArguments {values : List Value} (avoids : ∀ value ∈ values, value.Avoids vault)
    (position : Nat) {mapping : Table Value} (known : mapping.All (Value.Avoids vault)) :
    Guards vault (typeArguments position mapping values) (Table.All (Value.Avoids vault)) := by
  induction values generalizing position mapping with
  | nil => exact .pure known
  | cons value rest ih =>
    unfold typeArguments
    split
    next key _ =>
      apply ih (fun later member => avoids later (List.mem_cons_of_mem _ member))
      exact known.insert key (avoids value List.mem_cons_self)
    · exact Maintains.get.bind fun _ _ => .throw _

theorem guards_typeMappingOf (avoids : context.Avoids vault) :
    Guards vault (typeMappingOf context) (Table.All (Value.Avoids vault)) := by
  unfold typeMappingOf
  split
  · exact .throw _
  next handle other rest spelled =>
    have described := avoids.listed (.map handle other) (by simp [spelled])
    apply (guards_requireCount context 1 1).bind
    intro _ _
    apply (guards_requireOnly context []).bind
    intro _ _
    apply Maintains.get.bind
    intro store kept
    exact .pure (kept.entries described.map_live)
  next name rest spelled =>
    apply (guards_requireOnly context _).bind
    intro _ _
    have others : ∀ value ∈ rest, value.Avoids vault := fun value member =>
      avoids.listed value (spelled ▸ List.mem_cons_of_mem _ member)
    have named : (Table.empty.insert "name" (.string name)).All (Value.Avoids vault) :=
      Table.All.empty.insert "name" trivial
    apply (guards_typeArguments others 1 named).bind
    intro mapping known
    exact .pure (known.insertAll avoids.keywords.entries)
  · exact Maintains.get.bind fun _ _ => .throw _

theorem guards_runTypeOf (avoids : context.Avoids vault) :
    Guards vault (runTypeOf context) (Value.Avoids vault) := by
  apply (guards_requireCount context 1 1).bind
  intro _ _
  have given := avoids.argument 0
  split
  next other named =>
    rw [named] at given
    apply Maintains.get.bind
    intro store kept
    exact .pure (kept.object given).type
  · exact Maintains.get.bind fun _ _ => .throw _

theorem guards_positionalEntries (avoids : context.Avoids vault) :
    Guards vault (positionalEntries context) fun list =>
      ∀ entry ∈ list, entry.2.Avoids vault := by
  unfold positionalEntries
  split
  · exact .pure fun _ member => nomatch member
  next handle other rest spelled =>
    have given := avoids.listed (.map handle other) (by simp [spelled])
    exact Maintains.get.bind fun _ kept => .pure (kept.entries given.map_live).entries
  · exact Maintains.get.bind fun _ _ => .throw _

theorem guards_keywordField (name : String) {value : Value} (avoids : value.Avoids vault) :
    Guards vault (keywordField name value) vault.Free := by
  unfold keywordField
  split
  · exact .pure avoids
  · exact guards_alloc (.entry .empty)
  · exact guards_newEntry avoids

theorem guards_keywordMethod (name : String) {value : Value} (avoids : value.Avoids vault) :
    Guards vault (keywordMethod name value) vault.Free := by
  unfold keywordMethod
  split
  · exact .pure avoids
  · apply Maintains.ite
    · intro _
      exact (guards_methodValue avoids).bind fun _ known => guards_newEntry known
    · intro _
      exact .throw _

theorem guards_keywordProperty (name : String) {value : Value} (avoids : value.Avoids vault) :
    Guards vault (keywordProperty name value) vault.Free := by
  unfold keywordProperty
  split
  · exact .pure avoids
  · apply Maintains.get.bind
    intro store kept
    apply (guards_propertyFrom none (kept.entries avoids.map_live)).bind
    intro property known
    exact guards_alloc (.property known)
  · exact .throw _

theorem guards_keywordMember (kind : MemberKind) (name : String) {value : Value}
    (avoids : value.Avoids vault) : Guards vault (keywordMember kind name value) vault.Free := by
  cases kind with
  | field => exact guards_keywordField name avoids
  | method => exact guards_keywordMethod name avoids
  | property => exact guards_keywordProperty name avoids

theorem guards_declareKeywords (kind : MemberKind) {table : Ref} (free : vault.Free table)
    {list : List (String × Value)} (avoids : ∀ entry ∈ list, entry.2.Avoids vault) :
    Guards vault (declareKeywords kind table list) fun _ => True := by
  induction list with
  | nil => exact .pure trivial
  | cons entry rest ih =>
    apply (guards_keywordMember kind entry.1 (avoids entry List.mem_cons_self)).bind
    intro member new
    apply (guards_insertMember free entry.1 new).bind
    intro _ _
    exact ih fun later member => avoids later (List.mem_cons_of_mem _ member)

theorem guards_runMembers (kind : MemberKind) (avoids : context.Avoids vault) :
    Guards vault (runMembers kind context) (Value.Avoids vault) := by
  apply (guards_requireCount context 0 1).bind
  intro _ _
  apply (guards_positionalEntries avoids).bind
  intro entries known
  apply (guards_newMembers kind).bind
  intro table free
  apply (guards_declareAll none kind free known).bind
  intro _ _
  apply (guards_declareKeywords kind free avoids.keywords.entries).bind
  intro _ _
  exact .pure free

theorem guards_runEntry (kind : MemberKind) (avoids : context.Avoids vault) :
    Guards vault (runEntry kind context) (Value.Avoids vault) := by
  apply (guards_requireCount context 1 1).bind
  intro _ _
  apply (guards_declaredValue kind (avoids.argument 0)).bind
  intro value known
  have made : Entry.Avoids vault { value, tags := context.keywords } := ⟨known, avoids.keywords⟩
  apply (guards_alloc (.entry made)).bind
  intro member free
  exact .pure free

theorem guards_runProperty (avoids : context.Avoids vault) :
    Guards vault (runProperty context) (Value.Avoids vault) := by
  have finished {getter setter : Value} {tags : Table Value} (got : getter.Avoids vault)
      (set : setter.Avoids vault) (tagged : tags.All (Value.Avoids vault)) :
      Guards vault (do
        let getter ← accessor getter
        let setter ← accessor setter
        return .member .property (← alloc (.property { getter, setter, tags }))) (Value.Avoids vault) := by
    apply (guards_accessor got).bind
    intro getter got
    apply (guards_accessor set).bind
    intro setter set
    have made : Property.Avoids vault { getter, setter, tags } := ⟨got, set, tagged⟩
    apply (guards_alloc (.property made)).bind
    intro member free
    exact .pure free
  unfold runProperty
  split
  · exact finished (avoids.keyword "get") (avoids.keyword "set") ((avoids.keywords.erase _).erase _)
  next getter setter spelled =>
    apply finished _ _ avoids.keywords
    · exact avoids.listed getter (by simp [spelled])
    · exact avoids.listed setter (by simp [spelled])
  · exact .throw _

theorem guards_runGetMethods (avoids : context.Avoids vault) :
    Guards vault (runGetMethods context) (Value.Avoids vault) := by
  apply (guards_requireCount context 0 0).bind
  intro _ _
  apply Maintains.get.bind
  intro store kept
  split
  next sequence made =>
    have live := kept.sequence (Value.avoids_getD avoids.receiver) made
    apply guards_newArray _ .writable
    intro value member
    obtain ⟨place, listed, rfl⟩ :=
      List.mem_map.mp (List.mem_of_mem_filter (List.mem_toArray.mp member))
    obtain ⟨position, _, rfl⟩ := List.mem_map.mp listed
    exact kept.valueAt sequence live position
  · exact .throw _

theorem guards_run (builtin : Builtin) (avoids : context.Avoids vault) :
    Guards vault (builtin.run context) (Value.Avoids vault) := by
  cases builtin with
  | copy =>
    apply (guards_requireCount context 1 1).bind
    intro _ _
    apply (guards_requireOnly context []).bind
    intro _ _
    exact guards_copy (avoids.argument 0)
  | range => exact guards_runRange context
  | delete =>
    apply Maintains.ite
    · intro _
      exact .throw _
    · intro _
      apply (guards_requireOnly context []).bind
      intro _ _
      apply (guards_indexDelete (avoids.argument 0) _).bind
      intro _ _
      exact .pure trivial
  | type =>
    apply (guards_typeMappingOf avoids).bind
    intro mapping known
    apply (guards_typeFrom known).bind
    intro made free
    exact .pure free
  | typeOf => exact guards_runTypeOf avoids
  | field => exact guards_runEntry .field avoids
  | fields => exact guards_runMembers .field avoids
  | method => exact guards_runEntry .method avoids
  | methods => exact guards_runMembers .method avoids
  | property => exact guards_runProperty avoids
  | properties => exact guards_runMembers .property avoids
  | getMethods => exact guards_runGetMethods avoids

end Builtin

theorem guards_newMapping (deep : Bool) {subject : Value} (avoids : subject.Avoids vault) :
    StoreM.Guards vault (newMapping deep subject) (Value.Avoids vault) := by
  apply (StoreM.guards_mapping deep avoids).bind
  intro mapping known
  split
  next table => exact StoreM.guards_newMap (known table rfl) .writable
  · exact Maintains.get.bind fun _ _ => .throw _

theorem guards_runMapper {subject : Value} (avoids : subject.Avoids vault) (context : CallContext) :
    StoreM.Guards vault (runMapper subject context) (Value.Avoids vault) := by
  unfold runMapper
  split
  · exact guards_newMapping false avoids
  · exact Maintains.get.bind fun _ _ => guards_newMapping _ avoids
  · exact .throw _

end ScriptMachine
