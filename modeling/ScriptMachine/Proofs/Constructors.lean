import ScriptMachine.Proofs.Assignments
import ScriptMachine.Proofs.MemberAccess
import ScriptMachine.Proofs.NewInstances

/-! Constructors. A type accepts whatever can be called. Unless that is compiled code, a call of the type
is a call of its constructor as a method of the type, so a constructor that cannot be made a method is
accepted and fails. -/

namespace ScriptMachine

def Value.unbound : Value → Value
  | .bound _ _ callee _ => callee
  | other => other

/-- The world after an identity has been given away. -/
def World.identified (world : World) : World :=
  { world with store := { world.store with nextId := world.store.nextId + 1 } }

namespace StoreM

variable {store after : Store} {type : Ref} {value : Value}

/-- Making a method of anything but compiled code takes an identity and nothing else. -/
theorem bind_uncompiled (serves : value.isMethodConvertible = true) (plain : ∀ ref, value ≠ .function ref)
    (hold : Hold) (receiver : Value) (store : Store) :
    bind hold receiver value store =
      .ok (.bound store.nextId hold value.unbound receiver) { store with nextId := store.nextId + 1 } := by
  cases value with
  | function ref => exact absurd rfl (plain ref)
  | builtin | host | mapper | bound => rfl
  | _ => cases serves

theorem constructorValue_eq (defined : value ≠ .undefined) (store : Store) :
    constructorValue value store =
      if value.isCallable then .ok (some value) store
      else .error (.conversion "'new' isn't callable") store := by
  cases value with
  | undefined => exact absurd rfl defined
  | _ => rfl

theorem typeChange_new {change : TypeObject → TypeObject} (defined : value ≠ .undefined)
    (done : typeChange "new" value store = .ok change after) :
    value.isCallable = true ∧ (change = fun object => { object with constructor := some value }) ∧
      after = store := by
  obtain ⟨constructor, middle, converted, done⟩ := bind_eq_ok done
  rw [constructorValue_eq defined] at converted
  split at converted
  next callable =>
    cases converted
    cases done
    exact ⟨callable, rfl, rfl⟩
  next => cases converted

def changeAll (object : TypeObject) (entries : List (String × Value)) : StoreM TypeObject :=
  entries.foldlM (fun object entry => do return (← typeChange entry.1 entry.2) object) object

theorem constructor_changeAll {object made : TypeObject} {entries : List (String × Value)}
    (others : ∀ entry ∈ entries, entry.1 ≠ "new") (done : changeAll object entries store = .ok made after) :
    made.constructor = object.constructor := by
  induction entries generalizing object store with
  | nil =>
    cases done
    rfl
  | cons entry rest ih =>
    obtain ⟨next, middle, changed, done⟩ := bind_eq_ok done
    obtain ⟨change, _, converted, changed⟩ := bind_eq_ok changed
    cases changed
    have same := ends_typeChange store entry.1 entry.2
    rw [show (typeChange entry.1 entry.2).run store = _ from converted] at same
    rw [ih (fun other member => others other (.tail _ member)) done]
    exact (same.2 object).constructor (others entry (.head _))

theorem changeAll_append (object : TypeObject) (first second : List (String × Value)) :
    changeAll object (first ++ second) = (do changeAll (← changeAll object first) second) :=
  List.foldlM_append

theorem present_append (mapping : Table Value) (first second : List String) :
    present mapping (first ++ second) = present mapping first ++ present mapping second :=
  List.filterMap_append

theorem fst_mem_of_mem_present {mapping : Table Value} {keys : List String} {entry : String × Value}
    (member : entry ∈ present mapping keys) : entry.1 ∈ keys := by
  obtain ⟨key, listed, found⟩ := List.mem_filterMap.mp member
  obtain ⟨_, -, rfl⟩ := Option.map_eq_some_iff.mp found
  exact listed

/-- The keys of a type are applied in one order, whatever the mapping is, and one of them sets the
constructor. -/
theorem constructor_typeFrom {mapping : Table Value} (entry : mapping.get? "new" = some value)
    (defined : value ≠ .undefined) (done : typeFrom mapping store = .ok type after) :
    (after.type type).constructor = some value ∧ value.isCallable = true := by
  obtain ⟨name, _, -, done⟩ := bind_eq_ok done
  obtain ⟨blank, start, -, done⟩ := bind_eq_ok done
  obtain ⟨made, last, changed, stored⟩ := bind_eq_ok done
  have keys : typeKeys = ["tags"] ++ (["new"] ++ ["fields", "methods", "properties"]) := rfl
  have given : present mapping ["new"] = [("new", value)] := by simp [present, entry]
  change changeAll blank (present mapping typeKeys) start = .ok made last at changed
  rw [keys, present_append, present_append, given, changeAll_append] at changed
  obtain ⟨tagged, _, -, changed⟩ := bind_eq_ok changed
  obtain ⟨built, _, assigned, changed⟩ := bind_eq_ok changed
  obtain ⟨change, _, converted, assigned⟩ := bind_eq_ok assigned
  cases assigned
  obtain ⟨callable, rfl, -⟩ := typeChange_new defined converted
  have others : ∀ entry ∈ present mapping ["fields", "methods", "properties"], entry.1 ≠ "new" := by
    intro entry member is
    have listed := fst_mem_of_mem_present member
    rw [is] at listed
    simp at listed
  have kept : made.constructor = some value := constructor_changeAll others changed
  cases stored
  refine ⟨?_, callable⟩
  simp only [Store.type, Array.getElem?_push_size, kept]

theorem constructor_typeSet {object : TypeObject} (there : store.cells[type]? = some (.type object))
    (defined : value ≠ .undefined) (done : typeSet type "new" value store = .ok () after) :
    (after.type type).constructor = some value ∧ value.isCallable = true := by
  have assignable : "new" ∈ assignableKeys := by decide
  rw [typeSet, if_pos assignable] at done
  obtain ⟨change, middle, converted, written⟩ := bind_eq_ok done
  obtain ⟨callable, rfl, rfl⟩ := typeChange_new defined converted
  cases written
  refine ⟨?_, callable⟩
  rw [Store.type, Store.getElem?_overwrite there rfl]

/-- Whatever can be called can be assigned as a constructor. -/
theorem typeSet_new (callable : value.isCallable = true) (type : Ref) (store : Store) :
    typeSet type "new" value store = .ok ()
      (store.overwrite type (.type { store.type type with constructor := some value })) := by
  have assignable : "new" ∈ assignableKeys := by decide
  have defined : value ≠ .undefined := by
    rintro rfl
    cases callable
  have taken : constructorValue value store = .ok (some value) store := by
    rw [constructorValue_eq defined, if_pos callable]
  have converted : typeChange "new" value store =
      .ok (fun object => { object with constructor := some value }) store := bind_of_ok taken
  rw [typeSet, if_pos assignable]
  exact bind_of_ok converted

end StoreM

/-- A value is accepted as the constructor of a type: when the type is made from a mapping, or by
assignment. -/
inductive Store.Accepts (store : Store) (value : Value) (type : Ref) (after : Store) : Prop where
  | made {mapping : Table Value} (entry : mapping.get? "new" = some value)
      (done : StoreM.typeFrom mapping store = .ok type after) : Accepts store value type after
  | assigned {object : TypeObject} (there : store.cells[type]? = some (.type object))
      (done : StoreM.typeSet type "new" value store = .ok () after) : Accepts store value type after

theorem Store.Accepts.constructor {store after : Store} {value : Value} {type : Ref}
    (accepts : store.Accepts value type after) (defined : value ≠ .undefined) :
    (after.type type).constructor = some value ∧ value.isCallable = true := by
  cases accepts with
  | made entry done => exact StoreM.constructor_typeFrom entry defined done
  | assigned there done => exact StoreM.constructor_typeSet there defined done

namespace Execution

variable {setting : Setting} {world later : World} {caller : Suspended} {chain : List Suspended}
  {first second : Execution} {machine : Machine} {result : Except Fault Value}

section Delegation

variable {type : Ref} {constructor : Value} {context : CallContext}

def methodCall (callee receiver : Value) (context : CallContext) : Request :=
  ⟨callee, some receiver, context.arguments, context.keywords⟩

def boundCall (world : World) (callee receiver : Value) (context : CallContext) : Request :=
  ⟨.bound world.store.nextId .strong callee.unbound receiver, none, context.arguments, context.keywords⟩

/-- The machine that called a type, whose constructor has been called. -/
def delegating (caller : Suspended) (type : Ref) (constructor : Value) : Suspended :=
  { caller with natives := .holding constructor :: .label (.type type) :: caller.natives }

theorem step_constructing_delegated (given : (world.store.type type).constructor = some constructor)
    (plain : ∀ ref, constructor ≠ .function ref) :
    step setting (constructing world type context caller chain) =
      .next ⟨world, .native (.call (methodCall constructor (.type type) context))
        { caller with natives := .label (.type type) :: caller.natives } chain⟩ := by
  simp only [constructing, step, invoke, construct, given]
  cases constructor with
  | function ref => exact absurd rfl (plain ref)
  | _ => rfl

/-- A bound method is bound anew, so that its own receiver is lost. -/
theorem step_methodCall (serves : constructor.isMethodConvertible = true)
    (plain : ∀ ref, constructor ≠ .function ref) (receiver : Value) :
    step setting ⟨world, .native (.call (methodCall constructor receiver context)) caller chain⟩ =
      .next ⟨world.identified, .native (.call (boundCall world constructor receiver context))
        { caller with natives := .holding constructor :: caller.natives } chain⟩ := by
  have binds : world.compute (StoreM.bind .strong receiver constructor) = _ :=
    World.compute_of_ok (StoreM.bind_uncompiled serves plain .strong receiver world.store)
  cases constructor with
  | function ref => exact absurd rfl (plain ref)
  | _ =>
    simp only [step, call, methodCall, binds]
    rfl

theorem step_methodCall_refused {other : Ref} (receiver : Value) :
    step setting ⟨world, .native (.call (methodCall (.type other) receiver context)) caller chain⟩ =
      .next ⟨world, .native (.answer (.error (.notAMethod "type")))
        { caller with natives := .holding (.type other) :: caller.natives } chain⟩ := rfl

theorem concludes_delegating_iff
    (under : Under setting.program.limits (delegating caller type constructor) chain first.control) :
    Concludes setting caller chain first later machine result ↔
      ∃ own, Concludes setting (delegating caller type constructor) chain first later machine own ∧
        result = own.mapError (·.inCall "type") :=
  concludes_beneath_both_iff (.label (.type type)) (fun _ result => result.mapError (·.inCall "type"))
    (fun _ _ _ => rfl) (.holding constructor) (fun _ result => result) (fun _ _ _ => rfl) under

/-- A type whose constructor can be made a method leaves the call to that method. -/
theorem constructing_method_iff (given : (world.store.type type).constructor = some constructor)
    (serves : constructor.isMethodConvertible = true) (plain : ∀ ref, constructor ≠ .function ref) :
    Concludes setting caller chain (constructing world type context caller chain) later machine result ↔
      ∃ own, Concludes setting (delegating caller type constructor) chain
          ⟨world.identified, .native (.call (boundCall world constructor (.type type) context))
            (delegating caller type constructor) chain⟩ later machine own ∧
        result = own.mapError (·.inCall "type") := by
  rw [concludes_step_iff unanswered_constructing (step_constructing_delegated given plain),
    concludes_step_iff unanswered_call (step_methodCall serves plain (.type type))]
  exact concludes_delegating_iff (.native (.refl (delegating caller type constructor)))

theorem constructing_type_iff {other : Ref} (given : (world.store.type type).constructor = some (.type other)) :
    Concludes setting caller chain (constructing world type context caller chain) later machine result ↔
      later = world ∧ machine = caller.machine ∧ result = .error (.notAMethod "type") := by
  rw [concludes_step_iff unanswered_constructing (step_constructing_delegated given nofun),
    concludes_step_iff unanswered_call (step_methodCall_refused (.type type))]
  have under : Under setting.program.limits (delegating caller type (.type other)) chain
      (.native (.answer (.error (.notAMethod "type"))) (delegating caller type (.type other)) chain) :=
    .native (.refl _)
  refine (concludes_delegating_iff under).trans ⟨?_, ?_⟩
  · rintro ⟨own, concludes, rfl⟩
    obtain ⟨rfl, same, rfl⟩ := concludes_answer_iff.mp concludes
    exact ⟨rfl, same, rfl⟩
  · rintro ⟨rfl, same, rfl⟩
    exact ⟨.error (.notAMethod "type"), concludes_answer_iff.mpr ⟨rfl, same, rfl⟩, rfl⟩

end Delegation

/-- A value that is accepted as the constructor of a type is callable and is the type's constructor from
then on. Unless it is compiled code, calling the type comes to calling it as a method of the type, with the
same arguments and keywords, and its answer is passed on. Of what can be called only a type cannot be made
a method: with such a constructor every call of the type fails. -/
theorem constructors_are_called_as_methods {store after : Store} {type : Ref} {constructor : Value}
    (accepts : store.Accepts constructor type after) (defined : constructor ≠ .undefined) :
    (after.type type).constructor = some constructor ∧
    ∀ setting world context caller chain, (world.store.type type).constructor = some constructor →
      (∀ ref, constructor ≠ .function ref) →
      (constructor.isMethodConvertible = true ∧ ∀ later machine result,
        (Concludes setting caller chain (constructing world type context caller chain) later machine result ↔
          ∃ own, Concludes setting (delegating caller type constructor) chain
              ⟨world.identified, .native (.call (boundCall world constructor (.type type) context))
                (delegating caller type constructor) chain⟩ later machine own ∧
            result = own.mapError (·.inCall "type"))) ∨
      ((∃ other, constructor = .type other) ∧ ∀ later machine result,
        (Concludes setting caller chain (constructing world type context caller chain) later machine result ↔
          later = world ∧ machine = caller.machine ∧ result = .error (.notAMethod "type"))) := by
  obtain ⟨has, callable⟩ := accepts.constructor defined
  refine ⟨has, fun setting world context caller chain given plain => ?_⟩
  have kinds : constructor.isMethodConvertible = true ∨ ∃ other, constructor = .type other := by
    cases constructor with
    | type other => exact .inr ⟨other, rfl⟩
    | function | builtin | host | mapper | bound => exact .inl rfl
    | _ => cases callable
  rcases kinds with serves | ⟨other, rfl⟩
  · exact .inl ⟨serves, fun later machine result => constructing_method_iff given serves plain⟩
  · exact .inr ⟨⟨other, rfl⟩, fun later machine result => constructing_type_iff given⟩

/-- A session with two types. -/
def twoTypes : Session where
  program := { main := 0, limits := { stackSize := 4 } }
  host := .standard
  world := { store := { cells := #[.function { code := {} },
    .members .field {}, .members .method {}, .members .property {},
    .type { name := "U", fields := 1, methods := 2, properties := 3 },
    .type { name := "T", fields := 1, methods := 2, properties := 3 }] } }
  machine := .blank { stackSize := 4 } {}

/-- The session after the second type was given a constructor. -/
def twoTypesWith (constructor : Value) : Session :=
  let type := { twoTypes.world.store.type 5 with constructor := some constructor }
  { twoTypes with world := { store := twoTypes.world.store.overwrite 5 (.type type) } }

theorem accepts_twoTypes {constructor : Value} (callable : constructor.isCallable = true) :
    twoTypes.world.store.Accepts constructor 5 (twoTypesWith constructor).world.store :=
  .assigned (show twoTypes.world.store.cells[5]? = some (.type _) from rfl) (StoreM.typeSet_new callable 5 _)

def receiverOf : Value := .host 0 ⟨"itself", "this", false⟩

theorem constructors_are_called_as_methods_receiver :
    ∃ later machine, Concludes (twoTypes.setting []) twoTypes.caller []
      (constructing (twoTypesWith receiverOf).world 5 ⟨#[], {}, none⟩ twoTypes.caller []) later machine
      (.ok (.type 5)) := by
  have callable : receiverOf.isCallable = true := rfl
  obtain ⟨given, calls⟩ := constructors_are_called_as_methods (accepts_twoTypes callable) nofun
  obtain ⟨-, calls⟩ | ⟨⟨other, same⟩, -⟩ := calls (twoTypes.setting []) (twoTypesWith receiverOf).world
    ⟨#[], {}, none⟩ twoTypes.caller [] given nofun
  · refine ⟨(twoTypesWith receiverOf).world.identified, twoTypes.machine, ?_⟩
    refine (calls _ _ _).mpr ⟨.ok (.type 5), ?_, rfl⟩
    iterate 5
      refine .head ⟨?_, rfl⟩ ?_
      · rintro ⟨_, _, _, same⟩
        cases same
    exact .refl
  · cases same

theorem twoTypes_makes :
    (match Session.call 8 [] { callee := .type 4 } (twoTypesWith (.type 4)) with
      | .ok (.object _) _ => true
      | _ => false) = true := by decide +kernel

/-- A type is accepted as the constructor of another one. It can be called, and the other one cannot. -/
theorem type_fails_as_constructor :
    twoTypes.world.store.Accepts (.type 4) 5 (twoTypesWith (.type 4)).world.store ∧
    (∃ made after, Session.call 8 [] { callee := .type 4 } (twoTypesWith (.type 4)) = .ok (.object made) after) ∧
    ∃ after, Session.call 8 [] { callee := .type 5 } (twoTypesWith (.type 4)) =
      .error (.fault (.notAMethod "type")) after := by
  refine ⟨accepts_twoTypes rfl, ?_, _, rfl⟩
  have made := twoTypes_makes
  split at made
  next ref after called => exact ⟨ref, after, called⟩
  next => cases made

end Execution

end ScriptMachine
