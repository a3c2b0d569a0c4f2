import ScriptMachine.Proofs.ChildAnswers
import ScriptMachine.Proofs.CopiedValues

/-! Instances when they are new. A type gives each one a copy of every field's default, so an instance
has no container in common with its type or with any other instance by way of defaults. What a
constructor of compiled code returns is dropped. -/

namespace ScriptMachine

open Store

namespace Store

def withObject (store : Store) (type : Ref) (values : Table Value) : Store :=
  { store with cells :=
      (store.cells.push (.map values)).push (.object { type, values := store.cells.size }) }

/-- An instance as its type makes it: it has the values that are given, and otherwise deep copies of
the defaults. Nothing that was there is changed. -/
structure Instantiates (store : Store) (type : Ref) (given : Table Value) (later : Store) (made : Ref) :
    Prop where
  kept : store.Kept later
  cell : ∃ storage values, later.cells[made]? = some (.object { type, values := storage }) ∧
    later.cells[storage]? = some (.map values) ∧ store.cells.size ≤ storage ∧ store.cells.size ≤ made
  values : ∀ name value, given.get? name = some value → (later.valuesOf made).get? name = some value
  defaults : ∀ name, given.get? name = none →
    Option.Rel (fun field copied => store.DeepCopy later (store.entry field).value copied)
      ((store.members (store.type type).fields).get? name) ((later.valuesOf made).get? name)

/-- What an instance reaches by way of a value that has not been given. -/
def ReachesByDefault (later : Store) (made : Ref) (given : Table Value) (held : Value) : Prop :=
  ∃ name copied, given.get? name = none ∧ (later.valuesOf made).get? name = some copied ∧
    later.Reaches copied held

/-- No container is reached both from an instance's defaults and from another value, and writing what
is reached from those defaults changes nothing that the other value reaches. -/
structure Isolated (later : Store) (made : Ref) (given : Table Value) (other : Value) : Prop where
  apart : ∀ held origin ref, later.ReachesByDefault made given held → later.Occupies held ref →
    later.Reaches other origin → ¬later.Occupies origin ref
  unchanged : ∀ written : Store,
    (∀ ref, (∀ held, later.ReachesByDefault made given held → ¬later.Occupies held ref) →
      written.cells[ref]? = later.cells[ref]?) →
    ∀ origin, (written.Reaches other origin ↔ later.Reaches other origin) ∧
      (later.Reaches other origin → later.SameFor written origin)

section Instances

variable {store filled later : Store} {type made : Ref} {given values : Table Value} {other : Value}

theorem kept_withObject (store : Store) (type : Ref) (values : Table Value) :
    store.Kept (store.withObject type values) :=
  (Kept.push store _).trans (.push { store with cells := store.cells.push (.map values) } _)

theorem getElem?_withObject_storage (store : Store) (type : Ref) (values : Table Value) :
    (store.withObject type values).cells[store.cells.size]? = some (.map values) :=
  Kept.push { store with cells := store.cells.push (.map values) } _ _ _ Array.getElem?_push_size

theorem getElem?_withObject_self (store : Store) (type : Ref) (values : Table Value) :
    (store.withObject type values).cells[store.cells.size + 1]? =
      some (.object { type, values := store.cells.size }) := by
  have top : (store.withObject type values).cells[(store.cells.push (.map values)).size]? =
      some (.object { type, values := store.cells.size }) := Array.getElem?_push_size
  rwa [Array.size_push] at top

theorem valuesOf_withObject (store : Store) (type : Ref) (values : Table Value) :
    (store.withObject type values).valuesOf (store.cells.size + 1) = values := by
  simp only [valuesOf, object, getElem?_withObject_self, entries, getElem?_withObject_storage]

theorem overwrite_withObject (store : Store) (type : Ref) (values others : Table Value) :
    (store.withObject type values).overwrite store.cells.size (.map others) =
      store.withObject type others := by
  refine congrArg (fun cells => ({ store with cells } : Store)) (Array.ext_getElem? fun index => ?_)
  rw [Array.getElem?_modify]
  split
  next same =>
    subst same
    rw [getElem?_withObject_storage]
    exact (getElem?_withObject_storage store type others).symm
  next apart =>
    simp only [withObject, Array.getElem?_push, Array.size_push, if_neg (Ne.symm apart)]

theorem grounded_default (grounded : store.Grounded (.members .field (store.type type).fields))
    {name : String} {field : Ref} (listed : (store.members (store.type type).fields).get? name = some field) :
    (∃ entry, store.cells[field]? = some (.entry entry)) ∧ store.Grounded (store.entry field).value := by
  have member : store.Grounded (.member .field field) := grounded.of_holds (.listed .field name listed)
  exact ⟨⟨_, member.fits.entry_cell nofun⟩, member.of_holds (.declared (by decide) field)⟩

theorem Instantiates.of_copies (kept : store.Kept filled)
    (copies : Table.Agree (fun field copied => store.DeepCopy filled (store.entry field).value copied)
      (store.members (store.type type).fields) values) :
    store.Instantiates type given (filled.withObject type (values.insertAll given.entries))
      (filled.cells.size + 1) := by
  have last := filled.kept_withObject type (values.insertAll given.entries)
  refine ⟨kept.trans last, ?_, ?_, ?_⟩
  · exact ⟨_, _, getElem?_withObject_self .., getElem?_withObject_storage .., kept.size_le,
      Nat.le_succ_of_le kept.size_le⟩
  · intro name value there
    rw [valuesOf_withObject, Table.get?_insertAll_entries, there, Option.some_or]
  · intro name absent
    rw [valuesOf_withObject, Table.get?_insertAll_entries, absent, Option.none_or]
    exact ((copies.mono fun field copied copy => copy.lasting last).optionRel name)

namespace Instantiates

variable (instantiates : store.Instantiates type given later made)

include instantiates

/-- An instance has a value for every field of its type and for every name that is given. -/
theorem mem_keys_iff (name : String) : name ∈ (later.valuesOf made).keys ↔
    name ∈ (store.members (store.type type).fields).keys ∨ name ∈ given.keys := by
  simp only [Table.mem_keys_iff, ← Option.isSome_iff_exists]
  cases there : given.get? name with
  | some value => simp [instantiates.values name value there]
  | none =>
    have same := isSome_eq_of_optionRel (instantiates.defaults name there)
    simp [same]

variable (grounded : store.Grounded (.members .field (store.type type).fields))

include grounded

/-- Whatever an instance has by default was made for it. -/
theorem since_default {name : String} {copied : Value} (absent : given.get? name = none)
    (found : (later.valuesOf made).get? name = some copied) : later.Since store.cells.size copied := by
  have related := instantiates.defaults name absent
  rw [found] at related
  cases listed : (store.members (store.type type).fields).get? name with
  | none =>
    rw [listed] at related
    cases related
  | some field =>
    rw [listed] at related
    cases related with
    | some copy => exact copy.since (grounded_default grounded listed).2

theorem isolated (there : store.Grounded other) : later.Isolated made given other := by
  have apart : ∀ held origin ref, later.ReachesByDefault made given held →
      later.Occupies held ref → later.Reaches other origin → ¬later.Occupies origin ref := by
    intro held origin ref ⟨name, copied, absent, found, reached⟩ occupies before
    exact (instantiates.since_default grounded absent found).apart instantiates.kept there reached
      before occupies
  refine ⟨apart, fun written outside origin => ?_⟩
  have same : ∀ holder, later.Reaches other holder → later.SameFor written holder := by
    intro holder reached ref occupies
    exact outside ref fun held byDefault inside => apart held holder ref byDefault inside reached occupies
  exact ⟨reaches_iff same, same origin⟩

/-- A new instance is itself in order if what is given is, so it is one of the others when the next one
is made. -/
theorem grounded_object (sound : given.All store.Grounded) : later.Grounded (.object made) := by
  obtain ⟨storage, values, cell, stored, -, -⟩ := instantiates.cell
  refine .of_each (.object _ _ cell stored) fun held holds => ?_
  cases holds with
  | contains inside =>
    cases inside with
    | @field _ name _ found =>
      cases there : given.get? name with
      | some value =>
        cases found.symm.trans (instantiates.values name value there)
        exact instantiates.kept.grounded (sound name _ there)
      | none => exact (instantiates.since_default grounded there found).grounded

end Instantiates

end Instances

end Store

namespace StoreM

variable {store : Store} {type : Ref}

theorem tolerant_true : Tolerant fun _ => True := ⟨fun _ _ _ => trivial, fun _ _ _ => trivial, fun _ _ _ => trivial⟩

theorem run_newObject (grounded : store.Grounded (.members .field (store.type type).fields)) :
    ∃ values filled, store.Kept filled ∧
      Table.Agree (fun field copied => store.DeepCopy filled (store.entry field).value copied)
        (store.members (store.type type).fields) values ∧
      (newObject type).run store = .ok (filled.cells.size + 1) (filled.withObject type values) := by
  have copies : Builds False (fun _ => True) store
      ((store.members (store.type type).fields).mapM fun field => do
        copy ((← get).entry field).value)
      fun filled => Table.Agree (fun field copied =>
        store.DeepCopy filled (store.entry field).value copied)
        (store.members (store.type type).fields) := by
    refine .table_mapM (fun kept _ _ copy => copy.lasting kept) _ fun name field listed => ?_
    obtain ⟨⟨entry, cell⟩, sound⟩ := grounded_default grounded listed
    refine .get_bind fun middle kept => ?_
    have same : middle.entry field = store.entry field := by
      simp only [Store.entry, cell, kept field _ cell]
    rw [same]
    exact (builds_copy tolerant_true (kept.grounded sound)).weaken fun later copied _ copy =>
      copy.since_earlier kept
  obtain ⟨values, filled, ran, kept, -, agree⟩ := copies.run (.refl store) trivial
  refine ⟨values, filled, kept, agree, ?_⟩
  have unfolded : (newObject type).run store =
      (((store.members (store.type type).fields).mapM fun field => do
        copy ((← get).entry field).value) >>= fun values => do
          let storage ← alloc (.map values)
          alloc (.object { type, values := storage })).run store := rfl
  rw [unfolded, EStateM.run_bind, ran]
  show EStateM.Result.ok _ _ = _
  rw [Array.size_push]
  rfl

/-- What a constructor is given has the defaults and nothing else. -/
theorem instantiates_newObject (grounded : store.Grounded (.members .field (store.type type).fields)) :
    ∃ made later, (newObject type).run store = .ok made later ∧
      store.Instantiates type ∅ later made := by
  obtain ⟨values, filled, kept, copies, ran⟩ := run_newObject grounded
  have instantiates : store.Instantiates type ∅ (filled.withObject type values) (filled.cells.size + 1) :=
    .of_copies kept copies
  exact ⟨_, _, ran, instantiates⟩

theorem instantiates_newObjectWith
    (grounded : store.Grounded (.members .field (store.type type).fields)) (given : Table Value) :
    ∃ made later, (newObjectWith type given).run store = .ok made later ∧
      store.Instantiates type given later made := by
  obtain ⟨values, filled, kept, copies, ran⟩ := run_newObject grounded
  refine ⟨_, _, ?_, .of_copies kept copies⟩
  have storage : ((filled.withObject type values).object (filled.cells.size + 1)).values =
      filled.cells.size := by
    rw [Store.object, getElem?_withObject_self]
  have entries : (filled.withObject type values).entries filled.cells.size = values := by
    rw [Store.entries, getElem?_withObject_storage]
  rw [newObjectWith, EStateM.run_bind, ran]
  show EStateM.Result.ok _ (Store.overwrite _ _ _) = _
  rw [storage, entries, overwrite_withObject]

end StoreM

theorem World.compute_of_ok {α : Type} {world : World} {action : StoreM α} {value : α} {later : Store}
    (ran : action.run world.store = .ok value later) :
    world.compute action = (.ok value, { world with store := later }) := by
  simp only [World.compute]
  rw [show action world.store = .ok value later from ran]

namespace Execution

variable {setting : Setting} {world : World} {type constructor : Ref} {context : CallContext}
  {caller : Suspended} {chain : List Suspended}

def constructing (world : World) (type : Ref) (context : CallContext) (caller : Suspended)
    (chain : List Suspended) : Execution :=
  ⟨world, .native (.invoke (.type type) context) caller chain⟩

/-- The machine that called a type, whose constructor has been given an instance. -/
def filling (caller : Suspended) (type made : Ref) : Suspended :=
  { caller with natives := .construct made :: .label (.type type) :: caller.natives }

def constructorCall (constructor made : Ref) (context : CallContext) : Request :=
  ⟨.function constructor, some (.object made), context.arguments, context.keywords⟩

theorem step_constructing_plain (plain : (world.store.type type).constructor = none)
    (bare : context.arguments = #[]) {made : Ref} {later : Store}
    (ran : (StoreM.newObjectWith type context.keywords).run world.store = .ok made later) :
    step setting (constructing world type context caller chain) =
      .next ⟨{ world with store := later }, .native (.answer (.ok (.object made)))
        { caller with natives := .label (.type type) :: caller.natives } chain⟩ := by
  have answered : (do return Value.object (← StoreM.newObjectWith type context.keywords) :
      StoreM Value).run world.store = .ok (.object made) later := by
    rw [EStateM.run_bind, ran]
    rfl
  simp only [constructing, step, invoke, construct, plain, bare]
  rw [if_pos (show (#[] : Array Value).isEmpty = true from rfl), answerFrom, World.compute_of_ok answered]
  rfl

/-- A constructor of compiled code is called with a new instance. -/
theorem step_constructing (compiled : (world.store.type type).constructor = some (.function constructor))
    {made : Ref} {later : Store} (ran : (StoreM.newObject type).run world.store = .ok made later) :
    step setting (constructing world type context caller chain) =
      .next ⟨{ world with store := later },
        .native (.call (constructorCall constructor made context)) (filling caller type made) chain⟩ := by
  simp only [constructing, step, invoke, construct, compiled, World.compute_of_ok ran]
  rfl

theorem step_constructing_refused
    (compiled : (world.store.type type).constructor = some (.function constructor)) {fault : Fault}
    {later : Store} (ran : (StoreM.newObject type).run world.store = .error fault later) :
    step setting (constructing world type context caller chain) =
      .next ⟨{ world with store := later }, .native (.answer (.error fault))
        { caller with natives := .label (.type type) :: caller.natives } chain⟩ := by
  simp only [constructing, step, invoke, construct, compiled, World.compute,
    show StoreM.newObject type world.store = .error fault later from ran]
  rfl

theorem unanswered_constructing :
    ¬(constructing world type context caller chain).Answers caller chain := by
  rintro ⟨_, _, _, same⟩
  cases same

theorem concludes_filling_iff {made : Ref} {first : Execution} {later : World} {machine : Machine}
    {result : Except Fault Value}
    (under : Under setting.program.limits (filling caller type made) chain first.control) :
    Concludes setting caller chain first later machine result ↔
      ∃ own, Concludes setting (filling caller type made) chain first later machine own ∧
        result = (own.map fun _ => .object made).mapError (·.inCall "type") :=
  concludes_beneath_both_iff (.label (.type type)) (fun _ result => result.mapError (·.inCall "type"))
    (fun _ _ _ => rfl) (.construct made) (fun _ result => result.map fun _ => .object made)
    (fun _ _ _ => rfl) under

/-- A type whose constructor is compiled code leaves the call to it, with a new instance before the other
arguments, and gives that instance if the call succeeds. -/
theorem constructing_compiled_iff
    (compiled : (world.store.type type).constructor = some (.function constructor)) {made : Ref}
    {middle : Store} (ran : (StoreM.newObject type).run world.store = .ok made middle) {later : World}
    {machine : Machine} {result : Except Fault Value} :
    Concludes setting caller chain (constructing world type context caller chain) later machine result ↔
      ∃ own, Concludes setting (filling caller type made) chain ⟨{ world with store := middle },
          .native (.call (constructorCall constructor made context)) (filling caller type made) chain⟩
            later machine own ∧
        result = (own.map fun _ => .object made).mapError (·.inCall "type") := by
  rw [concludes_step_iff unanswered_constructing (step_constructing compiled ran)]
  exact concludes_filling_iff (.native (.refl (filling caller type made)))

/-- A constructor of compiled code that succeeds has been called with a new instance before its other
arguments, and that instance is what the type's call gives. -/
theorem constructor_completes
    (compiled : (world.store.type type).constructor = some (.function constructor)) {later : World}
    {machine : Machine} {value : Value}
    (during : During setting caller chain (constructing world type context caller chain)
      ⟨later, .native (.answer (.ok value)) { caller with machine } chain⟩) :
    ∃ made middle, (StoreM.newObject type).run world.store = .ok made middle ∧ value = .object made ∧
      During setting caller chain (constructing world type context caller chain)
        (hosting setting { world with store := middle } constructor
          (#[.object made] ++ context.arguments) context.keywords
          (holding (filling caller type made) (constructorCall constructor made context)) chain) := by
  cases ran : (StoreM.newObject type).run world.store with
  | error fault refused =>
    have told := (concludes_step_iff unanswered_constructing (step_constructing_refused compiled ran)).mp during
    obtain ⟨above, inside, same⟩ := (concludes_beneath_iff (.label (.type type))
      (fun _ result => result.mapError (·.inCall "type")) (fun _ _ _ => rfl) (.native (.refl _))).mp told
    obtain ⟨-, -, rfl⟩ := concludes_answer_iff.mp inside
    cases same
  | ok made middle =>
    obtain ⟨own, inside, same⟩ := (constructing_compiled_iff compiled ran).mp during
    obtain ⟨returned, rfl⟩ : ∃ returned, own = .ok returned := by
      cases own with
      | ok returned => exact ⟨returned, rfl⟩
      | error fault => cases same
    refine ⟨made, middle, rfl, Except.ok.inj same, ?_⟩
    have asks : Asks setting { world with store := middle } (constructorCall constructor made context)
        (filling caller type made) chain constructor (#[.object made] ++ context.arguments) :=
      .method rfl rfl
    have begins : step setting ⟨{ world with store := middle },
        .native (.call (constructorCall constructor made context)) (filling caller type made) chain⟩ = _ :=
      call_of_asks asks
    rcases enterChild_cases setting { world with store := middle } constructor
      (#[.object made] ++ context.arguments) (constructorCall constructor made context).keywords
      (holding (filling caller type made) (constructorCall constructor made context)) chain with
      entered | ⟨fault, refused⟩
    · exact .tail (.single ⟨unanswered_constructing, step_constructing compiled ran⟩)
        ⟨unanswered_call, begins.trans entered⟩
    · have told := (concludes_step_iff unanswered_call (begins.trans refused)).mp inside
      obtain ⟨above, answer, passed⟩ := (concludes_beneath_iff (.holding (.function constructor))
        (fun _ result => result) (fun _ _ _ => rfl) (.native (.refl _))).mp told
      obtain ⟨-, -, rfl⟩ := concludes_answer_iff.mp answer
      cases passed

/-- A type without a constructor makes a new instance that has the keywords it is called with, and
otherwise deep copies of its fields' defaults. No container is reached both from what the instance has
by default and from the type's fields or from an instance there was, and writing what is reached by
default changes nothing that those reach. If the keywords are in order, the instance is one there was
when the next one is made. With a constructor of compiled code, the call of the type comes to calling that
with a new instance before the other arguments: it gives the instance if the constructor's call succeeds,
whatever that returns, and fails as that fails. The call has been made whenever it succeeds. -/
theorem instances_are_isolated (setting : Setting) (world : World) (type : Ref) (context : CallContext)
    (caller : Suspended) (chain : List Suspended) :
    ((world.store.type type).constructor = none → context.arguments = #[] →
      world.store.Grounded (.members .field (world.store.type type).fields) →
      ∃ made later,
        step setting (constructing world type context caller chain) =
          .next ⟨{ world with store := later }, .native (.answer (.ok (.object made)))
            { caller with natives := .label (.type type) :: caller.natives } chain⟩ ∧
        world.store.Instantiates type context.keywords later made ∧
        (∀ name, name ∈ (later.valuesOf made).keys ↔
          name ∈ (world.store.members (world.store.type type).fields).keys ∨
            name ∈ context.keywords.keys) ∧
        later.Isolated made context.keywords (.members .field (world.store.type type).fields) ∧
        (∀ other, world.store.Grounded (.object other) →
          later.Isolated made context.keywords (.object other)) ∧
        (context.keywords.All world.store.Grounded → later.Grounded (.object made))) ∧
    ∀ constructor, (world.store.type type).constructor = some (.function constructor) →
      (world.store.Grounded (.members .field (world.store.type type).fields) →
        ∃ made middle, (StoreM.newObject type).run world.store = .ok made middle ∧
          world.store.Instantiates type ∅ middle made) ∧
      (∀ made middle, (StoreM.newObject type).run world.store = .ok made middle →
        ∀ later machine result,
          (Concludes setting caller chain (constructing world type context caller chain) later machine result ↔
            ∃ own, Concludes setting (filling caller type made) chain ⟨{ world with store := middle },
                .native (.call (constructorCall constructor made context)) (filling caller type made) chain⟩
                  later machine own ∧
              result = (own.map fun _ => .object made).mapError (·.inCall "type"))) ∧
      ∀ later machine value,
        During setting caller chain (constructing world type context caller chain)
          ⟨later, .native (.answer (.ok value)) { caller with machine } chain⟩ →
        ∃ made middle, (StoreM.newObject type).run world.store = .ok made middle ∧
          value = .object made ∧
          During setting caller chain (constructing world type context caller chain)
            (hosting setting { world with store := middle } constructor
              (#[.object made] ++ context.arguments) context.keywords
              (holding (filling caller type made) (constructorCall constructor made context)) chain) := by
  refine ⟨fun plain bare grounded => ?_, fun constructor compiled => ⟨StoreM.instantiates_newObject,
    fun made middle ran later machine result => constructing_compiled_iff compiled ran,
    fun later machine value during => constructor_completes compiled during⟩⟩
  obtain ⟨made, later, ran, instantiates⟩ :=
    StoreM.instantiates_newObjectWith grounded context.keywords
  exact ⟨made, later, step_constructing_plain plain bare ran, instantiates,
    instantiates.mem_keys_iff, instantiates.isolated grounded grounded,
    fun other there => instantiates.isolated grounded there,
    instantiates.grounded_object grounded⟩

/-- A session with a type whose field has by default an array that contains the type's fields, and with
a type without fields whose constructor returns true. -/
def founding : Session where
  program := { main := 6, limits := { stackSize := 4 } }
  host := .standard
  world := { store := { cells := #[
    .members .field (Table.empty.insert "items" 1),
    .entry { value := .array .writable 2 },
    .array #[.members .field 0],
    .members .method {},
    .members .property {},
    .type { name := "Point", fields := 0, methods := 3, properties := 4 },
    .function { code := { arity := 1, instructions := assemble [⟨.pushTrue, []⟩, ⟨.ret, [1]⟩] } },
    .members .field {},
    .type { name := "Built", constructor := some (.function 6), fields := 7, methods := 3
            properties := 4 }] } }
  machine := .blank { stackSize := 4 } {}

def foundingValues : List Value := [.members .field 0, .member .field 1, .array .writable 2]

theorem founding_closed {holder held : Value} (known : holder ∈ foundingValues)
    (holds : founding.world.store.Holds holder held) : held ∈ foundingValues := by
  simp only [foundingValues, List.mem_cons, List.not_mem_nil, or_false] at known ⊢
  rcases known with rfl | rfl | rfl
  · cases holds with
    | contains inside => cases inside
    | listed _ name found =>
      simp [founding, Store.members] at found
      exact .inr (.inl (congrArg _ found.2.symm))
  · cases holds with
    | contains inside => cases inside
    | declared plain ref => exact .inr (.inr rfl)
    | tag plain key found => cases found
  · cases holds with
    | contains inside =>
      cases inside with
      | element _ member =>
        simp [founding, Store.elements] at member
        exact .inl member

theorem founding_grounded : founding.world.store.Grounded (.members .field 0) := by
  intro held reached
  have known : held ∈ foundingValues := by
    induction reached with
    | refl => exact .head _
    | tail _ holds known => exact founding_closed known holds
  simp only [foundingValues, List.mem_cons, List.not_mem_nil, or_false] at known
  rcases known with rfl | rfl | rfl
  · exact .members _ _ rfl
  · exact .member (by decide) _ rfl
  · exact .array _ _ rfl

def foundingCall : Request := { callee := .type 8 }

theorem founding_answered : (match run (founding.setting []) 12 (founding.calling foundingCall) with
    | .done _ _ (.ok (.object ref)) => some ref
    | _ => none).isSome = true := by decide +kernel

theorem instances_are_isolated_founding :
    (∃ made later,
      step (founding.setting []) (constructing founding.world 5 ⟨#[], {}, none⟩ founding.caller []) =
        .next ⟨{ founding.world with store := later }, .native (.answer (.ok (.object made)))
          { founding.caller with natives := [.label (.type 5)] } []⟩ ∧
      later.Isolated made {} (.members .field 0) ∧ later.Grounded (.object made)) ∧
    ∃ made middle later machine,
      (StoreM.newObject 8).run founding.world.store = .ok made middle ∧
      During (founding.setting []) (holding founding.caller foundingCall) []
        (constructing founding.world 8 ⟨#[], {}, none⟩ (holding founding.caller foundingCall) [])
        ⟨later, .native (.answer (.ok (.object made)))
          { holding founding.caller foundingCall with machine } []⟩ := by
  refine ⟨?_, ?_⟩
  · obtain ⟨plain, -⟩ := instances_are_isolated (founding.setting []) founding.world 5 ⟨#[], {}, none⟩
      founding.caller []
    obtain ⟨made, later, stepped, -, -, fields, -, sound⟩ := plain rfl rfl founding_grounded
    refine ⟨made, later, stepped, fields, sound fun name value found => ?_⟩
    cases found
  · obtain ⟨-, compiled⟩ := instances_are_isolated (founding.setting []) founding.world 8 ⟨#[], {}, none⟩
      (holding founding.caller foundingCall) []
    have answered := founding_answered
    split at answered
    next later machine ref ended =>
      rcases ((Session.during_calling ended).2).cases_head with same | ⟨first, stepped, rest⟩
      · cases same
      cases stepped.2
      obtain ⟨above, during, same⟩ := answered_beneath (.holding (.type 8))
        (fun _ result => result) (fun _ _ _ => rfl) (.native (.refl _)) rest
      subst same
      obtain ⟨-, -, completes⟩ := compiled 6 rfl
      obtain ⟨made, middle, ran, same, -⟩ := completes later machine (.object ref) during
      cases same
      exact ⟨ref, middle, later, machine, ran, during⟩
    · cases answered

end Execution

end ScriptMachine
