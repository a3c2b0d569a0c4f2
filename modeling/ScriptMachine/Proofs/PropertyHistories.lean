import ScriptMachine.Proofs.PropertyChanges

/-! What scripts do with properties and with the tables that list them, operation after operation. A
property without accessors gets into a table only as an object that a script has handed to an operation. -/

namespace ScriptMachine

open Store

/-- The operations on properties: the builders, a declaration, assignments to a table, to a property
taken from one and to a type, and the removal of members. -/
inductive PropertyOperation where
  | property (context : CallContext)
  | properties (context : CallContext)
  | type (context : CallContext)
  | declare (table : Ref) (name : String) (value : Value)
  | assignTable (table : Ref) (index value : Value)
  | assignProperty (property : Ref) (index value : Value)
  | assignType (type : Ref) (index value : Value)
  | delete (table : Ref) (keys : List Value)

/-- The objects among what a map holds. -/
def Store.HoldsProperty (store : Store) (value : Value) (ref : Ref) : Prop :=
  ∃ handle mapping name, value = .map handle mapping ∧
    (store.entries mapping).get? name = some (.member .property ref)

/-- A call has a mapping without accessors under a keyword. -/
def Store.GivesBare (store : Store) (context : CallContext) (name : String) : Prop :=
  ∃ handle mapping, context.keywords.get? name = some (.map handle mapping) ∧
    ¬StoreM.GivesAccessor (store.entries mapping)

/-- What reloading from a value hands on: the cells that its deep copy adds, and the objects among what is
to be loaded. -/
inductive Store.Reloads (store : Store) (value : Value) (ref : Ref) : Prop where
  | copied (above : store.cells.size ≤ ref)
      (below : ref < (StoreM.left (StoreM.reloadMapping value store)).cells.size)
  | loaded {mapping : Table Value} {later : Store} {name : String}
      (ran : (StoreM.reloadMapping value).run store = .ok mapping later)
      (found : mapping.get? name = some (.member .property ref))

namespace PropertyOperation

/-- Carries out an operation. Whether it succeeds does not matter: what it did before a fault is done. -/
def run : PropertyOperation → StoreM Unit
  | property context => do let _ ← Builtin.run .property context
  | properties context => do let _ ← Builtin.run .properties context
  | type context => do let _ ← Builtin.run .type context
  | declare table name value => StoreM.declare none .property table name value
  | assignTable table index value => do let _ ← StoreM.indexSet (.members .property table) index value
  | assignProperty ref index value => do let _ ← StoreM.indexSet (.member .property ref) index value
  | assignType ref index value => do let _ ← StoreM.indexSet (.type ref) index value
  | delete table keys => StoreM.indexDelete (.members .property table) keys

/-- The store that an operation leaves, also when it fails. -/
def after (operation : PropertyOperation) (store : Store) : Store :=
  StoreM.left (operation.run store)

def values : PropertyOperation → List Value
  | property context | properties context | type context => context.values
  | declare table _ value => [.members .property table, value]
  | assignTable table index value => [.members .property table, index, value]
  | assignProperty ref index value => [.member .property ref, index, value]
  | assignType ref index value => [.type ref, index, value]
  | delete table keys => .members .property table :: keys

/-- The property objects that an operation is handed: the one that it changes, those to be stored as they
are, and the copies of a reload. The builder reads a property from a keyword that is a mapping, and lists it
under that name in the table that it makes; where the mapping has no accessors, the property has none either
and counts as handed. -/
inductive Hands (store : Store) : PropertyOperation → Ref → Prop where
  | argument {context : CallContext} {value : Value} {ref : Ref} (member : value ∈ context.arguments)
      (inside : store.HoldsProperty value ref) : Hands store (.properties context) ref
  | keyword {context : CallContext} {name : String} {ref : Ref}
      (found : context.keywords.get? name = some (.member .property ref)) :
      Hands store (.properties context) ref
  | bare {context : CallContext} {name : String} {ref : Ref} {property : Property}
      (bare : store.GivesBare context name)
      (lists : ((properties context).after store).Lists store.cells.size name ref)
      (made : ((properties context).after store).cells[ref]? = some (.property property))
      (empty : property.isEmpty = true) : Hands store (.properties context) ref
  | typed {context : CallContext} {mapping : Table Value} {later : Store} {value : Value} {ref : Ref}
      (ran : (Builtin.typeMappingOf context).run store = .ok mapping later)
      (found : mapping.get? "properties" = some value) (inside : store.HoldsProperty value ref) :
      Hands store (.type context) ref
  | declared (table : Ref) (name : String) (ref : Ref) :
      Hands store (.declare table name (.member .property ref)) ref
  | stored (table : Ref) (index : Value) (ref : Ref) :
      Hands store (.assignTable table index (.member .property ref)) ref
  | listed (table : Ref) {index value : Value} {ref : Ref} (key : index.text? = some mapKey)
      (reloads : store.Reloads value ref) : Hands store (.assignTable table index value) ref
  | changed (ref : Ref) (index value : Value) : Hands store (.assignProperty ref index value) ref
  | copied (property : Ref) {index value : Value} {ref : Ref} (key : index.text? = some mapKey)
      (reloads : store.Reloads value ref) : Hands store (.assignProperty property index value) ref
  | assigned (type : Ref) (index : Value) {value : Value} {ref : Ref}
      (inside : store.HoldsProperty value ref) : Hands store (.assignType type index value) ref

end PropertyOperation

namespace Store

variable {store : Store} {given : Ref → Prop} {value : Value} {ref : Ref}

theorem Firm.handed (firm : store.Firm value) (known : ∀ ref, value = .member .property ref → given ref) :
    StoreM.Handed given store value := by
  rintro ref rfl
  exact ⟨known ref rfl, _, firm.grounded.fits.property_cell⟩

theorem Firm.handedInside (firm : store.Firm value)
    (known : ∀ ref, store.HoldsProperty value ref → given ref) :
    StoreM.HandedInside given store value := by
  rintro handle mapping rfl
  refine ⟨_, firm.grounded.fits.map_cell, fun name held found => ?_⟩
  have inside : store.Firm held := firm.of_involves (.holds (.contains (.entry handle name found)))
  refine inside.handed fun ref same => known ref ⟨handle, mapping, name, rfl, ?_⟩
  rw [found, same]

end Store

namespace StoreM

variable {given : Ref → Prop} {base store : Store}

/-- Reloading furnishes what comes after it, with the copies among what is given. -/
theorem reload_bind {α : Type} {value : Value} {rest : Table Value → StoreM α} (firm : store.Firm value)
    (furnished : store.Furnished given) (reloads : ∀ ref, store.Reloads value ref → given ref)
    (next : ∀ mapping later, store.Kept later → mapping.All (Handed given later) →
      Maintains (Curated given later) (rest mapping) fun _ => True) :
    (left ((reloadMapping value >>= rest).run store)).Furnished given := by
  let copies (ref : Ref) : Prop := given ref ∨ store.cells.size ≤ ref
  have tolerant : Tolerant (Curated copies store) := tolerant_curated fun ref above => .inr above
  have reloaded : Builds True (Curated copies store) store (reloadMapping value) fun later mapping =>
      mapping.All later.Grounded := by
    refine ((mappable_deep tolerant).mapping? firm).bind fun later form _ made => ?_
    split
    next mapping => exact .pure fun further kept name held found => kept.grounded (made _ rfl name held found)
    next => exact .get_bind fun _ _ => .throw trivial _
  have done := reloaded store (.refl store) (.refl (furnished.bounded fun ref _ known => .inl known))
  rw [EStateM.run_bind]
  cases ran : (reloadMapping value).run store with
  | error fault later =>
    rw [ran] at done
    refine done.2.2.furnished.bounded fun ref below known => known.elim id fun above => reloads ref ?_
    refine .copied above ?_
    rw [show reloadMapping value store = _ from ran]
    exact below
  | ok mapping later =>
    rw [ran] at done
    obtain ⟨kept, curated, grounded⟩ := done
    have shrunk : later.Furnished given := by
      refine curated.furnished.bounded fun ref below known => known.elim id fun above => reloads ref ?_
      refine .copied above ?_
      rw [show reloadMapping value store = _ from ran]
      exact below
    refine (left_of_maintains (next mapping later kept fun name held found => ?_) (.refl shrunk)).furnished
    rintro ref rfl
    exact ⟨reloads ref (.loaded ran found), _, (grounded name _ found).fits.property_cell⟩

/-- An assignment under a text is carried out, one under another index leaves all as it is. -/
theorem left_textIndex {α : Type} (index : Value) (rest : String → StoreM α) :
    left ((textIndex index >>= rest).run store) = match index.text? with
      | some key => left ((rest key).run store)
      | none => store := by
  unfold textIndex
  cases index.text? with
  | some key => simp
  | none => rfl

/-- The mapping of a type is put together of what the builder is given. Arguments behind the name are put
under keys by their positions. -/
theorem maintains_typeMappingOf {context : CallContext} (firm : ∀ value ∈ context.values, store.Firm value) :
    Maintains (· = store) (Builtin.typeMappingOf context) fun mapping => mapping.All store.Firm := by
  have arguments (position : Nat) (mapping : Table Value) (named : mapping.All store.Firm)
      (rest : List Value) (each : ∀ value ∈ rest, store.Firm value) :
      Maintains (· = store) (Builtin.typeArguments position mapping rest) fun mapping =>
        mapping.All store.Firm := by
    induction rest generalizing position mapping with
    | nil => exact .pure named
    | cons value rest ih =>
      unfold Builtin.typeArguments
      split
      next key _ =>
        refine ih _ _ (named.insert key (each value List.mem_cons_self)) fun other member => ?_
        exact each other (List.mem_cons_of_mem _ member)
      next => exact .bind .get fun _ _ => .throw _
  have inside (value : Value) (member : value ∈ context.arguments.toList) : store.Firm value :=
    firm value (by simp [CallContext.values, member])
  unfold Builtin.typeMappingOf
  split
  · exact .throw _
  next handle ref rest given =>
    rw [given] at inside
    refine (maintains_requireCount context 1 1).bind fun _ _ => (maintains_requireOnly context []).bind fun _ _ => ?_
    refine .bind .get fun found same => .pure fun name held there => ?_
    subst same
    exact (inside _ List.mem_cons_self).of_involves (.holds (.contains (.entry handle name there)))
  next name rest given =>
    rw [given] at inside
    refine (maintains_requireOnly context _).bind fun _ _ => ?_
    have named : (Table.empty.insert "name" (.string name)).All store.Firm :=
      Table.All.empty.insert "name" (.of_alone trivial)
    refine (arguments 1 _ named rest fun value member => inside value (List.mem_cons_of_mem _ member)).bind ?_
    refine fun mapping all => .pure (all.insertAll fun entry member => firm entry.2 ?_)
    have listed := Table.mem_values ((context.keywords.mem_entries_iff entry.1 entry.2).mp member)
    simp [CallContext.values, listed]
  · exact .bind .get fun _ _ => .throw _

end StoreM

namespace PropertyOperation

/-- What has been given, and what an operation hands on besides. -/
abbrev Given (operation : PropertyOperation) (store : Store) (given : Ref → Prop) (ref : Ref) : Prop :=
  given ref ∨ operation.Hands store ref

open StoreM

section Cases

variable {store : Store} {given : Ref → Prop} (furnished : store.Furnished given)

include furnished

theorem furnished_given (operation : PropertyOperation) :
    store.Furnished (operation.Given store given) :=
  furnished.bounded fun _ _ known => .inl known

theorem furnished_properties {context : CallContext} (firm : ∀ value ∈ context.values, store.Firm value) :
    ((properties context).after store).Furnished ((properties context).Given store given) := by
  have begun := furnished_given furnished (properties context)
  have arguments (value : Value) (member : value ∈ context.arguments) :
      HandedInside ((properties context).Given store given) store value := by
    have there := firm value (by simp [CallContext.values, member])
    exact there.handedInside fun ref inside => .inr (.argument member inside)
  have keywords (entry : String × Value) (member : entry ∈ context.keywords.entries) :
      KeywordFurnishes ((properties context).Given store given) (store.GivesBare context) store entry := by
    obtain ⟨name, value⟩ := entry
    have found := (context.keywords.mem_entries_iff name value).mp member
    have there := firm value (by simp [CallContext.values, Table.mem_values found])
    refine ⟨there.handed fun ref same => .inr (.keyword (same ▸ found)), ?_⟩
    rintro handle mapping rfl
    refine ⟨_, there.grounded.fits.map_cell, ?_⟩
    by_cases gives : GivesAccessor (store.entries mapping)
    · exact .inr gives
    · exact .inl ⟨handle, mapping, found, gives⟩
  have same : (properties context).after store = left ((Builtin.runMembers .property context).run store) :=
    left_bind_pure (Builtin.run .properties context) (fun _ => ()) store
  have done := curated_runMembers begun arguments keywords
  rw [← same] at done
  exact (done fun _ _ _ bare lists made empty => .inr (.bare bare lists made empty)).furnished

theorem furnished_type {context : CallContext} (firm : ∀ value ∈ context.values, store.Firm value) :
    ((type context).after store).Furnished ((type context).Given store given) := by
  have begun := furnished_given furnished (type context)
  have read := maintains_typeMappingOf firm store rfl
  show (left ((do let _ ← Builtin.run .type context : StoreM Unit).run store)).Furnished _
  rw [left_bind_pure]
  cases ran : Builtin.typeMappingOf context store with
  | error fault later =>
    rw [ran] at read
    subst read
    rw [show (Builtin.run .type context).run later = .error fault later from bind_of_error ran]
    exact begun
  | ok mapping later =>
    rw [ran] at read
    obtain ⟨rfl, all⟩ := read
    rw [show (Builtin.run .type context).run later =
      (do return Value.type (← typeFrom mapping) : StoreM Value).run later from bind_of_ok ran]
    have handed (value : Value) (found : mapping.get? "properties" = some value) :
        HandedInside ((type context).Given later given) later value :=
      (all _ value found).handedInside fun ref inside => .inr (.typed ran found inside)
    exact (left_of_maintains ((maintains_typeFrom handed).giving Value.type) (.refl begun)).furnished

theorem furnished_assignTable {table : Ref} {index value : Value} (found : store.Firm (.members .property table))
    (firm : store.Firm value) :
    ((assignTable table index value).after store).Furnished
      ((assignTable table index value).Given store given) := by
  have begun := furnished_given furnished (assignTable table index value)
  have cell := found.grounded.fits.members_cell
  show (left ((do let _ ← indexSet (.members .property table) index value : StoreM Unit).run store)).Furnished _
  rw [left_bind_pure, indexSet, left_textIndex]
  cases text : index.text? with
  | none => exact begun
  | some key =>
    by_cases reload : key = mapKey
    · subst reload
      simp only [↓reduceIte]
      refine reload_bind firm begun (fun ref reloads => .inr (.listed table text reloads)) ?_
      intro mapping later kept handed
      refine (maintains_declareAll (kept _ _ cell) (some table) fun _ entry member => ?_).giving _
      exact handed entry.1 entry.2 ((mapping.mem_entries_iff _ _).mp member)
    · simp only [if_neg reload]
      have handed := firm.handed fun ref same => (by
        subst same
        exact .inr (.stored table index ref) : (assignTable table index value).Given store given ref)
      have declared := maintains_declareProperty cell none key handed
      exact (left_of_maintains (declared.giving fun _ => Answer.value .undefined) (.refl begun)).furnished

theorem furnished_assignProperty {ref : Ref} {index value : Value} (found : store.Firm (.member .property ref))
    (firm : store.Firm value) :
    ((assignProperty ref index value).after store).Furnished
      ((assignProperty ref index value).Given store given) := by
  have begun := furnished_given furnished (assignProperty ref index value)
  have handed : (assignProperty ref index value).Given store given ref := .inr (.changed ref index value)
  have cell := found.grounded.fits.property_cell
  show (left ((do let _ ← indexSet (.member .property ref) index value : StoreM Unit).run store)).Furnished _
  rw [left_bind_pure, indexSet, left_textIndex]
  cases text : index.text? with
  | none => exact begun
  | some key =>
    by_cases reload : key = mapKey
    · subst reload
      simp only [↓reduceIte]
      refine reload_bind firm begun (fun other reloads => .inr (.copied ref text reloads)) ?_
      intro mapping later kept _
      exact (maintains_loadProperty (kept _ _ cell) handed mapping).giving _
    · simp only [if_neg reload]
      have changed := maintains_propertySet cell handed key value
      exact (left_of_maintains (changed.giving fun _ => Answer.value .undefined) (.refl begun)).furnished

theorem furnished_assignType {ref : Ref} {index value : Value} (found : store.Firm (.type ref))
    (firm : store.Firm value) :
    ((assignType ref index value).after store).Furnished
      ((assignType ref index value).Given store given) := by
  have begun := furnished_given furnished (assignType ref index value)
  obtain ⟨type, cell⟩ := (found _ .refl).2 ref rfl
  show (left ((do let _ ← indexSet (.type ref) index value : StoreM Unit).run store)).Furnished _
  rw [left_bind_pure, indexSet, left_textIndex]
  cases text : index.text? with
  | none => exact begun
  | some key =>
    have handed : HandedInside ((assignType ref index value).Given store given) store value :=
      firm.handedInside fun other inside => .inr (.assigned ref index inside)
    have changed := maintains_typeSet cell key handed
    exact (left_of_maintains (changed.giving fun _ => Answer.value .undefined) (.refl begun)).furnished

/-- An operation on values that are there leaves a furnished store, with the objects that it was handed
among those given. -/
theorem furnished_after (operation : PropertyOperation)
    (firm : ∀ value ∈ operation.values, store.Firm value) :
    (operation.after store).Furnished (operation.Given store given) := by
  have begun := furnished_given furnished operation
  cases operation with
  | property context =>
    exact (left_of_maintains ((maintains_runProperty context).giving fun _ => ()) (.refl begun)).furnished
  | properties context => exact furnished_properties furnished firm
  | type context => exact furnished_type furnished firm
  | declare table name value =>
    have found := (firm (.members .property table) (by simp [values])).grounded.fits.members_cell
    have handed := (firm value (by simp [values])).handed fun ref same => (by
      subst same
      exact .inr (.declared table name ref) : (declare table name value).Given store given ref)
    exact (left_of_maintains (maintains_declareProperty found none name handed) (.refl begun)).furnished
  | assignTable table index value =>
    exact furnished_assignTable furnished (firm _ (by simp [values])) (firm _ (by simp [values]))
  | assignProperty ref index value =>
    exact furnished_assignProperty furnished (firm _ (by simp [values])) (firm _ (by simp [values]))
  | assignType ref index value =>
    exact furnished_assignType furnished (firm _ (by simp [values])) (firm _ (by simp [values]))
  | delete table keys =>
    exact (left_of_maintains (maintains_deleteFromMembers table keys) (.refl begun)).furnished

end Cases

end PropertyOperation

/-- Stores that scripts come to by operations on properties, with the property objects that have been
handed to these. Whatever else happens in between leaves properties and tables of properties alone. -/
inductive PropertyHistory : (Ref → Prop) → Store → Prop where
  | start {store : Store} (blank : ∀ (ref : Ref) property, store.cells[ref]? ≠ some (.property property))
      (empty : ∀ table name ref, ¬store.Lists table name ref) : PropertyHistory (fun _ => False) store
  | act {given : Ref → Prop} {store : Store} (history : PropertyHistory given store)
      (operation : PropertyOperation) (firm : ∀ value ∈ operation.values, store.Firm value) :
      PropertyHistory (operation.Given store given) (operation.after store)
  | elsewhere {given : Ref → Prop} {store later : Store} (history : PropertyHistory given store)
      (properties : ∀ (ref : Ref) property, later.cells[ref]? = some (.property property) ↔
        store.cells[ref]? = some (.property property))
      (lists : ∀ table name ref, later.Lists table name ref ↔ store.Lists table name ref) :
      PropertyHistory given later

namespace PropertyHistory

variable {given : Ref → Prop} {store : Store}

theorem furnished (history : PropertyHistory given store) : store.Furnished given := by
  induction history with
  | start blank empty =>
    exact ⟨fun ref property found => absurd found (blank ref property),
      fun table name ref lists => absurd lists (empty table name ref)⟩
  | act _ operation firm ih => exact PropertyOperation.furnished_after ih operation firm
  | elsewhere _ properties lists ih =>
    refine ih.mono (fun table name ref listed => (lists table name ref).mp listed) ?_ ?_
    · exact fun ref property found => (properties ref property).mpr found
    · exact fun ref property found => ih.serves ref property ((properties ref property).mp found)

def emptyCall : PropertyOperation := .properties { arguments := #[], keywords := ∅, receiver := none }

def getterAssignment : PropertyOperation :=
  .assignTable 0 (.string "get_x") (.host 0 ⟨"g", "this", false⟩)

/-- A table with a property that has a getter. -/
def assigned : Store where
  cells := #[.members .property (Table.empty.insert "x" 1),
    .property { getter := some (.host 0 ⟨"g", "this", false⟩) }]

/-- A script comes by that table when it calls the builder, and then assigns the getter. -/
theorem assigned_history : ∃ given, PropertyHistory given assigned ∧ ¬given 1 := by
  let built : Store := { cells := #[.members .property ∅] }
  have start : PropertyHistory (fun _ => False) {} := by
    refine .start (fun _ _ found => by simp at found) ?_
    rintro _ _ _ ⟨_, found, -⟩
    simp at found
  have empty : PropertyHistory (emptyCall.Given {} fun _ => False) built :=
    start.act emptyCall fun value member => by
      rw [show emptyCall.values = [] from rfl] at member
      cases member
  have history : PropertyHistory (getterAssignment.Given built (emptyCall.Given {} fun _ => False)) assigned := by
    rw [show assigned = getterAssignment.after { cells := #[.members .property ∅] } by cbv]
    refine empty.act getterAssignment fun value member => ?_
    rw [show getterAssignment.values =
      [.members .property 0, .string "get_x", .host 0 ⟨"g", "this", false⟩] from rfl] at member
    simp only [List.mem_cons, List.not_mem_nil, or_false] at member
    rcases member with rfl | rfl | rfl
    · refine .of_each (.members _ ∅ rfl) (fun _ same => by cases same) fun held involves => ?_
      cases involves with
      | holds inside =>
        cases inside with
        | contains inside => cases inside
        | listed kind name found => cases found.symm.trans (Table.get?_empty name)
    · exact .of_alone trivial
    · exact .of_alone trivial
  refine ⟨_, history, ?_⟩
  rintro ((never | hands) | hands)
  · exact never
  · cases hands with
    | argument member => cases Array.not_mem_empty _ member
    | keyword found => cases found.symm.trans (Table.get?_empty _)
    | bare bare =>
      obtain ⟨_, _, found, -⟩ := bare
      cases found.symm.trans (Table.get?_empty _)
  · cases hands with
    | listed table key => exact absurd key (by decide)

theorem firm_getter {store : Store} {ref : Ref}
    (found : store.cells[ref]? = some (.property { getter := some (.host 0 ⟨"g", "this", false⟩) })) :
    store.Firm (.member .property ref) := by
  have view : store.property ref = { getter := some (.host 0 ⟨"g", "this", false⟩) } := Store.property_eq found
  refine .of_each (.property _ found) (fun _ same => by cases same) fun held involves => ?_
  cases involves with
  | holds inside =>
    cases inside with
    | contains inside => cases inside
    | declared plain => exact absurd rfl plain
    | tag plain => exact absurd rfl plain
    | getter there =>
      rw [view] at there
      cases there
      exact .of_alone trivial
    | setter there =>
      rw [view] at there
      cases there
    | propertyTag key there =>
      rw [view] at there
      cases there.symm.trans (Table.get?_empty key)

end PropertyHistory

end ScriptMachine
