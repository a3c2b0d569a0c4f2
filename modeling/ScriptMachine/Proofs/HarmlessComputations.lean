import ScriptMachine.Proofs.LastingInstances
import ScriptMachine.Machine.Step
import ScriptMachine.Literal

/-! No computation of the type system, of indexing, of the builtins or of argument binding touches a
function that is there: they read cells, write other cells and make new ones. Instances lose none of the
methods that were looked up on them. When a computation fails, it is not the code of an instruction that
it finds wrong, and no callee is named. Only builtins, and functions when their arguments are bound, refuse
arguments. -/

namespace ScriptMachine

namespace Fault

def offset? : Fault → Option Nat
  | invalidInstruction offset => some offset
  | _ => none

def callee? : Fault → Option String
  | wrongArgumentCountInCall callee | unexpectedKeywordsInCall callee
  | invalidArgumentTypeInCall _ callee _ _ => some callee
  | _ => none

/-- Whether a fault is about the arguments of a call but names no callee yet. -/
def refusesArguments : Fault → Bool
  | wrongArgumentCount | unexpectedKeywords | invalidArgumentType .. => true
  | _ => false

/-- What a fault is concerned with other than the values at hand. -/
inductive Concern where
  | code (offset : Nat)
  | callee (name : String)
  | arguments

/-- What other than the values at hand a fault is concerned with. -/
def concern? : Fault → Option Concern
  | invalidInstruction offset => some (.code offset)
  | wrongArgumentCountInCall callee | unexpectedKeywordsInCall callee
  | invalidArgumentTypeInCall _ callee _ _ => some (.callee callee)
  | wrongArgumentCount | unexpectedKeywords | invalidArgumentType .. => some .arguments
  | _ => none

/-- A fault of the values at hand. -/
abbrev Unconcerned (fault : Fault) : Prop := fault.concern? = none

/-- A fault that blames no instruction and names no callee. -/
structure Anonymous (fault : Fault) : Prop where
  offset : fault.offset? = none
  callee : fault.callee? = none

/-- Such a fault of a computation that does not count arguments, although it may refuse them. -/
structure Uncounted (fault : Fault) : Prop extends Anonymous fault where
  counts : fault ≠ .wrongArgumentCount

/-- A fault that names no callee and will not be given one. -/
structure Uncalled (fault : Fault) : Prop where
  callee : fault.callee? = none
  settled : fault.refusesArguments = false

variable {fault : Fault}

theorem uncounted_of_unconcerned (unconcerned : fault.Unconcerned) : fault.Uncounted := by
  cases fault with
  | invalidInstruction | wrongArgumentCountInCall | unexpectedKeywordsInCall | invalidArgumentTypeInCall
  | wrongArgumentCount | unexpectedKeywords | invalidArgumentType => cases unconcerned
  | _ => exact ⟨⟨rfl, rfl⟩, nofun⟩

theorem offset?_of_unconcerned (unconcerned : fault.Unconcerned) : fault.offset? = none :=
  (uncounted_of_unconcerned unconcerned).offset

theorem uncalled_of_unconcerned (unconcerned : fault.Unconcerned) : fault.Uncalled := by
  refine ⟨(uncounted_of_unconcerned unconcerned).callee, ?_⟩
  cases fault with
  | wrongArgumentCount | unexpectedKeywords | invalidArgumentType => cases unconcerned
  | _ => rfl

end Fault

section Faults

variable {store : Store} {fault : Fault}

theorem Sequence.concern?_of {value : Value} (failed : Sequence.of store value = .error fault) :
    fault.Unconcerned := by
  cases value <;> cases failed <;> rfl

theorem Operator.concern?_onInts {op : Operator} {left right : Int64}
    (failed : op.onInts left right = .error fault) : fault.Unconcerned := by
  unfold onInts at failed
  split at failed
  case h_4 | h_5 =>
    split at failed
    · cases failed
      rfl
    · cases failed
  all_goals cases failed

theorem Operator.concern?_join {left right : String} (failed : join left right = .error fault) :
    fault.Unconcerned := by
  unfold join at failed
  split at failed
  · cases failed
    rfl
  · cases failed

namespace Value

theorem concern?_operate {op : Operator} {left right : Value}
    (failed : left.operate store op right = .error fault) : fault.Unconcerned := by
  unfold operate at failed
  split at failed
  · exact Operator.concern?_onInts failed
  any_goals cases failed
  · split at failed
    · exact Operator.concern?_join failed
    · cases failed
  · split at failed
    · exact Operator.concern?_join failed
    · cases failed
  · split at failed
    · split at failed
      · cases failed
        rfl
      · cases failed
    · cases failed

theorem concern?_negative {value : Value} (failed : value.negative store = .error fault) :
    fault.Unconcerned := by
  cases value <;> cases failed <;> rfl

theorem concern?_complement {value : Value} (failed : value.complement store = .error fault) :
    fault.Unconcerned := by
  cases value <;> cases failed <;> rfl

theorem concern?_sliceBound {openEnd : Int} {value : Value}
    (failed : sliceBound store openEnd value = .error fault) : fault.Unconcerned := by
  cases value <;> cases failed <;> rfl

theorem concern?_sliceBounds {low high : Value} {size : Nat}
    (failed : sliceBounds store low high size = .error fault) : fault.Unconcerned := by
  simp only [sliceBounds, Bind.bind, Except.bind] at failed
  split at failed
  next refused =>
    cases failed
    exact concern?_sliceBound refused
  · split at failed
    next refused =>
      cases failed
      exact concern?_sliceBound refused
    · split at failed
      · cases failed
      · cases failed
        rfl

end Value

theorem Act.concern?_pairUp {table : Table Value} {values : List Value}
    (failed : pairUp store table values = .error fault) : fault.Unconcerned := by
  fun_induction pairUp store table values with
  | case1 => cases failed
  | case2 => cases failed; rfl
  | case3 _ _ _ _ _ _ ih => exact ih failed
  | case4 => cases failed

end Faults

namespace StoreM

/-- A computation that spares functions and takes nothing from instances. If it fails, the fault is one of
those allowed. -/
structure Behaves (allowed : Fault → Prop) {α : Type} (action : StoreM α) : Prop where
  sparing : Sparing action
  remembering : Remembering action
  blameless : ∀ store fault after, action store = .error fault after → allowed fault

/-- A computation that fails with nothing but faults of the values at hand. -/
abbrev Harmless {α : Type} (action : StoreM α) : Prop := Behaves Fault.Unconcerned action

abbrev Anonymous {α : Type} (action : StoreM α) : Prop := Behaves Fault.Anonymous action

abbrev Uncounted {α : Type} (action : StoreM α) : Prop := Behaves Fault.Uncounted action

section Behaves

variable {α β : Type} {allowed wider : Fault → Prop}

theorem behaves_compositional (allowed : Fault → Prop) : Compositional (@Behaves allowed) where
  pure value := ⟨sparing_pure value, fun store => .refl store, fun _ _ _ => nofun⟩
  bind {_ _ first rest} begins next := by
    refine ⟨begins.sparing.bind fun value => (next value).sparing,
      remembering_compositional.bind begins.remembering fun value => (next value).remembering,
      fun store fault after failed => ?_⟩
    simp only [Bind.bind, EStateM.bind] at failed
    cases done : first store with
    | ok value middle =>
      rw [done] at failed
      exact (next value).blameless middle fault after failed
    | error reason middle =>
      rw [done] at failed
      cases failed
      exact begins.blameless store fault after done

theorem Sparing.behaves {action : StoreM α} (spares : Sparing action) (remembers : Remembering action)
    (succeeds : ∀ store, ∃ value after, action store = .ok value after) : Behaves allowed action := by
  refine ⟨spares, remembers, fun store fault after failed => ?_⟩
  obtain ⟨value, later, done⟩ := succeeds store
  cases done.symm.trans failed

namespace Behaves

theorem bind {first : StoreM α} {rest : α → StoreM β} (begins : Behaves allowed first)
    (next : ∀ value, Behaves allowed (rest value)) : Behaves allowed (first >>= rest) :=
  (behaves_compositional allowed).bind begins next

theorem map {action : StoreM α} (f : α → β) (behaves : Behaves allowed action) :
    Behaves allowed (f <$> action) :=
  (behaves_compositional allowed).map f behaves

theorem ite {condition : Prop} [Decidable condition] {yes no : StoreM α} (positive : Behaves allowed yes)
    (negative : Behaves allowed no) : Behaves allowed (if condition then yes else no) := by
  split
  · exact positive
  · exact negative

theorem mono {action : StoreM α} (behaves : Behaves allowed action)
    (implies : ∀ fault, allowed fault → wider fault) : Behaves wider action where
  sparing := behaves.sparing
  remembering := behaves.remembering
  blameless store fault after failed := implies fault (behaves.blameless store fault after failed)

end Behaves

theorem Harmless.uncounted {action : StoreM α} (harmless : Harmless action) : Uncounted action :=
  harmless.mono fun _ => Fault.uncounted_of_unconcerned

theorem Uncounted.anonymous {action : StoreM α} (uncounted : Uncounted action) : Anonymous action :=
  uncounted.mono fun _ => Fault.Uncounted.toAnonymous

theorem Harmless.anonymous {action : StoreM α} (harmless : Harmless action) : Anonymous action :=
  harmless.uncounted.anonymous

theorem behaves_pure (value : α) : Behaves allowed (pure value) := (behaves_compositional allowed).pure value

theorem behaves_throw {fault : Fault} (may : allowed fault) :
    Behaves allowed (throw fault : StoreM α) := by
  refine ⟨sparing_throw fault, fun store => .refl store, fun store raised after failed => ?_⟩
  cases failed
  exact may

theorem behaves_get : Behaves allowed (get : StoreM Store) :=
  sparing_get.behaves remembering_get fun _ => ⟨_, _, rfl⟩

end Behaves

section Harmless

variable {α β : Type}

theorem harmless_throw {fault : Fault} (unconcerned : fault.Unconcerned) :
    Harmless (throw fault : StoreM α) :=
  behaves_throw unconcerned

theorem harmless_alloc {cell : Cell} (idle : cell.Idle) : Harmless (alloc cell) :=
  (sparing_alloc idle).behaves (remembering_alloc cell) fun _ => ⟨_, _, rfl⟩

theorem harmless_freshId : Harmless freshId :=
  sparing_freshId.behaves (fun _ => .ofCells rfl) fun _ => ⟨_, _, rfl⟩

theorem harmless_write (ref : Ref) {cell : Cell} (fillable : cell.Fillable) : Harmless (write ref cell) :=
  (sparing_write ref fillable.plain).behaves (remembering_write ref fillable) fun _ => ⟨_, _, rfl⟩

theorem harmless_changeElements (ref : Ref) (change : Array Value → Array Value) :
    Harmless (changeElements ref change) :=
  (sparing_changeElements ref change).behaves (remembering_changeElements ref change) fun _ => ⟨_, _, rfl⟩

theorem harmless_changeMembers (ref : Ref) (change : Table Ref → Table Ref) :
    Harmless (changeMembers ref change) :=
  (sparing_changeMembers ref change).behaves (remembering_changeMembers ref change) fun _ => ⟨_, _, rfl⟩

theorem harmless_newArray (elements : Array Value) (handle : Handle) :
    Harmless (newArray elements handle) :=
  Behaves.bind (harmless_alloc trivial) fun _ => behaves_pure _

theorem harmless_newMap (entries : Table Value) (handle : Handle) : Harmless (newMap entries handle) :=
  Behaves.bind (harmless_alloc trivial) fun _ => behaves_pure _

theorem harmless_newError (payload : Value) : Harmless (newError payload) :=
  harmless_freshId.bind fun _ => behaves_pure _

theorem harmless_newFunction (code : FunctionCode) (free : Array Ref) :
    Harmless (newFunction code free) :=
  harmless_alloc rfl

theorem harmless_copy (value : Value) : Harmless (copy value) :=
  (sparing_copy value).behaves (remembering_copy value) fun _ => ⟨_, _, rfl⟩

theorem harmless_copyTable (table : Table Value) : Harmless (copyTable table) :=
  (sparing_copyTable table).behaves (remembering_copyTable table) fun _ => ⟨_, _, rfl⟩

end Harmless

section Mappings

variable (deep : Bool)

theorem harmless_tableForm (table : Table Value) : Harmless (tableForm deep table) :=
  (harmless_copyTable table).ite (behaves_pure table)

theorem harmless_valueForm (value : Value) : Harmless (valueForm deep value) :=
  (harmless_copy value).ite (behaves_pure value)

theorem harmless_withTags (tags mapping : Table Value) : Harmless (withTags deep tags mapping) := by
  refine (behaves_pure mapping).ite ?_
  refine (harmless_tableForm deep tags).bind fun form => ?_
  exact (harmless_newMap form .writable).bind fun _ => behaves_pure _

theorem harmless_withAccessor (key : String) (accessor : Option Value) (mapping : Table Value) :
    Harmless (withAccessor deep key accessor mapping) := by
  cases accessor with
  | some function => exact (harmless_valueForm deep function).bind fun _ => behaves_pure _
  | none => exact behaves_pure mapping

theorem harmless_memberMapping (kind : MemberKind) (ref : Ref) :
    Harmless (memberMapping deep kind ref) := by
  cases kind with
  | property =>
    refine behaves_get.bind fun store => ?_
    refine (harmless_withAccessor deep _ _ _).bind fun got => ?_
    exact (harmless_withAccessor deep _ _ _).bind fun _ => harmless_withTags deep _ _
  | _ =>
    refine behaves_get.bind fun store => ?_
    exact (harmless_valueForm deep _).bind fun _ => harmless_withTags deep _ _

theorem harmless_membersMapping (kind : MemberKind) (ref : Ref) :
    Harmless (membersMapping deep kind ref) := by
  refine behaves_get.bind fun store => (behaves_compositional _).table_mapM _ fun member => ?_
  refine Behaves.ite ?_ (behaves_pure _)
  exact (harmless_memberMapping true kind member).bind fun _ => harmless_newMap _ _

theorem harmless_typeMapping (ref : Ref) : Harmless (typeMapping deep ref) := by
  refine behaves_get.bind fun store => ?_
  refine (harmless_withTags deep _ _).bind fun mapping => ?_
  refine (harmless_membersMapping deep _ _).bind fun methods => ?_
  refine (harmless_newMap methods _).bind fun _ => ?_
  refine (harmless_membersMapping deep _ _).bind fun fields => ?_
  refine (harmless_newMap fields _).bind fun _ => ?_
  refine (harmless_membersMapping deep _ _).bind fun properties => ?_
  exact (harmless_newMap properties _).bind fun _ => behaves_pure _

theorem harmless_mapping (value : Value) : Harmless (mapping? deep value) := by
  cases value with
  | map handle ref =>
    exact behaves_get.bind fun _ => (harmless_tableForm deep _).bind fun _ => behaves_pure _
  | object ref =>
    exact behaves_get.bind fun _ => (harmless_tableForm deep _).bind fun _ => behaves_pure _
  | type ref => exact (harmless_typeMapping deep ref).map some
  | member kind ref => exact (harmless_memberMapping deep kind ref).map some
  | members kind ref => exact (harmless_membersMapping deep kind ref).map some
  | _ => exact behaves_pure none

end Mappings

theorem harmless_refuseHeld (held : Option Ref) (value : Value) : Harmless (refuseHeld held value) := by
  unfold refuseHeld
  split
  · exact behaves_get.bind fun _ => (harmless_throw rfl).ite (behaves_pure _)
  · exact behaves_pure _

theorem harmless_tagsFrom (held : Option Ref) (value : Value) : Harmless (tagsFrom held value) := by
  unfold tagsFrom
  split
  · exact behaves_pure _
  · refine (harmless_refuseHeld held _).bind fun _ => ?_
    refine (harmless_mapping false _).bind fun tags => ?_
    split
    · exact behaves_pure _
    · exact harmless_throw rfl

theorem harmless_bind (hold : Hold) (receiver value : Value) : Harmless (bind hold receiver value) := by
  unfold bind
  split
  · exact harmless_freshId.bind fun _ => behaves_pure _
  · refine behaves_get.bind fun store => ?_
    refine (harmless_newFunction _ _).bind fun copied => ?_
    exact harmless_freshId.bind fun _ => behaves_pure _
  · refine Behaves.ite ?_ ?_
    · exact harmless_freshId.bind fun _ => behaves_pure _
    · exact behaves_get.bind fun _ => harmless_throw rfl

section Members

theorem harmless_methodValue (value : Value) : Harmless (methodValue value) :=
  (behaves_pure value).ite (behaves_get.bind fun _ => harmless_throw rfl)

theorem harmless_declaredValue (kind : MemberKind) (value : Value) :
    Harmless (declaredValue kind value) := by
  cases kind with
  | method => exact harmless_methodValue value
  | _ => exact behaves_pure value

theorem harmless_accessor (value : Value) : Harmless (accessor value) := by
  unfold accessor
  split
  · exact behaves_pure none
  · exact (harmless_methodValue _).bind fun _ => behaves_pure _

theorem harmless_tagsOf (held : Option Ref) (mapping : Table Value) : Harmless (tagsOf held mapping) := by
  unfold tagsOf
  split
  · exact harmless_tagsFrom held _
  · exact behaves_pure _

theorem harmless_entryFrom (held : Option Ref) (kind : MemberKind) (mapping : Table Value) :
    Harmless (entryFrom held kind mapping) :=
  (harmless_declaredValue kind _).bind fun _ => (harmless_tagsOf held mapping).bind fun _ => behaves_pure _

theorem harmless_propertyWith (held : Option Ref) (property : Property) (key : String) (value : Value) :
    Harmless (propertyWith held property key value) := by
  unfold propertyWith
  split
  · exact (harmless_accessor value).bind fun _ => behaves_pure _
  · exact (harmless_accessor value).bind fun _ => behaves_pure _
  · exact (harmless_tagsFrom held value).bind fun _ => behaves_pure _
  · exact harmless_throw rfl

theorem harmless_propertyFrom (held : Option Ref) (mapping : Table Value) :
    Harmless (propertyFrom held mapping) :=
  (behaves_compositional _).list_foldlM _ (fun property _ => harmless_propertyWith held property _ _) _

theorem harmless_memberGet (kind : MemberKind) (ref : Ref) (key : String) :
    Harmless (memberGet kind ref key) := by
  have entry : Harmless (entryGet ref key) := by
    refine behaves_get.bind fun store => ?_
    split
    · exact behaves_pure _
    · exact harmless_newMap _ _
    · exact harmless_throw rfl
  cases kind with
  | property =>
    refine behaves_get.bind fun store => ?_
    split
    · exact behaves_pure _
    · exact behaves_pure _
    · exact harmless_newMap _ _
    · exact harmless_throw rfl
  | field => exact entry
  | method => exact entry

theorem harmless_writeEntry (ref : Ref) (change : Entry → Entry) :
    Harmless (do write ref (.entry (change ((← get).entry ref)))) :=
  behaves_get.bind fun _ => harmless_write ref trivial

theorem harmless_entrySet (kind : MemberKind) (ref : Ref) (key : String) (value : Value) :
    Harmless (entrySet kind ref key value) := by
  unfold entrySet
  split
  · refine (harmless_declaredValue kind value).bind fun value => ?_
    exact harmless_writeEntry ref fun entry => { entry with value }
  · refine (harmless_tagsFrom none value).bind fun tags => ?_
    exact harmless_writeEntry ref fun entry => { entry with tags }
  · exact harmless_throw rfl

theorem harmless_propertySet (ref : Ref) (key : String) (value : Value) :
    Harmless (propertySet ref key value) :=
  behaves_get.bind fun _ =>
    (harmless_propertyWith none _ key value).bind fun _ => harmless_write ref trivial

theorem harmless_memberSet (kind : MemberKind) (ref : Ref) (key : String) (value : Value) :
    Harmless (memberSet kind ref key value) := by
  cases kind with
  | property => exact harmless_propertySet ref key value
  | field => exact harmless_entrySet .field ref key value
  | method => exact harmless_entrySet .method ref key value

theorem harmless_loadMember (kind : MemberKind) (ref : Ref) (mapping : Table Value) :
    Harmless (loadMember kind ref mapping) := by
  have entry (kind : MemberKind) : Harmless (do
      entrySet kind ref "value" ((mapping.get? "value").getD .undefined)
      let tags ← tagsOf none mapping
      write ref (.entry { (← get).entry ref with tags })) := by
    refine (harmless_entrySet kind ref _ _).bind fun _ => ?_
    refine (harmless_tagsOf none mapping).bind fun tags => ?_
    exact harmless_writeEntry ref fun entry => { entry with tags }
  cases kind with
  | property => exact (behaves_compositional _).list_forM _ fun _ => harmless_propertySet ref _ _
  | field => exact entry .field
  | method => exact entry .method

theorem harmless_declareField (held : Option Ref) (value : Value) : Harmless (declareField held value) := by
  unfold declareField
  split
  · exact behaves_pure _
  · refine behaves_get.bind fun store => ?_
    exact (harmless_entryFrom held .field _).bind fun _ => harmless_alloc trivial
  · exact harmless_alloc trivial
  · exact harmless_alloc trivial

theorem harmless_declareMethod (held : Option Ref) (value : Value) :
    Harmless (declareMethod held value) := by
  unfold declareMethod
  split
  · exact behaves_pure _
  · refine behaves_get.bind fun store => ?_
    exact (harmless_entryFrom held .method _).bind fun _ => harmless_alloc trivial
  · exact (harmless_methodValue _).bind fun _ => harmless_alloc trivial

theorem harmless_propertyUpdate (held : Option Ref) (key : String) (value : Value) :
    Harmless (propertyUpdate held key value) := by
  unfold propertyUpdate
  split
  · exact (harmless_accessor value).bind fun _ => behaves_pure _
  · split
    · exact behaves_pure _
    · refine behaves_get.bind fun store => ?_
      refine (harmless_propertyFrom held _).bind fun property => ?_
      refine (behaves_pure _).ite ?_
      exact Behaves.bind (harmless_alloc trivial) fun _ => behaves_pure _
    · exact behaves_pure _
    · exact behaves_get.bind fun _ => harmless_throw rfl

theorem harmless_propertyNamed (table : Ref) (name : String) : Harmless (propertyNamed table name) := by
  refine behaves_get.bind fun store => ?_
  split
  · exact behaves_pure _
  · refine Behaves.bind (harmless_alloc trivial) fun ref => ?_
    exact (harmless_changeMembers table _).bind fun _ => behaves_pure _

theorem harmless_applyUpdate (table : Ref) (update : PropertyUpdate) :
    Harmless (applyUpdate table update) := by
  unfold applyUpdate
  split
  · refine (harmless_propertyNamed table _).bind fun ref => ?_
    refine behaves_get.bind fun store => ?_
    refine Behaves.bind (harmless_write ref trivial) fun _ => ?_
    exact (harmless_changeMembers table _).ite (behaves_pure _)
  · exact harmless_changeMembers table _
  · exact harmless_changeMembers table _

theorem harmless_declare (held : Option Ref) (kind : MemberKind) (table : Ref) (key : String)
    (value : Value) : Harmless (declare held kind table key value) := by
  have named {body : StoreM Unit} (spares : Harmless body) : Harmless (do
      if key.isEmpty then throw (.invalidIndex "")
      body) :=
    ((harmless_throw rfl).bind fun _ => spares).ite spares
  cases kind with
  | field =>
    exact named ((harmless_declareField held value).bind fun _ => harmless_changeMembers table _)
  | method =>
    exact named ((harmless_declareMethod held value).bind fun _ => harmless_changeMembers table _)
  | property =>
    exact named ((harmless_propertyUpdate held key value).bind fun _ => harmless_applyUpdate table _)

theorem harmless_declareAll (held : Option Ref) (kind : MemberKind) (table : Ref)
    (entries : List (String × Value)) : Harmless (declareAll held kind table entries) := by
  induction entries with
  | nil => exact behaves_pure _
  | cons entry rest ih => exact (harmless_declare held kind table entry.1 entry.2).bind fun _ => ih

theorem harmless_newMembers (kind : MemberKind) : Harmless (newMembers kind) := harmless_alloc trivial

theorem harmless_membersFrom (kind : MemberKind) (mapping : Table Value) :
    Harmless (membersFrom kind mapping) :=
  (harmless_newMembers kind).bind fun _ =>
    (harmless_declareAll none kind _ _).bind fun _ => behaves_pure _

end Members

section Types

theorem harmless_membersValue (key : String) (kind : MemberKind) (value : Value) :
    Harmless (membersValue key kind value) := by
  unfold membersValue
  split
  · exact harmless_newMembers kind
  · exact behaves_get.bind fun _ => harmless_membersFrom kind _
  · exact (behaves_pure _).ite (harmless_throw rfl)
  · exact harmless_throw rfl

theorem harmless_typeChange (key : String) (value : Value) : Harmless (typeChange key value) := by
  unfold typeChange
  split
  · exact (harmless_tagsFrom none value).bind fun _ => behaves_pure _
  · refine Behaves.bind ?_ fun _ => behaves_pure _
    unfold constructorValue
    split
    · exact behaves_pure _
    · exact (behaves_pure _).ite (harmless_throw rfl)
  · exact (harmless_membersValue _ _ value).bind fun _ => behaves_pure _
  · exact (harmless_membersValue _ _ value).bind fun _ => behaves_pure _
  · exact (harmless_membersValue _ _ value).bind fun _ => behaves_pure _
  · exact (harmless_membersValue _ _ value).bind fun _ => behaves_pure _
  · exact harmless_throw rfl

theorem anonymous_typeName (mapping : Table Value) : Anonymous (typeName mapping) := by
  unfold typeName
  split
  · exact behaves_throw ⟨rfl, rfl⟩
  · exact behaves_throw ⟨rfl, rfl⟩
  · exact (behaves_throw ⟨rfl, rfl⟩).ite (behaves_pure _)
  · exact behaves_get.bind fun _ => behaves_throw ⟨rfl, rfl⟩

theorem anonymous_typeFrom (mapping : Table Value) : Anonymous (typeFrom mapping) := by
  refine (anonymous_typeName mapping).bind fun name => ?_
  refine Behaves.bind ?_ fun blank => ?_
  · refine (harmless_newMembers .field).anonymous.bind fun fields => ?_
    refine (harmless_newMembers .method).anonymous.bind fun methods => ?_
    exact (harmless_newMembers .property).anonymous.bind fun properties => behaves_pure _
  · refine Behaves.bind ?_ fun type => Harmless.anonymous (harmless_alloc trivial)
    refine (behaves_compositional _).list_foldlM _ (fun type entry => ?_) blank
    exact (harmless_typeChange entry.1 entry.2).anonymous.bind fun _ => behaves_pure _

theorem harmless_typeGet (ref : Ref) (key : String) : Harmless (typeGet ref key) := by
  refine behaves_get.bind fun store => ?_
  split
  · exact behaves_pure _
  · exact harmless_newMap _ _
  · exact behaves_pure _
  · exact behaves_pure _
  · exact behaves_pure _
  · exact behaves_pure _
  · exact (harmless_typeMapping true ref).bind fun _ => harmless_newMap _ _
  · exact harmless_throw rfl

theorem harmless_typeSet (ref : Ref) (key : String) (value : Value) : Harmless (typeSet ref key value) := by
  refine Behaves.ite ?_ (harmless_throw rfl)
  refine (harmless_typeChange key value).bind fun change => ?_
  exact behaves_get.bind fun _ => harmless_write ref trivial

theorem harmless_newObject (type : Ref) : Harmless (newObject type) := by
  refine behaves_get.bind fun store => behaves_get.bind fun again => ?_
  refine Behaves.bind ?_ fun values => ?_
  · refine (behaves_compositional _).table_mapM _ fun field => ?_
    exact behaves_get.bind fun _ => harmless_copy _
  · exact Behaves.bind (harmless_alloc trivial) fun storage => harmless_alloc trivial

theorem harmless_newObjectWith (type : Ref) (values : Table Value) :
    Harmless (newObjectWith type values) := by
  refine (harmless_newObject type).bind fun ref => ?_
  refine behaves_get.bind fun store => behaves_get.bind fun again => ?_
  exact Behaves.bind (harmless_write _ trivial) fun _ => behaves_pure _

end Types

section Indexing

theorem harmless_intIndex (index : Value) : Harmless (intIndex index) := by
  unfold intIndex
  split
  · exact behaves_pure _
  · exact behaves_get.bind fun _ => harmless_throw rfl

theorem harmless_textIndex (index : Value) : Harmless (textIndex index) := by
  unfold textIndex
  split
  · exact behaves_pure _
  · exact behaves_get.bind fun _ => harmless_throw rfl

theorem harmless_mapIndex (index : Value) : Harmless (mapIndex index) := by
  refine behaves_get.bind fun store => ?_
  split
  · exact behaves_pure _
  · exact behaves_get.bind fun _ => harmless_throw rfl

def noteMethod (ref : Ref) (name : String) (value : Value) : StoreM Answer := do
  let bound ← bind .weak (.object ref) value
  let object := (← get).object ref
  write ref (.object { object with methods := object.methods.insert name bound })
  return .value bound

theorem objectGet_eq (ref : Ref) (name : String) (store : Store) :
    objectGet ref name store =
      if name = mapKey then .ok (.value (.map .writable (store.object ref).values)) store
      else if name = "__type__" then .ok (.value (.type (store.object ref).type)) store
      else match (store.members (store.type (store.object ref).type).properties).get? name with
        | some property =>
          match (store.property property).getter with
          | some getter =>
            .ok (.call property { callee := getter, receiver := some (.object ref) }) store
          | none => .ok (.value .undefined) store
        | none =>
          match (store.entries (store.object ref).values).get? name, (store.object ref).methods.get? name,
              (store.members (store.type (store.object ref).type).methods).get? name with
          | some value, _, _ => .ok (.value value) store
          | none, some bound, _ => .ok (.value bound) store
          | none, none, some method => noteMethod ref name (store.entry method).value store
          | none, none, none => .ok (.value .undefined) store := by
  show (objectGet ref name).run store = _
  simp only [objectGet, EStateM.run_bind, EStateM.run_get]
  split
  · rfl
  split
  · rfl
  cases (store.members (store.type (store.object ref).type).properties).get? name with
  | some property =>
    cases getter : (store.property property).getter with
    | _ =>
      simp only [getter]
      rfl
  | none =>
    cases (store.entries (store.object ref).values).get? name with
    | some value => rfl
    | none =>
      cases (store.object ref).methods.get? name with
      | some bound => rfl
      | none =>
        cases (store.members (store.type (store.object ref).type).methods).get? name with
        | _ => rfl

/-- A look at a member changes nothing, or binds a method that was not looked up before. -/
theorem objectGet_cases (ref : Ref) (name : String) (store : Store) :
    (∃ answer, objectGet ref name store = .ok answer store) ∨
      ∃ value, (store.object ref).methods.get? name = none ∧
        objectGet ref name store = noteMethod ref name value store := by
  rw [objectGet_eq]
  split
  · exact .inl ⟨_, rfl⟩
  split
  · exact .inl ⟨_, rfl⟩
  split
  · split
    · exact .inl ⟨_, rfl⟩
    · exact .inl ⟨_, rfl⟩
  split
  · exact .inl ⟨_, rfl⟩
  · exact .inl ⟨_, rfl⟩
  next unknown _ => exact .inr ⟨_, unknown, rfl⟩
  · exact .inl ⟨_, rfl⟩

theorem object_push_function (store : Store) (function : Function) (ref : Ref) :
    ({ store with cells := store.cells.push (.function function) } : Store).object ref =
      store.object ref := by
  by_cases last : ref = store.cells.size
  · simp [Store.object, last]
  · simp only [Store.object, Array.getElem?_push, if_neg last]

theorem object_bind (hold : Hold) (receiver value : Value) (store : Store) (ref : Ref) :
    (left (bind hold receiver value store)).object ref = store.object ref := by
  unfold bind
  split
  · rfl
  · exact object_push_function store _ ref
  · split
    · rfl
    · rfl

theorem ownMethod_of_bind {ref : Ref} {value bound : Value} {store after : Store}
    (done : bind .weak (.object ref) value store = .ok bound after) : bound.OwnMethod ref := by
  unfold bind at done
  split at done
  · cases done
    exact ⟨_, _, rfl⟩
  · cases done
    exact ⟨_, _, rfl⟩
  · split at done
    · cases done
      exact ⟨_, _, rfl⟩
    · cases done

theorem remembering_noteMethod {ref : Ref} {name : String} {store : Store}
    (absent : (store.object ref).methods.get? name = none) (value : Value) :
    store.Remembers (left (noteMethod ref name value store)) := by
  have bound := (harmless_bind .weak (.object ref) value).remembering store
  have same := object_bind .weak (.object ref) value store ref
  simp only [noteMethod, Bind.bind, EStateM.bind]
  cases done : bind .weak (.object ref) value store with
  | error fault middle =>
    rw [done] at bound
    exact bound
  | ok method middle =>
    rw [done] at bound same
    refine bound.trans (middle.remembers_overwrite ref (fun object later found is => ?_)
      fun cursor later _ is => nomatch is)
    have view : middle.object ref = object := Store.object_eq found
    cases is
    rw [view]
    refine .note ?_ (ownMethod_of_bind done)
    rw [← view, show middle.object ref = store.object ref from same]
    exact absent

theorem harmless_objectGet (ref : Ref) (name : String) : Harmless (objectGet ref name) := by
  have noted (value : Value) : Sparing (noteMethod ref name value) := by
    refine (harmless_bind .weak _ _).sparing.bind fun bound => sparing_get.bind fun later => ?_
    exact Sparing.bind (sparing_write ref trivial) fun _ => sparing_pure _
  refine ⟨fun store => ?_, fun store => ?_, fun store fault after failed => ?_⟩
  · rcases objectGet_cases ref name store with ⟨answer, given⟩ | ⟨value, -, given⟩
    · rw [given]
      exact .refl store
    · rw [given]
      exact noted value store
  · rcases objectGet_cases ref name store with ⟨answer, given⟩ | ⟨value, absent, given⟩
    · rw [given]
      exact .refl store
    · rw [given]
      exact remembering_noteMethod absent value
  · rcases objectGet_cases ref name store with ⟨answer, given⟩ | ⟨value, -, given⟩
    · cases given.symm.trans failed
    · rw [given] at failed
      simp only [noteMethod, Bind.bind, EStateM.bind] at failed
      cases done : bind .weak (.object ref) value store with
      | ok method middle =>
        rw [done] at failed
        cases failed
      | error reason middle =>
        rw [done] at failed
        cases failed
        exact (harmless_bind .weak _ _).blameless store fault after done

theorem harmless_objectSet (ref : Ref) (name : String) (value : Value) :
    Harmless (objectSet ref name value) := by
  refine behaves_get.bind fun store => ?_
  dsimp only
  split
  · split
    · exact behaves_pure _
    · exact harmless_throw rfl
  · exact Behaves.bind (harmless_write _ trivial) fun _ => behaves_pure _

theorem harmless_newMapper (subject : Value) : Harmless (newMapper subject) :=
  harmless_freshId.bind fun _ => behaves_pure _

theorem harmless_indexGet (target index : Value) : Harmless (indexGet target index) := by
  cases target with
  | undefined | useDefault => exact behaves_pure _
  | array => exact (harmless_intIndex index).bind fun _ => behaves_get.bind fun _ => behaves_pure _
  | string | bytes => exact (harmless_intIndex index).bind fun _ => behaves_pure _
  | map => exact (harmless_mapIndex index).bind fun _ => behaves_get.bind fun _ => behaves_pure _
  | error => exact (behaves_pure _).ite (harmless_throw rfl)
  | object => exact (harmless_textIndex index).bind fun name => harmless_objectGet _ name
  | type => exact (harmless_textIndex index).bind fun key => (harmless_typeGet _ key).map _
  | member =>
    refine (harmless_textIndex index).bind fun key => ?_
    exact ((harmless_newMapper _).map _).ite ((harmless_memberGet _ _ key).map _)
  | members =>
    refine (harmless_textIndex index).bind fun key => ?_
    exact ((harmless_newMapper _).map _).ite (behaves_get.bind fun _ => behaves_pure _)
  | _ => exact behaves_get.bind fun _ => harmless_throw rfl

theorem harmless_reloadMapping (value : Value) : Harmless (reloadMapping value) := by
  refine (harmless_mapping true value).bind fun mapping => ?_
  split
  · exact behaves_pure _
  · exact behaves_get.bind fun _ => harmless_throw rfl

theorem harmless_indexSet (target index value : Value) : Harmless (indexSet target index value) := by
  have answered {action : StoreM Unit} (spares : Harmless action) :
      Harmless (action >>= fun _ => pure (Answer.value .undefined)) :=
    spares.bind fun _ => behaves_pure _
  have refused : Harmless (do throw (.notIndexAssignable (target.kind (← get))) : StoreM Answer) :=
    behaves_get.bind fun _ => harmless_throw rfl
  cases target with
  | array handle ref =>
    cases handle with
    | frozen => exact refused
    | writable =>
      refine (harmless_intIndex index).bind fun i => behaves_get.bind fun store => ?_
      split
      · exact answered (harmless_changeElements _ _)
      · exact harmless_throw rfl
  | map handle ref =>
    cases handle with
    | frozen => exact refused
    | writable =>
      refine (harmless_mapIndex index).bind fun key => behaves_get.bind fun store => ?_
      exact answered (harmless_write _ trivial)
  | object => exact (harmless_textIndex index).bind fun name => harmless_objectSet _ name value
  | type => exact (harmless_textIndex index).bind fun key => answered (harmless_typeSet _ key value)
  | member =>
    refine (harmless_textIndex index).bind fun key => ?_
    refine Behaves.ite ?_ (answered (harmless_memberSet _ _ key value))
    exact (harmless_reloadMapping value).bind fun _ => answered (harmless_loadMember _ _ _)
  | members =>
    refine (harmless_textIndex index).bind fun key => ?_
    refine Behaves.ite ?_ (answered (harmless_declare none _ _ key value))
    exact (harmless_reloadMapping value).bind fun _ => answered (harmless_declareAll _ _ _ _)
  | _ => exact refused

theorem harmless_deleteFromMap (ref : Ref) (keys : List Value) : Harmless (deleteFromMap ref keys) := by
  induction keys with
  | nil => exact behaves_pure _
  | cons index rest ih =>
    have deleted : Harmless (do
        let key ← mapIndex index
        write ref (.map (((← get).entries ref).erase key))
        deleteFromMap ref rest) := by
      refine (harmless_mapIndex index).bind fun key => behaves_get.bind fun store => ?_
      exact Behaves.bind (harmless_write ref trivial) fun _ => ih
    refine behaves_get.bind fun store => ?_
    exact ((harmless_throw rfl).bind fun _ => deleted).ite deleted

theorem harmless_deleteFromMembers (ref : Ref) (keys : List Value) :
    Harmless (deleteFromMembers ref keys) := by
  induction keys with
  | nil => exact behaves_pure _
  | cons index rest ih =>
    refine (harmless_textIndex index).bind fun key => ?_
    exact (harmless_changeMembers ref _).bind fun _ => ih

theorem harmless_indexDelete (target : Value) (keys : List Value) :
    Harmless (indexDelete target keys) := by
  unfold indexDelete
  split
  · exact harmless_deleteFromMap _ keys
  · exact harmless_deleteFromMembers _ keys
  · exact behaves_get.bind fun _ => harmless_throw rfl

end Indexing

theorem harmless_newIterator (value : Value) : Harmless (newIterator value) := by
  refine behaves_get.bind fun store => ?_
  cases found : Sequence.of store value with
  | ok sequence =>
    have made : Harmless (alloc (.iterator (.start sequence))) := harmless_alloc trivial
    exact made.bind fun _ => behaves_pure _
  | error fault => exact harmless_throw (Sequence.concern?_of found)

theorem harmless_iteratorNext (ref : Ref) : Harmless (iteratorNext ref) := by
  have spares : Sparing (iteratorNext ref) :=
    sparing_get.bind fun _ => Sparing.bind (sparing_write ref trivial) fun _ => sparing_pure _
  exact spares.behaves (remembering_iteratorNext ref) fun _ => ⟨_, _, rfl⟩

section Binding

theorem harmless_bindPositional (code : FunctionCode) (arguments : Array Value) :
    Harmless (bindPositional code arguments) := by
  refine Behaves.ite ?_ ((harmless_throw rfl).ite (behaves_pure _))
  refine (harmless_throw rfl).ite ?_
  exact (harmless_newArray _ _).bind fun _ => behaves_pure _

theorem uncounted_bindKeywords (code : FunctionCode) (keywords : Table Value) :
    Uncounted (bindKeywords code keywords) := by
  refine Behaves.ite ((harmless_newMap _ _).uncounted.bind fun _ => behaves_pure _) ?_
  refine Behaves.bind ?_ fun _ => behaves_pure _
  unfold refuseUndeclared
  split
  · exact behaves_pure _
  · refine behaves_throw ?_
    split
    · exact ⟨⟨rfl, rfl⟩, nofun⟩
    · exact ⟨⟨rfl, rfl⟩, nofun⟩

theorem uncounted_bindArguments (code : FunctionCode) (arguments : Array Value)
    (keywords : Table Value) : Uncounted (bindArguments code arguments keywords) :=
  (harmless_bindPositional code arguments).uncounted.bind fun _ =>
    (uncounted_bindKeywords code keywords).bind fun _ => behaves_pure _

theorem harmless_captured (values : List Value) : Harmless (Act.captured values) := by
  induction values with
  | nil => exact behaves_pure _
  | cons value rest ih =>
    unfold Act.captured
    split
    · exact behaves_pure _
    next same =>
      cases same
      exact ih.bind fun _ => behaves_pure _
    next same =>
      cases same
      refine Behaves.bind (harmless_alloc trivial) fun ref => ?_
      exact ih.bind fun _ => behaves_pure _

end Binding

theorem harmless_binary (op : Operator) (left right : Value) :
    Harmless (Value.binary op left right) := by
  refine behaves_get.bind fun store => ?_
  split
  · exact harmless_newArray _ _
  · split
    · exact behaves_pure _
    · exact harmless_throw rfl
    next failed => exact harmless_throw (Value.concern?_operate failed)

theorem harmless_slice (value low high : Value) : Harmless (value.slice low high) := by
  refine behaves_get.bind fun store => ?_
  split
  · dsimp only
    split
    · exact harmless_newArray _ _
    next failed => exact harmless_throw (Value.concern?_sliceBounds failed)
  · split
    · exact behaves_pure _
    next failed => exact harmless_throw (Value.concern?_sliceBounds failed)
  · split
    · exact behaves_pure _
    next failed => exact harmless_throw (Value.concern?_sliceBounds failed)
  · exact harmless_throw rfl

end StoreM

namespace Builtin

open StoreM

variable (context : CallContext)

theorem anonymous_requireCount (least most : Nat) : Anonymous (requireCount context least most) :=
  (behaves_pure _).ite (behaves_throw ⟨rfl, rfl⟩)

theorem anonymous_requireOnly (allowed : List String) : Anonymous (requireOnly context allowed) :=
  (behaves_pure _).ite (behaves_throw ⟨rfl, rfl⟩)

theorem anonymous_intArgument (position : Nat) (name : String) :
    Anonymous (intArgument context position name) := by
  unfold intArgument
  split
  · exact behaves_pure _
  · exact behaves_get.bind fun _ => behaves_throw ⟨rfl, rfl⟩

theorem anonymous_runRange : Anonymous (runRange context) := by
  refine (anonymous_requireCount context 2 3).bind fun _ => ?_
  refine (anonymous_requireOnly context []).bind fun _ => ?_
  refine (anonymous_intArgument context 0 _).bind fun start => ?_
  refine (anonymous_intArgument context 1 _).bind fun stop => ?_
  have made (step : Int64) : Harmless (do
      if step ≤ 0 then throw .invalidRangeStep
      if (rangeCount start stop step).toNat > maxArraySize then throw .arrayLimit
      StoreM.newArray (rangeNumbers start stop step) .writable) := by
    have short : Harmless (do
        if (rangeCount start stop step).toNat > maxArraySize then throw .arrayLimit
        StoreM.newArray (rangeNumbers start stop step) .writable) :=
      ((harmless_throw rfl).bind fun _ => harmless_newArray _ _).ite (harmless_newArray _ _)
    exact ((harmless_throw rfl).bind fun _ => short).ite short
  exact ((anonymous_intArgument context 2 _).bind fun step => (made step).anonymous).ite (made 1).anonymous

theorem anonymous_typeArguments (position : Nat) (mapping : Table Value) (values : List Value) :
    Anonymous (typeArguments position mapping values) := by
  induction values generalizing position mapping with
  | nil => exact behaves_pure _
  | cons value rest ih =>
    unfold typeArguments
    split
    · exact ih _ _
    · exact behaves_get.bind fun _ => behaves_throw ⟨rfl, rfl⟩

theorem anonymous_typeMappingOf : Anonymous (typeMappingOf context) := by
  unfold typeMappingOf
  split
  · exact behaves_throw ⟨rfl, rfl⟩
  · refine (anonymous_requireCount context 1 1).bind fun _ => ?_
    refine (anonymous_requireOnly context []).bind fun _ => ?_
    exact behaves_get.bind fun _ => behaves_pure _
  · refine (anonymous_requireOnly context _).bind fun _ => ?_
    exact (anonymous_typeArguments 1 _ _).bind fun _ => behaves_pure _
  · exact behaves_get.bind fun _ => behaves_throw ⟨rfl, rfl⟩

theorem anonymous_runTypeOf : Anonymous (runTypeOf context) := by
  refine (anonymous_requireCount context 1 1).bind fun _ => ?_
  split
  · exact behaves_get.bind fun _ => behaves_pure _
  · exact behaves_get.bind fun _ => behaves_throw ⟨rfl, rfl⟩

theorem anonymous_positionalEntries : Anonymous (positionalEntries context) := by
  unfold positionalEntries
  split
  · exact behaves_pure _
  · exact behaves_get.bind fun _ => behaves_pure _
  · exact behaves_get.bind fun _ => behaves_throw ⟨rfl, rfl⟩

theorem harmless_keywordMember (kind : MemberKind) (name : String) (value : Value) :
    Harmless (keywordMember kind name value) := by
  cases kind with
  | field =>
    simp only [keywordMember, keywordField]
    split
    · exact behaves_pure _
    · exact harmless_alloc trivial
    · exact harmless_alloc trivial
  | method =>
    simp only [keywordMember, keywordMethod]
    split
    · exact behaves_pure _
    · refine Behaves.ite ?_ (harmless_throw rfl)
      exact (harmless_methodValue _).bind fun _ => harmless_alloc trivial
  | property =>
    simp only [keywordMember, keywordProperty]
    split
    · exact behaves_pure _
    · refine behaves_get.bind fun store => ?_
      exact (harmless_propertyFrom none _).bind fun _ => harmless_alloc trivial
    · exact harmless_throw rfl

theorem harmless_declareKeywords (kind : MemberKind) (table : Ref) (entries : List (String × Value)) :
    Harmless (declareKeywords kind table entries) := by
  induction entries with
  | nil => exact behaves_pure _
  | cons entry rest ih =>
    refine (harmless_keywordMember kind entry.1 entry.2).bind fun member => ?_
    exact (harmless_changeMembers table _).bind fun _ => ih

theorem anonymous_runMembers (kind : MemberKind) : Anonymous (runMembers kind context) := by
  refine (anonymous_requireCount context 0 1).bind fun _ => ?_
  refine (anonymous_positionalEntries context).bind fun entries => ?_
  refine (harmless_newMembers kind).anonymous.bind fun table => ?_
  refine (harmless_declareAll none kind table entries).anonymous.bind fun _ => ?_
  exact (harmless_declareKeywords kind table _).anonymous.bind fun _ => behaves_pure _

theorem anonymous_runEntry (kind : MemberKind) : Anonymous (runEntry kind context) := by
  refine (anonymous_requireCount context 1 1).bind fun _ => ?_
  refine (harmless_declaredValue kind _).anonymous.bind fun value => ?_
  exact Behaves.bind (Harmless.anonymous (harmless_alloc trivial)) fun _ => behaves_pure _

theorem anonymous_runProperty : Anonymous (runProperty context) := by
  have made (getter setter : Value) (tags : Table Value) : Harmless (do
      let getter ← StoreM.accessor getter
      let setter ← StoreM.accessor setter
      return Value.member .property (← StoreM.alloc (.property { getter, setter, tags }))) := by
    refine (harmless_accessor getter).bind fun getter => ?_
    refine (harmless_accessor setter).bind fun setter => ?_
    exact Behaves.bind (harmless_alloc trivial) fun _ => behaves_pure _
  unfold runProperty
  split
  · exact (made _ _ _).anonymous
  · exact (made _ _ _).anonymous
  · exact (behaves_throw ⟨rfl, rfl⟩).bind fun _ => (made _ _ _).anonymous

theorem anonymous_runGetMethods : Anonymous (runGetMethods context) := by
  refine (anonymous_requireCount context 0 0).bind fun _ => ?_
  refine behaves_get.bind fun store => ?_
  split
  · exact (harmless_newArray _ _).anonymous
  next failed => exact (harmless_throw (Sequence.concern?_of failed)).anonymous

theorem anonymous_run (builtin : Builtin) : Anonymous (run builtin context) := by
  cases builtin with
  | copy =>
    refine (anonymous_requireCount context 1 1).bind fun _ => ?_
    exact (anonymous_requireOnly context []).bind fun _ => (harmless_copy _).anonymous
  | range => exact anonymous_runRange context
  | delete =>
    have deleted : Anonymous (do
        requireOnly context []
        StoreM.indexDelete (context.argument 0) (context.arguments.toList.drop 1)
        return Value.undefined) := by
      refine (anonymous_requireOnly context []).bind fun _ => ?_
      exact (harmless_indexDelete _ _).anonymous.bind fun _ => behaves_pure _
    exact ((behaves_throw ⟨rfl, rfl⟩).bind fun _ => deleted).ite deleted
  | type =>
    refine (anonymous_typeMappingOf context).bind fun mapping => ?_
    exact (anonymous_typeFrom mapping).bind fun _ => behaves_pure _
  | typeOf => exact anonymous_runTypeOf context
  | field => exact anonymous_runEntry context .field
  | fields => exact anonymous_runMembers context .field
  | method => exact anonymous_runEntry context .method
  | methods => exact anonymous_runMembers context .method
  | property => exact anonymous_runProperty context
  | properties => exact anonymous_runMembers context .property
  | getMethods => exact anonymous_runGetMethods context

end Builtin

open StoreM

theorem harmless_newMapping (deep : Bool) (subject : Value) : Harmless (newMapping deep subject) := by
  refine (harmless_mapping deep subject).bind fun mapping => ?_
  cases mapping with
  | some mapping => exact harmless_newMap _ _
  | none => exact behaves_get.bind fun _ => harmless_throw rfl

theorem anonymous_runMapper (subject : Value) (context : CallContext) :
    Anonymous (runMapper subject context) := by
  unfold runMapper
  split
  · exact (harmless_newMapping false subject).anonymous
  · exact behaves_get.bind fun _ => (harmless_newMapping _ subject).anonymous
  · exact (behaves_throw ⟨rfl, rfl⟩).bind fun deep => (harmless_newMapping deep subject).anonymous

namespace Literal

mutual

theorem harmless_build (registers : Table Value) : (literal : Literal) →
    Harmless (literal.build registers)
  | .plain value => behaves_pure value
  | .array handle items =>
    (harmless_buildList registers items).bind fun _ => harmless_newArray _ handle
  | .map handle items => (harmless_buildEntries registers items).bind fun _ => harmless_newMap _ handle
  | .error payload => (harmless_build registers payload).bind fun _ => harmless_newError _
  | .box content =>
    (harmless_build registers content).bind fun _ =>
      Behaves.bind (harmless_alloc trivial) fun _ => behaves_pure _
  | .builtin name => by
    unfold build
    split
    · exact harmless_freshId.bind fun _ => behaves_pure _
    · exact behaves_pure _
  | .host callee => harmless_freshId.bind fun _ => behaves_pure _
  | .bound callee receiver =>
    (harmless_build registers callee).bind fun _ =>
      (harmless_build registers receiver).bind fun _ => harmless_bind .strong _ _
  | .function code keywords =>
    (harmless_buildEntries registers keywords).bind fun _ =>
      (harmless_newFunction _ _).bind fun _ => behaves_pure _
  | .register name => behaves_pure _

theorem harmless_buildList (registers : Table Value) : (literals : List Literal) →
    Harmless (buildList registers literals)
  | [] => behaves_pure _
  | first :: rest =>
    (harmless_build registers first).bind fun _ =>
      (harmless_buildList registers rest).bind fun _ => behaves_pure _

theorem harmless_buildEntries (registers : Table Value) : (literals : List (String × Literal)) →
    Harmless (buildEntries registers literals)
  | [] => behaves_pure _
  | (_, first) :: rest =>
    (harmless_build registers first).bind fun _ =>
      (harmless_buildEntries registers rest).bind fun _ => behaves_pure _

end

end Literal

end ScriptMachine
