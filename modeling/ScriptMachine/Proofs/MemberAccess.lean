import ScriptMachine.Proofs.CommandHistories
import ScriptMachine.Proofs.Deletions
import ScriptMachine.Proofs.NewInstances

/-! Members of instances. A property comes before a stored value and a stored value before a method. A
method that an instance has looked up once is the one it finds ever after. -/

namespace ScriptMachine

open Store StoreM

/-- The names that every instance answers itself. -/
def Reserved (name : String) : Prop := name = mapKey ∨ name = "__type__"

namespace Store

def propertiesOf (store : Store) (type : Ref) : Table Ref := store.members (store.type type).properties

def methodsOf (store : Store) (type : Ref) : Table Ref := store.members (store.type type).methods

/-- Neither a property of a type nor a value in storage has a name, so that a method is looked for. -/
structure Vacant (store : Store) (type values : Ref) (name : String) : Prop where
  unlisted : (store.propertiesOf type).get? name = none
  unstored : (store.entries values).get? name = none

/-- A name has a method, which an instance has looked up before or which its type has at present. -/
def HasMethod (store : Store) (ref type : Ref) (name : String) : Prop :=
  ((store.object ref).methods.get? name).isSome ∨ ((store.methodsOf type).get? name).isSome

/-- An instance of a type with its storage. The methods that it has looked up are its own. -/
structure Houses (store : Store) (ref type values : Ref) : Prop where
  fits : store.Fits (.object ref)
  type : (store.object ref).type = type
  values : (store.object ref).values = values
  own : ∀ name bound, (store.object ref).methods.get? name = some bound → bound.OwnMethod ref

/-- What a method calls that is made of a value: the same as another method, a copy of a function that is
not running, or native code itself. -/
def Binds (store after : Store) : Value → Value → Prop
  | .bound _ _ callee _, served => served = callee
  | .function ref, served => ∃ copied, served = .function copied ∧ store.cells.size ≤ copied ∧
      after.cells[copied]? = some (.function { store.function ref with busy := false })
  | value, served => served = value

theorem Binds.mono {store middle later : Store} {value callee : Value}
    (serves : store.Binds middle value callee)
    (kept : ∀ ref cell, store.cells.size ≤ ref → middle.cells[ref]? = some cell →
      later.cells[ref]? = some cell) : store.Binds later value callee := by
  cases value with
  | function ref =>
    obtain ⟨copied, is, fresh, same⟩ := serves
    exact ⟨copied, is, fresh, kept _ _ fresh same⟩
  | _ => exact serves

/-- What can become of a store: a step of an execution is made, or a command is carried out. -/
inductive Becomes : Store → Store → Prop where
  | step {setting : Setting} {execution : Execution} {later : Store}
      (made : (Execution.step setting execution).store? = some later) :
      Becomes execution.world.store later
  | command (fuel shown : Nat) (register : Option String) (command : Command) (session : Session) :
      Becomes session.world.store (session.respond fuel shown register command).2.world.store

theorem Becomes.remembers {before after : Store} (becomes : before.Becomes after) :
    before.Remembers after := by
  cases becomes with
  | step made => exact Execution.remembers_step made
  | command fuel shown register command session =>
    exact Session.remembers_respond fuel shown register command session

/-- Whatever has happened to a store, its instances are there, with all they have looked up. -/
theorem remembers_of_becomes {store later : Store} (history : Relation.ReflTransGen Becomes store later) :
    store.Remembers later := by
  induction history with
  | refl => exact .refl store
  | tail _ becomes ih => exact ih.trans becomes.remembers

variable {store later : Store} {ref type values : Ref}

theorem Houses.cell (houses : store.Houses ref type values) :
    store.cells[ref]? = some (.object (store.object ref)) ∧
      ∃ entries, store.cells[values]? = some (.map entries) := by
  exact ⟨houses.fits.object_cell, _, houses.values ▸ houses.fits.storage_cell⟩

theorem Houses.lasts (houses : store.Houses ref type values) (remembers : store.Remembers later) :
    (store.object ref).Lasts ref (later.object ref) := by
  obtain ⟨object, there, lasts⟩ := remembers.object houses.cell.1
  rw [object_eq there]
  exact lasts

theorem Remembers.houses (remembers : store.Remembers later) (houses : store.Houses ref type values) :
    later.Houses ref type values := by
  have lasts := houses.lasts remembers
  refine ⟨remembers.fits houses.fits, lasts.type.trans houses.type, lasts.values.trans houses.values, ?_⟩
  intro name bound known
  rcases lasts.fresh name bound known with before | own
  · exact houses.own name bound before
  · exact own

end Store

namespace StoreM

variable {store : Store} {ref type values : Ref} {name : String}

theorem run_bind (store : Store) (ref : Ref) {value : Value} (serves : value.isMethodConvertible = true) :
    ∃ id callee after,
      bind .weak (.object ref) value store = .ok (.bound id .weak callee (.object ref)) after ∧
      store.Kept after ∧ store.Binds after value callee := by
  unfold bind
  split
  · exact ⟨_, _, _, rfl, .ofCells rfl, rfl⟩
  next source =>
    have made : (store.cells.push (.function { store.function source with busy := false }))[store.cells.size]? =
        some (.function { store.function source with busy := false }) := Array.getElem?_push_size
    exact ⟨_, _, _, rfl, .push store _, _, rfl, Nat.le_refl _, made⟩
  next unbound plain =>
    rw [if_pos serves]
    refine ⟨_, _, _, rfl, .ofCells rfl, ?_⟩
    cases value with
    | bound id hold callee receiver => exact (unbound id hold callee receiver rfl).elim
    | function source => exact (plain source rfl).elim
    | _ => rfl

theorem bind_refused {value : Value} (refused : value.isMethodConvertible = false) (hold : Hold)
    (receiver : Value) (store : Store) :
    bind hold receiver value store = .error (.notAMethod (value.kind store)) store := by
  unfold bind
  split
  · cases refused
  · cases refused
  · rw [refused]
    rfl

theorem run_noteMethod (houses : store.Houses ref type values) {value : Value}
    (serves : value.isMethodConvertible = true) :
    ∃ id callee after,
      noteMethod ref name value store = .ok (.value (.bound id .weak callee (.object ref))) after ∧
      store.Binds after value callee ∧
      (after.object ref).methods =
        (store.object ref).methods.insert name (.bound id .weak callee (.object ref)) ∧
      ∀ other cell, other ≠ ref → store.cells[other]? = some cell → after.cells[other]? = some cell := by
  obtain ⟨id, callee, middle, binds, kept, served⟩ := run_bind store ref serves
  have found := kept _ _ houses.cell.1
  let bound : Value := .bound id .weak callee (.object ref)
  let object := middle.object ref
  let noted : Cell := .object { object with methods := object.methods.insert name bound }
  have written : (middle.overwrite ref noted).cells[ref]? = some noted := getElem?_overwrite found rfl
  have others {other : Ref} {cell : Cell} (apart : other ≠ ref) (there : middle.cells[other]? = some cell) :
      (middle.overwrite ref noted).cells[other]? = some cell :=
    (getElem?_overwrite_of_ne noted apart).trans there
  refine ⟨id, callee, middle.overwrite ref noted, ?_, ?_, ?_, ?_⟩
  · simp only [noteMethod, Bind.bind, EStateM.bind, binds]
    rfl
  · refine served.mono fun other cell above there => others ?_ there
    exact Nat.ne_of_gt (Nat.lt_of_lt_of_le (lt_of_getElem?_eq_some houses.cell.1) above)
  · rw [object_eq written]
    exact congrArg (fun object : Object => object.methods.insert name bound) (object_eq found)
  · exact fun other cell apart there => others apart (kept _ _ there)

/-- The getter of a property is called, if there is one. -/
theorem objectGet_listed (houses : store.Houses ref type values) (plain : ¬Reserved name) {property : Ref}
    (listed : (store.propertiesOf type).get? name = some property) :
    objectGet ref name store =
      match (store.property property).getter with
      | some getter => .ok (.call property { callee := getter, receiver := some (.object ref) }) store
      | none => .ok (.value .undefined) store := by
  have looked := objectGet_eq ref name store
  rw [houses.type, if_neg fun is => plain (.inl is), if_neg fun is => plain (.inr is),
    show (store.members _).get? name = some property from listed] at looked
  exact looked

/-- Without a property a value is looked for in storage, and a method after that. -/
theorem objectGet_unlisted (houses : store.Houses ref type values) (plain : ¬Reserved name)
    (unlisted : (store.propertiesOf type).get? name = none) :
    objectGet ref name store =
      match (store.entries values).get? name, (store.object ref).methods.get? name,
        (store.methodsOf type).get? name with
      | some value, _, _ => .ok (.value value) store
      | none, some bound, _ => .ok (.value bound) store
      | none, none, some method => noteMethod ref name (store.entry method).value store
      | none, none, none => .ok (.value .undefined) store := by
  have looked := objectGet_eq ref name store
  rw [houses.type, houses.values, if_neg fun is => plain (.inl is), if_neg fun is => plain (.inr is),
    show (store.members _).get? name = none from unlisted] at looked
  exact looked

theorem objectSet_eq (houses : store.Houses ref type values) (name : String) (value : Value) :
    objectSet ref name value store =
      match (store.propertiesOf type).get? name with
      | some property =>
        match (store.property property).setter with
        | some setter => .ok (.call property
            { callee := setter, receiver := some (.object ref), arguments := #[value] }) store
        | none => .error (.readOnlyProperty name) store
      | none => .ok (.value .undefined)
          (store.overwrite values (.map ((store.entries values).insert name value))) := by
  show (objectSet ref name value).run store = _
  simp only [objectSet, EStateM.run_bind, EStateM.run_get, houses.type, houses.values, propertiesOf]
  cases (store.members (store.type type).properties).get? name with
  | some property =>
    cases setter : (store.property property).setter with
    | _ =>
      simp only [setter]
      rfl
  | none => rfl

end StoreM

namespace Session

variable {session : Session} {ref type values : Ref} {name : String}

def withStore (session : Session) (store : Store) : Session :=
  { session with world := { session.world with store } }

section Computing

variable {α : Type} {action : StoreM α} {after : Store}

theorem onStore_of_ok {value : α} (done : action session.world.store = .ok value after) :
    onStore action session = .ok value (session.withStore after) := by
  simp only [onStore, done]
  rfl

theorem onStore_of_error {fault : Fault} (failed : action session.world.store = .error fault after) :
    onStore action session = .error (.fault fault) (session.withStore after) := by
  simp only [onStore, failed]
  rfl

end Computing

def getMember (fuel : Nat) (ref : Ref) (name : String) : SessionM Value := do
  answered fuel [.object ref, .string name] (← onStore (indexGet (.object ref) (.string name)))

def setMember (fuel : Nat) (ref : Ref) (name : String) (value : Value) : SessionM Unit := do
  let _ ← answered fuel [.object ref, .string name, value]
    (← onStore (indexSet (.object ref) (.string name) value))
  return ()

/-- What looking up a member of an instance gives, one place after the other: its storage and its type under
their names, what the getter of a property answers, a stored value, a method. -/
structure Gets (session : Session) (ref type values : Ref) (name : String) : Prop where
  ownStorage (is : name = mapKey) (fuel : Nat) :
    getMember fuel ref name session = .ok (.map .writable values) session
  ownType (is : name = "__type__") (fuel : Nat) : getMember fuel ref name session = .ok (.type type) session
  getter (plain : ¬Reserved name) {property : Ref} {getter : Value}
    (listed : (session.world.store.propertiesOf type).get? name = some property)
    (readable : (session.world.store.property property).getter = some getter) (fuel : Nat) :
    getMember fuel ref name session =
      call fuel [.member .property property, .object ref, .string name]
        { callee := getter, receiver := some (.object ref) } session
  unreadable (plain : ¬Reserved name) {property : Ref}
    (listed : (session.world.store.propertiesOf type).get? name = some property)
    (unreadable : (session.world.store.property property).getter = none) (fuel : Nat) :
    getMember fuel ref name session = .ok .undefined session
  stored (plain : ¬Reserved name) (unlisted : (session.world.store.propertiesOf type).get? name = none)
    {value : Value} (stored : (session.world.store.entries values).get? name = some value) (fuel : Nat) :
    getMember fuel ref name session = .ok value session
  /-- A method that was looked up before. -/
  known (plain : ¬Reserved name) (vacant : session.world.store.Vacant type values name) {bound : Value}
    (known : (session.world.store.object ref).methods.get? name = some bound) :
    bound.OwnMethod ref ∧ ∀ fuel, getMember fuel ref name session = .ok bound session
  /-- A method that is bound now, and known from then on. -/
  method (plain : ¬Reserved name) (vacant : session.world.store.Vacant type values name)
    (unknown : (session.world.store.object ref).methods.get? name = none) {method : Ref}
    (listed : (session.world.store.methodsOf type).get? name = some method)
    (serves : (session.world.store.entry method).value.isMethodConvertible = true) :
    ∃ id callee after,
      (∀ fuel, getMember fuel ref name session =
        .ok (.bound id .weak callee (.object ref)) (session.withStore after)) ∧
      session.world.store.Binds after (session.world.store.entry method).value callee ∧
      (after.object ref).methods =
        (session.world.store.object ref).methods.insert name (.bound id .weak callee (.object ref)) ∧
      ∀ other cell, other ≠ ref → session.world.store.cells[other]? = some cell →
        after.cells[other]? = some cell
  refused (plain : ¬Reserved name) (vacant : session.world.store.Vacant type values name)
    (unknown : (session.world.store.object ref).methods.get? name = none) {method : Ref}
    (listed : (session.world.store.methodsOf type).get? name = some method)
    (refused : (session.world.store.entry method).value.isMethodConvertible = false) (fuel : Nat) :
    getMember fuel ref name session = .error
      (.fault (.notAMethod ((session.world.store.entry method).value.kind session.world.store))) session
  absent (plain : ¬Reserved name) (vacant : session.world.store.Vacant type values name)
    (unknown : (session.world.store.object ref).methods.get? name = none)
    (unlisted : (session.world.store.methodsOf type).get? name = none) (fuel : Nat) :
    getMember fuel ref name session = .ok .undefined session

/-- What changing a member of an instance does: it runs the setter of a property, or stores the value. -/
structure Sets (session : Session) (ref type values : Ref) (name : String) (value : Value) : Prop where
  setter {property : Ref} {setter : Value}
    (listed : (session.world.store.propertiesOf type).get? name = some property)
    (writable : (session.world.store.property property).setter = some setter) (fuel : Nat) :
    setMember fuel ref name value session = (do
      let _ ← call fuel [.member .property property, .object ref, .string name, value]
        { callee := setter, receiver := some (.object ref), arguments := #[value] }
      return ()) session
  readOnly {property : Ref} (listed : (session.world.store.propertiesOf type).get? name = some property)
    (readOnly : (session.world.store.property property).setter = none) (fuel : Nat) :
    setMember fuel ref name value session = .error (.fault (.readOnlyProperty name)) session
  stored (unlisted : (session.world.store.propertiesOf type).get? name = none) :
    ∃ after, (∀ fuel, setMember fuel ref name value session = .ok () (session.withStore after)) ∧
      (¬Reserved name → ∀ fuel, getMember fuel ref name (session.withStore after) =
        .ok value (session.withStore after)) ∧
      (∀ other, (after.entries values).get? other =
        if name = other then some value else (session.world.store.entries values).get? other) ∧
      ∀ other, other ≠ values → after.cells[other]? = session.world.store.cells[other]?

section Getting

variable {store after : Store} {answer : Answer} {fault : Fault}

theorem getMember_of_ok (given : objectGet ref name session.world.store = .ok answer after) (fuel : Nat) :
    getMember fuel ref name session =
      answered fuel [.object ref, .string name] answer (session.withStore after) := by
  have looked : indexGet (.object ref) (.string name) session.world.store = .ok answer after := given
  exact bind_of_ok (onStore_of_ok looked)

theorem getMember_of_error (failed : objectGet ref name session.world.store = .error fault after) (fuel : Nat) :
    getMember fuel ref name session = .error (.fault fault) (session.withStore after) := by
  have refused : indexGet (.object ref) (.string name) session.world.store = .error fault after := failed
  exact bind_of_error (onStore_of_error refused)

theorem gets_of_houses (houses : session.world.store.Houses ref type values) (name : String) :
    session.Gets ref type values name where
  ownStorage is fuel := by
    have looked := objectGet_eq ref name session.world.store
    rw [if_pos is, houses.values] at looked
    exact getMember_of_ok looked fuel
  ownType is fuel := by
    have looked := objectGet_eq ref name session.world.store
    rw [if_neg (by simp [is, mapKey]), if_pos is, houses.type] at looked
    exact getMember_of_ok looked fuel
  getter plain _ _ listed readable fuel := by
    have looked := objectGet_listed houses plain listed
    rw [readable] at looked
    exact getMember_of_ok looked fuel
  unreadable plain _ listed unreadable fuel := by
    have looked := objectGet_listed houses plain listed
    rw [unreadable] at looked
    exact getMember_of_ok looked fuel
  stored plain unlisted _ stored fuel := by
    have looked := objectGet_unlisted houses plain unlisted
    rw [stored] at looked
    exact getMember_of_ok looked fuel
  known plain vacant bound known := by
    have looked := objectGet_unlisted houses plain vacant.unlisted
    rw [vacant.unstored, known] at looked
    exact ⟨houses.own name bound known, getMember_of_ok looked⟩
  method plain vacant unknown method listed serves := by
    have looked := objectGet_unlisted houses plain vacant.unlisted
    rw [vacant.unstored, unknown, listed] at looked
    obtain ⟨id, callee, after, noted, rest⟩ := run_noteMethod houses serves
    exact ⟨id, callee, after, getMember_of_ok (looked.trans noted), rest⟩
  refused plain vacant unknown method listed refused fuel := by
    have looked := objectGet_unlisted houses plain vacant.unlisted
    rw [vacant.unstored, unknown, listed] at looked
    have failed := bind_refused refused .weak (.object ref) session.world.store
    exact getMember_of_error (looked.trans (bind_of_error failed)) fuel
  absent plain vacant unknown unlisted fuel := by
    have looked := objectGet_unlisted houses plain vacant.unlisted
    rw [vacant.unstored, unknown, unlisted] at looked
    exact getMember_of_ok looked fuel

end Getting

section Setting

variable {store after : Store} {answer : Answer} {fault : Fault} {value : Value}

theorem setMember_of_ok (given : objectSet ref name value session.world.store = .ok answer after) (fuel : Nat) :
    setMember fuel ref name value session = (do
      let _ ← answered fuel [.object ref, .string name, value] answer
      return ()) (session.withStore after) := by
  have set : indexSet (.object ref) (.string name) value session.world.store = .ok answer after := given
  exact bind_of_ok (onStore_of_ok set)

theorem setMember_of_error (failed : objectSet ref name value session.world.store = .error fault after)
    (fuel : Nat) :
    setMember fuel ref name value session = .error (.fault fault) (session.withStore after) := by
  have refused : indexSet (.object ref) (.string name) value session.world.store = .error fault after := failed
  exact bind_of_error (onStore_of_error refused)

theorem sets_of_houses (houses : session.world.store.Houses ref type values) (name : String) (value : Value) :
    session.Sets ref type values name value where
  setter listed writable fuel := by
    have told := objectSet_eq houses name value
    simp only [listed, writable] at told
    exact setMember_of_ok told fuel
  readOnly listed readOnly fuel := by
    have told := objectSet_eq houses name value
    simp only [listed, readOnly] at told
    exact setMember_of_error told fuel
  stored unlisted := by
    have told := objectSet_eq houses name value
    simp only [unlisted] at told
    let after := session.world.store.overwrite values
      (.map ((session.world.store.entries values).insert name value))
    obtain ⟨entries, cell⟩ := houses.cell.2
    have stored : after.cells[values]? = _ := getElem?_overwrite cell rfl
    have changed (other : String) : (after.entries values).get? other =
        if name = other then some value else (session.world.store.entries values).get? other := by
      rw [Store.entries, stored]
      exact Table.get?_insert ..
    have still : after.Houses ref type values := by
      refine Remembers.houses (session.world.store.remembers_overwrite values ?_ ?_) houses
      · rintro _ _ _ ⟨⟩
      · rintro _ _ _ ⟨⟩
    have same : (after.propertiesOf type).get? name = none := by
      rw [propertiesOf, type_overwrite_map, members_overwrite_map]
      exact unlisted
    refine ⟨after, setMember_of_ok told, fun plain => ?_, changed, ?_⟩
    · have gets : (session.withStore after).Gets ref type values name := gets_of_houses still name
      exact gets.stored plain same ((changed name).trans (if_pos rfl))
    · exact fun other apart => getElem?_overwrite_of_ne _ apart

end Setting

theorem lasting_getMember (fuel : Nat) (ref : Ref) (name : String) : Lasting (getMember fuel ref name) :=
  (lasting_onStore (harmless_indexGet _ _)).bind fun answer => lasting_answered fuel _ answer

/-- Once a method has been found, it is one of the methods that the instance has looked up. -/
theorem known_of_getMember {after : Session} {fuel : Nat} {bound : Value}
    (houses : session.world.store.Houses ref type values) (plain : ¬Reserved name)
    (vacant : session.world.store.Vacant type values name)
    (offered : session.world.store.HasMethod ref type name)
    (found : getMember fuel ref name session = .ok bound after) :
    bound.OwnMethod ref ∧ (after.world.store.object ref).methods.get? name = some bound ∧
      after.world.store.Houses ref type values := by
  have gets := gets_of_houses houses name
  have remembers : session.world.store.Remembers after.world.store :=
    left_of_ok found ▸ (lasting_getMember fuel ref name).remembers session
  cases noted : (session.world.store.object ref).methods.get? name with
  | some known =>
    obtain ⟨own, given⟩ := gets.known plain vacant noted
    cases (given fuel).symm.trans found
    exact ⟨own, noted, houses⟩
  | none =>
    obtain ⟨method, listed⟩ : ∃ method, (session.world.store.methodsOf type).get? name = some method := by
      rcases offered with known | listed
      · rw [noted] at known
        cases known
      · exact Option.isSome_iff_exists.mp listed
    cases serves : (session.world.store.entry method).value.isMethodConvertible with
    | false => cases (gets.refused plain vacant noted listed serves fuel).symm.trans found
    | true =>
      obtain ⟨id, callee, later, given, -, methods, kept⟩ := gets.method plain vacant noted listed serves
      cases (given fuel).symm.trans found
      refine ⟨⟨id, callee, rfl⟩, ?_, remembers.houses houses⟩
      rw [show (session.withStore later).world.store = later from rfl, methods, Table.get?_insert,
        if_pos rfl]

/-- Members of an instance are found in one order and changed accordingly, whatever has happened to the
instance and its type. Once a method has been found for a name, it is found again whenever there is
neither a property nor a stored value. -/
theorem member_access_follows_precedence (houses : session.world.store.Houses ref type values)
    (name : String) :
    (∀ later : Session, Relation.ReflTransGen Becomes session.world.store later.world.store →
      later.Gets ref type values name ∧ ∀ value, later.Sets ref type values name value) ∧
    ∀ fuel bound after, ¬Reserved name → session.world.store.Vacant type values name →
      session.world.store.HasMethod ref type name →
      getMember fuel ref name session = .ok bound after →
      bound.OwnMethod ref ∧
      ∀ later : Session, Relation.ReflTransGen Becomes after.world.store later.world.store →
        later.world.store.Vacant type values name →
        ∀ fuel, getMember fuel ref name later = .ok bound later := by
  refine ⟨fun later history => ?_, fun fuel bound after plain vacant offered found => ?_⟩
  · have still := (remembers_of_becomes history).houses houses
    exact ⟨gets_of_houses still name, sets_of_houses still name⟩
  · obtain ⟨own, known, still⟩ := known_of_getMember houses plain vacant offered found
    refine ⟨own, fun later history vacant => ?_⟩
    have remembers := remembers_of_becomes history
    have last := (still.lasts remembers).methods name bound known
    exact ((gets_of_houses (remembers.houses still) name).known plain vacant last).2

/-- A session with an instance of a type that has a method. -/
def welcoming : Session where
  program := { main := 0 }
  host := .standard
  world := { store := { cells := #[
    .members .field {},
    .members .method (Table.empty.insert "greet" 4),
    .members .property {},
    .type { name := "Host", fields := 0, methods := 1, properties := 2 },
    .entry { value := .host 0 ⟨"greet", "this", false⟩ },
    .map {},
    .object { type := 3, values := 5 }] } }
  machine := .blank {} {}
  registers := Table.empty.insert "methods" (.members .method 1)

def greeting : Value := .bound 0 .weak (.host 0 ⟨"greet", "this", false⟩) (.object 6)

def welcomed : Session := welcoming.left (getMember 0 6 "greet")

def retired : Session :=
  (welcomed.respond 0 0 none (.delete (.register "methods") [.plain (.string "greet")])).2

theorem member_access_follows_precedence_retired :
    welcoming.world.store.Houses 6 3 5 ∧ ¬Reserved "greet" ∧ welcoming.world.store.Vacant 3 5 "greet" ∧
      welcoming.world.store.HasMethod 6 3 "greet" ∧ getMember 0 6 "greet" welcoming = .ok greeting welcomed ∧
      (retired.world.store.methodsOf 3).get? "greet" = none ∧
      getMember 0 6 "greet" retired = .ok greeting retired := by
  have houses : welcoming.world.store.Houses 6 3 5 := by
    refine ⟨.object _ _ rfl rfl, rfl, rfl, fun name bound known => ?_⟩
    cases (Table.get?_empty name).symm.trans known
  have plain : ¬Reserved "greet" := by simp [Reserved, mapKey]
  have vacant : welcoming.world.store.Vacant 3 5 "greet" := ⟨rfl, rfl⟩
  have offered : welcoming.world.store.HasMethod 6 3 "greet" := .inr rfl
  have found : getMember 0 6 "greet" welcoming = .ok greeting welcomed := by with_unfolding_all rfl
  obtain ⟨-, lasting⟩ := member_access_follows_precedence houses "greet"
  obtain ⟨-, always⟩ := lasting 0 greeting welcomed plain vacant offered found
  refine ⟨houses, plain, vacant, offered, found, by with_unfolding_all rfl, ?_⟩
  refine always retired (.single (.command _ _ _ _ welcomed)) ⟨?_, ?_⟩ 0
  · with_unfolding_all rfl
  · with_unfolding_all rfl

end Session

end ScriptMachine
