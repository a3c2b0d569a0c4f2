import ScriptMachine.Proofs.MappingValues
import ScriptMachine.TypeSystem.Members

/-! What is made of a value before a table changes: tags, fields, methods and properties. An accessor
and the value of a method can always serve as methods. -/

namespace ScriptMachine

open Store

/-- A property whose accessors can serve as methods. -/
structure Property.Serves (property : Property) : Prop where
  getter : ∀ function, property.getter = some function → function.isMethodConvertible = true
  setter : ∀ function, property.setter = some function → function.isMethodConvertible = true

theorem Property.Serves.blank : Property.Serves {} :=
  ⟨fun _ found => (nomatch found), fun _ found => (nomatch found)⟩

namespace StoreM

variable {inv : Store → Prop} {source result : Store → Value → Prop} {base : Store}

theorem builds_refuseHeld (held : Option Ref) (value : Value) :
    Builds True inv base (refuseHeld held value) fun _ _ => True := by
  unfold refuseHeld
  split
  · refine .get_bind fun store _ => .ite (fun _ => .throw trivial _) fun _ => ?_
    exact .pure fun _ _ => trivial
  · exact .pure fun _ _ => trivial

theorem builds_methodValue (value : Value) :
    Builds True inv base (methodValue value) fun _ given =>
      given = value ∧ value.isMethodConvertible = true := by
  refine .ite (fun serves => .pure fun _ _ => ⟨rfl, serves⟩) fun _ => ?_
  exact .get_bind fun _ _ => .throw trivial _

theorem builds_accessor (value : Value) :
    Builds True inv base (accessor value) fun _ given =>
      ∀ function, given = some function → function = value ∧ function.isMethodConvertible = true := by
  unfold accessor
  split
  · exact .pure fun _ _ _ same => nomatch same
  · refine (builds_methodValue _).bind fun store given _ known => ?_
    obtain ⟨rfl, serves⟩ := known
    refine .pure fun _ _ function same => ?_
    cases same
    exact ⟨rfl, serves⟩

theorem builds_declaredValue (kind : MemberKind) (value : Value) :
    Builds True inv base (declaredValue kind value) fun _ given =>
      given = value ∧ (kind = .method → given.isMethodConvertible = true) := by
  cases kind with
  | method =>
    refine (builds_methodValue value).weaken fun _ given _ known => ⟨known.1, fun _ => ?_⟩
    rw [known.1]
    exact known.2
  | field => exact .pure fun _ _ => ⟨rfl, fun is => nomatch is⟩
  | property => exact .pure fun _ _ => ⟨rfl, fun is => nomatch is⟩

section Values

variable (mappable : Mappable false True inv source result)

include mappable

theorem builds_tagsFrom (held : Option Ref) {value : Value} (good : source base value) :
    Builds True inv base (tagsFrom held value) fun later tags => tags.All (result later) := by
  unfold tagsFrom
  split
  · exact .pure fun _ _ => .empty
  · refine (builds_refuseHeld held _).bind fun store _ kept _ => ?_
    refine (mappable.mapping? (mappable.keeps kept good)).bind fun middle form _ made => ?_
    split
    · exact .pure fun later since => mappable.table_lasts since (made _ rfl)
    · exact .throw trivial _

theorem builds_tagsOf (held : Option Ref) {mapping : Table Value} (good : mapping.All (source base)) :
    Builds True inv base (tagsOf held mapping) fun later tags => tags.All (result later) := by
  unfold tagsOf
  split
  next value found => exact builds_tagsFrom mappable held (good _ value found)
  next => exact .pure fun _ _ => .empty

theorem builds_entryFrom (held : Option Ref) (kind : MemberKind) {mapping : Table Value}
    (good : mapping.All (source base)) :
    Builds True inv base (entryFrom held kind mapping) fun later entry =>
      (kind = .method → entry.value.isMethodConvertible = true) ∧ result later entry.value ∧
        entry.tags.All (result later) := by
  have value : result base ((mapping.get? "value").getD .undefined) := by
    cases found : mapping.get? "value" with
    | some value => exact mappable.shared (good _ value found)
    | none => exact mappable.undefined base
  refine (builds_declaredValue kind _).bind fun store given kept known => ?_
  obtain ⟨rfl, serves⟩ := known
  have lifted : mapping.All (source store) := fun name tag found =>
    mappable.keeps kept (good name tag found)
  refine (builds_tagsOf mappable held lifted).bind fun middle tags since made => ?_
  refine .pure fun later after => ⟨serves, ?_, mappable.table_lasts after made⟩
  exact mappable.lasts ((kept.trans since).trans after) value

theorem builds_propertyWith (held : Option Ref) {property : Property} (known : property.Serves)
    (key : String) {value : Value} (good : source base value) :
    Builds True inv base (propertyWith held property key value) fun _ changed => changed.Serves := by
  unfold propertyWith
  split
  · refine (builds_accessor value).bind fun _ given _ serves => .pure fun _ _ => ?_
    exact ⟨fun function same => (serves function same).2, known.setter⟩
  · refine (builds_accessor value).bind fun _ given _ serves => .pure fun _ _ => ?_
    exact ⟨known.getter, fun function same => (serves function same).2⟩
  · exact (builds_tagsFrom mappable held good).bind fun _ _ _ _ =>
      .pure fun _ _ => ⟨known.getter, known.setter⟩
  · exact .throw trivial _

variable (entries : ∀ (store : Store) (entry : Entry), inv store →
  inv { store with cells := store.cells.push (.entry entry) })

include entries

theorem builds_newEntry {entry : Entry} {kind : MemberKind}
    (serves : kind = .method → entry.value.isMethodConvertible = true)
    (value : result base entry.value) (tags : entry.tags.All (result base)) :
    Builds True inv base (alloc (.entry entry)) fun later ref =>
      ∃ entry, later.cells[ref]? = some (.entry entry) ∧
        (kind = .method → entry.value.isMethodConvertible = true) ∧ result later entry.value ∧
        entry.tags.All (result later) := by
  refine (Builds.alloc fun store _ valid => entries store entry valid).weaken ?_
  intro later ref kept made
  exact ⟨entry, made.2, serves, mappable.lasts kept value, mappable.table_lasts kept tags⟩

theorem builds_mappedEntry (held : Option Ref) (kind : MemberKind) {handle : Handle} {ref : Ref}
    (good : source base (.map handle ref)) :
    Builds True inv base (do alloc (.entry (← entryFrom held kind ((← get).entries ref))))
      fun later ref => ∃ entry, later.cells[ref]? = some (.entry entry) ∧
        (kind = .method → entry.value.isMethodConvertible = true) ∧ result later entry.value ∧
        entry.tags.All (result later) := by
  refine .get_bind fun store kept => ?_
  have inside : (store.entries ref).All (source store) := fun name value found =>
    mappable.inside (mappable.keeps kept good) (.holds (.contains (.entry handle name found)))
  refine (builds_entryFrom mappable held kind inside).bind fun middle entry _ made => ?_
  exact builds_newEntry mappable entries made.1 made.2.1 made.2.2

/-- What a table takes for a field: the given one, or an entry of the given value. -/
theorem builds_declareField (held : Option Ref) {value : Value} (good : source base value) :
    Builds True inv base (declareField held value) fun later ref =>
      value = .member .field ref ∨ ∃ entry, later.cells[ref]? = some (.entry entry) ∧
        (MemberKind.field = .method → entry.value.isMethodConvertible = true) ∧
        result later entry.value ∧ entry.tags.All (result later) := by
  have plain : MemberKind.field = .method → ∀ value : Value, value.isMethodConvertible = true :=
    fun is => nomatch is
  unfold declareField
  split
  · exact .pure fun _ _ => .inl rfl
  · exact (builds_mappedEntry mappable entries held .field good).weaken fun _ _ _ made => .inr made
  · refine (builds_newEntry mappable entries (fun is => plain is _) (mappable.undefined base)
      .empty).weaken fun _ _ _ made => .inr made
  · refine (builds_newEntry mappable entries (fun is => plain is _) (mappable.shared good)
      .empty).weaken fun _ _ _ made => .inr made

/-- What a table takes for a method: the given one, or an entry of the given value. -/
theorem builds_declareMethod (held : Option Ref) {value : Value} (good : source base value) :
    Builds True inv base (declareMethod held value) fun later ref =>
      value = .member .method ref ∨ ∃ entry, later.cells[ref]? = some (.entry entry) ∧
        (MemberKind.method = .method → entry.value.isMethodConvertible = true) ∧
        result later entry.value ∧ entry.tags.All (result later) := by
  unfold declareMethod
  split
  · exact .pure fun _ _ => .inl rfl
  · exact (builds_mappedEntry mappable entries held .method good).weaken fun _ _ _ made => .inr made
  · refine (builds_methodValue _).bind fun store given kept known => ?_
    obtain ⟨rfl, serves⟩ := known
    exact (builds_newEntry mappable entries (fun _ => serves)
      (mappable.shared (mappable.keeps kept good)) .empty).weaken fun _ _ _ made => .inr made

end Values

end StoreM

end ScriptMachine
