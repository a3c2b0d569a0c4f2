import ScriptMachine.Proofs.CopiedValues
import ScriptMachine.TypeSystem.Mapping

/-! Mappings always come to an end, and are made of what their subjects hold. -/

namespace ScriptMachine.StoreM

open Store

/-- What the mapping of a type begins with: its name and, if it has one, its constructor. -/
def opening (type : TypeObject) : Table Value :=
  let named := Table.empty.insert "name" (.string type.name)
  type.constructor.elim named (named.insert "new")

theorem typeMapping_eq (deep : Bool) (ref : Ref) : typeMapping deep ref = do
    let type := (← get).type ref
    let mapping ← withTags deep type.tags (opening type)
    let methods ← newMap (← membersMapping deep .method type.methods) .writable
    let fields ← newMap (← membersMapping deep .field type.fields) .writable
    let properties ← newMap (← membersMapping deep .property type.properties) .writable
    return ((mapping.insert "methods" methods).insert "fields" fields).insert "properties" properties := by
  unfold typeMapping opening
  congr 1
  funext store
  dsimp only
  cases (store.type ref).constructor <;> rfl

/-- What mappings, deep or not, need of an invariant of the store, of the values that they are made from
and of those that they come to hold. -/
structure Mappable (deep : Bool) (fails : Prop) (inv : Store → Prop) (source result : Store → Value → Prop) :
    Prop where
  inside : ∀ {store : Store} {value held : Value}, source store value → store.Involves value held →
    source store held
  keeps : ∀ {store later : Store} {value : Value}, store.Kept later → source store value →
    source later value
  lasts : ∀ {store later : Store} {value : Value}, store.Kept later → result store value →
    result later value
  undefined : ∀ store : Store, result store .undefined
  name : ∀ (store : Store) (text : String), result store (.string text)
  shared : ∀ {store : Store} {value : Value}, source store value → result store value
  value : ∀ {base : Store} {value : Value}, source base value →
    Builds fails inv base (valueForm deep value) result
  table : ∀ {base : Store} {table : Table Value}, table.All (source base) →
    Builds fails inv base (tableForm deep table) fun later form => form.All (result later)
  map : ∀ {base : Store} {entries : Table Value}, entries.All (result base) →
    Builds fails inv base (newMap entries .writable) result

namespace Mappable

variable {deep : Bool} {fails : Prop} {inv : Store → Prop} {source result : Store → Value → Prop} {base : Store}
  (mappable : Mappable deep fails inv source result)

include mappable

theorem table_lasts {store later : Store} {table : Table Value} (kept : store.Kept later)
    (all : table.All (result store)) : table.All (result later) :=
  fun name value found => mappable.lasts kept (all name value found)

theorem withTags {tags mapping : Table Value} (held : tags.All (source base))
    (made : mapping.All (result base)) :
    Builds fails inv base (withTags deep tags mapping) fun later form => form.All (result later) := by
  refine .ite (fun _ => .pure fun store kept => mappable.table_lasts kept made) fun _ => ?_
  refine (mappable.table held).bind fun store form kept copied => ?_
  refine (mappable.map copied).bind fun later value since new => ?_
  refine .pure fun further after => ?_
  exact (mappable.table_lasts ((kept.trans since).trans after) made).insert "tags" (mappable.lasts after new)

theorem withAccessor {accessor : Option Value} {mapping : Table Value} (key : String)
    (held : ∀ function, accessor = some function → source base function)
    (made : mapping.All (result base)) :
    Builds fails inv base (withAccessor deep key accessor mapping) fun later form =>
      form.All (result later) := by
  cases accessor with
  | none => exact .pure fun store kept => mappable.table_lasts kept made
  | some function =>
    refine (mappable.value (held function rfl)).bind fun store value kept copied => ?_
    refine .pure fun later since => ?_
    exact (mappable.table_lasts (kept.trans since) made).insert key (mappable.lasts since copied)

theorem entryMapping {kind : MemberKind} (plain : kind ≠ .property) {ref : Ref}
    (held : source base (.member kind ref)) :
    Builds fails inv base (entryMapping deep (base.entry ref)) fun later form =>
      form.All (result later) := by
  have tags : (base.entry ref).tags.All (source base) := fun name tag found =>
    mappable.inside held (.holds (.tag plain name found))
  refine (mappable.value (mappable.inside held (.holds (.declared plain ref)))).bind ?_
  intro store value kept copied
  have lifted : (base.entry ref).tags.All (source store) := fun name tag found =>
    mappable.keeps kept (tags name tag found)
  exact mappable.withTags lifted (Table.All.empty.insert "value" copied)

theorem propertyMapping {ref : Ref} (held : source base (.member .property ref)) :
    Builds fails inv base (propertyMapping deep (base.property ref)) fun later form =>
      form.All (result later) := by
  have getter (function : Value) (found : (base.property ref).getter = some function) :=
    mappable.inside held (.holds (.getter found))
  have setter (function : Value) (found : (base.property ref).setter = some function) :=
    mappable.inside held (.holds (.setter found))
  refine (mappable.withAccessor "get" getter .empty).bind fun store got kept copied => ?_
  refine (mappable.withAccessor "set"
    (fun function found => mappable.keeps kept (setter function found)) copied).bind ?_
  intro middle both since copied
  refine mappable.withTags (fun name tag found => ?_) copied
  exact mappable.keeps (kept.trans since) (mappable.inside held (.holds (.propertyTag name found)))

theorem memberMapping {kind : MemberKind} {ref : Ref} (held : source base (.member kind ref)) :
    Builds fails inv base (memberMapping deep kind ref) fun later form => form.All (result later) := by
  cases kind with
  | property => exact .get_bind fun store kept => mappable.propertyMapping (mappable.keeps kept held)
  | field => exact .get_bind fun store kept => mappable.entryMapping (by decide) (mappable.keeps kept held)
  | method => exact .get_bind fun store kept => mappable.entryMapping (by decide) (mappable.keeps kept held)

theorem membersMapping {kind : MemberKind} {ref : Ref} (held : source base (.members kind ref)) :
    Builds fails inv base (membersMapping deep kind ref) fun later form => form.All (result later) := by
  refine .get_bind fun store kept => ?_
  have each (name : String) (member : Ref) (found : (store.members ref).get? name = some member) :
      Builds fails inv store (if deep then do newMap (← StoreM.memberMapping true kind member) .writable
        else return .member kind member) result := by
    have listed := mappable.inside (mappable.keeps kept held) (.holds (.listed kind name found))
    refine .ite (fun is => ?_) fun _ => .pure fun later since => mappable.lasts since (mappable.shared listed)
    subst is
    exact (mappable.memberMapping listed).bind fun later form _ made => mappable.map made
  have lasting {earlier later : Store} (since : earlier.Kept later) (_ : Ref) (value : Value)
      (made : result earlier value) : result later value := mappable.lasts since made
  refine (Builds.table_mapM lasting _ each).weaken fun later form _ agree name value found => ?_
  obtain ⟨member, -, made⟩ := agree.origin found
  exact made

theorem typeMapping {ref : Ref} (held : source base (.type ref)) :
    Builds fails inv base (typeMapping deep ref) fun later form => form.All (result later) := by
  rw [typeMapping_eq]
  refine .get_bind fun store kept => ?_
  have here := mappable.keeps kept held
  have named : (Table.empty.insert "name" (Value.string (store.type ref).name)).All (result store) :=
    Table.All.empty.insert "name" (mappable.name store _)
  have opened : (opening (store.type ref)).All (result store) := by
    unfold opening
    cases found : (store.type ref).constructor with
    | some constructor =>
      exact named.insert "new" (mappable.shared (mappable.inside here (.constructor found)))
    | none => exact named
  have tags : (store.type ref).tags.All (source store) := fun name tag found =>
    mappable.inside here (.tag name found)
  refine (mappable.withTags tags opened).bind fun first mapping toFirst made => ?_
  have methods := mappable.keeps toFirst (mappable.inside here (.methods ref))
  refine (mappable.membersMapping methods).bind fun _ form path listed => ?_
  refine (mappable.map listed).bind fun second methods step newMethods => ?_
  have toSecond := path.trans step
  have fields := mappable.keeps (toFirst.trans toSecond) (mappable.inside here (.fields ref))
  refine (mappable.membersMapping fields).bind fun _ form path listed => ?_
  refine (mappable.map listed).bind fun third fields step newFields => ?_
  have toThird := path.trans step
  have properties := mappable.keeps ((toFirst.trans toSecond).trans toThird)
    (mappable.inside here (.properties ref))
  refine (mappable.membersMapping properties).bind fun _ form path listed => ?_
  refine (mappable.map listed).bind fun fourth properties step newProperties => ?_
  have toFourth := path.trans step
  refine .pure fun later last => ?_
  have whole := mappable.table_lasts (((toSecond.trans toThird).trans toFourth).trans last) made
  refine ((whole.insert "methods" ?_).insert "fields" ?_).insert "properties" ?_
  · exact mappable.lasts ((toThird.trans toFourth).trans last) newMethods
  · exact mappable.lasts (toFourth.trans last) newFields
  · exact mappable.lasts last newProperties

theorem mapping? {value : Value} (held : source base value) :
    Builds fails inv base (mapping? deep value) fun later form =>
      ∀ table, form = some table → table.All (result later) := by
  have some {act : StoreM (Table Value)} (made : Builds fails inv base act fun later form =>
      form.All (result later)) : Builds fails inv base (Option.some <$> act) fun later form =>
      ∀ table, form = Option.some table → table.All (result later) := by
    refine made.map _ fun store form _ all table same => ?_
    cases same
    exact all
  have none : Builds fails inv base (Pure.pure Option.none : StoreM (Option (Table Value))) fun later form =>
      ∀ table, form = Option.some table → table.All (result later) :=
    .pure fun _ _ _ same => nomatch same
  cases value with
  | map handle ref =>
    refine .get_bind fun store kept => (mappable.table ?_).bind fun later form _ all => ?_
    · exact fun name held' found =>
        mappable.inside (mappable.keeps kept held) (.holds (.contains (.entry handle name found)))
    · refine .pure fun further since table same => ?_
      cases same
      exact mappable.table_lasts since all
  | object ref =>
    refine .get_bind fun store kept => (mappable.table ?_).bind fun later form _ all => ?_
    · exact fun name held' found =>
        mappable.inside (mappable.keeps kept held) (.holds (.contains (.field name found)))
    · refine .pure fun further since table same => ?_
      cases same
      exact mappable.table_lasts since all
  | type ref => exact some (mappable.typeMapping held)
  | member kind ref => exact some (mappable.memberMapping held)
  | members kind ref => exact some (mappable.membersMapping held)
  | _ => exact none

end Mappable

section Instances

variable {fails : Prop} {inv : Store → Prop}
  (maps : ∀ (store : Store) (entries : Table Value), inv store →
    inv { store with cells := store.cells.push (.map entries) })

include maps

theorem mappable_any : Mappable false fails inv (fun _ _ => True) fun _ _ => True where
  inside _ _ := trivial
  keeps _ _ := trivial
  lasts _ _ := trivial
  undefined _ := trivial
  name _ _ := trivial
  shared _ := trivial
  value _ := .pure fun _ _ => trivial
  table _ := .pure fun _ _ _ _ _ => trivial
  map _ := (builds_newMap maps _ _).weaken fun _ _ _ _ => trivial

theorem mappable_firm : Mappable false fails inv Firm Grounded where
  inside firm involves := firm.of_involves involves
  keeps kept firm := kept.firm firm
  lasts kept grounded := kept.grounded grounded
  undefined store := (show store.Firm .undefined from .of_alone trivial).grounded
  name store text := (show store.Firm (.string text) from .of_alone trivial).grounded
  shared firm := firm.grounded
  value firm := .pure fun store kept => kept.grounded firm.grounded
  table all := .pure fun store kept name value found => kept.grounded (all name value found).grounded
  map {base entries} all := by
    refine (builds_newMap maps entries .writable).weaken fun later value kept made => ?_
    obtain ⟨ref, rfl, cell⟩ := made
    refine .of_each (.map _ entries cell) fun held holds => ?_
    cases holds with
    | contains inside =>
      cases inside with
      | entry _ name found =>
        rw [Store.entries, cell] at found
        exact kept.grounded (all name held found)

end Instances

theorem mappable_deep {fails : Prop} {inv : Store → Prop} (tolerant : Tolerant inv) :
    Mappable true fails inv Firm Grounded where
  inside firm involves := firm.of_involves involves
  keeps kept firm := kept.firm firm
  lasts kept grounded := kept.grounded grounded
  undefined store := (show store.Firm .undefined from .of_alone trivial).grounded
  name store text := (show store.Firm (.string text) from .of_alone trivial).grounded
  shared firm := firm.grounded
  value firm := (builds_copy tolerant firm.grounded).weaken fun _ _ _ copy =>
    (copy.since firm.grounded).grounded
  table all := by
    have grounded : Table.All (Grounded _) _ := fun name value found => (all name value found).grounded
    refine (builds_copyTable tolerant grounded).weaken fun later copied _ copies name value found => ?_
    obtain ⟨origin, held, since⟩ := (copies.since grounded).origin found
    exact since.grounded
  map := (show Mappable false fails inv Firm Grounded from mappable_firm tolerant.map).map

end ScriptMachine.StoreM
