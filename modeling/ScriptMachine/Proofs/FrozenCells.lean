import ScriptMachine.Proofs.InvariantLogic
import ScriptMachine.Proofs.Liveness
import ScriptMachine.Value.Copy

/-! Cells to which only frozen handles and iterators lead, as if they lay in a vault. Nothing that is
read off a store leads into its vault in another way, and copies of what is there do not either. -/

namespace ScriptMachine

/-- A cell in a vault, what is in it, and the cells that are lost: they have been dropped, so it does not
matter where they lead. -/
structure Vault where
  ref : Ref
  content : Cell
  lost : Ref → Prop

namespace Vault

def Live (vault : Vault) (other : Ref) : Prop := ¬vault.lost other

/-- A cell that is neither lost nor the one in the vault. -/
structure Free (vault : Vault) (other : Ref) : Prop where
  apart : other ≠ vault.ref
  live : vault.Live other

theorem Free.ne {vault : Vault} {other place : Ref} (free : vault.Free other)
    (taken : place = vault.ref ∨ vault.lost place) : other ≠ place := by
  rintro rfl
  rcases taken with same | lost
  · exact free.apart same
  · exact free.live lost

end Vault

/-- No part of the value leads into the vault, except through a frozen handle, nor to a cell that is
lost. An instance that a method holds weakly may be lost. -/
def Value.Avoids (vault : Vault) : Value → Prop
  | .array .writable other | .map .writable other | .function other | .box other | .type other
  | .object other | .member _ other | .members _ other | .iterator other => vault.Free other
  | .array .frozen other | .map .frozen other => vault.Live other
  | .error _ payload => payload.Avoids vault
  | .mapper _ subject => subject.Avoids vault
  | .bound _ hold callee receiver =>
    callee.Avoids vault ∧
      (receiver.Avoids vault ∨ hold = .weak ∧ ∃ other, receiver = .object other ∧ other ≠ vault.ref)
  | _ => True

theorem Value.Avoids.array_live {vault : Vault} {handle : Handle} {other : Ref}
    (avoids : (Value.array handle other).Avoids vault) : vault.Live other := by
  cases handle with
  | writable => exact avoids.live
  | frozen => exact avoids

theorem Value.Avoids.map_live {vault : Vault} {handle : Handle} {other : Ref}
    (avoids : (Value.map handle other).Avoids vault) : vault.Live other := by
  cases handle with
  | writable => exact avoids.live
  | frozen => exact avoids

theorem Value.avoids_array {vault : Vault} {other : Ref} (free : vault.Free other) (handle : Handle) :
    (Value.array handle other).Avoids vault := by
  cases handle with
  | writable => exact free
  | frozen => exact free.live

theorem Value.avoids_map {vault : Vault} {other : Ref} (free : vault.Free other) (handle : Handle) :
    (Value.map handle other).Avoids vault := by
  cases handle with
  | writable => exact free
  | frozen => exact free.live

theorem Value.avoids_undefined {vault : Vault} : Value.undefined.Avoids vault := trivial

theorem Value.avoids_getD {vault : Vault} {value : Option Value}
    (known : ∀ given ∈ value, given.Avoids vault) : (value.getD .undefined).Avoids vault := by
  cases value with
  | none => trivial
  | some given => exact known given rfl

theorem Value.avoids_found {α : Type} {vault : Vault} {found : Option α} {read : α → Value}
    (known : ∀ place ∈ found, (read place).Avoids vault) :
    ((found.map read).getD .undefined).Avoids vault := by
  cases found with
  | none => trivial
  | some place => exact known place rfl

theorem Value.avoids_extract {vault : Vault} {values : Array Value}
    (avoids : ∀ value ∈ values, value.Avoids vault) (first last : Nat) :
    ∀ value ∈ values.extract first last, value.Avoids vault := by
  intro value member
  obtain ⟨index, bound, rfl⟩ := Array.mem_extract_iff_getElem.mp member
  exact avoids _ (Array.getElem_mem _)

theorem Value.avoids_append {vault : Vault} {values more : Array Value}
    (first : ∀ value ∈ values, value.Avoids vault) (second : ∀ value ∈ more, value.Avoids vault) :
    ∀ value ∈ values ++ more, value.Avoids vault := by
  intro value member
  rcases Array.mem_append.mp member with here | there
  · exact first value here
  · exact second value there

theorem Value.avoids_push {vault : Vault} {values : Array Value} {last : Value}
    (first : ∀ value ∈ values, value.Avoids vault) (known : last.Avoids vault) :
    ∀ value ∈ values.push last, value.Avoids vault := by
  intro value member
  rcases Array.mem_push.mp member with here | rfl
  · exact first value here
  · exact known

def FunctionCode.Avoids (vault : Vault) (code : FunctionCode) : Prop :=
  ∀ keyword ∈ code.keywords, keyword.2.Avoids vault

structure Function.Avoids (vault : Vault) (function : Function) : Prop where
  code : function.code.Avoids vault
  free : ∀ box ∈ function.free, vault.Free box

structure Entry.Avoids (vault : Vault) (entry : Entry) : Prop where
  value : entry.value.Avoids vault
  tags : entry.tags.All (Value.Avoids vault)

structure Property.Avoids (vault : Vault) (property : Property) : Prop where
  getter : ∀ value ∈ property.getter, value.Avoids vault
  setter : ∀ value ∈ property.setter, value.Avoids vault
  tags : property.tags.All (Value.Avoids vault)

theorem Entry.Avoids.empty {vault : Vault} : Entry.Avoids vault {} := ⟨trivial, .empty⟩

theorem Property.Avoids.empty {vault : Vault} : Property.Avoids vault {} :=
  ⟨fun _ member => (nomatch member), fun _ member => (nomatch member), .empty⟩

structure TypeObject.Avoids (vault : Vault) (type : TypeObject) : Prop where
  tags : type.tags.All (Value.Avoids vault)
  constructor : ∀ value ∈ type.constructor, value.Avoids vault
  fields : vault.Free type.fields
  methods : vault.Free type.methods
  properties : vault.Free type.properties

structure Object.Avoids (vault : Vault) (object : Object) : Prop where
  type : vault.Free object.type
  values : vault.Free object.values
  methods : object.methods.All (Value.Avoids vault)

/-- What a cell holds does not lead into the vault, except through a frozen handle, nor to a cell that
is lost. An iterator may go through the storage in the vault. -/
inductive Cell.Avoids (vault : Vault) : Cell → Prop
  | array {held : Array Value} (each : ∀ value ∈ held, value.Avoids vault) : Avoids vault (.array held)
  | map {held : Table Value} (all : held.All (Value.Avoids vault)) : Avoids vault (.map held)
  | box {held : Value} (known : held.Avoids vault) : Avoids vault (.box held)
  | function {held : Function} (known : held.Avoids vault) : Avoids vault (.function held)
  | type {held : TypeObject} (known : held.Avoids vault) : Avoids vault (.type held)
  | object {held : Object} (known : held.Avoids vault) : Avoids vault (.object held)
  | entry {held : Entry} (known : held.Avoids vault) : Avoids vault (.entry held)
  | property {held : Property} (known : held.Avoids vault) : Avoids vault (.property held)
  | members (kind : MemberKind) {held : Table Ref} (all : held.All vault.Free) :
    Avoids vault (.members kind held)
  | iterator {held : Cursor} (live : ∀ storage ∈ held.sequence.refs, vault.Live storage) :
    Avoids vault (.iterator held)

section Lives

variable {vault : Vault}

theorem Value.Avoids.live {value : Value} (avoids : value.Avoids vault) :
    ∀ other ∈ value.refs, vault.Live other := by
  induction value with
  | array handle other => simpa [Value.refs] using avoids.array_live
  | map handle other => simpa [Value.refs] using avoids.map_live
  | error id payload ih => exact ih avoids
  | mapper id subject ih => exact ih avoids
  | bound id hold callee receiver first second =>
    obtain ⟨called, received⟩ := avoids
    cases hold with
    | weak => exact first called
    | strong =>
      intro other member
      rcases List.mem_append.mp member with here | there
      · exact first called other here
      · rcases received with known | ⟨same, _⟩
        · exact second known other there
        · cases same
  | function other => simpa [Value.refs] using Vault.Free.live avoids
  | box other => simpa [Value.refs] using Vault.Free.live avoids
  | type other => simpa [Value.refs] using Vault.Free.live avoids
  | object other => simpa [Value.refs] using Vault.Free.live avoids
  | member kind other => simpa [Value.refs] using Vault.Free.live avoids
  | members kind other => simpa [Value.refs] using Vault.Free.live avoids
  | iterator other => simpa [Value.refs] using Vault.Free.live avoids
  | _ => exact fun _ member => nomatch member

theorem Value.live_refsOf {values : Array Value} (avoids : ∀ value ∈ values, value.Avoids vault) :
    ∀ other ∈ Value.refsOf values, vault.Live other := by
  intro other member
  obtain ⟨value, inside, held⟩ := Value.mem_refsOf.mp member
  exact (avoids value inside).live other held

theorem Value.live_flatMap {values : List Value} (avoids : ∀ value ∈ values, value.Avoids vault) :
    ∀ other ∈ values.flatMap Value.refs, vault.Live other := by
  intro other member
  obtain ⟨value, inside, held⟩ := List.mem_flatMap.mp member
  exact (avoids value inside).live other held

theorem Table.live_refs {table : Table Value} (avoids : table.All (Value.Avoids vault)) :
    ∀ other ∈ table.refs, vault.Live other :=
  Value.live_flatMap avoids.values

theorem Function.Avoids.live {function : Function} (avoids : function.Avoids vault) :
    ∀ other ∈ (Cell.function function).refs, vault.Live other := by
  intro other member
  rcases List.mem_append.mp member with box | default
  · exact (avoids.free other (Array.mem_toList_iff.mp box)).live
  · obtain ⟨keyword, declared, held⟩ := List.mem_flatMap.mp default
    exact (avoids.code keyword declared).live other held

theorem TypeObject.Avoids.live {type : TypeObject} (avoids : type.Avoids vault) :
    ∀ other ∈ (Cell.type type).refs, vault.Live other := by
  intro other member
  simp only [Cell.refs, List.mem_cons, List.mem_append] at member
  rcases member with rfl | rfl | rfl | tag | constructor
  · exact avoids.fields.live
  · exact avoids.methods.live
  · exact avoids.properties.live
  · exact Table.live_refs avoids.tags other tag
  · exact Value.live_flatMap (by simpa using avoids.constructor) other constructor

theorem Property.Avoids.live {property : Property} (avoids : property.Avoids vault) :
    ∀ other ∈ (Cell.property property).refs, vault.Live other := by
  intro other member
  rcases List.mem_append.mp member with accessor | tag
  · apply Value.live_flatMap _ other accessor
    intro value inside
    rcases List.mem_append.mp inside with get | set
    · exact avoids.getter value (Option.mem_toList.mp get)
    · exact avoids.setter value (Option.mem_toList.mp set)
  · exact Table.live_refs avoids.tags other tag

theorem Cell.Avoids.live {cell : Cell} (avoids : cell.Avoids vault) :
    ∀ other ∈ cell.refs, vault.Live other := by
  cases avoids with
  | array each => exact Value.live_refsOf each
  | map all => exact Table.live_refs all
  | box known => exact known.live
  | function known => exact known.live
  | type known => exact known.live
  | property known => exact known.live
  | members kind all => exact fun other member => (all.values other member).live
  | iterator live => exact live
  | object known =>
    intro other member
    rcases List.mem_cons.mp member with rfl | member
    · exact known.type.live
    rcases List.mem_cons.mp member with rfl | member
    · exact known.values.live
    · exact Table.live_refs known.methods other member
  | entry known =>
    intro other member
    rcases List.mem_append.mp member with value | tag
    · exact known.value.live other value
    · exact Table.live_refs known.tags other tag

end Lives

namespace Store

/-- A store in which the cell in the vault has its contents, and nothing leads to it but frozen
handles and iterators; cells that are lost are not asked. No cell is lost that is still there because
others hold it and are held by it in turn. -/
structure Shelters (vault : Vault) (store : Store) : Prop where
  here : store.cells[vault.ref]? = some vault.content
  avoided : ∀ {other : Ref} {cell : Cell}, vault.Live other → store.cells[other]? = some cell →
    cell.Avoids vault
  old : ∀ other : Ref, vault.lost other → other < store.cells.size
  dropped : ∀ cells : Ref → Prop, store.Upheld [] cells → ∀ other, cells other → vault.Live other

namespace Shelters

variable {vault : Vault} {store : Store}

theorem new (shelters : store.Shelters vault) : vault.Free store.cells.size where
  apart := Nat.ne_of_gt (Array.getElem?_eq_some_iff.mp shelters.here).1
  live lost := Nat.lt_irrefl _ (shelters.old _ lost)

theorem elements (shelters : store.Shelters vault) {other : Ref} (live : vault.Live other) :
    ∀ value ∈ store.elements other, value.Avoids vault := by
  unfold Store.elements
  split
  next found =>
    cases shelters.avoided live found with
    | array known => exact known
  · intro value member
    cases Array.not_mem_empty _ member

theorem entries (shelters : store.Shelters vault) {other : Ref} (live : vault.Live other) :
    (store.entries other).All (Value.Avoids vault) := by
  unfold Store.entries
  split
  next found =>
    cases shelters.avoided live found with
    | map known => exact known
  · exact .empty

theorem boxed (shelters : store.Shelters vault) {other : Ref} (live : vault.Live other) :
    (store.boxed other).Avoids vault := by
  unfold Store.boxed
  split
  next found =>
    cases shelters.avoided live found with
    | box known => exact known
  · trivial

theorem function (shelters : store.Shelters vault) {other : Ref} (live : vault.Live other) :
    (store.function other).Avoids vault := by
  unfold Store.function
  split
  next found =>
    cases shelters.avoided live found with
    | function known => exact known
  · exact ⟨fun _ member => (nomatch member), by simp⟩

theorem type (shelters : store.Shelters vault) {other : Ref} (free : vault.Free other) :
    (store.type other).Avoids vault := by
  unfold Store.type
  split
  next found =>
    cases shelters.avoided free.live found with
    | type known => exact known
  · exact ⟨.empty, fun _ member => (nomatch member), free, free, free⟩

theorem object (shelters : store.Shelters vault) {other : Ref} (free : vault.Free other) :
    (store.object other).Avoids vault := by
  unfold Store.object
  split
  next found =>
    cases shelters.avoided free.live found with
    | object known => exact known
  · exact ⟨free, free, .empty⟩

theorem entry (shelters : store.Shelters vault) {other : Ref} (live : vault.Live other) :
    (store.entry other).Avoids vault := by
  unfold Store.entry
  split
  next found =>
    cases shelters.avoided live found with
    | entry known => exact known
  · exact .empty

theorem property (shelters : store.Shelters vault) {other : Ref} (live : vault.Live other) :
    (store.property other).Avoids vault := by
  unfold Store.property
  split
  next found =>
    cases shelters.avoided live found with
    | property known => exact known
  · exact .empty

theorem members (shelters : store.Shelters vault) {other : Ref} (live : vault.Live other) :
    (store.members other).All vault.Free := by
  unfold Store.members
  split
  next found =>
    cases shelters.avoided live found with
    | members _ known => exact known
  · exact .empty

theorem cursor (shelters : store.Shelters vault) {other : Ref} (live : vault.Live other) :
    ∀ storage ∈ (store.cursor other).sequence.refs, vault.Live storage := by
  unfold Store.cursor
  split
  next found =>
    cases shelters.avoided live found with
    | iterator known => exact known
  · exact fun _ member => nomatch member

end Shelters

/-- What holds a cell that is lost is lost itself. -/
theorem Upheld.lost {vault : Vault} {store : Store} {roots : List Ref} {cells : Ref → Prop}
    (upheld : store.Upheld roots cells) (live : ∀ root ∈ roots, vault.Live root)
    (avoided : ∀ {other : Ref} {cell : Cell}, vault.Live other → store.cells[other]? = some cell →
      cell.Avoids vault) :
    store.Upheld [] fun ref => cells ref ∧ vault.lost ref := by
  rintro ref ⟨inside, lost⟩
  rcases upheld ref inside with root | ⟨holder, also, cell, found, held⟩
  · exact absurd lost (live ref root)
  · refine .inr ⟨holder, ⟨also, Classical.not_not.mp fun there => ?_⟩, cell, found, held⟩
    exact (avoided there found).live ref held lost

namespace Shelters

variable {vault : Vault} {store : Store}

theorem live_of_keeps (shelters : store.Shelters vault) {near : List Ref} {far : Unit → List Ref}
    {target : Ref} (roots : ∀ root ∈ near ++ far (), vault.Live root)
    (kept : store.keeps near far target = true) : vault.Live target := by
  obtain ⟨cells, upheld, inside⟩ := keeps_iff_upheld.mp kept
  intro lost
  exact shelters.dropped _ (upheld.lost roots shelters.avoided) target ⟨inside, lost⟩ lost

/-- Where the cells that are lost stay as they are, none of them comes back. -/
theorem change {later : Store} (shelters : store.Shelters vault)
    (same : ∀ other, other = vault.ref ∨ vault.lost other → later.cells[other]? = store.cells[other]?)
    (avoided : ∀ {other : Ref} {cell : Cell}, vault.Live other → later.cells[other]? = some cell →
      cell.Avoids vault) : later.Shelters vault := by
  refine ⟨(same _ (.inl rfl)).trans shelters.here, avoided, fun other lost => ?_, ?_⟩
  · have there := Array.getElem?_eq_getElem (shelters.old other lost)
    exact (Array.getElem?_eq_some_iff.mp ((same other (.inr lost)).trans there)).1
  · intro cells upheld other inside lost
    refine shelters.dropped (fun ref => cells ref ∧ vault.lost ref) ?_ other ⟨inside, lost⟩ lost
    intro ref both
    obtain ⟨holder, gone, cell, found, held⟩ :=
      (upheld.lost (fun _ root => nomatch root) avoided ref both).resolve_left (fun root => nomatch root)
    exact .inr ⟨holder, gone, cell, (same holder (.inr gone.2)).symm.trans found, held⟩

theorem push (shelters : store.Shelters vault) {cell : Cell} (avoids : cell.Avoids vault) :
    Shelters vault { store with cells := store.cells.push cell } := by
  refine shelters.change (fun other old => ?_) fun {other found} live there => ?_
  · rw [Array.getElem?_push, if_neg (shelters.new.ne old).symm]
  · rw [Array.getElem?_push] at there
    split at there
    · cases there
      exact avoids
    · exact shelters.avoided live there

/-- A free cell may be changed into something else that does not lead into the vault. -/
theorem modify (shelters : store.Shelters vault) {other : Ref} (free : vault.Free other)
    {change : Cell → Cell} (avoids : ∀ cell, cell.Avoids vault → (change cell).Avoids vault) :
    Shelters vault { store with cells := store.cells.modify other change } := by
  refine shelters.change (fun place kept => ?_) fun {place found} live there => ?_
  · rw [Array.getElem?_modify, if_neg (free.ne kept)]
  · rw [Array.getElem?_modify] at there
    split at there
    · obtain ⟨old, known, rfl⟩ := Option.map_eq_some_iff.mp there
      exact avoids old (shelters.avoided live known)
    · exact shelters.avoided live there

theorem set (shelters : store.Shelters vault) {other : Ref} (free : vault.Free other) {cell : Cell}
    (avoids : cell.Avoids vault) : Shelters vault (store.set other cell) := by
  refine shelters.change (fun place kept => ?_) fun {place found} live there => ?_
  · rw [Store.set, Array.getElem?_setIfInBounds, if_neg (free.ne kept)]
  · rw [Store.set, Array.getElem?_setIfInBounds] at there
    split at there
    · split at there
      · cases there
        exact avoids
      · cases there
    · exact shelters.avoided live there

theorem setBusy (shelters : store.Shelters vault) {function : Ref} (free : vault.Free function)
    (busy : Bool) : Shelters vault (store.setBusy function busy) := by
  apply shelters.modify free
  intro cell avoids
  cases avoids with
  | function known => exact .function ⟨known.code, known.free⟩
  | _ =>
    constructor
    assumption

end Shelters

end Store

/-- A copy in progress that leaves the vault alone: no cell is copied into it. -/
structure Copying.Shelters (vault : Vault) (state : Copying) : Prop where
  store : state.store.Shelters vault
  copies : ∀ source copied : Ref, state.copies[source]? = some copied → vault.Free copied

namespace CopyM

variable {α β : Type} {vault : Vault}

/-- A copying computation that keeps out of the vault, and what is known of its result. -/
def Guards (vault : Vault) (make : CopyM α) (post : α → Prop) : Prop :=
  ∀ state : Copying, state.Shelters vault →
    (make state).2.Shelters vault ∧ post (make state).1

theorem sequential (vault : Vault) :
    Sequential (m := CopyM) fun make post => Guards vault make post where
  pure known _ kept := ⟨kept, known⟩
  bind begins next state kept := next _ (begins state kept).2 _ (begins state kept).1

variable {middle : α → Prop} {post : β → Prop}

theorem Guards.pure {value : β} (known : post value) :
    Guards vault (Pure.pure value) post :=
  (sequential vault).pure known

theorem Guards.bind {first : CopyM α} {rest : α → CopyM β} (begins : Guards vault first middle)
    (next : ∀ value, middle value → Guards vault (rest value) post) :
    Guards vault (first >>= rest) post :=
  (sequential vault).bind begins next

theorem guards_alloc {cell : Cell} (avoids : cell.Avoids vault) :
    Guards vault (alloc cell) vault.Free := by
  intro state kept
  exact ⟨⟨kept.store.push avoids, kept.copies⟩, kept.store.new⟩

theorem guards_freshId : Guards vault freshId fun _ => True :=
  fun _ kept => ⟨⟨⟨kept.store.here, kept.store.avoided, kept.store.old, kept.store.dropped⟩, kept.copies⟩, trivial⟩

theorem Guards.read_bind {view : Store → α} {rest : α → CopyM β}
    (next : ∀ store : Store, store.Shelters vault → Guards vault (rest (view store)) post) :
    Guards vault (read view >>= rest) post :=
  fun state kept => next state.store kept.store state kept

theorem guards_remember (source : Ref) {copied : Ref} (free : vault.Free copied) :
    Guards vault (remember source copied) fun _ => True := by
  intro state kept
  refine ⟨⟨kept.store, ?_⟩, trivial⟩
  intro other found there
  have there : (state.copies.insert source copied)[other]? = some found := there
  rw [Std.HashMap.getElem?_insert] at there
  split at there
  · cases there
    exact free
  · exact kept.copies other found there

theorem guards_fill {copied : Ref} (free : vault.Free copied) {cell : Cell} (avoids : cell.Avoids vault) :
    Guards vault (fill copied cell) fun _ => True :=
  fun _ kept => ⟨⟨kept.store.set free avoids, kept.copies⟩, trivial⟩

theorem guards_unlessCopied (source : Ref) {make : CopyM Ref}
    (makes : Guards vault make vault.Free) :
    Guards vault (unlessCopied source make) vault.Free := by
  have got : Guards vault get (Copying.Shelters vault) := fun _ kept => ⟨kept, kept⟩
  apply got.bind
  intro state kept
  cases found : state.copies[source]? with
  | some copied => exact .pure (kept.copies source copied found)
  | none => exact makes

theorem guards_once (source : Ref) {blank : Cell} {contents : CopyM Cell} (empty : blank.Avoids vault)
    (makes : Guards vault contents (Cell.Avoids vault)) :
    Guards vault (once source blank contents) vault.Free := by
  apply guards_unlessCopied
  apply (guards_alloc empty).bind
  intro copied free
  apply (guards_remember source free).bind
  intro _ _
  apply makes.bind
  intro cell avoids
  apply (guards_fill free avoids).bind
  intro _ _
  exact .pure free

section Containers

variable {copy : Value → CopyM Value}
  (copies : ∀ value : Value, value.Avoids vault → Guards vault (copy value) (Value.Avoids vault))

include copies

theorem guards_elements {other : Ref} (live : vault.Live other) :
    Guards vault (elements copy other) (Cell.Avoids vault) := by
  apply Guards.read_bind
  intro store kept
  apply ((sequential vault).array_mapM (store.elements other) fun value member =>
    copies value (kept.elements live value member)).bind
  intro results avoids
  exact .pure (.array avoids)

theorem guards_entries {other : Ref} (live : vault.Live other) :
    Guards vault (entries copy other) (Cell.Avoids vault) := by
  apply Guards.read_bind
  intro store kept
  apply ((sequential vault).table_mapM (kept.entries live) copies).bind
  intro results avoids
  exact .pure (.map avoids)

theorem guards_entry {other : Ref} (live : vault.Live other) :
    Guards vault (entry copy other) (Cell.Avoids vault) := by
  apply Guards.read_bind
  intro store kept
  have known := kept.entry live
  apply (copies _ known.value).bind
  intro value avoids
  apply ((sequential vault).table_mapM known.tags copies).bind
  intro tags tagged
  exact .pure (.entry ⟨avoids, tagged⟩)

theorem guards_property {other : Ref} (live : vault.Live other) :
    Guards vault (property copy other) (Cell.Avoids vault) := by
  apply Guards.read_bind
  intro store kept
  have known := kept.property live
  apply ((sequential vault).option_mapM _ fun value member =>
    copies value (known.getter value member)).bind
  intro getter got
  apply ((sequential vault).option_mapM _ fun value member =>
    copies value (known.setter value member)).bind
  intro setter set
  apply ((sequential vault).table_mapM known.tags copies).bind
  intro tags tagged
  exact .pure (.property ⟨got, set, tagged⟩)

theorem guards_member (kind : MemberKind) {other : Ref} (live : vault.Live other) :
    Guards vault (member copy kind other) vault.Free := by
  cases kind with
  | property => exact guards_once other (.property .empty) (guards_property copies live)
  | _ => exact guards_once other (.entry .empty) (guards_entry copies live)

theorem guards_members (kind : MemberKind) {other : Ref} (live : vault.Live other) :
    Guards vault (members copy kind other) (Cell.Avoids vault) := by
  apply Guards.read_bind
  intro store kept
  apply ((sequential vault).table_mapM (kept.members live) fun _ free =>
    guards_member copies kind free.live).bind
  intro results avoids
  exact .pure (.members kind avoids)

theorem guards_newObject (other : Ref) {source : Object} (avoids : source.Avoids vault) :
    Guards vault (newObject copy other source) vault.Free := by
  apply (guards_alloc (.map .empty)).bind
  intro values stored
  have blank : Object.Avoids vault { type := source.type, values } := ⟨avoids.type, stored, .empty⟩
  apply (guards_alloc (.object blank)).bind
  intro copied free
  apply (guards_remember other free).bind
  intro _ _
  apply (guards_entries copies avoids.values.live).bind
  intro cell filled
  apply (guards_fill stored filled).bind
  intro _ _
  exact .pure free

theorem guards_object {other : Ref} (free : vault.Free other) :
    Guards vault (object copy other) vault.Free := by
  apply guards_unlessCopied
  apply Guards.read_bind
  intro store kept
  exact guards_newObject copies other (kept.object free)

theorem guards_container {value : Value} (avoids : value.Avoids vault) :
    Guards vault (container copy value) (Value.Avoids vault) := by
  cases value with
  | array handle other =>
    apply (guards_once other (.array (by simp)) (guards_elements copies avoids.array_live)).bind
    intro copied free
    exact .pure free
  | map handle other =>
    apply (guards_once other (.map .empty) (guards_entries copies avoids.map_live)).bind
    intro copied free
    exact .pure free
  | object other =>
    apply (guards_object copies avoids).bind
    intro copied free
    exact .pure free
  | member kind other =>
    have free : vault.Free other := avoids
    apply (guards_member copies kind free.live).bind
    intro copied made
    exact .pure made
  | members kind other =>
    have free : vault.Free other := avoids
    apply (guards_once other (.members kind .empty) (guards_members copies kind free.live)).bind
    intro copied made
    exact .pure made
  | _ => exact .pure avoids

end Containers

theorem guards_value {inside : Value → CopyM Value}
    (copies : ∀ value : Value, value.Avoids vault → Guards vault (inside value) (Value.Avoids vault))
    {source : Value} (avoids : source.Avoids vault) :
    Guards vault (value inside source) (Value.Avoids vault) := by
  induction source with
  | error id payload ih =>
    apply (ih avoids).bind
    intro copied known
    apply guards_freshId.bind
    intro fresh _
    exact .pure known
  | function other =>
    have free : vault.Free other := avoids
    apply Guards.read_bind
    intro store kept
    have known := kept.function free.live
    have idle : Function.Avoids vault { store.function other with busy := false } :=
      ⟨known.code, known.free⟩
    apply (guards_alloc (.function idle)).bind
    intro copied free
    exact .pure free
  | bound id hold callee receiver ih _ =>
    apply (ih avoids.1).bind
    intro copied known
    apply guards_freshId.bind
    intro fresh _
    exact .pure ⟨known, avoids.2⟩
  | _ => exact copies _ avoids

theorem guards_within (fuel : Nat) {source : Value} (avoids : source.Avoids vault) :
    Guards vault (within fuel source) (Value.Avoids vault) := by
  induction fuel generalizing source with
  | zero => exact .pure avoids
  | succ fuel ih => exact guards_value (fun _ known => guards_container (fun _ held => ih held) known) avoids

end CopyM

namespace StoreM

variable {α β : Type} {vault : Vault}

/-- A computation that keeps out of the vault, and what is known of its result. -/
abbrev Guards (vault : Vault) (action : StoreM α) (post : α → Prop) : Prop :=
  Maintains (Store.Shelters vault) action post

theorem guards_alloc {cell : Cell} (avoids : cell.Avoids vault) :
    Guards vault (alloc cell) vault.Free :=
  fun _ kept => ⟨kept.push avoids, kept.new⟩

theorem guards_freshId : Guards vault freshId fun _ => True :=
  fun _ kept => ⟨⟨kept.here, kept.avoided, kept.old, kept.dropped⟩, trivial⟩

theorem guards_write {other : Ref} (free : vault.Free other) {cell : Cell} (avoids : cell.Avoids vault) :
    Guards vault (write other cell) fun _ => True := by
  apply Maintains.modify
  intro store kept
  apply kept.modify free
  intro old known
  split
  · exact avoids
  · exact known

theorem guards_changeElements {other : Ref} (free : vault.Free other)
    {change : Array Value → Array Value}
    (avoids : ∀ elements : Array Value, (∀ value ∈ elements, value.Avoids vault) →
      ∀ value ∈ change elements, value.Avoids vault) :
    Guards vault (changeElements other change) fun _ => True := by
  apply Maintains.modify
  intro store kept
  apply kept.modify free
  intro old known
  cases known with
  | array each => exact .array (avoids _ each)
  | _ =>
    constructor
    assumption

theorem guards_changeMembers {other : Ref} (free : vault.Free other) {change : Table Ref → Table Ref}
    (avoids : ∀ members : Table Ref, members.All vault.Free → (change members).All vault.Free) :
    Guards vault (changeMembers other change) fun _ => True := by
  apply Maintains.modify
  intro store kept
  apply kept.modify free
  intro old known
  cases known with
  | members kind all => exact .members kind (avoids _ all)
  | _ =>
    constructor
    assumption

theorem guards_newArray {elements : Array Value} (avoids : ∀ value ∈ elements, value.Avoids vault)
    (handle : Handle) : Guards vault (newArray elements handle) (Value.Avoids vault) := by
  apply (guards_alloc (.array avoids)).bind
  intro made free
  exact .pure (Value.avoids_array free handle)

theorem guards_newMap {entries : Table Value} (avoids : entries.All (Value.Avoids vault))
    (handle : Handle) : Guards vault (newMap entries handle) (Value.Avoids vault) := by
  apply (guards_alloc (.map avoids)).bind
  intro made free
  exact .pure (Value.avoids_map free handle)

theorem guards_newError {payload : Value} (avoids : payload.Avoids vault) :
    Guards vault (newError payload) (Value.Avoids vault) :=
  guards_freshId.bind fun _ _ => .pure avoids

theorem guards_copying {make : CopyM α} {post : α → Prop}
    (makes : CopyM.Guards vault make post) : Guards vault (copying make) post := by
  intro store kept
  have copied := makes { store } ⟨kept, fun source copied found => by simp at found⟩
  exact ⟨copied.1.store, copied.2⟩

theorem guards_copy {value : Value} (avoids : value.Avoids vault) :
    Guards vault (copy value) (Value.Avoids vault) :=
  Maintains.get.bind fun _ _ => guards_copying (CopyM.guards_within _ avoids)

theorem guards_copyTable {table : Table Value} (avoids : table.All (Value.Avoids vault)) :
    Guards vault (copyTable table) (Table.All (Value.Avoids vault)) :=
  Maintains.get.bind fun _ _ => guards_copying <|
    (CopyM.sequential vault).table_mapM avoids fun _ known => CopyM.guards_within _ known

end StoreM

end ScriptMachine
