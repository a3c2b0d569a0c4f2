import ScriptMachine.Store
import Std.Data.HashMap

/-! Deep copies. A container is copied once however often it is reached, so sharing and cycles
survive in the copy; types, boxes, iterators and native callables are shared with the source. -/

namespace ScriptMachine

/-- A copy in progress: which cell is the copy of which. -/
structure Copying where
  store : Store
  copies : Std.HashMap Ref Ref := ∅

namespace Copying

def push (state : Copying) (cell : Cell) : Copying :=
  { state with store := { state.store with cells := state.store.cells.push cell } }

def put (state : Copying) (ref : Ref) (cell : Cell) : Copying :=
  { state with store := state.store.set ref cell }

def note (state : Copying) (ref copied : Ref) : Copying :=
  { state with copies := state.copies.insert ref copied }

end Copying

abbrev CopyM := StateM Copying

namespace CopyM

def alloc (cell : Cell) : CopyM Ref :=
  modifyGet fun state => (state.store.cells.size, state.push cell)

def freshId : CopyM Nat :=
  modifyGet fun state =>
    (state.store.nextId,
      { state with store := { state.store with nextId := state.store.nextId + 1 } })

def fill (ref : Ref) (cell : Cell) : CopyM Unit := modify (·.put ref cell)

def remember (ref copied : Ref) : CopyM Unit := modify (·.note ref copied)

def read {α : Type} (view : Store → α) : CopyM α := return view (← get).store

/-- The copy of a cell that was made before, or else the one that `make` makes. -/
def unlessCopied (ref : Ref) (make : CopyM Ref) : CopyM Ref := do
  match (← get).copies[ref]? with
  | some copied => return copied
  | none => make

/-- The copy of a cell: a blank one, which gets its contents once they are copied. It is noted before the
contents are copied, which may lead back here. -/
def once (ref : Ref) (blank : Cell) (contents : CopyM Cell) : CopyM Ref :=
  unlessCopied ref do
    let copied ← alloc blank
    remember ref copied
    fill copied (← contents)
    return copied

def elements (copy : Value → CopyM Value) (ref : Ref) : CopyM Cell := do
  return .array (← (← read (·.elements ref)).mapM copy)

def entries (copy : Value → CopyM Value) (ref : Ref) : CopyM Cell := do
  return .map (← (← read (·.entries ref)).mapM copy)

def entry (copy : Value → CopyM Value) (ref : Ref) : CopyM Cell := do
  let source ← read (·.entry ref)
  let value ← copy source.value
  let tags ← source.tags.mapM copy
  return .entry { value, tags }

def property (copy : Value → CopyM Value) (ref : Ref) : CopyM Cell := do
  let source ← read (·.property ref)
  let getter ← source.getter.mapM copy
  let setter ← source.setter.mapM copy
  let tags ← source.tags.mapM copy
  return .property { getter, setter, tags }

def member (copy : Value → CopyM Value) (kind : MemberKind) (ref : Ref) : CopyM Ref :=
  match kind with
  | .property => once ref (.property {}) (property copy ref)
  | _ => once ref (.entry {}) (entry copy ref)

def members (copy : Value → CopyM Value) (kind : MemberKind) (ref : Ref) : CopyM Cell := do
  return .members kind (← (← read (·.members ref)).mapM (member copy kind))

/-- A first copy of an instance, with a storage of its own. -/
def newObject (copy : Value → CopyM Value) (ref : Ref) (source : Object) : CopyM Ref := do
  let values ← alloc (.map {})
  let copied ← alloc (.object { type := source.type, values })
  remember ref copied
  fill values (← entries copy source.values)
  return copied

def object (copy : Value → CopyM Value) (ref : Ref) : CopyM Ref :=
  unlessCopied ref do newObject copy ref (← read (·.object ref))

/-- The copy of a container, where `copy` copies what it holds. A frozen container has a writable
copy. -/
def container (copy : Value → CopyM Value) : Value → CopyM Value
  | .array _ ref => return .array .writable (← once ref (.array #[]) (elements copy ref))
  | .map _ ref => return .map .writable (← once ref (.map {}) (entries copy ref))
  | .object ref => return .object (← object copy ref)
  | .member kind ref => return .member kind (← member copy kind ref)
  | .members kind ref => return .members kind (← once ref (.members kind {}) (members copy kind ref))
  | value => return value

/-- The copy of a value, where `inside` copies containers. A function is copied anew each time. -/
def value (inside : Value → CopyM Value) : Value → CopyM Value
  | .error _ payload => do
    let payload ← value inside payload
    return .error (← freshId) payload
  | .function ref => do
    let source ← read (·.function ref)
    return .function (← alloc (.function { source with busy := false }))
  | .bound _ hold callee receiver => do
    let callee ← value inside callee
    return .bound (← freshId) hold callee receiver
  | other => inside other

/-- The copy of a value; containers nested deeper than `fuel` are shared. -/
def within : Nat → Value → CopyM Value
  | 0 => fun value => return value
  | fuel + 1 => value (container (within fuel))

end CopyM

namespace StoreM

def copying {α : Type} (make : CopyM α) : StoreM α :=
  modifyGet fun store =>
    let (result, state) := make { store }
    (result, state.store)

def copy (value : Value) : StoreM Value := do
  copying (CopyM.within ((← get).cells.size + 1) value)

/-- The deep copies of a table's values, with what they share copied once. -/
def copyTable (table : Table Value) : StoreM (Table Value) := do
  copying (table.mapM (CopyM.within ((← get).cells.size + 1)))

end StoreM

end ScriptMachine
