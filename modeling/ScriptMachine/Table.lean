import Std.Data.ExtTreeMap

/-! Tables from text to values. They are searched by key, and their entries are always seen in
ascending order of the keys. -/

namespace ScriptMachine

/-- A finite map with text keys. -/
structure Table (α : Type) where
  tree : Std.ExtTreeMap String α

namespace Table

variable {α β : Type}

def empty : Table α := ⟨∅⟩

instance : EmptyCollection (Table α) := ⟨empty⟩

instance : Inhabited (Table α) := ⟨empty⟩

def insert (table : Table α) (key : String) (value : α) : Table α :=
  ⟨table.tree.insert key value⟩

def erase (table : Table α) (key : String) : Table α := ⟨table.tree.erase key⟩

def filterKeys (table : Table α) (keep : String → Bool) : Table α :=
  ⟨table.tree.filter fun key _ => keep key⟩

def get? (table : Table α) (key : String) : Option α := table.tree[key]?

def contains (table : Table α) (key : String) : Bool := table.tree.contains key

/-- The entries in ascending order of their keys. -/
def entries (table : Table α) : List (String × α) := table.tree.toList

def keys (table : Table α) : List String := table.tree.keys

def values (table : Table α) : List α := table.tree.values

def size (table : Table α) : Nat := table.tree.size

def isEmpty (table : Table α) : Bool := table.tree.isEmpty

/-- Adds entries in order; a later one replaces an earlier one with its key. -/
def insertAll (table : Table α) (entries : List (String × α)) : Table α :=
  entries.foldl (fun table entry => table.insert entry.1 entry.2) table

def ofList (entries : List (String × α)) : Table α := insertAll empty entries

def mapValues (f : α → β) (table : Table α) : Table β := ⟨table.tree.map fun _ value => f value⟩

/-- Changes every value by a computation, in the order of the keys. -/
def mapM {m : Type → Type} [Monad m] (table : Table α) (f : α → m β) : m (Table β) :=
  return ofList (← table.entries.mapM fun entry => return (entry.1, ← f entry.2))

/-- Tables with the same value under every key are the same. -/
@[ext] theorem ext {first second : Table α} (same : ∀ key, first.get? key = second.get? key) :
    first = second := by
  cases first
  cases second
  exact congrArg Table.mk (Std.ExtTreeMap.ext_getElem? same)

@[simp] theorem get?_empty (wanted : String) : (empty : Table α).get? wanted = none :=
  Std.ExtTreeMap.getElem?_empty

@[simp] theorem get?_insert (table : Table α) (key wanted : String) (value : α) :
    (table.insert key value).get? wanted =
      if key = wanted then some value else table.get? wanted := by
  simp [get?, insert, Std.ExtTreeMap.getElem?_insert]

@[simp] theorem get?_erase (table : Table α) (key wanted : String) :
    (table.erase key).get? wanted = if key = wanted then none else table.get? wanted := by
  simp [get?, erase, Std.ExtTreeMap.getElem?_erase]

theorem mem_entries_iff (table : Table α) (key : String) (value : α) :
    (key, value) ∈ table.entries ↔ table.get? key = some value :=
  Std.ExtTreeMap.mem_toList_iff_getElem?_eq_some

theorem ordered_entries (table : Table α) :
    table.entries.Pairwise fun first second => compare first.1 second.1 = .lt :=
  Std.ExtTreeMap.ordered_keys_toList

end Table

end ScriptMachine
