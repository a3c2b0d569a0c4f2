import ScriptMachine.Table

/-! The table of builtins. Code names a builtin by its index, so entries are only ever appended and
an index keeps its meaning. -/

namespace ScriptMachine

/-- A registered builtin: its name, what it does, and whether it takes a receiver from the stack. -/
structure RegistryEntry (α : Type) where
  name : String
  function : α
  isMethod : Bool
  deriving DecidableEq

/-- Builtins in the order of their indices, with an index of their names. An index is a byte of the code. -/
structure Registry (α : Type) where
  entries : Array (RegistryEntry α) := #[]
  byName : Table UInt8 := {}

namespace Registry

variable {α : Type}

inductive Rejection where
  | taken (name : String)
  | full
  deriving DecidableEq

def Rejection.message : Rejection → String
  | taken name => s!"Built-in function '{name}' already registered"
  | full => "Too many built-in functions (max 256)"

/-- How many builtins an index of one byte can tell apart. -/
def capacity : Nat := 256

/-- Appends a builtin and answers with its index. A name that is taken is turned away before a full table
is noticed. Below the capacity the size fits into a byte. -/
def register (registry : Registry α) (entry : RegistryEntry α) :
    Registry α × Except Rejection UInt8 :=
  if registry.byName.contains entry.name then (registry, .error (.taken entry.name))
  else if registry.entries.size < capacity then
    let index := UInt8.ofNat registry.entries.size
    (⟨registry.entries.push entry, registry.byName.insert entry.name index⟩, .ok index)
  else (registry, .error .full)

/-- Appends several builtins, stopping at the first that is turned away. The result is the index of
the last one; there is none if nothing was to be appended. -/
def registerAll (registry : Registry α) : List (RegistryEntry α) →
    Registry α × Except Rejection (Option Nat)
  | [] => (registry, .ok none)
  | entry :: rest =>
    match registry.register entry with
    | (extended, .ok index) =>
      let (final, result) := extended.registerAll rest
      (final, result.map (·.or (some index.toNat)))
    | (unchanged, .error rejection) => (unchanged, .error rejection)

def entry? (registry : Registry α) (index : Nat) : Option (RegistryEntry α) :=
  registry.entries[index]?

def indexOf? (registry : Registry α) (name : String) : Option Nat :=
  (registry.byName.get? name).map UInt8.toNat

def size (registry : Registry α) : Nat := registry.entries.size

end Registry

end ScriptMachine
