import ScriptMachine.Index
import ScriptMachine.Proofs.HeldTables
import ScriptMachine.Proofs.LastingInstances

/-! Members and tables of members that are reloaded from a mapping. A reload assigns the parts of the
mapping one after the other, up to the first that is refused. -/

namespace ScriptMachine

open Store StoreM

namespace StoreM

end StoreM

/-- What can be reloaded: a member or a table of members. -/
inductive Reloadable where
  | member (kind : MemberKind) (ref : Ref)
  | members (kind : MemberKind) (table : Ref)

namespace Reloadable

def value : Reloadable → Value
  | member kind ref => .member kind ref
  | members kind table => .members kind table

/-- What a mapping has for it, part by part. A field or method has a value and tags, even where the
mapping lacks them; a property has those keys that the mapping has; a table has all entries. -/
def parts : Reloadable → Table Value → List (String × Value)
  | member .property _, mapping => present mapping propertyKeys
  | member _ _, mapping => ["value", "tags"].map fun key => (key, (mapping.get? key).getD .undefined)
  | members _ _, mapping => mapping.entries

def assign : Reloadable → String × Value → StoreM Unit
  | member kind ref, part => memberSet kind ref part.1 part.2
  | members kind table, part => declare none kind table part.1 part.2

/-- A part is a mapping whose tags are a type, and the table being reloaded is one of that type's. -/
def Clashes : Reloadable → Store → Value → Prop
  | member .., _, _ => False
  | members _ table, store, value => OwningMapping table store value

/-- Parts that have been assigned one after the other. -/
inductive Assigned (target : Reloadable) : Store → List (String × Value) → Store → Prop where
  | nil (store : Store) : Assigned target store [] store
  | cons {store middle later : Store} {part : String × Value} {rest : List (String × Value)}
      (apart : ¬target.Clashes store part.2) (first : (target.assign part).run store = .ok () middle)
      (others : Assigned target middle rest later) : Assigned target store (part :: rest) later

variable (target : Reloadable)

end Reloadable

end ScriptMachine
