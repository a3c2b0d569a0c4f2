import ScriptMachine.Store
import Std.Data.HashSet

/-! Which cells can be reached from which, and which are still there because somebody holds them. Cells are
searched level by level, each cell once, so what is held close by is found soon. -/

namespace ScriptMachine

namespace Sequence

def refs : Sequence → List Ref
  | elements storage _ | entries storage _ => [storage]
  | _ => []

end Sequence

namespace Value

def refsOf (values : Array Value) : List Ref := values.foldl (fun refs value => value.refs ++ refs) []

end Value

namespace Table

def refs (table : Table Value) : List Ref := table.values.flatMap Value.refs

end Table

namespace Cell

/-- The references that a cell holds and keeps alive. -/
def refs : Cell → List Ref
  | array elements => Value.refsOf elements
  | map entries => entries.refs
  | box value => value.refs
  | function callee => callee.free.toList ++ callee.code.keywords.flatMap fun keyword => keyword.2.refs
  | type shape =>
    shape.fields :: shape.methods :: shape.properties ::
      (shape.tags.refs ++ shape.constructor.toList.flatMap Value.refs)
  | object held => held.type :: held.values :: held.methods.refs
  | entry declared => declared.value.refs ++ declared.tags.refs
  | property declared =>
    (declared.getter.toList ++ declared.setter.toList).flatMap Value.refs ++ declared.tags.refs
  | members _ table => table.values
  | iterator cursor => cursor.sequence.refs

end Cell

namespace Value

/-- The containers that the text of a value shows. -/
def shownRefs : Value → List Ref
  | array _ ref | map _ ref | object ref => [ref]
  | member .field ref | member .method ref => [ref]
  | error _ payload => payload.shownRefs
  | bound _ _ callee _ => callee.shownRefs
  | _ => []

end Value

namespace Cell

/-- The cells that are read to show what a cell holds. -/
def shownRefs : Cell → List Ref
  | array elements => elements.toList.flatMap Value.shownRefs
  | map entries => entries.values.flatMap Value.shownRefs
  | object held => [held.values]
  | entry declared => declared.value.shownRefs
  | _ => []

end Cell

namespace Store

/-- Adds references to those seen, and lists the ones that are new in front of `added`. -/
def markNew (seen : Std.HashSet Ref) (added : List Ref) : List Ref → List Ref × Std.HashSet Ref
  | [] => (added, seen)
  | ref :: rest =>
    let (known, seen) := seen.containsThenInsert ref
    markNew seen (if known then added else ref :: added) rest

/-- Whether a cell is one or more steps along `edges` away from the listed ones; `fuel` bounds the
steps. -/
def search (store : Store) (edges : Cell → List Ref) (target : Ref) :
    Nat → List Ref → Std.HashSet Ref → Bool
  | 0, _, _ => false
  | _, [], _ => false
  | fuel + 1, level, seen =>
    let next := level.flatMap fun ref => (store.cells[ref]?.map edges).getD []
    next.contains target ||
      let (added, seen) := markNew seen [] next
      store.search edges target fuel added seen

def reachesIn (store : Store) (edges : Cell → List Ref) (steps : Nat) (start : List Ref)
    (target : Ref) : Bool :=
  start.contains target || store.search edges target steps start ∅

/-- As many steps as a search can take before it meets a cell again. -/
def allSteps (store : Store) : Nat := store.cells.size + 1

/-- Whether what a cell holds leads back to it. -/
def circular (store : Store) (ref : Ref) : Bool :=
  store.search Cell.refs ref store.allSteps [ref] ∅

/-- Whether a cell is still there while some references are held. Holders are counted, and a cell is
dropped with the last of them: it stays as long as one of the references leads to it, and for good if it
lies on a cycle or is held by one. Those references that are `near` are followed a few steps before
everything is searched, `far` included. -/
def keeps (store : Store) (near : List Ref) (far : Unit → List Ref) (target : Ref) : Bool :=
  store.reachesIn Cell.refs 4 near target ||
    store.reachesIn Cell.refs store.allSteps (near ++ far ()) target ||
    (List.range store.cells.size).any fun ref =>
      store.reachesIn Cell.refs store.allSteps [ref] target && store.circular ref

/-- Whether the text of a value is read off a cell. -/
def shows (store : Store) (value : Value) (target : Ref) : Bool :=
  store.reachesIn Cell.shownRefs store.allSteps value.shownRefs target

end Store

end ScriptMachine
