import ScriptMachine.Proofs.Reachability

/-! Stores that keep the cells of an earlier one. What a value reached there it reaches still, and
what was built since lies in cells that were not there. -/

namespace ScriptMachine

namespace Store

/-- The cells of a store are in a later one as they were. -/
def Kept (store later : Store) : Prop :=
  ∀ (ref : Ref) (cell : Cell), store.cells[ref]? = some cell → later.cells[ref]? = some cell

variable {store middle later : Store} {value held : Value} {ref : Ref}

theorem Fits.transfer (fits : store.Fits value) (same : store.SameFor later value) :
    later.Fits value := by
  cases fits with
  | array handle elements cell => exact .array handle elements ((same _ (.array handle _)).trans cell)
  | map handle entries cell => exact .map handle entries ((same _ (.map handle _)).trans cell)
  | @object ref object values cell storage =>
    have view : store.object ref = object := Store.object_eq cell
    have stored := same _ (.storage ref)
    rw [view] at stored
    exact .object object values ((same _ (.object ref)).trans cell) (stored.trans storage)
  | property property cell => exact .property property ((same _ (.member _ _)).trans cell)
  | member plain entry cell => exact .member plain entry ((same _ (.member _ _)).trans cell)
  | members kind members cell => exact .members kind members ((same _ (.members kind _)).trans cell)
  | other nowhere => exact .of_nowhere nowhere

theorem Grounded.of_each (fits : store.Fits value)
    (each : ∀ held, store.Holds value held → store.Grounded held) : store.Grounded value := by
  intro held reached
  rcases reached.cases_head with rfl | ⟨next, holds, rest⟩
  · exact fits
  · exact each next holds held rest

namespace Kept

theorem refl (store : Store) : store.Kept store := fun _ _ found => found

theorem trans (first : store.Kept middle) (second : middle.Kept later) : store.Kept later :=
  fun ref cell found => second ref cell (first ref cell found)

theorem ofCells (same : later.cells = store.cells) : store.Kept later := by
  intro ref cell found
  rw [same]
  exact found

theorem push (store : Store) (cell : Cell) :
    store.Kept { store with cells := store.cells.push cell } := by
  intro ref old found
  have inside : ref ≠ store.cells.size := Nat.ne_of_lt (lt_of_getElem?_eq_some found)
  rw [Array.getElem?_push, if_neg inside]
  exact found

theorem size_le (kept : store.Kept later) : store.cells.size ≤ later.cells.size := by
  cases size : store.cells.size with
  | zero => exact Nat.zero_le _
  | succ last =>
    have inside : last < store.cells.size := by omega
    exact lt_of_getElem?_eq_some (kept last _ (Array.getElem?_eq_getElem inside))

theorem sameFor (kept : store.Kept later) (fits : store.Fits value) : store.SameFor later value := by
  intro ref occupies
  have found := Array.getElem?_eq_getElem (fits.lt occupies)
  rw [found, kept ref _ found]

theorem fits (kept : store.Kept later) (fits : store.Fits value) : later.Fits value :=
  fits.transfer (kept.sameFor fits)

theorem reaches_iff (kept : store.Kept later) (grounded : store.Grounded value) :
    later.Reaches value held ↔ store.Reaches value held :=
  Store.reaches_iff fun holder reached => kept.sameFor (grounded holder reached)

theorem grounded (kept : store.Kept later) (grounded : store.Grounded value) :
    later.Grounded value :=
  fun held reached => kept.fits (grounded held ((kept.reaches_iff grounded).mp reached))

theorem occupies_iff (kept : store.Kept later) (fits : store.Fits value) :
    later.Occupies value ref ↔ store.Occupies value ref := by
  have same (there : Store) (other : Store) (alike : there.SameFor other value) :
      there.Occupies value ref → other.Occupies value ref := by
    intro occupies
    cases occupies with
    | storage ref =>
      rw [← alike.object_eq]
      exact .storage ref
    | array handle ref => exact .array handle ref
    | map handle ref => exact .map handle ref
    | object ref => exact .object ref
    | member kind ref => exact .member kind ref
    | members kind ref => exact .members kind ref
  exact ⟨same later store (kept.sameFor fits).symm, same store later (kept.sameFor fits)⟩

end Kept

end Store

/-- Values that neither hold another value nor refer to a cell. -/
def Value.Alone : Value → Prop
  | undefined | useDefault | bool _ | int _ | float _ | char _ | string _ | bytes _ => True
  | builtin .. | host .. => True
  | _ => False

namespace Store

variable {store middle later : Store} {value held : Value} {ref : Ref}

/-- What a value holds and, if it is a type, what the type consists of. -/
inductive Involves (store : Store) : Value → Value → Prop where
  | holds {holder held : Value} (inside : store.Holds holder held) : Involves store holder held
  | constructor {ref : Ref} {held : Value} (found : (store.type ref).constructor = some held) :
      Involves store (.type ref) held
  | tag {ref : Ref} (name : String) {held : Value} (found : (store.type ref).tags.get? name = some held) :
      Involves store (.type ref) held
  | fields (ref : Ref) : Involves store (.type ref) (.members .field (store.type ref).fields)
  | methods (ref : Ref) : Involves store (.type ref) (.members .method (store.type ref).methods)
  | properties (ref : Ref) :
      Involves store (.type ref) (.members .property (store.type ref).properties)

/-- A value all of whose cells exist and are of their kinds, also those that it reaches by way of
types. -/
def Firm (store : Store) (value : Value) : Prop :=
  ∀ held, Relation.ReflTransGen store.Involves value held →
    store.Fits held ∧ ∀ ref, held = .type ref → ∃ type, store.cells[ref]? = some (.type type)

namespace Firm

theorem of_involves (firm : store.Firm value) (inside : store.Involves value held) :
    store.Firm held :=
  fun _ reached => firm _ (.head inside reached)

theorem grounded (firm : store.Firm value) : store.Grounded value := by
  intro held reached
  refine (firm held ?_).1
  induction reached with
  | refl => exact .refl
  | tail _ inside ih => exact ih.tail (.holds inside)

/-- A value that is no type is firm if it fits and all it involves is firm. -/
theorem of_each (fits : store.Fits value) (untyped : ∀ ref, value ≠ .type ref)
    (each : ∀ held, store.Involves value held → store.Firm held) : store.Firm value := by
  intro held reached
  rcases reached.cases_head with rfl | ⟨next, inside, rest⟩
  · exact ⟨fits, fun ref same => absurd same (untyped ref)⟩
  · exact each next inside held rest

/-- Scalars, text and native callables involve nothing. -/
theorem of_alone (alone : value.Alone) : store.Firm value := by
  refine .of_each (.other fun ref occupies => ?_) (fun ref same => ?_) fun held involves => ?_
  · cases occupies <;> exact alone.elim
  · subst same
    exact alone.elim
  · cases involves with
    | holds inside =>
      cases inside with
      | contains inside => cases inside <;> exact alone.elim
      | _ => exact alone.elim
    | _ => exact alone.elim

theorem of_closed (known : Value → Prop)
    (fits : ∀ value, known value → store.Fits value ∧
      ∀ ref, value = .type ref → ∃ type, store.cells[ref]? = some (.type type))
    (closed : ∀ holder held, known holder → store.Involves holder held → known held)
    (member : known value) : store.Firm value := by
  intro held reached
  suffices inside : known held from fits held inside
  induction reached with
  | refl => exact member
  | tail _ step ih => exact closed _ _ ih step

end Firm

theorem Kept.firm (kept : store.Kept later) (firm : store.Firm value) : later.Firm value := by
  have back (held : Value) (reached : Relation.ReflTransGen later.Involves value held) :
      Relation.ReflTransGen store.Involves value held := by
    induction reached with
    | refl => exact .refl
    | @tail holder held _ inside ih =>
      refine ih.tail ?_
      have known := firm holder ih
      have same : ∀ ref, holder = .type ref → later.type ref = store.type ref := by
        intro ref is
        obtain ⟨type, cell⟩ := known.2 ref is
        simp only [Store.type, cell, kept ref _ cell]
      cases inside with
      | holds inside => exact .holds (inside.transfer (kept.sameFor known.1).symm)
      | constructor found => exact .constructor (same _ rfl ▸ found)
      | tag name found => exact .tag name (same _ rfl ▸ found)
      | fields ref =>
        rw [same ref rfl]
        exact .fields ref
      | methods ref =>
        rw [same ref rfl]
        exact .methods ref
      | properties ref =>
        rw [same ref rfl]
        exact .properties ref
  intro held reached
  obtain ⟨fits, typed⟩ := firm held (back held reached)
  refine ⟨kept.fits fits, fun ref is => ?_⟩
  obtain ⟨type, cell⟩ := typed ref is
  exact ⟨type, kept ref _ cell⟩

section Written

variable {cell old : Cell}

theorem getElem?_overwrite_self (cell : Cell) : (store.overwrite ref cell).cells[ref]? =
    store.cells[ref]?.map fun old => if old.admits cell then cell else old := by
  simp only [overwrite, Array.getElem?_modify, ↓reduceIte]

theorem getElem?_overwrite (found : store.cells[ref]? = some old) (alike : old.admits cell = true) :
    (store.overwrite ref cell).cells[ref]? = some cell := by
  simp only [getElem?_overwrite_self, found, Option.map_some, alike, ↓reduceIte]

theorem getElem?_overwrite_of_ne {other : Ref} (cell : Cell) (apart : other ≠ ref) :
    (store.overwrite ref cell).cells[other]? = store.cells[other]? := by
  simp only [overwrite, Array.getElem?_modify, if_neg apart.symm]

end Written

section Members

variable {table : Ref} {change : Table Ref → Table Ref} {kind : MemberKind} {members : Table Ref}

theorem getElem?_changeMembers_self (found : store.cells[table]? = some (.members kind members)) :
    (store.changeMembers table change).cells[table]? = some (.members kind (change members)) := by
  simp [changeMembers, Array.getElem?_modify, found]

theorem getElem?_changeMembers_of_ne (apart : ref ≠ table) :
    (store.changeMembers table change).cells[ref]? = store.cells[ref]? := by
  simp only [changeMembers, Array.getElem?_modify, if_neg apart.symm]

/-- Changing a table that an earlier store did not have keeps the cells of that store. -/
theorem Kept.changeMembers (kept : store.Kept later) (above : store.cells.size ≤ table) :
    store.Kept (later.changeMembers table change) := by
  intro ref cell found
  have apart : ref ≠ table := Nat.ne_of_lt (Nat.lt_of_lt_of_le (lt_of_getElem?_eq_some found) above)
  rw [getElem?_changeMembers_of_ne apart]
  exact kept ref cell found

theorem Fits.eq_members (fits : store.Fits value) (occupies : store.Occupies value table)
    (found : store.cells[table]? = some (.members kind members)) : value = .members kind table := by
  cases occupies with
  | array => cases fits.array_cell.symm.trans found
  | map => cases fits.map_cell.symm.trans found
  | object => cases fits.object_cell.symm.trans found
  | storage => cases fits.storage_cell.symm.trans found
  | member other =>
    cases other with
    | property => cases fits.property_cell.symm.trans found
    | field | method => cases (fits.entry_cell nofun).symm.trans found
  | members other =>
    cases fits.members_cell.symm.trans found
    rfl

/-- Grounded values stay grounded when a table takes a grounded member. Only a value that occupies the
table itself can see the change. -/
theorem Grounded.insertMember {name : String} {member : Ref} (grounded : store.Grounded value)
    (found : store.cells[table]? = some (.members kind members))
    (listed : store.Grounded (.member kind member)) :
    (store.changeMembers table (·.insert name member)).Grounded value := by
  let next := store.changeMembers table (·.insert name member)
  have changed : next.cells[table]? = some (.members kind (members.insert name member)) :=
    getElem?_changeMembers_self found
  have same {other : Value} (away : ¬store.Occupies other table) : store.SameFor next other := by
    intro ref occupies
    refine getElem?_changeMembers_of_ne ?_
    rintro rfl
    exact away occupies
  have fits {other : Value} (known : store.Grounded other) : next.Fits other := by
    by_cases home : store.Occupies other table
    · rw [known.fits.eq_members home found]
      exact .members kind _ changed
    · exact known.fits.transfer (same home)
  have inside {other held : Value} (known : store.Grounded other) (holds : next.Holds other held) :
      store.Grounded held := by
    by_cases home : store.Occupies other table
    · obtain rfl := known.fits.eq_members home found
      cases holds with
      | contains inside => cases inside
      | listed _ label there =>
        rw [Store.members, changed, Table.get?_insert] at there
        split at there
        · cases there
          exact listed
        · refine known.of_holds (.listed kind label ?_)
          rw [Store.members, found]
          exact there
    · exact known.of_holds (holds.transfer (same home).symm)
  intro held reached
  suffices known : store.Grounded held from fits known
  induction reached with
  | refl => exact grounded
  | tail _ holds ih => exact inside ih holds

end Members

/-- A grounded value that reaches no cell below a bound. -/
structure Since (store : Store) (low : Nat) (value : Value) : Prop where
  grounded : store.Grounded value
  above : ∀ held, store.Reaches value held → ∀ ref, store.Occupies held ref → low ≤ ref

namespace Since

variable {low : Nat}

/-- A value in new cells that holds nothing but such values. -/
theorem of_holds (fits : store.Fits value) (fresh : ∀ ref, store.Occupies value ref → low ≤ ref)
    (each : ∀ held, store.Holds value held → store.Since low held) : store.Since low value := by
  refine ⟨.of_each fits fun held holds => (each held holds).grounded, ?_⟩
  intro held reached
  rcases reached.cases_head with rfl | ⟨next, holds, rest⟩
  · exact fresh
  · exact (each next holds).above held rest

theorem kept (since : store.Since low value) (kept : store.Kept later) : later.Since low value := by
  refine ⟨kept.grounded since.grounded, ?_⟩
  intro held reached ref occupies
  have before := (kept.reaches_iff since.grounded).mp reached
  exact since.above held before ref ((kept.occupies_iff (since.grounded held before)).mp occupies)

theorem mono {under : Nat} (since : store.Since low value) (less : under ≤ low) :
    store.Since under value :=
  ⟨since.grounded, fun held reached ref occupies => Nat.le_trans less (since.above held reached ref occupies)⟩

/-- What was built since a store was as it was has no cell in common with what that store grounds. -/
theorem apart (since : later.Since store.cells.size value) (kept : store.Kept later) {other : Value}
    (grounded : store.Grounded other) (reached : later.Reaches value held) {origin : Value}
    (before : later.Reaches other origin) (occupies : later.Occupies held ref) :
    ¬later.Occupies origin ref := by
  intro shared
  have there := grounded origin ((kept.reaches_iff grounded).mp before)
  have below := there.lt ((kept.occupies_iff there).mp shared)
  exact absurd (since.above held reached ref occupies) (Nat.not_le.mpr below)

end Since

end Store

end ScriptMachine
