import ScriptMachine.Proofs.PropertyDeclarations

/-! Loading a table of properties. Whether it succeeds depends only on what is loaded: declarations
change no cell that another one of them reads to decide whether its value is acceptable. -/

namespace ScriptMachine

/-- A cell that no declaration of a property changes. -/
def Cell.Steady : Cell → Prop
  | .property _ | .members .property _ => False
  | _ => True

namespace Store

/-- A store in which properties were declared: apart from the table and from properties, all that was
there before is as it was. -/
structure Around (base store : Store) (table : Ref) : Prop where
  origin : base.PropertyTable table
  known : store.PropertyTable table
  kept : ∀ (ref : Ref) (cell : Cell), base.cells[ref]? = some cell → ref ≠ table →
    (∀ property, cell ≠ .property property) → store.cells[ref]? = some cell
  properties : ∀ (ref : Ref) (property : Property), base.cells[ref]? = some (.property property) →
    ∃ edited, store.cells[ref]? = some (.property edited)

variable {base store later : Store} {table ref : Ref} {name : String} {listed changed : Option Ref}
  {value : Value}

theorem PropertyTable.around (known : base.PropertyTable table) : base.Around base table :=
  ⟨known, known, fun _ _ found _ _ => found, fun _ property found => ⟨property, found⟩⟩

theorem Relisted.property (relisted : store.Relisted later table name listed changed)
    (known : store.PropertyTable table)
    (edited : ∀ ref, changed = some ref → ∃ property, later.cells[ref]? = some (.property property))
    {property : Property} (found : store.cells[ref]? = some (.property property)) :
    ∃ edited, later.cells[ref]? = some (.property edited) := by
  by_cases same : changed = some ref
  · exact edited ref same
  · exact ⟨property, relisted.kept ref _ found (known.apart found) same⟩

namespace Around

theorem relisted (around : base.Around store table)
    (relisted : store.Relisted later table name listed changed)
    (before : ∀ ref, changed = some ref → ∃ property, store.cells[ref]? = some (.property property))
    (after : ∀ ref, changed = some ref → ∃ property, later.cells[ref]? = some (.property property))
    (own : ∀ ref, listed = some ref → ∃ property, later.cells[ref]? = some (.property property)) :
    base.Around later table := by
  have stays {ref : Ref} {property : Property} (found : store.cells[ref]? = some (.property property)) :=
    relisted.property around.known after found
  refine ⟨around.origin, ⟨relisted.stays, fun other ref found => ?_⟩, fun ref cell found apart plain => ?_,
    fun ref property found => ?_⟩
  · by_cases same : other = name
    · subst same
      exact own ref (relisted.own.symm.trans found)
    · rw [relisted.others other same] at found
      obtain ⟨property, cell⟩ := around.known.listed other ref found
      exact stays cell
  · have there := around.kept ref cell found apart plain
    refine relisted.kept ref cell there apart fun same => ?_
    obtain ⟨property, is⟩ := before ref same
    exact plain property (Option.some.inj (there.symm.trans is))
  · obtain ⟨edited, cell⟩ := around.properties ref property found
    exact stays cell

variable (around : base.Around store table)

include around

theorem cell {cell : Cell} (found : base.cells[ref]? = some cell) (steady : cell.Steady) :
    store.cells[ref]? = some cell := by
  refine around.kept ref cell found ?_ ?_
  · rintro rfl
    obtain ⟨members, there⟩ := around.origin.cell
    cases found.symm.trans there
    exact steady
  · rintro property rfl
    exact steady

theorem size_le : base.cells.size ≤ store.cells.size := by
  cases size : base.cells.size with
  | zero => exact Nat.zero_le _
  | succ last =>
    have inside : last < base.cells.size := by omega
    have found := Array.getElem?_eq_getElem inside
    by_cases same : last = table
    · subst same
      obtain ⟨members, there⟩ := around.known.cell
      exact lt_of_getElem?_eq_some there
    · generalize base.cells[last] = cell at found
      cases cell with
      | property property =>
        obtain ⟨edited, there⟩ := around.properties last property found
        exact lt_of_getElem?_eq_some there
      | _ => exact lt_of_getElem?_eq_some (around.kept last _ found same fun _ is => by cases is)

theorem entries_eq {handle : Handle} (fits : base.Fits (.map handle ref)) :
    store.entries ref = base.entries ref := by
  exact Store.entries_eq (around.cell fits.map_cell trivial)

theorem fits (fits : base.Fits value) : store.Fits value := by
  cases fits with
  | array handle elements found =>
    exact .array handle elements (around.cell found trivial)
  | map handle entries found =>
    exact .map handle entries (around.cell found trivial)
  | object object values found storage =>
    exact .object object values (around.cell found trivial)
      (around.cell storage trivial)
  | property property found =>
    obtain ⟨edited, there⟩ := around.properties _ property found
    exact .property edited there
  | member plain entry found =>
    exact .member plain entry (around.cell found trivial)
  | @members kind ref members found =>
    by_cases same : ref = table
    · subst same
      obtain ⟨listed, old⟩ := around.origin.cell
      obtain ⟨now, there⟩ := around.known.cell
      cases found.symm.trans old
      exact .members .property now there
    · exact .members kind members (around.kept ref _ found same fun _ is => by cases is)
  | other nowhere => exact .of_nowhere nowhere

theorem type_cell (legible : base.Legible (.type ref)) : store.cells[ref]? = base.cells[ref]? := by
  obtain ⟨type, found⟩ := legible.type ref rfl
  rw [found, around.cell found trivial]

theorem type_eq (legible : base.Legible (.type ref)) : store.type ref = base.type ref := by
  simp only [Store.type, around.type_cell legible]

theorem legible (legible : base.Legible value) : store.Legible value := by
  refine ⟨fun shown looked => around.fits (legible.shown shown ?_), ?_⟩
  · cases looked with
    | self => exact .self _
    | fields ref =>
      rw [around.type_eq legible]
      exact .fields ref
    | methods ref =>
      rw [around.type_eq legible]
      exact .methods ref
    | properties ref =>
      rw [around.type_eq legible]
      exact .properties ref
  · rintro ref rfl
    obtain ⟨type, found⟩ := legible.type ref rfl
    exact ⟨type, (around.type_cell legible).trans found⟩

end Around

end Store

open Store

namespace StoreM

variable {base store later : Store} {table : Ref} {held : Option Ref} {key : String} {value : Value}

theorem shape?_isSome (base store : Store) (value : Value) :
    (store.shape? value).isSome = (base.shape? value).isSome := by
  cases value <;> simp only [Store.shape?, Option.isSome_some, Option.isSome_none]

/-- What tags can be read from does not depend on the properties that were declared meanwhile. -/
theorem givesTags_iff (around : base.Around store table) (legible : base.Legible value) :
    GivesTags held store value ↔ GivesTags held base value := by
  have unheld : Unheld held store value ↔ Unheld held base value := by
    refine forall₄_congr fun other ref same is => ?_
    subst is
    rw [around.type_eq legible]
  rw [GivesTags, GivesTags, unheld, shape?_isSome base store]

theorem legible_tags {source : Ref} {handle : Handle} (firm : base.Firm (.map handle source)) {tags : Value}
    (found : (base.entries source).get? "tags" = some tags) : base.Legible tags :=
  (firm.of_involves (.holds (.contains (.entry handle "tags" found)))).legible

/-- Whether a value is acceptable does not depend on the properties that were declared meanwhile. -/
theorem acceptable_iff (around : base.Around store table) (firm : base.Firm value) :
    Acceptable held store key value ↔ Acceptable held base key value := by
  have describes {handle : Handle} {source : Ref} (is : value = .map handle source) :
      Describes held store (store.entries source) ↔ Describes held base (base.entries source) := by
    subst is
    rw [around.entries_eq firm.grounded.fits]
    have tags {tags : Value} (found : (base.entries source).get? "tags" = some tags) :
        GivesTags held store tags ↔ GivesTags held base tags :=
      givesTags_iff around (legible_tags firm found)
    exact ⟨fun known => ⟨known.getter, known.setter, fun _ found => (tags found).mp (known.tags _ found)⟩,
      fun known => ⟨known.getter, known.setter, fun _ found => (tags found).mpr (known.tags _ found)⟩⟩
  unfold Acceptable
  refine and_congr_right fun _ => ?_
  cases accessorKey? key with
  | some named => exact .rfl
  | none =>
    refine or_congr_right (or_congr_right (exists₂_congr fun handle source => ?_))
    exact and_congr_right fun is => describes is

/-- A declaration changes nothing but properties and their table. -/
theorem Declared.around (declared : Declared store table key later value) (around : base.Around store table)
    (firm : base.Firm value) : base.Around later table := by
  have none {p : Ref → Prop} (ref : Ref) (same : (none : Option Ref) = some ref) : p ref := by cases same
  cases declared with
  | edited reads value found is written relisted =>
    refine around.relisted relisted (fun ref same => ?_) (fun ref same => ?_) fun ref same => ?_
    · cases same
      exact around.known.listed _ _ found
    · cases same
      exact ⟨_, written⟩
    · obtain ⟨rfl, -⟩ := eq_of_listing same
      exact ⟨_, written⟩
  | begun reads value missing is written relisted =>
    refine around.relisted relisted none none fun ref same => ?_
    obtain ⟨rfl, -⟩ := eq_of_listing same
    exact ⟨_, written⟩
  | removed plain relisted => exact around.relisted relisted none none none
  | object plain ref relisted =>
    refine around.relisted relisted none none fun other same => ?_
    cases same
    have found := firm.grounded.fits.property_cell
    obtain ⟨edited, there⟩ := around.properties ref _ found
    exact relisted.property around.known none there
  | mapped plain handle source described fresh written relisted =>
    refine around.relisted relisted none none fun ref same => ?_
    obtain ⟨rfl, full⟩ := eq_of_listing same
    exact ⟨_, written full⟩

/-- Declarations one after the other. -/
inductive DeclaredAll (table : Ref) : Store → List (String × Value) → Store → Prop where
  | nil (store : Store) : DeclaredAll table store [] store
  | cons {store middle later : Store} {key : String} {value : Value} {rest : List (String × Value)}
      (first : Declared store table key middle value) (others : DeclaredAll table middle rest later) :
      DeclaredAll table store ((key, value) :: rest) later

/-- Loading succeeds exactly if each entry is acceptable at the beginning. -/
theorem decides_declareAll (held : Option Ref) (around : base.Around store table)
    (entries : List (String × Value)) (firm : ∀ entry ∈ entries, base.Firm entry.2) :
    Decides store (declareAll held .property table entries)
      (∀ entry ∈ entries, Acceptable held base entry.1 entry.2)
      fun later _ => DeclaredAll table store entries later := by
  induction entries generalizing store with
  | nil => exact .pure (fun _ member => nomatch member) (.nil store)
  | cons entry rest ih =>
    obtain ⟨key, value⟩ := entry
    have own : base.Firm value := firm _ List.mem_cons_self
    have declares : Decides store (declare held .property table key value) (Acceptable held base key value)
        fun later _ => Declared store table key later value := by
      refine (decides_declare held around.known key ?_).congr (acceptable_iff around own)
      rintro handle source rfl tags found
      rw [around.entries_eq own.grounded.fits] at found
      exact around.legible (legible_tags own found)
    have others : ∀ entry ∈ rest, base.Firm entry.2 := fun entry member => firm entry (.tail _ member)
    have decides : Decides store (declareAll held .property table ((key, value) :: rest))
        (Acceptable held base key value ∧ ∀ entry ∈ rest, Acceptable held base entry.1 entry.2)
        fun later _ => DeclaredAll table store ((key, value) :: rest) later :=
      declares.bind fun middle _ declared =>
        (ih (declared.around around own) others).imp fun _ _ all => .cons declared all
    exact decides.congr (by rw [List.forall_mem_cons])

end StoreM

end ScriptMachine
