import ScriptMachine.Proofs.DeclaredMembers
import ScriptMachine.Proofs.MemberForms

/-! Tables of fields and methods survive their mapping form: a deep mapping gives a copy of the table
that shares nothing with it, a shallow one a table of the same members. -/

namespace ScriptMachine

open Store StoreM

variable {base store later : Store} {kind : MemberKind} {table member : Ref} {name : String}

/-- A member of a table that can be declared there, grounded and not itself the table. -/
structure Listable (kind : MemberKind) (store : Store) (table : Ref) (name : String) (member : Ref) :
    Prop where
  apart : member ≠ table
  grounded : store.Grounded (.member kind member)
  declarable : ∃ cell, store.cells[member]? = some cell ∧ Declarable kind name cell

/-- A table all of whose members can be declared in it. -/
def Listing (kind : MemberKind) (store : Store) (table : Ref) : Prop :=
  ∃ members, store.cells[table]? = some (.members kind members) ∧
    ∀ name member, members.get? name = some member → Listable kind store table name member

/-- A value from which members can be made: firm, and, as a method, one that holds what can serve as
one. -/
structure Giving (store : Store) (value : Value) : Prop where
  firm : store.Firm value
  serves : ∀ ref, value = .member .method ref → (store.entry ref).value.isMethodConvertible = true

theorem Giving.lasting {value : Value} (giving : Giving store value) (kept : store.Kept later) :
    Giving later value := by
  refine ⟨kept.firm giving.firm, ?_⟩
  rintro ref rfl
  have serves := giving.serves ref rfl
  rwa [Store.entry_eq (kept ref _ (giving.firm.grounded.fits.entry_cell nofun))]

/-- Further cells change nothing about a table. -/
theorem Listing.lasting (listing : Listing kind store table) (kept : store.Kept later) :
    Listing kind later table := by
  obtain ⟨members, found, each⟩ := listing
  refine ⟨members, kept table _ found, fun name member listed => ?_⟩
  obtain ⟨apart, grounded, cell, there, declarable⟩ := each name member listed
  exact ⟨apart, kept.grounded grounded, cell, kept member cell there, declarable⟩

theorem Listing.insert (listing : Listing kind store table)
    (listable : Listable kind store table name member) :
    Listing kind (store.changeMembers table (·.insert name member)) table := by
  obtain ⟨members, found, each⟩ := listing
  refine ⟨members.insert name member, getElem?_changeMembers_self found, ?_⟩
  have still {label : String} {ref : Ref} (known : Listable kind store table label ref) :
      Listable kind (store.changeMembers table (·.insert name member)) table label ref := by
    obtain ⟨apart, grounded, cell, there, declarable⟩ := known
    refine ⟨apart, grounded.insertMember found listable.grounded, cell, ?_, declarable⟩
    rw [getElem?_changeMembers_of_ne apart]
    exact there
  intro label ref there
  rw [Table.get?_insert] at there
  split at there
  next same =>
    cases there
    cases same
    exact still listable
  · exact still (each label ref there)

theorem Listable.of_declared (plain : kind ≠ .property) (named : name ≠ "") {value : Value}
    (giving : Giving store value) (found : ∃ members, store.cells[table]? = some (.members kind members))
    (declared : value = .member kind member ∨ ∃ entry, store.cells[member]? = some (.entry entry) ∧
      (kind = .method → entry.value.isMethodConvertible = true) ∧ store.Grounded entry.value ∧
      entry.tags.All store.Grounded) : Listable kind store table name member := by
  obtain ⟨members, found⟩ := found
  obtain ⟨entry, cell, serves, grounded⟩ : ∃ entry, store.cells[member]? = some (.entry entry) ∧
      (kind = .method → entry.value.isMethodConvertible = true) ∧
        store.Grounded (.member kind member) := by
    rcases declared with rfl | ⟨entry, cell, serves, value, tags⟩
    · have grounded := giving.firm.grounded
      refine ⟨_, grounded.fits.entry_cell plain, ?_, grounded⟩
      rintro rfl
      exact giving.serves member rfl
    · refine ⟨entry, cell, serves, .of_each (.member plain entry cell) fun held holds => ?_⟩
      have view : store.entry member = entry := Store.entry_eq cell
      cases holds with
      | contains inside => cases inside
      | declared => exact view ▸ value
      | tag _ label there => exact tags label held (view ▸ there)
      | getter | setter | propertyTag => exact absurd rfl plain
  refine ⟨?_, grounded, .entry entry, cell, ?_⟩
  · rintro rfl
    cases cell.symm.trans found
  · cases kind with
    | field => exact .field named entry
    | method => exact .method named (serves rfl)
    | property => exact absurd rfl plain

theorem listing_declare (plain : kind ≠ .property) {value : Value} (giving : Giving store value)
    (listing : Listing kind store table)
    (run : (declare none kind table name value).run store = .ok () later) :
    ∃ middle member, store.Kept middle ∧ later = middle.changeMembers table (·.insert name member) ∧
      Listing kind later table := by
  have maps : ∀ (store : Store) (entries : Table Value), True → True := fun _ _ _ => trivial
  have entries : ∀ (store : Store) (entry : Entry), True → True := fun _ _ _ => trivial
  have named : name ≠ "" := by
    rintro rfl
    cases run
  have inserted {act : StoreM Ref} (same : (declare none kind table name value).run store =
      (act >>= insertMember table name).run store)
      (makes : Builds True (fun _ => True) store act fun middle member =>
        value = .member kind member ∨ ∃ entry, middle.cells[member]? = some (.entry entry) ∧
          (kind = .method → entry.value.isMethodConvertible = true) ∧ middle.Grounded entry.value ∧
          entry.tags.All middle.Grounded) :
      ∃ middle member, store.Kept middle ∧ later = middle.changeMembers table (·.insert name member) ∧
        Listing kind later table := by
    rw [same] at run
    obtain ⟨member, middle, ran, ends⟩ := bind_eq_ok run
    obtain ⟨kept, -, declared⟩ := makes.of_ok (.refl store) trivial ran
    cases ends
    have still := listing.lasting kept
    obtain ⟨members, found, -⟩ := still
    refine ⟨middle, member, kept, rfl, (listing.lasting kept).insert ?_⟩
    exact .of_declared plain named (giving.lasting kept) ⟨members, found⟩ declared
  cases kind with
  | field =>
    refine inserted ?_ (builds_declareField (mappable_firm maps) entries none giving.firm)
    simp [declare, named]
  | method =>
    refine inserted ?_ (builds_declareMethod (mappable_firm maps) entries none giving.firm)
    simp [declare, named]
  | property => exact absurd rfl plain

theorem listing_declareAll (plain : kind ≠ .property) (above : base.cells.size ≤ table)
    {list : List (String × Value)} (giving : ∀ entry ∈ list, Giving base entry.2)
    (kept : base.Kept store) (listing : Listing kind store table)
    (run : (declareAll none kind table list).run store = .ok () later) :
    base.Kept later ∧ Listing kind later table := by
  induction list generalizing store with
  | nil =>
    cases run
    exact ⟨kept, listing⟩
  | cons entry rest ih =>
    obtain ⟨_, next, ran, others⟩ := bind_eq_ok run
    have given := (giving entry List.mem_cons_self).lasting kept
    obtain ⟨middle, member, since, rfl, listed⟩ := listing_declare plain given listing ran
    refine ih (fun other inside => giving other (List.mem_cons_of_mem _ inside)) ?_ listed others
    exact (kept.trans since).changeMembers above

theorem listing_membersFrom (plain : kind ≠ .property) {mapping : Table Value}
    (giving : mapping.All (Giving base))
    (run : (membersFrom kind mapping).run base = .ok table later) :
    base.Kept later ∧ Listing kind later table := by
  obtain ⟨new, start, made, rest⟩ := bind_eq_ok run
  cases made
  obtain ⟨_, last, ran, ends⟩ := bind_eq_ok rest
  cases ends
  refine listing_declareAll plain (Nat.le_refl _) giving.entries (.push base (.members kind ∅)) ?_ ran
  refine ⟨∅, Array.getElem?_push_size, fun name member listed => ?_⟩
  cases (Table.get?_empty name).symm.trans listed

/-- An entry that is the copy of another: the copy of its value, and of the tags under each key. -/
structure CopiedEntry (base later : Store) (original copied : Entry) : Prop where
  value : base.DeepCopy later original.value copied.value
  tags : base.DeepCopies later original.tags copied.tags
  keys : ∀ key, key ∈ original.tags.keys ↔ key ∈ copied.tags.keys

/-- A table of fields or methods that is another one over again: entries of the same names that are
copies, and no cell in common. -/
structure RebuiltTable (kind : MemberKind) (base later : Store) (table copied : Ref) : Prop where
  kept : base.Kept later
  entries : Table.Agree (fun original twin =>
    CopiedEntry base later (base.entry original) (later.entry twin)) (base.members table)
      (later.members copied)
  apart : ∀ held other ref, later.Reaches (.members kind table) held →
    later.Reaches (.members kind copied) other → later.Occupies other ref → ¬later.Occupies held ref

/-- A copied entry is built of cells that were not there. -/
theorem since_member (plain : kind ≠ .property) {twin : Ref} (grounded : base.Grounded (.member kind member))
    {cell contents : Cell} (found : base.cells[member]? = some cell) (low : base.cells.size ≤ twin)
    (made : later.cells[twin]? = some contents) (copy : MemberCopy base later cell contents) :
    later.Since base.cells.size (.member kind twin) ∧
      CopiedEntry base later (base.entry member) (later.entry twin) := by
  cases copy with
  | @entry entry copied value tags =>
    have view : base.entry member = entry := Store.entry_eq found
    have twinned : later.entry twin = copied := Store.entry_eq made
    have tagged : entry.tags.All base.Grounded := fun name tag there =>
      grounded.of_holds (.tag plain name (view ▸ there))
    have labels := tags.since tagged
    rw [view, twinned]
    refine ⟨.of_holds (.member plain copied made) ?_ ?_, value, tags, labels.keys⟩
    · intro ref occupies
      cases occupies
      exact low
    · intro held holds
      cases holds with
      | contains inside => cases inside
      | declared =>
        rw [twinned]
        exact value.since (view ▸ grounded.of_holds (.declared plain member))
      | tag _ name there =>
        rw [twinned] at there
        obtain ⟨origin, -, since⟩ := labels.origin there
        exact since
      | getter | setter | propertyTag => exact absurd rfl plain
  | property =>
    cases (grounded.fits.entry_cell plain).symm.trans found

/-- A table of fields or methods that was loaded from a mapping can be loaded from its own mappings.
From the deep one come copies of its entries, from the shallow one the entries themselves. -/
theorem StoreM.members_survive_mapping (plain : kind ≠ .property) {mapping : Table Value}
    {start loaded : Store} (giving : mapping.All (Giving start))
    (load : (membersFrom kind mapping).run start = .ok table loaded) :
    (∃ form mapped copied later, (membersMapping true kind table).run loaded = .ok form mapped ∧
      (membersFrom kind form).run mapped = .ok copied later ∧
      RebuiltTable kind loaded later table copied) ∧
    ∃ form mapped shared later, (membersMapping false kind table).run loaded = .ok form mapped ∧
      (membersFrom kind form).run mapped = .ok shared later ∧ loaded.Kept later ∧
      later.members shared = loaded.members table := by
  obtain ⟨-, members, found, each⟩ := listing_membersFrom plain giving load
  have view : loaded.members table = members := Store.members_eq found
  have declarable := fun name member listed => (each name member listed).declarable
  have grounded : loaded.Grounded (.members kind table) := by
    refine .of_each (.members kind members found) fun held holds => ?_
    cases holds with
    | contains inside => cases inside
    | listed _ name there => exact (each name _ (view ▸ there)).grounded
  refine ⟨?_, ?_⟩
  · obtain ⟨form, mapped, copied, later, twins, run, ran, kept, low, made, agree⟩ :=
      members_copied found grounded declarable
    have twinned : later.members copied = twins := Store.members_eq made
    have entries {name : String} {member twin : Ref} (listed : members.get? name = some member)
        (there : twins.get? name = some twin) :
        later.Since loaded.cells.size (.member kind twin) ∧
          CopiedEntry loaded later (loaded.entry member) (later.entry twin) := by
      obtain ⟨above, cell, contents, before, after, copy⟩ := agree.values name member twin listed there
      exact since_member plain (each name member listed).grounded before above after copy
    refine ⟨form, mapped, copied, later, run, ran, kept, ?_, ?_⟩
    · rw [view, twinned]
      exact ⟨agree.keys, fun name member twin listed there => (entries listed there).2⟩
    · have since : later.Since loaded.cells.size (.members kind copied) := by
        refine .of_holds (.members kind twins made) ?_ ?_
        · intro ref occupies
          cases occupies
          exact low
        · intro held holds
          cases holds with
          | contains inside => cases inside
          | listed _ name there =>
            rw [twinned] at there
            obtain ⟨member, listed, -⟩ := agree.origin there
            exact (entries listed there).1
      intro held other ref before after occupies
      exact since.apart kept grounded after before occupies
  · obtain ⟨form, mapped, shared, later, run, ran, kept, made⟩ := members_shared found declarable
    refine ⟨form, mapped, shared, later, run, ran, kept, ?_⟩
    rw [view, Store.members, made]

/-- A mapping of one field, with an array for its value and a tag. -/
def measured : Store where
  cells := #[.array #[.int 1],
    .map ((Table.empty.insert "value" (.array .writable 0)).insert "tags" (.map .writable 2)),
    .map (Table.empty.insert "unit" (.string "cm"))]

theorem measured_giving : Giving measured (.map .writable 1) := by
  let known (value : Value) : Prop := value = .map .writable 1 ∨ value = .map .writable 2 ∨
    value = .array .writable 0 ∨ value = .int 1 ∨ value = .string "cm"
  refine ⟨.of_closed known ?_ ?_ (.inl rfl), fun _ same => nomatch same⟩
  · intro value member
    refine ⟨?_, ?_⟩
    · rcases member with rfl | rfl | rfl | rfl | rfl
      · exact .map _ _ rfl
      · exact .map _ _ rfl
      · exact .array _ _ rfl
      · exact .other fun _ occupies => by cases occupies
      · exact .other fun _ occupies => by cases occupies
    · rintro ref rfl
      simp [known] at member
  · intro holder held member involves
    have inside : measured.Contains holder held := by
      rcases member with rfl | rfl | rfl | rfl | rfl <;> cases involves with
      | holds holds =>
        cases holds with
        | contains inside => exact inside
    cases inside with
    | element handle there =>
      obtain ⟨rfl, rfl⟩ : handle = .writable ∧ _ = 0 := by simpa [known] using member
      simp [measured, Store.elements] at there
      exact .inr (.inr (.inr (.inl there)))
    | @entry handle ref key held found =>
      obtain ⟨rfl, rfl | rfl⟩ : handle = .writable ∧ (ref = 1 ∨ ref = 2) := by
        simpa [known, ← and_or_left] using member
      · simp [measured, Store.entries] at found
        split at found
        · cases found
          exact .inr (.inl rfl)
        · simp at found
          exact .inr (.inr (.inl found.2.symm))
      · simp [measured, Store.entries] at found
        exact .inr (.inr (.inr (.inr found.2.symm)))
    | field => simp [known] at member

theorem StoreM.members_survive_mapping_measured :
    (Table.empty.insert "length" (.map .writable 1)).All (Giving measured) ∧ ∃ loaded,
    (membersFrom .field (Table.empty.insert "length" (.map .writable 1))).run measured = .ok 3 loaded ∧
    (∃ form mapped copied later, (membersMapping true .field 3).run loaded = .ok form mapped ∧
      (membersFrom .field form).run mapped = .ok copied later ∧
      RebuiltTable .field loaded later 3 copied) ∧
    ∃ form mapped shared later, (membersMapping false .field 3).run loaded = .ok form mapped ∧
      (membersFrom .field form).run mapped = .ok shared later ∧ loaded.Kept later ∧
      later.members shared = loaded.members 3 := by
  have giving := Table.All.empty.insert "length" measured_giving
  exact ⟨giving, _, rfl, members_survive_mapping (by decide) giving rfl⟩

end ScriptMachine
