import ScriptMachine.Machine
import Mathlib.Data.Fintype.EquivFin
import Mathlib.Logic.Relation

/-! Which cells are kept alive. The search for a cell is exact: however the references it starts from
are arranged, it finds the cell if and only if a path leads there. So a cell is still there exactly if it
has a holder, and that one has, and so on: back to a reference that is held, or round and round. -/

namespace ScriptMachine

namespace Store

variable {store : Store} {edges : Cell → List Ref} {target ref : Ref}

/-- One step along the edges of a cell. -/
def Leads (store : Store) (edges : Cell → List Ref) (holder held : Ref) : Prop :=
  ∃ cell, store.cells[holder]? = some cell ∧ held ∈ edges cell

theorem Leads.lt {holder held : Ref} (leads : store.Leads edges holder held) :
    holder < store.cells.size := by
  obtain ⟨cell, found, -⟩ := leads
  exact (Array.getElem?_eq_some_iff.mp found).1

theorem mem_flatMap_edges {level : List Ref} :
    ref ∈ level.flatMap (fun holder => (store.cells[holder]?.map edges).getD []) ↔
      ∃ holder ∈ level, store.Leads edges holder ref := by
  rw [List.mem_flatMap]
  refine exists_congr fun holder => and_congr_right fun _ => ?_
  unfold Leads
  cases store.cells[holder]? with
  | none => simp
  | some cell => simp

theorem mem_markNew_snd (seen : Std.HashSet Ref) (added refs : List Ref) :
    ref ∈ (markNew seen added refs).2 ↔ ref ∈ seen ∨ ref ∈ refs := by
  induction refs generalizing seen added with
  | nil => simp [markNew]
  | cons head rest ih =>
    simp only [markNew, Std.HashSet.containsThenInsert_snd, ih, Std.HashSet.mem_insert, beq_iff_eq,
      List.mem_cons]
    grind

theorem mem_markNew_fst (seen : Std.HashSet Ref) (added refs : List Ref) :
    ref ∈ (markNew seen added refs).1 ↔ ref ∈ added ∨ (ref ∈ refs ∧ ref ∉ seen) := by
  induction refs generalizing seen added with
  | nil => simp [markNew]
  | cons head rest ih =>
    simp only [markNew, Std.HashSet.containsThenInsert_fst, Std.HashSet.containsThenInsert_snd, ih,
      Std.HashSet.mem_insert, beq_iff_eq, List.mem_cons]
    by_cases known : head ∈ seen
    · simp only [Std.HashSet.contains_iff_mem.mpr known, if_true]
      grind
    · simp only [← Std.HashSet.contains_iff_mem]
      grind

theorem leads_of_search {fuel : Nat} {level : List Ref} {seen : Std.HashSet Ref}
    (found : store.search edges target fuel level seen = true) :
    ∃ root ∈ level, Relation.TransGen (store.Leads edges) root target := by
  induction fuel generalizing level seen with
  | zero => simp [search] at found
  | succ fuel ih =>
    cases level with
    | nil => simp [search] at found
    | cons first rest =>
      simp only [search, Bool.or_eq_true, List.contains_iff_mem] at found
      rcases found with here | later
      · obtain ⟨holder, inside, leads⟩ := mem_flatMap_edges.mp here
        exact ⟨holder, inside, .single leads⟩
      · obtain ⟨root, fresh, path⟩ := ih later
        rw [mem_markNew_fst] at fresh
        obtain ⟨holder, inside, leads⟩ := mem_flatMap_edges.mp (fresh.resolve_left (by simp)).1
        exact ⟨holder, inside, .head leads path⟩

def unseen (store : Store) (seen : Std.HashSet Ref) : Finset Ref :=
  (Finset.range store.cells.size).filter (· ∉ seen)

theorem card_unseen_lt {seen more : Std.HashSet Ref} (grows : ∀ ref ∈ seen, ref ∈ more)
    (inside : ref < store.cells.size) (before : ref ∉ seen) (after : ref ∈ more) :
    (store.unseen more).card < (store.unseen seen).card := by
  refine Finset.card_lt_card ((Finset.ssubset_iff_of_subset ?_).mpr ⟨ref, ?_, ?_⟩)
  · intro other left
    simp only [unseen, Finset.mem_filter] at left ⊢
    exact ⟨left.1, fun known => left.2 (grows other known)⟩
  · simp [unseen, inside, before]
  · simp [unseen, after]

/-- References that a search from a level has met or will meet: those seen, those that the level leads
to, and all that these lead to. -/
structure Covers (store : Store) (edges : Cell → List Ref) (level : List Ref)
    (seen : Std.HashSet Ref) (met : Ref → Prop) : Prop where
  seen : ∀ ref ∈ seen, met ref
  level : ∀ holder ∈ level, ∀ held, store.Leads edges holder held → met held
  closed : ∀ holder held, met holder → store.Leads edges holder held → met held

/-- What a round of a search adds: the references that its level leads to, unless they were seen
before. -/
structure Round (store : Store) (edges : Cell → List Ref) (level : List Ref) (seen : Std.HashSet Ref)
    (added : List Ref) (more : Std.HashSet Ref) : Prop where
  added_iff : ∀ ref, ref ∈ added ↔ (∃ holder ∈ level, store.Leads edges holder ref) ∧ ref ∉ seen
  more_iff : ∀ ref, ref ∈ more ↔ ref ∈ seen ∨ ∃ holder ∈ level, store.Leads edges holder ref

/-- A search that finds nothing has not found its target in the first round nor after it. -/
theorem round_of_search {fuel : Nat} {first : Ref} {rest : List Ref} {seen : Std.HashSet Ref}
    (missed : store.search edges target (fuel + 1) (first :: rest) seen = false) :
    ∃ added more, store.Round edges (first :: rest) seen added more ∧
      (∀ holder ∈ first :: rest, ¬store.Leads edges holder target) ∧
      store.search edges target fuel added more = false := by
  simp only [search, Bool.or_eq_false_iff] at missed
  obtain ⟨absent, later⟩ := missed
  refine ⟨_, _, ⟨fun ref => ?_, fun ref => ?_⟩, ?_, later⟩
  · rw [mem_markNew_fst, mem_flatMap_edges]
    simp
  · rw [mem_markNew_snd, mem_flatMap_edges]
  · intro holder inside leads
    have here := List.contains_iff_mem.mpr (mem_flatMap_edges.mpr ⟨holder, inside, leads⟩)
    rw [absent] at here
    cases here

section Rounds

variable {level added : List Ref} {seen more : Std.HashSet Ref}

theorem Round.followed (round : store.Round edges level seen added more)
    (followed : ∀ holder ∈ seen, holder ∉ level →
      ∀ held, store.Leads edges holder held → held ∈ seen) :
    ∀ holder ∈ more, holder ∉ added → ∀ held, store.Leads edges holder held → held ∈ more := by
  intro holder inside old held leads
  rw [round.more_iff]
  by_cases current : holder ∈ level
  · exact .inr ⟨holder, current, leads⟩
  · have known : holder ∈ seen := by
      rw [round.added_iff] at old
      rcases (round.more_iff holder).mp inside with before | here
      · exact before
      · exact Classical.not_not.mp fun unknown => old ⟨here, unknown⟩
    exact .inl (followed holder known current held leads)

theorem Round.covers {met : Ref → Prop} (round : store.Round edges level seen added more)
    (covers : store.Covers edges added more met) : store.Covers edges level seen met where
  seen ref old := covers.seen ref ((round.more_iff ref).mpr (.inl old))
  level holder inside held leads :=
    covers.seen held ((round.more_iff held).mpr (.inr ⟨holder, inside, leads⟩))
  closed := covers.closed

theorem Round.fewer (round : store.Round edges level seen added more) (inside : ref ∈ added)
    (small : ref < store.cells.size) : (store.unseen more).card < (store.unseen seen).card := by
  obtain ⟨here, unknown⟩ := (round.added_iff ref).mp inside
  exact card_unseen_lt (fun ref old => (round.more_iff ref).mpr (.inl old)) small unknown
    ((round.more_iff ref).mpr (.inr here))

end Rounds

/-- A search that finds nothing has met all there is to meet. Every round but the last sees a further
cell, so the cells not seen bound the number of rounds. -/
theorem covers_of_search {fuel : Nat} {level : List Ref} {seen : Std.HashSet Ref}
    (enough : (store.unseen seen).card < fuel) (new : target ∉ seen)
    (followed : ∀ holder ∈ seen, holder ∉ level →
      ∀ held, store.Leads edges holder held → held ∈ seen)
    (missed : store.search edges target fuel level seen = false) :
    ∃ met : Ref → Prop, ¬met target ∧ store.Covers edges level seen met := by
  induction fuel generalizing level seen with
  | zero => exact absurd enough (Nat.not_lt_zero _)
  | succ fuel ih =>
    cases level with
    | nil =>
      refine ⟨(· ∈ seen), new, fun _ inside => inside, by simp, ?_⟩
      exact fun holder held inside leads => followed holder inside (by simp) held leads
    | cons first rest =>
      obtain ⟨added, more, round, absent, later⟩ := round_of_search missed
      have unmet : target ∉ more := by
        rw [round.more_iff]
        rintro (old | ⟨holder, inside, leads⟩)
        · exact new old
        · exact absent holder inside leads
      have followed := round.followed followed
      by_cases further : ∃ ref ∈ added, ref < store.cells.size
      · obtain ⟨ref, inside, small⟩ := further
        have fewer := round.fewer inside small
        obtain ⟨met, apart, covers⟩ := ih (by omega) unmet followed later
        exact ⟨met, apart, round.covers covers⟩
      · have last (holder held : Ref) (leads : store.Leads edges holder held) : holder ∉ added :=
          fun inside => further ⟨holder, inside, leads.lt⟩
        refine ⟨(· ∈ more), unmet, round.covers ⟨fun _ inside => inside, ?_, ?_⟩⟩
        · exact fun holder inside held leads => absurd inside (last holder held leads)
        · exact fun holder held inside leads =>
            followed holder inside (last holder held leads) held leads

/-- From what a search has met no path leads out. -/
theorem Covers.reached {level : List Ref} {seen : Std.HashSet Ref} {met : Ref → Prop}
    {holder held : Ref} (covers : store.Covers edges level seen met) (begun : met holder)
    (path : Relation.ReflTransGen (store.Leads edges) holder held) : met held := by
  induction path with
  | refl => exact begun
  | tail _ leads ih => exact covers.closed _ _ ih leads

theorem leads_of_reachesIn {steps : Nat} {start : List Ref}
    (found : store.reachesIn edges steps start target = true) :
    ∃ root ∈ start, Relation.ReflTransGen (store.Leads edges) root target := by
  unfold reachesIn at found
  rw [Bool.or_eq_true, List.contains_iff_mem] at found
  rcases found with here | found
  · exact ⟨target, here, .refl⟩
  · obtain ⟨root, inside, path⟩ := leads_of_search found
    exact ⟨root, inside, path.to_reflTransGen⟩

/-- With all its steps a search is exact. -/
theorem search_allSteps_iff {start : List Ref} :
    store.search edges target store.allSteps start ∅ = true ↔
      ∃ root ∈ start, Relation.TransGen (store.Leads edges) root target := by
  refine ⟨leads_of_search, ?_⟩
  rintro ⟨root, inside, path⟩
  rw [← Bool.not_eq_false]
  intro missed
  have enough : (store.unseen ∅).card < store.allSteps :=
    Nat.lt_succ_of_le ((Finset.card_filter_le _ _).trans (Finset.card_range _).le)
  obtain ⟨met, apart, covers⟩ := covers_of_search enough (by simp) (by simp) missed
  obtain ⟨held, first, later⟩ := Relation.TransGen.head'_iff.mp path
  exact apart (covers.reached (covers.level root inside held first) later)

theorem reachesIn_allSteps_iff {start : List Ref} :
    store.reachesIn edges store.allSteps start target = true ↔
      ∃ root ∈ start, Relation.ReflTransGen (store.Leads edges) root target := by
  unfold reachesIn
  rw [Bool.or_eq_true, List.contains_iff_mem, search_allSteps_iff]
  constructor
  · rintro (here | ⟨root, inside, path⟩)
    · exact ⟨target, here, .refl⟩
    · exact ⟨root, inside, path.to_reflTransGen⟩
  · rintro ⟨root, inside, path⟩
    rcases Relation.reflTransGen_iff_eq_or_transGen.mp path with rfl | further
    · exact .inl inside
    · exact .inr ⟨root, inside, further⟩

/-- One step from a cell to one that it holds and keeps alive. -/
abbrev Owns (store : Store) : Ref → Ref → Prop := store.Leads Cell.refs

theorem circular_iff : store.circular ref = true ↔ Relation.TransGen store.Owns ref ref := by
  unfold circular
  rw [search_allSteps_iff]
  simp

/-- A cell is kept alive by a reference that leads to it, be it near or far, or by a cycle. -/
theorem keeps_iff {near : List Ref} {far : Unit → List Ref} :
    store.keeps near far target = true ↔
      (∃ root ∈ near ++ far (), Relation.ReflTransGen store.Owns root target) ∨
        ∃ ref, Relation.TransGen store.Owns ref ref ∧ Relation.ReflTransGen store.Owns ref target := by
  unfold keeps
  simp only [Bool.or_eq_true, List.any_eq_true, List.mem_range, Bool.and_eq_true,
    reachesIn_allSteps_iff, circular_iff, List.mem_singleton, exists_eq_left]
  constructor
  · rintro ((found | path) | ⟨ref, -, path, cycle⟩)
    · obtain ⟨root, inside, path⟩ := leads_of_reachesIn found
      exact .inl ⟨root, List.mem_append_left _ inside, path⟩
    · exact .inl path
    · exact .inr ⟨ref, cycle, path⟩
  · rintro (path | ⟨ref, cycle, path⟩)
    · exact .inl (.inr path)
    · obtain ⟨held, first, -⟩ := Relation.TransGen.head'_iff.mp cycle
      exact .inr ⟨ref, first.lt, path, cycle⟩

/-- Cells each of which has a holder: one of some references, or another one of these cells. No count of
holders among them drops to nothing, so none of them is dropped. -/
def Upheld (store : Store) (roots : List Ref) (cells : Ref → Prop) : Prop :=
  ∀ ref, cells ref → ref ∈ roots ∨ ∃ holder, cells holder ∧ store.Owns holder ref

theorem upheld_of_roots (roots : List Ref) :
    store.Upheld roots fun ref => ∃ root ∈ roots, Relation.ReflTransGen store.Owns root ref := by
  rintro ref ⟨root, inside, path⟩
  rcases Relation.ReflTransGen.cases_tail path with rfl | ⟨holder, before, owns⟩
  · exact .inl inside
  · exact .inr ⟨holder, ⟨root, inside, before⟩, owns⟩

theorem upheld_of_cycle (roots : List Ref) {start : Ref} (cycle : Relation.TransGen store.Owns start start) :
    store.Upheld roots (Relation.ReflTransGen store.Owns start) := by
  intro ref path
  rcases Relation.ReflTransGen.cases_tail path with rfl | ⟨holder, before, owns⟩
  · obtain ⟨holder, before, owns⟩ := Relation.TransGen.tail'_iff.mp cycle
    exact .inr ⟨holder, before, owns⟩
  · exact .inr ⟨holder, before, owns⟩

/-- Where there are no cycles, going from holder to holder comes to an end. -/
theorem founded_of_acyclic {cells : Ref → Prop}
    (acyclic : ∀ ref, cells ref → ¬Relation.TransGen store.Owns ref ref) :
    WellFounded fun holder held : { ref : Fin store.cells.size // cells ref } =>
      Relation.TransGen store.Owns (holder.1 : Ref) (held.1 : Ref) := by
  have irreflexive : Std.Irrefl fun holder held : { ref : Fin store.cells.size // cells ref } =>
      Relation.TransGen store.Owns (holder.1 : Ref) (held.1 : Ref) :=
    ⟨fun ref => acyclic ref.1 ref.2⟩
  have transitive : IsTrans { ref : Fin store.cells.size // cells ref } fun holder held =>
      Relation.TransGen store.Owns (holder.1 : Ref) (held.1 : Ref) :=
    ⟨fun _ _ _ first second => first.trans second⟩
  exact Finite.wellFounded_of_trans_of_irrefl _

/-- From holder to holder one comes to a reference, or to a cell where one has been before. -/
theorem rooted_or_circular {roots : List Ref} {cells : Ref → Prop} (upheld : store.Upheld roots cells)
    (inside : cells target) :
    (∃ root ∈ roots, Relation.ReflTransGen store.Owns root target) ∨
      ∃ ref, Relation.TransGen store.Owns ref ref ∧ Relation.ReflTransGen store.Owns ref target := by
  by_contra neither
  obtain ⟨unrooted, acyclic⟩ := not_or.mp neither
  let above (ref : Ref) : Prop := cells ref ∧ Relation.ReflTransGen store.Owns ref target
  have further (ref : Ref) (known : above ref) :
      ∃ holder : { ref : Fin store.cells.size // above ref }, store.Owns (holder.1 : Ref) ref := by
    rcases upheld ref known.1 with root | ⟨holder, also, owns⟩
    · exact absurd ⟨ref, root, known.2⟩ unrooted
    · exact ⟨⟨⟨holder, owns.lt⟩, also, .head owns known.2⟩, owns⟩
  have founded := store.founded_of_acyclic fun ref (known : above ref) cycle =>
    acyclic ⟨ref, cycle, known.2⟩
  have none (ref : { ref : Fin store.cells.size // above ref }) : False := by
    induction ref using founded.induction with
    | h ref ih =>
      obtain ⟨holder, owns⟩ := further ref.1 ref.2
      exact ih holder (.single owns)
  obtain ⟨holder, -⟩ := further target ⟨inside, .refl⟩
  exact none holder

/-- A cell is still there exactly if it is one of cells that are upheld. -/
theorem keeps_iff_upheld {near : List Ref} {far : Unit → List Ref} :
    store.keeps near far target = true ↔ ∃ cells, store.Upheld (near ++ far ()) cells ∧ cells target := by
  rw [keeps_iff]
  constructor
  · rintro (path | ⟨ref, cycle, path⟩)
    · exact ⟨_, upheld_of_roots _, path⟩
    · exact ⟨_, upheld_of_cycle _ cycle, path⟩
  · rintro ⟨cells, upheld, inside⟩
    exact rooted_or_circular upheld inside

/-- Only which references there are counts. -/
theorem keeps_congr {near near' : List Ref} {far far' : Unit → List Ref}
    (same : ∀ ref, ref ∈ near ++ far () ↔ ref ∈ near' ++ far' ()) :
    store.keeps near far = store.keeps near' far' := by
  funext target
  rw [Bool.eq_iff_iff, keeps_iff, keeps_iff]
  simp only [same]

end Store

namespace Value

theorem mem_refsOf {values : Array Value} {ref : Ref} :
    ref ∈ refsOf values ↔ ∃ value ∈ values, ref ∈ value.refs := by
  obtain ⟨values⟩ := values
  simp [refsOf]

end Value

/-- The running frame holds nothing that its machine does not hold. -/
theorem Machine.mem_refs_of_mem_nearRefs {machine : Machine} {ref : Ref}
    (near : ref ∈ machine.nearRefs) : ref ∈ machine.refs := by
  unfold Machine.nearRefs at near
  split at near
  · cases near
  next frame callers top =>
    rw [List.mem_append] at near
    rw [Machine.refs, List.mem_append]
    refine near.imp ?_ ?_
    · intro slots
      obtain ⟨value, inside, held⟩ := Value.mem_refsOf.mp slots
      obtain ⟨index, bound, rfl⟩ := Array.mem_extract_iff_getElem.mp inside
      exact Value.mem_refsOf.mpr ⟨_, Array.getElem_mem _, held⟩
    · have calls : machine.calls.frames = frame :: callers := top
      intro given
      rw [CallStack.values, calls, List.flatMap_cons, List.flatMap_append]
      exact List.mem_append_left _ given

end ScriptMachine
