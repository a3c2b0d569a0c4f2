import ScriptMachine.Proofs.DeepCopy

/-! Equality is an equivalence, but for the one number that is not equal to itself. Each law follows from
a relation between values that agrees with itself: equality turned around, or two equalities in a row. -/

namespace ScriptMachine

theorem float_beq_symm {x y : Float} (same : (x == y) = true) : (y == x) = true := by
  obtain ⟨one, other, cases⟩ := Float.beq_iff_ne_nan_and_eq.mp same
  refine Float.beq_iff_ne_nan_and_eq.mpr ⟨other, one, ?_⟩
  rcases cases with same | ⟨plus, minus⟩ | ⟨minus, plus⟩
  · exact .inl same.symm
  · exact .inr (.inr ⟨minus, plus⟩)
  · exact .inr (.inl ⟨plus, minus⟩)

/-- Zeros of both signs are equal, which is why equal numbers need not be the same. -/
theorem float_beq_trans {x y z : Float} (first : (x == y) = true) (second : (y == z) = true) :
    (x == z) = true := by
  obtain ⟨one, -, before⟩ := Float.beq_iff_ne_nan_and_eq.mp first
  obtain ⟨-, other, after⟩ := Float.beq_iff_ne_nan_and_eq.mp second
  refine Float.beq_iff_ne_nan_and_eq.mpr ⟨one, other, ?_⟩
  rcases before with rfl | ⟨plus, minus⟩ | ⟨minus, plus⟩
  · exact after
  · rcases after with rfl | ⟨-, last⟩ | ⟨-, last⟩
    · exact .inr (.inl ⟨plus, minus⟩)
    · exact .inr (.inl ⟨plus, last⟩)
    · exact .inl (plus.trans last.symm)
  · rcases after with rfl | ⟨-, last⟩ | ⟨-, last⟩
    · exact .inr (.inr ⟨minus, plus⟩)
    · exact .inl (minus.trans last.symm)
    · exact .inr (.inr ⟨minus, last⟩)

theorem isNaN_of_beq_self {x : Float} (same : (x == x) = true) : x.isNaN = false := by
  rw [Float.isNaN_eq_decide_eq_nan]
  exact decide_eq_false (Float.beq_iff_ne_nan_and_eq.mp same).1

namespace Value.Matches

open Store

variable {held next both : ContainerKind → Ref → Ref → Prop} {u v w : Value}

theorem symm (turns : ∀ kind first second, held kind first second → both kind second first)
    (matched : v.Matches held w) : w.Matches both v := by
  cases matched with
  | float same => exact .float (float_beq_symm same)
  | array handle other alike => exact .array other handle (turns _ _ _ alike)
  | map handle other alike => exact .map other handle (turns _ _ _ alike)
  | object alike => exact .object (turns _ _ _ alike)
  | _ => constructor

theorem trans (before : ∀ kind first second, held kind first second → both kind first second)
    (after : ∀ kind first second, next kind first second → both kind first second)
    (joins : ∀ kind first middle second, held kind first middle → next kind middle second →
      both kind first second)
    (first : u.Matches held v) (second : v.Matches next w) : u.Matches both w := by
  cases first with
  | float same =>
    cases second with
    | float other => exact .float (float_beq_trans same other)
  | sameArray =>
    cases second with
    | sameArray => constructor
    | array _ _ alike => exact .array _ _ (after _ _ _ alike)
  | array _ _ alike =>
    cases second with
    | sameArray => exact .array _ _ (before _ _ _ alike)
    | array _ _ other => exact .array _ _ (joins _ _ _ _ alike other)
  | sameMap =>
    cases second with
    | sameMap => constructor
    | map _ _ alike => exact .map _ _ (after _ _ _ alike)
  | map _ _ alike =>
    cases second with
    | sameMap => exact .map _ _ (before _ _ _ alike)
    | map _ _ other => exact .map _ _ (joins _ _ _ _ alike other)
  | sameObject =>
    cases second with
    | sameObject => constructor
    | object alike => exact .object (after _ _ _ alike)
  | object alike =>
    cases second with
    | sameObject => exact .object (before _ _ _ alike)
    | object other => exact .object (joins _ _ _ _ alike other)
  | _ =>
    cases second
    constructor

end Value.Matches

namespace Store

variable {store : Store} {related next both : Value → Value → Prop} {kind : ContainerKind}
  {first middle second : Ref}

theorem forall₂_comp {α : Type} {first middle last : List α} {before after both : α → α → Prop}
    (joins : ∀ a b c, before a b → after b c → both a c) (one : List.Forall₂ before first middle)
    (other : List.Forall₂ after middle last) : List.Forall₂ both first last := by
  induction one generalizing last with
  | nil =>
    cases other
    exact .nil
  | cons head rest ih =>
    cases other with
    | cons second others => exact .cons (joins _ _ _ head second) (ih others)

theorem HoldAlike.symm (turns : ∀ v w, related v w → both w v)
    (alike : store.HoldAlike related kind first second) : store.HoldAlike both kind second first := by
  cases kind with
  | array => exact List.Forall₂.flip (alike.imp turns)
  | map => exact Table.Agree.flip alike fun _ _ _ _ => turns _ _
  | object => exact ⟨alike.1.symm, alike.2.flip fun _ _ _ _ => turns _ _⟩

theorem HoldAlike.trans (joins : ∀ u v w, related u v → next v w → both u w)
    (one : store.HoldAlike related kind first middle) (other : store.HoldAlike next kind middle second) :
    store.HoldAlike both kind first second := by
  cases kind with
  | array => exact forall₂_comp joins one other
  | map => exact Table.Agree.trans one other joins
  | object => exact ⟨one.1.trans other.1, one.2.trans other.2 joins⟩

section Laws

theorem equal_of_related (closed : ∀ v w, related v w → store.Agrees related v w) {v w : Value}
    (holds : related v w) : store.equal v w = true :=
  equalVisiting_of_related (fun _ entries => .refl entries) closed holds

theorem agrees_of_equal {v w : Value} (equal : store.equal v w = true) :
    store.Agrees (fun v w => store.equal v w = true) v w := by
  obtain ⟨related, closed, holds⟩ := exists_related_of_equalVisiting (fun _ entries => .refl entries) equal
  refine Value.Matches.mono (fun _ _ _ => HoldAlike.mono fun v w => ?_) (closed v w holds)
  exact equal_of_related closed

theorem equal_symm {v w : Value} (equal : store.equal v w = true) : store.equal w v = true := by
  have closed (v w : Value) (turned : store.equal w v = true) :
      store.Agrees (fun v w => store.equal w v = true) v w :=
    (agrees_of_equal turned).symm fun _ _ _ => HoldAlike.symm fun _ _ => id
  exact equal_of_related closed equal

/-- Two equalities in a row relate what containers hold in the same way, or by one of the two alone
where a container is compared with itself. -/
theorem equal_trans {u v w : Value} (one : store.equal u v = true) (other : store.equal v w = true) :
    store.equal u w = true := by
  let linked (u w : Value) : Prop :=
    store.equal u w = true ∨ ∃ v, store.equal u v = true ∧ store.equal v w = true
  have direct (kind : ContainerKind) (first second : Ref)
      (alike : store.HoldAlike (fun v w => store.equal v w = true) kind first second) :
      store.HoldAlike linked kind first second := alike.mono fun _ _ => .inl
  have closed (u w : Value) (holds : linked u w) : store.Agrees linked u w := by
    rcases holds with equal | ⟨v, one, other⟩
    · exact (agrees_of_equal equal).mono direct
    · refine (agrees_of_equal one).trans direct direct (fun kind first middle second => ?_)
        (agrees_of_equal other)
      exact HoldAlike.trans fun _ _ _ one other => .inr ⟨_, one, other⟩
  exact equal_of_related closed (.inr ⟨v, one, other⟩)

theorem equal_self_iff {v : Value} : store.equal v v = true ↔ ∀ x, v = .float x → x.isNaN = false := by
  constructor
  · rintro equal x rfl
    cases agrees_of_equal equal with
    | float same => exact isNaN_of_beq_self same
  · intro proper
    have closed (u w : Value) (same : u = v ∧ w = v) : store.Agrees (fun u w => u = v ∧ w = v) u w := by
      obtain ⟨rfl, rfl⟩ := same
      cases w with
      | float x => exact .float (float_beq_self (proper x rfl))
      | _ => constructor
    exact equal_of_related closed ⟨rfl, rfl⟩

/-- Equality is symmetric and transitive, and every value is equal to itself but for a float that is no
number. -/
theorem equal_isEquivalence (store : Store) :
    (∀ v w, store.equal v w = store.equal w v) ∧
    (∀ u v w, store.equal u v = true → store.equal v w = true → store.equal u w = true) ∧
    ∀ v, store.equal v v = true ↔ ∀ x, v = .float x → x.isNaN = false := by
  refine ⟨fun v w => ?_, fun u v w => equal_trans, fun v => equal_self_iff⟩
  rw [Bool.eq_iff_iff]
  exact ⟨equal_symm, equal_symm⟩

/-- Three arrays that come back to themselves, after one, two and three steps. -/
def threeCycles : Store where
  cells := #[.array #[.array .writable 0],
    .array #[.array .writable 2], .array #[.array .frozen 1],
    .array #[.array .writable 4], .array #[.array .frozen 5], .array #[.array .writable 3]]

theorem equal_isEquivalence_threeCycles :
    threeCycles.equal (.array .writable 0) (.array .writable 1) = true ∧
    threeCycles.equal (.array .writable 1) (.array .writable 3) = true ∧
    threeCycles.equal (.array .writable 0) (.array .writable 3) = true := by
  let cyclic (v w : Value) : Prop :=
    ∃ handle other, ∃ first < 6, ∃ second < 6, v = .array handle first ∧ w = .array other second
  have closed (v w : Value) (holds : cyclic v w) : threeCycles.Agrees cyclic v w := by
    have onward : ∀ ref < 6, ∃ handle, ∃ next < 6,
        (threeCycles.elements ref).toList = [.array handle next] := by
      intro ref small
      interval_cases ref <;> exact ⟨_, _, by decide, rfl⟩
    obtain ⟨handle, other, first, one, second, two, rfl, rfl⟩ := holds
    obtain ⟨held, next, below, first⟩ := onward first one
    obtain ⟨held', next', below', second⟩ := onward second two
    refine .array handle other ?_
    simp only [HoldAlike, first, second]
    exact .cons ⟨held, held', next, below, next', below', rfl, rfl⟩ .nil
  have once : threeCycles.equal (.array .writable 0) (.array .writable 1) = true :=
    equal_of_related closed ⟨_, _, 0, by decide, 1, by decide, rfl, rfl⟩
  have again : threeCycles.equal (.array .writable 1) (.array .writable 3) = true :=
    equal_of_related closed ⟨_, _, 1, by decide, 3, by decide, rfl, rfl⟩
  obtain ⟨-, transitive, -⟩ := equal_isEquivalence threeCycles
  exact ⟨once, again, transitive _ _ _ once again⟩

end Laws

end Store

end ScriptMachine
