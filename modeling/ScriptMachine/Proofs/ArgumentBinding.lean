import ScriptMachine.Proofs.CallSafety
import ScriptMachine.Proofs.TableContents

/-! Binding arguments to parameters. A function takes a call or refuses it for one reason, and a call
that it takes loses no argument and no keyword and invents none. -/

namespace ScriptMachine

namespace FunctionCode

variable {code : FunctionCode} {arguments : Array Value} {keywords : Table Value}

def Declares (code : FunctionCode) (name : String) : Prop := name ∈ code.keywords.map Prod.fst

theorem isNone_keywordIndex?_iff (code : FunctionCode) (name : String) :
    (code.keywordIndex? name).isNone = true ↔ ¬code.Declares name := by
  simp only [keywordIndex?, Option.isNone_iff_eq_none, List.findIdx?_eq_none_iff, Declares,
    List.mem_map, not_exists, not_and, beq_eq_false_iff_ne]

/-- As many arguments as there are positional parameters, or more where they are gathered. -/
def CountFits (code : FunctionCode) (arguments : Array Value) : Prop :=
  if code.variadic then code.arity ≤ arguments.size else arguments.size = code.arity

/-- The function has a place for every argument and for every keyword. -/
structure Accepts (code : FunctionCode) (arguments : Array Value) (keywords : Table Value) : Prop where
  count : code.CountFits arguments
  names : code.catchAll = true ∨ ∀ name ∈ keywords.keys, code.Declares name

/-- Why a function refuses a call. The count of arguments is looked at first; of the keywords without
a place the least one is named, unless the function takes no keywords at all. -/
inductive Refuses (code : FunctionCode) (arguments : Array Value) (keywords : Table Value) :
    Fault → Prop where
  | tooFew (variadic : code.variadic = true) (short : arguments.size < code.arity) :
      Refuses code arguments keywords (.wrongNumArgumentsAtLeast code.arity arguments.size)
  | miscounted (fixed : code.variadic = false) (other : arguments.size ≠ code.arity) :
      Refuses code arguments keywords (.wrongNumArguments code.arity arguments.size)
  | unwanted (count : code.CountFits arguments) (closed : code.catchAll = false)
      (none : code.keywords = []) (name : String) (passed : name ∈ keywords.keys) :
      Refuses code arguments keywords .unexpectedKeywords
  | unknown (count : code.CountFits arguments) (closed : code.catchAll = false)
      (some : code.keywords ≠ []) (name : String) (passed : name ∈ keywords.keys)
      (undeclared : ¬code.Declares name)
      (least : ∀ other ∈ keywords.keys, ¬code.Declares other → name ≤ other) :
      Refuses code arguments keywords (.unexpectedKeyword name)

/-- The value of a keyword parameter: its default, unless the call passes another value than the one
that asks for it. -/
inductive Receives (keywords : Table Value) (name : String) (default : Value) : Value → Prop where
  | absent (missing : keywords.get? name = none) : Receives keywords name default default
  | asked (passed : keywords.get? name = some .useDefault) : Receives keywords name default default
  | passed {value : Value} (given : keywords.get? name = some value) (other : value ≠ .useDefault) :
      Receives keywords name default value

/-- The parameter slots of a call and the store that holds what is gathered in them. -/
structure Bound (code : FunctionCode) (arguments : Array Value) (keywords : Table Value)
    (store : Store) (parameters : Array Value) (after : Store) : Prop where
  size : parameters.size = code.paramSlots
  positional : ∀ index < code.arity, parameters[index]? = arguments[index]?
  gathered : code.variadic = true → ∃ ref, parameters[code.arity]? = some (.array .writable ref) ∧
    store.cells[ref]? = none ∧ after.cells[ref]? = some (.array (arguments.extract code.arity))
  declared : ∀ index name default, code.keywords[index]? = some (name, default) →
    ∃ value, parameters[code.arity + code.variadic.toNat + index]? = some value ∧
      Receives keywords name default value
  caught : code.catchAll = true → ∃ ref rest,
    parameters[code.arity + code.variadic.toNat + code.keywords.length]? = some (.map .writable ref) ∧
      store.cells[ref]? = none ∧ after.cells[ref]? = some (.map rest) ∧
      ∀ name value, rest.get? name = some value ↔
        keywords.get? name = some value ∧ ¬code.Declares name
  made : ∃ cells, after = { store with cells := store.cells ++ cells } ∧
    cells.size = code.variadic.toNat + code.catchAll.toNat

end FunctionCode

namespace StoreM

open FunctionCode

variable {code : FunctionCode} {arguments : Array Value} {keywords : Table Value} {store : Store}

theorem mem_undeclared_iff (code : FunctionCode) (keywords : Table Value) (name : String)
    (value : Value) :
    (undeclared code keywords).get? name = some value ↔
      keywords.get? name = some value ∧ ¬code.Declares name := by
  rw [undeclared, Table.get?_filterKeys]
  by_cases declared : code.Declares name
  · have found : (code.keywordIndex? name).isNone = false := by
      rw [← Bool.not_eq_true, isNone_keywordIndex?_iff]
      exact not_not_intro declared
    simp [found, declared]
  · simp [(isNone_keywordIndex?_iff code name).mpr declared, declared]

theorem mem_keys_undeclared_iff (code : FunctionCode) (keywords : Table Value) (name : String) :
    name ∈ (undeclared code keywords).keys ↔ name ∈ keywords.keys ∧ ¬code.Declares name := by
  simp only [Table.mem_keys_iff, mem_undeclared_iff, exists_and_right]

theorem receives_keywordValue (keywords : Table Value) (name : String) (default : Value) :
    Receives keywords name default (keywordValue keywords name default) := by
  unfold keywordValue
  split
  next missing => exact .absent missing
  next asked => exact .asked asked
  next value other given => exact .passed given other

theorem bindPositional_of_fits (fits : code.CountFits arguments) (store : Store) :
    ∃ parameters cells,
      bindPositional code arguments store =
        .ok parameters { store with cells := store.cells ++ cells } ∧
      parameters.size = code.arity + code.variadic.toNat ∧ cells.size = code.variadic.toNat ∧
      (∀ index < code.arity, parameters[index]? = arguments[index]?) ∧
      (code.variadic = true → parameters[code.arity]? = some (.array .writable store.cells.size) ∧
        cells = #[.array (arguments.extract code.arity)]) := by
  unfold CountFits at fits
  cases gathers : code.variadic with
  | true =>
    rw [gathers, if_pos rfl] at fits
    refine ⟨(arguments.extract 0 code.arity).push (.array .writable store.cells.size),
      #[.array (arguments.extract code.arity)], ?_, ?_, rfl, ?_, ?_⟩
    · simp only [bindPositional, gathers, if_pos, if_neg (Nat.not_lt.mpr fits)]
      rfl
    · simp only [Array.size_push, Array.size_extract, Bool.toNat_true]
      omega
    · intro index inside
      rw [Array.getElem?_push_lt (by simp only [Array.size_extract]; omega), Array.getElem_extract,
        Array.getElem?_eq_getElem (by omega)]
      simp
    · intro _
      refine ⟨?_, rfl⟩
      rw [Array.getElem?_push, if_pos (by simp only [Array.size_extract]; omega)]
  | false =>
    rw [gathers, if_neg Bool.false_ne_true] at fits
    refine ⟨arguments, #[], ?_, by simpa using fits, rfl, fun _ _ => rfl, ?_⟩
    · simp only [bindPositional, gathers, Bool.false_eq_true, if_false, fits, ne_eq, not_true,
        Array.append_empty]
      rfl
    · intro impossible
      cases impossible

theorem refuseUndeclared_of_names (names : ∀ name ∈ keywords.keys, code.Declares name)
    (store : Store) : refuseUndeclared code keywords store = .ok () store := by
  have none : (undeclared code keywords).keys = [] := by
    apply List.eq_nil_iff_forall_not_mem.mpr
    intro name listed
    obtain ⟨passed, undeclared⟩ := (mem_keys_undeclared_iff code keywords name).mp listed
    exact undeclared (names name passed)
  simp only [refuseUndeclared, none]
  rfl

theorem exists_least {name : String} (passed : name ∈ keywords.keys) (absent : ¬code.Declares name) :
    ∃ first ∈ keywords.keys, ¬code.Declares first ∧
      (∀ other ∈ keywords.keys, ¬code.Declares other → first ≤ other) ∧
      ∃ rest, (undeclared code keywords).keys = first :: rest := by
  have listed := (mem_keys_undeclared_iff code keywords name).mpr ⟨passed, absent⟩
  cases keys : (undeclared code keywords).keys with
  | nil =>
    rw [keys] at listed
    cases listed
  | cons first rest =>
    have head : first ∈ (undeclared code keywords).keys := keys ▸ List.mem_cons_self
    obtain ⟨given, other⟩ := (mem_keys_undeclared_iff code keywords first).mp head
    refine ⟨first, given, other, ?_, rest, rfl⟩
    intro later passed absent
    apply Table.head_keys_le _ keys
    exact (mem_keys_undeclared_iff code keywords later).mpr ⟨passed, absent⟩

theorem refuseUndeclared_of_least {name : String} (passed : name ∈ keywords.keys)
    (absent : ¬code.Declares name)
    (least : code.keywords ≠ [] → ∀ other ∈ keywords.keys, ¬code.Declares other → name ≤ other)
    (store : Store) :
    refuseUndeclared code keywords store =
      .error (if code.keywords.isEmpty then .unexpectedKeywords else .unexpectedKeyword name)
        store := by
  obtain ⟨first, given, other, before, rest, keys⟩ := exists_least passed absent
  simp only [refuseUndeclared, keys]
  by_cases none : code.keywords = []
  · rw [none]
    rfl
  · have same : first = name :=
      String.le_antisymm (before name passed absent) (least none first given other)
    rw [same]
    rfl

theorem bindKeywords_of_names
    (names : code.catchAll = true ∨ ∀ name ∈ keywords.keys, code.Declares name) (store : Store) :
    ∃ parameters cells,
      bindKeywords code keywords store =
        .ok parameters { store with cells := store.cells ++ cells } ∧
      parameters.size = code.keywords.length + code.catchAll.toNat ∧
      cells.size = code.catchAll.toNat ∧
      (∀ (index : Nat) name default, code.keywords[index]? = some (name, default) →
        parameters[index]? = some (keywordValue keywords name default)) ∧
      (code.catchAll = true →
        parameters[code.keywords.length]? = some (.map .writable store.cells.size) ∧
          cells = #[.map (undeclared code keywords)]) := by
  have size : (declaredKeywords code keywords).size = code.keywords.length := by
    simp [declaredKeywords]
  have slot (index : Nat) (name : String) (default : Value)
      (found : code.keywords[index]? = some (name, default)) :
      (declaredKeywords code keywords)[index]? = some (keywordValue keywords name default) := by
    simp [declaredKeywords, found]
  cases catches : code.catchAll with
  | true =>
    refine ⟨(declaredKeywords code keywords).push (.map .writable store.cells.size),
      #[.map (undeclared code keywords)], ?_, ?_, rfl, ?_, ?_⟩
    · simp only [bindKeywords, catches, if_pos]
      rfl
    · rw [Array.size_push, size]
      rfl
    · intro index name default found
      have inside : index < code.keywords.length := (List.getElem?_eq_some_iff.mp found).1
      rw [Array.getElem?_push, if_neg (by omega)]
      exact slot index name default found
    · intro _
      refine ⟨?_, rfl⟩
      rw [Array.getElem?_push, if_pos size.symm]
  | false =>
    rw [catches] at names
    refine ⟨declaredKeywords code keywords, #[], ?_, size, rfl, slot, ?_⟩
    · rw [Array.append_empty]
      simp only [bindKeywords, catches, Bool.false_eq_true, if_false]
      rw [bind_of_ok (refuseUndeclared_of_names (names.resolve_left (by simp)) store)]
      rfl
    · intro impossible
      cases impossible

/-- A call that a function accepts is bound: every slot has its value, and what is gathered stands in
new cells that hold all of it. -/
theorem bindArguments_of_accepts (accepts : code.Accepts arguments keywords) (store : Store) :
    ∃ parameters after, bindArguments code arguments keywords store = .ok parameters after ∧
      code.Bound arguments keywords store parameters after := by
  obtain ⟨positional, first, bindsFirst, firstSize, firstMade, fixed, rest⟩ :=
    bindPositional_of_fits accepts.count store
  obtain ⟨keyed, second, bindsSecond, secondSize, secondMade, declared, caught⟩ :=
    bindKeywords_of_names accepts.names { store with cells := store.cells ++ first }
  have binds : bindArguments code arguments keywords store =
      .ok (positional ++ keyed) { store with cells := store.cells ++ first ++ second } := by
    unfold bindArguments
    rw [bind_of_ok bindsFirst, bind_of_ok bindsSecond]
    rfl
  refine ⟨positional ++ keyed, _, binds, ⟨size_bindArguments binds, ?_, ?_, ?_, ?_, ?_⟩⟩
  · intro index inside
    rw [Array.getElem?_append_left (by omega)]
    exact fixed index inside
  · intro variadic
    obtain ⟨slot, made⟩ := rest variadic
    refine ⟨store.cells.size, ?_, by simp, ?_⟩
    · rw [variadic, Bool.toNat_true] at firstSize
      rw [Array.getElem?_append_left (by omega)]
      exact slot
    · rw [made, Array.getElem?_append_left (by simp)]
      simp
  · intro index name default found
    have inside : index < code.keywords.length := (List.getElem?_eq_some_iff.mp found).1
    refine ⟨keywordValue keywords name default, ?_, receives_keywordValue keywords name default⟩
    rw [← firstSize, Array.getElem?_append_right (Nat.le_add_right _ _), Nat.add_sub_cancel_left]
    exact declared index name default found
  · intro catches
    obtain ⟨slot, made⟩ := caught catches
    refine ⟨store.cells.size + first.size, undeclared code keywords, ?_, by simp, ?_,
      mem_undeclared_iff code keywords⟩
    · rw [← firstSize, Array.getElem?_append_right (Nat.le_add_right _ _), Nat.add_sub_cancel_left,
        slot, Array.size_append]
    · simp [made]
  · refine ⟨first ++ second, by rw [Array.append_assoc], ?_⟩
    rw [Array.size_append, firstMade, secondMade]

/-- A call that a function refuses fails for that reason, and no cell that was there changes. -/
theorem bindArguments_of_refuses {fault : Fault} (refuses : code.Refuses arguments keywords fault)
    (store : Store) :
    ∃ cells, bindArguments code arguments keywords store =
      .error fault { store with cells := store.cells ++ cells } := by
  have unplaced (count : code.CountFits arguments) (closed : code.catchAll = false)
      (refused : ∀ store, refuseUndeclared code keywords store = .error fault store) :
      ∃ cells, bindArguments code arguments keywords store =
        .error fault { store with cells := store.cells ++ cells } := by
    obtain ⟨positional, cells, binds, -⟩ := bindPositional_of_fits count store
    refine ⟨cells, ?_⟩
    unfold bindArguments
    rw [bind_of_ok binds]
    apply bind_of_error
    simp only [bindKeywords, closed, Bool.false_eq_true, if_false]
    exact bind_of_error (refused _)
  cases refuses with
  | tooFew variadic short =>
    refine ⟨#[], bind_of_error ?_⟩
    rw [Array.append_empty]
    simp only [bindPositional, variadic, if_pos, if_pos short]
    rfl
  | miscounted fixed other =>
    refine ⟨#[], bind_of_error ?_⟩
    rw [Array.append_empty]
    simp only [bindPositional, fixed, Bool.false_eq_true, if_false, if_pos other]
    rfl
  | unwanted count closed none name passed =>
    apply unplaced count closed
    intro store
    have absent : ¬code.Declares name := by
      rw [Declares, none]
      exact List.not_mem_nil
    rw [refuseUndeclared_of_least passed absent (fun some => absurd none some), none]
    rfl
  | unknown count closed some name passed absent least =>
    apply unplaced count closed
    intro store
    rw [refuseUndeclared_of_least passed absent (fun _ => least), if_neg (by simpa using some)]

theorem accepts_or_refuses (code : FunctionCode) (arguments : Array Value) (keywords : Table Value) :
    code.Accepts arguments keywords ∨ ∃ fault, code.Refuses arguments keywords fault := by
  by_cases count : code.CountFits arguments
  · by_cases names : code.catchAll = true ∨ ∀ name ∈ keywords.keys, code.Declares name
    · exact .inl ⟨count, names⟩
    · rw [not_or, Bool.not_eq_true] at names
      obtain ⟨closed, misplaced⟩ := names
      push Not at misplaced
      obtain ⟨name, passed, absent⟩ := misplaced
      obtain ⟨first, given, other, least, -⟩ := exists_least passed absent
      by_cases none : code.keywords = []
      · exact .inr ⟨_, .unwanted count closed none name passed⟩
      · exact .inr ⟨_, .unknown count closed none first given other least⟩
  · unfold CountFits at count
    split at count
    next variadic => exact .inr ⟨_, .tooFew variadic (Nat.lt_of_not_le count)⟩
    next fixed => exact .inr ⟨_, .miscounted (Bool.not_eq_true _ ▸ fixed) count⟩

end StoreM

end ScriptMachine
