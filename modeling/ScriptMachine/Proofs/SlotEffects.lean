import ScriptMachine.Machine.Binding

/-! What filling, emptying and loading a range of slots does to the stack: its size stays, and every
slot is either in the range or as before. -/

namespace ScriptMachine.Machine

@[simp] theorem size_fillSlots (stack : Array Value) (index : Nat) (values : List Value) :
    (fillSlots stack index values).size = stack.size := by
  induction values generalizing stack index with
  | nil => rfl
  | cons value rest ih => simp [fillSlots, ih]

@[simp] theorem size_clearSlots (stack : Array Value) (index count : Nat) :
    (clearSlots stack index count).size = stack.size := by
  induction count generalizing stack index with
  | zero => rfl
  | succ count ih => simp [clearSlots, ih]

@[simp] theorem size_loadSlots (stack : Array Value) (base stop : Nat) (parameters : Array Value) :
    (loadSlots stack base stop parameters).size = stack.size := by
  simp [loadSlots]

theorem getElem?_fillSlots (stack : Array Value) (index : Nat) (values : List Value) (slot : Nat)
    (inside : slot < stack.size) :
    (fillSlots stack index values)[slot]? =
      if index ≤ slot ∧ slot < index + values.length then values[slot - index]? else stack[slot]? := by
  induction values generalizing stack index with
  | nil =>
    rw [if_neg (by simp)]
    rfl
  | cons value rest ih =>
    simp only [fillSlots]
    rw [ih _ _ (by simpa using inside), Array.getElem?_setIfInBounds]
    by_cases first : index = slot
    · subst slot
      rw [if_neg (by omega), if_pos rfl, if_pos inside, if_pos (by simp), Nat.sub_self]
      rfl
    · by_cases later : index + 1 ≤ slot ∧ slot < index + 1 + rest.length
      · have shift : slot - index = slot - (index + 1) + 1 := by omega
        rw [if_pos later, if_pos (by simp only [List.length_cons]; omega), shift,
          List.getElem?_cons_succ]
      · rw [if_neg later, if_neg first, if_neg (by simp only [List.length_cons]; omega)]

theorem getElem?_clearSlots (stack : Array Value) (index count slot : Nat)
    (inside : slot < stack.size) :
    (clearSlots stack index count)[slot]? =
      if index ≤ slot ∧ slot < index + count then some .undefined else stack[slot]? := by
  induction count generalizing stack index with
  | zero =>
    rw [if_neg (by omega)]
    rfl
  | succ count ih =>
    simp only [clearSlots]
    rw [ih _ _ (by simpa using inside), Array.getElem?_setIfInBounds]
    by_cases first : index = slot
    · subst slot
      rw [if_neg (by omega), if_pos rfl, if_pos inside, if_pos (by omega)]
    · by_cases later : index + 1 ≤ slot ∧ slot < index + 1 + count
      · rw [if_pos later, if_pos (by omega)]
      · rw [if_neg later, if_neg first, if_neg (by omega)]

theorem getElem?_loadSlots (stack : Array Value) (base stop : Nat) (parameters : Array Value)
    (slot : Nat) (inside : slot < stack.size) :
    (loadSlots stack base stop parameters)[slot]? =
      if base ≤ slot ∧ slot < base + parameters.size then parameters[slot - base]?
      else if base ≤ slot ∧ slot < stop then some .undefined
      else stack[slot]? := by
  simp only [loadSlots]
  rw [getElem?_clearSlots _ _ _ _ (by simpa using inside), getElem?_fillSlots _ _ _ _ inside]
  simp only [Array.length_toList, Array.getElem?_toList]
  by_cases parameter : base ≤ slot ∧ slot < base + parameters.size
  · rw [if_neg (by omega), if_pos parameter, if_pos parameter]
  · rw [if_neg parameter, if_neg parameter]
    by_cases emptied : base ≤ slot ∧ slot < stop
    · rw [if_pos (by omega), if_pos emptied]
    · rw [if_neg (by omega), if_neg emptied]

theorem getElem?_loadSlots_below (stack : Array Value) (base stop : Nat) (parameters : Array Value)
    (slot : Nat) (below : slot < base) :
    (loadSlots stack base stop parameters)[slot]? = stack[slot]? := by
  by_cases inside : slot < stack.size
  · rw [getElem?_loadSlots _ _ _ _ _ inside, if_neg (by omega), if_neg (by omega)]
  · rw [Array.getElem?_eq_none (by simpa using inside), Array.getElem?_eq_none (by simpa using inside)]

end ScriptMachine.Machine
