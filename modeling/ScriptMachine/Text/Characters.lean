/-! Characters of a text by their number. Where every character takes one byte the place of a
character is known at once; elsewhere it is counted out from the start. -/

namespace ScriptMachine.Text

/-- The place before the character with an index, the end if there are fewer characters. -/
def position (text : String) (index : Nat) : text.Pos :=
  if text.length = text.utf8ByteSize then
    if valid : String.Pos.Raw.IsValid text ⟨index⟩ then text.pos ⟨index⟩ valid else text.endPos
  else text.startPos.nextn index

def charAt? (text : String) (index : Nat) : Option Char :=
  let place := position text index
  if inside : place ≠ text.endPos then some (place.get inside) else none

/-- The characters from one index to before another. -/
def part (text : String) (first last : Nat) : String :=
  text.extract (position text first) (position text last)

/-- A text takes at least one byte for every character. -/
theorem length_le_utf8ByteSize (characters : List Char) :
    characters.length ≤ (String.ofList characters).utf8ByteSize := by
  induction characters with
  | nil => simp
  | cons first rest ih =>
    have := first.utf8Size_pos
    simp only [String.ofList_cons, String.utf8ByteSize_append, String.utf8ByteSize_singleton,
      List.length_cons]
    omega

/-- In a text of one-byte characters every part in front has one-byte characters. -/
theorem utf8ByteSize_take {text : String} (narrow : text.length = text.utf8ByteSize) (index : Nat) :
    (String.ofList (text.toList.take index)).utf8ByteSize = min index text.length := by
  have whole : text = String.ofList (text.toList.take index) ++ String.ofList (text.toList.drop index) := by
    rw [← String.ofList_append, List.take_append_drop, String.ofList_toList]
  have size := congrArg String.utf8ByteSize whole
  rw [String.utf8ByteSize_append] at size
  have front := length_le_utf8ByteSize (text.toList.take index)
  have back := length_le_utf8ByteSize (text.toList.drop index)
  rw [List.length_take, String.length_toList] at front
  rw [List.length_drop, String.length_toList] at back
  omega

/-- A place is the one that is reached by passing the characters before it. -/
theorem position_eq_nextn (text : String) (index : Nat) :
    position text index = text.startPos.nextn index := by
  unfold position
  split
  next narrow =>
    have offset : (text.startPos.nextn index).offset.byteIdx = min index text.length := by
      rw [(text.splits_nextn_startPos index).offset_eq_rawEndPos, String.byteIdx_rawEndPos,
        utf8ByteSize_take narrow index]
    split
    next valid =>
      have bound : index ≤ text.utf8ByteSize := valid.le_rawEndPos
      apply String.Pos.ext
      apply String.Pos.Raw.ext
      simp only [String.offset_pos, offset]
      omega
    next invalid =>
      apply String.Pos.ext
      apply String.Pos.Raw.ext
      have outside : ¬ index ≤ text.length := by
        intro inside
        have same : (text.startPos.nextn index).offset = ⟨index⟩ := by
          apply String.Pos.Raw.ext
          simp only [offset]
          omega
        exact invalid (same ▸ (text.startPos.nextn index).isValid)
      simp only [String.offset_endPos, String.byteIdx_rawEndPos, offset]
      omega
  next => rfl

theorem charAt?_eq (text : String) (index : Nat) : charAt? text index = text.toList[index]? := by
  have splits := text.splits_nextn_startPos index
  unfold charAt?
  simp only [position_eq_nextn]
  split
  next inside =>
    obtain ⟨rest, after⟩ := splits.exists_eq_singleton_append inside
    have first := congrArg String.toList after
    rw [String.toList_ofList, String.toList_append, String.toList_singleton] at first
    have head := congrArg List.head? first
    simpa [List.head?_drop] using head.symm
  next ended =>
    have empty := splits.eq_endPos_iff.1 (by simpa using ended)
    have none := congrArg String.toList empty
    rw [String.toList_ofList, String.toList_empty] at none
    exact (List.getElem?_eq_none (List.drop_eq_nil_iff.1 none)).symm

theorem charAt?_isSome (text : String) (index : Fin text.length) :
    (charAt? text index).isSome := by
  have inside : index.val < text.toList.length := by
    rw [String.length_toList]
    exact index.isLt
  rw [charAt?_eq, List.getElem?_eq_getElem inside]
  rfl

def charAt (text : String) (index : Fin text.length) : Char :=
  (charAt? text index).get (charAt?_isSome text index)

theorem part_eq (text : String) {first last : Nat} (ordered : first ≤ last) :
    part text first last = String.ofList ((text.toList.drop first).take (last - first)) := by
  have start := (text.splits_nextn_startPos first).offset_eq_rawEndPos
  have stop := (text.splits_nextn_startPos last).offset_eq_rawEndPos
  have front : text.toList.take last =
      text.toList.take first ++ (text.toList.drop first).take (last - first) := by
    rw [← List.take_add, Nat.add_sub_cancel' ordered]
  have whole := (text.splits_nextn_startPos last).eq_append
  rw [front, String.ofList_append] at whole
  rw [front, String.ofList_append] at stop
  rw [← String.toByteArray_inj]
  unfold part
  simp only [position_eq_nextn, String.toByteArray_extract, start, stop, String.byteIdx_rawEndPos,
    String.utf8ByteSize_append]
  generalize String.ofList (text.toList.take first) = before at *
  generalize String.ofList ((text.toList.drop first).take (last - first)) = middle at *
  generalize String.ofList (text.toList.drop last) = after at *
  rw [whole, String.append_assoc, String.toByteArray_append, String.toByteArray_append]
  have apart := @ByteArray.extract_append_size_add before.toByteArray
    (middle.toByteArray ++ after.toByteArray) 0 middle.utf8ByteSize
  rw [Nat.add_zero, String.size_toByteArray] at apart
  rw [apart]
  exact ByteArray.extract_append_eq_left String.size_toByteArray.symm

end ScriptMachine.Text
