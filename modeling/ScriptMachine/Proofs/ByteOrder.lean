import ScriptMachine.Table
import Mathlib.Data.Nat.Basic
import Mathlib.Tactic.SplitIfs

/-! The order of texts is the order of their UTF-8 bytes: the encoding of a smaller character is smaller at
the first byte where two encodings differ. So the keys of a table come in the order of their bytes. -/

namespace ScriptMachine

namespace Text

def utf8 (text : String) : List UInt8 := text.toUTF8.data.toList

theorem utf8_eq (text : String) : utf8 text = text.toList.flatMap String.utf8EncodeChar := by
  rw [utf8, String.toUTF8, ← String.utf8Encode_toList, List.utf8Encode]
  simp

section Encoding

variable {first second : Char}

theorem ofNat_cons_lt_ofNat_cons {low high : Nat} {before after : List UInt8} (below : low < 256)
    (beneath : high < 256) :
    UInt8.ofNat low :: before < UInt8.ofNat high :: after ↔ low < high ∨ low = high ∧ before < after := by
  rw [List.cons_lt_cons_iff, UInt8.lt_iff_toNat_lt, ← UInt8.toNat_inj, UInt8.toNat_ofNat', UInt8.toNat_ofNat',
    Nat.mod_eq_of_lt below, Nat.mod_eq_of_lt beneath]

theorem toNat_lt (char : Char) : char.val.toNat < 1114112 := by
  rcases char.valid with low | ⟨-, high⟩
  · exact Nat.lt_trans low (by decide)
  · exact high

/-- Shorter encodings begin with smaller bytes, and encodings of one length hold the digits of the code
point from the highest to the lowest. -/
theorem utf8EncodeChar_append_lt (less : first < second) (before after : List UInt8) :
    String.utf8EncodeChar first ++ before < String.utf8EncodeChar second ++ after := by
  have below : first.val.toNat < second.val.toNat := less
  have bounded := toNat_lt second
  unfold String.utf8EncodeChar
  generalize first.val.toNat = low, second.val.toNat = high at below bounded
  dsimp only
  have digits (number : Nat) : number / 4096 = number / 64 / 64 ∧ number / 262144 = number / 64 / 64 / 64 := by
    simp only [Nat.div_div_eq_div_mul, Nat.reduceMul, and_self]
  simp only [digits]
  split_ifs <;> simp (disch := omega) only [List.cons_append, List.nil_append, ofNat_cons_lt_ofNat_cons] <;>
    omega

end Encoding

theorem flatMap_utf8EncodeChar_lt {first second : List Char} (less : first < second) :
    first.flatMap String.utf8EncodeChar < second.flatMap String.utf8EncodeChar := by
  induction less with
  | @nil char rest =>
    rw [List.flatMap_nil, List.flatMap_cons]
    have some : String.utf8EncodeChar char ≠ [] := String.utf8EncodeChar_ne_nil
    obtain ⟨byte, bytes, is⟩ := List.exists_cons_of_ne_nil some
    rw [is]
    exact .nil
  | rel less => exact utf8EncodeChar_append_lt less _ _
  | cons _ ih => exact List.append_left_lt ih

theorem utf8_lt {first second : String} (less : first < second) : utf8 first < utf8 second := by
  rw [utf8_eq, utf8_eq]
  exact flatMap_utf8EncodeChar_lt less

end Text

/-- The keys of a table stand in the order of their bytes. -/
theorem Table.ascending_keys {α : Type} (table : Table α) :
    table.keys.Pairwise fun first second => Text.utf8 first < Text.utf8 second := by
  refine (Std.ExtTreeMap.ordered_keys (t := table.tree)).imp fun before => ?_
  exact Text.utf8_lt (compareOfLessAndEq_eq_lt.mp before)

end ScriptMachine
