import ScriptMachine.Source
import ScriptMachine.Proofs.ByteOrder
import Mathlib.Data.List.Forall2
import Mathlib.Data.List.Induction
import Mathlib.Data.List.TakeDrop
import Mathlib.Data.List.TakeWhile

/-! Positions in source files. The files of a set share one space of positions, each has a stretch of it for
itself, and every position of a file leads back to the offset it stands for: to the line that the offset is
in and to how far it is from where that line begins. -/

namespace ScriptMachine

namespace Text

/-- The line of an offset begins at `start`: where the text does or right behind a newline, and with no
newline from there to the offset. -/
structure BeginsLine (bytes : List UInt8) (offset start : Nat) : Prop where
  before : start ≤ offset
  first : start = 0 ∨ ∃ newline, start = newline + 1 ∧ bytes[newline]? = some 10
  unbroken : ∀ index, start ≤ index → index < offset → bytes[index]? ≠ some 10

variable {bytes : List UInt8} {offset start other : Nat}

theorem BeginsLine.le_of_begins (begins : BeginsLine bytes offset start)
    (again : BeginsLine bytes offset other) : start ≤ other := by
  rcases begins.first with rfl | ⟨newline, rfl, found⟩
  · exact Nat.zero_le other
  · by_contra later
    exact again.unbroken newline (by omega) begins.before found

theorem BeginsLine.unique (begins : BeginsLine bytes offset start)
    (again : BeginsLine bytes offset other) : start = other :=
  Nat.le_antisymm (begins.le_of_begins again) (again.le_of_begins begins)

end Text

namespace SourceFile

variable {bytes : List UInt8} {offset : Nat}

theorem afterNewlines_append (base : Nat) (first second : List UInt8) :
    afterNewlines base (first ++ second) =
      afterNewlines base first ++ afterNewlines (base + first.length) second := by
  induction first generalizing base with
  | nil => rfl
  | cons byte rest ih =>
    rw [List.cons_append, afterNewlines, afterNewlines, ih, List.length_cons, Nat.add_right_comm]
    split
    · rfl
    · rfl

theorem bounds_of_mem_afterNewlines {base start : Nat} (member : start ∈ afterNewlines base bytes) :
    base < start ∧ start ≤ base + bytes.length := by
  induction bytes generalizing base with
  | nil => cases member
  | cons byte rest ih => grind [afterNewlines]

theorem length_afterNewlines (base : Nat) (bytes : List UInt8) :
    (afterNewlines base bytes).length = bytes.count 10 := by
  induction bytes generalizing base with
  | nil => rfl
  | cons byte rest ih => grind [afterNewlines]

/-- The lines that have begun at an offset are those of the text in front of it. -/
theorem takeWhile_afterNewlines (inside : offset ≤ bytes.length) :
    (afterNewlines 0 bytes).takeWhile (· ≤ offset) = afterNewlines 0 (bytes.take offset) := by
  have parts := afterNewlines_append 0 (bytes.take offset) (bytes.drop offset)
  rw [List.take_append_drop, List.length_take_of_le inside, Nat.zero_add] at parts
  rw [parts, List.takeWhile_append_of_pos, List.append_right_eq_self, List.takeWhile_eq_nil_iff]
  · intro some
    have later := bounds_of_mem_afterNewlines (List.get_mem _ ⟨0, some⟩)
    rw [decide_eq_true_eq]
    omega
  · intro start member
    have earlier := bounds_of_mem_afterNewlines member
    rw [List.length_take_of_le inside] at earlier
    rw [decide_eq_true_eq]
    omega

/-- The last line that has begun in front of an offset is the one that the offset is in. -/
theorem beginsLine_getLast (inside : offset ≤ bytes.length) :
    Text.BeginsLine bytes offset ((0 :: afterNewlines 0 (bytes.take offset)).getLast?.getD 0) := by
  induction offset with
  | zero => exact ⟨Nat.le_refl 0, .inl rfl, by omega⟩
  | succ offset ih =>
    have line := ih (Nat.le_of_succ_le inside)
    have parts := afterNewlines_append 0 (bytes.take offset) [bytes[offset]]
    rw [List.take_concat_get', List.length_take_of_le (Nat.le_of_succ_le inside), Nat.zero_add] at parts
    rw [parts, afterNewlines, afterNewlines]
    have found : bytes[offset]? = some bytes[offset] := List.getElem?_eq_getElem inside
    split
    next newline =>
      rw [← List.cons_append, List.getLast?_concat, Option.getD_some]
      rw [newline] at found
      exact ⟨Nat.le_refl _, .inr ⟨offset, rfl, found⟩, by omega⟩
    next other =>
      rw [List.append_nil]
      refine ⟨Nat.le_succ_of_le line.before, line.first, fun index after before newline => ?_⟩
      rcases Nat.lt_succ_iff_lt_or_eq.mp before with sooner | rfl
      · exact line.unbroken index after sooner newline
      · exact other (Option.some.inj (found.symm.trans newline))

def ofText (base : Nat) (name text : String) : SourceFile :=
  ⟨name, base, (Text.utf8 text).length, 0 :: afterNewlines 0 (Text.utf8 text)⟩

variable {file : SourceFile} {position : Nat}

theorem holds_iff : file.holds position ↔ file.base ≤ position ∧ position ≤ file.base + file.size := by
  rw [holds, Bool.and_eq_true, decide_eq_true_eq, decide_eq_true_eq]

theorem holds_position (file : SourceFile) (offset : Nat) : file.holds (file.position offset) := by
  rw [holds_iff, position]
  omega

theorem place_ofText {base : Nat} {name text : String} {offset start : Nat}
    (inside : offset ≤ (Text.utf8 text).length) (begins : Text.BeginsLine (Text.utf8 text) offset start) :
    (ofText base name text).place ((ofText base name text).position offset) =
      ⟨name, 1 + ((Text.utf8 text).take offset).count 10, offset - start + 1⟩ := by
  have back : (ofText base name text).position offset - base = offset := by
    simp only [position, ofText, Nat.min_eq_left inside, Nat.add_sub_cancel_left]
  unfold place
  dsimp only
  rw [show (ofText base name text).base = base from rfl, back]
  simp only [ofText, List.takeWhile_cons, Nat.zero_le, decide_true, if_true, takeWhile_afterNewlines inside,
    (beginsLine_getLast inside).unique begins, List.length_cons, length_afterNewlines, Nat.add_comm 1]

end SourceFile

namespace SourceSet

open SourceFile

/-- The files of some texts, one behind the other. -/
structure LaysOut (set : SourceSet) (texts : List (String × String)) : Prop where
  listed : List.Forall₂ (fun file text => file = ofText file.base text.1 text.2) set.files texts
  positive : 0 < set.next ∧ ∀ file ∈ set.files, 0 < file.base
  below : ∀ file ∈ set.files, file.base + file.size < set.next
  apart : set.files.Pairwise fun first second => first.base + first.size < second.base

variable {set : SourceSet} {texts : List (String × String)}

theorem LaysOut.add (lays : set.LaysOut texts) (text : String × String) :
    (set.add text.1 text.2).LaysOut (texts ++ [text]) := by
  have files : (set.add text.1 text.2).files = set.files ++ [ofText set.next text.1 text.2] := rfl
  have next : (set.add text.1 text.2).next = set.next + (Text.utf8 text.2).length + 1 := rfl
  obtain ⟨listed, ⟨positive, bases⟩, below, apart⟩ := lays
  have size : (ofText set.next text.1 text.2).size = (Text.utf8 text.2).length := rfl
  have base : (ofText set.next text.1 text.2).base = set.next := rfl
  refine ⟨?_, ⟨?_, ?_⟩, ?_, ?_⟩
  · rw [files]
    exact List.rel_append listed (.cons rfl .nil)
  · rw [next]
    exact Nat.succ_pos _
  · rw [files, List.forall_mem_append]
    exact ⟨bases, List.forall_mem_singleton.mpr positive⟩
  · rw [files, next, List.forall_mem_append]
    refine ⟨fun file member => ?_, List.forall_mem_singleton.mpr (Nat.lt_succ_self _)⟩
    have earlier := below file member
    omega
  · rw [files, List.pairwise_append]
    refine ⟨apart, List.pairwise_singleton _ _, fun file member => ?_⟩
    exact List.forall_mem_singleton.mpr (below file member)

theorem laysOut_ofTexts (texts : List (String × String)) : (ofTexts texts).LaysOut texts := by
  induction texts using List.reverseRecOn with
  | nil => exact ⟨.nil, ⟨Nat.one_pos, nofun⟩, nofun, .nil⟩
  | append_singleton texts text ih =>
    rw [ofTexts, List.foldl_append]
    exact ih.add text

section Lookup

variable {file other : SourceFile} {first second position : Nat}

theorem LaysOut.file_eq (lays : set.LaysOut texts) {name text : String} (found : set.files[first]? = some file)
    (given : texts[first]? = some (name, text)) : file = ofText file.base name text := by
  obtain ⟨inside, rfl⟩ := List.getElem?_eq_some_iff.mp found
  obtain ⟨inside', same⟩ := List.getElem?_eq_some_iff.mp given
  have listed := (List.forall₂_iff_get.mp lays.listed).2 first inside inside'
  rwa [List.get_eq_getElem, List.get_eq_getElem, same] at listed

/-- No position belongs to two files. -/
theorem LaysOut.eq_of_holds (lays : set.LaysOut texts) (found : set.files[first]? = some file)
    (again : set.files[second]? = some other) (holds : file.holds position)
    (holds' : other.holds position) : first = second := by
  obtain ⟨inside, rfl⟩ := List.getElem?_eq_some_iff.mp found
  obtain ⟨inside', rfl⟩ := List.getElem?_eq_some_iff.mp again
  have apart := List.pairwise_iff_getElem.mp lays.apart
  rw [holds_iff] at holds holds'
  rcases Nat.lt_trichotomy first second with before | same | behind
  · have gap := apart first second inside inside' before
    omega
  · exact same
  · have gap := apart second first inside' inside behind
    omega

theorem LaysOut.place_eq (lays : set.LaysOut texts) (found : set.files[first]? = some file)
    (holds : file.holds position) : set.place position = file.place position := by
  have member : file ∈ set.files := List.mem_of_getElem? found
  have known : position ≠ 0 := by
    have positive := lays.positive.2 file member
    rw [holds_iff] at holds
    omega
  rw [place, if_neg known]
  cases search : set.files.find? (·.holds position) with
  | none => exact absurd holds (List.find?_eq_none.mp search file member)
  | some other =>
    have holds' : other.holds position := by simpa only using List.find?_some search
    obtain ⟨second, again⟩ := List.mem_iff_getElem?.mp (List.mem_of_find?_eq_some search)
    cases lays.eq_of_holds found again holds holds'
    cases found.symm.trans again
    rfl

/-- A position in front of all files or behind them is no place. -/
theorem place_outside (outside : position = 0 ∨ ∀ file ∈ set.files, file.base + file.size < position) :
    set.place position = {} := by
  unfold place
  rcases outside with rfl | beyond
  · rfl
  · split
    · rfl
    · have missed : set.files.find? (·.holds position) = none := by
        refine List.find?_eq_none.mpr fun file member holds => ?_
        have behind := beyond file member
        rw [holds_iff] at holds
        omega
      rw [missed]

end Lookup

/-- Every offset of a file is found again from its position: in the file with its name, in the line that as
many newlines come before, at its distance from where that line begins. An offset past the end is the end.
Files have no position in common, and zero and what is beyond them all is no place. -/
theorem positions_lead_back (texts : List (String × String)) :
    (ofTexts texts).files.length = texts.length ∧
    (∀ (index : Nat) (file : SourceFile) (name text : String), (ofTexts texts).files[index]? = some file →
      texts[index]? = some (name, text) →
        (∀ offset ≤ (Text.utf8 text).length, ∃ start, Text.BeginsLine (Text.utf8 text) offset start ∧
          (ofTexts texts).place (file.position offset) =
            ⟨name, 1 + ((Text.utf8 text).take offset).count 10, offset - start + 1⟩) ∧
        (∀ offset ≥ (Text.utf8 text).length,
          file.position offset = file.position (Text.utf8 text).length) ∧
        ∀ offset, file.holds (file.position offset)) ∧
    (∀ (first second : Nat) (file other : SourceFile) (position : Nat),
      (ofTexts texts).files[first]? = some file → (ofTexts texts).files[second]? = some other →
        file.holds position → other.holds position → first = second) ∧
    ∀ position, position = 0 ∨ (∀ file ∈ (ofTexts texts).files, file.base + file.size < position) →
      (ofTexts texts).place position = {} := by
  have lays := laysOut_ofTexts texts
  refine ⟨lays.listed.length_eq, fun index file name text found given => ?_,
    fun first second file other position => lays.eq_of_holds, fun position => place_outside⟩
  have is := lays.file_eq found given
  refine ⟨fun offset inside => ?_, fun offset past => ?_, file.holds_position⟩
  · have begins := beginsLine_getLast inside
    refine ⟨_, begins, ?_⟩
    rw [lays.place_eq found (file.holds_position offset), is]
    exact place_ofText inside begins
  · rw [is]
    simp only [SourceFile.position, ofText, Nat.min_eq_right past, Nat.min_self]

/-- A file of two lines that does not end with a newline, one without any text, and one that does. -/
def threeTexts : List (String × String) := [("main", "a\nbc"), ("none", ""), ("rest", "d\n")]

theorem positions_lead_back_three :
    (∃ file, (ofTexts threeTexts).files[0]? = some file ∧ file.position 4 = 5 ∧ file.position 70 = 5 ∧
      Text.BeginsLine (Text.utf8 "a\nbc") 4 2 ∧ (ofTexts threeTexts).place 5 = ⟨"main", 2, 3⟩) ∧
    (∃ file, (ofTexts threeTexts).files[1]? = some file ∧ file.position 0 = 6 ∧
      (ofTexts threeTexts).place 6 = ⟨"none", 1, 1⟩) ∧
    (ofTexts threeTexts).place 10 = {} := by
  obtain ⟨-, found, -, outside⟩ := positions_lead_back threeTexts
  have first : (ofTexts threeTexts).files[0]? = some (ofText 1 "main" "a\nbc") := rfl
  have second : (ofTexts threeTexts).files[1]? = some (ofText 6 "none" "") := rfl
  have line : Text.BeginsLine (Text.utf8 "a\nbc") 4 2 :=
    ⟨by decide, .inr ⟨1, rfl, by decide +kernel⟩, by decide +kernel⟩
  obtain ⟨start, begins, placed⟩ := (found 0 _ "main" "a\nbc" first rfl).1 4 (by decide)
  cases line.unique begins
  refine ⟨⟨_, first, rfl, rfl, line, placed⟩, ⟨_, second, rfl, ?_⟩, outside 10 (.inr ?_)⟩
  · obtain ⟨start, begins, placed⟩ := (found 1 _ "none" "" second rfl).1 0 (Nat.zero_le _)
    cases Nat.le_zero.mp begins.before
    exact placed
  · decide +kernel

end SourceSet

end ScriptMachine
