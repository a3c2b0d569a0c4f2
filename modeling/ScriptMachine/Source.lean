/-! Source files and the positions inside them. All files of a program share one position space, so
one number names a file, a line and a column. -/

namespace ScriptMachine

/-- A place in a source file. Line zero means that the place is unknown. -/
structure Place where
  file : String := ""
  line : Nat := 0
  column : Nat := 0
  deriving DecidableEq

namespace Place

def isKnown (place : Place) : Bool := 0 < place.line

def render (place : Place) : String :=
  match place.file.isEmpty, place.isKnown with
  | true, false => "-"
  | false, false => place.file
  | true, true => s!"{place.line}:{place.column}"
  | false, true => s!"{place.file}:{place.line}:{place.column}"

end Place

/-- A file as the position space sees it: where it begins, how long it is, where its lines start. -/
structure SourceFile where
  name : String
  base : Nat
  size : Nat
  lineStarts : List Nat

namespace SourceFile

/-- Offsets right after each newline byte. -/
def afterNewlines : Nat → List UInt8 → List Nat
  | _, [] => []
  | offset, byte :: rest =>
    if byte = 10 then (offset + 1) :: afterNewlines (offset + 1) rest
    else afterNewlines (offset + 1) rest

/-- The position of a byte offset; offsets past the end count as the end. -/
def position (file : SourceFile) (offset : Nat) : Nat :=
  file.base + min offset file.size

/-- Whether a position belongs to the file. Its end belongs to it too. -/
def holds (file : SourceFile) (position : Nat) : Bool :=
  file.base ≤ position && position ≤ file.base + file.size

/-- Line and column of a position that the file holds. Columns count bytes. -/
def place (file : SourceFile) (position : Nat) : Place :=
  let offset := position - file.base
  let started := file.lineStarts.takeWhile (· ≤ offset)
  ⟨file.name, started.length, offset - started.getLast?.getD 0 + 1⟩

end SourceFile

/-- The files of a program, each followed by a gap of one position. -/
structure SourceSet where
  files : List SourceFile := []
  next : Nat := 1

namespace SourceSet

/-- Appends a file. Its first line starts at the start, and positions are counted from one. -/
def add (set : SourceSet) (name text : String) : SourceSet :=
  let bytes := text.toUTF8.data.toList
  let file : SourceFile := ⟨name, set.next, bytes.length, 0 :: SourceFile.afterNewlines 0 bytes⟩
  ⟨set.files ++ [file], set.next + bytes.length + 1⟩

def ofTexts (texts : List (String × String)) : SourceSet :=
  texts.foldl (fun set text => set.add text.1 text.2) {}

/-- The place of a position. Zero, and any position of no file, is unknown. -/
def place (set : SourceSet) (position : Nat) : Place :=
  if position = 0 then {}
  else match set.files.find? (·.holds position) with
    | some file => file.place position
    | none => {}

end SourceSet

/-- Source positions by instruction offset, in ascending order of the offsets. -/
structure SourceMap where
  marks : List (Nat × Nat) := []

namespace SourceMap

/-- Puts a mark into ascending marks; a mark already at the offset is replaced. -/
def insertMark (offset position : Nat) : List (Nat × Nat) → List (Nat × Nat)
  | [] => [(offset, position)]
  | mark :: rest =>
    if offset < mark.1 then (offset, position) :: mark :: rest
    else if offset = mark.1 then (offset, position) :: rest
    else mark :: insertMark offset position rest

def insert (map : SourceMap) (offset position : Nat) : SourceMap :=
  ⟨insertMark offset position map.marks⟩

/-- The map of some marks; of two at one offset the later one counts. -/
def ofList (marks : List (Nat × Nat)) : SourceMap :=
  marks.foldl (fun map mark => map.insert mark.1 mark.2) {}

/-- The position that the last mark at or before an offset gives, zero without one. -/
def position (map : SourceMap) (offset : Nat) : Nat :=
  ((map.marks.takeWhile (·.1 ≤ offset)).getLast?.map (·.2)).getD 0

end SourceMap

end ScriptMachine
