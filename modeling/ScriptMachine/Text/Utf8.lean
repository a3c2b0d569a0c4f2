/-! Reading bytes as UTF-8 text. Each longest ill-formed start of a character is replaced by one
U+FFFD. -/

namespace ScriptMachine.Text

/-- What stands for bytes that are no character. -/
def replacement : Char := Char.ofNat 0xfffd

/-- The bytes a lead byte admits next, and how many continuation bytes follow that one. -/
structure Lead where
  low : UInt8
  high : UInt8
  more : Nat
  payload : Nat

/-- How a multi-byte character may begin. The bounds on the second byte rule out overlong forms,
surrogates and code points past the last one. -/
def Lead.of? (byte : UInt8) : Option Lead :=
  if 0xc2 ≤ byte && byte ≤ 0xdf then some ⟨0x80, 0xbf, 0, byte.toNat - 0xc0⟩
  else if byte == 0xe0 then some ⟨0xa0, 0xbf, 1, 0⟩
  else if byte == 0xed then some ⟨0x80, 0x9f, 1, 0xd⟩
  else if 0xe1 ≤ byte && byte ≤ 0xef then some ⟨0x80, 0xbf, 1, byte.toNat - 0xe0⟩
  else if byte == 0xf0 then some ⟨0x90, 0xbf, 2, 0⟩
  else if byte == 0xf4 then some ⟨0x80, 0x8f, 2, 4⟩
  else if 0xf1 ≤ byte && byte ≤ 0xf3 then some ⟨0x80, 0xbf, 2, byte.toNat - 0xf0⟩
  else none

/-- Where the reader stands: between characters, or inside one that has begun well. -/
inductive Reading where
  | between
  | inside (low high : UInt8) (more code : Nat)

def startCharacter (text : String) (byte : UInt8) : String × Reading :=
  if byte < 0x80 then (text.push (Char.ofNat byte.toNat), .between)
  else match Lead.of? byte with
    | some lead => (text, .inside lead.low lead.high lead.more lead.payload)
    | none => (text.push replacement, .between)

/-- Reads one byte. A byte that cannot continue the character ends it and is read again as a start. -/
def readByte : String × Reading → UInt8 → String × Reading
  | (text, .between), byte => startCharacter text byte
  | (text, .inside low high more code), byte =>
    if low ≤ byte && byte ≤ high then
      let code := code * 64 + (byte.toNat - 0x80)
      match more with
      | 0 => (text.push (Char.ofNat code), .between)
      | more + 1 => (text, .inside 0x80 0xbf more code)
    else startCharacter (text.push replacement) byte

def ofBytes (data : Array UInt8) : String :=
  match data.foldl readByte ("", .between) with
  | (text, .between) => text
  | (text, .inside ..) => text.push replacement

end ScriptMachine.Text
