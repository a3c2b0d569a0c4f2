/-! Reading JSON text. Members keep their order and their repetitions, and a number that is written
as an integer is told apart from every other number. -/

namespace ScriptMachine

/-- A JSON document. Text is absent where its escapes name no character. -/
inductive Json where
  | null
  | bool (value : Bool)
  | integer (negative : Bool) (magnitude : Nat)
  | fractional
  | text (value : Option String)
  | list (items : List Json)
  | object (members : List (Option String × Json))

namespace Json

inductive Token where
  | openBrace | closeBrace | openBracket | closeBracket | comma | colon
  | scalar (value : Json)

def isBlank (c : Char) : Bool := c == ' ' || c == '\n' || c == '\t' || c == '\r'

def hexValue? (c : Char) : Option Nat :=
  if '0' ≤ c && c ≤ '9' then some (c.toNat - '0'.toNat)
  else if 'a' ≤ c && c ≤ 'f' then some (c.toNat - 'a'.toNat + 10)
  else if 'A' ≤ c && c ≤ 'F' then some (c.toNat - 'A'.toNat + 10)
  else none

def hexQuad? (a b c d : Char) : Option Nat := do
  return (((← hexValue? a) * 16 + (← hexValue? b)) * 16 + (← hexValue? c)) * 16 + (← hexValue? d)

/-- A piece of a string: a character or an escaped UTF-16 unit. -/
inductive Piece where
  | char (c : Char)
  | unit (code : Nat)

/-- The pieces up to the closing quote, and what follows it. -/
def pieces? : List Char → Option (List Piece × List Char)
  | '"' :: rest => some ([], rest)
  | '\\' :: 'u' :: a :: b :: c :: d :: rest => do
    let unit ← hexQuad? a b c d
    let (more, after) ← pieces? rest
    return (.unit unit :: more, after)
  | '\\' :: c :: rest => do
    let escaped ← match c with
      | '"' => some '"' | '\\' => some '\\' | '/' => some '/'
      | 'b' => some '\x08' | 'f' => some '\x0c' | 'n' => some '\n' | 'r' => some '\r'
      | 't' => some '\t'
      | _ => none
    let (more, after) ← pieces? rest
    return (.char escaped :: more, after)
  | c :: rest =>
    if c.toNat < 0x20 || c == '\\' then none
    else do
      let (more, after) ← pieces? rest
      return (.char c :: more, after)
  | [] => none

/-- The characters of some pieces. A surrogate counts only as half of a pair. -/
def characters? : List Piece → Option (List Char)
  | [] => some []
  | .char c :: rest => (characters? rest).map (c :: ·)
  | .unit high :: .unit low :: rest =>
    if 0xd800 ≤ high && high ≤ 0xdbff then
      if 0xdc00 ≤ low && low ≤ 0xdfff then
        (characters? rest).map (Char.ofNat (0x10000 + (high - 0xd800) * 0x400 + (low - 0xdc00)) :: ·)
      else none
    else if 0xdc00 ≤ high && high ≤ 0xdfff then none
    else (characters? (.unit low :: rest)).map (Char.ofNat high :: ·)
  | .unit code :: rest =>
    if 0xd800 ≤ code && code ≤ 0xdfff then none
    else (characters? rest).map (Char.ofNat code :: ·)

def decimalValue (digits : List Char) : Nat :=
  digits.foldl (fun n c => n * 10 + (c.toNat - '0'.toNat)) 0

def splitDigits (cs : List Char) : List Char × List Char :=
  (cs.takeWhile Char.isDigit, cs.dropWhile Char.isDigit)

/-- Digits where at least one has to stand. -/
def someDigits? (cs : List Char) : Option (List Char) :=
  match splitDigits cs with
  | ([], _) => none
  | (_, rest) => some rest

def exponent? : List Char → Option (Bool × List Char)
  | c :: '+' :: rest =>
    if c == 'e' || c == 'E' then (someDigits? rest).map (true, ·) else some (false, c :: '+' :: rest)
  | c :: '-' :: rest =>
    if c == 'e' || c == 'E' then (someDigits? rest).map (true, ·) else some (false, c :: '-' :: rest)
  | c :: rest =>
    if c == 'e' || c == 'E' then (someDigits? rest).map (true, ·) else some (false, c :: rest)
  | [] => some (false, [])

/-- What follows the integer digits of a number: whether it is more than an integer, and the rest. -/
def tail? : List Char → Option (Bool × List Char)
  | '.' :: rest => do
    let after ← someDigits? rest
    let (_, final) ← exponent? after
    return (true, final)
  | rest => exponent? rest

/-- The number at the start of a text. A leading zero stands alone. -/
def number? (negative : Bool) (cs : List Char) : Option (Json × List Char) := do
  let (digits, rest) ← match cs with
    | '0' :: rest => some (['0'], rest)
    | _ => match splitDigits cs with
      | ([], _) => none
      | split => some split
  let (more, after) ← tail? rest
  return (if more then .fractional else .integer negative (decimalValue digits), after)

/-- The token at the start of a text that does not begin with a blank. -/
def token? : List Char → Option (Token × List Char)
  | '{' :: rest => some (.openBrace, rest)
  | '}' :: rest => some (.closeBrace, rest)
  | '[' :: rest => some (.openBracket, rest)
  | ']' :: rest => some (.closeBracket, rest)
  | ',' :: rest => some (.comma, rest)
  | ':' :: rest => some (.colon, rest)
  | '"' :: rest => (pieces? rest).map fun (found, after) =>
      (.scalar (.text ((characters? found).map String.ofList)), after)
  | 'n' :: 'u' :: 'l' :: 'l' :: rest => some (.scalar .null, rest)
  | 't' :: 'r' :: 'u' :: 'e' :: rest => some (.scalar (.bool true), rest)
  | 'f' :: 'a' :: 'l' :: 's' :: 'e' :: rest => some (.scalar (.bool false), rest)
  | '-' :: rest => (number? true rest).map fun (n, after) => (.scalar n, after)
  | rest => (number? false rest).map fun (n, after) => (.scalar n, after)

/-- The tokens of a text; `fuel` bounds their number. -/
def tokens? : Nat → List Char → Option (List Token)
  | 0, _ => none
  | fuel + 1, cs =>
    match cs.dropWhile isBlank with
    | [] => some []
    | rest => do
      let (token, after) ← token? rest
      return token :: (← tokens? fuel after)

mutual

/-- The value at the start of some tokens; `fuel` bounds the depth of the search. -/
def value? : Nat → List Token → Option (Json × List Token)
  | 0, _ => none
  | _ + 1, .scalar value :: rest => some (value, rest)
  | _ + 1, .openBracket :: .closeBracket :: rest => some (.list [], rest)
  | fuel + 1, .openBracket :: rest => (items? fuel rest).map fun (items, after) => (.list items, after)
  | _ + 1, .openBrace :: .closeBrace :: rest => some (.object [], rest)
  | fuel + 1, .openBrace :: rest =>
    (members? fuel rest).map fun (members, after) => (.object members, after)
  | _ + 1, _ => none

/-- The items of a list that is not empty, and what follows its closing bracket. -/
def items? : Nat → List Token → Option (List Json × List Token)
  | 0, _ => none
  | fuel + 1, tokens => do
    let (item, rest) ← value? fuel tokens
    match rest with
    | .comma :: rest =>
      let (items, after) ← items? fuel rest
      return (item :: items, after)
    | .closeBracket :: after => return ([item], after)
    | _ => none

/-- The members of an object that is not empty, and what follows its closing brace. -/
def members? : Nat → List Token → Option (List (Option String × Json) × List Token)
  | 0, _ => none
  | fuel + 1, .scalar (.text key) :: .colon :: tokens => do
    let (value, rest) ← value? fuel tokens
    match rest with
    | .comma :: rest =>
      let (members, after) ← members? fuel rest
      return ((key, value) :: members, after)
    | .closeBrace :: after => return ([(key, value)], after)
    | _ => none
  | _ + 1, _ => none

end

/-- The document that a text spells. Nothing but blanks may follow it. Each level takes a token and each
item a step, so twice the tokens are steps enough. -/
def parse? (text : String) : Option Json := do
  let tokens ← tokens? (text.length + 1) text.toList
  match ← value? (2 * tokens.length + 1) tokens with
  | (document, []) => return document
  | _ => none

end Json

end ScriptMachine
