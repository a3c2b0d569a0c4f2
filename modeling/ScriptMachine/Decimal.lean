/-! Decimal text of binary floating-point numbers: the fewest digits that read back as the same
number, always written positionally. -/

namespace ScriptMachine.Decimal

/-- A finite non-negative number `m * 2 ^ q`. -/
structure Binary where
  m : Nat
  q : Int
  /-- The gap to the number below is half the gap to the number above. -/
  narrowBelow : Bool

/-- The number whose bits are given; the sign is ignored and the exponent is not the last one. -/
def Binary.ofBits (bits : UInt64) : Binary :=
  let exponent := ((bits >>> 52) &&& 0x7ff).toNat
  let fraction := (bits &&& 0xfffffffffffff).toNat
  if exponent == 0 then ⟨fraction, -1074, false⟩
  else ⟨0x10000000000000 + fraction, (exponent : Int) - 1075, fraction == 0 && exponent > 1⟩

/-- The decimal number `digits * 10 ^ exponent`. -/
structure Numeral where
  digits : Nat
  exponent : Int

def compareScaled (a : Nat) (i : Int) (n : Nat) (j : Int) : Ordering :=
  compare (a * Nat.pow 10 i.toNat * Nat.pow 2 (-j).toNat)
    (n * Nat.pow 2 j.toNat * Nat.pow 10 (-i).toNat)

/-- Whether a numeral lies among the reals that round to `x`; the ends belong to even `m`. In quarters of a
unit, the ends lie half a gap away, and the gap below may be half a unit. -/
def Binary.readsBack (x : Binary) (d : Numeral) : Bool :=
  let low := if x.narrowBelow then 4 * x.m - 1 else 4 * x.m - 2
  let below := compareScaled d.digits d.exponent low (x.q - 2)
  let above := compareScaled d.digits d.exponent (4 * x.m + 2) (x.q - 2)
  let closed := x.m % 2 == 0
  (below == .gt || (closed && below == .eq)) && (above == .lt || (closed && above == .eq))

/-- The largest count of units of `10 ^ i` that `x` holds. -/
def Binary.floorAt (x : Binary) (i : Int) : Nat :=
  (x.m * Nat.pow 2 x.q.toNat * Nat.pow 10 (-i).toNat) /
    (Nat.pow 2 (-x.q).toNat * Nat.pow 10 i.toNat)

/-- Whether `x` lies nearer to `n` units of `10 ^ i` than to `n + 1` of them. -/
def Binary.nearerBelow (x : Binary) (n : Nat) (i : Int) : Bool :=
  compareScaled (2 * n + 1) i (2 * x.m) x.q == .gt

/-- The place of the leading digit: the least `k` from a lower estimate on with `x < 10 ^ k`. -/
def Binary.magnitude (x : Binary) : Int :=
  let estimate : Int := ((x.m.log2 : Int) + x.q) * 30103 / 100000 - 1
  let candidates := (List.range 6).map fun (step : Nat) => estimate + step
  (candidates.find? fun k => compareScaled 1 k x.m x.q == .gt).getD estimate

/-- The neighbour of `x` on the grid of `10 ^ i` that reads back: of two the nearer, of two equally
near the larger. -/
def Binary.onGrid? (x : Binary) (i : Int) : Option Numeral :=
  let below : Numeral := ⟨x.floorAt i, i⟩
  let above : Numeral := ⟨x.floorAt i + 1, i⟩
  match x.readsBack below, x.readsBack above with
  | true, true => some (if x.nearerBelow below.digits i then below else above)
  | true, false => some below
  | false, true => some above
  | false, false => none

def Binary.exact (x : Binary) : Numeral :=
  ⟨x.m * Nat.pow 2 x.q.toNat * Nat.pow 5 (-x.q).toNat, min x.q 0⟩

/-- The numeral with the fewest digits that reads back. -/
def Binary.shortest (x : Binary) : Numeral :=
  ((List.range 17).findSome? fun (n : Nat) => x.onGrid? (x.magnitude - 1 - n)).getD x.exact

/-- Writes a numeral without an exponent and without needless zeros. -/
def Numeral.render (d : Numeral) : String :=
  let digits := (toString d.digits).toList
  match d.exponent with
  | .ofNat zeros => String.ofList (digits ++ List.replicate zeros '0')
  | .negSucc places =>
    let width := places + 1
    let padded := List.replicate (width + 1 - digits.length) '0' ++ digits
    let whole := padded.take (padded.length - width)
    let fraction := (padded.drop (padded.length - width)).reverse.dropWhile (· == '0') |>.reverse
    String.ofList (if fraction.isEmpty then whole else whole ++ '.' :: fraction)

def ofBits (bits : UInt64) : String :=
  let sign := if bits >>> 63 == 1 then "-" else ""
  let exponent := (bits >>> 52) &&& 0x7ff
  let fraction := bits &&& 0xfffffffffffff
  if exponent == 0x7ff then
    if fraction == 0 then sign ++ "inf" else "NaN"
  else if exponent == 0 && fraction == 0 then sign ++ "0"
  else sign ++ (Binary.ofBits bits).shortest.render

end ScriptMachine.Decimal
