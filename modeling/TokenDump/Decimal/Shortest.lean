/-!
# The shortest decimal of a floating-point number

A finite double is a whole number times a power of two, and the reals that round to it form an
interval. `shortest` looks for a decimal in that interval, with one digit first, then with two, and
so on: on each grid only the two neighbours of the number can be the nearest, so only they are
tried.
-/

namespace TokenDump.Decimal

/-- The number `mantissa * 2 ^ exponent`. -/
structure Binary where
  mantissa : Nat
  exponent : Int
  deriving DecidableEq, Repr

/-- The least mantissa of a double that is not subnormal. -/
def leastNormal : Nat := 0x10000000000000

/-- The exponent of the subnormal doubles. -/
def leastExponent : Int := -1074

/-- Whether the bits of a double have the minus sign. -/
def isNegative (bits : UInt64) : Bool := bits.toNat / leastNormal / 2048 == 1

/-- The absolute value of a finite double, from its bits. -/
def Binary.ofBits (bits : UInt64) : Binary :=
  let field : Nat := bits.toNat / leastNormal % 2048
  let fraction : Nat := bits.toNat % leastNormal
  if field = 0 then ⟨fraction, leastExponent⟩
  else ⟨leastNormal + fraction, leastExponent - 1 + field⟩

/-- The number `digits * 10 ^ exponent`. -/
structure Scaled where
  digits : Nat
  exponent : Int
  deriving DecidableEq, Repr

/-- The interval of the reals that round to a number, as multiples of `1 / den`. -/
structure Interval where
  low : Nat
  mid : Nat
  high : Nat
  den : Nat
  /-- Whether the ends round to the number too. -/
  closed : Bool
  deriving DecidableEq, Repr

/-- The reals that round to a number. They reach half way to its neighbours; below a power of two
the neighbour is only half as far away, unless it is subnormal. -/
def Binary.interval (b : Binary) : Interval :=
  let narrow := b.mantissa = leastNormal ∧ b.exponent ≠ leastExponent
  let low := 4 * b.mantissa - (if narrow then 1 else 2)
  let scale := Nat.pow 2 (b.exponent - 2).toNat
  let den := Nat.pow 2 (2 - b.exponent).toNat
  ⟨low * scale, 4 * b.mantissa * scale, (4 * b.mantissa + 2) * scale, den, b.mantissa % 2 == 0⟩

namespace Interval

/-- The exponent of the first digit of the middle. -/
def firstExponent (i : Interval) : Int :=
  if i.den ≤ i.mid then ((Nat.toDigits 10 (i.mid / i.den)).length : Int) - 1
  else -((Nat.toDigits 10 ((i.den - 1) / i.mid)).length : Int)

/-- The multiple of `10 ^ exponent` nearest to the middle, if it is within; of two, the even one. -/
def nearest? (i : Interval) (exponent : Int) : Option Nat :=
  let up := Nat.pow 10 (-exponent).toNat
  let unit := i.den * Nat.pow 10 exponent.toNat
  let within (n : Nat) : Bool :=
    if i.closed then i.low * up ≤ n * unit && n * unit ≤ i.high * up
    else i.low * up < n * unit && n * unit < i.high * up
  let below := i.mid * up / unit
  let above := below + 1
  match within below, within above with
  | true, false => some below
  | false, true => some above
  | false, false => none
  | true, true =>
    if 2 * i.mid * up < (below + above) * unit then some below
    else if (below + above) * unit < 2 * i.mid * up then some above
    else some (if below % 2 = 0 then below else above)

end Interval

/-- Seventeen digits always suffice. -/
def digitLimit : Nat := 17

/-- The decimal of fewest digits that rounds to a number other than zero, the nearest such. -/
def Binary.shortest (b : Binary) : Scaled :=
  let i := b.interval
  let first := i.firstExponent
  let found := (List.range digitLimit).findSome? fun (k : Nat) =>
    (i.nearest? (first - k)).map (⟨·, first - k⟩)
  found.getD ⟨b.mantissa, b.exponent⟩

/-- How a decimal is laid out. -/
structure Layout where
  /-- The least and the greatest exponent of a first digit that is written without an exponent. -/
  least : Int
  greatest : Int
  deriving DecidableEq, Repr

namespace Layout

/-- Digits with the point after the first `n`, and a zero where there is nothing after it. -/
def pointAfter (digits : List Char) (n : Nat) : List Char :=
  digits.take n ++ '.' :: (if digits.length ≤ n then ['0'] else digits.drop n)

/-- An exponent has a mark and a sign in front of its digits. -/
def exponentText (e : Int) : List Char :=
  'e' :: (if e < 0 then '-' else '+') :: Nat.toDigits 10 e.natAbs

/-- A decimal other than zero in writing. Without an exponent it has a point and a digit on both
sides of it; with one, the point stands after the first digit, and is left out if no digit follows.
-/
def write (layout : Layout) (s : Scaled) : List Char :=
  let all := Nat.toDigits 10 s.digits
  let first := (all.length : Int) - 1 + s.exponent
  let digits := (all.reverse.dropWhile (· == '0')).reverse
  if layout.least ≤ first ∧ first ≤ layout.greatest then
    if first < 0 then
      '0' :: '.' :: List.replicate (-first - 1).toNat '0' ++ digits
    else
      let places := first.toNat + 1
      pointAfter (digits ++ List.replicate (places - digits.length) '0') places
  else
    match digits with
    | [d] => d :: exponentText first
    | _ => pointAfter digits 1 ++ exponentText first

/-- A finite double in writing. -/
def writeFloat (layout : Layout) (x : Float) : String :=
  let bits := x.toBits
  let sign := if isNegative bits then "-" else ""
  let b := Binary.ofBits bits
  if b.mantissa = 0 then sign ++ "0.0" else sign ++ String.ofList (layout.write b.shortest)

end Layout

end TokenDump.Decimal
