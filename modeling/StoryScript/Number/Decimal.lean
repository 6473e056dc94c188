import StoryScript.Number.Binary64

/-!
# Decimal texts of numbers

Three ways to write a floating-point number, each exact in that the digits are those of the binary
value rounded once, half to even:

* `Binary64.fixed` — a fixed number of places after the point (node positions have one);
* `Binary64.general` — at most so many significant digits, trailing zeros dropped (durations have
  six);
* `Binary64.shortest` — the fewest digits that read back as the same number.

Which of the positional and the scientific form is used depends on the decimal exponent alone:
positional from `-4` up to a bound that belongs to the style.
-/

namespace StoryScript

/-- A positive number as its leading digits, most significant first, and the exponent of the first
one: `d₀.d₁d₂… · 10 ^ exponent`. -/
structure Decimal where
  digits : List Char
  exponent : Int

namespace Decimal

/-- The decimal digits of a natural number. -/
def digitsOf (n : Nat) : List Char := Nat.toDigits 10 n

/-- `n` zeros. -/
def zeros (n : Nat) : List Char := List.replicate n '0'

/-- Without trailing zeros, the first digit apart. -/
def trimmed (d : Decimal) : Decimal :=
  match d.digits with
  | [] => d
  | c :: cs => { d with digits := c :: (cs.reverse.dropWhile (· = '0')).reverse }

/-- The digits with the point set where it belongs. -/
def positional (d : Decimal) : List Char :=
  if d.exponent < 0 then
    '0' :: '.' :: zeros ((-d.exponent).toNat - 1) ++ d.digits
  else
    let whole := d.exponent.toNat + 1
    if d.digits.length ≤ whole then d.digits ++ zeros (whole - d.digits.length)
    else d.digits.take whole ++ '.' :: d.digits.drop whole

/-- One digit before the point and a signed exponent of at least two digits. -/
def scientific (d : Decimal) : List Char :=
  let mantissa :=
    match d.digits with
    | [] => ['0']
    | [c] => [c]
    | c :: cs => c :: '.' :: cs
  let power := digitsOf d.exponent.natAbs
  mantissa ++ ['e', if d.exponent < 0 then '-' else '+'] ++ zeros (2 - power.length) ++ power

/-- The exponent of the first digit of `n / d`, for a positive quotient. -/
def leadingExponent (n d : Nat) : Int :=
  if d ≤ n then ((digitsOf (n / d)).length : Int) - 1
  else
    match (List.range 400).find? fun k => d ≤ n * Nat.pow 10 (k + 1) with
    | some k => -((k : Int) + 1)
    | none => -400

/-- The quotient `n / d` scaled by a power of ten, as numerator and denominator. -/
def scale (n d : Nat) (power : Int) : Nat × Nat :=
  if 0 ≤ power then (n * Nat.pow 10 power.toNat, d) else (n, d * Nat.pow 10 (-power).toNat)

/-- The positive quotient `n / d` rounded to `precision` significant digits. -/
def rounded (n d precision : Nat) : Decimal :=
  let exponent := leadingExponent n d
  let (n, d) := scale n d ((precision : Int) - 1 - exponent)
  let digits := roundHalfEven n d
  if digits = Nat.pow 10 precision then ⟨digitsOf (digits / 10), exponent + 1⟩
  else ⟨digitsOf digits, exponent⟩

/-- The neighbours of the magnitude at `place` on the grid of `precision` significant digits that
read back as that magnitude, the nearer one first. -/
def readingBack? (place precision : Nat) : Option Decimal :=
  let n := Binary64.units place
  let exponent := leadingExponent n Binary64.unit
  let power := (precision : Int) - 1 - exponent
  let (sn, sd) := scale n Binary64.unit power
  let below := sn / sd
  let nearest := roundHalfEven sn sd
  let other := if nearest = below then below + 1 else below
  let readsBack (digits : Nat) : Bool :=
    let (rn, rd) := scale digits 1 (-power)
    digits ≠ 0 && Binary64.nearestPlace rn rd = place
  match [nearest, other].find? readsBack with
  | none => none
  | some digits =>
    if digits = Nat.pow 10 precision then some ⟨digitsOf (digits / 10), exponent + 1⟩
    else some ⟨digitsOf digits, exponent⟩

/-- The fewest digits that read back as the positive magnitude at `place`. -/
def shortest (place : Nat) : Decimal :=
  match (List.range 17).findSome? fun k => readingBack? place (k + 1) with
  | some d => d.trimmed
  | none => (rounded (Binary64.units place) Binary64.unit 17).trimmed

/-- Positional for the exponents from `-4` up to, but not including, `bound`. -/
def write (bound : Int) (d : Decimal) : List Char :=
  if -4 ≤ d.exponent && d.exponent < bound then d.positional else d.scientific

end Decimal

namespace Binary64

/-- A sign in front of the text of a magnitude. -/
def signed (negative : Bool) (cs : List Char) : String :=
  String.ofList (if negative then '-' :: cs else cs)

/-- The texts of the numbers that are not finite. -/
def special : Binary64 → String
  | infinite true => "-inf"
  | infinite false => "inf"
  | _ => "nan"

/-- With a fixed number of places after the point. -/
def fixed (places : Nat) : Binary64 → String
  | finite s i =>
    let digits := Decimal.digitsOf (roundHalfEven (units i * Nat.pow 10 places) unit)
    let padded := Decimal.zeros (places + 1 - digits.length) ++ digits
    let whole := padded.take (padded.length - places)
    let frac := padded.drop (padded.length - places)
    signed s (if places = 0 then whole else whole ++ '.' :: frac)
  | x => x.special

/-- With at most `precision` significant digits and no trailing zeros. -/
def general (precision : Nat) : Binary64 → String
  | finite s i =>
    if i.val = 0 then signed s ['0']
    else signed s ((Decimal.rounded (units i) unit precision).trimmed.write precision)
  | x => x.special

/-- The fewest digits that read back, with a fraction even when it is zero; positional below
`10 ^ 16`. -/
def shortest : Binary64 → String
  | finite s i =>
    if i.val = 0 then signed s ['0', '.', '0']
    else
      let text := (Decimal.shortest i).write 16
      signed s (if text.any fun c => c = '.' || c = 'e' then text else text ++ ['.', '0'])
  | x => x.special

end Binary64

end StoryScript
