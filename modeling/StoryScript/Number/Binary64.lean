import StoryScript.Text.Word

/-!
# Binary floating-point numbers

Positions and durations are binary floating-point numbers of 64 bits. A finite magnitude is held as
its place in the increasing sequence of all representable magnitudes; `Binary64.units` gives its
value as a whole number of units of `2 ^ -1074`, the smallest positive magnitude. All arithmetic is
exact, over `Nat`.

* `Binary64.ofRatio` — the number nearest to a quotient, a tie going to the even place.
* `Binary64.ofDecimal` — the number nearest to `digits · 10 ^ exponent`.
* `Binary64.ofNumeral` — the value of a written number.
* `Binary64.equal` — numeric equality: the two zeros are equal and `nan` equals nothing.
-/

namespace StoryScript

/-- The quotient `n / d` rounded to the nearest whole number, a tie going to the even one. -/
def roundHalfEven (n d : Nat) : Nat :=
  let q := n / d
  let r := n % d
  if 2 * r < d then q
  else if d < 2 * r then q + 1
  else q + q % 2

/-- A floating-point number of 64 bits. -/
inductive Binary64 where
  | finite (negative : Bool) (place : Fin (2047 * Nat.pow 2 52))
  | infinite (negative : Bool)
  | nan
  deriving DecidableEq, Repr

namespace Binary64

instance : Inhabited Binary64 := ⟨finite false 0⟩

/-- The magnitude at a place, in units of `2 ^ -1074`. -/
def units (place : Nat) : Nat :=
  let exponent := place / Nat.pow 2 52
  let fraction := place % Nat.pow 2 52
  if exponent = 0 then fraction else (Nat.pow 2 52 + fraction) * Nat.pow 2 (exponent - 1)

/-- The denominator of a magnitude counted in units. -/
def unit : Nat := Nat.pow 2 1074

/-- The place of the magnitude nearest to `n / d`, where the sequence is thought to go on without
end. Between two powers of two the magnitudes are equally spaced, `2 ^ s` units apart. -/
def nearestPlace (n d : Nat) : Nat :=
  let s := (n * unit / d).log2 - 52
  s * Nat.pow 2 52 + roundHalfEven (n * unit) (d * Nat.pow 2 s)

/-- The number at a place, infinite beyond the last finite one. -/
def atPlace (negative : Bool) (place : Nat) : Binary64 :=
  if h : place < 2047 * Nat.pow 2 52 then finite negative ⟨place, h⟩ else infinite negative

/-- The number nearest to `n / d`. -/
def ofRatio (negative : Bool) (n d : Nat) : Binary64 := atPlace negative (nearestPlace n d)

/-- The number nearest to `digits · 10 ^ exponent`. Exponents that can only give an infinite
number or zero are decided without computing the power. -/
def ofDecimal (negative : Bool) (digits : Nat) (exponent : Int) : Binary64 :=
  if digits = 0 then finite negative 0
  else if 400 < exponent then infinite negative
  else if exponent + (Nat.log2 digits : Int) / 3 < -800 then finite negative 0
  else if 0 ≤ exponent then ofRatio negative (digits * Nat.pow 10 exponent.toNat) 1
  else ofRatio negative digits (Nat.pow 10 (-exponent).toNat)

/-! ### Written numbers -/

/-- The value of a run of decimal digits. -/
def digitsValue (cs : List Char) : Nat :=
  cs.foldl (fun n c => n * 10 + (Text.digit? c).getD 0) 0

/-- The value of digits with an optional point among them. -/
def ofUnsigned (negative : Bool) (exponent : Int) (cs : List Char) : Binary64 :=
  let whole := cs.takeWhile (· ≠ '.')
  let frac := (cs.dropWhile (· ≠ '.')).drop 1
  ofDecimal negative (digitsValue (whole ++ frac)) (exponent - frac.length)

/-- The value of a written number: an optional minus sign, digits, and an optional fraction. -/
def ofNumeral : List Char → Binary64
  | '-' :: cs => ofUnsigned true 0 cs
  | cs => ofUnsigned false 0 cs

/-- The value of digits with an optional decimal exponent, or of a word, behind a sign. -/
def ofSigned (negative : Bool) (cs : List Char) : Binary64 :=
  let word := String.ofList (cs.map Char.toLower)
  if word = "inf" || word = "infinity" then infinite negative
  else if word = "nan" then nan
  else
    let mantissa := cs.takeWhile fun c => c ≠ 'e' && c ≠ 'E'
    let exponent : Int :=
      match cs.drop (mantissa.length + 1) with
      | '-' :: ds => -(digitsValue ds : Int)
      | '+' :: ds => digitsValue ds
      | ds => digitsValue ds
    ofUnsigned negative exponent mantissa

/-- The value of a written number with an optional decimal exponent, or of the words for infinity
and NaN in any case of letters. -/
def ofScientific : List Char → Binary64
  | '-' :: cs => ofSigned true cs
  | '+' :: cs => ofSigned false cs
  | cs => ofSigned false cs

/-! ### Comparison -/

/-- Numeric equality: the two zeros are equal, and `nan` is equal to nothing. -/
def equal : Binary64 → Binary64 → Bool
  | finite s i, finite t j => i = j && (s = t || i.val = 0)
  | infinite s, infinite t => s = t
  | _, _ => false

/-- Whether the number is neither infinite nor `nan`. -/
def isFinite : Binary64 → Bool
  | finite _ _ => true
  | _ => false

/-- Numbers that are written with the sign bit set. -/
def isNegative : Binary64 → Bool
  | finite s _ => s
  | infinite s => s
  | nan => false

end Binary64

end StoryScript
