import StoryScript.Text.WordTable

/-!
# Word characters and decimal digits

* `Text.isWord` — a letter, a number or the underscore; names and divert targets are made of these.
* `Text.digit?` — the value of a decimal digit of any script. A script's ten digits are consecutive
  code points, so the table holds only where each run of ten begins.
-/

namespace StoryScript.Text

/-- Whether `n` lies in one of the closed ranges. -/
def inRanges (ranges : List (Nat × Nat)) (n : Nat) : Bool :=
  ranges.any fun r => r.1 ≤ n && n ≤ r.2

/-- Whether a character is a letter or a number. -/
def isAlnum (c : Char) : Bool :=
  if c.toNat < 128 then c.isAlphanum else inRanges wordRanges c.toNat

/-- Whether a character may stand in a name: a letter, a number or the underscore. -/
def isWord (c : Char) : Bool := c = '_' || isAlnum c

/-- Where the runs of ten decimal digits above U+007F begin. -/
def digitStarts : List Nat :=
  [1632, 1776, 1984, 2406, 2534, 2662, 2790, 2918, 3046, 3174, 3302, 3430, 3558, 3664, 3792, 3872,
   4160, 4240, 6112, 6160, 6470, 6608, 6784, 6800, 6992, 7088, 7232, 7248, 42528, 43216, 43264,
   43472, 43504, 43600, 44016, 65296, 66720, 68912, 69734, 69872, 69942, 70096, 70384, 70736, 70864,
   71248, 71360, 71472, 71904, 72016, 72784, 73040, 73120, 92768, 92864, 93008, 120782, 120792,
   120802, 120812, 120822, 123200, 123632, 125264, 130032]

/-- The value of a decimal digit of any script. -/
def digit? (c : Char) : Option Nat :=
  if c.toNat < 128 then
    if c.isDigit then some (c.toNat - 48) else none
  else
    (digitStarts.find? fun s => s ≤ c.toNat && c.toNat < s + 10).map (c.toNat - ·)

/-- Whether a character is a decimal digit of some script. -/
def isDigit (c : Char) : Bool := (digit? c).isSome

end StoryScript.Text
