import StoryScript.Text.Blank
import StoryScript.Text.Word

/-!
# Whole numbers as text

Whole numbers are read and written in decimal up to a limit: `Integer.maxDigits` digits. Reading
takes the digits of any script, single underscores between them, a sign in front, and blanks around
it all.
-/

namespace StoryScript.Integer

open Text

/-- How many digits are read or written at most. -/
def maxDigits : Nat := 4300

/-- Whether a number has more digits than are written. -/
def isTooLong (n : Int) : Bool := maxDigits < (Nat.toDigits 10 n.natAbs).length

/-- The digits of a text, with single underscores between them; `afterDigit` says whether a digit
stands directly in front. -/
def digits? : Bool → List Char → Option (List Nat)
  | _, [] => none
  | afterDigit, c :: cs =>
    if c = '_' then if afterDigit then digits? false cs else none
    else
      match digit? c, cs with
      | some d, [] => some [d]
      | some d, _ => (digits? true cs).map (d :: ·)
      | none, _ => none

/-- The number without a sign. -/
def magnitude? (cs : List Char) : Option Nat :=
  (digits? false cs).bind fun ds =>
    if maxDigits < ds.length then none else some (ds.foldl (fun n d => 10 * n + d) 0)

/-- A blank around a number: any but the ASCII separators FS to US. -/
def isMargin (c : Char) : Bool := isBlank c && !(28 ≤ c.toNat && c.toNat ≤ 31)

/-- The whole number in a text. -/
def read? (text : String) : Option Int :=
  match ((text.toList.dropWhile isMargin).reverse.dropWhile isMargin).reverse with
  | '-' :: cs => (magnitude? cs).map fun n => -(n : Int)
  | '+' :: cs => (magnitude? cs).map fun n => (n : Int)
  | cs => (magnitude? cs).map fun n => (n : Int)

end StoryScript.Integer
