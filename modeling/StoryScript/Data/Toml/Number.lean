import StoryScript.Data.Basic
import StoryScript.Data.Toml.Quoted
import StoryScript.Number.Integer

/-!
# Numbers and moments in TOML

Integers in four bases, numbers with a fraction or an exponent, infinity and NaN; dates, times and
both together. Underscores may stand between digits. Each reader reads as much as it can and gives
the value and the characters left.

A decimal integer with more digits than `Integer.maxDigits` has no value; integers in other bases
may have any length.
-/

namespace StoryScript.Toml

open Text

/-- Why a document describes no table. -/
inductive ReadError where
  | malformed
  /-- A decimal integer has too many digits. -/
  | integerTooLong (digits : Nat)
  deriving DecidableEq, Repr

/-- What a reader that may find nothing has found; a document needs it. -/
def required : Option α → Except ReadError α
  | some a => .ok a
  | none => .error .malformed

/-- A decimal digit; only ASCII digits count. -/
def isDecimal (c : Char) : Bool := '0' ≤ c && c ≤ '9'

/-- The characters behind the first one of a run of digits in which underscores stand only between
digits: those that belong to the run, without underscores, and those left. -/
def digitsBehind (p : Char → Bool) : List Char → List Char × List Char
  | [] => ([], [])
  | '_' :: c :: cs =>
    if p c then
      let (digits, rest) := digitsBehind p cs
      (c :: digits, rest)
    else ([], '_' :: c :: cs)
  | c :: cs =>
    if p c then
      let (digits, rest) := digitsBehind p cs
      (c :: digits, rest)
    else ([], c :: cs)

/-- Read digits of a class, at least one. -/
def digits? (p : Char → Bool) : List Char → Option (List Char × List Char)
  | [] => none
  | c :: cs =>
    if p c then
      let (digits, rest) := digitsBehind p cs
      some (c :: digits, rest)
    else none

/-- The value of digits in a base. -/
def valueIn (base : Nat) (digits : List Char) : Nat :=
  digits.foldl (fun n c => n * base + (hexDigit? c).getD 0) 0

/-- Read an integer in base 16, 8 or 2. -/
def prefixed? : List Char → Option (Data × List Char)
  | '0' :: b :: cs =>
    let read (base : Nat) (p : Char → Bool) : Option (Data × List Char) :=
      (digits? p cs).map fun (digits, rest) => (.int (valueIn base digits), rest)
    if b = 'x' then read 16 fun c => (hexDigit? c).isSome
    else if b = 'o' then read 8 fun c => '0' ≤ c && c ≤ '7'
    else if b = 'b' then read 2 fun c => c = '0' || c = '1'
    else none
  | _ => none

/-- The sign in front of a number, if any. -/
def sign (cs : List Char) : List Char × List Char :=
  match cs with
  | '+' :: rest => (['+'], rest)
  | '-' :: rest => (['-'], rest)
  | _ => ([], cs)

/-- Read the whole part of a decimal number; a leading zero stands alone. -/
def whole? : List Char → Option (List Char × List Char)
  | '0' :: cs => some (['0'], cs)
  | cs => digits? isDecimal cs

/-- Read a point and digits, or nothing. -/
def fraction (cs : List Char) : List Char × List Char :=
  match lit? "." cs >>= digits? isDecimal with
  | some (digits, rest) => ('.' :: digits, rest)
  | none => ([], cs)

/-- Read an exponent, or nothing. -/
def exponent (cs : List Char) : List Char × List Char :=
  match cs with
  | e :: rest =>
    if e = 'e' || e = 'E' then
      let (s, rest) := sign rest
      match digits? isDecimal rest with
      | some (digits, rest) => ('e' :: s ++ digits, rest)
      | none => ([], cs)
    else ([], cs)
  | [] => ([], cs)

/-- The integer of a sign and decimal digits. -/
def integer (sign digits : List Char) : Except ReadError Data :=
  if Integer.maxDigits < digits.length then .error (.integerTooLong digits.length)
  else
    let n : Int := valueIn 10 digits
    .ok (.int (if sign = ['-'] then -n else n))

/-- Read a decimal number: an integer if it has neither fraction nor exponent. -/
def decimal? (cs : List Char) : Option (Except ReadError Data × List Char) := do
  let (s, rest) := sign cs
  let (whole, rest) ← whole? rest
  let (frac, rest) := fraction rest
  let (exp, rest) := exponent rest
  if frac.isEmpty && exp.isEmpty then some (integer s whole, rest)
  else some (.ok (.number (Binary64.ofScientific (s ++ whole ++ frac ++ exp))), rest)

/-- Read infinity or NaN. -/
def special? (cs : List Char) : Option (Data × List Char) := do
  let (s, rest) := sign cs
  let rest ← (lit? "inf" rest).orElse fun _ => lit? "nan" rest
  some (.number (Binary64.ofScientific (cs.take (s.length + 3))), rest)

/-! ### Moments -/

/-- Read exactly `count` digits whose value lies in a range. -/
def field? (count low high : Nat) (cs : List Char) : Option (Nat × List Char) :=
  let digits := cs.take count
  let n := valueIn 10 digits
  if digits.length = count && digits.all isDecimal && low ≤ n && n ≤ high then
    some (n, cs.drop count)
  else none

/-- Read an hour and a minute. -/
def clock? (cs : List Char) : Option (List Char) := do
  let (_, rest) ← field? 2 0 23 cs
  let rest ← lit? ":" rest
  let (_, rest) ← field? 2 0 59 rest
  some rest

/-- Read a time of day: hour, minute and second, and a fraction of the second. -/
def time? (cs : List Char) : Option (List Char) := do
  let rest ← lit? ":" (← clock? cs)
  let (_, rest) ← field? 2 0 59 rest
  match lit? "." rest >>= run? isDecimal with
  | some (_, rest) => some rest
  | none => some rest

/-- Read an offset from universal time, or nothing. -/
def offset (cs : List Char) : List Char :=
  match cs with
  | c :: rest =>
    if c = 'Z' || c = 'z' then rest
    else if c = '+' || c = '-' then (clock? rest).getD cs
    else cs
  | [] => cs

/-- The number of days in a month. -/
def daysIn (year month : Nat) : Nat :=
  if month = 2 then
    if year % 4 = 0 && (year % 100 ≠ 0 || year % 400 = 0) then 29 else 28
  else if [4, 6, 9, 11].contains month then 30
  else 31

/-- Read a date: whether there is such a day, and the characters left. -/
def date? (cs : List Char) : Option (Bool × List Char) := do
  let (year, rest) ← field? 4 0 9999 cs
  let rest ← lit? "-" rest
  let (month, rest) ← field? 2 1 12 rest
  let rest ← lit? "-" rest
  let (day, rest) ← field? 2 1 31 rest
  some (1 ≤ year && day ≤ daysIn year month, rest)

/-- Read a date and the time of day behind it, if there is one. -/
def dated? (cs : List Char) : Option (Bool × List Char) := do
  let (exists_, rest) ← date? cs
  match rest with
  | c :: behind =>
    if c = 'T' || c = 't' || c = ' ' then
      match time? behind with
      | some rest => some (exists_, offset rest)
      | none => some (exists_, rest)
    else some (exists_, rest)
  | [] => some (exists_, rest)

/-- What was read from `cs` when `rest` is left. -/
def momentIn (cs rest : List Char) : Data :=
  .moment (String.ofList (cs.take (cs.length - rest.length)))

/-- Read a number. -/
def number (cs : List Char) : Except ReadError (Data × List Char) :=
  match prefixed? cs, decimal? cs with
  | some found, _ => .ok found
  | none, some (value, rest) => value.map fun value => (value, rest)
  | none, none => required (special? cs)

/-- Read a number or a moment. What looks like a date has to be one. -/
def numberOrMoment (cs : List Char) : Except ReadError (Data × List Char) :=
  match dated? cs with
  | some (exists_, rest) => if exists_ then .ok (momentIn cs rest, rest) else .error .malformed
  | none =>
    match time? cs with
    | some rest => .ok (momentIn cs rest, rest)
    | none => number cs

end StoryScript.Toml
