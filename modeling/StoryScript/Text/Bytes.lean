import StoryScript.Text.Hexadecimal

/-!
# Bytes as text

Text that is given as bytes in UTF-8, well-formed or not. `decodeBytes` puts a replacement character
in the place of every part that is not well-formed; such a part is as long as it could still have
become a character. `decodingError?` finds the first of these parts.
-/

namespace StoryScript.Text

/-- The ranges of the bytes that may follow a first byte; none if no character starts with it. -/
def followers? (first : Nat) : Option (List (Nat × Nat)) :=
  let any := (0x80, 0xbf)
  if first < 0x80 then some []
  else if first < 0xc2 then none
  else if first < 0xe0 then some [any]
  else if first = 0xe0 then some [(0xa0, 0xbf), any]
  else if first = 0xed then some [(0x80, 0x9f), any]
  else if first < 0xf0 then some [any, any]
  else if first = 0xf0 then some [(0x90, 0xbf), any, any]
  else if first < 0xf4 then some [any, any, any]
  else if first = 0xf4 then some [(0x80, 0x8f), any, any]
  else none

/-- How many of the ranges the bytes fit, one after the other. -/
def fitting : List (Nat × Nat) → List Nat → Nat
  | (low, high) :: ranges, b :: bytes =>
    if low ≤ b && b ≤ high then fitting ranges bytes + 1 else 0
  | _, _ => 0

/-- The bits of a first byte that count when `count` bytes follow. -/
def leadingBits (first count : Nat) : Nat :=
  if count = 0 then first else first % Nat.pow 2 (6 - count)

/-- The character that a first byte and those behind it stand for. -/
def characterOf (first : Nat) (behind : List Nat) : Char :=
  Char.ofNat (behind.foldl (fun n b => n * 64 + b % 64) (leadingBits first behind.length))

/-- The character that stands for what is not well-formed. -/
def replacement : Char := Char.ofNat 0xfffd

/-- The first character of bytes, and how many bytes behind the first one belong to it. -/
def firstCharacter (first : Nat) (bytes : List Nat) : Char × Nat :=
  match followers? first with
  | none => (replacement, 0)
  | some ranges =>
    let count := fitting ranges bytes
    (if count = ranges.length then characterOf first (bytes.take count) else replacement, count)

/-- The characters of bytes; `skip` bytes belong to the character before them. -/
def decodeFrom : Nat → List Nat → List Char
  | _, [] => []
  | skip + 1, _ :: bytes => decodeFrom skip bytes
  | 0, first :: bytes =>
    let (c, count) := firstCharacter first bytes
    c :: decodeFrom count bytes

/-- The characters of bytes. -/
def decodeBytes (bytes : List Nat) : List Char := decodeFrom 0 bytes

/-! ### What is not well-formed -/

/-- What is wrong with a part of bytes. -/
inductive DecodingFlaw where
  /-- No character starts with its first byte. -/
  | badStart
  /-- The byte behind it does not belong to the character that it starts. -/
  | badContinuation
  /-- The bytes end before the character does. -/
  | endsEarly
  deriving DecidableEq, Repr, Inhabited

/-- A part of bytes that is not well-formed: where it begins, its bytes, and what is wrong. -/
structure DecodingError where
  position : Nat
  bytes : List Nat
  flaw : DecodingFlaw
  deriving DecidableEq, Repr, Inhabited

/-- The first part of bytes that is not well-formed. The bytes begin at a position, and `skip` of
them belong to the character before them. -/
def decodingErrorFrom? : Nat → Nat → List Nat → Option DecodingError
  | _, _, [] => none
  | skip + 1, position, _ :: bytes => decodingErrorFrom? skip (position + 1) bytes
  | 0, position, first :: bytes =>
    match followers? first with
    | none => some ⟨position, [first], .badStart⟩
    | some ranges =>
      let count := fitting ranges bytes
      if count = ranges.length then decodingErrorFrom? count (position + 1) bytes
      else
        let flaw := if count = bytes.length then .endsEarly else .badContinuation
        some ⟨position, first :: bytes.take count, flaw⟩

/-- The first part of bytes that is not well-formed. -/
def decodingError? (bytes : List Nat) : Option DecodingError := decodingErrorFrom? 0 0 bytes

/-- What is wrong, in words. -/
def DecodingFlaw.message : DecodingFlaw → String
  | badStart => "invalid start byte"
  | badContinuation => "invalid continuation byte"
  | endsEarly => "unexpected end of data"

/-- A single byte is shown in hexadecimal, more of them only by their positions. -/
def DecodingError.message (e : DecodingError) : String :=
  let place :=
    match e.bytes with
    | [b] => "byte 0x" ++ String.ofList (hexDigits 2 b) ++ " in position " ++ toString e.position
    | bytes =>
      "bytes in position " ++ toString e.position ++ "-" ++
        toString (e.position + bytes.length - 1)
  "'utf-8' codec can't decode " ++ place ++ ": " ++ e.flaw.message

end StoryScript.Text
