import StoryScript.Text.Hexadecimal
import StoryScript.Text.Lines

/-!
# Addresses of hosts

How a host is written by its address instead of its name:

* `isAddress4` — four numbers below 256 with dots between them;
* `isAddress6` — eight groups of hexadecimal digits with colons between them. One gap, written as
  two colons, may stand for one group or more, the last two groups may be written as four numbers,
  and a zone may follow behind a percent sign;
* `isVersionedAddress` — a version and an address of that version.
-/

namespace StoryScript

open Text

/-! ### Four numbers -/

/-- A number below 256 without needless zeros. -/
def isOctet (cs : List Char) : Bool :=
  !cs.isEmpty && cs.length ≤ 3 && cs.all Char.isDigit &&
    (cs = ['0'] || cs.head? ≠ some '0') &&
    cs.foldl (fun n c => 10 * n + (c.toNat - 48)) 0 < 256

/-- Whether a host is written as four numbers. -/
def isAddress4 (host : List Char) : Bool :=
  let parts := splitAt '.' host
  parts.length = 4 && parts.all isOctet

/-! ### Eight groups -/

/-- One to four hexadecimal digits. -/
def isGroup (cs : List Char) : Bool :=
  !cs.isEmpty && cs.length ≤ 4 && cs.all fun c => (hexDigit? c).isSome

/-- The parts of an address with two groups in the place of four numbers at its end; none if the
last part has a dot and is not written as four numbers. -/
def withoutNumbers? (parts : List (List Char)) : Option (List (List Char)) :=
  match parts.getLast? with
  | some last =>
    if !last.contains '.' then some parts
    else if isAddress4 last then some (parts.dropLast ++ [['0'], ['0']])
    else none
  | none => none

/-- How many groups stand on one side of a gap. At the end of an address nothing may stand there. -/
def groupsBeside? (side : List (List Char)) : Option Nat :=
  if side = [[]] then some 0 else if side.all isGroup then some side.length else none

/-- Whether parts between colons make up eight groups, given that a gap stands for one or more. -/
def areEightGroups (parts : List (List Char)) : Bool :=
  match parts.tail.dropLast.findIdx? List.isEmpty with
  | none => parts.length = 8 && parts.all isGroup
  | some i =>
    match groupsBeside? (parts.take (i + 1)), groupsBeside? (parts.drop (i + 2)) with
    | some before, some behind => before + behind < 8
    | _, _ => false

/-- Whether what follows an address is a zone or nothing. -/
def isZone : List Char → Bool
  | [] => true
  | _ :: zone => !zone.isEmpty && !zone.contains '%'

/-- Whether a host is written as eight groups. -/
def isAddress6 (host : List Char) : Bool :=
  isZone (host.dropWhile (· ≠ '%')) &&
    match withoutNumbers? (splitAt ':' (host.takeWhile (· ≠ '%'))) with
    | some parts => areEightGroups parts
    | none => false

/-! ### Addresses with a version -/

/-- Whether a host is written as an address of some version: `v`, the version in hexadecimal digits,
a dot, and at least one more character. -/
def isVersionedAddress : List Char → Bool
  | 'v' :: cs =>
    let isHex (c : Char) : Bool := (hexDigit? c).isSome
    !(cs.takeWhile isHex).isEmpty &&
      match cs.dropWhile isHex with
      | '.' :: address => !address.isEmpty
      | _ => false
  | _ => false

end StoryScript
