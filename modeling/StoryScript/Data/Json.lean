import StoryScript.Data.Basic
import StoryScript.Number.Decimal
import StoryScript.Text.Hexadecimal

/-!
# JSON text

How structured data is written as JSON: one entry per line, indented by two columns per level, and
empty lists and tables on one line. Text is escaped where JSON demands it; whether characters
outside ASCII are escaped too is up to the caller. Numbers that are not finite are written
`Infinity`, `-Infinity` and `NaN`.
-/

namespace StoryScript.Data

/-- The escape of one unit of 16 bits. -/
def unitEscape (n : Nat) : List Char := '\\' :: 'u' :: Text.hexDigits 4 n

/-- The escape of a character that has no short one, as one or two units of 16 bits. -/
def wideEscape (c : Char) : List Char :=
  if c.toNat < 0x10000 then unitEscape c.toNat
  else
    let n := c.toNat - 0x10000
    unitEscape (0xd800 + n / 0x400) ++ unitEscape (0xdc00 + n % 0x400)

/-- A character inside a quoted text. -/
def escaped (ascii : Bool) (c : Char) : List Char :=
  if c = '"' then ['\\', '"']
  else if c = '\\' then ['\\', '\\']
  else if c = '\n' then ['\\', 'n']
  else if c = '\r' then ['\\', 'r']
  else if c = '\t' then ['\\', 't']
  else if c.toNat = 8 then ['\\', 'b']
  else if c.toNat = 12 then ['\\', 'f']
  else if c.toNat < 32 || (ascii && 127 ≤ c.toNat) then wideEscape c
  else [c]

/-- A text in quotes. -/
def quoted (ascii : Bool) (s : String) : String :=
  String.ofList ('"' :: s.toList.flatMap (escaped ascii) ++ ['"'])

/-- The text of a number. -/
def numberText : Binary64 → String
  | .infinite true => "-Infinity"
  | .infinite false => "Infinity"
  | .nan => "NaN"
  | x => x.shortest

/-- A line break and the indentation of a level. -/
def lineBreak (level : Nat) : String :=
  String.ofList ('\n' :: List.replicate (2 * level) ' ')

/-- Lines between brackets, one level deeper than the brackets; `level` is that of the brackets. -/
def bracketed (opening closing : String) (level : Nat) (lines : List String) : String :=
  if lines.isEmpty then opening ++ closing
  else
    opening ++ lineBreak (level + 1) ++ ("," ++ lineBreak (level + 1)).intercalate lines ++
      lineBreak level ++ closing

mutual

/-- The JSON text of a value at a level of nesting. -/
def json (ascii : Bool) (level : Nat) : Data → String
  | .null => "null"
  | .bool true => "true"
  | .bool false => "false"
  | .int n => toString n
  | .number x => numberText x
  | .text s => quoted ascii s
  | .moment s => quoted ascii s
  | .list items => bracketed "[" "]" level (jsonItems ascii (level + 1) items)
  | .table entries => bracketed "\x7b" "\x7d" level (jsonEntries ascii (level + 1) entries)

/-- The JSON texts of values. -/
def jsonItems (ascii : Bool) (level : Nat) : List Data → List String
  | [] => []
  | item :: items => item.json ascii level :: jsonItems ascii level items

/-- The JSON texts of entries. -/
def jsonEntries (ascii : Bool) (level : Nat) : List (String × Data) → List String
  | [] => []
  | (key, value) :: entries =>
    (quoted ascii key ++ ": " ++ value.json ascii level) :: jsonEntries ascii level entries

end

end StoryScript.Data
