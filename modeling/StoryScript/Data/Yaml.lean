import StoryScript.Data.Json

/-!
# YAML text

How structured data is written as YAML. A text that could stand between apostrophes is folded there:
a line separator in it counts as a line break, and a single line break reads as a space.

* `Data.folded` — the data that a reader of the YAML text gets;
* `Data.yaml` — the YAML text.
-/

namespace StoryScript

namespace Yaml

/-- A character that ends a line in YAML. -/
def isBreak (c : Char) : Bool :=
  c = '\n' || c.toNat = 0x85 || c.toNat = 0x2028 || c.toNat = 0x2029

/-- A character that can only be written as an escape. -/
def needsEscape (c : Char) : Bool :=
  let n := c.toNat
  !(c = '\n' || (0x20 ≤ n && n ≤ 0x7e) || n = 0x85 || (0xa0 ≤ n && n ≤ 0xd7ff) ||
    (0xe000 ≤ n && n ≤ 0xfffd && n ≠ 0xfeff) || (0x10000 ≤ n && n < 0x10ffff))

/-- Whether a space and a line break stand side by side. -/
def breaksAtSpace : List Char → Bool
  | a :: b :: cs =>
    (a = ' ' && isBreak b) || (isBreak a && b = ' ') || breaksAtSpace (b :: cs)
  | _ => false

/-- Whether a text is written between apostrophes on several lines. -/
def isFolded (cs : List Char) : Bool :=
  cs.any isBreak && !cs.any needsEscape && !breaksAtSpace cs

/-- A line break as it is read. -/
def readBreak (c : Char) : Char := if c.toNat = 0x85 then '\n' else c

/-- What a run of line breaks is read as. -/
def foldBreaks : List Char → List Char
  | [] => []
  | c :: cs =>
    if readBreak c ≠ '\n' then c :: cs.map readBreak
    else if cs.isEmpty then [' ']
    else cs.map readBreak

/-- What a text on several lines is read as; `breaks` are the line breaks directly before it, the
last one first. -/
def foldText (breaks : List Char) : List Char → List Char
  | [] => foldBreaks breaks.reverse
  | c :: cs =>
    if isBreak c then foldText (c :: breaks) cs
    else foldBreaks breaks.reverse ++ c :: foldText [] cs

/-- What a text is read as. -/
def readBack (s : String) : String :=
  if isFolded s.toList then String.ofList (foldText [] s.toList) else s

end Yaml

namespace Data

mutual

/-- The data that a reader of the YAML text gets. -/
def folded : Data → Data
  | .text s => .text (Yaml.readBack s)
  | .list items => .list (foldedItems items)
  | .table entries => .table (foldedEntries entries)
  | d => d

def foldedItems : List Data → List Data
  | [] => []
  | d :: ds => d.folded :: foldedItems ds

def foldedEntries : List (String × Data) → List (String × Data)
  | [] => []
  | (key, d) :: es => (key, d.folded) :: foldedEntries es

end

/-- The text of a number in YAML. -/
def yamlNumber : Binary64 → String
  | .infinite true => "-.inf"
  | .infinite false => ".inf"
  | .nan => ".nan"
  | x => x.shortest

mutual

/-- The YAML text of a value behind a key or a dash: on the same line, or indented below. -/
def yamlAt (level : Nat) : Data → String
  | .null => " null\n"
  | .bool true => " true\n"
  | .bool false => " false\n"
  | .int n => " " ++ toString n ++ "\n"
  | .number x => " " ++ yamlNumber x ++ "\n"
  | .text s => " " ++ quoted true s ++ "\n"
  | .moment s => " " ++ quoted true s ++ "\n"
  | .list [] => " []\n"
  | .list (d :: ds) => "\n" ++ yamlItems level (d :: ds)
  | .table [] => " \x7b\x7d\n"
  | .table (e :: es) => "\n" ++ yamlEntries level (e :: es)

/-- The YAML text of the items of a list, a line for each. -/
def yamlItems (level : Nat) : List Data → String
  | [] => ""
  | d :: ds =>
    String.ofList (List.replicate (2 * level) ' ') ++ "-" ++ d.yamlAt (level + 1) ++
      yamlItems level ds

/-- The YAML text of the entries of a table, a line for each. -/
def yamlEntries (level : Nat) : List (String × Data) → String
  | [] => ""
  | (key, d) :: es =>
    String.ofList (List.replicate (2 * level) ' ') ++ quoted true key ++ ":" ++
      d.yamlAt (level + 1) ++ yamlEntries level es

end

/-- The YAML text of a value. -/
def yaml (d : Data) : String :=
  match d with
  | .table (e :: es) => yamlEntries 0 (e :: es)
  | .list (d :: ds) => yamlItems 0 (d :: ds)
  | d => d.yamlAt 0

end Data

end StoryScript
