import StoryScript.Number.Binary64
import StoryScript.Number.Integer

/-!
# Structured data

The values that are exchanged with other programs: configuration files are read into them, and
models and reports are written from them. A table keeps its entries in order; of several entries
with one key the first counts.
-/

namespace StoryScript

/-- A structured value. -/
inductive Data where
  | null
  | bool (value : Bool)
  | int (value : Int)
  | number (value : Binary64)
  | text (value : String)
  /-- A date, a time or both, as it is written. -/
  | moment (value : String)
  | list (items : List Data)
  | table (entries : List (String × Data))
  deriving Inhabited

namespace Data

/-- The value behind a key. -/
def get? (key : String) : Data → Option Data
  | table entries => (entries.find? (·.1 = key)).map (·.2)
  | _ => none

/-- The entries of a table; no other value has any. -/
def entries : Data → List (String × Data)
  | table es => es
  | _ => []

def ofOption (f : α → Data) : Option α → Data
  | some a => f a
  | none => null

mutual

/-- Whether a whole number in a value has too many digits to be written. -/
def hasLongInteger : Data → Bool
  | int n => Integer.isTooLong n
  | list items => anyLongInteger items
  | table entries => anyLongEntry entries
  | _ => false

/-- Whether a whole number in a list of values has too many digits to be written. -/
def anyLongInteger : List Data → Bool
  | [] => false
  | d :: ds => d.hasLongInteger || anyLongInteger ds

/-- Whether a whole number in the values of entries has too many digits to be written. -/
def anyLongEntry : List (String × Data) → Bool
  | [] => false
  | (_, d) :: es => d.hasLongInteger || anyLongEntry es

end

/-- A list of texts. -/
def texts (xs : List String) : Data := list (xs.map text)

end Data

end StoryScript
