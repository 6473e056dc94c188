import StoryScript.Data.Basic

/-!
# Tables under construction

A TOML document fills tables from several places: entries with dotted keys, table headers and
headers of tables in a list. A table remembers the section that defined it, because a section may
neither define a table again nor add to a table that another section has defined by dotted keys or
a header. A table that only stood on the way to another one belongs to no section and is open to
all. Sections are numbered; the part before the first header is section zero.

* `Entries.assign` — an entry with a dotted key;
* `Entries.openTable` and `Entries.appendTable` — the two kinds of headers;
* `Entries.toData` — the finished table.
-/

namespace StoryScript.Toml

/-- What stands behind a key. -/
inductive Node where
  /-- A value that nothing can be added to. -/
  | value (data : Data)
  /-- A table and the section that defined it. -/
  | table (owner : Option Nat) (entries : List (String × Node))
  /-- The tables of a list that headers fill, the last one first. -/
  | tables (last : List (String × Node)) (earlier : List (List (String × Node)))
  deriving Inhabited

/-- The entries of a table in the order in which they were made. -/
abbrev Entries := List (String × Node)

namespace Entries

/-- Give a key that has an entry another node. -/
def put (key : String) (node : Node) (es : Entries) : Entries :=
  es.map fun (k, old) => (k, if k = key then node else old)

/-- Change the table that a path leads to; tables that are missing on the way are made. -/
def changeAt (f : Entries → Option Entries) : List String → Entries → Option Entries
  | [], es => f es
  | key :: path, es =>
    match es.lookup key with
    | none => (changeAt f path []).map fun inner => es ++ [(key, .table none inner)]
    | some (.table owner inner) =>
      (changeAt f path inner).map fun inner => es.put key (.table owner inner)
    | some (.tables last earlier) =>
      (changeAt f path last).map fun last => es.put key (.tables last earlier)
    | some (.value _) => none

/-- Put a value behind a dotted key. The tables on the way belong to the section from then on. -/
def assign (section_ : Nat) (value : Data) : List String → Entries → Option Entries
  | [], _ => none
  | [key], es => if (es.lookup key).isSome then none else some (es ++ [(key, .value value)])
  | key :: path, es =>
    match es.lookup key with
    | none => (assign section_ value path []).map fun inner =>
      es ++ [(key, .table (some section_) inner)]
    | some (.table owner inner) =>
      if owner.isNone || owner = some section_ then
        (assign section_ value path inner).map fun inner =>
          es.put key (.table (some section_) inner)
      else none
    | some _ => none

/-- Define the table behind a key. -/
def define (section_ : Nat) (key : String) (es : Entries) : Option Entries :=
  match es.lookup key with
  | none => some (es ++ [(key, .table (some section_) [])])
  | some (.table none inner) => some (es.put key (.table (some section_) inner))
  | some _ => none

/-- Add a table to the list behind a key. -/
def extend (key : String) (es : Entries) : Option Entries :=
  match es.lookup key with
  | none => some (es ++ [(key, .tables [] [])])
  | some (.tables last earlier) => some (es.put key (.tables [] (last :: earlier)))
  | some _ => none

/-- Define the table that a header names. -/
def openTable (section_ : Nat) (path : List String) (es : Entries) : Option Entries :=
  path.getLast?.bind fun key => changeAt (define section_ key) path.dropLast es

/-- Add a table to the list that a header names. -/
def appendTable (path : List String) (es : Entries) : Option Entries :=
  path.getLast?.bind fun key => changeAt (extend key) path.dropLast es

end Entries

mutual

/-- The value of a node. -/
def Node.toData : Node → Data
  | .value d => d
  | .table _ es => .table (entriesData es)
  | .tables last earlier => .list ((.table (entriesData last) :: tablesData earlier).reverse)

/-- The values of entries. -/
def entriesData : List (String × Node) → List (String × Data)
  | [] => []
  | (key, node) :: es => (key, node.toData) :: entriesData es

/-- The values of tables. -/
def tablesData : List (List (String × Node)) → List Data
  | [] => []
  | es :: rest => .table (entriesData es) :: tablesData rest

end

/-- The finished table. -/
def Entries.toData (es : Entries) : Data := .table (entriesData es)

end StoryScript.Toml
