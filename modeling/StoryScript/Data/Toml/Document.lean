import StoryScript.Data.Toml.Number
import StoryScript.Data.Toml.Table
import StoryScript.Text.Lines

/-!
# TOML documents

A document is a sequence of statements, one per line: entries, headers of tables and headers of
tables in a list. `Toml.read` gives the table that a document describes, or the first error in it.
-/

namespace StoryScript.Toml

open Text

/-- Skip a comment, if there is one; it must not hold control characters. -/
def comment? : List Char → Option (List Char)
  | '#' :: cs =>
    if (cs.takeWhile (· ≠ '\n')).any isControl then none else some (cs.dropWhile (· ≠ '\n'))
  | cs => some cs

/-- Skip blanks, line feeds and comments. Every round but the last skips something. -/
def filler? : Nat → List Char → Option (List Char)
  | 0, cs => some cs
  | fuel + 1, cs => do
    let rest ← comment? (cs.dropWhile isSpaceOrBreak)
    if rest.length = cs.length then some rest else filler? fuel rest

/-- Skip blanks. -/
def skipSpaces (cs : List Char) : List Char := cs.dropWhile isSpace

/-! ### Keys -/

/-- A character of a key without quotes. -/
def isKeyChar (c : Char) : Bool :=
  ('a' ≤ c && c ≤ 'z') || ('A' ≤ c && c ≤ 'Z') || isDecimal c || c = '-' || c = '_'

/-- Read one part of a key. -/
def keyPart? (cs : List Char) : Option (String × List Char) :=
  ((run? isKeyChar cs).orElse fun _ => oneLine? cs).map fun (part, rest) =>
    (String.ofList part, rest)

/-- Read the parts of a dotted key; every part takes a character. -/
def keyParts? : Nat → List Char → Option (List String × List Char)
  | 0, _ => none
  | fuel + 1, cs => do
    let (part, rest) ← keyPart? cs
    match skipSpaces rest with
    | '.' :: rest =>
      let (parts, rest) ← keyParts? fuel (skipSpaces rest)
      some (part :: parts, rest)
    | rest => some ([part], rest)

/-- Read a dotted key and the blanks behind it. -/
def key? (cs : List Char) : Option (List String × List Char) := keyParts? cs.length cs

/-! ### Values

The readers call each other with less fuel each time. Between two calls of `value` a character is
read, so twice as much fuel as there are characters is enough. -/

mutual

/-- Read a value. -/
def value : Nat → List Char → Except ReadError (Data × List Char)
  | 0, _ => .error .malformed
  | fuel + 1, cs =>
    match cs with
    | '"' :: _ | '\'' :: _ => do
      let (text, rest) ← required (text? cs)
      return (.text (String.ofList text), rest)
    | '[' :: rest => do
      match ← required (filler? rest.length rest) with
      | ']' :: rest => return (.list [], rest)
      | rest =>
        let (found, rest) ← items fuel rest
        return (.list found, rest)
    | '{' :: rest =>
      match skipSpaces rest with
      | '}' :: rest => .ok (.table [], rest)
      | rest => do
        let (es, rest) ← inner fuel [] rest
        return (es.toData, rest)
    | _ =>
      match lit? "true" cs, lit? "false" cs with
      | some rest, _ => .ok (.bool true, rest)
      | _, some rest => .ok (.bool false, rest)
      | _, _ => numberOrMoment cs

/-- Read the items of a list up to its end. -/
def items : Nat → List Char → Except ReadError (List Data × List Char)
  | 0, _ => .error .malformed
  | fuel + 1, cs => do
    let (item, rest) ← value fuel cs
    match ← required (filler? rest.length rest) with
    | ']' :: rest => return ([item], rest)
    | ',' :: rest =>
      match ← required (filler? rest.length rest) with
      | ']' :: rest => return ([item], rest)
      | rest =>
        let (more, rest) ← items fuel rest
        return (item :: more, rest)
    | _ => throw .malformed

/-- Read the entries of a table inside a line up to its end. -/
def inner : Nat → Entries → List Char → Except ReadError (Entries × List Char)
  | 0, _, _ => .error .malformed
  | fuel + 1, es, cs => do
    let (key, rest) ← required (key? cs)
    let rest ← required (lit? "=" rest)
    let (data, rest) ← value fuel (skipSpaces rest)
    let es ← required (Entries.assign 0 data key es)
    match skipSpaces rest with
    | '}' :: rest => return (es, rest)
    | ',' :: rest => inner fuel es (skipSpaces rest)
    | _ => throw .malformed

end

/-! ### Statements -/

/-- What has been read of a document. -/
structure Reading where
  entries : Entries := []
  /-- The path of the present section. -/
  header : List String := []
  /-- The number of the present section. -/
  number : Nat := 0

namespace Reading

/-- Read a header of a table. -/
def tableHeader? (r : Reading) (cs : List Char) : Option (Reading × List Char) := do
  let (path, rest) ← key? (skipSpaces cs)
  let entries ← r.entries.openTable (r.number + 1) path
  let rest ← lit? "]" rest
  some (⟨entries, path, r.number + 1⟩, rest)

/-- Read a header of a table in a list. -/
def listHeader? (r : Reading) (cs : List Char) : Option (Reading × List Char) := do
  let (path, rest) ← key? (skipSpaces cs)
  let entries ← r.entries.appendTable path
  let rest ← lit? "]]" rest
  some (⟨entries, path, r.number + 1⟩, rest)

/-- Read an entry of the present section. -/
def entry (r : Reading) (cs : List Char) : Except ReadError (Reading × List Char) := do
  let (key, rest) ← required (key? cs)
  let rest ← required (lit? "=" rest)
  let (data, rest) ← value (2 * cs.length) (skipSpaces rest)
  let entries ← required (Entries.changeAt (Entries.assign r.number data key) r.header r.entries)
  return ({ r with entries }, rest)

/-- Read a statement, if there is one. -/
def statement (r : Reading) (cs : List Char) : Except ReadError (Reading × List Char) :=
  match cs with
  | '[' :: '[' :: rest => required (r.listHeader? rest)
  | '[' :: rest => required (r.tableHeader? rest)
  | [] | '\n' :: _ | '#' :: _ => .ok (r, cs)
  | _ => r.entry cs

/-- Read line after line; each takes at least its line feed. -/
def document : Nat → Reading → List Char → Except ReadError Reading
  | 0, _, _ => .error .malformed
  | fuel + 1, r, cs => do
    let (r, rest) ← r.statement (skipSpaces cs)
    match ← required (comment? (skipSpaces rest)) with
    | [] => return r
    | '\n' :: rest => r.document fuel rest
    | _ => throw .malformed

end Reading

/-- The table that a document describes. -/
def read (text : String) : Except ReadError Data :=
  let cs := dropCarriageReturns text.toList
  (Reading.document (cs.length + 1) {} cs).map (·.entries.toData)

end StoryScript.Toml
