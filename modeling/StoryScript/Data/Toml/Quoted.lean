import StoryScript.Text.Hexadecimal
import StoryScript.Text.Scan

/-!
# Texts in TOML

The four kinds of texts: in double quotes with escapes or in apostrophes without, on one line or
between three quotes on several. Behind a text on several lines up to two more quotes belong to the
text. Each reader takes the characters behind the opening quotes.
-/

namespace StoryScript.Toml

open Text

/-- A control character other than TAB, which no text and no comment may hold. -/
def isControl (c : Char) : Bool := (c.toNat < 32 && c ≠ '\t') || c.toNat = 127

/-- A character that may stand in a text; only one on several lines has line feeds. -/
def isPlain (multiline : Bool) (c : Char) : Bool := (multiline && c = '\n') || !isControl c

/-- A blank inside a line. -/
def isSpace (c : Char) : Bool := c = ' ' || c = '\t'

/-- A blank or a line feed. -/
def isSpaceOrBreak (c : Char) : Bool := isSpace c || c = '\n'

/-- The character of a code written with exactly `count` hexadecimal digits. -/
def codePoint? (count : Nat) (cs : List Char) : Option (Char × List Char) := do
  let digits ← (cs.take count).mapM hexDigit?
  let code := digits.foldl (fun n d => n * 16 + d) 0
  if digits.length = count && code.isValidChar then some (Char.ofNat code, cs.drop count) else none

/-- What the characters behind a backslash stand for, and the characters left. A text on several
lines may break behind a backslash: the break and all blanks around it stand for nothing. -/
def escape? (multiline : Bool) : List Char → Option (List Char × List Char)
  | 'b' :: cs => some ([Char.ofNat 8], cs)
  | 't' :: cs => some (['\t'], cs)
  | 'n' :: cs => some (['\n'], cs)
  | 'f' :: cs => some ([Char.ofNat 12], cs)
  | 'r' :: cs => some (['\r'], cs)
  | '"' :: cs => some (['"'], cs)
  | '\\' :: cs => some (['\\'], cs)
  | 'u' :: cs => (codePoint? 4 cs).map fun (c, rest) => ([c], rest)
  | 'U' :: cs => (codePoint? 8 cs).map fun (c, rest) => ([c], rest)
  | c :: cs =>
    if multiline && isSpaceOrBreak c then
      match (c :: cs).dropWhile isSpace with
      | [] => some ([], [])
      | '\n' :: rest => some ([], rest.dropWhile isSpaceOrBreak)
      | _ => none
    else none
  | [] => none

/-- Read up to three closing double quotes, or up to one on a single line. Every step takes at
least one character, so `fuel` characters are read at most. -/
def basic? (multiline : Bool) : Nat → List Char → Option (List Char × List Char)
  | 0, _ => none
  | _, [] => none
  | fuel + 1, c :: cs =>
    if c = '"' then
      if !multiline then some ([], cs)
      else
        match cs with
        | '"' :: '"' :: rest => some ([], rest)
        | _ => (basic? multiline fuel cs).map fun (text, rest) => ('"' :: text, rest)
    else if c = '\\' then do
      let (text, rest) ← escape? multiline cs
      let (more, rest) ← basic? multiline fuel rest
      some (text ++ more, rest)
    else if isPlain multiline c then
      (basic? multiline fuel cs).map fun (text, rest) => (c :: text, rest)
    else none

/-- Read up to the closing apostrophe. -/
def literal? (cs : List Char) : Option (List Char × List Char) := do
  let text := cs.takeWhile (· ≠ '\'')
  let rest ← lit? "'" (cs.dropWhile (· ≠ '\''))
  if text.all (isPlain false) then some (text, rest) else none

/-- Read up to three closing apostrophes. -/
def multilineLiteral? : List Char → Option (List Char × List Char)
  | '\'' :: '\'' :: '\'' :: rest => some ([], rest)
  | c :: cs =>
    if isPlain true c then (multilineLiteral? cs).map fun (text, rest) => (c :: text, rest)
    else none
  | [] => none

/-- Add the quotes behind a text that belong to it, at most two. -/
def withMoreQuotes (quote : Char) : List Char × List Char → List Char × List Char
  | (text, rest) =>
    let more := (rest.take 2).takeWhile (· = quote)
    (text ++ more, rest.drop more.length)

/-- A line feed directly behind three opening quotes does not count. -/
def skipBreak : List Char → List Char
  | '\n' :: cs => cs
  | cs => cs

/-- Read a text on one line, with its opening quote. -/
def oneLine? (cs : List Char) : Option (List Char × List Char) :=
  match cs with
  | '"' :: rest => basic? false rest.length rest
  | '\'' :: rest => literal? rest
  | _ => none

/-- Read a text of any kind. -/
def text? (cs : List Char) : Option (List Char × List Char) :=
  match cs with
  | '"' :: '"' :: '"' :: rest =>
    (basic? true rest.length (skipBreak rest)).map (withMoreQuotes '"')
  | '\'' :: '\'' :: '\'' :: rest =>
    (multilineLiteral? (skipBreak rest)).map (withMoreQuotes '\'')
  | _ => oneLine? cs

end StoryScript.Toml
