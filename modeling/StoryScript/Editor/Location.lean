import StoryScript.Editor.Authority
import StoryScript.Files.Fault
import StoryScript.Files.Path
import StoryScript.Text.Bytes

/-!
# Locations of documents

An editor names a document by a URI. `DocumentUri.read` gives the parts of a URI that say where the
document is, with percent escapes resolved; a URI with a malformed authority has none.

* `locationPath` — the path of a document: what stands behind the scheme and the authority and
  before parameters, query and fragment, without the slash in front of a drive letter;
* `unopenedFault?` — why a document that is not open cannot be looked for.
-/

namespace StoryScript

open Text

/-! ### Percent escapes -/

/-- A byte, written as an ASCII character or as an escape, or a character outside ASCII. -/
abbrev UriUnit := Nat ⊕ Char

/-- A character that is not part of an escape. -/
def plainUnit (c : Char) : UriUnit := if c.toNat < 128 then .inl c.toNat else .inr c

/-- The units of a text. -/
def uriUnits : List Char → List UriUnit
  | '%' :: a :: b :: cs =>
    match hexDigit? a, hexDigit? b with
    | some x, some y => .inl (16 * x + y) :: uriUnits cs
    | _, _ => .inl '%'.toNat :: uriUnits (a :: b :: cs)
  | c :: cs => plainUnit c :: uriUnits cs
  | [] => []

/-- The characters of units; `bytes` are those directly before them, the last one first. -/
def unitsText (bytes : List Nat) : List UriUnit → List Char
  | [] => decodeBytes bytes.reverse
  | .inl b :: units => unitsText (b :: bytes) units
  | .inr c :: units => decodeBytes bytes.reverse ++ c :: unitsText [] units

/-- A text with its percent escapes resolved. -/
def unescape (cs : List Char) : List Char :=
  if cs.contains '%' then unitsText [] (uriUnits cs) else cs

/-! ### The parts of a URI -/

/-- The characters before the first one of some kind. -/
def before (p : Char → Bool) (cs : List Char) : List Char := cs.takeWhile fun c => !p c

/-- A URI without the blanks and controls in front of it and without TAB and line breaks. -/
def cleanUri (cs : List Char) : List Char :=
  (cs.dropWhile (·.toNat ≤ 32)).filter fun c => c ≠ '\t' && c ≠ '\n' && c ≠ '\r'

def isAsciiLetter (c : Char) : Bool := ('a' ≤ c && c ≤ 'z') || ('A' ≤ c && c ≤ 'Z')

def isSchemeChar (c : Char) : Bool :=
  isAsciiLetter c || ('0' ≤ c && c ≤ '9') || c = '+' || c = '-' || c = '.'

/-- The scheme, empty if there is none, and what follows. -/
def splitScheme (cs : List Char) : List Char × List Char :=
  let scheme := before (· = ':') cs
  if (scheme.head?.any isAsciiLetter) && scheme.all isSchemeChar && scheme.length < cs.length then
    (scheme.map Char.toLower, cs.drop (scheme.length + 1))
  else ([], cs)

/-- The authority, empty if there is none, and what follows. It must be well-formed. -/
def splitAuthority : List Char → Except AuthorityError (List Char × List Char)
  | '/' :: '/' :: cs => do
    let authority := before (fun c => c = '/' || c = '?' || c = '#') cs
    checkAuthority authority
    return (authority, cs.drop authority.length)
  | cs => .ok ([], cs)

/-- The schemes whose last path segment can have parameters; the empty one stands for none. -/
def parameterSchemes : List String :=
  ["", "ftp", "hdl", "prospero", "http", "imap", "https", "shttp", "rtsp", "rtspu", "sip", "sips",
   "mms", "sftp", "tel"]

/-- A path without the parameters of its last segment. -/
def dropParameters (path : List Char) : List Char :=
  let segment := path.reverse.takeWhile (· ≠ '/') |>.reverse
  path.take (path.length - segment.length) ++ before (· = ';') segment

/-! ### Where a document is -/

/-- The parts of a URI that say where a document is. -/
structure DocumentUri where
  scheme : String
  authority : List Char
  path : List Char

/-- The parts of a URI, with percent escapes resolved. -/
def DocumentUri.read (uri : String) : Except AuthorityError DocumentUri := do
  let (scheme, rest) := splitScheme (cleanUri uri.toList)
  let scheme := String.ofList scheme
  let (authority, rest) ← splitAuthority rest
  let path := before (· = '?') (before (· = '#') rest)
  let path := if parameterSchemes.contains scheme then dropParameters path else path
  return ⟨scheme, unescape authority, unescape path⟩

/-- A path without the slash in front of a drive letter. -/
def dropDriveSlash : List Char → List Char
  | '/' :: drive :: ':' :: cs => drive :: ':' :: cs
  | path => path

/-- The path in a URI. -/
def locationPath (uri : String) : Except AuthorityError Path :=
  (DocumentUri.read uri).map fun u => Path.ofString (String.ofList (dropDriveSlash u.path))

/-- The file of a document, as its URI spells it. The authority in front of a path to a file names
the computer that shares the file. -/
def DocumentUri.file (u : DocumentUri) : List Char :=
  if u.scheme = "file" && u.path ≠ [] then u.authority ++ u.path else u.path

/-- What breaks off looking for a document that is not open. -/
def unopenedFault? (uri : String) : Except AuthorityError (Option Fault) :=
  (DocumentUri.read uri).map fun u =>
    if u.file.contains (Char.ofNat 0) then some .nullInPath else none

end StoryScript
