import StoryScript.Editor.Address
import StoryScript.Text.Quoted

/-!
# Authorities of URIs

The authority of a URI names a host, perhaps with a user and an `@` in front and a colon and a
number behind. Brackets stand around a host that is written by its address, and nowhere else; a host
in brackets is no name and no address of four numbers. No character of an authority may stand for
one that ends it.
-/

namespace StoryScript

/-- Why an authority is malformed. -/
inductive AuthorityError where
  /-- There is a bracket without the other one, or something between a bracket and the ends. -/
  | strayBracket
  /-- The host in brackets starts like an address with a version and is none. -/
  | malformedVersion
  /-- The host in brackets is an address of four numbers. -/
  | bracketedNumbers
  /-- The host in brackets is no address. -/
  | notAnAddress (host : String)
  /-- A character stands for a delimiter. -/
  | disguisedDelimiter (authority : String)
  deriving DecidableEq, Repr

def AuthorityError.message : AuthorityError → String
  | strayBracket => "Invalid IPv6 URL"
  | malformedVersion => "IPvFuture address is invalid"
  | bracketedNumbers => "An IPv4 address cannot be in brackets"
  | notAnAddress host => Text.quoted host ++ " does not appear to be an IPv4 or IPv6 address"
  | disguisedDelimiter authority =>
    "netloc '" ++ authority ++ "' contains invalid characters under NFKC normalization"

/-- The characters whose compatibility decomposition holds one of `/`, `?`, `#`, `@` and `:`. -/
def disguisedDelimiters : List Nat :=
  [0x2047, 0x2048, 0x2049, 0x2100, 0x2101, 0x2105, 0x2106, 0x2a74, 0xfe13, 0xfe16, 0xfe55, 0xfe56,
   0xfe5f, 0xfe6b, 0xff03, 0xff0f, 0xff1a, 0xff1f, 0xff20]

/-- The host of an authority with brackets, without the brackets around it. Brackets that stand only
in front of an `@` belong to the user. -/
def bracketedHost (authority : List Char) : Except AuthorityError (List Char) :=
  let place := (authority.reverse.takeWhile (· ≠ '@')).reverse
  match place with
  | '[' :: rest =>
    match rest.dropWhile (· ≠ ']') with
    | _ :: c :: _ => if c = ':' then .ok (rest.takeWhile (· ≠ ']')) else .error .strayBracket
    | _ => .ok (rest.takeWhile (· ≠ ']'))
  | _ => if place.contains '[' then .error .strayBracket else .ok (place.takeWhile (· ≠ ':'))

/-- Refuse a host in brackets that is no address fit to stand there. -/
def checkHost (host : List Char) : Except AuthorityError Unit :=
  if host.head? = some 'v' then
    if isVersionedAddress host then .ok () else .error .malformedVersion
  else if isAddress4 host then .error .bracketedNumbers
  else if isAddress6 host then .ok ()
  else .error (.notAnAddress (String.ofList host))

/-- Refuse a malformed authority. -/
def checkAuthority (authority : List Char) : Except AuthorityError Unit := do
  if authority.contains '[' != authority.contains ']' then throw .strayBracket
  if authority.contains '[' then checkHost (← bracketedHost authority)
  if authority.any (disguisedDelimiters.contains ·.toNat) then
    throw (.disguisedDelimiter (String.ofList authority))

end StoryScript
