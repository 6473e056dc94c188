import StoryScript.Text.Scan
import StoryScript.Text.Lines
import StoryScript.Line.Form
import StoryScript.Media.Filename

/-!
# The patterns of the line forms

One recogniser per line form, over the characters of a line without its surrounding blanks. A
recogniser reads the whole line or refuses it. They are tried in the order of `patterns`, and the
first that accepts decides; `syntaxOpenings` says which of the lines that none accepts are `raw`.
-/

namespace StoryScript.Line

open Text

/-! ### Headers -/

/-- Two or more equals signs, a name, and optionally two or more equals signs. -/
def knotHeader? (cs : List Char) : Option LineForm := do
  guard (2 ≤ (cs.takeWhile (· = '=')).length)
  let (name, rest) ← word? (skipBlanks (cs.dropWhile (· = '=')))
  let rest := skipBlanks rest
  guard ((rest.takeWhile (· = '=')).length ≠ 1)
  done? (skipBlanks (rest.dropWhile (· = '=')))
  some (.knotHeader (String.ofList name))

/-- One equals sign and a name. -/
def stitchHeader? (cs : List Char) : Option LineForm := do
  let rest ← lit? "=" cs
  let (name, rest) ← word? (skipBlanks rest)
  done? (skipBlanks rest)
  some (.stitchHeader (String.ofList name))

/-! ### Annotations hidden in comments -/

/-- A pair of coordinates between braces. -/
def coordinates? (cs : List Char) : Option (Position × List Char) := do
  let rest ← lit? "\x7b" cs
  let rest ← lit? "\"pos-x\"" (skipBlanks rest)
  let rest ← lit? ":" (skipBlanks rest)
  let (x, rest) ← number? (skipBlanks rest)
  let rest ← lit? "," (skipBlanks rest)
  let rest ← lit? "\"pos-y\"" (skipBlanks rest)
  let rest ← lit? ":" (skipBlanks rest)
  let (y, rest) ← number? (skipBlanks rest)
  let rest ← lit? "\x7d" (skipBlanks rest)
  some (⟨Binary64.ofNumeral x, Binary64.ofNumeral y⟩, rest)

/-- The position of a knot or of a region. -/
def position? (cs : List Char) : Option LineForm := do
  let rest ← lit? "//" cs
  let rest ← lit? "<" (skipBlanks rest)
  let (p, rest) ← coordinates? rest
  let rest ← lit? ">" rest
  done? (skipBlanks rest)
  some (.position p)

/-- The position of one of the two nodes that are no knots. -/
def nodePosition? (label : String) (cs : List Char) : Option Position := do
  let rest ← lit? "//" cs
  let rest ← lit? "<#" (skipBlanks rest)
  let rest ← lit? label (skipBlanks rest)
  let rest ← lit? ":" rest
  let (p, rest) ← coordinates? (skipBlanks rest)
  let rest ← lit? "#>" (skipBlanks rest)
  done? (skipBlanks rest)
  some p

/-- The opening of a region. The name is whatever stands before the closing mark, without the blanks
around it; of a name that is blank throughout, one blank is left. -/
def regionStart? (cs : List Char) : Option LineForm := do
  let rest ← lit? "//" cs
  let rest ← lit? "<#" (skipBlanks rest)
  let rest ← lit? "StartRegion:" (skipBlanks rest)
  let closing (cs : List Char) : Option Unit := do
    let rest ← lit? "#>" (skipBlanks cs)
    done? (skipBlanks rest)
  let (name, _) ← afterBlanks (shortestSome closing) rest
  some (.regionStart (String.ofList name))

/-- The end of a region. -/
def regionEnd? (cs : List Char) : Option LineForm := do
  let rest ← lit? "//" cs
  let rest ← lit? "<#" (skipBlanks rest)
  let rest ← lit? "EndRegion" (skipBlanks rest)
  let rest ← lit? "#>" (skipBlanks rest)
  done? (skipBlanks rest)
  some .regionEnd

/-- Any line that begins with two slashes. -/
def lineComment? (cs : List Char) : Option LineForm := do
  let _ ← lit? "//" cs
  some .comment

/-- A line that begins with a slash and a star; the comment stays open unless it ends there. -/
def blockComment? (cs : List Char) : Option LineForm := do
  let rest ← lit? "/*" cs
  some (.blockComment !(occursIn ['*', '/'] rest))

/-! ### Flow -/

/-- An arrow and a target, up to the end of the line. -/
def arrowTarget? (cs : List Char) : Option (List Char) := do
  let rest ← lit? "->" cs
  let (target, rest) ← target? (skipBlanks rest)
  done? (skipBlanks rest)
  some target

/-- What stands in front of the arrow that ends a line, and the target. -/
def dividedByArrow? (cs : List Char) : Option (List Char × List Char) :=
  shortest (fun cs => arrowTarget? (skipBlanks cs)) cs

/-- The text between the first and the last character when these are square brackets. -/
def bracketed? (cs : List Char) : Option (List Char) := do
  let rest ← lit? "[" cs
  guard (rest.getLast? = some ']')
  some rest.dropLast

/-- The head of a choice, from what follows its markers. -/
def choiceHead (sticky : Bool) (cs : List Char) : ChoiceHead :=
  let (shown, divert) :=
    match dividedByArrow? cs with
    | some (front, target) => (stripChars front, some (String.ofList target))
    | none => (cs, none)
  match bracketed? shown with
  | some inner => ⟨String.ofList (stripChars inner), sticky, true, divert⟩
  | none => ⟨String.ofList shown, sticky, false, divert⟩

/-- Whether the choice that a line opens is sticky, from its first marker. -/
def sticky? : List Char → Option Bool
  | '*' :: _ => some false
  | '+' :: _ => some true
  | _ => none

/-- Choice markers with blanks between them, then the choice. The depth counts the markers and
every blank that is neither a space nor a tab. -/
def choice? (cs : List Char) : Option LineForm := do
  let sticky ← sticky? cs
  let isMarker := fun c => c = '*' || c = '+' || isBlank c
  let rest := cs.dropWhile isMarker
  guard (onOneLine rest)
  let depth := ((cs.takeWhile isMarker).filter fun c => c ≠ ' ' && c ≠ '\t').length
  let head := choiceHead sticky rest
  if head.text = "" && !head.bracketed && head.divert = none then some .raw
  else some (.choice depth head)

/-- An arrow and a target, and nothing else. -/
def divert? (cs : List Char) : Option LineForm :=
  (arrowTarget? cs).map fun target => .divert (String.ofList target)

/-! ### Functions -/

/-- The end of a function call. -/
def callEnd? (cs : List Char) : Option Unit := do
  let rest ← lit? ")" (skipBlanks cs)
  let rest := skipBlanks rest
  done? (skipBlanks ((lit? ";" rest).getD rest))

/-- A call that sets or removes a story flag. -/
def flagCall? (function : String) (verb : FlagVerb) (cs : List Char) : Option LineForm := do
  let rest ← lit? "~" cs
  let rest ← lit? function (skipBlanks rest)
  let rest ← lit? "(" rest
  let (flag, rest) ← quoted? (skipBlanks rest)
  callEnd? rest
  some (.flagOperation verb (String.ofList flag))

def setFlag? : List Char → Option LineForm := flagCall? "SetStoryFlag" .set

def removeFlag? : List Char → Option LineForm := flagCall? "RemoveStoryFlag" .remove

/-- A transition with a title and optionally a subtitle. -/
def transition? (cs : List Char) : Option LineForm := do
  let rest ← lit? "~" cs
  let rest ← lit? "ShowCustomTransition(" (skipBlanks rest)
  let (title, rest) ← quoted? (skipBlanks rest)
  let (subtitle, rest) := (do
    let rest ← lit? "," (skipBlanks rest)
    quoted? (skipBlanks rest) : Option (List Char × List Char)).getD ([], rest)
  callEnd? rest
  some (.transition (String.ofList title) (String.ofList subtitle))

/-! ### Conditionals -/

def conditionalOpen? (cs : List Char) : Option LineForm :=
  if cs = ['{'] then some .conditionalOpen else none

def conditionalClose? (cs : List Char) : Option LineForm :=
  if cs = ['}'] then some .conditionalClose else none

/-- A check of a story flag. -/
def flagCheck? (cs : List Char) : Option (List Char) := do
  let rest ← lit? "GetStoryFlag(" cs
  let (flag, rest) ← quoted? (skipBlanks rest)
  let rest ← lit? ")" (skipBlanks rest)
  done? rest
  some flag

/-- The guard that a condition describes. -/
def guardOf (condition : List Char) : Guard :=
  if condition = "else".toList then { isElse := true }
  else
    match flagCheck? condition with
    | some flag => { flag := some (String.ofList flag) }
    | none => { condition := some (String.ofList condition) }

/-- A colon, and what follows it on the line. -/
def afterColon? (cs : List Char) : Option (List Char) := do
  let rest ← lit? ":" (skipBlanks cs)
  guard (onOneLine (skipBlanks rest))
  some (skipBlanks rest)

/-- A dash, a condition, a colon, and what is left of the line. -/
def branchParts? (cs : List Char) : Option (List Char × List Char) := do
  let rest ← lit? "-" cs
  afterBlanks (shortestSome afterColon?) rest

/-- A branch of a conditional. -/
def branch? (cs : List Char) : Option LineForm :=
  (branchParts? cs).map fun (condition, rest) =>
    .branch (guardOf (stripChars condition)) (String.ofList (stripChars rest))

/-! ### Tags -/

/-- The content of a tag that begins with `label`; it is not empty and holds no angle brackets. -/
def tag? (label : String) (cs : List Char) : Option (List Char) := do
  let rest ← lit? label cs
  let inside := fun c => c ≠ '<' && c ≠ '>'
  guard (rest.takeWhile inside ≠ [])
  let closing ← lit? ">" (rest.dropWhile inside)
  done? closing
  some (rest.takeWhile inside)

/-- The media file that a tag names. -/
def mediaForm (kind : MediaKind) (name : List Char) : LineForm :=
  let (filename, extension) := Media.splitExtension (String.ofList (stripChars name))
  .media kind filename extension

def playerVideo? (cs : List Char) : Option LineForm :=
  (tag? "<player-video-" cs).map (mediaForm .playerVideo)

def video? (cs : List Char) : Option LineForm :=
  (tag? "<video-" cs).map (mediaForm .video)

def playerImage? (cs : List Char) : Option LineForm :=
  if (lit? "<player-video-" cs).isSome then none
  else (tag? "<player-" cs).map (mediaForm .playerImage)

/-- A tag that holds a number of seconds. -/
def duration? (label : String) (cs : List Char) : Option Binary64 := do
  let content ← tag? label cs
  let (digits, rest) ← unsigned? content
  done? rest
  some (Binary64.ofNumeral digits)

def fakeType? (cs : List Char) : Option LineForm := (duration? "<fake-type-" cs).map .fakeType

def wait? (cs : List Char) : Option LineForm := (duration? "<wait-" cs).map .wait

def sideStory? (cs : List Char) : Option LineForm :=
  (tag? "<side-story-" cs).map fun name => .sideStory (String.ofList (stripChars name))

/-- The openings of the tags that are not images. -/
def reservedTags : List String := ["<player-", "<video-", "<fake-type-", "<wait-", "<side-story-"]

def image? (cs : List Char) : Option LineForm :=
  if reservedTags.any fun label => (lit? label cs).isSome then none
  else (tag? "<" cs).map (mediaForm .image)

/-! ### Directives -/

/-- The declaration of a function that the game provides. -/
def external? (cs : List Char) : Option LineForm := do
  let rest ← lit? "EXTERNAL" cs
  guard (rest.head?.any isBlank)
  let (name, rest) ← word? (skipBlanks rest)
  let rest ← lit? "(" (skipBlanks rest)
  let inside := fun c => c ≠ ')'
  let params := rest.takeWhile inside
  callEnd? (rest.dropWhile inside)
  some (.external (String.ofList name)
    (((splitAt ',' params).map stripChars).filter (· ≠ []) |>.map String.ofList))

/-- The name of another script file. -/
def inclusion? (cs : List Char) : Option LineForm := do
  let rest ← lit? "INCLUDE" cs
  guard (rest.head?.any isBlank)
  let path := skipBlanks rest
  guard (path ≠ [] && onOneLine path)
  some (.inclusion (String.ofList path))

/-! ### The order of the patterns -/

/-- The recognisers, in the order in which they are tried. -/
def patterns : List (List Char → Option LineForm) :=
  [knotHeader?, stitchHeader?,
   position?,
   fun cs => (nodePosition? "start" cs).map .startPosition,
   fun cs => (nodePosition? "end" cs).map .endPosition,
   regionStart?, regionEnd?, lineComment?, blockComment?,
   choice?, divert?, setFlag?, removeFlag?, transition?,
   conditionalOpen?, conditionalClose?, branch?,
   playerVideo?, video?, playerImage?, fakeType?, wait?, sideStory?, image?,
   external?, inclusion?]

/-- The openings that mark a line as markup rather than dialogue. -/
def syntaxOpenings : List String :=
  ["~", "<", "\x7b", "\x7d", "-", "=", "*", "+", "#", "VAR ", "CONST ", "INCLUDE ", "EXTERNAL "]

/-- The form of a line that no pattern accepts: raw when it looks like markup, otherwise text, with
the divert that may end it. -/
def textForm (cs : List Char) : LineForm :=
  if syntaxOpenings.any fun opening => (lit? opening cs).isSome then .raw
  else
    match dividedByArrow? cs with
    | some (front, target) => .text (String.ofList front) (some (String.ofList target))
    | none => .text (String.ofList cs) none

end StoryScript.Line
