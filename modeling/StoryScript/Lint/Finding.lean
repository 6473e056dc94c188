import StoryScript.Media.Matching
import StoryScript.Document.Reachability
import StoryScript.Text.Lowercase

/-!
# Lint findings

What the lint rules find in a script. A cause decides the rule, the severity and the wording.

* `Document.findings` — all findings of a document, rule by rule.
-/

namespace StoryScript

/-- What was found. -/
inductive FindingCause where
  | parseIssue (cause : IssueCause)
  | brokenInitialDivert (target : String)
  | brokenDivert (target : String) (context : DivertContext)
  | danglingChoice (text : String)
  | emptyKnot (name : String)
  | unreachableKnot (name : String)
  | unrecognizedSyntax (content : String)
  | missingMedia (kind : MediaKind) (filename : String)
  deriving DecidableEq, Repr

/-- The kind of a media item at the beginning of a sentence. -/
def MediaKind.title : MediaKind → String
  | image => "Image"
  | playerImage => "Player image"
  | video => "Video"
  | playerVideo => "Player video"

namespace FindingCause

def rule : FindingCause → String
  | parseIssue cause => cause.rule
  | brokenInitialDivert _ | brokenDivert _ _ => "broken-divert"
  | danglingChoice _ => "dangling-choice"
  | emptyKnot _ => "empty-knot"
  | unreachableKnot _ => "unreachable-knot"
  | unrecognizedSyntax _ => "unrecognized-syntax"
  | missingMedia _ _ => "missing-media"

def severity : FindingCause → Severity
  | parseIssue cause => cause.severity
  | unreachableKnot _ | unrecognizedSyntax _ => .info
  | _ => .warning

/-- Where a divert hangs on a choice with a text, that text. -/
def origin : DivertContext → String
  | .choice text => if text = "" then "" else " from choice '" ++ text ++ "'"
  | _ => ""

def message : FindingCause → String
  | parseIssue cause => cause.message
  | brokenInitialDivert target => "Initial divert to unknown knot '" ++ target ++ "'"
  | brokenDivert target context =>
    "Divert to '" ++ target ++ "'" ++ origin context ++ " - target not found"
  | danglingChoice text =>
    "Choice '" ++ (if text = "" then "(empty)" else text) ++ "' has no divert"
  | emptyKnot name => "Knot '" ++ name ++ "' has no content"
  | unreachableKnot name => "Knot '" ++ name ++ "' is never diverted to"
  | unrecognizedSyntax content => "Unrecognized syntax kept as-is: " ++ content
  | missingMedia kind filename => kind.title ++ " '" ++ filename ++ "' not found"

end FindingCause

/-- One finding: its cause and where it is. -/
structure Finding where
  cause : FindingCause
  line : Option Nat := none
  knot : Option String := none
  deriving DecidableEq, Repr

namespace Finding

def rule (f : Finding) : String := f.cause.rule

def severity (f : Finding) : Severity := f.cause.severity

def message (f : Finding) : String := f.cause.message

/-- A finding on one line of text; a script without a file is `<text>`. -/
def describe (file : Option String) (f : Finding) : String :=
  let place := match f.line with
    | some n => if n = 0 then "" else ":" ++ toString n
    | none => ""
  f.severity.name.toUpper ++ ": [" ++ f.rule ++ "] " ++ file.getD "<text>" ++ place ++ " - " ++
    f.message

end Finding

/-! ### The rules -/

/-- Whether an item has a divert of its own, or is one. -/
def Item.diverts : Item → Bool
  | .leaf _ (.divert _) => true
  | .leaf _ _ => false
  | .choice _ h _ => h.divert.isSome
  | .conditional _ bs => bs.any (·.divert.isSome)

/-- Whether a choice or anything in it diverts somewhere. -/
def divertsSomewhere (h : ChoiceHead) (content : List Item) : Bool :=
  h.divert.isSome || (Item.itemsIn content).any Item.diverts

namespace Document

/-- The issues found while reading. -/
def parseFindings (d : Document) : List Finding :=
  d.issues.map fun i => ⟨.parseIssue i.cause, some i.line, none⟩

/-- Diverts to knots or stitches that do not exist. -/
def brokenDiverts (d : Document) : List Finding :=
  ((d.initialDivert.filter (!d.isValidTarget none ·)).map fun target =>
    (⟨.brokenInitialDivert target, none, none⟩ : Finding)).toList ++
  d.visibleKnots.flatMap fun k =>
    (k.divertRefs.filter (!d.isValidTarget (some k.name) ·.target)).map fun r =>
      ⟨.brokenDivert r.target r.context, r.line, some k.name⟩

/-- The finding that an item of a knot gives when it is a choice that leads nowhere. -/
def danglingChoice? (k : Knot) : Item → Option Finding
  | .choice m h c =>
    if divertsSomewhere h c then none
    else some ⟨.danglingChoice h.text, (m.linesFrom k.lineStart).map (·.first), some k.name⟩
  | _ => none

/-- Choices that lead nowhere. -/
def danglingChoices (d : Document) : List Finding :=
  d.visibleKnots.flatMap fun k => (Item.itemsIn k.items).filterMap (danglingChoice? k)

/-- Knots without content. -/
def emptyKnots (d : Document) : List Finding :=
  (d.visibleKnots.filter Knot.isEmpty).map fun k =>
    ⟨.emptyKnot k.name, some k.lineStart, some k.name⟩

/-- Knots that the story cannot get to. -/
def unreachableKnots (d : Document) : List Finding :=
  d.unreachable.map fun name =>
    ⟨.unreachableKnot name, (d.visibleKnot? name).map Knot.lineStart, some name⟩

/-- The finding that an item of a knot gives when it is a line that fits no form. -/
def unrecognized? (k : Knot) : Item → Option Finding
  | .leaf m (.raw content .unrecognized) =>
    some ⟨.unrecognizedSyntax content, (m.linesFrom k.lineStart).map (·.first), some k.name⟩
  | _ => none

/-- Lines that look like markup and fit no form. -/
def unrecognizedLines (d : Document) : List Finding :=
  d.visibleKnots.flatMap fun k => (Item.itemsIn k.items).filterMap (unrecognized? k)

/-- Media tags whose file is not in the listings; without any listing there is nothing to check. -/
def missingMedia (d : Document) (images videos : Option (List String)) (config : MediaConfig) :
    List Finding :=
  if images.isNone && videos.isNone then []
  else
    (Media.missing d.mediaRefs (images.getD []) (videos.getD []) config).map fun r =>
      ⟨.missingMedia r.kind r.filename, r.line, some r.knot⟩

/-- The findings of all rules, rule by rule. -/
def findings (d : Document) (images videos : Option (List String)) (config : MediaConfig) :
    List Finding :=
  d.parseFindings ++ d.brokenDiverts ++ d.danglingChoices ++ d.emptyKnots ++
    d.unreachableKnots ++ d.unrecognizedLines ++ d.missingMedia images videos config

/-- The findings of the rules that are not disabled and, if only some are allowed, are allowed. -/
def findingsOf (d : Document) (images videos : Option (List String)) (config : MediaConfig)
    (disabled : List String) (allowed : Option (List String)) : List Finding :=
  (d.findings images videos config).filter fun f =>
    !disabled.contains f.rule && allowed.all fun rules => rules.contains f.rule

end Document

end StoryScript
