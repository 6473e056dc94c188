import StoryScript.Command.Options
import StoryScript.Config.File
import StoryScript.Number.Integer

/-!
# Commands

What can be asked for on the command line behind the name of a command. A request is refused when an
option is unknown or has a value that it cannot have, when a file does not exist, and when there are
too few or too many arguments; a request for help comes before all but the first of these. Options
are read before files.
-/

namespace StoryScript

/-- How a script is exported. -/
inductive ExportFormat where
  | json
  | yaml
  deriving DecidableEq, Repr

/-- A command with its files and options. -/
inductive Command where
  | lint (files : List Path) (failOn : Option FailLevel) (asJson checkMedia : Bool)
  | explain (rule : String)
  | outline (file : Path)
  | references (file : Path) (knot : String)
  | flags (file : Path)
  | format (files : List Path) (checkOnly showDiff : Bool) (indent : Option Nat)
  | export (file : Path) (format : ExportFormat)
  | media (file : Path) (showAll : Bool)
  | serve
  deriving DecidableEq, Repr

/-- Why no command is run. -/
inductive Refusal where
  /-- The command line cannot be understood. -/
  | misuse
  /-- A word that should be a path is none. -/
  | fault (fault : Fault)
  deriving DecidableEq, Repr

/-- What becomes of a request. -/
inductive Request where
  | run (command : Command)
  | help
  | refused (refusal : Refusal)
  deriving DecidableEq, Repr

namespace Command

/-- The options that a command knows. -/
def specs : String → Option (List OptionSpec)
  | "lint" => some [⟨["--fail-on"], true⟩, ⟨["--json"], false⟩, ⟨["--no-media"], false⟩,
      ⟨["--explain"], true⟩, ⟨["--help"], false⟩]
  | "outline" | "refs" | "flags" => some [⟨["--help"], false⟩]
  | "fmt" => some [⟨["--check"], false⟩, ⟨["--diff"], false⟩, ⟨["--indent"], true⟩,
      ⟨["--help"], false⟩]
  | "dump" => some [⟨["--format"], true⟩, ⟨["--help"], false⟩]
  | "media" => some [⟨["--all"], false⟩, ⟨["--help"], false⟩]
  | "lsp" => some [⟨["--transport"], true⟩, ⟨["--help"], false⟩]
  | _ => none

/-- The value of an option, if it is given; it has to read well. -/
def readOption (read : String → Option α) (p : Parsed) (name : String) :
    Except Refusal (Option α) :=
  match p.value? name with
  | none => .ok none
  | some text =>
    match read text with
    | some value => .ok (some value)
    | none => .error .misuse

/-- A level by its name. -/
def level? (name : String) : Option FailLevel := FailLevel.all.find? (·.name = name)

/-- An export format by its name. -/
def exportFormat? : String → Option ExportFormat
  | "json" => some .json
  | "yaml" => some .yaml
  | _ => none

/-- A transport by its name. -/
def transport? : String → Option Unit
  | "stdio" | "tcp" => some ()
  | _ => none

/-- An indentation: a whole number from 1 to 8. -/
def indent? (text : String) : Option Nat :=
  (Integer.read? text).bind fun n => if 1 ≤ n && n ≤ 8 then some n.toNat else none

/-- The path of an existing file. A slash or a dot at its end asks for a directory, and a text that
is too long leads nowhere even if the path it means is short. -/
def existingFile? (t : FileTree) (text : String) : Option Path :=
  let last := (text.splitOn "/").getLastD ""
  let path := Path.ofString text
  if last ≠ "" && last ≠ "." && text.utf8ByteSize ≤ FileTree.maxPathBytes && t.isFile path then
    some path
  else none

/-- The path of a file, which has to exist. -/
def file (t : FileTree) (text : String) : Except Refusal Path :=
  if (Path.ofString text).hasNull then .error (.fault .nullInPath)
  else
    match existingFile? t text with
    | some path => .ok path
    | none => .error .misuse

/-- The path of the first argument and the arguments behind it. -/
def firstFile (t : FileTree) (p : Parsed) : Except Refusal (Path × List String) :=
  match p.arguments with
  | text :: more => (file t text).map fun path => (path, more)
  | [] => .error .misuse

/-- The path of the only argument. -/
def onlyFile (t : FileTree) (p : Parsed) : Except Refusal Path := do
  let (path, more) ← firstFile t p
  if more.isEmpty then return path else throw .misuse

def readLint (t : FileTree) (p : Parsed) : Except Refusal Command := do
  let failOn ← readOption level? p "--fail-on"
  let paths ← p.arguments.mapM (file t)
  let rule := (p.value? "--explain").getD ""
  if rule ≠ "" then return .explain rule
  if paths.isEmpty then throw .misuse
  return .lint paths failOn (p.has "--json") (!p.has "--no-media")

def readReferences (t : FileTree) (p : Parsed) : Except Refusal Command := do
  match ← firstFile t p with
  | (path, [knot]) => return .references path knot
  | _ => throw .misuse

def readFormat (t : FileTree) (p : Parsed) : Except Refusal Command := do
  let indent ← readOption indent? p "--indent"
  let paths ← p.arguments.mapM (file t)
  if paths.isEmpty then throw .misuse
  return .format paths (p.has "--check") (p.has "--diff") indent

def readExport (t : FileTree) (p : Parsed) : Except Refusal Command := do
  let wanted ← readOption exportFormat? p "--format"
  return .export (← onlyFile t p) (wanted.getD .json)

def readServe (p : Parsed) : Except Refusal Command := do
  let _ ← readOption transport? p "--transport"
  if p.arguments.isEmpty then return .serve else throw .misuse

/-- The command of a name with options and arguments. -/
def ofParsed (t : FileTree) (name : String) (p : Parsed) : Except Refusal Command :=
  match name with
  | "lint" => readLint t p
  | "outline" => (onlyFile t p).map .outline
  | "refs" => readReferences t p
  | "flags" => (onlyFile t p).map .flags
  | "fmt" => readFormat t p
  | "dump" => readExport t p
  | "media" => (onlyFile t p).map fun file => .media file (p.has "--all")
  | "lsp" => readServe p
  | _ => .error .misuse

/-- What is asked for behind the name of a command. -/
def request (t : FileTree) (name : String) (words : List String) : Request :=
  match (specs name).bind fun specs => parse? specs true words with
  | none => .refused .misuse
  | some p =>
    if p.has "--help" then .help
    else
      match ofParsed t name p with
      | .ok command => .run command
      | .error refusal => .refused refusal

end Command

end StoryScript
