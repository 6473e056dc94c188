import StoryScript.Command.Basic
import StoryScript.Data.Yaml
import StoryScript.Document.Export
import StoryScript.Document.Reading
import StoryScript.Document.Rendering
import StoryScript.Report.Lint
import StoryScript.Report.Media
import StoryScript.Report.Script
import StoryScript.Text.Difference

/-!
# What commands do

A command reads files of a file tree and gives an outcome: an exit code, what is shown to the user,
the text written to standard output for other programs, and the file tree as it is then. A fault
breaks the command off; what was done before stays done.

* `Command.perform` — the outcome of a command;
* `runCommandLine` — the outcome of a whole command line.
-/

namespace StoryScript

/-- What a command has done. -/
structure Outcome where
  exit : Nat := 0
  shown : List Shown := []
  /-- Whether what is shown is kept apart from standard output. -/
  apart : Bool := false
  /-- The text on standard output. -/
  output : String := ""
  files : FileTree
  /-- The data that the text on standard output spells. -/
  data : Option Data := none
  /-- What broke the command off, if anything did. -/
  fault : Option Fault := none

namespace Outcome

/-- The outcome of a command line that cannot be understood. -/
def misuse (files : FileTree) : Outcome := { exit := 2, files }

/-- The outcome of a command that a fault has broken off. -/
def brokenOff (fault : Fault) (o : Outcome) : Outcome := { o with exit := 1, fault := some fault }

/-- The outcome of a command line that is refused. -/
def refused (files : FileTree) : Refusal → Outcome
  | .misuse => misuse files
  | .fault fault => ({ files } : Outcome).brokenOff fault

end Outcome

/-- The text of a file; one that does not exist counts as empty. -/
def FileTree.text (t : FileTree) (p : Path) : Except Fault String :=
  decodeText ((t.read? p).getD .empty)

/-- The document in a text. -/
def Document.ofText (text : String) : Document := (Document.read 0 text).1

namespace Command

/-- Do something with the document in a file. -/
def withDocument (t : FileTree) (file : Path) (k : Document → Outcome) : Outcome :=
  match t.text file with
  | .ok text => k (Document.ofText text)
  | .error fault => ({ files := t } : Outcome).brokenOff fault

/-- The outcome of a command that only shows a report. -/
def showing (t : FileTree) (r : Report) : Outcome :=
  { exit := r.exit, shown := r.shown, files := t }

/-! ### Lint -/

/-- The findings of a script with the settings of its project. -/
def findingsIn (t : FileTree) (config : Config) (checkMedia : Bool) (file : Path) :
    Except Fault LintRun := do
  let d := Document.ofText (← t.text file)
  let assets ←
    if checkMedia && config.lint.checkMedia then
      config.root.mapM fun root => t.assets root config.media
    else pure none
  let found :=
    d.findingsOf (assets.map (·.1)) (assets.map (·.2)) config.media config.lint.disable none
  return found.map (file, ·)

/-- The findings of files, one file after the other. -/
def lintFiles (t : FileTree) (config : Config) (checkMedia : Bool) (files : List Path) :
    Except Fault LintRun :=
  (files.mapM (findingsIn t config checkMedia)).map List.flatten

def performLint (t : FileTree) (config : Config) (files : List Path) (failOn : Option FailLevel)
    (asJson checkMedia : Bool) : Outcome :=
  let announced : List Shown :=
    files.map fun file => .line ("Linting " ++ toString file ++ "...") Style.dim
  match lintFiles t config checkMedia files with
  | .error fault => ({ shown := announced, apart := true, files := t } : Outcome).brokenOff fault
  | .ok run =>
    { exit := run.exit (failOn.getD config.lint.failOn)
      shown := if asJson then announced else announced ++ run.report
      apart := true
      output := if asJson then run.json else ""
      files := t }

/-! ### Format -/

/-- Format a file, or only tell what would change. -/
def formatFile (checkOnly showDiff : Bool) (indent : Nat) (o : Outcome) (file : Path) : Outcome :=
  if o.fault.isSome then o
  else
    match o.files.text file with
    | .error fault => o.brokenOff fault
    | .ok text =>
      let formatted := (Document.ofText text).render indent
      let name := toString file
      if formatted = text then o
      else
        { o with
          output := if showDiff then
              o.output ++ Text.unifiedDiff name (name ++ " (formatted)") text formatted
            else o.output
          shown := o.shown ++
            [if checkOnly then .line ("Would reformat " ++ name) Style.yellow
             else .line ("Reformatted " ++ name) Style.green]
          files := if checkOnly then o.files else o.files.write file formatted.toUTF8 }

def performFormat (t : FileTree) (files : List Path) (checkOnly showDiff : Bool) (indent : Nat) :
    Outcome :=
  let o := files.foldl (formatFile checkOnly showDiff indent) { files := t, apart := true }
  if o.fault.isSome then o
  else if o.shown.isEmpty then
    { o with shown := [.line (toString files.length ++ " file(s) already formatted") Style.dim] }
  else { o with exit := if checkOnly then 1 else 0 }

/-! ### Export -/

/-- The model of a script, with identities named by the caller. -/
def performExport (name : Document → Id → String) (t : FileTree) (wanted : ExportFormat)
    (d : Document) : Outcome :=
  let data := d.toData (name d)
  match wanted with
  | .json => { output := data.json false 0 ++ "\n", data := some data, files := t }
  | .yaml => { output := data.folded.yaml, data := some data.folded, files := t }

/-! ### All commands -/

/-- The outcome of a command. -/
def perform (name : Document → Id → String) (t : FileTree) (config : Config) : Command → Outcome
  | .lint files failOn asJson checkMedia => performLint t config files failOn asJson checkMedia
  | .explain rule => showing t (explainRule rule)
  | .outline file => withDocument t file fun d => showing t (d.outline file.name)
  | .references file knot => withDocument t file fun d => showing t (d.references knot)
  | .flags file => withDocument t file fun d => showing t d.flagReport
  | .format files checkOnly showDiff indent =>
    performFormat t files checkOnly showDiff (indent.getD config.indent)
  | .export file wanted => withDocument t file (performExport name t wanted)
  | .media file showAll => withDocument t file fun d =>
    let lister := t.lister (config.root.getD file.parent)
    match Media.folderFault? ((Media.resolveDocument lister config.media d).2.map (·.1)) with
    | some fault => ({ files := t } : Outcome).brokenOff fault
    | none => showing t (d.mediaReport file.name lister config.media showAll)
  | .serve =>
    { exit := 1
      shown := [.line "The language server is started by an editor." Style.dim]
      apart := true
      files := t }

/-- The options in front of the name of a command. -/
def globalSpecs : List OptionSpec :=
  [⟨["--project", "-p"], true⟩, ⟨["--verbose"], false⟩, ⟨["--version"], false⟩,
   ⟨["--help"], false⟩]

/-- The name and the version of the program. -/
def versionText : String := "knotwork, version 0.1.0\n"

/-- What the options in front of a command bring about without any command: the version, help, or a
refusal of a project directory that cannot be one. -/
def answerOptions? (t : FileTree) (p : Parsed) : Option Outcome :=
  match p.options.find? fun (o, _) => o = "--version" || o = "--help" with
  | some ("--version", _) => some { output := versionText, files := t }
  | some _ => some { files := t }
  | none =>
    (p.value? "--project").bind fun text =>
      if (Path.ofString text).hasNull then some (.refused t (.fault .nullInPath))
      else if (existingFile? t text).isSome then some (.misuse t)
      else none

/-- The root of the project: the directory that is given, or else the one that the working directory
belongs to. A directory that is given has to exist. -/
def projectRoot (t : FileTree) (given : Option String) : Except Refusal (Option Path) :=
  match given with
  | none => (t.projectRoot {}).mapError .fault
  | some text =>
    let path := Path.ofString text
    if t.breaksOff path then .error (.fault (.pathTooLong (toString path)))
    else if t.isDirectory path then .ok (t.locate? path)
    else .error .misuse

/-- The outcome of a command with its words, in the project with a root. -/
def performIn (name : Document → Id → String) (t : FileTree) (root : Option Path)
    (command : String) (words : List String) : Outcome :=
  match t.loadConfig root with
  | .error (.fault fault) => ({ files := t } : Outcome).brokenOff fault
  | .error (.refused e) =>
    { exit := 1
      shown := [.line ("Error: " ++ e.message?.getD "malformed configuration")]
      apart := true
      files := t }
  | .ok config =>
    match request t command words with
    | .run command => perform name t config command
    | .help => { files := t }
    | .refused refusal => .refused t refusal

end Command

/-- The outcome of a command line. Words that begin with no command are read as options once more,
in case they ask for the version or for help. -/
def runCommandLine (name : Document → Id → String) (t : FileTree) (words : List String) : Outcome :=
  let read (words : List String) := Command.parse? Command.globalSpecs false words
  match read words with
  | none => .misuse t
  | some p =>
    match Command.answerOptions? t p, p.arguments with
    | some outcome, _ => outcome
    | none, [] => .misuse t
    | none, command :: words =>
      if (Command.specs command).isSome then
        match Command.projectRoot t (p.value? "--project") with
        | .ok root => Command.performIn name t root command words
        | .error refusal => .refused t refusal
      else ((read (command :: words)).bind (Command.answerOptions? t)).getD (.misuse t)

end StoryScript
