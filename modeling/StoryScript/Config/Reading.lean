import StoryScript.Config.Basic
import StoryScript.Data.Basic
import StoryScript.Files.Fault
import StoryScript.Text.Blank

/-!
# Reading a configuration

What a project sets is given as structured data. A missing entry means the default; an entry of the
wrong kind is refused, and of several wrong entries the first in the order below is reported: media,
format, failure level, media check, disabled rules.
-/

namespace StoryScript

/-- Why a configuration is refused. -/
inductive ConfigError where
  | notTexts (key : String)
  | badIndent
  | badFailLevel
  | badMediaCheck
  /-- The configuration file is not well-formed. -/
  | malformed
  deriving DecidableEq, Repr

/-- The wording of an error; that of a malformed file is up to the reader of the file format. -/
def ConfigError.message? : ConfigError → Option String
  | notTexts key => some (key ++ " must be a list of strings")
  | badIndent => some "format.indent must be an integer between 1 and 8"
  | badFailLevel => some "lint.fail_on must be one of: error, warning, info"
  | badMediaCheck => some "lint.check_media must be true or false"
  | malformed => none

/-- Why no configuration is read. -/
inductive LoadError where
  | fault (fault : Fault)
  | refused (error : ConfigError)
  deriving DecidableEq, Repr

namespace Config

/-- Refuse a configuration. -/
def refuse (e : ConfigError) : Except LoadError α := .error (.refused e)

/-- The texts in a list that holds nothing else. -/
def textsIn? : List Data → Option (List String)
  | [] => some []
  | .text s :: items => (textsIn? items).map (s :: ·)
  | _ :: _ => none

/-- The texts behind a key, without the blanks around them and without empty ones. -/
def texts (section_ : Data) (key : String) (default : List String) :
    Except LoadError (List String) :=
  match section_.get? key with
  | none | some .null => .ok default
  | some (.list items) =>
    match textsIn? items with
    | some xs => .ok ((xs.map Text.strip).filter (· ≠ ""))
    | none => refuse (.notTexts key)
  | some _ => refuse (.notTexts key)

/-- An extension in lower case with its dot. -/
def normalExtension (s : String) : String :=
  if s.toList.head? = some '.' then Text.lower s else "." ++ Text.lower s

/-- The extensions behind a key. -/
def extensions (section_ : Data) (key : String) (default : List String) :
    Except LoadError (List String) :=
  (texts section_ key default).map fun xs => xs.map normalExtension

/-- The section behind a key; anything but a table counts as an empty one. -/
def sectionOf (data : Data) (key : String) : Data := .table ((data.get? key).getD .null).entries

def readMedia (s : Data) : Except LoadError MediaConfig := do
  let imageFolders ← texts s "image_folders" ["Images"]
  let videoFolders ← texts s "video_folders" ["Videos"]
  let imageExtensions ← extensions s "image_extensions" Media.imageExtensions
  let videoExtensions ← extensions s "video_extensions" Media.videoExtensions
  return { imageFolders, videoFolders, imageExtensions, videoExtensions }

def readIndent (s : Data) : Except LoadError Nat :=
  match s.get? "indent" with
  | none => .ok 4
  | some (.int n) => if 1 ≤ n && n ≤ 8 then .ok n.toNat else refuse .badIndent
  | some _ => refuse .badIndent

/-- The failure level. Anything but a text is spelled out to be compared with the names of levels;
that fails if a whole number in it is too long, and gives no name otherwise. -/
def readFailLevel (s : Data) : Except LoadError FailLevel :=
  match s.get? "fail_on" with
  | none => .ok .error
  | some (.text name) =>
    match FailLevel.all.find? (·.name = Text.lower (Text.strip name)) with
    | some level => .ok level
    | none => refuse .badFailLevel
  | some data =>
    if data.hasLongInteger then .error (.fault .integerUnwritable) else refuse .badFailLevel

def readMediaCheck (s : Data) : Except LoadError Bool :=
  match s.get? "check_media" with
  | none => .ok true
  | some (.bool b) => .ok b
  | some _ => refuse .badMediaCheck

/-- The configuration that structured data describes. -/
def ofData (root : Option Path) (data : Data) : Except LoadError Config := do
  let media ← readMedia (sectionOf data "media")
  let indent ← readIndent (sectionOf data "format")
  let lint := sectionOf data "lint"
  let failOn ← readFailLevel lint
  let checkMedia ← readMediaCheck lint
  let disable ← texts lint "disable" []
  return { root, media, indent, lint := { disable, failOn, checkMedia } }

end Config

end StoryScript
