import StoryScript.Files.Path
import StoryScript.Media.Filename

/-!
# Project configuration

What a project can set, with its defaults. The configuration of a project that has no configuration
file is the default one.
-/

namespace StoryScript

/-- Where media files are kept and by which extensions they are found. -/
structure MediaConfig where
  imageFolders : List String := ["Images"]
  videoFolders : List String := ["Videos"]
  imageExtensions : List String := Media.imageExtensions
  videoExtensions : List String := Media.videoExtensions
  deriving DecidableEq, Repr, Inhabited

/-- From which findings on a lint run fails. -/
inductive FailLevel where
  | error
  | warning
  | info
  deriving DecidableEq, Repr, Inhabited

def FailLevel.name : FailLevel → String
  | error => "error"
  | warning => "warning"
  | info => "info"

def FailLevel.all : List FailLevel := [error, warning, info]

/-- Which lint rules are used and what their findings mean. -/
structure LintConfig where
  disable : List String := []
  failOn : FailLevel := .error
  checkMedia : Bool := true
  deriving DecidableEq, Repr, Inhabited

/-- The configuration of a project; the root is the directory it belongs to, if there is one. -/
structure Config where
  root : Option Path := none
  media : MediaConfig := {}
  indent : Nat := 4
  lint : LintConfig := {}
  deriving DecidableEq, Repr, Inhabited

end StoryScript
