import StoryScript.Document.Basic
import StoryScript.Config.Basic

/-!
# Media references

Scripts name media files by bare name. `Media.matchName?` finds the file that a name means in a
folder: an exact name wins, then the name with each extension in order; only then is letter case
passed over. `Document.mediaRefs` lists the media items of a script, and `Media.missing` those whose
file is in none of the listings.
-/

namespace StoryScript

/-- Whether something is an image or a video. -/
inductive MediaType where
  | image
  | video
  deriving DecidableEq, Repr

def MediaType.name : MediaType → String
  | image => "image"
  | video => "video"

def MediaKind.type : MediaKind → MediaType
  | image | playerImage => .image
  | video | playerVideo => .video

namespace MediaConfig

def folders (c : MediaConfig) : MediaType → List String
  | .image => c.imageFolders
  | .video => c.videoFolders

def extensions (c : MediaConfig) : MediaType → List String
  | .image => c.imageExtensions
  | .video => c.videoExtensions

end MediaConfig

namespace Media

/-- The file among `available` that a bare name means. Of several files that differ in letter case
only, the last one counts. -/
def matchName? (filename : String) (available extensions : List String) : Option String :=
  let candidates := filename :: extensions.map (filename ++ ·)
  match candidates.find? available.contains with
  | some name => some name
  | none =>
    let folded := available.reverse.map fun name => (Text.lower name, name)
    candidates.findSome? fun c => (folded.find? (·.1 = Text.lower c)).map (·.2)

/-- A media item of a script. -/
structure Reference where
  id : Id
  kind : MediaKind
  filename : String
  knot : String
  line : Option Nat
  deriving DecidableEq

/-- The media reference that an item is. -/
def reference? (k : Knot) : Item → Option Reference
  | .leaf m (.media kind filename _) =>
    some ⟨m.id, kind, filename, k.name, (m.linesFrom k.lineStart).map (·.first)⟩
  | _ => none

/-- The references whose file is not in the listing for their type. -/
def missing (refs : List Reference) (images videos : List String) (config : MediaConfig) :
    List Reference :=
  refs.filter fun r =>
    let available := match r.kind.type with
      | .image => images
      | .video => videos
    (matchName? r.filename available (config.extensions r.kind.type)).isNone

end Media

/-- The media items of the visible knots, in document order. -/
def Document.mediaRefs (d : Document) : List Media.Reference :=
  d.visibleKnots.flatMap fun k => (Item.itemsIn k.items).filterMap (Media.reference? k)

end StoryScript
