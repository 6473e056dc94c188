import StoryScript.Text.Lowercase

/-!
# Media file names

A script names media by bare file name. `splitExtension` takes off the extension of a known media
type, in whatever case it is spelt; a name that is nothing but an extension keeps it.
-/

namespace StoryScript.Media

/-- The extensions of image files. -/
def imageExtensions : List String := [".png", ".jpg", ".jpeg", ".gif", ".webp", ".svg", ".bmp"]

/-- The extensions of video files. -/
def videoExtensions : List String := [".mp4", ".webm", ".mov", ".mkv", ".avi", ".m4v"]

/-- The bare name and the extension; the extension is empty when it is not a known one. -/
def splitExtension (filename : String) : String × String :=
  let lowered := (Text.lower filename).toList
  let known := (imageExtensions ++ videoExtensions).find? fun ext =>
    ext.toList.isSuffixOf lowered && ext.length < filename.length
  match known with
  | some ext =>
    let bare := filename.length - ext.length
    (String.ofList (filename.toList.take bare), String.ofList (filename.toList.drop bare))
  | none => (filename, "")

end StoryScript.Media
