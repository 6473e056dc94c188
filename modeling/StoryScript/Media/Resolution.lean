import StoryScript.Files.Fault
import StoryScript.Files.Tree
import StoryScript.Media.Matching

/-!
# Resolving media

A media name is looked for in the folders of its type, one after the other, and the first folder in
which it means a file wins. What a folder holds is asked of a lister; a folder that cannot be listed
counts as empty. A batch keeps the listings it has asked for, so that it asks for each folder at
most once and only when it is needed.

* `Media.resolve` — one name on its own;
* `Media.resolveItems` — the media items of a list, as one batch;
* `Media.collect` — everything in the folders of each type.
-/

namespace StoryScript

namespace Media

/-- The names of the files in a folder; none if the folder cannot be listed. -/
abbrev Lister := String → Option (List String)

/-- The folders listed so far and what is in them, the first one first. -/
abbrev Listings := List (String × List String)

/-- The files in a folder; one that cannot be listed counts as empty. -/
def Lister.files (lister : Lister) (folder : String) : List String := (lister folder).getD []

/-- The listings with one for a folder. -/
def Listings.including (lister : Lister) (folder : String) (known : Listings) : Listings :=
  if (known.lookup folder).isSome then known else known ++ [(folder, lister.files folder)]

/-- The files in a folder that has been listed. -/
def Listings.files (known : Listings) (folder : String) : List String :=
  (known.lookup folder).getD []

/-- What became of a media name: if a file was found, its folder and its name. -/
structure Resolution where
  filename : String
  type : MediaType
  found : Option (String × String) := none
  deriving DecidableEq, Repr

namespace Resolution

def isValid (r : Resolution) : Bool := r.found.isSome

/-- The name of the file that was found. -/
def name? (r : Resolution) : Option String := r.found.map (·.2)

/-- The path of the file that was found, from the root of the project. -/
def path? (r : Resolution) : Option Path :=
  r.found.map fun (folder, name) => (Path.ofString folder).join (Path.ofString name)

end Resolution

/-- Look for a name in folders, with the listings known from then on. -/
def search (lister : Lister) (extensions : List String) (filename : String) :
    List String → Listings → Option (String × String) × Listings
  | [], known => (none, known)
  | folder :: folders, known =>
    let known := known.including lister folder
    match matchName? filename (known.files folder) extensions with
    | some name => (some (folder, name), known)
    | none => search lister extensions filename folders known

/-- Resolve a name with the listings of a batch. -/
def resolveWith (lister : Lister) (config : MediaConfig) (filename : String) (type : MediaType)
    (known : Listings) : Resolution × Listings :=
  let (found, known) := search lister (config.extensions type) filename (config.folders type) known
  (⟨filename, type, found⟩, known)

/-- Resolve a name on its own, with the listings that were needed. -/
def resolve (lister : Lister) (config : MediaConfig) (filename : String) (type : MediaType) :
    Resolution × Listings :=
  resolveWith lister config filename type []

/-- The media name of an item and its type, if it is a media item. -/
def mediaOf? : Item → Option (Id × String × MediaType)
  | .leaf m (.media kind filename _) => some (m.id, filename, kind.type)
  | _ => none

/-- Resolve names one after the other. -/
def resolveAll (lister : Lister) (config : MediaConfig) :
    List (Id × String × MediaType) → Listings → List (Id × Resolution) × Listings
  | [], known => ([], known)
  | (id, filename, type) :: rest, known =>
    let (r, known) := resolveWith lister config filename type known
    let (rs, known) := resolveAll lister config rest known
    ((id, r) :: rs, known)

/-- Resolve the media items of a list, nested ones too, in document order. -/
def resolveItems (lister : Lister) (config : MediaConfig) (items : List Item) :
    List (Id × Resolution) × Listings :=
  resolveAll lister config ((Item.itemsIn items).filterMap mediaOf?) []

/-- Resolve the media items of the visible knots. -/
def resolveDocument (lister : Lister) (config : MediaConfig) (d : Document) :
    List (Id × Resolution) × Listings :=
  resolveItems lister config (d.visibleKnots.flatMap Knot.items)

/-- Everything in the image folders and everything in the video folders. -/
def collect (lister : Lister) (config : MediaConfig) : List String × List String :=
  (config.imageFolders.flatMap lister.files, config.videoFolders.flatMap lister.files)

/-- What breaks off the listing of folders: a name that no folder can have. -/
def folderFault? (folders : List String) : Option Fault :=
  if folders.any fun folder => (Path.ofString folder).hasNull then some .nullInPath else none

end Media

/-- The lister of the asset folders of a project. -/
def FileTree.lister (t : FileTree) (root : Path) : Media.Lister :=
  fun folder => t.list? (root.join (Path.ofString folder))

/-- Everything in the image folders and everything in the video folders of a project. -/
def FileTree.assets (t : FileTree) (root : Path) (config : MediaConfig) :
    Except Fault (List String × List String) :=
  match Media.folderFault? (config.imageFolders ++ config.videoFolders) with
  | some fault => .error fault
  | none => .ok (Media.collect (t.lister root) config)

end StoryScript
