import StoryScript.Document.Reading
import StoryScript.Media.Resolution
import StoryScript.Proofs.Story.Nodes
import Mathlib.Data.List.Basic
import Mathlib.Data.List.Flatten

/-!
# Missing media and resolved media

Whether the file of a media reference is missing can be asked in two ways: of the listings of all folders
put together, and of one folder after the other. The answers agree (`Document.missing_mediaRefs`), for two
reasons.

* *Which* file a name means depends on everything that is listed beside it, but *whether* it means one
  depends on each file alone (`Media.isSome_matchName?`). So a name means a file among all files just if it
  means one in some folder (`Media.isSome_matchName?_flatMap`).
* A batch keeps the listings it has asked for, and what it keeps is what the folder would give again
  (`Media.Listings.Kept`). So every name of a batch resolves as it would on its own
  (`Media.resolveAll_eq_map`).
-/

namespace StoryScript

namespace Media

variable {lister : Lister} {config : MediaConfig} {filename : String} {extensions : List String}

/-! ### Names in listings -/

/-- A name means a file just if some file is called like the name, or like the name with an extension, up
to letter case. -/
theorem isSome_matchName? {available : List String} :
    (matchName? filename available extensions).isSome = true ↔
      ∃ name ∈ available, ∃ c ∈ filename :: extensions.map (filename ++ ·),
        Text.lower name = Text.lower c := by
  unfold matchName?
  dsimp only
  split
  · next name hfind =>
    have hname : name ∈ available := by simpa using List.find?_some hfind
    exact iff_of_true rfl ⟨name, hname, name, List.mem_of_find?_eq_some hfind, rfl⟩
  · rw [List.findSome?_isSome_iff]
    constructor
    · rintro ⟨c, hc, hfound⟩
      rw [Option.isSome_map, List.find?_isSome] at hfound
      obtain ⟨x, hmem, heq⟩ := hfound
      obtain ⟨name, hname, rfl⟩ := List.mem_map.mp hmem
      exact ⟨name, List.mem_reverse.mp hname, c, hc, of_decide_eq_true heq⟩
    · rintro ⟨name, hname, c, hc, heq⟩
      refine ⟨c, hc, ?_⟩
      rw [Option.isSome_map, List.find?_isSome]
      exact ⟨(Text.lower name, name),
        List.mem_map.mpr ⟨name, List.mem_reverse.mpr hname, rfl⟩, decide_eq_true heq⟩

/-- A name means a file among the files of all folders just if it means one in some folder. -/
theorem isSome_matchName?_flatMap {folders : List String} :
    (matchName? filename (folders.flatMap lister.files) extensions).isSome = true ↔
      ∃ folder ∈ folders, (matchName? filename (lister.files folder) extensions).isSome = true := by
  simp only [isSome_matchName?, List.mem_flatMap]
  constructor
  · rintro ⟨name, ⟨folder, hfolder, hname⟩, hmeant⟩
    exact ⟨folder, hfolder, name, hname, hmeant⟩
  · rintro ⟨folder, hfolder, name, hname, hmeant⟩
    exact ⟨name, ⟨folder, hfolder, hname⟩, hmeant⟩

/-! ### Listings that are kept -/

/-- Every listing that is kept is the one that its folder would give again. -/
def Listings.Kept (lister : Lister) (known : Listings) : Prop :=
  ∀ folder names, known.lookup folder = some names → names = lister.files folder

namespace Listings.Kept

variable {known : Listings}

theorem nil : Kept lister [] := by simp [Kept]

theorem including (h : known.Kept lister) (folder : String) :
    (known.including lister folder).Kept lister := by
  unfold Listings.including
  split
  · exact h
  · intro other names hother
    rw [List.lookup_append, Option.or_eq_some_iff] at hother
    rcases hother with hother | ⟨-, hother⟩
    · exact h other names hother
    · rw [List.lookup_cons] at hother
      split at hother
      · next heq =>
        rw [← Option.some.inj hother, eq_of_beq heq]
      · simp at hother

theorem files_including (h : known.Kept lister) (folder : String) :
    (known.including lister folder).files folder = lister.files folder := by
  have hkept := h.including folder
  have hsome : ((known.including lister folder).lookup folder).isSome = true := by
    unfold Listings.including
    split
    · assumption
    · rw [List.lookup_append, Option.isSome_or, List.lookup_cons_self]
      simp
  obtain ⟨names, hnames⟩ := Option.isSome_iff_exists.mp hsome
  rw [Listings.files, hnames, Option.getD_some, hkept folder names hnames]

/-- With what is kept a name is found in the first folder in which it means a file, and what is asked for is
kept in turn. -/
theorem search (h : known.Kept lister) (extensions : List String) (filename : String)
    (folders : List String) :
    (Media.search lister extensions filename folders known).1 =
        folders.findSome? (fun folder =>
          (matchName? filename (lister.files folder) extensions).map fun name => (folder, name)) ∧
      (Media.search lister extensions filename folders known).2.Kept lister := by
  induction folders generalizing known with
  | nil => exact ⟨rfl, h⟩
  | cons folder folders ih =>
    rw [Media.search, List.findSome?_cons, h.files_including folder]
    cases hmatch : matchName? filename (lister.files folder) extensions with
    | none => exact ih (h.including folder)
    | some name => exact ⟨rfl, h.including folder⟩

theorem resolveWith (h : known.Kept lister) (config : MediaConfig) (filename : String) (type : MediaType) :
    (Media.resolveWith lister config filename type known).1 =
        (resolve lister config filename type).1 ∧
      (Media.resolveWith lister config filename type known).2.Kept lister := by
  obtain ⟨hfound, hkept⟩ := h.search (config.extensions type) filename (config.folders type)
  refine ⟨?_, hkept⟩
  change (⟨filename, type, _⟩ : Resolution) = ⟨filename, type, _⟩
  rw [hfound, (nil.search _ _ _).1]

end Listings.Kept

/-- Every name of a batch resolves as it would on its own. -/
theorem resolveAll_eq_map {known : Listings} (h : known.Kept lister)
    (xs : List (Id × String × MediaType)) : (resolveAll lister config xs known).1 =
      xs.map fun x => (x.1, (resolve lister config x.2.1 x.2.2).1) := by
  induction xs generalizing known with
  | nil => rfl
  | cons x xs ih =>
    obtain ⟨id, filename, type⟩ := x
    obtain ⟨hfirst, hkept⟩ := h.resolveWith config filename type
    rw [resolveAll]
    dsimp only
    rw [hfirst, ih hkept, List.map_cons]

/-- With distinct keys each entry is found under its key. -/
theorem lookup_map_key {α β : Type} {key : α → Id} {xs : List α} (h : (xs.map key).Nodup) {x : α} (hx : x ∈ xs)
    (f : α → β) : (xs.map fun x => (key x, f x)).lookup (key x) = some (f x) := by
  induction xs with
  | nil => simp at hx
  | cons y xs ih =>
    rw [List.map_cons, List.nodup_cons] at h
    rw [List.map_cons, List.lookup_cons]
    rcases List.mem_cons.mp hx with rfl | hx
    · simp
    · have hne : key x ≠ key y := fun heq => h.1 (heq ▸ List.mem_map_of_mem hx)
      rw [beq_false_of_ne hne]
      exact ih h.2 hx

/-- A name resolves to a file just if it means one among the files of all folders of its type. -/
theorem isValid_resolve (lister : Lister) (config : MediaConfig) (filename : String)
    (type : MediaType) : (resolve lister config filename type).1.isValid =
      (matchName? filename ((config.folders type).flatMap lister.files)
        (config.extensions type)).isSome := by
  have hempty : Listings.Kept lister [] := .nil
  have hfound := (hempty.search (config.extensions type) filename (config.folders type)).1
  change (Media.search lister (config.extensions type) filename (config.folders type) []).1.isSome = _
  rw [hfound, Bool.eq_iff_iff, isSome_matchName?_flatMap, List.findSome?_isSome_iff]
  simp only [Option.isSome_map]

/-- The references that are missing from everything in the folders are those that do not resolve. -/
theorem missing_collect (lister : Lister) (config : MediaConfig) (refs : List Reference) :
    missing refs (collect lister config).1 (collect lister config).2 config =
      refs.filter fun r => !(resolve lister config r.filename r.kind.type).1.isValid := by
  refine List.filter_congr fun r _ => ?_
  rw [isValid_resolve, Option.not_isSome]
  cases r.kind.type <;> rfl

/-! ### Documents -/

/-- What a reference asks to be resolved. -/
def Reference.query (r : Reference) : Id × String × MediaType := (r.id, r.filename, r.kind.type)

theorem map_query_reference? (k : Knot) (i : Item) :
    (reference? k i).map Reference.query = mediaOf? i := by
  unfold reference?
  split
  · rfl
  · next hnot =>
    unfold mediaOf?
    split
    · next m kind filename extension => exact absurd rfl (hnot m kind filename extension)
    · rfl

theorem id_of_reference? {k : Knot} {i : Item} {r : Reference} (h : reference? k i = some r) :
    r.id = i.id := by
  unfold reference? at h
  split at h
  · rw [← Option.some.inj h]
    rfl
  · simp at h

/-- The identities of references are those of some items, in the same order. -/
theorem sublist_map_id_reference? (k : Knot) (is : List Item) :
    ((is.filterMap (reference? k)).map Reference.id).Sublist (is.map Item.id) := by
  induction is with
  | nil => exact .slnil
  | cons i is ih =>
    rw [List.map_cons]
    cases hr : reference? k i with
    | none =>
      rw [List.filterMap_cons_none hr]
      exact ih.cons _
    | some r =>
      rw [List.filterMap_cons_some hr, List.map_cons, id_of_reference? hr]
      exact ih.cons_cons _

end Media

theorem Item.itemsIn_flatMap (ks : List Knot) :
    Item.itemsIn (ks.flatMap Knot.items) = ks.flatMap fun k => Item.itemsIn k.items := by
  induction ks with
  | nil => rfl
  | cons k ks ih =>
    rw [List.flatMap_cons, List.flatMap_cons, itemsIn, nodesIn_append, List.filterMap_append]
    exact congrArg _ ih

namespace Document

variable {d : Document}

/-- The identities of all items, nested ones too. -/
def itemIds (d : Document) : List Id :=
  d.knots.flatMap fun k => (Item.itemsIn k.items).map Item.id

/-- Resolving the media of a document asks for its references, in their order. -/
theorem filterMap_mediaOf? (d : Document) :
    (Item.itemsIn (d.visibleKnots.flatMap Knot.items)).filterMap Media.mediaOf? =
      d.mediaRefs.map Media.Reference.query := by
  rw [Item.itemsIn_flatMap, List.filterMap_flatMap, mediaRefs, List.map_flatMap]
  refine List.flatMap_congr fun k _ => ?_
  rw [List.map_filterMap]
  exact List.filterMap_congr fun i _ => (Media.map_query_reference? k i).symm

/-- Each reference is resolved as its name would be on its own. -/
theorem resolveDocument_eq_map (lister : Media.Lister) (config : MediaConfig) (d : Document) :
    (Media.resolveDocument lister config d).1 =
      d.mediaRefs.map fun r => (r.id, (Media.resolve lister config r.filename r.kind.type).1) := by
  rw [Media.resolveDocument, Media.resolveItems, Media.resolveAll_eq_map Media.Listings.Kept.nil,
    filterMap_mediaOf?, List.map_map]
  rfl

/-- References have distinct identities if all items have. -/
theorem nodup_id_mediaRefs (h : d.itemIds.Nodup) : (d.mediaRefs.map Media.Reference.id).Nodup := by
  refine h.sublist ?_
  have hvisible : (d.visibleKnots.flatMap fun k => (Item.itemsIn k.items).map Item.id).Sublist
      d.itemIds := List.filter_sublist.flatMap _
  rw [mediaRefs, List.map_flatMap]
  exact (List.Sublist.flatMap_right _ fun k _ => Media.sublist_map_id_reference? k _).trans hvisible

/-- The references that are missing from the listings of all folders put together are exactly those whose
resolution is not valid, in the same order; and every reference has a resolution, of its name and type. -/
theorem missing_mediaRefs (lister : Media.Lister) (config : MediaConfig) (h : d.itemIds.Nodup) :
    let results := (Media.resolveDocument lister config d).1
    let assets := Media.collect lister config
    Media.missing d.mediaRefs assets.1 assets.2 config =
        d.mediaRefs.filter (fun r => (results.lookup r.id).any (!·.isValid)) ∧
      results.map Prod.fst = d.mediaRefs.map Media.Reference.id ∧
      ∀ r ∈ d.mediaRefs, ∃ res, results.lookup r.id = some res ∧ res.filename = r.filename ∧
        res.type = r.kind.type := by
  intro results assets
  have hresults : results = d.mediaRefs.map fun r =>
      (r.id, (Media.resolve lister config r.filename r.kind.type).1) :=
    resolveDocument_eq_map lister config d
  have hlookup : ∀ r ∈ d.mediaRefs, results.lookup r.id =
      some (Media.resolve lister config r.filename r.kind.type).1 := by
    intro r hr
    rw [hresults]
    exact Media.lookup_map_key (nodup_id_mediaRefs h) hr _
  refine ⟨?_, ?_, fun r hr => ⟨_, hlookup r hr, rfl, rfl⟩⟩
  · rw [Media.missing_collect]
    refine List.filter_congr fun r hr => ?_
    rw [hlookup r hr, Option.any_some]
  · rw [hresults, List.map_map]
    rfl

/-- One folder cannot be listed, one file is spelt with other letters, and the second knot of the name is not
visible. -/
theorem missing_mediaRefs_gallery :
    let d := (read 0 ("=== gallery ===\n<Wave>\n* [Look]\n    <video-walk>\n    <gone>\n" ++
      "=== gallery ===\n<unseen>\n")).1
    let lister : Media.Lister := fun folder =>
      if folder = "Shared" then some ["other.png", "wave.PNG"]
      else if folder = "Videos" then some ["walk.mp4"]
      else none
    let config : MediaConfig := { imageFolders := ["Images", "Shared"] }
    let results := (Media.resolveDocument lister config d).1
    let assets := Media.collect lister config
    d.itemIds.Nodup ∧
      (Media.missing d.mediaRefs assets.1 assets.2 config).map (·.filename) = ["gone"] ∧
      (d.mediaRefs.filter fun r => (results.lookup r.id).any (!·.isValid)).map (·.filename) =
        ["gone"] := by
  intro d lister config results assets
  have hids : d.itemIds.Nodup := by decide +kernel
  have hmissing : (Media.missing d.mediaRefs assets.1 assets.2 config).map (·.filename) = ["gone"] := by
    decide +kernel
  refine ⟨hids, hmissing, ?_⟩
  rw [← (missing_mediaRefs lister config hids).1]
  exact hmissing

end Document

end StoryScript
