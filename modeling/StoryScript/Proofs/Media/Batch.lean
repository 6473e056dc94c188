import StoryScript.Proofs.Media.Resolution
import Mathlib.Data.List.Nodup

/-!
# A batch of media and each name on its own

A batch keeps what it has listed, for items of both types and for all their folders, and asks for a folder when it
comes to one that is not there yet. It is shown for one step (`Media.Listings.Sound.including`) and from there for
the whole batch (`Media.Listings.Sound.resolveAll`) that what is kept are listings of configured folders, each one
of what is in its folder, and none of them twice. That the results are those of each name on its own holds for any
listings with what is in their folders (`Media.resolveAll_eq_map`).

A batch tells folders apart by what they are called in the configuration. So what is listed once is each *text*
(`Media.resolveItems_each`); a folder that is called `A` in one place and `A/` in another one is listed under both
(`Media.not_nodup_of_two_spellings`).
-/

namespace StoryScript

namespace Media

/-- The path of a folder of the configuration. -/
def folderPath (root : Path) (folder : String) : Path := root.join (Path.ofString folder)

variable {lister : Lister} {config : MediaConfig}

/-- Listings of some folders, each one of what is in its folder, and none of them twice. -/
structure Listings.Sound (lister : Lister) (folders : List String) (known : Listings) : Prop where
  once : (known.map Prod.fst).Nodup
  asked : ∀ l ∈ known, l.1 ∈ folders
  files : ∀ l ∈ known, l.2 = lister.files l.1

namespace Listings.Sound

variable {folders : List String} {known : Listings}

theorem nil : Sound lister folders [] := ⟨List.nodup_nil, nofun, nofun⟩

/-- A folder is asked for only if it is not there yet. -/
theorem including (h : known.Sound lister folders) {folder : String} (hfolder : folder ∈ folders) :
    (known.including lister folder).Sound lister folders := by
  unfold Listings.including
  split
  · exact h
  · next hnew =>
    -- what has no listing is the key of none
    rw [Bool.not_eq_true, Option.isSome_eq_false_iff, Option.isNone_iff_eq_none, List.lookup_eq_none_iff] at hnew
    refine ⟨?_, ?_, ?_⟩
    · rw [List.map_append, List.map_singleton, List.nodup_append]
      refine ⟨h.once, List.nodup_singleton _, ?_⟩
      rintro name hname _ hlast rfl
      obtain ⟨l, hl, rfl⟩ := List.mem_map.mp hname
      exact bne_iff_ne.mp (hnew l hl) (List.mem_singleton.mp hlast).symm
    · rw [List.forall_mem_append, List.forall_mem_singleton]
      exact ⟨h.asked, hfolder⟩
    · rw [List.forall_mem_append, List.forall_mem_singleton]
      exact ⟨h.files, rfl⟩

/-- A search goes through some of its folders, from the first one on. -/
theorem search (h : known.Sound lister folders) (extensions : List String) (filename : String) :
    ∀ {searched : List String}, searched ⊆ folders →
      (Media.search lister extensions filename searched known).2.Sound lister folders := by
  intro searched hsearched
  induction searched generalizing known with
  | nil => exact h
  | cons folder searched ih =>
    rw [List.cons_subset] at hsearched
    have hnext := h.including hsearched.1
    rw [Media.search]
    split
    · exact hnext
    · exact ih hnext hsearched.2

/-- A batch of names of both types. -/
theorem resolveAll (h : known.Sound lister (config.imageFolders ++ config.videoFolders))
    (xs : List (Id × String × MediaType)) :
    (Media.resolveAll lister config xs known).2.Sound lister (config.imageFolders ++ config.videoFolders) := by
  induction xs generalizing known with
  | nil => exact h
  | cons x xs ih =>
    obtain ⟨id, filename, type⟩ := x
    refine ih (h.search _ filename ?_)
    -- the folders of either type are among those of the configuration
    cases type with
    | image => exact List.subset_append_left _ _
    | video => exact List.subset_append_right _ _

end Listings.Sound

/-! ### Results -/

theorem id_of_mediaOf? {i : Item} {x : Id × String × MediaType} (h : mediaOf? i = some x) : x.1 = i.id := by
  unfold mediaOf? at h
  split at h
  · rw [← Option.some.inj h]
    rfl
  · cases h

theorem map_fst_filterMap_mediaOf? (is : List Item) :
    (is.filterMap mediaOf?).map Prod.fst = (is.filter fun i => (mediaOf? i).isSome).map Item.id := by
  induction is with
  | nil => rfl
  | cons i is ih =>
    cases hx : mediaOf? i with
    | none => rw [List.filterMap_cons_none hx, List.filter_cons_of_neg (by simp [hx]), ih]
    | some x =>
      rw [List.filterMap_cons_some hx, List.filter_cons_of_pos (by simp [hx]), List.map_cons, List.map_cons, ih,
        id_of_mediaOf? hx]

/-- Among the results for the media items of a list each of them has its own, and no other item has one. -/
theorem lookup_filterMap_mediaOf? {is : List Item} (h : (is.map Item.id).Nodup) {i : Item} (hi : i ∈ is)
    (f : Id × String × MediaType → Resolution) :
    ((is.filterMap mediaOf?).map fun x => (x.1, f x)).lookup i.id = (mediaOf? i).map f := by
  cases hx : mediaOf? i with
  | some x =>
    have hkeys : ((is.filterMap mediaOf?).map Prod.fst).Nodup := by
      rw [map_fst_filterMap_mediaOf?]
      exact h.sublist (List.filter_sublist.map _)
    rw [← id_of_mediaOf? hx]
    exact lookup_map_key hkeys (List.mem_filterMap.mpr ⟨i, hi, hx⟩) f
  | none =>
    rw [Option.map_none, List.lookup_eq_none_iff, List.forall_mem_map]
    intro y hy
    obtain ⟨j, hj, hy⟩ := List.mem_filterMap.mp hy
    refine bne_iff_ne.mpr fun heq => ?_
    rw [id_of_mediaOf? hy] at heq
    rw [List.inj_on_of_nodup_map h hi hj heq, hy] at hx
    cases hx

/-- A batch of items, nested ones too, none of which share an identity, where no two folders of the configuration
differ only in how they are spelt:

* there is a result for each media item, in their order, and it is that of its name on its own; no other item has
  one;
* only folders of the configuration are listed, each one at most once, under whatever path it has. -/
theorem resolveItems_each (lister : Lister) (config : MediaConfig) (root : Path) {items : List Item}
    (hids : ((Item.itemsIn items).map Item.id).Nodup)
    (hspelt : ∀ a ∈ config.imageFolders ++ config.videoFolders, ∀ b ∈ config.imageFolders ++ config.videoFolders,
      folderPath root a = folderPath root b → a = b) :
    let results := (resolveItems lister config items).1
    let listed := (resolveItems lister config items).2
    results.map Prod.fst = ((Item.itemsIn items).filter fun i => (mediaOf? i).isSome).map Item.id ∧
    (∀ i ∈ Item.itemsIn items, results.lookup i.id =
      (mediaOf? i).map fun x => (resolve lister config x.2.1 x.2.2).1) ∧
    (listed.map fun l => folderPath root l.1).Nodup ∧
    ∀ l ∈ listed, l.1 ∈ config.imageFolders ++ config.videoFolders ∧ l.2 = lister.files l.1 := by
  intro results listed
  have hresults : results = ((Item.itemsIn items).filterMap mediaOf?).map fun x =>
      (x.1, (resolve lister config x.2.1 x.2.2).1) := resolveAll_eq_map .nil _
  have hempty : Listings.Sound lister (config.imageFolders ++ config.videoFolders) [] := .nil
  have hlisted : listed.Sound lister (config.imageFolders ++ config.videoFolders) := hempty.resolveAll _
  refine ⟨?_, fun i hi => ?_, ?_, fun l hl => ⟨hlisted.asked l hl, hlisted.files l hl⟩⟩
  · rw [← map_fst_filterMap_mediaOf?, hresults, List.map_map]
    rfl
  · rw [hresults]
    exact lookup_filterMap_mediaOf? hids hi _
  · have hasked : ∀ a ∈ listed.map Prod.fst, a ∈ config.imageFolders ++ config.videoFolders :=
      List.forall_mem_map.mpr hlisted.asked
    have hpaths := hlisted.once.map_on fun a ha b hb => hspelt a (hasked a ha) b (hasked b hb)
    rwa [List.map_map] at hpaths

/-- A folder for both types, one that is named twice, and one that cannot be listed in front of the others. -/
theorem resolveItems_each_album :
    let image (n : Nat) (filename : String) : Item := .leaf ⟨.fresh n, none⟩ (.media .image filename "")
    let video (n : Nat) (filename : String) : Item := .leaf ⟨.fresh n, none⟩ (.media .playerVideo filename "")
    let items := [image 0 "wave", .choice ⟨.fresh 1, none⟩ { text := "Look" } [video 2 "walk", image 3 "gone"]]
    let lister : Lister := fun folder =>
      if folder = "C" then some ["walk.mp4", "wave.png"] else if folder = "B" then some [] else none
    let config : MediaConfig := { imageFolders := ["A", "B", "C", "B"], videoFolders := ["C"] }
    let results := (resolveItems lister config items).1
    let listed := (resolveItems lister config items).2
    (listed.map fun l => folderPath {} l.1).Nodup ∧
    listed.map Prod.fst = ["A", "B", "C"] ∧
    results.map Prod.fst = [.fresh 0, .fresh 2, .fresh 3] ∧
    results.lookup (.fresh 2) = some (resolve lister config "walk" .video).1 := by
  intro image video items lister config results listed
  have hids : ((Item.itemsIn items).map Item.id).Nodup := by decide
  have hpath : ∀ a ∈ config.imageFolders ++ config.videoFolders, folderPath {} a = ⟨.here, [a]⟩ := by
    have ha : folderPath {} "A" = ⟨.here, ["A"]⟩ := by decide +kernel
    have hb : folderPath {} "B" = ⟨.here, ["B"]⟩ := by decide +kernel
    have hc : folderPath {} "C" = ⟨.here, ["C"]⟩ := by decide +kernel
    simp [config, ha, hb, hc]
  have hspelt : ∀ a ∈ config.imageFolders ++ config.videoFolders, ∀ b ∈ config.imageFolders ++ config.videoFolders,
      folderPath {} a = folderPath {} b → a = b := by
    intro a ha b hb heq
    rw [hpath a ha, hpath b hb] at heq
    simpa using heq
  obtain ⟨-, hlookup, hpaths, -⟩ := resolveItems_each lister config {} hids hspelt
  refine ⟨hpaths, by decide +kernel, by decide +kernel, ?_⟩
  exact hlookup (video 2 "walk") (List.mem_of_getElem? (i := 2) rfl)

/-- A folder that is spelt in two ways is listed twice. -/
theorem not_nodup_of_two_spellings :
    let items : List Item := [.leaf ⟨.named "i", none⟩ (.media .image "x" "")]
    let config : MediaConfig := { imageFolders := ["A", "A/"] }
    let listed := (resolveItems (fun _ => some []) config items).2
    ((Item.itemsIn items).map Item.id).Nodup ∧ ¬ (listed.map fun l => folderPath {} l.1).Nodup := by
  intro items config listed
  have hlisted : listed = [("A", []), ("A/", [])] := by decide +kernel
  have hsame : folderPath {} "A" = folderPath {} "A/" := by decide +kernel
  refine ⟨by decide, fun hnodup => ?_⟩
  simp [hlisted, hsame] at hnodup

end Media

end StoryScript
