import StoryScript.Proofs.Document.Retargeted
import StoryScript.Proofs.Session.Names

/-!
# Renaming a knot

Renaming a knot leads every divert to where it led (`Session.followed_renameKnot`): a target that resolved to
the knot resolves to it under the new name, every other target keeps its meaning, and besides targets no
content changes, provided that names and arrows are such that a change of text is a change of targets
(`Session.Separate`). The lines are changed one by one; read side by side with the old ones they give the
old script in other words (`Session.renamed_of_renameKnot`).

A renaming changes every arrow to the name, though, also where an arrow is no divert
(`Session.not_followed_of_prose`).
-/

namespace StoryScript

open Text

variable {old new : String}

/-! ### Lines -/

namespace Line

open Session

/-- Lines on which every arrow to the name ends the line, and on none of which a knot of the name begins. -/
structure Redirectable (old : String) (ls : List String) : Prop where
  line : ∀ l ∈ ls, '\n' ∉ l.toList
  ends : ∀ l ∈ ls, ArrowsEnd old l
  unnamed : ∀ l ∈ ofTexts ls, l.form ≠ .knotHeader old

theorem renames_zip {as bs : List String} {ls ms : List Line} (h : List.Forall₂ (Redirects old new) as bs)
    (hread : List.Forall₂ (Reworded (.renaming old new)) ls ms) (hls : ∀ l ∈ ls, l.form ≠ .knotHeader old) :
    List.Forall₂ (Renames old new) (as.zip ls) (bs.zip ms) := by
  induction h generalizing ls ms with
  | nil => exact .nil
  | cons hab _ ih =>
    cases hread with
    | nil => exact .nil
    | cons hlm hread =>
      rw [List.forall_mem_cons] at hls
      exact .cons (.other hab hlm hls.1) (ih hread hls.2)

theorem Redirectable.renames {ls : List String} (h : Redirectable old ls) (hold : IsName old.toList)
    (hnew : IsName new.toList) :
    List.Forall₂ (Renames old new) (ls.zip (ofTexts ls))
      ((ls.map (redirectLine old new)).zip (ofTexts (ls.map (redirectLine old new)))) := by
  have hredirects : List.Forall₂ (Redirects old new) ls (ls.map (redirectLine old new)) := by
    rw [List.forall₂_map_right_iff, List.forall₂_same]
    exact fun l hl => ⟨rfl, h.ends l hl, h.line l hl⟩
  exact renames_zip hredirects (reworded_readFrom hold hnew hredirects false).1 h.unnamed

/-- The lines around a knot, each with what it is read as. -/
theorem AroundKnot.zip_ofTexts {name header : String} {front body behind : List String}
    (h : AroundKnot name front header body behind) :
    (front ++ header :: (body ++ behind)).zip (ofTexts (front ++ header :: (body ++ behind))) =
      front.zip (ofTexts front) ++
        (header, ofText header) :: (body.zip (ofTexts body) ++ behind.zip (ofTexts behind)) := by
  rw [h.readFrom_eq, List.zip_append (by rw [length_ofTexts]), List.zip_cons_cons,
    List.zip_append (by rw [length_ofTexts])]

/-- A knot is renamed, and all lines around its header are redirected. -/
theorem AroundKnot.renames {header header' : String} {front body behind : List String}
    (h : AroundKnot old front header body behind)
    (h' : AroundKnot new (front.map (redirectLine old new)) header' (body.map (redirectLine old new))
      (behind.map (redirectLine old new)))
    (hold : IsName old.toList) (hnew : IsName new.toList) (hfront : Redirectable old front)
    (hbody : Redirectable old body) (hbehind : Redirectable old behind) :
    List.Forall₂ (Renames old new)
      ((front ++ header :: (body ++ behind)).zip (ofTexts (front ++ header :: (body ++ behind))))
      ((front.map (redirectLine old new) ++
        header' :: (body.map (redirectLine old new) ++ behind.map (redirectLine old new))).zip
        (ofTexts (front.map (redirectLine old new) ++
          header' :: (body.map (redirectLine old new) ++ behind.map (redirectLine old new))))) := by
  rw [h.zip_ofTexts, h'.zip_ofTexts]
  exact List.rel_append (hfront.renames hold hnew) (.cons (.header h.opens h'.opens)
    (List.rel_append (hbody.renames hold hnew) (hbehind.renames hold hnew)))

end Line

/-! ### Documents -/

namespace Document

/-- A document that is read from lines in which a knot is renamed. -/
theorem IsReading.renamed {d : Document} (hd : d.IsReading) (hold : IsName old.toList)
    (hnew : IsName new.toList) {ms : List String} (hms : ms ≠ []) (hline : ∀ l ∈ ms, '\n' ∉ l.toList)
    (h : List.Forall₂ (Line.Renames old new) (d.lines.zip (Line.ofTexts d.lines))
      (ms.zip (Line.ofTexts ms))) (supply : Nat) :
    d.Renamed old new (Document.read supply (unlines ms)).1 := by
  obtain ⟨first, text, hread⟩ := hd
  have hlines : d.lines = Text.lines text := congrArg Document.lines hread
  -- the old document keeps its own identities, the new one draws others and was written with breaks; both
  -- are compared with their readings in plain form
  have hplain := plain_of_unlabelled hread
  have hrenamed := ScriptState.renamed_ofLines hold hnew h first
  have hstate := ScriptState.plain_ofLines supply first (map_strip_lines_unlines hms hline)
  rw [hlines] at hrenamed
  constructor
  · have hknots : d.knots.map Knot.plain =
        ((ScriptState.ofLines first (Text.lines text)).knots.map Knot.plain).reverse := by
      rw [← List.map_reverse]
      exact congrArg Document.knots hplain
    have hknots' : (Document.read supply (unlines ms)).1.knots.map Knot.plain =
        ((ScriptState.ofLines first ms).knots.map Knot.plain).reverse := by
      rw [read_eq, List.map_reverse]
      have hknots : (ScriptState.ofLines supply (Text.lines (unlines ms))).knots.map Knot.plain =
        (ScriptState.ofLines first ms).knots.map Knot.plain := congrArg ScriptState.knots hstate
      rw [hknots]
    have hall : List.Forall₂ (Knot.Renamed old new) (d.knots.map Knot.plain)
        ((Document.read supply (unlines ms)).1.knots.map Knot.plain) := by
      rw [hknots, hknots', List.forall₂_reverse_iff, List.forall₂_map_left_iff,
        List.forall₂_map_right_iff]
      exact hrenamed.knots.imp fun _ _ hkl => hkl.plain
    rwa [List.forall₂_map_left_iff, List.forall₂_map_right_iff] at hall
  · have hdivert : d.initialDivert = (ScriptState.ofLines first (Text.lines text)).initialDivert :=
      congrArg Document.initialDivert hread
    have hdivert' : (Document.read supply (unlines ms)).1.initialDivert =
        (ScriptState.ofLines first ms).initialDivert := by
      rw [read_eq]
      exact (congrArg ScriptState.initialDivert hstate :)
    rw [hdivert, hdivert', hrenamed.initialDivert]

end Document

/-! ### Sessions -/

namespace Session

variable {s s' : Session}

/-- What a renaming has to find so that it changes names and nothing else: both names are ordinary ones, every
arrow to the old name ends its line, so that it is a divert, and no line that is kept as it stands holds
one; and no divert leads by its bare name to a stitch of its knot that has the new name. -/
structure Separate (old new : String) (d : Document) : Prop where
  line : '\n' ∉ new.toList
  terminal : isTerminal old = false ∧ isTerminal new = false
  ends : ∀ l ∈ d.lines, Line.ArrowsEnd old l
  kept : ∀ k ∈ d.knots, Item.AllIn (Leaf.Stands (.renaming old new)) k.items
  stitches : ∀ k ∈ d.knots, ∀ r ∈ k.divertRefs, r.target = new → new ∉ k.stitches

/-- A session after a renaming holds the document that was, in other words, with the identities of that. -/
theorem renamed_of_renameKnot (hreads : s.Reads) (hvisible : ∀ k ∈ s.document.knots, k.duplicate = false)
    (hs : s.renameKnot old new = .ok (some s')) (hline : '\n' ∉ new.toList)
    (hends : ∀ l ∈ s.document.lines, Line.ArrowsEnd old l) :
    ∃ e : Document, e.IsReading ∧ IsName new.toList ∧ s.document.Renameable old new ∧
      s.document.Renamed old new e ∧ ∃ k ∈ s.document.knots, k.name = old ∧
        s'.document = e.carry s.document (some (new, k.items)) := by
  obtain ⟨k, hk, hname, hfree, rfl⟩ := exists_of_renameKnot hs
  have hfind := findKnot?_of_knot hk
  have hmem := mem_of_knot hk
  obtain rfl := Document.name_of_findKnot? hfind
  obtain ⟨front, header, body, behind, ks, ls, hp⟩ := hreads.document.exists_placed hfind
  have hnew := isName_of_checkKnotName hname hline
  obtain ⟨header', hlines', hheader', hheaderLine⟩ := exists_renameLines hp hreads.document hnew
  have hlines := hreads.document.line
  have hunique := hreads.document.nodup_names_iff.mpr hvisible
  have hrenameable : s.document.Renameable k.name new := by
    refine ⟨hvisible, hunique, List.mem_map_of_mem hmem, fun hmem => ?_⟩
    obtain ⟨x, hx, hxname⟩ := List.mem_map.mp hmem
    rw [Document.findKnot?, List.find?_eq_none] at hfree
    exact hfree x hx (by simpa using hxname)
  rw [hp.lines] at hlines hends
  have hold := Line.isName_of_header (hlines header (by simp)) hp.around.opens
  -- the name of the knot begins no other knot behind it
  have hbehindNamed : ∀ l ∈ Line.ofTexts behind, l.form ≠ .knotHeader k.name := by
    intro l hl hform
    have hnames := congrArg (List.map Prod.fst) (names_of_placed hp hreads.document)
    rw [List.map_map] at hnames
    change s.document.knots.map Knot.name = _ at hnames
    rw [hnames, List.map_append, List.map_cons, List.nodup_middle, List.nodup_cons] at hunique
    exact hunique.1 (List.mem_append_right _ (Line.mem_map_fst_namesIn.mpr ⟨l, hl, hform⟩))
  have haround := hp.around.renamed hold hnew hlines (redirected_redirectLine k.name new) hheader'
  simp only [List.forall_mem_append, List.forall_mem_cons] at hlines hends
  have hrenames := hp.around.renames haround hold hnew ⟨hlines.1, hends.1, hp.unnamed⟩
    ⟨hlines.2.2.1, hends.2.2.1, fun l hl hform => by
      have hinside := hp.around.inside l hl
      rw [hform] at hinside
      exact absurd hinside (by simp [LineForm.endsKnot])⟩
    ⟨hlines.2.2.2, hends.2.2.2, hbehindNamed⟩
  rw [← hp.lines, ← hlines'] at hrenames
  refine ⟨_, Document.isReading_read _ _, hnew, hrenameable,
    hreads.document.renamed hold hnew ?_ ?_ hrenames s.supply, k, hmem, rfl, rfl⟩
  · rw [hlines']
    simp
  · rw [hlines']
    simp only [List.forall_mem_append, List.forall_mem_cons]
    exact ⟨newline_not_mem_redirected hold hnew hlines.1, hheaderLine,
      newline_not_mem_redirected hold hnew hlines.2.2.1, newline_not_mem_redirected hold hnew hlines.2.2.2⟩

/-- A target before and after a renaming: it still ends the story, or it resolves to what it resolved to, under
the new name. -/
structure Followed (old new : String) (d e : Document) (source : Option String) (t u : String) : Prop where
  terminal : isTerminal t = true → isTerminal u = true
  resolves : ∀ p, d.resolve? source t = some p →
    e.resolve? (source.map (renamed old new)) u = some (renamed old new p.1, p.2)

/-- A knot before and after a renaming: its diverts, one by one, lead where they led, and besides targets
nothing changes in its items. Identities stay as well, unless a divert led to the new name before. -/
structure FollowedIn (old new : String) (d e : Document) (k l : Knot) : Prop where
  name : l.name = renamed old new k.name
  diverts : List.Forall₂ (fun q r : DivertRef => r.line = q.line ∧ r.context = q.context ∧
    Followed old new d e (some k.name) q.target r.target) k.divertRefs l.divertRefs
  items : Item.unlabelledIn l.items =
    Item.rewordIn (.ofTarget (retarget old new)) (Item.unlabelledIn k.items)
  identities : Item.AllIn (Leaf.Leads fun t => knotPart t ≠ new) k.items →
    l.items = Item.rewordIn (.ofTarget (retarget old new)) k.items

/-- **Renaming.** Without duplicates, a renaming leads every divert of every knot, and the divert that starts
the story, to where it led, and besides targets it changes nothing in any item. -/
theorem followed_renameKnot (h : s.Reachable) (hvisible : ∀ k ∈ s.document.knots, k.duplicate = false)
    (hs : s.renameKnot old new = .ok (some s')) (hsep : Separate old new s.document) :
    List.Forall₂ (FollowedIn old new s.document s'.document) s.document.visibleKnots
        s'.document.visibleKnots ∧
      Option.Rel (Followed old new s.document s'.document none) s.document.initialDivert
        s'.document.initialDivert := by
  have hreads := h.reads
  obtain ⟨e, hreading, hnew, hrenameable, hrenamed, k, hk, hname, hdocument⟩ :=
    renamed_of_renameKnot hreads hvisible hs hsep.line hsep.ends
  have hbecomes := hrenamed.carry hrenameable hreads.document.sameList_self hnew hk hname
  rw [← hdocument] at hbecomes
  have hreading' : s'.document.IsReading := by
    rw [hdocument]
    exact hreading.carry _ _
  -- the document after the renaming is the old one renamed, with all knots visible
  have hafter : s.document.Renamed old new s'.document :=
    ⟨hbecomes.imp fun _ _ hkl => hkl.same, by rw [hdocument]; exact hrenamed.initialDivert⟩
  have hvisible' := hreading'.nodup_names_iff.mp (hafter.unique hrenameable)
  have hfollowed : ∀ {source : Option String} {t : String},
      (t = new → ∀ k ∈ source.bind s.document.visibleKnot?, new ∉ k.stitches) →
      Followed old new s.document s'.document source t (retarget old new t) := by
    intro source t hcaptured
    refine ⟨fun hterminal => ?_, fun p hp => ?_⟩
    · rwa [retarget_of_isTerminal hsep.terminal.1 hterminal]
    · exact hafter.resolve? hrenameable hvisible' hnew hsep.terminal.2 hcaptured hp
  rw [Document.visibleKnots_of_not_duplicate hvisible, Document.visibleKnots_of_not_duplicate hvisible']
  constructor
  · refine List.forall₂_iff_zip.mpr ⟨hbecomes.length_eq, fun {k l} hkl => ?_⟩
    have hk := (List.of_mem_zip hkl).1
    obtain ⟨hsame, hids⟩ := (List.forall₂_iff_zip.mp hbecomes).2 hkl
    have hkept := hsep.kept k hk
    have hitems : Item.unlabelledIn l.items =
        Item.rewordIn (.renaming old new) (Item.unlabelledIn k.items) := hsame.items
    refine ⟨hsame.name, ?_, ?_, fun hleads => ?_⟩
    · rw [hsame.divertRefs, List.forall₂_map_right_iff, List.forall₂_same]
      refine fun r hr => ⟨rfl, rfl, hfollowed fun htarget x hx => ?_⟩
      rw [Option.bind_some, Option.mem_def] at hx
      obtain rfl : x = k := by
        have hxmem : x ∈ s.document.visibleKnots := List.mem_of_find?_eq_some hx
        rw [Document.visibleKnots_of_not_duplicate hvisible] at hxmem
        exact List.inj_on_of_nodup_map hrenameable.unique hxmem hk (by simpa using List.find?_some hx)
      exact hsep.stitches x hk r hr htarget
    · rw [hitems, ← Item.unlabelledIn_rewordIn, Item.rewordIn_eq_ofTarget hkept,
        Item.unlabelledIn_rewordIn]
      rfl
    · rw [hids hkept hleads, Item.rewordIn_eq_ofTarget hkept]
      rfl
  · rw [hafter.initialDivert]
    cases s.document.initialDivert with
    | none => exact .none
    | some t => exact .some (hfollowed fun _ x hx => by simp at hx)

/-- The knot to which a choice leads, in a script that starts there, has a stitch of its own. -/
theorem followed_renameKnot_inn :
    let s := start 0 "-> inn\n=== road ===\n* Rest -> inn.bar\n-> END\n=== inn ===\n= bar\n-> bar\n-> road" none 4 200
    ∃ t, s.renameKnot "inn" "tavern" = .ok (some t) ∧
      List.Forall₂ (FollowedIn "inn" "tavern" s.document t.document) s.document.visibleKnots
          t.document.visibleKnots ∧
        Option.Rel (Followed "inn" "tavern" s.document t.document none) s.document.initialDivert
          t.document.initialDivert := by
  intro s
  have hok : (s.renameKnot "inn" "tavern").toOption.join.isSome = true := by decide +kernel
  obtain ⟨t, ht⟩ := Option.isSome_iff_exists.mp hok
  have hs : s.renameKnot "inn" "tavern" = .ok (some t) :=
    eq_ok_of_toOption (Option.join_eq_some_iff.mp ht)
  have hvisible : ∀ k ∈ s.document.knots, k.duplicate = false := by decide +kernel
  have hseparate : Separate "inn" "tavern" s.document :=
    ⟨by decide, by decide, by decide +kernel, by decide +kernel, by decide +kernel⟩
  have hreachable : s.Reachable := reachable_start ..
  exact ⟨t, hs, followed_renameKnot hreachable hvisible hs hseparate⟩

/-- The words of a text that is no divert are changed with the name of the knot. -/
theorem not_followed_of_prose :
    let s := start 0 "=== a ===\nGo -> c now\n-> c\n=== c ===\nx\n" none 4 200
    s.Reachable ∧ (∀ k ∈ s.document.knots, k.duplicate = false) ∧
      ∃ t, s.renameKnot "c" "d" = .ok (some t) ∧
        ¬ List.Forall₂ (FollowedIn "c" "d" s.document t.document) s.document.visibleKnots
          t.document.visibleKnots := by
  intro s
  have hreachable : s.Reachable := reachable_start ..
  have hvisible : ∀ k ∈ s.document.knots, k.duplicate = false := by decide +kernel
  refine ⟨hreachable, hvisible, ?_⟩
  let leaves : List Item → List (Option Leaf) := fun is => (Item.nodesIn (Item.unlabelledIn is)).map Node.leaf?
  let expected : Knot → List (Option Leaf) := fun k =>
    (Item.nodesIn (Item.rewordIn (.ofTarget (retarget "c" "d")) (Item.unlabelledIn k.items))).map Node.leaf?
  have hchanged : (s.renameKnot "c" "d").toOption.join.any (fun t =>
      s.document.visibleKnots.map expected ≠ t.document.visibleKnots.map fun l => leaves l.items) = true := by
    decide +kernel
  obtain ⟨t, ht, hne⟩ := (Option.any_eq_true _ _).mp hchanged
  refine ⟨t, eq_ok_of_toOption (Option.join_eq_some_iff.mp ht), fun hall => of_decide_eq_true hne ?_⟩
  have hsame : List.Forall₂ (· = ·) (s.document.visibleKnots.map expected)
      (t.document.visibleKnots.map fun l => leaves l.items) := by
    rw [List.forall₂_map_left_iff, List.forall₂_map_right_iff]
    exact hall.imp fun k l hkl => congrArg (fun is => (Item.nodesIn is).map Node.leaf?) hkl.items.symm
  rwa [List.forall₂_eq_eq_eq] at hsame

end Session

end StoryScript
