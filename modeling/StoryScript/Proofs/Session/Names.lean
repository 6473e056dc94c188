import StoryScript.Proofs.Document.Annotated
import StoryScript.Proofs.Session.Front
import StoryScript.Proofs.Session.ItemEdit

/-!
# Unique names through a session

A script whose names are unique keeps them unique through a session (`Session.namesUnique_of_reachableBy`),
as far as every command is one whose names the checks foresee (`Session.Foreseen`). The names of a snapshot
are those of its lines (`Document.IsReading.names`), so each command is judged by the lines it makes:

* insertions, replacements and moves are compared with what is read back, so the stitches of the knot are
  those of the edited tree (`Session.namesUnique_of_rewritten`), and what the tree gains has been checked
  against the stitches that stay;
* a deletion, which is not compared, must write lines that stay within their knot;
* raw text is checked by its headers, so it must hide no stitch behind the label of a branch and end its
  comments (`Session.PlainBody`);
* a renaming redirects arrows, which changes no name but that of the knot; and positions and the first
  divert change lines that no name is read from.

Without these conditions names may come twice (`Session.not_namesUnique_of_hidden_stitch`).
-/

namespace StoryScript

open Text

/-! ### Documents with unique names -/

namespace Document

/-- No two knots of a script have the same name, and no two stitches of one knot. -/
structure NamesUnique (d : Document) : Prop where
  knots : (d.knots.map Knot.name).Nodup
  stitches : ∀ k ∈ d.knots, k.stitches.Nodup

theorem namesUnique_iff {d : Document} : d.NamesUnique ↔ UniqueNames (d.knots.map Knot.names) := by
  constructor
  · intro h
    refine ⟨by simpa [Knot.names, Function.comp_def] using h.knots, ?_⟩
    rw [List.forall_mem_map]
    exact h.stitches
  · intro h
    refine ⟨by simpa [Knot.names, Function.comp_def] using h.knots, ?_⟩
    have hstitches := h.stitches
    rwa [List.forall_mem_map] at hstitches

instance (d : Document) : Decidable d.NamesUnique := decidable_of_iff _ namesUnique_iff.symm

end Document

/-- Names do not depend on identities. -/
theorem Knot.names_unlabelled (k : Knot) : k.unlabelled.names = k.names := by
  rw [names, names, k.stitches_unlabelled]
  rfl

/-- The names of a document that was read are those of its lines. -/
theorem Document.IsReading.names {d : Document} (h : d.IsReading) :
    d.knots.map Knot.names = Line.namesIn (Line.ofTexts d.lines) := by
  obtain ⟨supply, hknots⟩ := h.knots
  have hmap : ∀ ks : List Knot, (ks.map Knot.unlabelled).map Knot.names = ks.map Knot.names := by
    intro ks
    rw [List.map_map]
    exact List.map_congr_left fun k _ => k.names_unlabelled
  rw [← hmap, hknots, hmap, ScriptState.names_ofLines]

namespace Session

variable {s s' : Session}

/-- The names of the document that is read from lines are those of the lines. -/
theorem names_reread {lines : List String} (hline : ∀ l ∈ lines, '\n' ∉ l.toList)
    (c : Document.Counterpart) : (s.reread (unlines lines) c).document.knots.map Knot.names =
      Line.namesIn (Line.ofTexts lines) := by
  have hreading : (s.reread (unlines lines) c).document.IsReading := isReading_read s _ c
  have hlines : (s.reread (unlines lines) c).document.lines = Text.lines (unlines lines) := rfl
  rw [hreading.names, hlines]
  by_cases hne : lines = []
  · subst hne
    rfl
  · rw [Line.ofTexts, Line.readFrom_congr (map_strip_lines_unlines hne hline), ← Line.ofTexts]

/-- Lines are read as a document whose names are unique if their names are. -/
theorem namesUnique_reread {lines : List String} (hline : ∀ l ∈ lines, '\n' ∉ l.toList)
    (c : Document.Counterpart) (h : UniqueNames (Line.namesIn (Line.ofTexts lines))) :
    (s.reread (unlines lines) c).document.NamesUnique := by
  rw [Document.namesUnique_iff, names_reread hline]
  exact h

/-- The names of the lines of a document that was read, cut at the first knot of a name. -/
theorem names_of_placed {d : Document} {k : Knot} {front : List String}
    {header : String} {body behind : List String} {ks ls : List Knot}
    (hp : d.Placed k front header body behind ks ls) (hd : d.IsReading) :
    d.knots.map Knot.names = Line.namesIn (Line.ofTexts front) ++
      (k.name, Line.stitchesIn (Line.ofTexts body)) :: Line.namesIn (Line.ofTexts behind) := by
  rw [hd.names, hp.lines, Line.namesIn_around hp.around]

/-! ### Edits of items -/

theorem names_of_kept {ks ls : List Knot} (h : List.Forall₂ Knot.Kept ks ls) :
    ks.map Knot.names = ls.map Knot.names := by
  induction h with
  | nil => rfl
  | @cons k l ks ls hkl _ ih =>
    have hnames : k.names = l.names := by
      rw [Knot.names, Knot.names, hkl.name, Knot.stitches, hkl.items, Knot.stitches]
    rw [List.map_cons, List.map_cons, hnames, ih]

/-- Where a knot is written anew, names stay unique if the stitches that are written are. -/
theorem namesUnique_of_rewritten {name : String} {items : List Item}
    (h : s.document.NamesUnique) (hr : s.document.Rewritten s'.document name items)
    (hitems : (Item.stitchesIn items).Nodup) : s'.document.NamesUnique := by
  obtain ⟨k, k', -, ⟨-, hk', ks, ls, ks', ls', hd, hd', hks, hls⟩, hsame, -⟩ := hr
  have hname : k'.name = k.name := Document.name_of_findKnot? hk'
  have hstitches : k'.stitches = Item.stitchesIn items := Item.stitchesIn_of_sameList hsame
  rw [Document.namesUnique_iff] at h ⊢
  rw [hd, List.map_append, List.map_cons] at h
  rw [hd', List.map_append, List.map_cons, names_of_kept hks, names_of_kept hls]
  exact h.exchange (Or.inl hname) (by rw [Knot.names, hstitches]; exact hitems)

/-- A stitch that passes the check is none of the stitches that stay. -/
theorem not_mem_of_checkStitch {k : Knot} {item : Item} {replacing : Option Id}
    (h : checkStitch k item replacing = .ok ()) : ∀ name ∈ item.stitchName?,
      name ∉ Item.stitchesIn (k.items.filter fun i => some i.id ≠ replacing) := by
  intro name hname hmem
  rw [Option.mem_def] at hname
  simp only [checkStitch, hname] at h
  split at h
  · simp at h
  · split at h
    · simp at h
    · next hfree => exact hfree (List.contains_iff_mem.mpr hmem)

theorem namesUnique_insert (hreads : s.Reads) (h : s.document.NamesUnique) {name : String}
    {item : Item} {caret : Caret} (hs : s.insert name item caret = .ok s')
    (hitem : item.All Leaf.Unbroken) : s'.document.NamesUnique := by
  obtain ⟨k, items, hk, hcheck, hitems, hwrite⟩ := exists_of_insert hs
  have hmem := mem_of_knot hk
  have hunbroken := Item.allIn_insert hitems hitem (hreads.document.allIn_unbroken hmem)
  refine namesUnique_of_rewritten h (rewritten_of_writeItems hreads hk hwrite hunbroken) ?_
  have hall : (k.items.filter fun i => some i.id ≠ none) = k.items := by simp
  have hnew := not_mem_of_checkStitch hcheck
  rw [hall] at hnew
  rw [(Item.perm_stitchesIn_insert hitems).nodup_iff]
  cases hname : item.stitchName? with
  | none => exact h.stitches k hmem
  | some stitch =>
    rw [Option.toList_some, List.singleton_append, List.nodup_cons]
    exact ⟨hnew stitch hname, h.stitches k hmem⟩

theorem namesUnique_replace (hreads : s.Reads) (h : s.document.NamesUnique) {name : String} {id : Id}
    {item : Item} (hs : s.replace name id item = .ok s') (hitem : item.All Leaf.Unbroken)
    (hone : ∀ k ∈ s.document.findKnot? name, (k.items.map Item.id).count id ≤ 1) :
    s'.document.NamesUnique := by
  obtain ⟨k, items, hk, hcheck, hitems, hwrite⟩ := exists_of_replace hs
  have hmem := mem_of_knot hk
  have hunbroken := Item.allIn_replace hitems hitem (hreads.document.allIn_unbroken hmem)
  refine namesUnique_of_rewritten h (rewritten_of_writeItems hreads hk hwrite hunbroken) ?_
  exact Item.nodup_stitchesIn_replace hitems (hone k (findKnot?_of_knot hk))
    (not_mem_of_checkStitch hcheck) (h.stitches k hmem)

theorem namesUnique_move (hreads : s.Reads) (h : s.document.NamesUnique) {name : String} {id : Id}
    {caret : Caret} (hs : s.move name id caret = .ok s') : s'.document.NamesUnique := by
  obtain ⟨k, items, hk, hitems, hwrite⟩ := exists_of_move hs
  have hmem := mem_of_knot hk
  have hunbroken := Item.allIn_move hitems (hreads.document.allIn_unbroken hmem)
  refine namesUnique_of_rewritten h (rewritten_of_writeItems hreads hk hwrite hunbroken) ?_
  rw [(Item.perm_stitchesIn_move (hreads.document.readable hmem).1 hitems).nodup_iff]
  exact h.stitches k hmem

theorem namesUnique_addStitch (hreads : s.Reads) (h : s.document.NamesUnique) {name stitch : String}
    {caret : Option Caret} (hs : s.addStitch name stitch caret = .ok s') :
    s'.document.NamesUnique := by
  obtain ⟨c, hs⟩ := exists_of_addStitch hs
  have hdrawn : ({ s with supply := s.supply + 1 } : Session).Reads :=
    ⟨hreads.document, hreads.past, hreads.future⟩
  exact namesUnique_insert hdrawn h hs fun kind filename extension hmedia => by simp at hmedia

/-! ### Deletions -/

/-- Items whose lines stay within their knot and are read back without a stitch that is not theirs. Every
other edit of items compares what is read back; a deletion does not. -/
structure Confined (indent : Nat) (items : List Item) : Prop where
  body : Line.OneBody (Item.renderList indent items)
  stitches : (Item.stitchesIn (Body.read 0 (Item.renderList indent items)).1.items).Sublist
    (Item.stitchesIn items)

theorem namesUnique_delete (hreads : s.Reads) (h : s.document.NamesUnique) {name : String} {id : Id}
    (hs : s.delete name id = .ok s') (hconfined : ∀ k ∈ s.document.findKnot? name, ∀ items,
      Item.delete k.items id = .ok items → Confined s.indent items) : s'.document.NamesUnique := by
  obtain ⟨k, items, hk, hitems, hwrite⟩ := exists_of_delete hs
  obtain ⟨k₀, hk₀, rfl, -⟩ := exists_of_writeItems hwrite
  obtain rfl : k₀ = k := Except.ok.inj (hk₀.symm.trans hk)
  have hfind := findKnot?_of_knot hk
  have hmem := mem_of_knot hk
  have hold : k₀.stitches.Nodup := h.stitches k₀ hmem
  obtain ⟨⟨hinside, hclosed⟩, hstitches⟩ := hconfined k₀ hfind items hitems
  obtain ⟨front, header, body, behind, ks, ls, hp⟩ := hreads.document.exists_placed hfind
  obtain ⟨blanks, hblanks, hsplice⟩ := hp.exists_spliceKnot
  rw [renderSection_eq, hsplice]
  refine namesUnique_reread ?_ _ ?_
  · -- every node that is left was read, so each is written on a line of its own
    refine hp.line hreads.document (Body.newline_not_mem_printed_append _ _ (fun e he => ?_) hblanks)
    exact (hreads.document.readable hmem).2 e ((Item.sublist_outlineIn_delete hitems 0).subset he)
  · rw [Body.printed]
    have hnames : Line.namesIn (Line.ofTexts (Item.renderList s.indent items)) = [] := by
      rw [← List.append_nil (Line.ofTexts _)]
      refine Line.namesIn_append_of_ne (fun l hl name hform => ?_) []
      have hends := hinside l hl
      simp [hform, LineForm.endsKnot] at hends
    have hsection : Line.section_ (Line.ofTexts (Item.renderList s.indent items)) =
        Line.ofTexts (Item.renderList s.indent items) :=
      List.takeWhile_eq_self_iff.mpr fun l hl => by simp [hinside l hl]
    -- what is left ends no knot and no comment stays open in it, so the section is all of it
    rw [Line.namesIn_written hp.around.clear hp.around.opens (Line.silent_position k₀.position) hclosed hblanks
      hp.around.ends, hnames, List.nil_append, hsection, ← Body.stitchesIn_read 0]
    rw [Document.namesUnique_iff, names_of_placed hp hreads.document] at h
    refine h.exchange (Or.inl rfl) ?_
    exact hold.sublist (hstitches.trans (Item.sublist_stitchesIn_delete hitems))

/-! ### Edits of whole knots -/

theorem mem_knotNames {d : Document} {name : String} :
    name ∈ d.knotNames ↔ name ∈ (d.knots.map Knot.names).map Prod.fst := by
  rw [Document.knotNames, List.mem_eraseDups, List.map_map]
  rfl

theorem mem_names_of_findKnot? {d : Document} {name : String} :
    d.findKnot? name = none ↔ name ∉ (d.knots.map Knot.names).map Prod.fst := by
  rw [Document.findKnot?, List.find?_eq_none, List.map_map]
  simp [Knot.names, Function.comp_def]

theorem namesUnique_deleteKnot (hreads : s.Reads) (h : s.document.NamesUnique) {name : String}
    (hs : s.deleteKnot name = .ok s') : s'.document.NamesUnique := by
  obtain ⟨k, hk, rfl⟩ := exists_of_deleteKnot hs
  obtain ⟨front, header, body, behind, ks, ls, hp⟩ :=
    hreads.document.exists_placed (findKnot?_of_knot hk)
  rw [hp.take_front, hp.drop_behind]
  refine namesUnique_reread (fun l hl => ?_) _ ?_
  · refine hreads.document.line l ?_
    rw [hp.lines]
    rcases List.mem_append.mp hl with hl | hl
    · simp [hl]
    · simp [hl]
  · rw [Document.namesUnique_iff, names_of_placed hp hreads.document] at h
    rw [Line.namesIn_ofTexts_append hp.around.clear hp.around.ends]
    exact h.sublist ((List.Sublist.refl _).append (List.sublist_cons_self _ _))

/-- Raw lines that pass the check can stand in a knot among other knots. -/
theorem uniqueNames_written {front behind : List (String × List String)} {name : String}
    {taken : List String} {ls : List Line} (hrest : UniqueNames (front ++ behind))
    (hname : name ∉ (front ++ behind).map Prod.fst) (hf : Line.Foresees taken [] ls)
    (htaken : name ∈ taken ∧ (front ++ behind).map Prod.fst ⊆ taken) :
    UniqueNames (front ++
      (name, Line.stitchesIn (Line.section_ ls)) :: (Line.namesIn ls ++ behind)) := by
  have hmid : UniqueNames ((name, Line.stitchesIn (Line.section_ ls)) :: Line.namesIn ls) := by
    refine ⟨?_, List.forall_mem_cons.mpr ⟨hf.stitches, hf.names.stitches⟩⟩
    rw [List.map_cons, List.nodup_cons]
    refine ⟨fun hmem => ?_, hf.names.knots⟩
    obtain ⟨x, hx, hxname⟩ := List.mem_map.mp hmem
    exact hf.free x hx (by rw [hxname]; exact htaken.1)
  have hinsert := hrest.insert hmid ?_
  · simpa using hinsert
  · rw [List.forall_mem_cons]
    exact ⟨hname, fun x hx hmem => hf.free x hx (htaken.2 hmem)⟩

theorem newline_not_mem_map_splitAt (cs : List Char) :
    ∀ l ∈ (splitAt '\n' cs).map String.ofList, '\n' ∉ l.toList := by
  rw [List.forall_mem_map]
  intro p hp
  rw [String.toList_ofList]
  exact sep_not_mem_splitAt '\n' cs p hp

theorem newline_not_mem_rawLines (body : String) : ∀ l ∈ rawLines body, '\n' ∉ l.toList := by
  unfold rawLines
  split
  · simp
  · exact newline_not_mem_map_splitAt _

theorem newline_not_mem_bodyLines (body : String) : ∀ l ∈ bodyLines body, '\n' ∉ l.toList := by
  unfold bodyLines
  split
  · simp
  · exact newline_not_mem_map_splitAt _

theorem newline_not_mem_position (position : Option Position) :
    ∀ l ∈ (position.map Position.comment).toList, '\n' ∉ l.toList := by
  intro l hl
  obtain ⟨p, -, rfl⟩ := Option.map_eq_some_iff.mp (Option.mem_toList.mp hl)
  exact Line.newline_not_mem_positionComment p

/-- A raw body whose stitches stand on lines of their own and whose comments end. -/
structure PlainBody (body : List String) : Prop where
  hides : ∀ l ∈ Line.ofTexts body, l.HidesNoStitch
  closed : Line.opensBlock false body = false

theorem namesUnique_replaceKnot (hreads : s.Reads) (h : s.document.NamesUnique) {name body : String}
    (hs : s.replaceKnot name body = .ok s') (hbody : PlainBody (rawLines body)) :
    s'.document.NamesUnique := by
  obtain ⟨k, hk, hcheck, rfl⟩ := exists_of_replaceKnot hs
  have hfind := findKnot?_of_knot hk
  obtain rfl := Document.name_of_findKnot? hfind
  obtain ⟨front, header, old, behind, ks, ls, hp⟩ := hreads.document.exists_placed hfind
  obtain ⟨blanks, hblanks, hsplice⟩ := hp.exists_spliceKnot
  rw [List.cons_append, hsplice]
  have hblanksLine : ∀ l ∈ blanks, '\n' ∉ l.toList := fun l hl => by simp [hblanks l hl]
  refine namesUnique_reread ?_ _ ?_
  · refine hp.line hreads.document ?_
    rw [List.forall_mem_append, List.forall_mem_append]
    exact ⟨⟨newline_not_mem_position _, newline_not_mem_rawLines body⟩, hblanksLine⟩
  · have hf : Line.Foresees s.document.knotNames [] (Line.ofTexts (rawLines body)) :=
      Line.foresees_of_checkLines hcheck hbody.hides
    have hnames := names_of_placed hp hreads.document
    have htaken : ∀ x ∈ (s.document.knots.map Knot.names).map Prod.fst, x ∈ s.document.knotNames :=
      fun x hx => mem_knotNames.mpr hx
    rw [Document.namesUnique_iff, hnames] at h
    rw [hnames] at htaken
    rw [Line.namesIn_written hp.around.clear hp.around.opens (Line.silent_position _) hbody.closed hblanks
      hp.around.ends]
    -- the name of the knot stands between the others; brought to the front, it is seen to be apart from them
    have hknots := h.knots
    rw [List.map_append, List.map_cons, List.perm_middle.nodup_iff, List.nodup_cons,
      ← List.map_append] at hknots
    refine uniqueNames_written (h.sublist ((List.Sublist.refl _).append (List.sublist_cons_self _ _)))
      hknots.1 hf ⟨htaken _ (by simp), fun x hx => htaken x ?_⟩
    rw [List.map_append, List.map_cons]
    rw [List.map_append] at hx
    rcases List.mem_append.mp hx with hx | hx
    · exact List.mem_append_left _ hx
    · exact List.mem_append_right _ (List.mem_cons_of_mem _ hx)

/-! ### Knots that are added -/

/-- A line on which a knot ends is read outside every comment. -/
theorem outside_of_endsKnot {ls : List String} {n : Nat} {l : Line} (hl : (Line.ofTexts ls)[n]? = some l)
    (hends : l.form.endsKnot = true) : Line.opensBlock false (ls.take n) = false ∧
      ∀ p ∈ (ls.drop n).head?, Line.ofText p = l := by
  have hn : n < ls.length := by
    have hlength := (List.getElem?_eq_some_iff.mp hl).1
    rwa [Line.length_ofTexts] at hlength
  have htake : (Line.ofTexts (ls.take n)).length = n := by
    rw [Line.length_ofTexts, List.length_take, Nat.min_eq_left hn.le]
  rw [Line.ofTexts_eq_take_append ls n, List.getElem?_append_right htake.le, htake, Nat.sub_self] at hl
  obtain ⟨p, rest, hdrop⟩ := List.exists_cons_of_ne_nil (l := ls.drop n) (by simp; omega)
  rw [hdrop] at hl ⊢
  cases hblock : Line.opensBlock false (ls.take n) with
  | true =>
    rw [hblock, Line.readFrom_true_cons] at hl
    obtain rfl : Line.insideComment p = l := by simpa using hl
    simp [Line.insideComment, LineForm.endsKnot] at hends
  | false =>
    rw [hblock, Line.readFrom_false_cons] at hl
    obtain rfl : Line.ofText p = l := by simpa using hl
    exact ⟨rfl, by simp⟩

/-- A blank line is read as one, and it neither opens nor closes a comment. -/
theorem opensBlock_append_of_isBlankLine (inBlock : Bool) (ls : List String) {bs : List String}
    (h : ∀ l ∈ bs, isBlankLine l = true) :
    Line.opensBlock inBlock (ls ++ bs) = Line.opensBlock inBlock ls := by
  rw [Line.opensBlock_append]
  generalize Line.opensBlock inBlock ls = block
  induction bs with
  | nil => rfl
  | cons b bs ih =>
    rw [List.forall_mem_cons] at h
    have hb : stripChars b.toList = [] := by simpa [isBlankLine] using h.1
    cases block with
    | true =>
      have hcloses : Line.closesComment b = false := by rw [Line.closesComment, hb]; rfl
      rw [Line.opensBlock_true_cons, hcloses]
      exact ih h.2
    | false =>
      have hform : (Line.ofText b).form = .blank := by rw [Line.ofText, hb]; rfl
      rw [Line.opensBlock_false_cons, hform]
      exact ih h.2

theorem silent_of_isBlankLine {l : String} (h : isBlankLine l = true) :
    (Line.ofText l).form.isBlank = true := by
  have hl : stripChars l.toList = [] := by simpa [isBlankLine] using h
  rw [Line.ofText, hl]
  rfl

/-- The blank lines at the end. -/
theorem exists_trailing (lines : List String) : ∃ blanks,
    lines = lines.take (lines.length - trailingBlankLines lines) ++ blanks ∧
      ∀ l ∈ blanks, isBlankLine l = true := by
  have hsplit : (lines.reverse.dropWhile isBlankLine).reverse ++
      (lines.reverse.takeWhile isBlankLine).reverse = lines := by
    rw [← List.reverse_append, List.takeWhile_append_dropWhile, List.reverse_reverse]
  have hlength : lines.length - trailingBlankLines lines =
      (lines.reverse.dropWhile isBlankLine).reverse.length := by
    have hsum := congrArg List.length hsplit
    rw [List.length_append, @List.length_reverse _ (lines.reverse.takeWhile isBlankLine)] at hsum
    rw [trailingBlankLines]
    omega
  have htake : lines.take (lines.length - trailingBlankLines lines) =
      (lines.reverse.dropWhile isBlankLine).reverse := by
    have hleft := @List.take_left _ (lines.reverse.dropWhile isBlankLine).reverse
      (lines.reverse.takeWhile isBlankLine).reverse
    rwa [hsplit, ← hlength] at hleft
  refine ⟨(lines.reverse.takeWhile isBlankLine).reverse, by rw [htake, hsplit], fun l hl => ?_⟩
  exact List.mem_takeWhile_imp (List.mem_reverse.mp hl)

/-- Behind the lines that are kept at the end of a document there were and are only blank ones. -/
theorem Gap.exists_kept {d : Document} {front behind : List String} (hg : Gap d none front behind)
    (hclear : Line.opensBlock false d.lines = false) :
    ∃ kept gap blanks, front = kept ++ gap ∧ d.lines = kept ++ blanks ∧
      Line.opensBlock false kept = false ∧ (∀ l ∈ gap, l = "") ∧ ∀ l ∈ blanks, isBlankLine l = true := by
  cases hg
  obtain ⟨blanks, hlines, hblanks⟩ := exists_trailing d.lines
  refine ⟨_, _, blanks, rfl, hlines, ?_, ?_, hblanks⟩
  · rw [← opensBlock_append_of_isBlankLine false _ hblanks, ← hlines]
    exact hclear
  · split <;> simp

/-- Where a knot can be added without breaking into a comment or into another knot: behind all lines if
these leave no comment open, and in front of a line with which a knot ends. -/
def CanAdd (d : Document) : Option String → Prop
  | none => Line.opensBlock false d.lines = false
  | some name => ∀ r ∈ d.regions.find? (·.name = name),
      ∃ l ∈ (Line.ofTexts d.lines)[r.lineEnd - 1]?, l.form.endsKnot = true

theorem Gap.names {d : Document} {region : Option String} {front behind : List String}
    (hg : Gap d region front behind) (hcan : CanAdd d region) :
    Line.opensBlock false front = false ∧
      (∀ p ∈ behind.head?, (Line.ofText p).form.endsKnot = true) ∧
      Line.namesIn (Line.ofTexts d.lines) =
        Line.namesIn (Line.ofTexts front) ++ Line.namesIn (Line.ofTexts behind) ∧
      ∀ l ∈ front ++ behind, l = "" ∨ l ∈ d.lines := by
  cases hg with
  | @region name r hr =>
    obtain ⟨l, hl, hends⟩ := hcan r hr
    obtain ⟨hclear, hhead⟩ := outside_of_endsKnot hl hends
    have hbehind : ∀ p ∈ (d.lines.drop (r.lineEnd - 1)).head?, (Line.ofText p).form.endsKnot = true :=
      fun p hp => by rw [hhead p hp, hends]
    refine ⟨hclear, hbehind, ?_, fun l hl => Or.inr ?_⟩
    · rw [← Line.namesIn_ofTexts_append hclear hbehind, List.take_append_drop]
    · rwa [List.take_append_drop] at hl
  | last =>
    obtain ⟨kept, gap, blanks, hfront, hlines, hclear, hgap, hblanks⟩ := Gap.last.exists_kept hcan
    have hgapBlank : ∀ l ∈ gap, isBlankLine l = true := fun l hl => by
      rw [hgap l hl]
      rfl
    -- blank lines behind the lines that are kept make no name
    have hnames : ∀ {bs : List String}, (∀ l ∈ bs, isBlankLine l = true) →
        Line.namesIn (Line.ofTexts (kept ++ bs)) = Line.namesIn (Line.ofTexts kept) := by
      intro bs hbs
      rw [Line.ofTexts_append hclear]
      refine Line.namesIn_append_of_isBlank _ ?_
      rw [Line.ofTexts_of_silent fun l hl => Line.silent_of_isBlank (silent_of_isBlankLine (hbs l hl)),
        List.forall_mem_map]
      exact fun l hl => silent_of_isBlankLine (hbs l hl)
    rw [hfront]
    refine ⟨?_, by simp, ?_, fun l hl => ?_⟩
    · rw [opensBlock_append_of_isBlankLine false kept hgapBlank, hclear]
    · rw [hnames hgapBlank, hlines, hnames hblanks]
      exact (List.append_nil _).symm
    · rw [List.append_nil] at hl
      rcases List.mem_append.mp hl with hl | hl
      · exact Or.inr (hlines ▸ List.mem_append_left blanks hl)
      · exact Or.inl (hgap l hl)

/-- The lines of a document with a new knot among them hold no line feed. -/
theorem Gap.line {d : Document} {name body : String} {region : Option String}
    {front behind : List String} (hg : Gap d region front behind) (hcan : CanAdd d region)
    (hd : d.IsReading) (hline : '\n' ∉ name.toList) (position : Option Position) :
    ∀ l ∈ front ++ renderKnotHeader name :: ((position.map Position.comment).toList ++
      bodyLines body ++ [""] ++ behind), '\n' ∉ l.toList := by
  obtain ⟨-, -, -, hlines⟩ := hg.names hcan
  have haround : ∀ l ∈ front ++ behind, '\n' ∉ l.toList := by
    intro l hl
    rcases hlines l hl with rfl | hl
    · simp
    · exact hd.line l hl
  have hheader : '\n' ∉ (renderKnotHeader name).toList := by simp [renderKnotHeader, hline]
  intro l hl
  simp only [List.mem_append, List.mem_cons, List.not_mem_nil, or_false] at hl haround
  rcases hl with hl | rfl | ((hl | hl) | rfl) | hl
  · exact haround l (Or.inl hl)
  · exact hheader
  · exact newline_not_mem_position position l hl
  · exact newline_not_mem_bodyLines body l hl
  · simp
  · exact haround l (Or.inr hl)

theorem namesUnique_addKnot (hreads : s.Reads) (h : s.document.NamesUnique) {name body : String}
    {region : Option String} {position : Option Position}
    (hs : s.addKnot name body region position = .ok s') (hline : '\n' ∉ name.toList)
    (hbody : PlainBody (bodyLines body)) (hcan : CanAdd s.document region) :
    s'.document.NamesUnique := by
  obtain ⟨hname, hfree, hcheck, front, behind, hgap, rfl⟩ := exists_of_addKnot hs
  obtain ⟨hclear, hends, hnames, -⟩ := hgap.names hcan
  have hsplit : front ++ (renderKnotHeader name :: (position.map Position.comment).toList ++
      bodyLines body) ++ "" :: behind = front ++ renderKnotHeader name ::
        ((position.map Position.comment).toList ++ bodyLines body ++ [""] ++ behind) := by simp
  have hisName := isName_of_checkKnotName hname hline
  rw [hsplit]
  refine namesUnique_reread (hgap.line hcan hreads.document hline position) _ ?_
  have hf : Line.Foresees (name :: s.document.knotNames) [] (Line.ofTexts (bodyLines body)) :=
    Line.foresees_of_checkLines hcheck hbody.hides
  have hall : s.document.knots.map Knot.names =
      Line.namesIn (Line.ofTexts front) ++ Line.namesIn (Line.ofTexts behind) :=
    hreads.document.names.trans hnames
  have htaken : ∀ x ∈ (s.document.knots.map Knot.names).map Prod.fst, x ∈ s.document.knotNames :=
    fun x hx => mem_knotNames.mpr hx
  rw [mem_names_of_findKnot?, hall] at hfree
  rw [Document.namesUnique_iff, hall] at h
  rw [hall] at htaken
  rw [Line.namesIn_written hclear (Line.form_renderKnotHeader hisName) (Line.silent_position _)
    hbody.closed (by simp) hends]
  exact uniqueNames_written h hfree hf
    ⟨List.mem_cons_self, fun x hx => List.mem_cons_of_mem _ (htaken x hx)⟩

/-! ### Knots that are renamed -/

theorem mem_of_mem_replaceFirst {old new cs : List Char} {c : Char}
    (h : c ∈ replaceFirst old new cs) : c ∈ new ∨ c ∈ cs := by
  induction cs with
  | nil =>
    unfold replaceFirst at h
    split at h
    · exact Or.inl h
    · simp at h
  | cons d cs ih =>
    unfold replaceFirst at h
    split at h
    · next rest hrest =>
      have hlit : lit? (String.ofList old) (d :: cs) = some rest := by
        rw [lit?, String.toList_ofList]
        exact hrest
      rw [lit?_eq_some_iff.mp hlit]
      rcases List.mem_append.mp h with h | h
      · exact Or.inl h
      · exact Or.inr (List.mem_append_right _ h)
    · rcases List.mem_cons.mp h with rfl | h
      · exact Or.inr List.mem_cons_self
      · exact (ih h).imp_right (List.mem_cons_of_mem _)

theorem newline_not_mem_redirected {old new : String} (hold : IsName old.toList) (hnew : IsName new.toList)
    {ls : List String} (h : ∀ l ∈ ls, '\n' ∉ l.toList) :
    ∀ l ∈ ls.map (redirectLine old new), '\n' ∉ l.toList := by
  rw [List.forall_mem_map]
  intro l hl hmem
  exact h l hl (((redirected_redirectLine old new l).mem_iff hold hnew (by decide)).mpr hmem)

/-- Renaming redirects all lines and changes one header. -/
theorem exists_renameLines {d : Document} {k : Knot} {front : List String} {header : String}
    {body behind : List String} {ks ls : List Knot} (hp : d.Placed k front header body behind ks ls)
    (hd : d.IsReading) {new : String} (hnew : IsName new.toList) : ∃ header',
      renameLines d.lines k new = front.map (redirectLine k.name new) ++ header' ::
        (body.map (redirectLine k.name new) ++ behind.map (redirectLine k.name new)) ∧
      (Line.ofText header').form = .knotHeader new ∧ '\n' ∉ header'.toList := by
  have hline : '\n' ∉ new.toList := hnew.not_mem (by decide)
  have hheader : '\n' ∉ header.toList := hd.line header (by simp [hp.lines])
  refine ⟨if String.ofList (replaceFirst k.name.toList new.toList k.header.toList) = k.header then
    renderKnotHeader new
    else String.ofList (replaceFirst k.name.toList new.toList k.header.toList), ?_, ?_, ?_⟩
  · rw [renameLines, hp.lines, hp.stands.lineStart, Nat.add_sub_cancel]
    simp
    rfl
  · rw [hp.stands.header]
    split
    · exact Line.form_renderKnotHeader hnew
    · exact Line.form_replaceFirst hnew hheader hp.around.opens
  · rw [hp.stands.header]
    split
    · simp [renderKnotHeader, hline]
    · rw [String.toList_ofList]
      exact fun hmem => (mem_of_mem_replaceFirst hmem).elim hline hheader

/-- A knot that is renamed has another name in its place; all other names stay. -/
theorem names_renameKnot (hreads : s.Reads) {old new : String}
    (hs : s.renameKnot old new = .ok (some s')) (hline : '\n' ∉ new.toList) : ∃ xs stitches ys,
      s.document.knots.map Knot.names = xs ++ (old, stitches) :: ys ∧
      s'.document.knots.map Knot.names = xs ++ (new, stitches) :: ys := by
  obtain ⟨k, hk, hname, -, rfl⟩ := exists_of_renameKnot hs
  have hfind := findKnot?_of_knot hk
  obtain rfl := Document.name_of_findKnot? hfind
  obtain ⟨front, header, body, behind, ks, ls, hp⟩ := hreads.document.exists_placed hfind
  have hlines := hreads.document.line
  rw [hp.lines] at hlines
  have hnew := isName_of_checkKnotName hname hline
  have hold := Line.isName_of_header (hlines header (by simp)) hp.around.opens
  obtain ⟨header', hlines', hheader', hheaderLine⟩ := exists_renameLines hp hreads.document hnew
  refine ⟨_, _, _, names_of_placed hp hreads.document, ?_⟩
  rw [hlines']
  refine (names_reread ?_ _).trans (hp.around.namesIn_renamed hold hnew hlines
    (redirected_redirectLine k.name new) hheader')
  simp only [List.forall_mem_append, List.forall_mem_cons] at hlines ⊢
  exact ⟨newline_not_mem_redirected hold hnew hlines.1, hheaderLine,
    newline_not_mem_redirected hold hnew hlines.2.2.1, newline_not_mem_redirected hold hnew hlines.2.2.2⟩

theorem namesUnique_renameKnot (hreads : s.Reads) (h : s.document.NamesUnique) {old new : String}
    (hs : s.renameKnot old new = .ok (some s')) (hline : '\n' ∉ new.toList) :
    s'.document.NamesUnique := by
  obtain ⟨xs, stitches, ys, hbefore, hafter⟩ := names_renameKnot hreads hs hline
  obtain ⟨-, -, -, hfree, -⟩ := exists_of_renameKnot hs
  rw [mem_names_of_findKnot?, hbefore] at hfree
  rw [Document.namesUnique_iff, hbefore] at h
  rw [Document.namesUnique_iff, hafter]
  exact h.exchange (Or.inr hfree) (h.stitches (old, stitches) (by simp))

/-! ### Positions -/

/-- The lines of a script with another annotation in a knot: it takes the place of the one that was read, or
it becomes the first line of a body without any. -/
theorem positionLines_cases {d : Document} {k : Knot} {front : List String} {header : String}
    {body behind : List String} {ks ls : List Knot} (hp : d.Placed k front header body behind ks ls)
    (comment : String) :
    (∃ blanks old rest p, body = blanks ++ old :: rest ∧
      (∀ l ∈ blanks, (Line.ofText l).form.isBlank = true) ∧ (Line.ofText old).form = .position p ∧
      positionLines d.lines k comment = front ++ header :: (blanks ++ comment :: rest ++ behind)) ∨
    leadingPosition? (Line.ofTexts body) = none ∧
      positionLines d.lines k comment = front ++ header :: (comment :: body ++ behind) := by
  have hlines : d.lines = (front ++ [header]) ++ (body ++ behind) := by simp [hp.lines]
  have hstart : k.lineStart = (front ++ [header]).length := by simp [hp.stands.lineStart]
  have hbody : (d.lines.take k.lineEnd).drop k.lineStart = body := by
    have hend : k.lineEnd = (front ++ [header] ++ body).length := by
      rw [hp.stands.lineEnd]
      simp only [List.length_append, List.length_singleton]
    rw [hlines, ← List.append_assoc, hend, List.take_left, hstart, List.drop_left]
  -- the place to look for an annotation is behind the blank lines that the body begins with
  set blank : String → Bool := fun l => (Line.ofText l).form.isBlank with hblank
  have hsplit := List.takeWhile_append_dropWhile (p := blank) (l := body)
  have hblanks : ∀ l ∈ body.takeWhile blank, blank l = true := fun l hl => List.mem_takeWhile_imp hl
  have hdrop : body.drop (body.takeWhile blank).length = body.dropWhile blank := by
    have hleft := @List.drop_left _ (body.takeWhile blank) (body.dropWhile blank)
    rwa [hsplit] at hleft
  unfold positionLines
  rw [hbody]
  dsimp only
  rw [hdrop]
  split
  · next p hposition =>
    obtain ⟨old, hold, hform⟩ := Option.map_eq_some_iff.mp hposition
    obtain ⟨rest, hrest⟩ := List.head?_eq_some_iff.mp hold
    rw [hrest] at hsplit
    refine Or.inl ⟨body.takeWhile blank, old, rest, p, hsplit.symm, hblanks, hform, ?_⟩
    -- the annotation that was read stands there and is replaced in its place
    have hat : d.lines = (front ++ header :: body.takeWhile blank) ++ old :: (rest ++ behind) := by
      rw [hlines]
      conv_lhs => rw [← hsplit]
      simp
    have hplace : k.lineStart + (body.takeWhile blank).length =
        (front ++ header :: body.takeWhile blank).length := by
      rw [hp.stands.lineStart, List.length_append, List.length_cons]
      omega
    rw [hat, hplace, List.set_append_right _ _ le_rfl, Nat.sub_self]
    simp
  · next hnone =>
    refine Or.inr ⟨?_, ?_⟩
    · rw [← hsplit]
      -- the first line that is not blank is no annotation, which settles it for the whole body
      refine leadingPosition?_eq_none hblanks fun s hs => ⟨?_, fun p hform => hnone p ?_⟩
      · exact of_mem_head?_dropWhile (p := blank) hs
      · rw [Option.mem_def.mp hs, Option.map_some, hform]
    · rw [hlines, hstart, List.take_left, List.drop_left]
      simp

/-- The body of a knot with another annotation differs from the old one in silent lines at its top. -/
theorem exists_positionLines {d : Document} {k : Knot} {front : List String} {header : String}
    {body behind : List String} {ks ls : List Knot} (hp : d.Placed k front header body behind ks ls)
    (comment : String) : ∃ tops tops' rest, body = tops ++ rest ∧ (∀ l ∈ tops, Line.Silent l) ∧
      (∀ l ∈ tops', l = comment ∨ l ∈ tops) ∧
      positionLines d.lines k comment = front ++ header :: (tops' ++ rest ++ behind) := by
  rcases positionLines_cases hp comment with ⟨blanks, old, rest, p, hbody, hblanks, hform, hlines⟩ |
    ⟨-, hlines⟩
  · refine ⟨blanks ++ [old], blanks ++ [comment], rest, by simp [hbody], ?_, fun l hl => ?_, by simp [hlines]⟩
    · rw [List.forall_mem_append, List.forall_mem_singleton]
      exact ⟨fun l hl => Line.silent_of_isBlank (hblanks l hl), Line.silent_of_position hform⟩
    · simp only [List.mem_append, List.mem_singleton] at hl ⊢
      tauto
  · exact ⟨[], [comment], body, rfl, by simp, by simp, by simp [hlines]⟩

theorem namesUnique_setKnotPosition (hreads : s.Reads) (h : s.document.NamesUnique) {name : String}
    {position : Position} (hs : s.setKnotPosition name position = .ok s') : s'.document.NamesUnique := by
  obtain ⟨k, hk, rfl⟩ := exists_of_setKnotPosition hs
  have hfind := findKnot?_of_knot hk
  obtain rfl := Document.name_of_findKnot? hfind
  obtain ⟨front, header, body, behind, ks, ls, hp⟩ := hreads.document.exists_placed hfind
  obtain ⟨tops, tops', rest, rfl, htops, htops', hlines⟩ := exists_positionLines hp position.comment
  have hall := hreads.document.line
  rw [hp.lines] at hall
  simp only [List.forall_mem_append, List.forall_mem_cons] at hall
  have hwritten : ∀ l ∈ tops' ++ rest, '\n' ∉ l.toList := by
    refine List.forall_mem_append.mpr ⟨fun l hl => ?_, hall.2.2.1.2⟩
    rcases htops' l hl with rfl | hl
    · exact Line.newline_not_mem_positionComment position
    · exact hall.2.2.1.1 l hl
  rw [hlines]
  refine namesUnique_reread (hp.line hreads.document hwritten) _ ?_
  rw [hp.around.namesIn_of_silent htops fun l hl => ?_, ← hp.lines, ← hreads.document.names]
  · exact Document.namesUnique_iff.mp h
  · rcases htops' l hl with rfl | hl
    · exact Line.silent_positionComment position
    · exact htops l hl

/-! ### The divert in front of the story -/

theorem namesUnique_setInitialDivert (hreads : s.Reads) (h : s.document.NamesUnique)
    {target : Option String} (htarget : ∀ t ∈ target, '\n' ∉ t.toList ∧
      Line.closesComment (renderDivert t) = false) :
    (s.setInitialDivert target).document.NamesUnique := by
  obtain ⟨front, behind, hlines, hlength, hfront, -, -⟩ := hreads.document.exists_front
  have hline := hreads.document.line
  rw [hlines, List.forall_mem_append] at hline
  have hslips : ∀ t ∈ target, Slips (renderDivert t) := fun t ht =>
    slips_renderDivert (htarget t ht).1 (htarget t ht).2
  rw [Document.namesUnique_iff, hreads.document.names, hlines] at h
  rw [setInitialDivert_eq, initialDivertLines_eq hlines hlength]
  refine namesUnique_reread
    (List.forall_mem_append.mpr ⟨newline_not_mem_divertedFront hline.1 hslips, hline.2⟩) _ ?_
  rw [namesIn_divertedFront hline.1 hslips hfront]
  exact h

/-! ### All commands -/

/-- What a command has to be like for the check of names to foresee all names that are read afterwards.

* A media item has an extension without a line break, which no comparison would notice; and the item that
  is replaced is the only one of its list with that identity.
* A deletion leaves lines that stay within their knot and make no new stitch.
* The name of a knot that is added or renamed holds no line feed: the check passes over one at its end.
* A raw body has its stitches on lines of their own and ends its comments, and a knot is added neither in
  a comment nor in the middle of another knot.
* The target of the first divert stays on its line and closes no comment. -/
def Foreseen (s : Session) : Command → Prop
  | .insert _ item _ => item.All Leaf.Unbroken
  | .replace name id item => item.All Leaf.Unbroken ∧
      ∀ k ∈ s.document.findKnot? name, (k.items.map Item.id).count id ≤ 1
  | .delete name id => ∀ k ∈ s.document.findKnot? name, ∀ items, Item.delete k.items id = .ok items →
      Confined s.indent items
  | .addKnot name body region _ => '\n' ∉ name.toList ∧ PlainBody (bodyLines body) ∧
      CanAdd s.document region
  | .renameKnot _ new => '\n' ∉ new.toList
  | .replaceKnot _ body => PlainBody (rawLines body)
  | .setInitialDivert target => ∀ t ∈ target, '\n' ∉ t.toList ∧
      Line.closesComment (renderDivert t) = false
  | .updateText text => (Document.read s.supply text).1.NamesUnique
  | _ => True

/-- A command that is foreseen leaves a document with unique names. -/
theorem namesUnique_of_perform? (hreads : s.Reads) (h : s.Snapshots Document.NamesUnique) {c : Command}
    (hc : Foreseen s c) (hs : c.perform? s = some s') : s'.document.NamesUnique := by
  have hdoc := h.document
  cases c with
  | insert name item caret => exact namesUnique_insert hreads hdoc (eq_ok_of_toOption hs) hc
  | replace name id item => exact namesUnique_replace hreads hdoc (eq_ok_of_toOption hs) hc.1 hc.2
  | delete name id => exact namesUnique_delete hreads hdoc (eq_ok_of_toOption hs) hc
  | move name id caret => exact namesUnique_move hreads hdoc (eq_ok_of_toOption hs)
  | addStitch name stitch caret => exact namesUnique_addStitch hreads hdoc (eq_ok_of_toOption hs)
  | addKnot name body region position =>
    exact namesUnique_addKnot hreads hdoc (eq_ok_of_toOption hs) hc.1 hc.2.1 hc.2.2
  | deleteKnot name => exact namesUnique_deleteKnot hreads hdoc (eq_ok_of_toOption hs)
  | renameKnot old new =>
    exact namesUnique_renameKnot hreads hdoc (eq_ok_of_toOption (Option.join_eq_some_iff.mp hs)) hc
  | replaceKnot name body => exact namesUnique_replaceKnot hreads hdoc (eq_ok_of_toOption hs) hc
  | setKnotPosition name position =>
    exact namesUnique_setKnotPosition hreads hdoc (eq_ok_of_toOption hs)
  | setInitialDivert target =>
    obtain rfl := Option.some.inj hs
    exact namesUnique_setInitialDivert hreads hdoc hc
  | updateText text =>
    obtain rfl := Option.some.inj hs
    have hreading : (s.updateText text).document.IsReading := by
      rw [updateText_eq]
      exact isReading_read s text none
    rw [Document.namesUnique_iff, hreading.names]
    have hread := Document.namesUnique_iff.mp hc
    rwa [(Document.isReading_read s.supply text).names] at hread
  | undo => exact (h.undo hs).document
  | redo => exact (h.redo hs).document
  | save path =>
    obtain ⟨⟨u, file, text⟩, hsave, rfl⟩ := Option.map_eq_some_iff.mp hs
    rw [eq_of_save (eq_ok_of_toOption hsave)]
    exact hdoc

/-- What a command that is foreseen makes of all snapshots. -/
theorem snapshots_namesUnique (hreads : s.Reads) (h : s.Snapshots Document.NamesUnique) {c : Command}
    (hc : Foreseen s c) (hs : c.perform? s = some s') : s'.Snapshots Document.NamesUnique := by
  have hnew := namesUnique_of_perform? hreads h hc hs
  cases outcome_of_perform? hs with
  | rereads text r _ =>
    have hdrawn : ({ s with supply := s.supply + c.draws } : Session).Snapshots Document.NamesUnique :=
      ⟨h.document, h.past, h.future⟩
    exact hdrawn.reread hnew
  | undoes hs => exact h.undo hs
  | redoes hs => exact h.redo hs
  | saves _ path savedText => exact ⟨h.document, h.past, h.future⟩

/-- **Unique names.** Begun over a text in which all names are unique, a session holds a script in which all
names are unique after any commands that are foreseen. -/
theorem namesUnique_of_reachableBy {supply : Nat} {text : String} {path : Option Path}
    {indent historyLimit : Nat} (htext : (Document.read supply text).1.NamesUnique)
    (h : ReachableBy Foreseen (start supply text path indent historyLimit) s) :
    s.document.NamesUnique := by
  have hall := h.induction (I := fun t => t.Reads ∧ t.Snapshots Document.NamesUnique)
    ⟨Snapshots.start (Document.isReading_read supply text) path indent historyLimit,
      Snapshots.start htext path indent historyLimit⟩
    fun hinv hc hs => ⟨hinv.1.perform hs, snapshots_namesUnique hinv.1 hinv.2 hc hs⟩
  exact hall.2.document

/-- A knot is written anew with two stitches and then renamed. -/
theorem namesUnique_of_reachableBy_road :
    let s := start 0 "=== road ===\nx\n=== inn ===\n-> road\n" none 4 200
    ∃ t u, (Command.replaceKnot "road" "= east\n* -> inn\n= west\n").perform? s = some t ∧
      (Command.renameKnot "road" "way").perform? t = some u ∧ ReachableBy Foreseen s u ∧
      u.document.NamesUnique := by
  intro s
  have hok : (((Command.replaceKnot "road" "= east\n* -> inn\n= west\n").perform? s).bind fun t =>
      (Command.renameKnot "road" "way").perform? t).isSome = true := by decide +kernel
  obtain ⟨u, hbind⟩ := Option.isSome_iff_exists.mp hok
  obtain ⟨t, ht, hu⟩ := Option.bind_eq_some_iff.mp hbind
  have hbody : PlainBody (rawLines "= east\n* -> inn\n= west\n") := by
    refine ⟨?_, by decide +kernel⟩
    have hhides : ∀ l ∈ Line.ofTexts (rawLines "= east\n* -> inn\n= west\n"),
        l.chain.tail = [] := by decide +kernel
    intro l hl
    rw [Line.HidesNoStitch, hhides l hl]
    simp
  have hwritten : Foreseen s (.replaceKnot "road" "= east\n* -> inn\n= west\n") := hbody
  have hrenamed : Foreseen t (.renameKnot "road" "way") := show '\n' ∉ "way".toList by decide
  have hreach : ReachableBy Foreseen s u := .step (.step .refl hwritten ht) hrenamed hu
  exact ⟨t, u, ht, hu, hreach, namesUnique_of_reachableBy (by decide +kernel) hreach⟩

/-- The check of raw lines goes by headers alone. A stitch behind the label of a branch escapes it: here the
knot has two stitches of one name afterwards. -/
theorem not_namesUnique_of_hidden_stitch :
    let s := start 0 "=== a ===\nx\n" none 4 200
    s.document.NamesUnique ∧ ∃ t, ReachableBy (fun _ _ => True) s t ∧ ¬ t.document.NamesUnique := by
  intro s
  have hstart : s.document.NamesUnique := by decide +kernel
  have hperformed : ((Command.replaceKnot "a" "\x7b\n- x: = s\n\x7d\n= s").perform? s).any
      (fun t => ¬ t.document.NamesUnique) = true := by decide +kernel
  obtain ⟨t, ht, hunique⟩ := (Option.any_eq_true _ _).mp hperformed
  exact ⟨hstart, t, .step .refl trivial ht, of_decide_eq_true hunique⟩

end Session

end StoryScript
