import StoryScript.Proofs.Document.Annotated
import StoryScript.Proofs.Session.ItemEdit

/-!
# The layout of a knot whose content is edited

An edit of the content of a knot prints the knot anew: its header as it was, its position and the edited tree.
The knot that is read back is the first of its name again, in the same region (`Session.exists_readBack`).
What an edit can do to the layout (`Session.laidOut_of_contentEdit`) comes from the printing:

* a coordinate is written with one decimal, so a position is moved to the nearest tenths, and one with a
  coordinate that is not finite is lost;
* a carriage return at the end of the header is taken for a part of the line break;
* a knot without a position stays without one where the tree is compared with what is read back; a deletion is
  not compared, and may bring an annotation among the items to the top of the body.
-/

namespace StoryScript

open Text

/-- The position that is read where a position was written. -/
def Position.reread? (p : Position) : Option Position := if p.isFinite then some p.toTenths else none

theorem leadingPosition?_comment (p : Position) (ls : List Line) :
    (leadingPosition? (Line.ofText p.comment :: ls)).map Prod.fst = p.reread? := by
  rw [leadingPosition?, Line.form_comment, Position.reread?]
  by_cases hfinite : p.isFinite = true
  · rw [if_pos hfinite, if_pos hfinite]
    rfl
  · rw [if_neg hfinite, if_neg hfinite]
    rfl

/-- A knot that stands where another stood, up to the spelling of the position and of the end of the header. -/
structure Knot.LaidOutAs (k' k : Knot) : Prop where
  name : k'.name = k.name
  region : k'.region = k.region
  duplicate : k'.duplicate = k.duplicate
  header : k.header = k'.header ∨ k.header = k'.header ++ "\r"
  position : k'.position = k.position.bind Position.reread?

/-- What stands behind a knot adds no position to lines that have none. -/
theorem leadingPosition?_section_append {ls behind : List String} (hbehind : Line.Behind behind)
    (hnone : leadingPosition? (Line.ofTexts ls) = none) :
    leadingPosition? (Line.section_ (Line.readFrom false (ls ++ behind))) = none := by
  induction ls with
  | nil => exact Act.leadingPosition?_behind hbehind
  | cons l ls ih =>
    rw [Line.ofTexts, Line.readFrom_false_cons] at hnone
    rw [List.cons_append, Line.readFrom_false_cons]
    cases hends : (Line.ofText l).form.endsKnot with
    | true =>
      rw [Line.section_cons_of_endsKnot hends]
      rfl
    | false =>
      rw [Line.section_cons hends]
      unfold leadingPosition? at hnone ⊢
      split at hnone
      · next hform =>
        rw [hform] at hnone ⊢
        exact Option.map_eq_none_iff.mpr (ih (Option.map_eq_none_iff.mp hnone))
      · simp at hnone
      · rfl

namespace Line

/-- The place of the first header of a name. -/
theorem idxOf_header {name header : String} {front rest : List String} (hclear : opensBlock false front = false)
    (hopens : (ofText header).form = .knotHeader name)
    (hfirst : ∀ l ∈ ofTexts front, l.form ≠ .knotHeader name) :
    ((ofTexts (front ++ header :: rest)).map Line.form).idxOf (.knotHeader name) = front.length := by
  have hnew : LineForm.knotHeader name ∉ (ofTexts front).map Line.form := by
    intro hmem
    obtain ⟨l, hl, hform⟩ := List.mem_map.mp hmem
    exact hfirst l hl hform
  rw [ofTexts, readFrom_append, hclear, readFrom_false_cons, List.map_append, List.map_cons, hopens,
    ← ofTexts, List.idxOf_append_of_notMem hnew, List.idxOf_cons_self, List.length_map, length_ofTexts, Nat.add_zero]

end Line

namespace Document

variable {d : Document} {k : Knot} {front : List String} {header : String} {body behind : List String}
  {ks ls : List Knot}

/-- The header of a knot is read from its line, but for a carriage return at its end. -/
theorem Placed.header_cases (hp : d.Placed k front header body behind ks ls) {new : Document}
    (hnew : new.IsReading) {rest : List String} (hline : ∀ l ∈ front ++ header :: rest, '\n' ∉ l.toList)
    (hlines : new.lines = Text.lines (unlines (front ++ header :: rest))) {k' : Knot}
    (hk' : new.findKnot? k.name = some k') : k.header = k'.header ∨ k.header = k'.header ++ "\r" := by
  obtain ⟨front', header', body', behind', ks', ls', hp'⟩ := hnew.exists_placed hk'
  have hname : k'.name = k.name := name_of_findKnot? hk'
  have hcut := forall₂_lines_unlines (List.append_ne_nil_of_right_ne_nil front (List.cons_ne_nil header rest)) hline
  have hread : Line.ofTexts (Text.lines (unlines (front ++ header :: rest))) =
      Line.ofTexts (front ++ header :: rest) :=
    Line.readFrom_congr (map_strip_lines_unlines (by simp) hline) false
  rw [← hlines, hp'.lines] at hcut hread
  -- both headers are the first of that name among the same lines
  have hlength : front'.length = front.length := by
    rw [← Line.idxOf_header hp.around.clear hp.around.opens hp.unnamed, ← hread]
    exact (Line.idxOf_header hp'.around.clear (hname ▸ hp'.around.opens) (hname ▸ hp'.unnamed)).symm
  have hrest := List.forall₂_drop_append _ _ _ hcut
  rw [← hlength, List.drop_left, List.forall₂_cons] at hrest
  rw [hp.stands.header, hp'.stands.header]
  exact hrest.1

end Document

/-- A knot that was printed with other items, in front of the blank lines at its end and the lines behind, and
then read from what was printed: the lines of its body are some of these, up to the next header or region
marker. -/
structure Knot.ReadBack (indent : Nat) (items : List Item) (blanks behind body after : List String)
    (k' k : Knot) : Prop where
  empty : ∀ l ∈ blanks, l = ""
  line : ∀ l ∈ behind, '\n' ∉ l.toList
  ends : ∀ l ∈ behind.head?, (Line.ofText l).form.endsKnot = true
  lines : unbroken (Body.printed indent k.position items ++ blanks) ++ behind = body ++ after
  section_ : Line.section_ (Line.readFrom false (body ++ after)) = Line.readFrom false body
  alike : k'.Alike (k.withBody body)
  header : k.header = k'.header ∨ k.header = k'.header ++ "\r"

namespace Knot.ReadBack

variable {indent : Nat} {items : List Item} {blanks behind body after : List String} {k k' : Knot}

/-- The annotation that was printed is the position, if there was one. -/
theorem laidOut (h : k'.ReadBack indent items blanks behind body after k)
    (hnone : k.position = none → leadingPosition? (Line.ofTexts body) = none) : k'.LaidOutAs k := by
  refine ⟨h.alike.name, h.alike.region, h.alike.duplicate, h.header, ?_⟩
  have hread : k'.position = (leadingPosition? (Line.ofTexts body)).map Prod.fst := h.alike.position
  rw [hread]
  cases hposition : k.position with
  | none => rw [hnone hposition, Option.map_none, Option.bind_none]
  | some p =>
    have hlines := h.lines
    have hcomment : unbroken [p.comment] = [p.comment] :=
      unbroken_of_not_mem (List.forall_mem_singleton.mpr (Line.newline_not_mem_positionComment p))
    rw [Body.printed, hposition, Option.map_some, Option.toList_some, List.append_assoc, unbroken_append,
      hcomment, List.append_assoc, List.singleton_append] at hlines
    have hsection := h.section_
    rw [← hlines, Line.readFrom_false_cons, Line.section_cons (Line.silent_positionComment p).ends] at hsection
    rw [Option.bind_some, Line.ofTexts, ← hsection, leadingPosition?_comment]

variable (h : k'.ReadBack indent items blanks behind body after k)
  (hreadable : ∀ e ∈ Item.outlineIn 0 items, e.piece.Readable)
include h hreadable

/-- Readable items are printed on lines of their own. -/
theorem unbroken_lines : Body.printed indent k.position items ++ blanks ++ behind = body ++ after := by
  rw [← h.lines, unbroken_of_not_mem (Body.newline_not_mem_printed_append indent k.position hreadable h.empty)]

/-- Items that are read back as they were meant leave no line for a position. -/
theorem leadingPosition?_of_sameList (hnone : k.position = none) (hshape : Item.WellShapedIn true items)
    (hsame : Item.sameList k'.items items = true) : leadingPosition? (Line.ofTexts body) = none := by
  have hread : Item.unlabelledIn k'.items = Item.unlabelledIn (Body.read 0 body).1.items := h.alike.items
  rw [Item.sameList_congr hread] at hsame
  exact Body.leadingPosition?_of_sameList hshape hreadable h.empty h.line h.ends (h.unbroken_lines hreadable)
    h.section_ hsame hnone

/-- Nor is there one where the printed items do not begin with an annotation. -/
theorem leadingPosition?_of_renderList (hnone : k.position = none)
    (hleading : leadingPosition? (Line.ofTexts (Item.renderList indent items)) = none) :
    leadingPosition? (Line.ofTexts body) = none := by
  have hlines := h.unbroken_lines hreadable
  rw [Body.printed, hnone, Option.map_none, Option.toList_none, List.nil_append, List.append_assoc] at hlines
  rw [Line.ofTexts, ← h.section_, ← hlines]
  exact leadingPosition?_section_append (Line.behind_append h.empty h.ends) hleading

end Knot.ReadBack

namespace Session

variable {s s' : Session} {name : String} {k : Knot} {items : List Item}

/-- What is read when a knot is printed anew. -/
theorem exists_readBack (hreads : s.Reads) (hk : s.document.findKnot? name = some k) {action : EditAction}
    {exact : Bool} (h : s.writeItems name items action exact = .ok s') :
    ∃ k' blanks behind body after, s'.document.findKnot? name = some k' ∧
      k'.ReadBack s.indent items blanks behind body after k := by
  obtain ⟨k₀, hk₀, hs', -⟩ := exists_of_writeItems h
  obtain rfl : k₀ = k := Option.some.inj ((findKnot?_of_knot hk₀).symm.trans hk)
  obtain rfl := Document.name_of_findKnot? hk
  obtain ⟨front, header, old, behind, ks, ls, hp⟩ := hreads.document.exists_placed hk
  obtain ⟨blanks, hblanks, hsplice⟩ := hp.exists_spliceKnot
  rw [renderSection_eq, hsplice] at hs'
  set written := Body.printed s.indent k₀.position items ++ blanks
  have hnew : ∀ l ∈ unbroken written, '\n' ∉ l.toList := newline_not_mem_unbroken
  have hline := hp.line hreads.document hnew
  have hbehind : ∀ l ∈ behind, '\n' ∉ l.toList := fun l hl => hline l (by simp [hl])
  -- what is written reads as the lines that it is made of
  have hunbroken : unbroken (front ++ header :: (written ++ behind)) =
      front ++ header :: (unbroken written ++ behind) := by
    have hfront : unbroken (front ++ [header]) = front ++ [header] :=
      unbroken_of_not_mem fun l hl => hline l (by rw [List.append_cons]; exact List.mem_append_left _ hl)
    rw [List.append_cons, unbroken_append, hfront, unbroken_append, unbroken_of_not_mem hbehind,
      ← List.append_cons]
  rw [← unlines_unbroken, hunbroken] at hs'
  obtain ⟨body, after, k', hlines, haround, hfind, hk'⟩ := hp.exists_body _
    (s.alike_knots_read hline (some (k₀.name, items)))
  have hheader := hp.header_cases (s.isReading_read _ _) hline rfl hfind
  subst hs'
  exact ⟨k', blanks, behind, body, after, hfind, hblanks, hbehind, hp.around.ends, hlines, haround.section_eq,
    hk', hheader⟩

/-- An edit of the content of a knot leaves its layout as it is: it is the first knot of its name in the same
region, with the same header and, to the tenth, at the same position. For a knot without a position this
assumes that an item which is brought in is not broken over lines, or, for a deletion, that what is left does
not begin with an annotation. -/
theorem laidOut_of_contentEdit (hs : s.Reachable) (hk : s.document.findKnot? name = some k) :
    (∀ e s', ItemEdit.perform s name e = .ok s' →
      (k.position = none → ∀ i ∈ e.given?, i.All Leaf.Unbroken) →
      ∃ k', s'.document.findKnot? name = some k' ∧ k'.LaidOutAs k) ∧
    ∀ id items s', s.delete name id = .ok s' → Item.delete k.items id = .ok items →
      (k.position = none → leadingPosition? (Line.ofTexts (Item.renderList s.indent items)) = none) →
      ∃ k', s'.document.findKnot? name = some k' ∧ k'.LaidOutAs k := by
  have hmem : k ∈ s.document.knots := List.mem_of_find?_eq_some hk
  refine ⟨fun e s' he hgiven => ?_, fun id items s' hdelete hitems hleading => ?_⟩
  · obtain ⟨k₀, items, action, hk₀, hitems, hwrite⟩ := ItemEdit.exists_of_perform he
    obtain rfl : k₀ = k := Option.some.inj ((findKnot?_of_knot hk₀).symm.trans hk)
    obtain ⟨k', blanks, behind, body, after, hk', hback⟩ := exists_readBack hs.reads hk hwrite
    refine ⟨k', hk', hback.laidOut fun hnone => ?_⟩
    -- the tree that was read back is readable, so the one that was meant is
    obtain ⟨_, -, hs', hcheck⟩ := exists_of_writeItems hwrite
    have hreading : s'.document.IsReading := hs' ▸ s.isReading_read _ _
    obtain ⟨k₁, hk₁, hsame⟩ := (Option.any_eq_true _ _).mp (hcheck rfl)
    obtain rfl : k₁ = k' := Option.some.inj (hk₁.symm.trans hk')
    obtain ⟨hshape, hreadable⟩ := hreading.readable_of_sameList
      (List.mem_of_find?_eq_some hk') hsame
      (ItemEdit.allIn_tree hitems (hgiven hnone) (hs.reads.document.allIn_unbroken hmem))
    exact hback.leadingPosition?_of_sameList hreadable hnone hshape hsame
  · obtain ⟨k₀, items₀, hk₀, hitems₀, hwrite⟩ := exists_of_delete hdelete
    obtain rfl : k₀ = k := Option.some.inj ((findKnot?_of_knot hk₀).symm.trans hk)
    obtain rfl : items₀ = items := Except.ok.inj (hitems₀.symm.trans hitems)
    obtain ⟨k', blanks, behind, body, after, hk', hback⟩ := exists_readBack hs.reads hk hwrite
    have hreadable : ∀ e ∈ Item.outlineIn 0 items₀, e.piece.Readable := fun e he =>
      (hs.reads.document.readable hmem).2 e ((Item.sublist_outlineIn_delete hitems 0).subset he)
    exact ⟨k', hk', hback.laidOut fun hnone =>
      hback.leadingPosition?_of_renderList hreadable hnone (hleading hnone)⟩

/-- A knot with a position off the tenths, into which a text comes and from which another one goes. -/
theorem laidOut_of_contentEdit_quarter :
    let s := start 0 "=== a ===\n// <\x7b \"pos-x\": 1.25, \"pos-y\": 0 \x7d>\nhello\nthere\n" none 4 200
    let e := ItemEdit.insert (.leaf ⟨.named "aside", none⟩ (.text "aside")) ⟨none, 0⟩
    ∃ k t u items, s.document.findKnot? "a" = some k ∧ e.perform s "a" = .ok t ∧
      s.delete "a" (.fresh 0) = .ok u ∧ Item.delete k.items (.fresh 0) = .ok items ∧
      (∃ k', t.document.findKnot? "a" = some k' ∧ k'.LaidOutAs k) ∧
      ∃ k', u.document.findKnot? "a" = some k' ∧ k'.LaidOutAs k := by
  intro s e
  have hcheck : (s.document.findKnot? "a").any (fun k => k.position.isSome &&
      (Item.delete k.items (.fresh 0)).toOption.isSome) = true ∧ (e.perform s "a").toOption.isSome = true ∧
        (s.delete "a" (.fresh 0)).toOption.isSome = true := by decide +kernel
  obtain ⟨hknot, hinsert, hdelete⟩ := hcheck
  obtain ⟨k, hk, hknot⟩ := (Option.any_eq_true _ _).mp hknot
  obtain ⟨hposition, hitems⟩ := Bool.and_eq_true_iff.mp hknot
  have hsome : k.position ≠ none := Option.isSome_iff_ne_none.mp hposition
  obtain ⟨t, ht⟩ := Option.isSome_iff_exists.mp hinsert
  obtain ⟨u, hu⟩ := Option.isSome_iff_exists.mp hdelete
  obtain ⟨items, hitems⟩ := Option.isSome_iff_exists.mp hitems
  replace ht := eq_ok_of_toOption ht
  replace hu := eq_ok_of_toOption hu
  replace hitems := eq_ok_of_toOption hitems
  obtain ⟨hlaid, hlaid'⟩ := laidOut_of_contentEdit (reachable_start ..) hk
  exact ⟨k, t, u, items, hk, ht, hu, hitems, hlaid e t ht fun hnone => absurd hnone hsome,
    hlaid' (.fresh 0) items u hu hitems fun hnone => absurd hnone hsome⟩

/-- Such a knot does not stay where it was: the position 1.25 is written as 1.2. -/
theorem not_position_of_insert_quarter :
    let s := start 0 "=== a ===\n// <\x7b \"pos-x\": 1.25, \"pos-y\": 0 \x7d>\nx\n" none 4 200
    let e := ItemEdit.insert (.leaf ⟨.named "y", none⟩ (.text "y")) ⟨none, 0⟩
    s.Reachable ∧ ∃ s' k k', e.perform s "a" = .ok s' ∧ s.document.findKnot? "a" = some k ∧
      s'.document.findKnot? "a" = some k' ∧ k'.position ≠ k.position := by
  intro s e
  have hcheck : (e.perform s "a").toOption.any (fun s' => (s.document.findKnot? "a").any fun k =>
      (s'.document.findKnot? "a").any fun k' => k'.position ≠ k.position) = true := by decide +kernel
  obtain ⟨s', hs', hcheck⟩ := (Option.any_eq_true _ _).mp hcheck
  obtain ⟨k, hk, hcheck⟩ := (Option.any_eq_true _ _).mp hcheck
  obtain ⟨k', hk', hcheck⟩ := (Option.any_eq_true _ _).mp hcheck
  exact ⟨reachable_start .., s', k, k', eq_ok_of_toOption hs', hk, hk', of_decide_eq_true hcheck⟩

end Session

end StoryScript
