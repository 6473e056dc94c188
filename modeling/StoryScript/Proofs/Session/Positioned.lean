import StoryScript.Proofs.Session.Names

/-!
# The position of a knot

Giving a knot a position moves that knot and does nothing else (`Session.moves_setKnotPosition`). The line to
write is found by looking over the lines of the knot, without the reader: the first line that is not blank gives
way if it is a position annotation, and otherwise the annotation comes in front of the body. That agrees with what
is read (`Session.positionLines_cases`), for a body begins outside every comment. So the annotation that is written
is the position that is read, and the tree is read from the lines behind it as before (`Document.Placed.moves`);
it is aligned with the tree of the same knot, so it keeps its identities.

A coordinate is written with one decimal, so the knot comes to stand on the nearest tenths. What is read then is
not written again: a second time the annotation takes the place of the first.
-/

namespace StoryScript

open Text

/-- A knot that has come to stand elsewhere. Its tree and the identities in it are what they were; only the lines
that its nodes were read from may be others. -/
structure Knot.MovedTo (p : Position) (k' k : Knot) : Prop where
  position : k'.position = some p
  name : k'.name = k.name
  region : k'.region = k.region
  duplicate : k'.duplicate = k.duplicate
  items : Item.unmarkedIn k'.items = Item.unmarkedIn k.items
  ids : Item.idsIn k'.items = Item.idsIn k.items

namespace Document

/-- The first knot of a name has moved, and every other knot is what it was, its position included. -/
def Moves (old new : Document) (name : String) (p : Position) : Prop :=
  ∃ ks k ls ks' k' ls', old.knots = ks ++ k :: ls ∧ new.knots = ks' ++ k' :: ls' ∧
    k.name = name ∧ (∀ x ∈ ks, x.name ≠ name) ∧ k'.MovedTo p k ∧
    List.Forall₂ Recovers ks' ks ∧ List.Forall₂ Recovers ls' ls

/-- It is still the first of its name. -/
theorem Moves.exists_findKnot? {old new : Document} {name : String} {p : Position}
    (h : old.Moves new name p) : ∃ k', new.findKnot? name = some k' ∧ k'.position = some p := by
  obtain ⟨ks, k, ls, ks', k', ls', -, hnew, rfl, hfirst, hmoved, hks, -⟩ := h
  have hnames : ks'.map Knot.name = ks.map Knot.name :=
    map_name_of_alike (hks.imp fun _ _ hxy => hxy.1)
  have hfirst' : ∀ x ∈ ks', x.name ≠ k'.name := by
    intro x hx hxk
    have hmem : x.name ∈ ks.map Knot.name := hnames ▸ List.mem_map_of_mem hx
    obtain ⟨y, hy, hyx⟩ := List.mem_map.mp hmem
    exact hfirst y hy (hyx.trans (hxk.trans hmoved.name))
  exact ⟨k', hmoved.name ▸ findKnot?_eq_some hnew hfirst', hmoved.position⟩

variable {d : Document} {k : Knot} {front : List String} {header : String} {body body' behind : List String}
  {ks ls : List Knot}

/-- A body with another annotation and the same lines behind it. -/
theorem Placed.moves (hp : d.Placed k front header body behind ks ls) (hd : d.IsReading)
    (haround : Line.AroundKnot k.name front header body' behind)
    (hlines : ∀ l ∈ front ++ header :: (body' ++ behind), '\n' ∉ l.toList)
    (hcontent : Body.content (Line.ofTexts body') = Body.content (Line.ofTexts body))
    {q : Position} {n : Nat} (hposition : leadingPosition? (Line.ofTexts body') = some (q, n)) (supply : Nat) :
    d.Moves ((Document.read supply (unlines (front ++ header :: (body' ++ behind)))).1.carry d none)
      k.name q := by
  have hline : ∀ l ∈ body', '\n' ∉ l.toList := fun l hl => hlines l (by
    rw [List.mem_append, List.mem_cons, List.mem_append]
    exact Or.inr (Or.inr (Or.inl hl)))
  obtain ⟨us, k', vs, hsplit, hk', hus, hvs⟩ :=
    hp.exists_split haround (alike_knots_read supply hlines)
  obtain ⟨ks', ls', hknots, hks', hls'⟩ :=
    forall₂_carry_none hsplit hp.knots hd.sameList_self hus hk'.name hvs
  have hread : Item.unlabelledIn k'.items = Item.unlabelledIn (Body.read 0 body').1.items := hk'.items
  obtain ⟨hsame, hunmarked⟩ := Body.unmarkedIn_read 0 0 hline hcontent
  -- both trees are those of their bodies, up to identities
  have hequal : Item.sameList k'.items k.items = true := by
    rw [Item.sameList_congr hread]
    have hsymm := Item.sameList_symm hsame
    rw [← Item.sameList_congr hp.stands.items] at hsymm
    exact Item.sameList_symm hsymm
  refine ⟨ks, k, ls, ks', k'.carry k.items, ls', hp.knots, hknots, rfl, hp.first, ?_, hks', hls'⟩
  refine ⟨?_, hk'.name, hk'.region, hk'.duplicate, ?_, Item.idsIn_carry hequal⟩
  · have hgiven : k'.position = some q := hk'.position.trans (congrArg (Option.map Prod.fst) hposition)
    exact hgiven
  · have htree : Item.unmarkedIn k'.items = Item.unmarkedIn k.items := by
      rw [Item.unmarkedIn_congr hread, hunmarked, ← Item.unmarkedIn_congr hp.stands.items]
    exact (Item.unmarkedIn_congr (Item.unlabelledIn_carry k'.items k.items)).trans htree

end Document

namespace Session

variable {s : Session} {name : String} {k : Knot}

theorem setKnotPosition_eq (hk : s.document.findKnot? name = some k) (p : Position) :
    s.setKnotPosition name p = .ok (s.commitLines (positionLines s.document.lines k p.comment) none) := by
  rw [setKnotPosition, Edit.setKnotPosition, Edit.outcome_get_bind, Edit.outcome_check_bind, knot, hk]
  exact Edit.outcome_commitText _ _

theorem newline_not_mem_positionLines (hreads : s.Reads) (k : Knot) (p : Position) :
    ∀ l ∈ positionLines s.document.lines k p.comment, '\n' ∉ l.toList := by
  have hline := hreads.document.line
  have hcomment := Line.newline_not_mem_positionComment p
  intro l hl
  unfold positionLines at hl
  dsimp only at hl
  split at hl
  · rcases List.mem_or_eq_of_mem_set hl with hl | rfl
    · exact hline l hl
    · exact hcomment
  · rcases List.mem_append.mp hl with hl | hl
    · exact hline l (List.mem_of_mem_take hl)
    · rcases List.mem_cons.mp hl with rfl | hl
      · exact hcomment
      · exact hline l (List.mem_of_mem_drop hl)

/-- The annotation that is written is read as the position of the knot. -/
theorem moves_positionLines (hreads : s.Reads) (hk : s.document.findKnot? name = some k) {p : Position}
    (hfinite : p.isFinite = true) :
    s.document.Moves (s.commitLines (positionLines s.document.lines k p.comment) none).document name
      p.toTenths := by
  obtain rfl := Document.name_of_findKnot? hk
  obtain ⟨front, header, body, behind, ks, ls, hp⟩ := hreads.document.exists_placed hk
  have hform : (Line.ofText p.comment).form = .position p.toTenths := by
    rw [Line.form_comment, if_pos hfinite]
  have hline := newline_not_mem_positionLines hreads k p
  rcases positionLines_cases hp p.comment with ⟨blanks, old, rest, q, rfl, hblanks, hold, hlines⟩ |
    ⟨hnone, hlines⟩
  · -- the old annotation gives way to the new one
    have hblank : ∀ l ∈ blanks, Line.Silent l := fun l hl => Line.silent_of_isBlank (hblanks l hl)
    have hsilent : ∀ {l}, Line.Silent l → ∀ x ∈ blanks ++ [l], Line.Silent x := by
      intro l hl x hx
      rcases List.mem_append.mp hx with hx | hx
      · exact hblank x hx
      · exact List.mem_singleton.mp hx ▸ hl
    have haround : Line.AroundKnot k.name front header (blanks ++ p.comment :: rest) behind := by
      have hold' := hp.around
      rw [List.append_cons] at hold' ⊢
      exact hold'.exchange_silent (hsilent (Line.silent_of_position hold))
        (hsilent (Line.silent_positionComment p))
    obtain ⟨hleading, hcontent⟩ := Body.annotated hblanks hform rest
    rw [hlines] at hline ⊢
    exact hp.moves hreads.document haround hline (hcontent.trans (Body.annotated hblanks hold rest).2.symm)
      hleading s.supply
  · -- the body had none, and is read behind the new one
    have hold : Line.AroundKnot k.name front header ([] ++ body) behind := hp.around
    have haround : Line.AroundKnot k.name front header ([p.comment] ++ body) behind :=
      hold.exchange_silent (List.forall_mem_nil _) (List.forall_mem_singleton.mpr (Line.silent_positionComment p))
    obtain ⟨hleading, hcontent⟩ := Body.annotated (List.forall_mem_nil _) hform body
    rw [hlines] at hline ⊢
    exact hp.moves hreads.document haround hline
      (hcontent.trans (Body.content_of_none hnone).symm) hleading s.supply

/-- A knot with a position has an annotation, and it is the one that gives way. -/
theorem length_positionLines (hreads : s.Reads) (hk : s.document.findKnot? name = some k) {q : Position}
    (hposition : k.position = some q) (comment : String) :
    (positionLines s.document.lines k comment).length = s.document.lines.length := by
  obtain rfl := Document.name_of_findKnot? hk
  obtain ⟨front, header, body, behind, ks, ls, hp⟩ := hreads.document.exists_placed hk
  rcases positionLines_cases hp comment with ⟨blanks, old, rest, _, hbody, -, -, hlines⟩ | ⟨hnone, -⟩
  · rw [hlines, hp.lines, hbody]
    simp
  · have hread := hp.stands.position
    rw [hnone, hposition] at hread
    simp at hread

theorem lines_commitLines (s : Session) (lines : List String) (c : Document.Counterpart) :
    (s.commitLines lines c).document.lines = Text.lines (unlines lines) := rfl

/-- A position annotation that takes the place of another leaves the number of lines as it is. -/
theorem length_commitLines_positionLines (hreads : s.Reads) (hk : s.document.findKnot? name = some k)
    {q : Position} (hposition : k.position = some q) (p : Position) (c : Document.Counterpart) :
    (s.commitLines (positionLines s.document.lines k p.comment) c).document.lines.length =
      s.document.lines.length := by
  have hlength := length_positionLines hreads hk hposition p.comment
  have hne : positionLines s.document.lines k p.comment ≠ [] := by
    intro hnil
    rw [hnil, List.length_nil, eq_comm, List.length_eq_zero_iff] at hlength
    exact hreads.document.lines_ne_nil hlength
  have hstrip := congrArg List.length (map_strip_lines_unlines hne (newline_not_mem_positionLines hreads k p))
  rw [List.length_map, List.length_map] at hstrip
  rw [lines_commitLines, hstrip, hlength]

/-- Giving a knot a position with finite coordinates moves the first knot of that name there, to the tenth, and
leaves its tree, the identities in it and all other knots as they are. Doing it again adds no line. -/
theorem moves_setKnotPosition (hs : s.Reachable) (hk : s.document.findKnot? name = some k) {p : Position}
    (hfinite : p.isFinite = true) :
    ∃ t, s.setKnotPosition name p = .ok t ∧ s.document.Moves t.document name p.toTenths ∧
      ∃ u, t.setKnotPosition name p = .ok u ∧ u.document.lines.length = t.document.lines.length := by
  have ht := setKnotPosition_eq hk p
  have hmoves := moves_positionLines hs.reads hk hfinite
  -- the knot is found again and has a position now, so the second time a line gives way to a line
  have hreads := hs.reads.perform (c := .setKnotPosition name p) (congrArg Except.toOption ht)
  obtain ⟨k', hk', hposition⟩ := hmoves.exists_findKnot?
  exact ⟨_, ht, hmoves, _, setKnotPosition_eq hk' p,
    length_commitLines_positionLines hreads hk' hposition p none⟩

/-- Of two knots of one name the first moves: from the annotation behind a blank line, to the nearest tenths. -/
theorem moves_setKnotPosition_market :
    let s := start 0 ("=== market ===\n\n// <\x7b \"pos-x\": 7, \"pos-y\": 8 \x7d>\n* Buy an apple\n" ++
      "=== market ===\nClosed.\n") none 4 200
    let p : Position := ⟨.ofDecimal false 125 (-2), .ofDecimal true 5 0⟩
    p.isFinite = true ∧ p.toTenths.render = "\x7b \"pos-x\": 1.2, \"pos-y\": -5.0 \x7d" ∧
      ∃ t, s.setKnotPosition "market" p = .ok t ∧ s.document.Moves t.document "market" p.toTenths ∧
        ∃ u, t.setKnotPosition "market" p = .ok u ∧ u.document.lines.length = t.document.lines.length := by
  intro s p
  have hfinite : p.isFinite = true := by decide +kernel
  have hname : (s.document.findKnot? "market").isSome = true := by decide +kernel
  obtain ⟨k, hk⟩ := Option.isSome_iff_exists.mp hname
  have hrounded : p.toTenths.render = "\x7b \"pos-x\": 1.2, \"pos-y\": -5.0 \x7d" := by decide +kernel
  have hreachable : s.Reachable := reachable_start ..
  exact ⟨hfinite, hrounded, moves_setKnotPosition hreachable hk hfinite⟩

end Session

end StoryScript
