import StoryScript.Proofs.Document.Names
import StoryScript.Proofs.Line.Header
import StoryScript.Proofs.Line.Position
import StoryScript.Proofs.Line.Redirected

/-!
# What changes of lines do to names

Edits of whole knots change the lines of a script directly. For each way in which they do, this module
says which names the changed lines hold:

* other lines in the place of a body, or a knot with its body among other lines
  (`Line.namesIn_written`): the names around them stay, and those of the body come in;
* the lines of a knot taken out (`Line.namesIn_ofTexts_append`): the names around them are left;
* a position annotation or blank lines at the top of a body (`Line.AroundKnot.namesIn_of_silent`): no name
  changes;
* other lines in front of the first header (`Line.namesIn_front`): no name changes, unless a comment is
  opened or closed there;
* a knot renamed, with every arrow that leads to it (`Line.AroundKnot.namesIn_renamed`): its name changes and no
  other, for redirected lines are alike.
-/

namespace StoryScript

open Text

namespace Line

variable {name header : String} {front body behind : List String}

/-- Behind lines that leave no comment open, lines are read as on their own. -/
theorem ofTexts_append (h : opensBlock false front = false) (ls : List String) :
    ofTexts (front ++ ls) = ofTexts front ++ ofTexts ls := by
  rw [ofTexts, readFrom_append, h, ofTexts, ofTexts]

/-- The names on both sides of a place where a knot ends. -/
theorem namesIn_ofTexts_append (hclear : opensBlock false front = false)
    (hends : ∀ p ∈ behind.head?, (ofText p).form.endsKnot = true) :
    namesIn (ofTexts (front ++ behind)) = namesIn (ofTexts front) ++ namesIn (ofTexts behind) := by
  rw [ofTexts_append hclear, namesIn_append _ (head?_ofTexts hends)]

theorem ofTexts_cons_of_header (h : (ofText header).form = .knotHeader name) (ls : List String) :
    ofTexts (header :: ls) = ofText header :: ofTexts ls := by
  rw [ofTexts, readFrom_false_cons, h]
  rfl

/-! ### Silent lines at the top -/

/-- A line at the top of a body that is read for no name: a blank line or a line comment. -/
structure Silent (s : String) : Prop where
  shows : (ofText s).form.isBlank = true ∨ (ofText s).form.isComment = true
  ends : (ofText s).form.endsKnot = false
  opens : (ofText s).form ≠ .blockComment true

theorem silent_of_isBlank {s : String} (h : (ofText s).form.isBlank = true) : Silent s := by
  exact ⟨Or.inl h, LineForm.endsKnot_of_isBlank h, by simp [LineForm.isBlank_iff.mp h]⟩

theorem silent_of_position {s : String} {p : Position} (h : (ofText s).form = .position p) :
    Silent s := by
  refine ⟨Or.inr ?_, ?_, ?_⟩ <;> rw [h]
  · rfl
  · rfl
  · simp

theorem silent_positionComment (p : Position) : Silent p.comment := by
  rcases form_positionComment p with ⟨q, hq⟩ | h
  · exact silent_of_position hq
  · refine ⟨Or.inr ?_, ?_, ?_⟩ <;> rw [h]
    · rfl
    · rfl
    · simp

theorem silent_position (position : Option Position) :
    ∀ s ∈ (position.map Position.comment).toList, Silent s := by
  intro s hs
  obtain ⟨p, -, rfl⟩ := Option.map_eq_some_iff.mp (Option.mem_toList.mp hs)
  exact silent_positionComment p

theorem Silent.ofTexts_cons {s : String} (h : Silent s) (ls : List String) :
    ofTexts (s :: ls) = ofText s :: ofTexts ls := by
  rw [ofTexts, readFrom_false_cons, decide_eq_false h.opens, ofTexts]

variable {tops tops' : List String}

theorem ofTexts_append_of_silent (h : ∀ s ∈ tops, Silent s) (ls : List String) :
    ofTexts (tops ++ ls) = tops.map ofText ++ ofTexts ls := by
  induction tops with
  | nil => rfl
  | cons s tops ih =>
    rw [List.forall_mem_cons] at h
    rw [List.cons_append, h.1.ofTexts_cons, ih h.2, List.map_cons, List.cons_append]

theorem ofTexts_of_silent (h : ∀ s ∈ tops, Silent s) : ofTexts tops = tops.map ofText := by
  have happend := ofTexts_append_of_silent h []
  rwa [List.append_nil, show ofTexts [] = [] from rfl, List.append_nil] at happend

theorem opensBlock_append_of_silent (h : ∀ s ∈ tops, Silent s) (ls : List String) :
    opensBlock false (tops ++ ls) = opensBlock false ls := by
  induction tops with
  | nil => rfl
  | cons s tops ih =>
    rw [List.forall_mem_cons] at h
    rw [List.cons_append, opensBlock_false_cons, decide_eq_false h.1.opens, ih h.2]

/-- The stitches, up to where the knot ends, are those of the lines behind. -/
theorem stitchesIn_append_of_silent (h : ∀ s ∈ tops, Silent s) (ls : List String) :
    stitchesIn (section_ (ofTexts (tops ++ ls))) = stitchesIn (section_ (ofTexts ls)) := by
  induction tops with
  | nil => rfl
  | cons s tops ih =>
    rw [List.forall_mem_cons] at h
    rw [List.cons_append, h.1.ofTexts_cons, section_cons h.1.ends,
      stitchesIn_cons_of_isComment _ h.1.shows, ih h.2]

theorem namesIn_append_of_silent (h : ∀ s ∈ tops, Silent s) (ls : List String) :
    namesIn (ofTexts (tops ++ ls)) = namesIn (ofTexts ls) := by
  induction tops with
  | nil => rfl
  | cons s tops ih =>
    rw [List.forall_mem_cons] at h
    have hne : ∀ name, (ofText s).form ≠ .knotHeader name := by
      intro name hform
      have hends := h.1.ends
      simp [hform, LineForm.endsKnot] at hends
    rw [List.cons_append, h.1.ofTexts_cons, namesIn_cons_of_ne _ hne, ih h.2]

theorem inside_append_of_silent (h : ∀ s ∈ tops, Silent s) {ls : List String} :
    (∀ l ∈ ofTexts (tops ++ ls), l.form.endsKnot = false) ↔
      ∀ l ∈ ofTexts ls, l.form.endsKnot = false := by
  induction tops with
  | nil => rfl
  | cons s tops ih =>
    rw [List.forall_mem_cons] at h
    rw [List.cons_append, h.1.ofTexts_cons, List.forall_mem_cons, ih h.2]
    exact ⟨fun hall => hall.2, fun hall => ⟨h.1.ends, hall⟩⟩

/-- Other silent lines at the top of a body leave the knot where it is. -/
theorem AroundKnot.exchange_silent (h : AroundKnot name front header (tops ++ body) behind)
    (htops : ∀ s ∈ tops, Silent s) (htops' : ∀ s ∈ tops', Silent s) :
    AroundKnot name front header (tops' ++ body) behind := by
  refine ⟨h.clear, h.opens, ?_, fun hne => ?_, h.ends⟩
  · exact (inside_append_of_silent htops').mpr ((inside_append_of_silent htops).mp h.inside)
  · rw [opensBlock_append_of_silent htops', ← opensBlock_append_of_silent htops, h.closed hne]

/-- The names of a script do not depend on silent lines at the top of a body. -/
theorem AroundKnot.namesIn_of_silent (h : AroundKnot name front header (tops ++ body) behind)
    (htops : ∀ s ∈ tops, Silent s) (htops' : ∀ s ∈ tops', Silent s) :
    namesIn (ofTexts (front ++ header :: (tops' ++ body ++ behind))) =
      namesIn (ofTexts (front ++ header :: (tops ++ body ++ behind))) := by
  have h' := h.exchange_silent htops htops'
  have hwhole : ∀ {ls : List String}, (∀ l ∈ ofTexts ls, l.form.endsKnot = false) →
      section_ (ofTexts ls) = ofTexts ls := fun hls =>
    List.takeWhile_eq_self_iff.mpr fun l hl => by simp [hls l hl]
  rw [namesIn_around h, namesIn_around h', ← hwhole h.inside, ← hwhole h'.inside,
    stitchesIn_append_of_silent htops, stitchesIn_append_of_silent htops']

/-! ### Knots that are written -/

/-- The names of lines in which a knot has been written: those around it, its own, and those that its raw
body brings in. -/
theorem namesIn_written (hclear : opensBlock false front = false)
    (hopens : (ofText header).form = .knotHeader name) (htops : ∀ s ∈ tops, Silent s)
    (hclosed : opensBlock false body = false) {blanks : List String} (hblanks : ∀ s ∈ blanks, s = "")
    (hends : ∀ p ∈ behind.head?, (ofText p).form.endsKnot = true) :
    namesIn (ofTexts (front ++ header :: (tops ++ body ++ blanks ++ behind))) =
      namesIn (ofTexts front) ++ (name, stitchesIn (section_ (ofTexts body))) ::
        (namesIn (ofTexts body) ++ namesIn (ofTexts behind)) := by
  have hblank : ∀ s ∈ blanks, (ofText s).form.isBlank = true := fun s hs => by
    rw [hblanks s hs]
    rfl
  have hsilent : ∀ s ∈ blanks, Silent s := fun s hs => silent_of_isBlank (hblank s hs)
  set knot := header :: (tops ++ body) with hknot
  have hheader : decide ((ofText header).form = .blockComment true) = false := by rw [hopens]; rfl
  have hknotClosed : opensBlock false knot = false := by
    rw [hknot, opensBlock_false_cons, hheader, opensBlock_append_of_silent htops, hclosed]
  have hblanksClosed : opensBlock false blanks = false := by
    rw [← List.append_nil blanks, opensBlock_append_of_silent hsilent, opensBlock_nil]
  have hwritten : opensBlock false (front ++ (knot ++ blanks)) = false := by
    rw [opensBlock_append, hclear, opensBlock_append, hknotClosed, hblanksClosed]
  have hsplit : front ++ header :: (tops ++ body ++ blanks ++ behind) =
      front ++ (knot ++ blanks) ++ behind := by simp [hknot]
  have hhead : ∀ p ∈ (knot ++ blanks).head?, (ofText p).form.endsKnot = true := by
    intro p hp
    obtain rfl : header = p := by simpa [hknot] using hp
    rw [hopens]
    rfl
  have hblankLines : ∀ l ∈ ofTexts blanks, l.form.isBlank = true := by
    rw [ofTexts_of_silent hsilent, List.forall_mem_map]
    exact hblank
  rw [hsplit, namesIn_ofTexts_append hwritten hends, namesIn_ofTexts_append hclear hhead,
    ofTexts_append hknotClosed, namesIn_append_of_isBlank _ hblankLines, hknot,
    ofTexts_cons_of_header hopens, namesIn_cons_of_header _ hopens, namesIn_append_of_silent htops,
    stitchesIn_append_of_silent htops, List.append_assoc, List.cons_append]

/-! ### Lines in front of the first header -/

/-- A line that is no header and that neither opens a comment nor closes one. -/
structure Inert (s : String) : Prop where
  header : ∀ name, (ofText s).form ≠ .knotHeader name
  opens : (ofText s).form ≠ .blockComment true
  closes : closesComment s = false

/-- An inert line leaves a comment open if there was one. -/
theorem Inert.opensBlock_singleton {s : String} (h : Inert s) (inBlock : Bool) :
    opensBlock inBlock [s] = inBlock := by
  cases inBlock with
  | true => rw [opensBlock_true_cons, h.closes, opensBlock_nil]; rfl
  | false => rw [opensBlock_false_cons, decide_eq_false h.opens, opensBlock_nil]

theorem Inert.readFrom_cons {s : String} (h : Inert s) (inBlock : Bool) (ls : List String) :
    readFrom inBlock (s :: ls) = readFrom inBlock [s] ++ readFrom inBlock ls := by
  rw [← List.singleton_append, readFrom_append, h.opensBlock_singleton]

/-- An inert line does nothing to the lines behind it. -/
theorem Inert.namesIn_cons {s : String} (h : Inert s) (inBlock : Bool) (ls : List String) :
    namesIn (readFrom inBlock (s :: ls)) = namesIn (readFrom inBlock ls) := by
  cases inBlock with
  | true =>
    rw [readFrom_true_cons, h.closes]
    exact namesIn_cons_of_ne _ (by simp [insideComment])
  | false =>
    rw [readFrom_false_cons, namesIn_cons_of_ne _ h.header, decide_eq_false h.opens]

/-- In front of the first header inert lines can come and go. -/
theorem namesIn_front (hfront : ∀ l ∈ ofTexts front, ∀ name, l.form ≠ .knotHeader name) {s : String}
    (hs : Inert s) (ls : List String) :
    namesIn (ofTexts (front ++ s :: ls)) = namesIn (ofTexts (front ++ ls)) := by
  have happ : ∀ ms, namesIn (ofTexts (front ++ ms)) = namesIn (readFrom (opensBlock false front) ms) := by
    intro ms
    rw [ofTexts, readFrom_append]
    exact namesIn_append_of_ne hfront _
  rw [happ, happ, hs.namesIn_cons]

/-! ### A knot that is renamed -/

theorem exists_of_mem_right {α β : Type} {R : α → β → Prop} {as : List α} {bs : List β}
    (h : List.Forall₂ R as bs) {b : β} (hb : b ∈ bs) : ∃ a ∈ as, R a b := by
  induction h with
  | nil => simp at hb
  | @cons a b' as bs hab _ ih =>
    rcases List.mem_cons.mp hb with rfl | hb
    · exact ⟨a, List.mem_cons_self, hab⟩
    · obtain ⟨a', ha', hab'⟩ := ih hb
      exact ⟨a', List.mem_cons_of_mem _ ha', hab'⟩

/-- Redirected lines are alike, and they leave the same comment open. -/
theorem alike_map_redirected {old new : String} (hold : IsName old.toList) (hnew : IsName new.toList)
    {redirect : String → String}
    (hredirect : ∀ s, Redirected old.toList new.toList s.toList (redirect s).toList) {ls : List String}
    (hline : ∀ s ∈ ls, '\n' ∉ s.toList) :
    List.Forall₂ Alike (ofTexts ls) (ofTexts (ls.map redirect)) ∧
      opensBlock false ls = opensBlock false (ls.map redirect) := by
  refine alike_readFrom_redirected hold hnew ?_ hline false
  exact List.forall₂_map_right_iff.mpr (List.forall₂_same.mpr fun s _ => hredirect s)

section Renamed

variable {new : String} {redirect : String → String} {header' : String}
  (h : AroundKnot name front header body behind) (hold : IsName name.toList) (hnew : IsName new.toList)
  (hline : ∀ s ∈ front ++ header :: (body ++ behind), '\n' ∉ s.toList)
  (hredirect : ∀ s, Redirected name.toList new.toList s.toList (redirect s).toList)
  (hheader : (ofText header').form = .knotHeader new)
include h hold hnew hline hredirect hheader

/-- A knot that has another name, in its header and behind every arrow, stands where it stood. -/
theorem AroundKnot.renamed :
    AroundKnot new (front.map redirect) header' (body.map redirect) (behind.map redirect) := by
  simp only [List.forall_mem_append, List.forall_mem_cons] at hline
  obtain ⟨hfrontLine, -, hbodyLine, hbehindLine⟩ := hline
  obtain ⟨hbody, hclosed⟩ := alike_map_redirected hold hnew hredirect hbodyLine
  have hclear := (alike_map_redirected hold hnew hredirect hfrontLine).2
  have hends : ∀ {l m : Line}, l.Alike m → l.form.endsKnot = m.form.endsKnot := by
    intro l m hlm
    rw [← LineForm.endsKnot_bare, hlm.bare, LineForm.endsKnot_bare]
  refine ⟨hclear.symm.trans h.clear, hheader, fun m hm => ?_, fun hne => ?_, fun p hp => ?_⟩
  · obtain ⟨l, hl, hlm⟩ := exists_of_mem_right hbody hm
    rw [← hends hlm, h.inside l hl]
  · exact hclosed.symm.trans (h.closed fun hnil => hne (by rw [hnil, List.map_nil]))
  · rw [List.head?_map, Option.mem_def, Option.map_eq_some_iff] at hp
    obtain ⟨q, hq, rfl⟩ := hp
    have hqLine := hbehindLine q (List.mem_of_head? hq)
    rw [← hends (alike_ofText_redirected hold hnew (hredirect q) hqLine), h.ends q hq]

/-- The names of a script in which a knot has another name. -/
theorem AroundKnot.namesIn_renamed :
    namesIn (ofTexts (front.map redirect ++ header' :: (body.map redirect ++ behind.map redirect))) =
      namesIn (ofTexts front) ++ (new, stitchesIn (ofTexts body)) :: namesIn (ofTexts behind) := by
  have haround := h.renamed hold hnew hline hredirect hheader
  simp only [List.forall_mem_append, List.forall_mem_cons] at hline
  obtain ⟨hfrontLine, -, hbodyLine, hbehindLine⟩ := hline
  rw [namesIn_around haround,
    namesIn_congr (alike_map_redirected hold hnew hredirect hfrontLine).1,
    stitchesIn_congr (alike_map_redirected hold hnew hredirect hbodyLine).1,
    namesIn_congr (alike_map_redirected hold hnew hredirect hbehindLine).1]

end Renamed

end Line

end StoryScript
