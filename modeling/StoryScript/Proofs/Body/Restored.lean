import StoryScript.Proofs.Body.Listed
import StoryScript.Proofs.Body.RoundTrip

/-!
# Printed lines that are read back in their places

Whether a line is read back depends on its place: a brace outside any conditional is kept as it stands,
and so is every line of a block comment. `Act.Restored` therefore follows the lines of a body with the
containers that are open, and asks of each line only what that line is read as. That there is room for
what it opens, and that branches and braces stand inside conditionals, is no part of it: a tree that was
read has both (`Body.room_of_mem_outlineIn`, `Item.run_actsIn`).

`Body.read_printed` is the round trip of a whole body with its position, and `Item.Restored` the
condition for it.
-/

namespace StoryScript

open Text

namespace Act

variable {a : Act} {as : List Act} {st : List Open} {l : Line} {ls : List Line}

/-! ### Room -/

/-- Entries that open only where there is room. -/
def Roomy (es : List Entry) : Prop := ∀ e ∈ es, e.piece.needsRoom = true → e.depth < nestingLimit

theorem Roomy.append {es fs : List Entry} (hes : Roomy es) (hfs : Roomy fs) : Roomy (es ++ fs) := by
  intro e he
  rcases List.mem_append.mp he with he | he
  · exact hes e he
  · exact hfs e he

/-- An act other than one that opens a choice or a conditional needs no room. -/
theorem roomy_emit (h : ∀ p ∈ a.piece?, p.needsRoom = true →
    (st.dropWhile a.finishes).length < nestingLimit) : Roomy (a.emit st) := by
  intro e he hneeds
  rcases List.mem_append.mp he with hflush | hnode
  · obtain ⟨-, o, -, t, -, hpiece⟩ := Open.mem_flush hflush
    rw [hpiece] at hneeds
    exact absurd hneeds (by simp [Piece.needsRoom])
  · obtain ⟨p, hp, rfl⟩ : ∃ p, a.piece? = some p ∧ ⟨(st.dropWhile a.finishes).length, p⟩ = e := by
      simpa using hnode
    exact h p hp hneeds

theorem roomy_leaves (st : List Open) (xs : List Leaf) : Roomy (emitAll st (xs.map leaf)) := by
  induction xs generalizing st with
  | nil => exact fun e he => absurd he (by simp)
  | cons x xs ih =>
    rw [List.map_cons, emitAll_cons]
    refine (roomy_emit fun p hp hneeds => ?_).append (ih _)
    obtain rfl : Piece.leaf x = p := by simpa [piece?] using hp
    exact absurd hneeds (by simp [Piece.needsRoom])

/-- A line opens a container only where there is room. -/
theorem roomy_ofLine (st : List Open) (branchFollows : Bool) (l : Line) :
    Roomy (emitAll st (ofLine st branchFollows l)) := by
  have hacts := lineActs st branchFollows l
  generalize ofLine st branchFollows l = as at hacts
  cases hacts with
  | @stitch name => exact roomy_leaves st [.stitch name]
  | choice _ hroom =>
    rw [emitAll_singleton]
    exact roomy_emit fun _ _ _ => hroom
  | opening _ _ hroom =>
    rw [emitAll_singleton]
    exact roomy_emit fun _ _ _ => by simpa [finishes] using hroom
  | @branch guard =>
    rw [emitAll_singleton]
    refine roomy_emit fun p hp hneeds => ?_
    obtain rfl : Piece.branch guard = p := by simpa [piece?] using hp
    exact absurd hneeds (by simp [Piece.needsRoom])
  | closing =>
    rw [emitAll_singleton]
    exact roomy_emit (by simp [piece?])
  | keptChoice => exact roomy_leaves st [.raw l.text .unrecognized]
  | keptOpening => exact roomy_leaves st [.raw l.text .unrecognized]
  | leaves => exact roomy_leaves st _

theorem roomy_ofChain (st : List Open) (branchFollows : Bool) (ls : List Line) :
    Roomy (emitAll st (ofChain st branchFollows ls)) := by
  induction ls generalizing st with
  | nil => exact fun e he => absurd he (by simp [ofChain])
  | cons l ls ih =>
    rw [ofChain, emitAll_append]
    exact (roomy_ofLine st branchFollows l).append (ih _)

theorem roomy_ofLines (st : List Open) (ls : List Line) : Roomy (emitAll st (ofLines st ls)) := by
  induction ls generalizing st with
  | nil => exact fun e he => absurd he (by simp [ofLines])
  | cons l ls ih =>
    rw [ofLines]
    split
    · exact ih st
    · rw [emitAll_append]
      refine Roomy.append ?_ (ih _)
      unfold ofWholeLine
      split
      · exact roomy_ofLine st _ l
      · exact roomy_ofChain st _ l.chain

end Act

/-- In a body that was read nothing opens where there is no room. -/
theorem Body.room_of_mem_outlineIn (supply : Nat) (texts : List String) :
    Act.Roomy (Item.outlineIn 0 (Body.read supply texts).1.items) := by
  rw [Body.outlineIn_read, Act.run_eq_emitAll]
  refine (Act.roomy_ofLines [] _).append fun e he hneeds => ?_
  obtain ⟨-, o, -, t, -, hpiece⟩ := Open.mem_flush he
  rw [hpiece] at hneeds
  exact absurd hneeds (by simp [Piece.needsRoom])

/-! ### Lines that are read back -/

namespace Act

variable {a : Act} {as : List Act} {st : List Open} {l : Line} {ls : List Line}

/-- A line that stands where `st` is open is read as the act it was printed for. -/
def RestoredBy (st : List Open) (branchFollows : Bool) (l : Line) : Act → Prop
  | leaf x => ofLine st branchFollows l = [leaf x]
  | choice depth head => l.form = .choice depth head
  | opening => l.form = .conditionalOpen
  | branch guard => l.form = .branch guard ""
  | closing => l.form = .conditionalClose

instance (st : List Open) (branchFollows : Bool) (l : Line) :
    ∀ a, Decidable (RestoredBy st branchFollows l a)
  | leaf x => inferInstanceAs (Decidable (ofLine st branchFollows l = [leaf x]))
  | choice depth head => inferInstanceAs (Decidable (l.form = .choice depth head))
  | opening => inferInstanceAs (Decidable (l.form = .conditionalOpen))
  | branch guard => inferInstanceAs (Decidable (l.form = .branch guard ""))
  | closing => inferInstanceAs (Decidable (l.form = .conditionalClose))

/-- Lines are read, one for each act, as what was printed for it. -/
def Restored : List Open → List Line → List Act → Prop
  | _, [], [] => True
  | st, l :: ls, a :: as => l.form.isBlank = false ∧ RestoredBy st (branchFirst ls) l a ∧
      Restored (a.next st) ls as
  | _, [], _ :: _ | _, _ :: _, [] => False

instance decidableRestored : ∀ (st : List Open) (ls : List Line) (as : List Act),
    Decidable (Restored st ls as)
  | _, [], [] => inferInstanceAs (Decidable True)
  | st, l :: ls, a :: as =>
    have := decidableRestored (a.next st) ls as
    inferInstanceAs (Decidable (l.form.isBlank = false ∧ RestoredBy st (branchFirst ls) l a ∧
      Restored (a.next st) ls as))
  | _, [], _ :: _ | _, _ :: _, [] => inferInstanceAs (Decidable False)

/-- A line that is read back, in a place where its act is allowed, stands for that act alone. -/
theorem ofWholeLine_of_restoredBy (h : RestoredBy st (branchFirst ls) l a)
    (hrest : Restored (a.next st) ls as) (hlinked : Linked st (a :: as)) (hroom : Roomy (a.emit st)) :
    ofWholeLine st (branchFirst ls) l = [a] := by
  have hlink := hlinked.1
  cases a with
  | leaf x =>
    have hline : ofLine st (branchFirst ls) l = [leaf x] := h
    by_cases hb : ∃ guard rest, l.form = .branch guard rest
    · -- a branch that is kept as it stands is outside any conditional
      obtain ⟨guard, rest, hform⟩ := hb
      cases hin : inConditional st with
      | true => simp [ofLine, hform, hin] at hline
      | false => rw [ofWholeLine, if_pos (by simp [hform, LineForm.isBranch, hin]), hline]
    · rw [ofWholeLine_of_not_branch (LineForm.isBranch_eq_false hb), hline]
  | choice depth head =>
    have hform : l.form = .choice depth head := h
    have hlt : (st.dropWhile (Open.endsAtChoice depth)).length < nestingLimit :=
      hroom _ (mem_emit_of_piece rfl st) rfl
    rw [ofWholeLine_of_not_branch (by rw [hform]; rfl), ofLine, hform]
    simp [hlt]
  | opening =>
    have hform : l.form = .conditionalOpen := h
    obtain ⟨guard, rest, rfl⟩ := hlink
    -- the line behind the brace is the one that was printed for its first branch
    have hfollows : branchFirst ls = true := by
      cases ls with
      | nil => exact hrest.elim
      | cons l' ls =>
        obtain ⟨hblank, hbranch, -⟩ := hrest
        have hform' : l'.form = .branch guard "" := hbranch
        rw [BodyState.branchFirst_cons_of_not_blank hblank, hform']
        rfl
    have hlt : st.length < nestingLimit := by
      have hlt := hroom _ (mem_emit_of_piece rfl st) rfl
      simpa [finishes] using hlt
    rw [hfollows, ofWholeLine_of_not_branch (by rw [hform]; rfl), ofLine, hform]
    simp [hlt]
  | branch guard =>
    exact ofWholeLine_of_branch h hlink
  | closing =>
    have hform : l.form = .conditionalClose := h
    rw [ofWholeLine_of_not_branch (by rw [hform]; rfl), ofLine, hform]
    simp [inConditional_iff.mpr hlink]

/-- Lines that are read back stand for the acts they were printed for. -/
theorem ofLines_of_restored (h : Restored st ls as) (hlinked : Linked st as)
    (hroom : Roomy (run as st)) : ofLines st ls = as := by
  induction as generalizing st ls with
  | nil =>
    cases ls with
    | nil => rfl
    | cons l ls => exact h.elim
  | cons a as ih =>
    cases ls with
    | nil => exact h.elim
    | cons l ls =>
      obtain ⟨hblank, hline, hrest⟩ := h
      have hwhole := ofWholeLine_of_restoredBy hline hrest hlinked fun e he =>
        hroom e (List.mem_append_left _ he)
      have hbehind := ih hrest hlinked.2 fun e he => hroom e (List.mem_append_right _ he)
      rw [ofLines, if_neg (by simp [hblank]), hwhole]
      change a :: ofLines (a.next st) ls = a :: as
      rw [hbehind]

/-- The line of an act that is read back is a position only if the act is a leaf with that line. -/
theorem isPosition_of_restoredBy {branchFollows : Bool} {s : String} {p : Position}
    (h : RestoredBy st branchFollows (Line.ofText s) a) (hp : (Line.ofText s).form = .position p) :
    ∃ q, a = leaf q ∧ q.IsPosition := by
  cases a with
  | leaf q =>
    have hline : ofLine st branchFollows (Line.ofText s) = [leaf q] := h
    rw [ofLine, hp] at hline
    obtain rfl : Leaf.raw (Line.ofText s).text .comment = q := by
      simpa [Line.leaves, hp, LineForm.isComment] using hline
    refine ⟨_, rfl, (Line.ofText s).text, Or.inr ⟨_, rfl⟩, p, ?_⟩
    rw [Line.ofText_text, hp]
  | choice depth head => exact absurd (hp.symm.trans h) (by simp)
  | opening => exact absurd (hp.symm.trans h) (by simp)
  | branch guard => exact absurd (hp.symm.trans h) (by simp)
  | closing => exact absurd (hp.symm.trans h) (by simp)

/-- Lines without a position in front list no position first. -/
theorem not_position_of_head {ls : List String} (hls : ∀ s ∈ ls, '\n' ∉ s.toList)
    (hnone : leadingPosition? (Line.ofTexts ls) = none) {e : Entry}
    (he : (run (ofLines [] (Line.ofTexts ls)) []).head? = some e) {q : Leaf}
    (hq : e.piece = .leaf q) : ¬ q.IsPosition := by
  induction ls with
  | nil => simp [Line.ofTexts, Line.readFrom, ofLines, run] at he
  | cons s ls ih =>
    rw [List.forall_mem_cons] at hls
    rw [Line.ofTexts, Line.readFrom_false_cons] at he hnone
    -- blank lines in front are passed over, and the first other line decides
    cases hblank : (Line.ofText s).form.isBlank with
    | true =>
      have hform : (Line.ofText s).form = .blank := LineForm.isBlank_iff.mp hblank
      have hflag : decide ((Line.ofText s).form = .blockComment true) = false := by
        rw [hform]
        rfl
      rw [hflag] at he hnone
      rw [ofLines, if_pos hblank] at he
      rw [leadingPosition?, hform] at hnone
      exact ih hls.2 (Option.map_eq_none_iff.mp hnone) he
    | false =>
      rw [ofLines, if_neg (by simp [hblank])] at he
      obtain ⟨x, r, hxr, hleads⟩ := ofWholeLine_cases [] (branchFirst (Line.readFrom
        (decide ((Line.ofText s).form = .blockComment true)) ls)) (Line.ofText s)
      rw [hxr, List.cons_append] at he
      rcases head_run_cons he with hemit | ⟨hpiece, -⟩
      · rcases piece_of_mem_emit hemit with ⟨t, ht⟩ | hp
        · rw [ht, Piece.leaf.injEq] at hq
          rw [← hq]
          simp [Leaf.IsPosition]
        · rw [hq] at hp
          obtain rfl := eq_leaf_of_piece? hp
          intro hposition
          obtain ⟨⟨p, hform⟩, -⟩ := (first_leaf hls.1 hblank hxr).2 hposition
          rw [leadingPosition?, hform] at hnone
          simp at hnone
      · exact absurd (hleads.closing (eq_closing_of_piece? hpiece)).1 (by simp)

end Act

/-! ### Bodies -/

/-- The lines that are printed for a content tree, without their indentation. -/
def Item.printed (is : List Item) : List String := (Item.actsIn 1 is).map Act.text

/-- Every line that is printed for a content tree is read back. -/
def Item.Restored (is : List Item) : Prop :=
  Act.Restored [] (Line.ofTexts (Item.printed is)) (Item.actsIn 1 is)

instance (is : List Item) : Decidable (Item.Restored is) :=
  inferInstanceAs (Decidable (Act.Restored _ _ _))

namespace Body

variable {supply : Nat} {texts : List String}

/-- Whatever the indentation, the lines of a tree are read as the lines of its acts. -/
theorem ofTexts_renderList (indent : Nat) (is : List Item) :
    Line.ofTexts (Item.renderList indent is) = Line.ofTexts (Item.printed is) := by
  refine Line.readFrom_congr ?_ false
  rw [Item.renderList, Item.strip_renderIn, Item.printed, List.map_map]
  rfl

/-- No line of a body that was read without a position is taken for one. -/
theorem leadingPosition?_renderList (indent : Nat) (htexts : ∀ s ∈ texts, '\n' ∉ s.toList)
    (hnone : (read supply texts).1.position = none)
    (hlines : Item.Restored (read supply texts).1.items) :
    leadingPosition? (Line.ofTexts (Item.renderList indent (read supply texts).1.items)) = none := by
  have houtline := outlineIn_read supply texts
  obtain ⟨hrun, -⟩ := Item.run_actsIn (wellShapedIn_read supply texts)
  rw [read_eq, Option.map_eq_none_iff] at hnone
  have hskipped : skipped (Line.ofTexts texts) = 0 := by rw [skipped, hnone]; rfl
  rw [hskipped, List.drop_zero, ← hrun] at houtline
  unfold Item.Restored Item.printed at hlines
  rw [ofTexts_renderList, Item.printed]
  -- were the first line that is printed taken for a position, it would have been read from one
  cases has : Item.actsIn 1 (read supply texts).1.items with
  | nil => rfl
  | cons a as =>
    rw [has, List.map_cons, Line.ofTexts, Line.readFrom_false_cons] at hlines
    rw [has] at houtline
    rw [List.map_cons, Line.ofTexts, Line.readFrom_false_cons, leadingPosition?]
    split
    · next hform => simp [Act.Restored, hform, LineForm.isBlank] at hlines
    · next p hform =>
      obtain ⟨q, rfl, hq⟩ := Act.isPosition_of_restoredBy hlines.2.1 hform
      have hemit : (Act.leaf q).emit [] = [⟨0, .leaf q⟩] := by
        refine Act.emit_leaf ?_ []
        rintro name rfl
        simp [Leaf.IsPosition] at hq
      refine absurd hq (Act.not_position_of_head htexts hnone (e := ⟨0, .leaf q⟩) ?_ rfl)
      rw [← houtline, Act.run, hemit]
      rfl
    · rfl

/-- The round trip of a body with its position: if every line that is printed for it is read back, the
same position and the same outline are read. -/
theorem read_printed (indent supply' : Nat) (htexts : ∀ s ∈ texts, '\n' ∉ s.toList)
    (hposition : ∀ p ∈ (read supply texts).1.position, (Line.ofText p.comment).form = .position p)
    (hlines : Item.Restored (read supply texts).1.items) :
    let printed := ((read supply texts).1.position.map Position.comment).toList ++
      Item.renderList indent (read supply texts).1.items
    (read supply' printed).1.position = (read supply texts).1.position ∧
      Item.outlineIn 0 (read supply' printed).1.items =
        Item.outlineIn 0 (read supply texts).1.items := by
  obtain ⟨hrun, hlinked⟩ := Item.run_actsIn (wellShapedIn_read supply texts)
  have hroom := room_of_mem_outlineIn supply texts
  rw [← hrun] at hroom
  have hacts := Act.ofLines_of_restored hlines hlinked hroom
  intro printed
  -- the annotation, if there is one, is the first line that is printed and is skipped when it is read
  cases hp : (read supply texts).1.position with
  | none =>
    have hprinted : printed = Item.renderList indent (read supply texts).1.items := by
      simp [printed, hp]
    have hnone := leadingPosition?_renderList indent htexts hp hlines
    have hskipped : skipped (Line.ofTexts printed) = 0 := by
      rw [hprinted, skipped, hnone]
      rfl
    refine ⟨?_, ?_⟩
    · rw [read_eq, hprinted, hnone]
      rfl
    · rw [outlineIn_read, hskipped, List.drop_zero, hprinted, ofTexts_renderList, hacts, hrun]
  | some p =>
    have hform := hposition p hp
    have hread : Line.ofTexts printed = Line.ofText p.comment ::
        Line.ofTexts (Item.printed (read supply texts).1.items) := by
      have hprinted : printed =
          p.comment :: Item.renderList indent (read supply texts).1.items := by
        simp [printed, hp]
      rw [hprinted, ← ofTexts_renderList indent, Line.ofTexts, Line.readFrom_false_cons, hform]
      rfl
    have hleading : leadingPosition? (Line.ofTexts printed) = some (p, 1) := by
      rw [hread, leadingPosition?, hform]
    refine ⟨?_, ?_⟩
    · rw [read_eq, hleading]
      rfl
    · rw [outlineIn_read, skipped, hleading]
      change Act.run (Act.ofLines [] ((Line.ofTexts printed).drop 1)) [] = _
      rw [hread, List.drop_one, List.tail_cons, hacts, hrun]

end Body

/-! ### Printing again -/

/-- Where the divert of a choice is printed is told by how its content ends. -/
theorem inlineDivert_iff {h : ChoiceHead} {c : List Item} : inlineDivert h c = true ↔
    h.divert.isSome = true ∧ (c = [] ∨ Item.EndsIn (fun i => i.isChoice || i.isDivert) c) := by
  rw [inlineDivert, Bool.and_eq_true, Item.EndsIn]
  cases hlast : c.getLast? with
  | none => simp [List.getLast?_eq_none_iff.mp hlast]
  | some last =>
    have hne : c ≠ [] := by
      rintro rfl
      simp at hlast
    simp [hne]

theorem inlineDivert_of_sameList (h : ChoiceHead) {c d : List Item} (hsame : Item.sameList c d = true) :
    inlineDivert h c = inlineDivert h d := by
  have hends : ∀ {c d : List Item}, Item.sameList c d = true → inlineDivert h c = true →
      inlineDivert h d = true := by
    intro c d hsame hc
    rw [inlineDivert_iff] at hc ⊢
    refine ⟨hc.1, hc.2.imp (fun hnil => ?_) (Item.endsIn_of_sameList (fun i j hij => ?_) hsame)⟩
    · subst hnil
      cases d with
      | nil => rfl
      | cons j js => simp [Item.sameList] at hsame
    · rw [Item.isChoice_of_same hij, Item.isDivert_of_same hij]
  exact Bool.eq_iff_iff.mpr ⟨hends hsame, hends (Item.sameList_symm hsame)⟩

theorem Item.length_outline_of_same {k : Nat} {i j : Item} (h : i.same j = true) :
    (i.outline k).length = (j.outline k).length := by
  simpa using congrArg List.length (Item.outline_of_same (k := k) h)

theorem Branch.length_outline_of_same {k : Nat} {b c : Branch} (h : b.same c = true) :
    (b.outline k).length = (c.outline k).length := by
  simpa using congrArg List.length (Branch.outline_of_same (k := k) h)

theorem Item.length_outlineIn_of_sameList {k : Nat} {is js : List Item}
    (h : Item.sameList is js = true) :
    (Item.outlineIn k is).length = (Item.outlineIn k js).length := by
  simpa using congrArg List.length (Item.outlineIn_of_sameList (k := k) h)

theorem Item.of_same_choice {k : Nat} {m m' : Mark} {hd hd' : ChoiceHead} {c c' : List Item}
    (hsame : (Item.choice m hd c).same (.choice m' hd' c') = true)
    (h : (Item.choice m hd c).outline k = (Item.choice m' hd' c').outline k) :
    hd = hd' ∧ Item.sameList c c' = true ∧
      Item.outlineIn (k + 1) c = Item.outlineIn (k + 1) c' := by
  simp only [Item.same, Bool.and_eq_true, decide_eq_true_eq] at hsame
  obtain ⟨rfl, hc⟩ := hsame
  rw [Item.outline, Item.outline, List.cons.injEq] at h
  exact ⟨rfl, hc, List.append_inj_left h.2 (Item.length_outlineIn_of_sameList hc)⟩

theorem Branch.of_same {k : Nat} {m m' : Mark} {g g' : Guard} {d d' : Option String}
    {c c' : List Item}
    (hsame : (Branch.mk m g d c).same (.mk m' g' d' c') = true)
    (h : (Branch.mk m g d c).outline k = (Branch.mk m' g' d' c').outline k) :
    g = g' ∧ d = d' ∧ Item.sameList c c' = true ∧
      Item.outlineIn (k + 2) c = Item.outlineIn (k + 2) c' := by
  simp only [Branch.same, Bool.and_eq_true, decide_eq_true_eq] at hsame
  obtain ⟨⟨rfl, rfl⟩, hc⟩ := hsame
  rw [Branch.outline, Branch.outline, List.cons.injEq] at h
  exact ⟨rfl, rfl, hc, List.append_inj_left h.2 (Item.length_outlineIn_of_sameList hc)⟩

section

variable {indent : Nat}

mutual

theorem Item.render_of_same {k : Nat} : ∀ {i j : Item}, i.same j = true →
    i.outline k = j.outline k →
    ∀ level depth, i.render indent level depth = j.render indent level depth
  | .leaf _ a, .leaf _ b, _, h => by
    obtain rfl : a = b := by simpa [Item.outline] using h
    exact fun _ _ => rfl
  | .choice _ hd c, .choice _ hd' c', hsame, h => by
    intro level depth
    obtain ⟨rfl, hc, hcontent⟩ := Item.of_same_choice hsame h
    rw [Item.render, Item.render, inlineDivert_of_sameList hd hc,
      Item.renderIn_of_sameList hc hcontent]
  | .conditional _ bs, .conditional _ bs', hsame, h => by
    intro level depth
    rw [Item.same] at hsame
    rw [Item.outline, Item.outline, List.cons.injEq] at h
    rw [Item.render, Item.render, Branch.renderIn_of_sameList hsame h.2]
  | .leaf .., .choice .., h, _ | .leaf .., .conditional .., h, _ | .choice .., .leaf .., h, _
  | .choice .., .conditional .., h, _ | .conditional .., .leaf .., h, _
  | .conditional .., .choice .., h, _ => by simp [Item.same] at h

theorem Branch.render_of_same {k : Nat} : ∀ {b c : Branch}, b.same c = true →
    b.outline k = c.outline k → ∀ level, b.render indent level = c.render indent level
  | .mk _ g d c, .mk _ g' d' c', hsame, h => by
    intro level
    obtain ⟨rfl, rfl, hc, hcontent⟩ := Branch.of_same hsame h
    rw [Branch.render, Branch.render, Item.renderIn_of_sameList hc hcontent]

/-- Structurally equal trees with the same outline are printed alike: what structural equality passes
over is in the outline. -/
theorem Item.renderIn_of_sameList {k : Nat} : ∀ {is js : List Item},
    Item.sameList is js = true → Item.outlineIn k is = Item.outlineIn k js →
    ∀ level depth, Item.renderIn indent level depth is = Item.renderIn indent level depth js
  | [], [], _, _ => fun _ _ => rfl
  | i :: is, j :: js, hsame, h => by
    intro level depth
    rw [Item.sameList, Bool.and_eq_true] at hsame
    rw [Item.outlineIn, Item.outlineIn] at h
    obtain ⟨hi, his⟩ := List.append_inj h (Item.length_outline_of_same hsame.1)
    rw [Item.renderIn, Item.renderIn, Item.render_of_same hsame.1 hi,
      Item.renderIn_of_sameList hsame.2 his]
  | [], _ :: _, h, _ | _ :: _, [], h, _ => by simp [Item.sameList] at h

theorem Branch.renderIn_of_sameList {k : Nat} : ∀ {bs cs : List Branch},
    Branch.sameList bs cs = true → Branch.outlineIn k bs = Branch.outlineIn k cs →
    ∀ level, Branch.renderIn indent level bs = Branch.renderIn indent level cs
  | [], [], _, _ => fun _ => rfl
  | b :: bs, c :: cs, hsame, h => by
    intro level
    rw [Branch.sameList, Bool.and_eq_true] at hsame
    rw [Branch.outlineIn, Branch.outlineIn] at h
    obtain ⟨hb, hbs⟩ := List.append_inj h (Branch.length_outline_of_same hsame.1)
    rw [Branch.renderIn, Branch.renderIn, Branch.render_of_same hsame.1 hb,
      Branch.renderIn_of_sameList hsame.2 hbs]
  | [], _ :: _, h, _ | _ :: _, [], h, _ => by simp [Branch.sameList] at h

end

end

/-- Two bodies that were read with the same outline are structurally equal and printed alike. -/
theorem Body.same_of_outlineIn {supply supply' : Nat} {texts texts' : List String}
    (htexts : ∀ s ∈ texts, '\n' ∉ s.toList)
    (h : Item.outlineIn 0 (Body.read supply texts).1.items =
      Item.outlineIn 0 (Body.read supply' texts').1.items) :
    Item.sameList (Body.read supply texts).1.items (Body.read supply' texts').1.items = true ∧
      ∀ indent, Item.renderList indent (Body.read supply texts).1.items =
        Item.renderList indent (Body.read supply' texts').1.items := by
  have hsame := Item.sameList_of_outlineIn (Body.wellShapedIn_read supply texts)
    (Body.wellShapedIn_read supply' texts') (Body.sameList_read_self supply htexts)
    (congrArg (List.map Entry.plain) h)
  exact ⟨hsame, fun indent => Item.renderIn_of_sameList hsame h 0 1⟩

end StoryScript
