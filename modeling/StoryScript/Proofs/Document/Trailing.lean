import StoryScript.Proofs.Document.Changes

/-!
# Blank lines at the end of a script

Blank lines at the end of a script, outside of comments, go into the last knot and change nothing in it
(`Body.read_append_blank`): so they may come and go (`ScriptState.alike_knots_append_blank`). The number of
lines of a body matters for its issues alone, which name its last line (`BodyState.root_closeAll`).
-/

namespace StoryScript

open Text

/-! ### Bodies -/

namespace BodyState

/-- States that agree in all but their issues. -/
def SameTree (s t : BodyState) : Prop := { s with issues := [] } = { t with issues := [] }

variable {s t : BodyState}

theorem SameTree.root (h : s.SameTree t) : s.root = t.root := (congrArg BodyState.root h :)

theorem SameTree.frames (h : s.SameTree t) : s.frames = t.frames := (congrArg BodyState.frames h :)

theorem SameTree.pending (h : s.SameTree t) : s.pending = t.pending :=
  (congrArg BodyState.pending h :)

theorem SameTree.report (h : s.SameTree t) (m n : Nat) (cause : IssueCause) :
    (s.report m cause).SameTree (t.report n cause) := h

theorem sameTree_add (item : Item) (s : BodyState) :
    ({ s with issues := [] } : BodyState).add item = { s.add item with issues := [] } := by
  unfold add
  cases hframes : s.frames with
  | nil => rfl
  | cons f fs => rfl

theorem SameTree.add (h : s.SameTree t) (item : Item) : (s.add item).SameTree (t.add item) := by
  unfold SameTree at h ⊢
  rw [← sameTree_add, h, sameTree_add]

theorem SameTree.pop (h : s.SameTree t) : s.pop.SameTree t.pop := by
  unfold BodyState.pop
  rw [← h.frames]
  cases hframes : s.frames with
  | nil => exact h
  | cons f fs =>
    have hrest : ({ s with frames := fs, spans := s.spans.drop f.dropped? } : BodyState).SameTree
        { t with frames := fs, spans := t.spans.drop f.dropped? } := by
      have hall := congrArg (fun u : BodyState =>
        { u with frames := fs, spans := u.spans.drop f.dropped? }) h
      exact hall
    exact hrest.add f.close

/-- The line that issues are reported on has no part in what is closed. -/
theorem SameTree.closeAll (h : s.SameTree t) (m n : Nat) : (s.closeAll m).SameTree (t.closeAll n) := by
  have hfold : ∀ (fs : List Frame) {s t : BodyState}, s.SameTree t →
      (fs.foldl (fun s f => (if f.isBranch then s.report m .conditionalUnclosed else s).pop)
        s).SameTree (fs.foldl (fun s f =>
          (if f.isBranch then s.report n .conditionalUnclosed else s).pop) t) := by
    intro fs
    induction fs with
    | nil => exact fun h => h
    | cons f fs ih =>
      intro s t h
      rw [List.foldl_cons, List.foldl_cons]
      refine ih ?_
      split
      · exact (h.report m n _).pop
      · exact h.pop
  -- a conditional that waits is given up in both states or in neither
  have hpending : (if s.pending.isSome then (s.report m .conditionalUnclosed).dropPending
      else s).SameTree (if t.pending.isSome then (t.report n .conditionalUnclosed).dropPending
        else t) := by
    rw [← h.pending]
    split
    · have hreported := h.report m n .conditionalUnclosed
      unfold dropPending
      rw [← hreported.pending]
      split
      · exact hreported
      · next k _ =>
        have hnone : ({ s.report m .conditionalUnclosed with pending := none } : BodyState).SameTree
            { t.report n .conditionalUnclosed with pending := none } := by
          have hall := congrArg (fun u : BodyState => { u with pending := none }) hreported
          exact hall
        exact hnone.add _
    · exact h
  unfold BodyState.closeAll
  dsimp only
  rw [← hpending.frames]
  exact hfold _ hpending

theorem root_closeAll (m n : Nat) (s : BodyState) : (s.closeAll m).root = (s.closeAll n).root :=
  (SameTree.closeAll (s := s) rfl m n).root

/-- Nothing is read from blank lines. -/
theorem readFrom_append_of_isBlank (s : BodyState) (n : Nat) (ls : List Line) {bs : List Line}
    (h : ∀ l ∈ bs, l.form.isBlank = true) : s.readFrom n (ls ++ bs) = s.readFrom n ls := by
  induction ls generalizing s n with
  | nil =>
    rw [List.nil_append]
    induction bs generalizing n with
    | nil => rfl
    | cons b bs ih =>
      rw [List.forall_mem_cons] at h
      rw [readFrom_cons_of_blank h.1, ih h.2 (n + 1)]
      rfl
  | cons l ls ih =>
    rw [List.cons_append, readFrom, readFrom, Line.branchFirst_append_of_isBlank ls h, ih]

end BodyState

theorem leadingPosition?_append_of_isBlank (ls : List Line) {bs : List Line}
    (h : ∀ l ∈ bs, l.form.isBlank = true) : leadingPosition? (ls ++ bs) = leadingPosition? ls := by
  induction ls with
  | nil =>
    rw [List.nil_append]
    induction bs with
    | nil => rfl
    | cons b bs ih =>
      rw [List.forall_mem_cons] at h
      have hform : b.form = .blank := LineForm.isBlank_iff.mp h.1
      unfold leadingPosition?
      rw [hform]
      change (leadingPosition? bs).map _ = none
      rw [ih h.2]
      rfl
  | cons l ls ih =>
    rw [List.cons_append, leadingPosition?, leadingPosition?, ih]

/-- Blank lines behind a body that leaves no comment open change nothing in it. -/
theorem Body.read_append_blank (supply : Nat) {texts : List String}
    (hclosed : Line.opensBlock false texts = false) {blanks : List String}
    (hblanks : ∀ s ∈ blanks, (Line.ofText s).form.isBlank = true) :
    (Body.read supply (texts ++ blanks)).1.items = (Body.read supply texts).1.items ∧
      (Body.read supply (texts ++ blanks)).1.position = (Body.read supply texts).1.position := by
  have hlines : Line.ofTexts (texts ++ blanks) = Line.ofTexts texts ++ blanks.map Line.ofText := by
    rw [Line.ofTexts_append hclosed,
      Line.ofTexts_of_silent fun s hs => Line.silent_of_isBlank (hblanks s hs)]
  have hmap : ∀ l ∈ blanks.map Line.ofText, l.form.isBlank = true := by
    rw [List.forall_mem_map]
    exact hblanks
  have hposition := leadingPosition?_append_of_isBlank (Line.ofTexts texts) hmap
  refine ⟨?_, ?_⟩
  · have hskipped : Body.skipped (Line.ofTexts texts ++ blanks.map Line.ofText) =
        Body.skipped (Line.ofTexts texts) := by
      rw [Body.skipped, hposition, Body.skipped]
    rw [Body.read_items, Body.read_items, hlines, Body.lastState, Body.lastState, hskipped,
      List.drop_append_of_le_length (Body.skipped_le _),
      BodyState.readFrom_append_of_isBlank _ _ _ hmap, BodyState.root_closeAll]
  · rw [Body.position_read, Body.position_read, hlines, hposition]

/-! ### Scripts -/

namespace ScriptState

/-- Blank lines at the end come to stand in the last knot, and change nothing. -/
theorem alike_knots_append_blank (supply : Nat) {ls blanks : List String}
    (hclear : Line.opensBlock false ls = false)
    (hblanks : ∀ s ∈ blanks, (Line.ofText s).form.isBlank = true) :
    List.Forall₂ Knot.Alike (ahead supply (ls ++ blanks)).knots (ahead supply ls).knots := by
  set s := ({ supply } : ScriptState).readFrom 1 (ls.zip (Line.ofTexts ls)) with hs
  have hopened : ∀ k ∈ s.knot, Line.opensBlock false k.body.reverse = Line.opensBlock false ls :=
    opensBlock_readFrom { supply } 1 ls (by simp)
  have hself : ∀ ks : List Knot, List.Forall₂ Knot.Alike ks ks :=
    fun ks => List.forall₂_same.mpr fun k _ => Knot.Alike.refl k
  have hlines : Line.ofTexts blanks = blanks.map Line.ofText :=
    Line.ofTexts_of_silent fun p hp => Line.silent_of_isBlank (hblanks p hp)
  have hzip : ∀ x ∈ blanks.zip (Line.ofTexts blanks), x.2.form.isBlank = true := by
    intro x hx
    have hmem := (List.of_mem_zip hx).2
    rw [hlines] at hmem
    obtain ⟨p, hp, hpx⟩ := List.mem_map.mp hmem
    rw [← hpx]
    exact hblanks p hp
  have hends : ∀ x ∈ blanks.zip (Line.ofTexts blanks), x.2.form.endsKnot = false :=
    fun x hx => LineForm.endsKnot_of_isBlank (hzip x hx)
  have hahead : ahead supply (ls ++ blanks) = (s.readFrom (1 + ls.length)
      (blanks.zip (Line.ofTexts blanks))).closeKnot (ls ++ blanks).length := by
    rw [ahead, zip_ofTexts_append hclear, readFrom_append, length_zip_ofTexts]
  rw [hahead]
  change List.Forall₂ Knot.Alike _ (s.closeKnot ls.length).knots
  cases hknot : s.knot with
  | none =>
    -- between knots blank lines are skipped
    have hskip : ∀ (xs : List (String × Line)) (n : Nat), (∀ x ∈ xs, x.2.form.isBlank = true) →
        (∀ x ∈ xs, x.2.form.endsKnot = false) → s.readFrom n xs = s := by
      intro xs
      induction xs with
      | nil => exact fun n _ _ => rfl
      | cons x xs ih =>
        obtain ⟨p, l⟩ := x
        intro n hblank hend
        rw [List.forall_mem_cons] at hblank hend
        rw [readFrom, step_of_not_endsKnot n p s hend.1, hknot]
        dsimp only
        rw [if_pos hblank.1]
        exact ih (n + 1) hblank.2 hend.2
    rw [hskip _ _ hzip hends, closeKnot_of_none _ hknot, closeKnot_of_none _ hknot]
    exact hself _
  | some k =>
    have hfst : (blanks.zip (Line.ofTexts blanks)).map Prod.fst = blanks :=
      List.map_fst_zip (Nat.le_of_eq (Line.length_ofTexts blanks).symm)
    -- the open knot takes them into its body, which is read as before
    rw [readFrom_body _ hknot hends, hfst, knots_closeKnot _ hknot, knots_closeKnot _ rfl]
    have hclosed : Line.opensBlock false k.body.reverse = false := (hopened k hknot).trans hclear
    obtain ⟨hitems, hposition⟩ := Body.read_append_blank s.supply hclosed hblanks
    refine .cons ⟨rfl, rfl, rfl, ?_, ?_⟩ (hself _)
    · change (Body.read s.supply (blanks.reverse ++ k.body).reverse).1.position = _
      rw [List.reverse_append, List.reverse_reverse]
      exact hposition
    · change Item.unlabelledIn (Body.read s.supply (blanks.reverse ++ k.body).reverse).1.items = _
      rw [List.reverse_append, List.reverse_reverse, hitems]
      rfl

end ScriptState

end StoryScript
