import StoryScript.Proofs.Body.Forced

/-!
# An equal tree below a position

The body of a knot is read from its first line that is not blank, and a position comment there belongs
to the knot. `Act.forced_body` extends `Act.forced` to whole bodies: no line of the tree is taken for
the position, and none is skipped in front of it, since every line of that kind would have to be made
up for by one more.
-/

namespace StoryScript

open Text

namespace Act

variable {a x : Act} {as xs : List Act} {st : List Open}

/-! ### The position in front -/

/-- A leaf of that kind lists as it is. -/
theorem run_front {q : Leaf} (h : q.IsFront) (as : List Act) :
    (run (leaf q :: as) []).map Entry.plain = ⟨0, .leaf q⟩ :: (run as []).map Entry.plain := by
  have hplain : q.plain = q := by
    rcases h with ⟨content, rfl | ⟨reason, rfl⟩, -⟩ | ⟨content, rfl | ⟨reason, rfl⟩, -⟩ <;> rfl
  have hstitch : ∀ name, q ≠ .stitch name := by
    rintro name rfl
    simp [Leaf.IsFront, Leaf.IsBlank, Leaf.IsPosition] at h
  rw [run_cons, emit_leaf hstitch, next_leaf hstitch, List.singleton_append, List.map_cons,
    Entry.plain, Piece.plain, hplain, List.length_nil]

/-- Lines behind a knot give it no position. -/
theorem leadingPosition?_behind {ls : List String} (h : Line.Behind ls) :
    leadingPosition? (Line.section_ (Line.readFrom false ls)) = none := by
  induction ls with
  | nil => rfl
  | cons s ls ih =>
    rw [Line.readFrom_false_cons]
    rcases h with ⟨hblank, h⟩ | hends
    · have hform : (Line.ofText s).form = .blank := LineForm.isBlank_iff.mp hblank
      have hread := ih h
      rw [Line.section_cons (by rw [hform]; rfl), leadingPosition?]
      simp [hform, hread]
    · rw [Line.section_cons_of_endsKnot hends]
      rfl

/-- What is read cannot lag behind what was printed by some blank lines and positions: each of these
would have to be read from the line of a further one. -/
theorem not_lagging {behind : List String} (has : ∀ a ∈ as, a.Printable)
    (hbehind : Line.Behind behind) (hline : ∀ s ∈ behind, '\n' ∉ s.toList) (y : Leaf)
    (ys : List Leaf) (hys : ∀ y' ∈ y :: ys, y'.IsFront) :
    (run (ofLines [] (Line.section_ (Line.readFrom false (as.map text ++ behind)))) []).map
        Entry.plain ≠ (y :: ys).map (fun y => ⟨0, .leaf y⟩) ++ (run as []).map Entry.plain := by
  induction as generalizing y ys with
  | nil =>
    rw [List.map_nil, List.nil_append, ofLines_behind hbehind]
    simp [run]
  | cons a as ih =>
    rw [List.forall_mem_cons] at has
    have hlines : ∀ s ∈ (a :: as).map text ++ behind, '\n' ∉ s.toList := by
      intro s hs
      rcases List.mem_append.mp hs with hs | hs
      · obtain ⟨b, hb, rfl⟩ := List.mem_map.mp hs
        exact ((List.forall_mem_cons.mpr has) b hb).line
      · exact hline s hs
    intro h
    -- the first of them is no blank line
    have hy : y.IsPosition :=
      (hys y List.mem_cons_self).resolve_left (not_blank_of_plain_head hlines (by rw [h]; rfl))
    -- with one more of them behind the others, the rest lags in the same way
    have hagain : ∀ {q : Leaf} {zs : List Leaf}, (leaf q = a) → q.IsFront →
        (∀ y' ∈ zs, y'.IsFront) → zs ++ [q] ≠ [] →
        (run (ofLines [] (Line.section_ (Line.readFrom false (as.map text ++ behind)))) []).map
          Entry.plain ≠ zs.map (fun y => ⟨0, .leaf y⟩) ++ (run (a :: as) []).map Entry.plain := by
      rintro q zs rfl hq hzs hne hrun
      obtain ⟨z, zs', hz⟩ := List.exists_cons_of_ne_nil hne
      refine ih has.2 z zs' (fun y' hy' => ?_) ?_
      · rw [← hz] at hy'
        rcases List.mem_append.mp hy' with hy' | hy'
        · exact hzs y' hy'
        · rwa [List.mem_singleton.mp hy']
      · rw [hrun, run_front hq, ← hz]
        simp
    rw [List.map_cons, List.cons_append, Line.readFrom_false_cons] at h
    cases hends : (Line.ofText a.text).form.endsKnot with
    | true =>
      rw [Line.section_cons_of_endsKnot hends, ofLines] at h
      simp [run] at h
    | false =>
      rw [Line.section_cons hends] at h
      cases hblank : (Line.ofText a.text).form.isBlank with
      | true =>
        have hform : (Line.ofText a.text).form = .blank := LineForm.isBlank_iff.mp hblank
        obtain ⟨q, hq, hqb⟩ := has.1.isBlank hform
        rw [ofLines_cons_of_blank _ hblank, hform] at h
        exact hagain hq.symm (Or.inl hqb) hys (by simp) h
      | false =>
        rw [ofLines_cons _ hblank] at h
        obtain ⟨x, r, hxr, hleads⟩ := ofWholeLine_cases [] (branchFirst (Line.section_
          (Line.readFrom (decide ((Line.ofText a.text).form = .blockComment true))
            (as.map text ++ behind)))) (Line.ofText a.text)
        rw [hxr, List.cons_append] at h
        obtain ⟨q, rfl, hq⟩ := exists_leaf_of_head (fun hx => (hleads.closing hx).1)
          (by
            rintro name rfl
            simp [Leaf.IsPosition] at hy)
          (by
            rintro t rfl
            simp [Leaf.IsPosition] at hy)
          (show ((run (x :: _) []).map Entry.plain).head? = some ⟨0, .leaf y⟩ by rw [h]; rfl)
        have hqp : q.IsPosition := by rwa [← Leaf.isPosition_plain, hq]
        obtain ⟨⟨p, hform⟩, rfl⟩ := (first_leaf has.1.line hblank hxr).2 hqp
        obtain ⟨q', hq', hqp'⟩ := has.1.isPosition hform
        have hafter : after [] [leaf q] = [] := rfl
        rw [hafter, hform, List.nil_append, run_front (Or.inr hqp), List.map_cons,
          List.cons_append] at h
        exact hagain hq'.symm (Or.inr hqp') (fun y' hy' => hys y' (List.mem_cons_of_mem _ hy'))
          (by simp) (List.cons.inj h).2

/-- What is read cannot be ahead of what was printed by a comment: it would be read once more from the
line that the comment was printed on. -/
theorem not_leading {behind : List String} {c : String} (hc : (Line.ofText c).form = .comment)
    (hlinked : Linked [] as) :
    (run (leaf (.raw (Line.ofText c).text .comment) :: ofLines []
        (Line.section_ (Line.readFrom false (as.map text ++ behind)))) []).map Entry.plain ≠
      (run as []).map Entry.plain := by
  induction as with
  | nil =>
    intro h
    rw [run_cons, emit_leaf (by simp)] at h
    simp [run] at h
  | cons a as ih =>
    intro h
    obtain ⟨l, rfl, hl⟩ := exists_leaf_of_read hlinked (by simp) (by simp) h
    obtain rfl : l = .raw (Line.ofText c).text .comment := by
      cases l <;> simp [Leaf.plain] at hl
      rw [hl.1, hl.2]
    have hnext : (leaf (.raw (Line.ofText c).text .comment)).next [] = [] := rfl
    have hcancel := (run_cons_cancel rfl h).2
    rw [hnext] at hcancel
    refine ih (hnext ▸ hlinked.2) (Eq.trans ?_ hcancel)
    -- the line of the comment is read as the comment again
    have hline : Line.ofText (leaf (.raw (Line.ofText c).text .comment)).text = Line.ofText c :=
      Line.ofText_text c
    have hwhole : ∀ {branchFollows : Bool}, ofWholeLine [] branchFollows (Line.ofText c) =
        [leaf (.raw (Line.ofText c).text .comment)] := by
      intro branchFollows
      rw [ofWholeLine_of_not_branch (by rw [hc]; rfl), ofLine_of_isAtomic (by rw [hc]; rfl),
        Line.leaves, hc]
      rfl
    have hflag : decide ((Line.ofText c).form = .blockComment true) = false := by
      rw [hc]
      rfl
    rw [List.map_cons, List.cons_append, Line.readFrom_false_cons, hline, hflag,
      Line.section_cons (by rw [hc]; rfl), ofLines_cons _ (by rw [hc]; rfl), hwhole]
    rfl

/-- None of the first lines of the body of a tree is taken for its position. -/
theorem not_skipped {behind : List String} (has : ∀ a ∈ as, a.Printable)
    (hbehind : Line.Behind behind) (hline : ∀ s ∈ behind, '\n' ∉ s.toList) {p : Position} {n : Nat}
    (hposition : leadingPosition? (Line.section_ (Line.readFrom false (as.map text ++ behind))) =
      some (p, n)) (ys : List Leaf) (hys : ∀ y ∈ ys, y.IsBlank) :
    (run (ofLines [] ((Line.section_ (Line.readFrom false (as.map text ++ behind))).drop n)) []).map
      Entry.plain ≠ ys.map (fun y => ⟨0, .leaf y⟩) ++ (run as []).map Entry.plain := by
  induction as generalizing n ys with
  | nil =>
    refine absurd hposition ?_
    rw [List.map_nil, List.nil_append, leadingPosition?_behind hbehind]
    simp
  | cons a as ih =>
    rw [List.forall_mem_cons] at has
    rw [List.map_cons, List.cons_append, Line.readFrom_false_cons] at hposition ⊢
    cases hends : (Line.ofText a.text).form.endsKnot with
    | true =>
      rw [Line.section_cons_of_endsKnot hends] at hposition
      simp [leadingPosition?] at hposition
    | false =>
      rw [Line.section_cons hends] at hposition ⊢
      unfold leadingPosition? at hposition
      split at hposition
      · next hform =>
        -- a blank leaf was printed, and is counted among the leaves that are skipped
        obtain ⟨q, rfl, hq⟩ := has.1.isBlank hform
        obtain ⟨⟨p', n'⟩, hposition', hpn⟩ := Option.map_eq_some_iff.mp hposition
        obtain ⟨rfl, rfl⟩ : p' = p ∧ n' + 1 = n := by simpa using hpn
        rw [hform] at hposition' ⊢
        intro hrun
        refine ih has.2 hposition' (ys ++ [q]) (fun y hy => ?_) ?_
        · rcases List.mem_append.mp hy with hy | hy
          · exact hys y hy
          · rwa [List.mem_singleton.mp hy]
        · rw [run_front (Or.inl hq)] at hrun
          rw [List.map_append, List.append_assoc]
          exact hrun
      · next p' hform =>
        -- the position itself was printed for a leaf, which is missing from what is read
        obtain ⟨rfl, rfl⟩ : p' = p ∧ 1 = n := by simpa using hposition
        obtain ⟨q, rfl, hq⟩ := has.1.isPosition hform
        rw [hform, List.drop_one, List.tail_cons, run_front (Or.inr hq)]
        intro hrun
        obtain ⟨z, zs, hz⟩ := List.exists_cons_of_ne_nil (show ys ++ [q] ≠ [] by simp)
        refine not_lagging has.2 hbehind hline z zs (fun y hy => ?_) ?_
        · rw [← hz] at hy
          rcases List.mem_append.mp hy with hy | hy
          · exact Or.inl (hys y hy)
          · rw [List.mem_singleton.mp hy]
            exact Or.inr hq
        · rw [← hz, List.map_append, List.append_assoc]
          exact hrun
      · simp at hposition

/-- The printed body of a knot, with what stands behind it: if it lists what the tree of the knot
lists, then none of its lines ends the knot, and no block comment is open behind it unless nothing
follows. -/
theorem forced_body {position : Option String} {behind : List String}
    (has : ∀ a ∈ as, a.Printable) (hlinked : Linked [] as) (hbehind : Line.Behind behind)
    (hline : ∀ s ∈ behind, '\n' ∉ s.toList)
    (hposition : ∀ s ∈ position, (∃ p, (Line.ofText s).form = .position p) ∨
      (Line.ofText s).form = .comment)
    (h : (run (ofLines [] (Body.content (Line.section_ (Line.readFrom false
      (position.toList ++ (as.map text ++ behind)))))) []).map Entry.plain =
        (run as []).map Entry.plain) :
    (∀ l ∈ Line.readFrom false (position.toList ++ as.map text), l.form.endsKnot = false) ∧
      (Line.opensBlock false (position.toList ++ as.map text) = true → behind = []) := by
  have hforced : (run (ofLines [] (Line.section_ (Line.readFrom false (as.map text ++ behind)))) []).map
      Entry.plain = (run as []).map Entry.plain →
      (∀ l ∈ Line.readFrom false (as.map text), l.form.endsKnot = false) ∧
        (Line.opensBlock false (as.map text) = true → behind = []) := fun hrun =>
    (forced has hlinked hbehind hline hrun).2
  cases position with
  | none =>
    refine hforced (Eq.trans ?_ h)
    unfold Body.content Body.skipped
    cases hskip : leadingPosition? (Line.section_ (Line.readFrom false
        ((none : Option String).toList ++ (as.map text ++ behind)))) with
    | none => rfl
    | some pn =>
      obtain ⟨p, n⟩ := pn
      -- no line of the tree is skipped as a position
      refine absurd ?_ (not_skipped has hbehind hline hskip [] (by simp))
      rw [List.map_nil, List.nil_append, ← h, Body.content, Body.skipped, hskip]
      rfl
  | some s =>
    have hform := hposition s rfl
    have hflag : decide ((Line.ofText s).form = .blockComment true) = false := by
      rcases hform with ⟨p, hp⟩ | hc
      · rw [hp]
        rfl
      · rw [hc]
        rfl
    have hends : (Line.ofText s).form.endsKnot = false := by
      rcases hform with ⟨p, hp⟩ | hc
      · rw [hp]
        rfl
      · rw [hc]
        rfl
    simp only [Option.toList_some, List.singleton_append] at h ⊢
    rw [Line.readFrom_false_cons, hflag, Line.section_cons hends] at h
    rw [Line.readFrom_false_cons, Line.opensBlock_false_cons, hflag, List.forall_mem_cons]
    rcases hform with ⟨p, hp⟩ | hc
    · -- the position is skipped, and the body begins behind it
      have hskip : Body.skipped (Line.ofText s :: Line.section_ (Line.readFrom false
          (as.map text ++ behind))) = 1 := by
        simp [Body.skipped, leadingPosition?, hp]
      rw [Body.content, hskip, List.drop_one, List.tail_cons] at h
      exact ⟨⟨hends, (hforced h).1⟩, (hforced h).2⟩
    -- a comment that is no position would be listed as a leaf in front of the tree
    · have hskip : Body.skipped (Line.ofText s :: Line.section_ (Line.readFrom false
          (as.map text ++ behind))) = 0 := by
        simp [Body.skipped, leadingPosition?, hc]
      have hwhole : ∀ {branchFollows : Bool}, ofWholeLine [] branchFollows (Line.ofText s) =
          [leaf (.raw (Line.ofText s).text .comment)] := by
        intro branchFollows
        rw [ofWholeLine_of_not_branch (by rw [hc]; rfl), ofLine_of_isAtomic (by rw [hc]; rfl),
          Line.leaves, hc]
        rfl
      rw [Body.content, hskip, List.drop_zero, ofLines_cons _ (by rw [hc]; rfl), hwhole] at h
      exact absurd h (not_leading hc hlinked)

end Act

end StoryScript
