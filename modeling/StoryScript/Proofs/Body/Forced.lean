import StoryScript.Proofs.Body.Listed

/-!
# What an equal tree says about the lines

`Body.sameList_read_renderList` shows that a tree comes back if its lines are read as what they were
printed for. Here is the other direction: if a tree comes back, its lines *were* read as what they
were printed for. So a check of the tree alone is enough to know that none of its lines ended the
knot, and that no block comment in it is still open at the end, unless nothing follows.

The two runs are compared act by act (`Act.forced`). Both list the same outline, and what a run lists
first says which act it began with (`Act.forced_line`). Printed lines of choices, branches, stitches,
diverts and braces are read back in any case, or as something that is listed differently; a leaf that
is printed on a blank line must stand inside a block comment.

`Act.forced` speaks of the lines behind the position of the knot.
-/

namespace StoryScript

open Text

namespace Act

variable {a x : Act} {as xs : List Act} {st : List Open}

/-! ### Every line was read as what it was printed for -/

theorem run_cons (a : Act) (as : List Act) (st : List Open) :
    run (a :: as) st = a.emit st ++ run as (a.next st) := rfl

theorem ofLines_cons_of_blank {l : Line} (ls : List Line) (h : l.form.isBlank = true) :
    ofLines st (l :: ls) = ofLines st ls := by
  rw [ofLines, if_pos h]

theorem ofLines_cons {l : Line} (ls : List Line) (h : l.form.isBlank = false) :
    ofLines st (l :: ls) = ofWholeLine st (branchFirst ls) l ++
      ofLines (after st (ofWholeLine st (branchFirst ls) l)) ls := by
  rw [ofLines, if_neg (by simp [h])]

/-- Acts that agree list the same, so what follows them does. -/
theorem run_cons_cancel (hx : x.plain = a.plain)
    (h : (run (x :: xs) st).map Entry.plain = (run (a :: as) st).map Entry.plain) :
    x.next st = a.next st ∧
      (run xs (a.next st)).map Entry.plain = (run as (a.next st)).map Entry.plain := by
  have hnext : x.next st = a.next st := by rw [← next_plain x, hx, next_plain]
  have hemit : (x.emit st).map Entry.plain = (a.emit st).map Entry.plain := by
    rw [← emit_plain, hx, emit_plain]
  rw [run, run, List.map_append, List.map_append, hemit, hnext] at h
  exact ⟨hnext, List.append_cancel_left h⟩

theorem closing_mem_of_linked (h : Linked st (a :: as)) (ha : a = closing) : .conditional ∈ st := by
  subst ha
  exact h.1

/-- Where a leaf is read that is neither a stitch nor a divert, one was printed. -/
theorem exists_leaf_of_read {q : Leaf} (hlinked : Linked st (a :: as))
    (hstitch : ∀ name, q ≠ .stitch name) (hdivert : ∀ t, q ≠ .divert t)
    (h : (run (leaf q :: xs) st).map Entry.plain = (run (a :: as) st).map Entry.plain) :
    ∃ l, a = leaf l ∧ l.plain = q.plain := by
  have hemit : (leaf q).emit st = [⟨st.length, .leaf q⟩] := emit_leaf hstitch st
  have hhead : ((run (a :: as) st).map Entry.plain).head? = some ⟨st.length, .leaf q.plain⟩ := by
    rw [← h, run, hemit]
    rfl
  refine exists_leaf_of_head (closing_mem_of_linked hlinked) (fun name hname => ?_)
    (fun t ht => ?_) hhead
  · cases q <;> simp [Leaf.plain] at hname
    exact hstitch name (by rw [hname])
  · cases q <;> simp [Leaf.plain] at ht
    exact hdivert t (by rw [ht])

/-- Where a line is kept as it stands, it was printed for a leaf. -/
theorem exists_leaf_of_kept {l : Line} (hlinked : Linked st (a :: as))
    (h : (run (kept l ++ xs) st).map Entry.plain = (run (a :: as) st).map Entry.plain) :
    ∃ q, a = leaf q := by
  obtain ⟨q, hq, -⟩ := exists_leaf_of_read hlinked (by simp) (by simp) h
  exact ⟨q, hq⟩

section

variable {branchFollows : Bool} {l : Line}

theorem ofWholeLine_of_raw (h : l.form = .raw) : ofWholeLine st branchFollows l = kept l := by
  rw [ofWholeLine_of_not_branch (by rw [h]; rfl), ofLine_of_isAtomic (by rw [h]; rfl), Line.leaves, h]
  rfl

theorem ofWholeLine_of_choice {depth : Nat} {head : ChoiceHead} (h : l.form = .choice depth head) :
    ofWholeLine st branchFollows l = [choice depth head] ∨
      ofWholeLine st branchFollows l = kept l := by
  rw [ofWholeLine_of_not_branch (by rw [h]; rfl), ofLine, h]
  simp only
  split
  · exact Or.inl rfl
  · exact Or.inr rfl

theorem ofWholeLine_of_opening (h : l.form = .conditionalOpen) :
    ofWholeLine st branchFollows l = [opening] ∨ ofWholeLine st branchFollows l = kept l := by
  have hleaves : l.leaves.map leaf = kept l := by
    rw [Line.leaves, h]
    rfl
  rw [ofWholeLine_of_not_branch (by rw [h]; rfl), ofLine, h]
  simp only [hleaves]
  split
  · split
    · exact Or.inl rfl
    · exact Or.inr rfl
  · exact Or.inr rfl

end

/-- The line of a leaf that is neither a stitch nor a divert was read as that leaf. -/
theorem forced_leaf {l : Leaf} (ha : (leaf l).Printable) (hstitch : ∀ name, l ≠ .stitch name)
    (hdivert : ∀ t, l ≠ .divert t) {branchFollows : Bool}
    (h : (run (ofWholeLine st branchFollows (Line.ofText l.render) ++ xs) st).map Entry.plain =
      (run (leaf l :: as) st).map Entry.plain) :
    (ofWholeLine st branchFollows (Line.ofText l.render)).map plain = [(leaf l).plain] := by
  obtain ⟨x, r, hxr, hleads⟩ := ofWholeLine_cases st branchFollows (Line.ofText l.render)
  have hemit : (leaf l).emit st = [⟨st.length, .leaf l⟩] := emit_leaf hstitch st
  have hhead : ((run (x :: (r ++ xs)) st).map Entry.plain).head? =
      some ⟨st.length, .leaf l.plain⟩ := by
    rw [← List.cons_append, ← hxr, h, run, hemit]
    rfl
  obtain ⟨q, rfl, hq⟩ := exists_leaf_of_head (fun hx => (hleads.closing hx).1)
    (fun name hname => by cases l <;> simp [Leaf.plain] at hname hstitch)
    (fun t ht => by cases l <;> simp [Leaf.plain] at ht hdivert) hhead
  -- nothing else was read from the line, since two leaves are a text and a divert
  have hr : r = [] := by
    rcases hleads.leaf q rfl with ⟨-, hr⟩ | ⟨-, hr, -⟩ | hleaves
    · exact hr
    · exact hr
    · rcases Line.leaves_cases (Line.ofText l.render) with ⟨q', hone⟩ | ⟨c, t, hform, htwo⟩
      · rw [hone, List.map_cons, List.map_nil, List.cons.injEq] at hleaves
        exact hleaves.2
      · -- the text in front of an arrow is shorter than the line
        rw [htwo, List.map_cons, List.cons.injEq, Act.leaf.injEq] at hleaves
        obtain rfl : l = .text c := by
          rw [hleaves.1] at hq
          cases l <;> simp [Leaf.plain] at hq
          rw [hq]
        have hline : '\n' ∉ stripChars c.toList := fun hnl => ha.line (mem_of_mem_stripChars hnl)
        obtain ⟨-, -, -, -, htarget⟩ := Line.text_of_formOf (trimmed_stripChars _) hline hform
        have hlt := (htarget t rfl).2
        have hle := length_stripChars_le c.toList
        omega
  rw [hxr, hr, List.map_cons, List.map_nil, plain, plain, hq]

theorem emit_choice (depth : Nat) (head : ChoiceHead) (st : List Open) :
    (choice depth head).emit st = Open.flush (Open.endsAtChoice depth) st ++
      [⟨(st.dropWhile (Open.endsAtChoice depth)).length, head.piece⟩] := rfl

/-- The line of a choice was read as that choice. -/
theorem forced_choice {depth : Nat} {head : ChoiceHead} (ha : (choice depth head).Printable)
    (hlinked : Linked st (choice depth head :: as)) {branchFollows : Bool}
    (h : (run (ofWholeLine st branchFollows (Line.ofText (choice depth head).text) ++ xs) st).map
      Entry.plain = (run (choice depth head :: as) st).map Entry.plain) :
    ofWholeLine st branchFollows (Line.ofText (choice depth head).text) = [choice depth head] := by
  obtain ⟨hread, hdivert⟩ := readable_choice.mp ha.toReadable
  obtain ⟨n, rfl⟩ := Nat.exists_eq_succ_of_ne_zero (ha.depth depth head rfl).ne'
  obtain ⟨t, ht, hsome, hhead⟩ := exists_divert hdivert
  have hform := Line.form_choice hread n ht
  rw [hsome, ← hhead, ← text_choice] at hform
  have hnot : ∀ {r}, r = kept (Line.ofText (choice (n + 1) head).text) →
      (run (r ++ xs) st).map Entry.plain ≠ (run (choice (n + 1) head :: as) st).map Entry.plain := by
    rintro r rfl hr
    obtain ⟨q, hq⟩ := exists_leaf_of_kept hlinked hr
    simp at hq
  unfold Line.choiceForm at hform
  split at hform
  · exact absurd h (hnot (ofWholeLine_of_raw hform))
  · rcases ofWholeLine_of_choice hform with hone | hkept
    · -- both choices finish the same containers, so their texts are listed at one place
      rw [hone] at h ⊢
      rw [List.singleton_append, run, run, emit_choice, emit_choice] at h
      simp only [List.append_assoc, List.singleton_append, List.map_append, List.map_cons] at h
      have hentry := (List.cons.inj (List.append_cancel_left h)).1
      obtain ⟨htext, -, hbracketed⟩ := Piece.choice.inj (congrArg Entry.piece hentry)
      have heq : Line.choiceHead head.sticky (head.behindMarkers t) =
          { head with divert := t.map String.ofList } := by
        cases t with
        | some t => exact hread.choiceHead_inline (ht t rfl)
        | none => exact hread.choiceHead_alone.resolve_right fun hne => hne hbracketed htext
      rw [heq, ← hhead]
    · exact absurd h (hnot hkept)

/-- A line that is not blank and does not end the knot was read as what it was printed for. -/
theorem forced_line (ha : a.Printable) (hlinked : Linked st (a :: as)) {branchFollows : Bool}
    (h : (run (ofWholeLine st branchFollows (Line.ofText a.text) ++ xs) st).map Entry.plain =
      (run (a :: as) st).map Entry.plain) :
    (ofWholeLine st branchFollows (Line.ofText a.text)).map plain = [a.plain] := by
  cases a with
  | leaf l =>
    rcases l.stitch_cases with ⟨name, rfl⟩ | hs
    · have hname : IsName name.toList := readable_leaf.mp ha.toReadable
      have hform := Line.form_stitch hname
      rw [String.ofList_toList] at hform
      change (Line.ofText (leaf (.stitch name)).text).form = _ at hform
      rw [ofWholeLine_of_not_branch (by rw [hform]; rfl), ofLine, hform]
      rfl
    · by_cases hd : ∃ t, l = .divert t
      · obtain ⟨t, rfl⟩ := hd
        have ht : IsTarget t.toList := readable_leaf.mp ha.toReadable
        have hform := Line.form_renderDivert ht
        rw [String.ofList_toList, ← text_divert] at hform
        rw [ofWholeLine_of_not_branch (by rw [hform]; rfl), ofLine_of_isAtomic (by rw [hform]; rfl),
          Line.leaves, hform]
        rfl
      · exact forced_leaf ha hs (fun t ht => hd ⟨t, ht⟩) h
  | choice depth head =>
    rw [forced_choice ha hlinked h]
    rfl
  | opening =>
    rcases (ofWholeLine_of_opening form_opening : ofWholeLine st branchFollows _ = _ ∨ _) with
      hone | hkept
    · rw [hone]
      rfl
    · rw [hkept] at h
      obtain ⟨q, hq⟩ := exists_leaf_of_kept hlinked h
      simp at hq
  | branch guard =>
    have hform := Line.form_branch (readable_branch.mp ha.toReadable)
    rw [← text_branch] at hform
    rw [ofWholeLine_of_branch hform hlinked.1]
    rfl
  | closing =>
    rw [ofWholeLine_of_not_branch (by rw [form_closing]; rfl), ofLine, form_closing]
    simp [inConditional_iff.mpr hlinked.1]

/-- Nothing is read from blank lines up to the end of a knot. -/
theorem ofLines_behind {ls : List String} (h : Line.Behind ls) :
    ofLines st (Line.section_ (Line.readFrom false ls)) = [] := by
  induction ls with
  | nil => rfl
  | cons s ls ih =>
    rw [Line.readFrom_false_cons]
    rcases h with ⟨hblank, h⟩ | hends
    · have hends := LineForm.endsKnot_of_isBlank hblank
      have hflag : decide ((Line.ofText s).form = .blockComment true) = false := by
        rw [LineForm.isBlank_iff.mp hblank]
        rfl
      rw [Line.section_cons hends, ofLines, hblank, if_pos rfl, hflag]
      exact ih h
    · rw [Line.section_cons_of_endsKnot hends]
      rfl

/-- Where nothing is left but to finish containers, no leaf is listed that is no divert. -/
theorem not_listed_of_nil {q : Leaf} (hdivert : ∀ t, q ≠ .divert t) {n : Nat} {es : List Entry} :
    (⟨n, .leaf q⟩ : Entry).plain :: es ≠ (run [] st).map Entry.plain := by
  intro h
  have hmem : (⟨n, .leaf q⟩ : Entry).plain ∈ (run [] st).map Entry.plain := by
    rw [← h]
    exact List.mem_cons_self
  obtain ⟨e, he, heq⟩ := List.mem_map.mp hmem
  obtain ⟨-, o, -, t, -, hpiece⟩ := Open.mem_flush he
  have hplain : Leaf.divert t = q.plain := by
    have hp := congrArg Entry.piece heq
    rw [Entry.plain, hpiece] at hp
    exact Piece.leaf.inj hp
  exact hdivert t (Leaf.eq_divert_of_plain hplain.symm)

/-- A line for which there is no act would have to be listed. -/
theorem not_read_of_nil {l : Line} {ls : List Line} {reason : RawReason}
    (h : l.leaves = [.raw l.text reason]) (hline : ofWholeLine st (branchFirst ls) l = l.leaves.map leaf)
    (hblank : l.form.isBlank = false) :
    (run (ofLines st (l :: ls)) st).map Entry.plain ≠ (run [] st).map Entry.plain := by
  intro hrun
  have hemit : (leaf (.raw l.text reason)).emit st = [⟨st.length, .leaf (.raw l.text reason)⟩] :=
    emit_leaf (by simp) st
  rw [ofLines_cons ls hblank, hline, h, List.map_cons, List.map_nil, List.singleton_append,
    run_cons, hemit, List.singleton_append, List.map_cons] at hrun
  exact not_listed_of_nil (by simp) hrun

theorem ofWholeLine_insideComment {branchFollows : Bool} (s : String) :
    ofWholeLine st branchFollows (Line.insideComment s) =
      [leaf (.raw (strip s) .comment)] := by
  rw [ofWholeLine_of_not_branch rfl, ofLine_of_isAtomic rfl]
  rfl

/-- A line that was read as its act: the rest of the lines lists what the rest of the acts lists. -/
theorem run_ofLines_cons {l : Line} {ls : List Line} (hblank : l.form.isBlank = false)
    (hends : l.form.endsKnot = false)
    (hact : (ofWholeLine st (branchFirst (Line.section_ ls)) l).map plain = [a.plain])
    (h : (run (ofLines st (Line.section_ (l :: ls))) st).map Entry.plain =
      (run (a :: as) st).map Entry.plain) :
    (run (ofLines (a.next st) (Line.section_ ls)) (a.next st)).map Entry.plain =
        (run as (a.next st)).map Entry.plain ∧
      (ofLines st (Line.section_ (l :: ls))).map plain =
        a.plain :: (ofLines (a.next st) (Line.section_ ls)).map plain := by
  obtain ⟨x, hx⟩ := List.length_eq_one_iff.mp (by simpa using congrArg List.length hact)
  have hplain : x.plain = a.plain := by simpa [hx] using hact
  rw [Line.section_cons hends, ofLines_cons _ hblank, hx, after_cons, after_nil] at h ⊢
  obtain ⟨hnext, hcancel⟩ := run_cons_cancel hplain h
  rw [hnext] at hcancel ⊢
  exact ⟨hcancel, by rw [List.singleton_append, List.map_cons, hplain]⟩

/-- If the lines that were printed for some acts, with what stands behind them, list what the acts
list, then they were read as these acts: none of them ends the knot, and no block comment is open
behind them unless nothing follows. -/
theorem forced {inBlock : Bool} {behind : List String} (has : ∀ a ∈ as, a.Printable)
    (hlinked : Linked st as) (hbehind : Line.Behind behind)
    (hline : ∀ s ∈ behind, '\n' ∉ s.toList)
    (h : (run (ofLines st (Line.section_ (Line.readFrom inBlock (as.map text ++ behind)))) st).map
      Entry.plain = (run as st).map Entry.plain) :
    (ofLines st (Line.section_ (Line.readFrom inBlock (as.map text ++ behind)))).map plain =
        as.map plain ∧
      (∀ l ∈ Line.readFrom inBlock (as.map text), l.form.endsKnot = false) ∧
      (Line.opensBlock inBlock (as.map text) = true → behind = []) := by
  induction as generalizing st inBlock with
  | nil =>
    cases inBlock with
    | false =>
      refine ⟨?_, by simp [Line.readFrom], by simp⟩
      rw [List.map_nil, List.nil_append, ofLines_behind hbehind]
    | true =>
      cases behind with
      | nil => exact ⟨rfl, by simp [Line.readFrom], fun _ => rfl⟩
      | cons s ls =>
        rw [List.map_nil, List.nil_append, Line.readFrom_true_cons, Line.section_cons rfl] at h
        exact absurd h (not_read_of_nil rfl (ofWholeLine_insideComment s) rfl)
  | cons a as ih =>
    rw [List.forall_mem_cons] at has
    have hlines : ∀ s ∈ as.map text ++ behind, '\n' ∉ s.toList := by
      intro s hs
      rcases List.mem_append.mp hs with hs | hs
      · obtain ⟨b, hb, rfl⟩ := List.mem_map.mp hs
        exact (has.2 b hb).line
      · exact hline s hs
    -- once the line was read as its act, the rest follows by induction
    have hrest : ∀ {l : Line} {inBlock' : Bool}, l.form.isBlank = false → l.form.endsKnot = false →
        (ofWholeLine st (branchFirst (Line.section_ (Line.readFrom inBlock' (as.map text ++ behind))))
          l).map plain = [a.plain] →
        (run (ofLines st (Line.section_ (l :: Line.readFrom inBlock' (as.map text ++ behind))))
          st).map Entry.plain = (run (a :: as) st).map Entry.plain →
        (ofLines st (Line.section_ (l :: Line.readFrom inBlock' (as.map text ++ behind)))).map plain =
            (a :: as).map plain ∧
          (∀ l' ∈ l :: Line.readFrom inBlock' (as.map text), l'.form.endsKnot = false) ∧
          (Line.opensBlock inBlock' (as.map text) = true → behind = []) := by
      intro l inBlock' hblank hends hact hrun
      obtain ⟨hcancel, hacts⟩ := run_ofLines_cons hblank hends hact hrun
      obtain ⟨hrest, hmarkers, hopen⟩ := ih has.2 hlinked.2 hcancel
      exact ⟨by rw [hacts, hrest, List.map_cons], List.forall_mem_cons.mpr ⟨hends, hmarkers⟩, hopen⟩
    cases inBlock with
    | true =>
      rw [List.map_cons, List.cons_append, Line.readFrom_true_cons] at h ⊢
      rw [Line.readFrom_true_cons, Line.opensBlock_true_cons]
      refine hrest rfl rfl ?_ h
      have hrun := h
      rw [Line.section_cons rfl, ofLines_cons _ rfl, ofWholeLine_insideComment,
        List.singleton_append] at hrun
      obtain ⟨q, rfl, hq⟩ := exists_leaf_of_read hlinked (by simp) (by simp) hrun
      rw [ofWholeLine_insideComment, List.map_cons, List.map_nil, plain, plain, hq]
    | false =>
      rw [List.map_cons, List.cons_append, Line.readFrom_false_cons] at h ⊢
      rw [Line.readFrom_false_cons, Line.opensBlock_false_cons]
      cases hends : (Line.ofText a.text).form.endsKnot with
      | true =>
        -- nothing would be read for a leaf
        obtain ⟨q, rfl, hstitch, hdivert⟩ := has.1.exists_leaf (Or.inl hends)
        rw [Line.section_cons_of_endsKnot hends, ofLines, run_cons, emit_leaf hstitch,
          List.singleton_append, List.map_cons] at h
        exact absurd h.symm (not_listed_of_nil hdivert)
      | false =>
        cases hblank : (Line.ofText a.text).form.isBlank with
        | true =>
          -- the blank line of a leaf would be skipped, and no other line lists a blank leaf first
          have hform : (Line.ofText a.text).form = .blank := LineForm.isBlank_iff.mp hblank
          obtain ⟨q, rfl, hq⟩ := has.1.isBlank hform
          obtain ⟨q', hq', hstitch, -⟩ := has.1.exists_leaf (Or.inr hblank)
          obtain rfl : q = q' := by simpa using hq'
          rw [Line.section_cons hends, ofLines_cons_of_blank _ hblank, hform, run_cons,
            emit_leaf hstitch, List.singleton_append, List.map_cons] at h
          have hhead := congrArg List.head? h
          rw [List.head?_cons] at hhead
          exact absurd (Leaf.isBlank_plain.mpr hq) (not_blank_of_plain_head hlines hhead)
        | false =>
          refine hrest hblank hends ?_ h
          have hrun := h
          rw [Line.section_cons hends, ofLines_cons _ hblank] at hrun
          exact forced_line has.1 hlinked hrun

end Act

end StoryScript
