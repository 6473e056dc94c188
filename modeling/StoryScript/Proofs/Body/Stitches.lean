import StoryScript.Proofs.Body.RoundTrip
import StoryScript.Proofs.Line.Section
import StoryScript.Proofs.Story.Stitches

/-!
# The stitches of a body

Which stitches a knot has can be read off its lines (`Body.stitchesIn_read`): they are the ones among the
acts of the lines (`Line.stitchesIn`), since finishing containers lists diverts alone and no stitch of a
tree that was read stands below its root.

A stitch mostly stands on a line of its own, but it may also stand behind the label of a branch. Where no
line hides one there (`Line.HidesNoStitch`), the stitches are simply the stitch headers
(`Line.stitchesIn_of_hidesNoStitch`). In general one has to know which containers are open, for what is
behind a label is read inside a conditional only. Of a line that takes no more than its bare form
(`LineForm.bare`), so lines of the same bare forms have the same stitches (`Line.stitchesIn_congr`).
-/

namespace StoryScript

/-! ### Stitches among nodes and acts -/

/-- The name of an entry that is a stitch. -/
def Entry.stitchName? (e : Entry) : Option String :=
  match e.piece with
  | .leaf (.stitch name) => some name
  | _ => none

/-- The name of the stitch that an act adds. -/
def Act.stitchName? : Act → Option String
  | leaf (.stitch name) => some name
  | _ => none

/-- The name of the stitch that a line begins. -/
def LineForm.stitchName? : LineForm → Option String
  | stitchHeader name => some name
  | _ => none

@[simp] theorem Entry.filterMap_stitchName?_own (k : Nat) (d : Option String) :
    (own k d).filterMap stitchName? = [] := by
  cases d <;> rfl

theorem Item.stitchesIn_eq_nil {items : List Item} (h : Item.WellShapedIn false items) :
    Item.stitchesIn items = [] := by
  refine List.filterMap_eq_nil_iff.mpr fun i hi => ?_
  by_contra hsome
  have his : i.isStitch = true := Option.isSome_iff_ne_none.mpr hsome
  exact absurd (((Item.wellShapedIn_iff.mp h).2 i hi).2 his) (by decide)

mutual

theorem Item.stitches_outline {k : Nat} : ∀ {i : Item}, i.WellShaped →
    (i.outline k).filterMap Entry.stitchName? = i.stitchName?.toList
  | .leaf m l, _ => by cases l <;> rfl
  | .choice m h c, hshape => by
    have hnone : Entry.stitchName? ⟨k, h.piece⟩ = none := rfl
    rw [Item.outline, List.filterMap_cons_none hnone, List.filterMap_append,
      Item.stitches_outlineIn hshape.2, Item.stitchesIn_eq_nil hshape.2,
      Entry.filterMap_stitchName?_own]
    rfl
  | .conditional m bs, hshape => by
    have hnone : Entry.stitchName? ⟨k, .conditional⟩ = none := rfl
    rw [Item.outline, List.filterMap_cons_none hnone, Branch.stitches_outlineIn hshape.2]
    rfl

theorem Branch.stitches_outline {k : Nat} : ∀ {b : Branch}, b.WellShaped →
    (b.outline k).filterMap Entry.stitchName? = []
  | .mk m g d c, hshape => by
    have hnone : Entry.stitchName? ⟨k + 1, .branch g⟩ = none := rfl
    rw [Branch.outline, List.filterMap_cons_none hnone, List.filterMap_append,
      Item.stitches_outlineIn hshape.2.2, Item.stitchesIn_eq_nil hshape.2.2,
      Entry.filterMap_stitchName?_own]
    rfl

/-- In a tree of the shape of one that was read, the stitches are those at the root. -/
theorem Item.stitches_outlineIn {k : Nat} : ∀ {r : Bool} {is : List Item}, Item.WellShapedIn r is →
    (Item.outlineIn k is).filterMap Entry.stitchName? = Item.stitchesIn is
  | _, [], _ => rfl
  | _, i :: is, hshape => by
    rw [Item.outlineIn, List.filterMap_append, Item.stitches_outline hshape.1,
      Item.stitches_outlineIn hshape.2.2.2, Item.stitchesIn_cons]

theorem Branch.stitches_outlineIn {k : Nat} : ∀ {bs : List Branch}, Branch.WellShapedIn bs →
    (Branch.outlineIn k bs).filterMap Entry.stitchName? = []
  | [], _ => rfl
  | b :: bs, hshape => by
    rw [Branch.outlineIn, List.filterMap_append, Branch.stitches_outline hshape.1,
      Branch.stitches_outlineIn hshape.2, List.append_nil]

end

/-- Trees that are equal have the same stitches. -/
theorem Item.stitchesIn_of_sameList {is js : List Item} (h : Item.sameList is js = true) :
    Item.stitchesIn is = Item.stitchesIn js := by
  induction is generalizing js with
  | nil =>
    cases js with
    | nil => rfl
    | cons j js => simp [Item.sameList] at h
  | cons i is ih =>
    cases js with
    | nil => simp [Item.sameList] at h
    | cons j js =>
      rw [Item.sameList, Bool.and_eq_true] at h
      have hname : i.stitchName? = j.stitchName? := by
        have hsame := h.1
        cases i with
        | leaf m a =>
          cases j with
          | leaf m' b => cases a <;> cases b <;> simp_all [Item.same, Leaf.same, Item.stitchName?]
          | _ => simp [Item.same] at hsame
        | _ => cases j <;> simp_all [Item.same, Item.stitchName?]
      rw [Item.stitchesIn_cons, Item.stitchesIn_cons, hname, ih h.2]

namespace Act

theorem stitches_flush (p : Open → Bool) (st : List Open) :
    (Open.flush p st).filterMap Entry.stitchName? = [] := by
  refine List.filterMap_eq_nil_iff.mpr fun e he => ?_
  obtain ⟨-, o, -, t, -, hpiece⟩ := Open.mem_flush he
  rw [Entry.stitchName?, hpiece]

theorem stitches_emit (a : Act) (st : List Open) :
    (a.emit st).filterMap Entry.stitchName? = a.stitchName?.toList := by
  rw [emit, List.filterMap_append, stitches_flush, List.nil_append]
  cases a with
  | leaf l => cases l <;> rfl
  | _ => rfl

/-- A run lists the stitches of its acts. -/
theorem stitches_run (as : List Act) (st : List Open) :
    (run as st).filterMap Entry.stitchName? = as.filterMap stitchName? := by
  induction as generalizing st with
  | nil => exact stitches_flush _ st
  | cons a as ih =>
    rw [run, List.filterMap_append, stitches_emit, ih]
    cases h : a.stitchName? with
    | none => simp [h]
    | some name => simp [h]

/-! ### Stitches among lines -/

theorem stitchName?_leaves (l : Line) : (l.leaves.map leaf).filterMap stitchName? = [] := by
  unfold Line.leaves
  split <;> rfl

/-- Of the acts of one line only a stitch header makes a stitch. -/
theorem stitches_ofLine (st : List Open) (branchFollows : Bool) (l : Line) :
    (ofLine st branchFollows l).filterMap stitchName? = l.form.stitchName?.toList := by
  have hacts := lineActs st branchFollows l
  generalize ofLine st branchFollows l = as at hacts
  cases hacts with
  | leaves hstitch =>
    rw [stitchName?_leaves]
    cases hform : l.form with
    | stitchHeader name => exact absurd hform (hstitch name)
    | _ => rfl
  | stitch hform | choice hform | keptChoice hform | opening hform | keptOpening hform | branch hform
  | closing hform =>
    rw [hform]
    rfl

theorem stitches_ofChain (st : List Open) (branchFollows : Bool) (ls : List Line) :
    (ofChain st branchFollows ls).filterMap stitchName? = ls.filterMap (·.form.stitchName?) := by
  induction ls generalizing st with
  | nil => rfl
  | cons l ls ih =>
    rw [ofChain, List.filterMap_append, stitches_ofLine, ih]
    cases h : l.form.stitchName? with
    | none => simp [h]
    | some name => simp [h]

end Act

namespace Line

/-- The stitches that the lines of a body begin. -/
def stitchesIn (ls : List Line) : List String := (Act.ofLines [] ls).filterMap Act.stitchName?

theorem leaves_of_isComment {l : Line} (h : l.form.isComment = true) :
    l.leaves = [.raw l.text .comment] := by
  obtain ⟨text, form⟩ := l
  cases form <;> first | rfl | exact absurd h Bool.false_ne_true

/-- Comments and blank lines in front of a body make no stitch, and they open nothing. -/
theorem stitchesIn_cons_of_isComment {l : Line} (ls : List Line)
    (h : l.form.isBlank = true ∨ l.form.isComment = true) : stitchesIn (l :: ls) = stitchesIn ls := by
  rw [stitchesIn, Act.ofLines]
  rcases h with h | h
  · rw [if_pos h, stitchesIn]
  · have hatomic := LineForm.isAtomic_of_isComment h
    obtain ⟨hbranch, hblank⟩ := LineForm.of_isAtomic hatomic
    rw [if_neg (by simp [hblank]), Act.ofWholeLine_of_not_branch hbranch,
      Act.ofLine_of_isAtomic hatomic, leaves_of_isComment h]
    rfl

theorem branchFirst_append_of_isBlank (ls : List Line) {bs : List Line}
    (h : ∀ l ∈ bs, l.form.isBlank = true) : branchFirst (ls ++ bs) = branchFirst ls := by
  unfold branchFirst
  have hbs : bs.find? (fun l => !l.form.isBlank) = none :=
    List.find?_eq_none.mpr fun l hl => by simp [h l hl]
  rw [List.find?_append, hbs, Option.or_none]

theorem ofLines_append_of_isBlank (st : List Open) (ls : List Line) {bs : List Line}
    (h : ∀ l ∈ bs, l.form.isBlank = true) : Act.ofLines st (ls ++ bs) = Act.ofLines st ls := by
  induction ls generalizing st with
  | nil =>
    induction bs with
    | nil => rfl
    | cons b bs ih =>
      rw [List.forall_mem_cons] at h
      have hcons : Act.ofLines st (b :: bs) = Act.ofLines st bs := by simp [Act.ofLines, h.1]
      rw [List.nil_append, hcons]
      exact ih h.2
  | cons l ls ih =>
    rw [List.cons_append, Act.ofLines, Act.ofLines, branchFirst_append_of_isBlank ls h]
    simp only [ih]

/-- Blank lines behind a body make no stitch. -/
theorem stitchesIn_append_of_isBlank (ls : List Line) {bs : List Line}
    (h : ∀ l ∈ bs, l.form.isBlank = true) : stitchesIn (ls ++ bs) = stitchesIn ls := by
  rw [stitchesIn, ofLines_append_of_isBlank [] ls h, stitchesIn]

/-- A position annotation in front of a body is no part of what the stitches are read from. -/
theorem stitchesIn_content (ls : List Line) : stitchesIn (Body.content ls) = stitchesIn ls := by
  have hdrop : ∀ {p : Position} {n : Nat}, leadingPosition? ls = some (p, n) →
      stitchesIn (ls.drop n) = stitchesIn ls := by
    induction ls with
    | nil => simp [leadingPosition?]
    | cons l ls ih =>
      intro p n h
      cases hform : l.form with
      | blank =>
        simp only [leadingPosition?, hform, Option.map_eq_some_iff, Prod.mk.injEq, Prod.exists] at h
        obtain ⟨p', m, hm, -, rfl⟩ := h
        rw [stitchesIn_cons_of_isComment ls (Or.inl (by rw [hform]; rfl)), List.drop_succ_cons]
        exact ih hm
      | position place =>
        simp only [leadingPosition?, hform, Option.some.injEq, Prod.mk.injEq] at h
        obtain ⟨-, rfl⟩ := h
        rw [stitchesIn_cons_of_isComment ls (Or.inr (by rw [hform]; rfl)), List.drop_succ_cons,
          List.drop_zero]
      | _ => simp [leadingPosition?, hform] at h
  unfold Body.content Body.skipped
  cases h : leadingPosition? ls with
  | none => rfl
  | some x => exact hdrop h

end Line

/-- The stitches of a tree that was read are those of its lines. -/
theorem Body.stitchesIn_read (supply : Nat) (texts : List String) :
    Item.stitchesIn (Body.read supply texts).1.items = Line.stitchesIn (Line.ofTexts texts) := by
  rw [← Item.stitches_outlineIn (k := 0) (Body.wellShapedIn_read supply texts), Body.outlineIn_read,
    Act.stitches_run]
  exact Line.stitchesIn_content (Line.ofTexts texts)

namespace Line

/-! ### Stitches on lines of their own -/

/-- No stitch stands on the line behind the label of a branch. -/
def HidesNoStitch (l : Line) : Prop := ∀ m ∈ l.chain.tail, m.form.stitchName? = none

/-- Where no line hides a stitch, the stitches are the stitch headers. -/
theorem stitchesIn_of_hidesNoStitch {ls : List Line} (h : ∀ l ∈ ls, l.HidesNoStitch) :
    stitchesIn ls = ls.filterMap (·.form.stitchName?) := by
  have hlines : ∀ st, (Act.ofLines st ls).filterMap Act.stitchName? =
      ls.filterMap (·.form.stitchName?) := by
    induction ls with
    | nil => exact fun _ => rfl
    | cons l ls ih =>
      intro st
      rw [List.forall_mem_cons] at h
      have hcons : (l :: ls).filterMap (·.form.stitchName?) =
          l.form.stitchName?.toList ++ ls.filterMap (·.form.stitchName?) := by
        cases hname : l.form.stitchName? with
        | none => simp [hname]
        | some name => simp [hname]
      rw [hcons, Act.ofLines]
      split
      · next hblank =>
        have hnone : l.form.stitchName? = none := by
          rw [LineForm.isBlank_iff.mp hblank]
          rfl
        rw [ih h.2, hnone]
        rfl
      · rw [List.filterMap_append, ih h.2, Act.ofWholeLine]
        congr 1
        split
        · exact Act.stitches_ofLine _ _ _
        -- the line is the first of its chain, and behind it no stitch is hidden
        · obtain ⟨ms, hms⟩ := l.exists_chain
          have htail := h.1
          rw [HidesNoStitch, hms, List.tail_cons] at htail
          rw [Act.stitches_ofChain, hms]
          cases hname : l.form.stitchName? with
          | none => simpa [hname] using htail
          | some name => simpa [hname] using htail
  exact hlines []

end Line

/-! ### Lines of the same bare form -/

/-- A form without everything that neither ends a knot nor concerns containers and stitches. -/
def LineForm.bare : LineForm → LineForm
  | .blank => .blank
  | .knotHeader name => .knotHeader name
  | .stitchHeader name => .stitchHeader name
  | .regionStart _ => .regionStart ""
  | .regionEnd => .regionEnd
  | .blockComment staysOpen => .blockComment staysOpen
  | .choice depth _ => .choice depth default
  | .conditionalOpen => .conditionalOpen
  | .conditionalClose => .conditionalClose
  | .branch _ _ => .branch default ""
  | _ => .raw

namespace LineForm

variable {f : LineForm}

@[simp] theorem isBlank_bare : f.bare.isBlank = f.isBlank := by cases f <;> rfl

@[simp] theorem isBranch_bare : f.bare.isBranch = f.isBranch := by cases f <;> rfl

@[simp] theorem endsKnot_bare : f.bare.endsKnot = f.endsKnot := by cases f <;> rfl

@[simp] theorem stitchName?_bare : f.bare.stitchName? = f.stitchName? := by cases f <;> rfl

theorem bare_eq_knotHeader_iff {name : String} : f.bare = .knotHeader name ↔ f = .knotHeader name := by
  cases f <;> first | exact Iff.rfl | exact iff_of_false nofun nofun

theorem bare_eq_blockComment_iff {staysOpen : Bool} :
    f.bare = .blockComment staysOpen ↔ f = .blockComment staysOpen := by
  cases f <;> first | exact Iff.rfl | exact iff_of_false nofun nofun

end LineForm

/-- A container without its divert. -/
def Open.bare : Open → Open
  | choice depth _ => choice depth none
  | o => o

namespace Act

/-- The bare containers that are open behind a line of a bare form. -/
def afterBare (branchFollows : Bool) (st : List Open) : LineForm → List Open
  | .stitchHeader _ => []
  | .choice depth _ =>
    let rest := st.dropWhile (Open.endsAtChoice depth)
    if rest.length < nestingLimit then .choice depth none :: rest else st
  | .conditionalOpen =>
    if branchFollows && st.length < nestingLimit then .conditional :: st else st
  | .branch _ _ => if inConditional st then .branch :: st.dropWhile Open.inside else st
  | .conditionalClose => if inConditional st then (st.dropWhile Open.inside).tail else st
  | _ => st

theorem after_leaves (st : List Open) (l : Line) : after st (l.leaves.map leaf) = st := by
  unfold Line.leaves
  split <;> simp [after_cons, next_leaf]

theorem map_bare_dropWhile {p : Open → Bool} (hp : ∀ o : Open, p o.bare = p o) (st : List Open) :
    (st.dropWhile p).map Open.bare = (st.map Open.bare).dropWhile p := by
  rw [List.dropWhile_map]
  congr 2
  funext o
  exact (hp o).symm

theorem inConditional_map_bare (st : List Open) :
    inConditional (st.map Open.bare) = inConditional st := by
  induction st with
  | nil => rfl
  | cons o st ih =>
    simp only [inConditional] at ih ⊢
    rw [List.map_cons, List.contains_cons, List.contains_cons, ih]
    cases o <;> rfl

/-- What a line does to the bare containers shows in its bare form. -/
theorem map_bare_after (st : List Open) (branchFollows : Bool) (l : Line) :
    (after st (ofLine st branchFollows l)).map Open.bare =
      afterBare branchFollows (st.map Open.bare) l.form.bare := by
  have hinside : ∀ o : Open, Open.inside o.bare = Open.inside o := by rintro (_ | _ | _) <;> rfl
  have hends : ∀ depth (o : Open), Open.endsAtChoice depth o.bare = Open.endsAtChoice depth o := by
    rintro depth (_ | _ | _) <;> rfl
  have hleaves := after_leaves st l
  -- the acts themselves differ with the texts, so the cases are those of the form and not of the acts
  unfold ofLine
  cases hform : l.form with
  | stitchHeader name =>
    have hall : st.dropWhile (fun _ => true) = [] := by simp
    simp [LineForm.bare, afterBare, next, finishes, push, hall]
  | choice depth head =>
    simp only [LineForm.bare, afterBare, ← map_bare_dropWhile (hends depth), List.length_map]
    split
    · simp [next, finishes, push, Open.bare]
    · simp [kept, next_leaf]
  | conditionalOpen =>
    simp only [LineForm.bare, afterBare, List.length_map]
    cases branchFollows with
    | false => simpa using congrArg (List.map Open.bare) hleaves
    | true =>
      by_cases hroom : st.length < nestingLimit
      · simp [hroom, next, finishes, push, Open.bare]
      · simp [hroom, kept, next_leaf]
  | branch guard rest =>
    simp only [LineForm.bare, afterBare, inConditional_map_bare, ← map_bare_dropWhile hinside]
    split
    · simp [next, finishes, push, Open.bare]
    · rw [hleaves]
  | conditionalClose =>
    simp only [LineForm.bare, afterBare, inConditional_map_bare, ← map_bare_dropWhile hinside]
    split
    · simp [next, finishes, push, List.map_tail]
    · rw [hleaves]
  | _ => exact congrArg (List.map Open.bare) hleaves

variable {st st' : List Open}

theorem ofChain_congr (hst : st.map Open.bare = st'.map Open.bare) (branchFollows : Bool)
    {ls ms : List Line} (h : ls.map (·.form.bare) = ms.map (·.form.bare)) :
    (after st (ofChain st branchFollows ls)).map Open.bare =
      (after st' (ofChain st' branchFollows ms)).map Open.bare := by
  induction ls generalizing st st' ms with
  | nil =>
    rw [List.map_nil, eq_comm, List.map_eq_nil_iff] at h
    rw [h]
    exact hst
  | cons l ls ih =>
    cases ms with
    | nil => simp at h
    | cons m ms =>
      rw [List.map_cons, List.map_cons, List.cons.injEq] at h
      rw [ofChain, ofChain, after_append, after_append]
      refine ih ?_ h.2
      rw [map_bare_after, map_bare_after, hst, h.1]

end Act

namespace Line

/-- Lines of the same bare form, and so are the lines read from what is behind a label. -/
def Alike (l m : Line) : Prop := l.chain.map (·.form.bare) = m.chain.map (·.form.bare)

theorem Alike.bare {l m : Line} (h : l.Alike m) : l.form.bare = m.form.bare := by
  obtain ⟨ls, hls⟩ := l.exists_chain
  obtain ⟨ms, hms⟩ := m.exists_chain
  rw [Alike, hls, hms, List.map_cons, List.map_cons, List.cons.injEq] at h
  exact h.1

theorem branchFirst_congr {ls ms : List Line} (h : List.Forall₂ Alike ls ms) :
    branchFirst ls = branchFirst ms := by
  induction h with
  | nil => rfl
  | @cons l m ls ms hlm _ ih =>
    have hblank : l.form.isBlank = m.form.isBlank := by
      rw [← LineForm.isBlank_bare, hlm.bare, LineForm.isBlank_bare]
    cases hm : m.form.isBlank with
    | true => rw [BodyState.branchFirst_cons_of_blank (hblank.trans hm), BodyState.branchFirst_cons_of_blank hm, ih]
    | false =>
      rw [BodyState.branchFirst_cons_of_not_blank (hblank.trans hm), BodyState.branchFirst_cons_of_not_blank hm,
        ← LineForm.isBranch_bare, hlm.bare, LineForm.isBranch_bare]

/-- Lines that are alike begin the same stitches. -/
theorem stitchesIn_congr {ls ms : List Line} (h : List.Forall₂ Alike ls ms) :
    stitchesIn ls = stitchesIn ms := by
  have hlines : ∀ {st st' : List Open}, st.map Open.bare = st'.map Open.bare →
      (Act.ofLines st ls).filterMap Act.stitchName? =
        (Act.ofLines st' ms).filterMap Act.stitchName? := by
    induction h with
    | nil => exact fun _ => rfl
    | @cons l m ls ms hlm hrest ih =>
      intro st st' hst
      have hbare := hlm.bare
      have hblank : l.form.isBlank = m.form.isBlank := by
        rw [← LineForm.isBlank_bare, hbare, LineForm.isBlank_bare]
      have hname : l.form.stitchName? = m.form.stitchName? := by
        rw [← LineForm.stitchName?_bare, hbare, LineForm.stitchName?_bare]
      have houtside : (l.form.isBranch && !Act.inConditional st) =
          (m.form.isBranch && !Act.inConditional st') := by
        rw [← LineForm.isBranch_bare, hbare, LineForm.isBranch_bare, ← Act.inConditional_map_bare,
          hst, Act.inConditional_map_bare]
      rw [Act.ofLines, Act.ofLines, hblank, branchFirst_congr hrest]
      split
      · exact ih hst
      · -- both lines are read alone, or both with what is behind their labels
        rw [List.filterMap_append, List.filterMap_append, Act.ofWholeLine, Act.ofWholeLine, houtside]
        split
        · rw [Act.stitches_ofLine, Act.stitches_ofLine, hname]
          congr 1
          refine ih ?_
          rw [Act.map_bare_after, Act.map_bare_after, hst, hbare]
        · have hchain : l.chain.filterMap (·.form.stitchName?) =
              m.chain.filterMap (·.form.stitchName?) := by
            have hmap := congrArg (List.filterMap LineForm.stitchName?) hlm
            rw [List.filterMap_map, List.filterMap_map] at hmap
            simpa [Function.comp_def] using hmap
          rw [Act.stitches_ofChain, Act.stitches_ofChain, hchain]
          congr 1
          exact ih (Act.ofChain_congr hst _ hlm)
  exact hlines rfl

end Line

end StoryScript
