import StoryScript.Proofs.Body.Printing
import StoryScript.Proofs.Body.Reading

/-!
# Reading what was printed

`Body.sameList_read_renderList` says that the canonical text of a content tree is read back as that
tree. Three things are asked of the tree: it has the shape of a tree that was read, nothing in it
opens at the nesting limit, and every single line that is printed for it is read as what it was
printed for (`Act.ReadsBack`). Everything that lies between the lines follows: which container a line
belongs to, which containers it finishes, and where the divert of a container ends up.

The proof compares acts. Lines that are read back stand for the acts they were printed for
(`Act.ofLines_of_readsBack`), these acts list the outline of the tree (`Item.run_actsIn`), and a tree
that is read has the outline of the acts of its lines (`Body.outlineIn_read`).
-/

namespace StoryScript

/-- Forms of lines that add leaves and neither open nor finish a container. -/
def LineForm.isAtomic : LineForm → Bool
  | blank | stitchHeader _ | choice .. | conditionalOpen | conditionalClose | branch .. => false
  | _ => true

theorem LineForm.of_isAtomic {f : LineForm} (h : f.isAtomic = true) :
    f.isBranch = false ∧ f.isBlank = false := by
  cases f <;> first | exact ⟨rfl, rfl⟩ | exact absurd h Bool.false_ne_true

theorem LineForm.isAtomic_of_isComment {f : LineForm} (h : f.isComment = true) : f.isAtomic = true := by
  cases f <;> first | rfl | exact absurd h Bool.false_ne_true

/-- Pieces that are refused where there is no room. -/
def Piece.needsRoom : Piece → Bool
  | choice .. | conditional => true
  | _ => false

namespace Act

/-- The line of an act is read as what it was printed for. A leaf may come back with another
spelling of its extension. -/
def ReadsBack (a : Act) : Prop :=
  match a with
  | leaf (.stitch name) => (Line.ofText a.text).form = .stitchHeader name
  | leaf l => (Line.ofText a.text).form.isAtomic = true ∧
      (Line.ofText a.text).form ≠ .blockComment true ∧
      ∃ l', (Line.ofText a.text).leaves = [l'] ∧ l'.same l = true
  | choice depth head => (Line.ofText a.text).form = .choice depth head
  | branch guard => (Line.ofText a.text).form = .branch guard ""
  | opening => True
  | closing => True

/-- An act without what structural equality passes over. -/
def plain : Act → Act
  | leaf l => leaf l.plain
  | a => a

theorem finishes_plain (a : Act) : a.plain.finishes = a.finishes := by
  cases a with
  | leaf l => cases l <;> rfl
  | _ => rfl

theorem map_plain_flush (p : Open → Bool) (st : List Open) :
    (Open.flush p st).map Entry.plain = Open.flush p st := by
  induction st with
  | nil => rfl
  | cons o os ih =>
    have hown : (o.own (os.length + 1)).map Entry.plain = o.own (os.length + 1) := by
      cases o with
      | choice depth d => exact Entry.map_plain_own _ d
      | conditional => rfl
      | branch => rfl
    unfold Open.flush
    split
    · rw [List.map_append, hown, ih]
    · rfl

theorem emit_plain (a : Act) (st : List Open) :
    a.plain.emit st = (a.emit st).map Entry.plain := by
  rw [emit, emit, finishes_plain, List.map_append, map_plain_flush]
  cases a <;> simp [plain, piece?, Entry.plain, Piece.plain, ChoiceHead.piece]

theorem next_plain (a : Act) (st : List Open) : a.plain.next st = a.next st := by
  rw [next, next, finishes_plain]
  cases a <;> rfl

/-- Acts that agree but for what structural equality passes over list entries that do. -/
theorem run_congr {as bs : List Act} (h : as.map plain = bs.map plain) (st : List Open) :
    (run as st).map Entry.plain = (run bs st).map Entry.plain := by
  have hplain : ∀ (as : List Act) st, run (as.map plain) st = (run as st).map Entry.plain := by
    intro as
    induction as with
    | nil => exact fun st => (map_plain_flush _ st).symm
    | cons a as ih =>
      intro st
      rw [List.map_cons, run, run, emit_plain, next_plain, ih, List.map_append]
  rw [← hplain as, ← hplain bs, h]

theorem after_congr {as bs : List Act} (h : as.map plain = bs.map plain) (st : List Open) :
    after st as = after st bs := by
  have hplain : ∀ (as : List Act) st, after st (as.map plain) = after st as := by
    intro as
    induction as with
    | nil => exact fun _ => rfl
    | cons a as ih =>
      intro st
      rw [List.map_cons, after_cons, after_cons, next_plain, ih]
  rw [← hplain as, ← hplain bs, h]

/-! ### Lines that are read back -/

theorem form_opening : (Line.ofText opening.text).form = .conditionalOpen := by decide

theorem form_closing : (Line.ofText closing.text).form = .conditionalClose := by decide

/-- A leaf that is no stitch is read back from an atomic line. -/
theorem readsBack_leaf {l : Leaf} (hl : ∀ name, l ≠ .stitch name) :
    (leaf l).ReadsBack ↔ (Line.ofText l.render).form.isAtomic = true ∧
      (Line.ofText l.render).form ≠ .blockComment true ∧
      ∃ l', (Line.ofText l.render).leaves = [l'] ∧ l'.same l = true := by
  cases l with
  | stitch name => exact absurd rfl (hl name)
  | _ => exact Iff.rfl

/-- The line of an act that is read back opens no block comment and is not blank. -/
theorem ReadsBack.form_ne {a : Act} (h : a.ReadsBack) :
    (Line.ofText a.text).form ≠ .blockComment true ∧ (Line.ofText a.text).form.isBlank = false := by
  cases a with
  | leaf l =>
    rcases l.stitch_cases with ⟨name, rfl⟩ | hl
    · have hform : (Line.ofText (leaf (.stitch name)).text).form = .stitchHeader name := h
      rw [hform]
      exact ⟨by simp, rfl⟩
    · obtain ⟨hatomic, hcomment, -⟩ := (readsBack_leaf hl).mp h
      exact ⟨hcomment, (LineForm.of_isAtomic hatomic).2⟩
  | choice depth head =>
    have hform : (Line.ofText (choice depth head).text).form = .choice depth head := h
    rw [hform]
    exact ⟨by simp, rfl⟩
  | branch guard =>
    have hform : (Line.ofText (branch guard).text).form = .branch guard "" := h
    rw [hform]
    exact ⟨by simp, rfl⟩
  | opening =>
    rw [form_opening]
    exact ⟨by simp, rfl⟩
  | closing =>
    rw [form_closing]
    exact ⟨by simp, rfl⟩

theorem ReadsBack.not_blockComment {a : Act} (h : a.ReadsBack) :
    (Line.ofText a.text).form ≠ .blockComment true := h.form_ne.1

theorem ReadsBack.not_blank {a : Act} (h : a.ReadsBack) :
    (Line.ofText a.text).form.isBlank = false := h.form_ne.2

/-- Lines none of which opens a block comment are read one by one. -/
theorem readFrom_of_readsBack {as : List Act} (h : ∀ a ∈ as, a.ReadsBack) :
    Line.readFrom false (as.map text) = as.map fun a => Line.ofText a.text := by
  induction as with
  | nil => rfl
  | cons a as ih =>
    rw [List.forall_mem_cons] at h
    rw [List.map_cons, Line.readFrom_false_cons, decide_eq_false h.1.not_blockComment, ih h.2,
      List.map_cons]

/-- A line that is no branch is read alone. -/
theorem ofWholeLine_of_not_branch {st : List Open} {branchFollows : Bool} {l : Line}
    (h : l.form.isBranch = false) : ofWholeLine st branchFollows l = ofLine st branchFollows l := by
  have hno : ∀ guard rest, l.form ≠ .branch guard rest := by
    intro guard rest hform
    simp [hform, LineForm.isBranch] at h
  rw [ofWholeLine, if_neg (by simp [h]), Line.chain_of_not_branch hno, ofChain, ofChain,
    List.append_nil]

/-- Atomic lines stand for their leaves. -/
theorem ofLine_of_isAtomic {st : List Open} {branchFollows : Bool} {l : Line}
    (h : l.form.isAtomic = true) : ofLine st branchFollows l = l.leaves.map leaf := by
  obtain ⟨text, form⟩ := l
  cases form <;> first | rfl | exact absurd h Bool.false_ne_true

theorem inConditional_iff {st : List Open} : inConditional st = true ↔ .conditional ∈ st := by
  rw [inConditional, List.contains_iff_mem]

/-- A branch line with nothing behind its colon, inside a conditional. -/
theorem ofWholeLine_of_branch {st : List Open} {branchFollows : Bool} {l : Line} {guard : Guard}
    (h : l.form = .branch guard "") (hin : .conditional ∈ st) :
    ofWholeLine st branchFollows l = [branch guard] := by
  have hline : ofLine st branchFollows l = [branch guard] := by
    simp [ofLine, h, inConditional_iff.mpr hin]
  rw [ofWholeLine, if_neg (by simp [inConditional_iff.mpr hin]), Line.chain_of_branch h,
    if_pos rfl, ofChain, ofChain, hline, List.append_nil]

/-- The entry of the node that an act adds. -/
theorem mem_emit_of_piece {a : Act} {p : Piece} (h : a.piece? = some p) (st : List Open) :
    ⟨(st.dropWhile a.finishes).length, p⟩ ∈ a.emit st := by
  simp [emit, h]

/-- A line that is read back stands for its act, where the act is allowed. -/
theorem ofWholeLine_of_readsBack {a : Act} {as : List Act} {st : List Open}
    (h : ∀ b ∈ a :: as, b.ReadsBack) (hlinked : Linked st (a :: as))
    (hroom : ∀ e ∈ a.emit st, e.piece.needsRoom = true → e.depth < nestingLimit) :
    (ofWholeLine st (branchFirst (as.map fun a => Line.ofText a.text))
      (Line.ofText a.text)).map plain = [a.plain] := by
  have ha := h a List.mem_cons_self
  have hlink := hlinked.1
  cases a with
  | leaf l =>
    rcases l.stitch_cases with ⟨name, rfl⟩ | hl
    · have hform : (Line.ofText (leaf (.stitch name)).text).form = .stitchHeader name := ha
      rw [ofWholeLine_of_not_branch (by rw [hform]; rfl), ofLine, hform]
      rfl
    · obtain ⟨hatomic, -, l', hleaves, hsame⟩ :=
        (readsBack_leaf hl).mp ha
      rw [text_leaf, ofWholeLine_of_not_branch (LineForm.of_isAtomic hatomic).1,
        ofLine_of_isAtomic hatomic, hleaves]
      simp [plain, (Leaf.same_iff.mp hsame).2]
  | choice depth head =>
    have hform : (Line.ofText (choice depth head).text).form = .choice depth head := ha
    have hlt := hroom _ (mem_emit_of_piece rfl st) rfl
    have hlt' : (st.dropWhile (Open.endsAtChoice depth)).length < nestingLimit := hlt
    rw [ofWholeLine_of_not_branch (by rw [hform]; rfl), ofLine, hform]
    simp [hlt']
  | opening =>
    obtain ⟨guard, rest, rfl⟩ := hlink
    have hbranch : (Line.ofText (branch guard).text).form = .branch guard "" :=
      h (branch guard) (by simp)
    -- the branch that follows is written on the next line, so the brace opens a conditional
    have hfollows : branchFirst ((branch guard :: rest).map fun a => Line.ofText a.text) = true := by
      rw [List.map_cons, BodyState.branchFirst_cons_of_not_blank (by rw [hbranch]; rfl), hbranch]
      rfl
    have hlt := hroom _ (mem_emit_of_piece rfl st) rfl
    have hlt' : st.length < nestingLimit := by simpa [finishes] using hlt
    rw [hfollows, ofWholeLine_of_not_branch (by rw [form_opening]; rfl), ofLine, form_opening]
    simp [hlt']
  | branch guard =>
    have hform : (Line.ofText (branch guard).text).form = .branch guard "" := ha
    rw [ofWholeLine_of_branch hform hlink]
    rfl
  | closing =>
    rw [ofWholeLine_of_not_branch (by rw [form_closing]; rfl), ofLine, form_closing]
    simp [inConditional_iff.mpr hlink]

/-- Lines that are read back stand for their acts. -/
theorem ofLines_of_readsBack {as : List Act} {st : List Open} (h : ∀ a ∈ as, a.ReadsBack)
    (hlinked : Linked st as)
    (hroom : ∀ e ∈ run as st, e.piece.needsRoom = true → e.depth < nestingLimit) :
    (ofLines st (as.map fun a => Line.ofText a.text)).map plain = as.map plain := by
  induction as generalizing st with
  | nil => rfl
  | cons a as ih =>
    have hline := ofWholeLine_of_readsBack h hlinked fun e he =>
      hroom e (List.mem_append_left _ he)
    have hafter := after_congr (hline.trans (show [a.plain] = [a].map plain from rfl)) st
    rw [List.forall_mem_cons] at h
    have hrest := ih h.2 hlinked.2 fun e he => hroom e (List.mem_append_right _ he)
    rw [List.map_cons, ofLines, if_neg (by simp [h.1.not_blank]), List.map_append, hline, hafter,
      List.map_cons]
    rw [after_cons, after_nil, hrest]
    rfl

/-- Acts without numbers that equal nothing list entries without them. -/
theorem regular_of_mem_run {as : List Act} (h : ∀ l, leaf l ∈ as → l.same l = true) {e : Entry}
    (he : e ∈ run as []) : e.Regular := by
  refine piece_of_mem_run (P := fun p => ∀ l, p = .leaf l → l.same l = true) (fun a ha p hp => ?_)
    (fun a _ t _ l hl => ?_) (by simp) he
  · intro l hl
    subst hl
    exact h l (eq_leaf_of_piece? hp ▸ ha)
  · rw [Piece.leaf.injEq] at hl
    rw [← hl]
    simp [Leaf.same]

end Act

/-! ### The round trip -/

/-- A body whose first line is neither blank nor a position begins with its content. -/
theorem Body.skipped_of_first {l : Line} {ls : List Line} (hblank : l.form.isBlank = false)
    (hposition : ∀ p, l.form ≠ .position p) : Body.skipped (l :: ls) = 0 := by
  unfold Body.skipped leadingPosition?
  split
  · next h => simp [h, LineForm.isBlank] at hblank
  · next p h => exact absurd h (hposition p)
  · rfl

/-- Printing a content tree and reading it back gives the same tree: for a tree of the shape of a
tree that was read, in which nothing opens inside `nestingLimit` containers and more, if its first
line is not taken for a position and every line is read as what it was printed for. -/
theorem Body.sameList_read_renderList (indent supply : Nat) {is : List Item}
    (hshape : Item.WellShapedIn true is)
    (hroom : ∀ e ∈ Item.outlineIn 0 is, e.piece.needsRoom = true → e.depth < nestingLimit)
    (hposition : ∀ l ∈ (Item.renderList indent is).head?, ∀ p, (Line.ofText l).form ≠ .position p)
    (hlines : ∀ a ∈ Item.actsIn 1 is, a.ReadsBack) :
    Item.sameList (Body.read supply (Item.renderList indent is)).1.items is = true := by
  obtain ⟨hrun, hlinked⟩ := Item.run_actsIn hshape
  -- what is read are the lines of the acts, one by one
  have hread : Line.ofTexts (Item.renderList indent is) =
      (Item.actsIn 1 is).map fun a => Line.ofText a.text := by
    rw [Line.ofTexts, ← Act.readFrom_of_readsBack hlines]
    refine Line.readFrom_congr ?_ false
    rw [Item.renderList, Item.strip_renderIn, List.map_map]
    rfl
  have hskipped : Body.skipped (Line.ofTexts (Item.renderList indent is)) = 0 := by
    cases hls : Item.renderList indent is with
    | nil => rfl
    | cons l ls =>
      rw [hls, Line.ofTexts, Line.readFrom_false_cons] at hread
      have hblank : (Line.ofText l).form.isBlank = false := by
        have hmem : Line.ofText l ∈ (Item.actsIn 1 is).map fun a => Line.ofText a.text := by
          rw [← hread]
          exact List.mem_cons_self
        obtain ⟨a, ha, hal⟩ := List.mem_map.mp hmem
        rw [← hal]
        exact (hlines a ha).not_blank
      rw [Line.ofTexts, Line.readFrom_false_cons]
      exact Body.skipped_of_first hblank (hposition l (by rw [hls]; rfl))
  have hacts : (Act.ofLines [] (Line.ofTexts (Item.renderList indent is))).map Act.plain =
      (Item.actsIn 1 is).map Act.plain := by
    rw [hread]
    exact Act.ofLines_of_readsBack hlines hlinked (by rwa [hrun])
  have houtline : (Item.outlineIn 0 (Body.read supply (Item.renderList indent is)).1.items).map
      Entry.plain = (Item.outlineIn 0 is).map Entry.plain := by
    rw [Body.outlineIn_read, hskipped, List.drop_zero, Act.run_congr hacts, hrun]
  have hregular : ∀ e ∈ Item.outlineIn 0 is, e.Regular := by
    intro e he
    rw [← hrun] at he
    refine Act.regular_of_mem_run (fun l hl => ?_) he
    rcases l.stitch_cases with ⟨name, rfl⟩ | hstitch
    · simp [Leaf.same]
    · obtain ⟨-, -, l', -, hsame⟩ := (Act.readsBack_leaf hstitch).mp (hlines _ hl)
      exact Leaf.same_self_right hsame
  exact Item.sameList_symm (Item.sameList_of_outlineIn hshape (Body.wellShapedIn_read supply _)
    (Item.sameList_self hregular) houtline.symm)

/-- A text, a conditional whose branch ends in a choice, a choice with its divert behind its content
and one with its divert on its own line. -/
private def market : List Item :=
  [.leaf ⟨.fresh 0, none⟩ (.text "The market is open."),
   .conditional ⟨.fresh 1, none⟩
    [.mk ⟨.fresh 2, none⟩ { flag := some "met" } none
      [.choice ⟨.fresh 3, none⟩ { text := "Nod", sticky := true, divert := some "town" } []],
     .mk ⟨.fresh 4, none⟩ { isElse := true } (some "gate") [.leaf ⟨.fresh 5, none⟩ (.wait default)]],
   .choice ⟨.fresh 6, none⟩ { text := "Buy", divert := some "stall" }
    [.leaf ⟨.fresh 7, none⟩ (.flagOperation .set "bought")],
   .choice ⟨.fresh 8, none⟩ { text := "Ask", bracketed := false, divert := some "town" }
    [.choice ⟨.fresh 9, none⟩ { text := "Why" } []]]

theorem Body.sameList_read_renderList_market :
    Item.sameList (Body.read 0 (Item.renderList 2 market)).1.items market = true := by
  refine Body.sameList_read_renderList 2 0 ?_ ?_ ?_ ?_
  · simp [market, Item.WellShapedIn, Branch.WellShapedIn, Item.WellShaped, Branch.WellShaped,
      Item.MayPrecede, Item.EndsIn, Item.isChoice, Item.isDivert, Item.isStitch,
      Item.divertTarget?, Item.stitchName?]
  · decide
  · have hfirst : (Item.renderList 2 market).head? = some "The market is open." := by decide
    have hform : (Line.ofText "The market is open.").form = .text "The market is open." none := by
      decide
    intro l hl p
    obtain rfl : "The market is open." = l := by simpa [hfirst] using hl
    rw [hform]
    simp
  · have hacts : Item.actsIn 1 market = [.leaf (.text "The market is open."), .opening,
        .branch { flag := some "met" },
        .choice 1 { text := "Nod", sticky := true, divert := some "town" },
        .branch { isElse := true }, .leaf (.wait default), .leaf (.divert "gate"), .closing,
        .choice 1 { text := "Buy" }, .leaf (.flagOperation .set "bought"),
        .leaf (.divert "stall"),
        .choice 1 { text := "Ask", bracketed := false, divert := some "town" },
        .choice 2 { text := "Why" }] := by decide
    rw [hacts]
    simp only [List.forall_mem_cons]
    refine ⟨?_, trivial, ?_, ?_, ?_, ?_, ?_, trivial, ?_, ?_, ?_, ?_, ?_, by simp⟩
    · exact ⟨by decide, by decide, .text "The market is open.", by decide, by decide⟩
    · show (Line.ofText _).form = _
      decide
    · show (Line.ofText _).form = _
      decide
    · show (Line.ofText _).form = _
      decide
    · exact ⟨by decide, by decide, .wait default, by decide, by decide⟩
    · exact ⟨by decide, by decide, .divert "gate", by decide, by decide⟩
    · show (Line.ofText _).form = _
      decide
    · exact ⟨by decide, by decide, .flagOperation .set "bought", by decide, by decide⟩
    · exact ⟨by decide, by decide, .divert "stall", by decide, by decide⟩
    · show (Line.ofText _).form = _
      decide
    · show (Line.ofText _).form = _
      decide

end StoryScript
