import StoryScript.Proofs.Body.Act

/-!
# Lines as acts

`Act.ofLine` says which acts a line stands for. The only facts about what came before that it uses are the
containers that are open (`BodyState.opens`), so the acts of the lines of a body can be computed along the
lines without building a tree (`Act.ofLines`). What these acts can be is listed in `Act.LineActs`;
what holds of the acts of any line is shown by its cases.

`BodyState.perform` says what an act does to the reader. What a line does is to perform its acts
(`BodyState.Performs.apply`), each in a state that admits it, with issues reported in between. So what is to
be shown of everything that a line can do is shown for the acts, of which there are five kinds.
-/

namespace StoryScript

/-! ### What lines stand for -/

/-- The leaves that a line without containers stands for. -/
def Line.leaves (l : Line) : List Leaf :=
  match l.form with
  | .text content none => [.text content]
  | .text content (some target) => [.text content, .divert target]
  | .divert target => [.divert target]
  | .media kind filename extension => [.media kind filename extension]
  | .fakeType d => [.fakeType d]
  | .wait d => [.wait d]
  | .sideStory name => [.sideStory name]
  | .flagOperation verb flag => [.flagOperation verb flag]
  | .transition title subtitle => [.transition title subtitle]
  | form => [.raw l.text (if form.isComment then .comment else .unrecognized)]

namespace Act

/-- A line that is kept as it stands because there is no room for what it would open. -/
def kept (l : Line) : List Act := [leaf (.raw l.text .unrecognized)]

/-- Whether a conditional is open. -/
def inConditional (st : List Open) : Bool := st.contains .conditional

/-- The acts of one line, without what is read from the remainder of a branch. -/
def ofLine (st : List Open) (branchFollows : Bool) (l : Line) : List Act :=
  match l.form with
  | .stitchHeader name => [leaf (.stitch name)]
  | .choice depth head =>
    if (st.dropWhile (Open.endsAtChoice depth)).length < nestingLimit then [choice depth head]
    else kept l
  | .conditionalOpen =>
    if branchFollows then if st.length < nestingLimit then [opening] else kept l
    else l.leaves.map leaf
  | .branch guard _ => if inConditional st then [branch guard] else l.leaves.map leaf
  | .conditionalClose => if inConditional st then [closing] else l.leaves.map leaf
  | _ => l.leaves.map leaf

/-- The acts of several lines that stand on one. -/
def ofChain (st : List Open) (branchFollows : Bool) : List Line → List Act
  | [] => []
  | l :: ls =>
    let as := ofLine st branchFollows l
    as ++ ofChain (after st as) branchFollows ls

/-- The acts of a line together with its remainder. -/
def ofWholeLine (st : List Open) (branchFollows : Bool) (l : Line) : List Act :=
  if l.form.isBranch && !inConditional st then ofLine st branchFollows l
  else ofChain st branchFollows l.chain

/-- The acts of the lines of a body. -/
def ofLines (st : List Open) : List Line → List Act
  | [] => []
  | l :: ls =>
    if l.form.isBlank then ofLines st ls
    else
      let as := ofWholeLine st (branchFirst ls) l
      as ++ ofLines (after st as) ls

/-- What one line stands for. A choice or a conditional without room is kept as it is written. Leaves are what any
other line stands for, and so does a brace or the label of a branch that has no place where it stands. -/
inductive LineActs (st : List Open) (branchFollows : Bool) (l : Line) : List Act → Prop
  | stitch {name : String} (hform : l.form = .stitchHeader name) :
      LineActs st branchFollows l [leaf (.stitch name)]
  | choice {depth : Nat} {head : ChoiceHead} (hform : l.form = .choice depth head)
      (hroom : (st.dropWhile (Open.endsAtChoice depth)).length < nestingLimit) :
      LineActs st branchFollows l [choice depth head]
  | keptChoice {depth : Nat} {head : ChoiceHead} (hform : l.form = .choice depth head)
      (hroom : ¬ (st.dropWhile (Open.endsAtChoice depth)).length < nestingLimit) :
      LineActs st branchFollows l (kept l)
  | opening (hform : l.form = .conditionalOpen) (hfollows : branchFollows = true)
      (hroom : st.length < nestingLimit) : LineActs st branchFollows l [opening]
  | keptOpening (hform : l.form = .conditionalOpen) (hfollows : branchFollows = true)
      (hroom : ¬ st.length < nestingLimit) : LineActs st branchFollows l (kept l)
  | branch {guard : Guard} {rest : String} (hform : l.form = .branch guard rest)
      (hin : inConditional st = true) : LineActs st branchFollows l [branch guard]
  | closing (hform : l.form = .conditionalClose) (hin : inConditional st = true) :
      LineActs st branchFollows l [closing]
  | leaves (hstitch : ∀ name, l.form ≠ .stitchHeader name)
      (hchoice : ∀ depth head, l.form ≠ .choice depth head) :
      LineActs st branchFollows l (l.leaves.map leaf)

theorem lineActs (st : List Open) (branchFollows : Bool) (l : Line) :
    LineActs st branchFollows l (ofLine st branchFollows l) := by
  unfold ofLine
  split
  · next name hform => exact .stitch hform
  · next depth head hform =>
    split
    · next hroom => exact .choice hform hroom
    · next hroom => exact .keptChoice hform hroom
  · next hform =>
    split
    · next hfollows =>
      split
      · next hroom => exact .opening hform hfollows hroom
      · next hroom => exact .keptOpening hform hfollows hroom
    · exact .leaves (by simp [hform]) (by simp [hform])
  · next guard rest hform =>
    split
    · next hin => exact .branch hform hin
    · exact .leaves (by simp [hform]) (by simp [hform])
  · next hform =>
    split
    · next hin => exact .closing hform hin
    · exact .leaves (by simp [hform]) (by simp [hform])
  · next hstitch hchoice _ _ _ => exact .leaves hstitch hchoice

end Act

/-! ### The containers of a reader -/

/-- An open frame as containers, innermost first. -/
def Frame.opens : Frame → List Open
  | choice _ depth head _ => [.choice depth head.divert]
  | branch .. => [.branch, .conditional]

namespace BodyState

/-- The containers of a stack of frames. -/
def opensOf (frames : List Frame) : List Open := frames.flatMap Frame.opens

/-- The containers that are open. -/
def opens (s : BodyState) : List Open :=
  (if s.pending.isSome then [.conditional] else []) ++ opensOf s.frames

@[simp] theorem opensOf_nil : opensOf [] = [] := rfl

@[simp] theorem opensOf_cons (f : Frame) (fs : List Frame) :
    opensOf (f :: fs) = f.opens ++ opensOf fs := by
  simp [opensOf]

@[simp] theorem opens_add (f : Frame) (i : Item) : (f.add i).opens = f.opens := by cases f <;> rfl

@[simp] theorem opens_frame_extend (f : Frame) (line : Nat) : (f.extend line).opens = f.opens := by
  cases f <;> rfl

@[simp] theorem length_opensOf (fs : List Frame) : (opensOf fs).length = heightOf fs := by
  induction fs with
  | nil => rfl
  | cons f fs ih =>
    rw [opensOf_cons, List.length_append, heightOf_cons, ih]
    cases f <;> rfl

theorem length_opens (s : BodyState) : s.opens.length = s.height := by
  rw [opens, height_eq, List.length_append, length_opensOf, Nat.add_comm]
  split <;> rfl

theorem opens_of_pending_none {s : BodyState} (h : s.pending = none) : s.opens = opensOf s.frames := by
  simp [opens, h]

/-- The containers when a frame is put on the stack. -/
theorem opens_frames_cons {t : BodyState} (hp : t.pending = none) (line : Nat) (f : Frame)
    (fs : List Frame) : ({ t.draw line with frames := f :: fs } : BodyState).opens =
      f.opens ++ opensOf fs := by
  simp [opens, hp]

theorem inConditional_eq (s : BodyState) : s.inConditional = Act.inConditional s.opens := by
  have hframes : ∀ fs : List Frame, fs.any Frame.isBranch = (opensOf fs).contains .conditional := by
    intro fs
    induction fs with
    | nil => rfl
    | cons f fs ih => cases f <;> simp [Frame.isBranch, Frame.opens, ih]
  rw [inConditional, hframes, Act.inConditional, opens]
  cases s.pending <;> simp

@[simp] theorem opensOf_extend (line : Nat) (fs : List Frame) :
    opensOf (fs.map (·.extend line)) = opensOf fs := by
  simp [opensOf, List.flatMap_map]

@[simp] theorem opens_extend (line : Nat) (s : BodyState) : (s.extend line).opens = s.opens := by
  simp [opens, extend]

/-- The containers when a further branch is opened. -/
theorem opens_pushBranch {s : BodyState} (hp : s.pending = none) (line : Nat) (guard : Guard)
    (k : OpenMark) (bs : List Branch) :
    (s.pushBranch line guard k bs).opens = .branch :: .conditional :: opensOf s.frames := by
  simp [opens, hp, Frame.opens]

theorem opensOf_add (s : BodyState) (i : Item) : opensOf (s.add i).frames = opensOf s.frames := by
  unfold add
  cases s.frames <;> simp

/-- A condition on frames and one on containers that say the same of choices, and that both stop at
the innermost conditional. -/
structure Agree (p : Frame → Bool) (q : Open → Bool) : Prop where
  choice : ∀ m d h c, p (.choice m d h c) = q (.choice d h.divert)
  branch : ∀ k bs m g c, p (.branch k bs m g c) = false
  conditional : q .conditional = false

theorem Agree.endsAtChoice (depth : Nat) :
    Agree (·.endsAtChoice depth) (Open.endsAtChoice depth) :=
  ⟨fun _ _ _ _ => rfl, fun _ _ _ _ _ => rfl, rfl⟩

theorem Agree.inside : Agree (!·.isBranch) Open.inside :=
  ⟨fun _ _ _ _ => rfl, fun _ _ _ _ _ => rfl, rfl⟩

section

variable {p : Frame → Bool} {q : Open → Bool}

theorem Agree.add (h : Agree p q) (f : Frame) (i : Item) : p (f.add i) = p f := by
  cases f with
  | choice m d hd c => rw [Frame.add, h.choice, h.choice]
  | branch k bs m g c => rw [Frame.add, h.branch, h.branch]

/-- The frames that are left when frames are finished are those that are not reached. -/
theorem opensOf_popWhile (h : Agree p q) (s : BodyState) :
    opensOf (s.popWhile p).frames = opensOf (s.frames.dropWhile p) := by
  simp only [opensOf, List.flatMap_def, map_frames_popWhile opens_add h.add s]

/-- The containers that are left when frames are finished, but for those of the innermost branch. -/
theorem dropWhile_opensOf_popWhile (h : Agree p q) (s : BodyState) :
    (opensOf (s.popWhile p).frames).dropWhile q = (opensOf s.frames).dropWhile q := by
  rw [opensOf_popWhile h]
  induction s.frames with
  | nil => rfl
  | cons f fs ih =>
    cases hp : p f with
    | false => rw [List.dropWhile_cons_of_neg (by simp [hp])]
    | true =>
      rw [List.dropWhile_cons_of_pos hp, ih]
      cases f with
      | branch k bs m g c => simp [h.branch] at hp
      | choice m d hd c =>
        rw [h.choice] at hp
        simp [Frame.opens, hp]

end

/-- Choices that are finished by a choice leave a stack that it does not finish. -/
theorem opensOf_popWhile_endsAtChoice (depth : Nat) (s : BodyState) :
    opensOf (s.popWhile (·.endsAtChoice depth)).frames =
      (opensOf s.frames).dropWhile (Open.endsAtChoice depth) := by
  have hhead := List.head?_dropWhile_not (fun f : Frame => f.endsAtChoice depth) s.frames
  rw [← dropWhile_opensOf_popWhile (Agree.endsAtChoice depth), opensOf_popWhile (Agree.endsAtChoice depth)]
  cases hd : s.frames.dropWhile (·.endsAtChoice depth) with
  | nil => rfl
  | cons f fs =>
    rw [hd] at hhead
    cases f with
    | branch k bs m g c => simp [Frame.opens, Open.endsAtChoice]
    | choice m d head c =>
      have hno : Open.endsAtChoice depth (.choice d head.divert) = false := hhead
      simp [Frame.opens, hno]

theorem opens_popWhile_endsAtChoice (depth : Nat) {s : BodyState} (hp : s.pending = none) :
    (s.popWhile (·.endsAtChoice depth)).opens = s.opens.dropWhile (Open.endsAtChoice depth) := by
  rw [opens_of_pending_none ((popWhile_pending _ s).trans hp), opens_of_pending_none hp,
    opensOf_popWhile_endsAtChoice]

/-! ### Acts that are performed -/

variable {line : Nat} {s t u : BodyState} {as bs : List Act}

/-- What an act that stands on `line` does. -/
def perform (line : Nat) (s : BodyState) : Act → BodyState
  | .leaf (.stitch name) => s.openStitch line name
  | .leaf leaf => s.append line leaf
  | .choice depth head =>
    let s := (s.popWhile (·.endsAtChoice depth)).extend line
    { s.draw line with frames := .choice (s.openMark line) depth head [] :: s.frames }
  | .opening =>
    let s := s.extend line
    { s.draw line with pending := some (s.openMark line) }
  | .branch guard => s.openBranch line guard
  | .closing => s.closeConditional line

theorem perform_leaf {leaf : Leaf} (h : ∀ name, leaf ≠ .stitch name) (line : Nat) (s : BodyState) :
    s.perform line (.leaf leaf) = s.append line leaf := by
  cases leaf with
  | stitch name => exact absurd rfl (h name)
  | _ => rfl

/-- A stitch is appended when everything is finished; what is reported and noted before has no part in it. -/
theorem exists_openStitch_eq (line : Nat) (s : BodyState) (name : String) : ∃ t : BodyState,
    s.openStitch line name = t.append line (.stitch name) ∧ t.root = (s.closeAll line).root ∧
      t.frames = (s.closeAll line).frames ∧ t.pending = (s.closeAll line).pending ∧
      (s.closeAll line).issues ⊆ t.issues := by
  unfold openStitch
  dsimp only
  split
  · exact ⟨_, rfl, rfl, rfl, rfl, List.subset_cons_self _ _⟩
  · exact ⟨_, rfl, rfl, rfl, rfl, List.Subset.refl _⟩

/-- Whether an act can come next: only a branch can when a conditional waits for its first one, and a branch
or a closing brace can only in a conditional. -/
def Admits (s : BodyState) : Act → Prop
  | .branch _ => s.inConditional = true
  | .closing => s.pending = none ∧ s.inConditional = true
  | _ => s.pending = none

/-- A state is what becomes of another one when acts that stand on one line are performed. -/
inductive Performs (line : Nat) (s : BodyState) : List Act → BodyState → Prop
  | refl : Performs line s [] s
  | report {as : List Act} {t : BodyState} (n : Nat) (cause : IssueCause) :
      Performs line s as t → Performs line s as (t.report n cause)
  | act {as : List Act} {t : BodyState} {a : Act} :
      Performs line s as t → t.Admits a → Performs line s (as ++ [a]) (t.perform line a)

namespace Performs

theorem trans (h : Performs line s as t) (h' : Performs line t bs u) :
    Performs line s (as ++ bs) u := by
  induction h' with
  | refl => rwa [List.append_nil]
  | report n cause _ ih => exact ih.report n cause
  | act _ hadmits ih =>
    rw [← List.append_assoc]
    exact ih.act hadmits

/-- What every act does to a state, acts and issues do one after the other. -/
theorem rel {R : BodyState → BodyState → Prop} (hrefl : ∀ s, R s s)
    (htrans : ∀ s t u, R s t → R t u → R s u) (hreport : ∀ s n cause, R s (s.report n cause))
    (hact : ∀ s a, s.Admits a → R s (s.perform line a)) (h : Performs line s as t) : R s t := by
  induction h with
  | refl => exact hrefl s
  | report n cause _ ih => exact htrans _ _ _ ih (hreport _ n cause)
  | act _ hadmits ih => exact htrans _ _ _ ih (hact _ _ hadmits)

theorem single {a : Act} (h : s.Admits a) : Performs line s [a] (s.perform line a) := refl.act h

theorem leaf {leaf : Leaf} (hp : s.pending = none) (hleaf : ∀ name, leaf ≠ .stitch name) :
    Performs line s [.leaf leaf] (s.append line leaf) := by
  rw [← perform_leaf hleaf]
  exact single hp

theorem refuse (l : Line) (hp : s.pending = none) :
    Performs line s (Act.kept l) (s.refuse line l.text) :=
  trans (refl.report line _) (leaf (s := s.report line _) hp (by simp))

theorem appendLine (l : Line) (hp : s.pending = none) :
    Performs line s (l.leaves.map .leaf) (s.appendLine line l) := by
  unfold BodyState.appendLine Line.leaves
  cases l.form with
  | text content divert =>
    have htext : Performs line s [.leaf (.text content)] (s.append line (.text content)) :=
      leaf hp (by simp)
    have hp' : (s.append line (.text content)).pending = none := by
      simp [BodyState.append, BodyState.extend, hp]
    cases divert with
    | none => exact htext
    | some target => exact htext.trans (leaf hp' (by simp))
  | _ => exact leaf hp (by simp)

theorem openChoice (l : Line) (depth : Nat) (head : ChoiceHead) (h : s.Quiet) : Performs line s
    (if (s.opens.dropWhile (Open.endsAtChoice depth)).length < nestingLimit
      then [.choice depth head] else Act.kept l) (s.openChoice line l.text depth head) := by
  have hroom : (s.popWhile (·.endsAtChoice depth)).hasRoom =
      decide ((s.opens.dropWhile (Open.endsAtChoice depth)).length < nestingLimit) := by
    rw [hasRoom, ← length_opens, opens_popWhile_endsAtChoice depth h.pending]
  unfold BodyState.openChoice
  dsimp only
  rw [hroom]
  simp only [decide_eq_true_eq]
  split
  · exact single h.pending
  · next hlt =>
    rw [popWhile_of_no_room h.shaped h.pending (by simpa [hroom] using hlt)]
    exact refuse l h.pending

theorem openConditional (l : Line) (hp : s.pending = none) :
    Performs line s (if s.opens.length < nestingLimit then [.opening] else Act.kept l)
      (s.openConditional line l.text) := by
  have hroom : s.hasRoom = decide (s.opens.length < nestingLimit) := by
    rw [hasRoom, ← length_opens]
  unfold BodyState.openConditional
  rw [hroom]
  simp only [decide_eq_true_eq]
  split
  · exact single hp
  · exact refuse l hp

/-- What one line does is to perform its acts. -/
theorem apply (branchFollows : Bool) (l : Line) (h : s.Sound l.form.isBranch) :
    Performs line s (Act.ofLine s.opens branchFollows l) (s.apply branchFollows line l) := by
  unfold BodyState.apply Act.ofLine
  rw [← inConditional_eq]
  cases hform : l.form with
  | stitchHeader name =>
    exact single (a := .leaf (.stitch name)) (h.pending_none (by simp [hform, LineForm.isBranch]))
  | choice depth head =>
    have hq := h.quiet (by simp [hform, LineForm.isBranch])
    simp only [interrupt_of_pending_none line hq.pending]
    exact openChoice l depth head hq
  | conditionalOpen =>
    have hp := h.pending_none (by simp [hform, LineForm.isBranch])
    simp only [interrupt_of_pending_none line hp]
    split
    · exact openConditional l hp
    · exact appendLine l hp
  | branch guard rest =>
    dsimp only
    split
    · next hin => exact single (a := .branch guard) hin
    · next hin => exact appendLine l (pending_none_of_not_inConditional hin)
  | conditionalClose =>
    have hp := h.pending_none (by simp [hform, LineForm.isBranch])
    dsimp only
    split
    · next hin => exact single (a := .closing) ⟨hp, hin⟩
    · rw [interrupt_of_pending_none line hp]
      exact appendLine l hp
  | _ =>
    have hp := h.pending_none (by simp [hform, LineForm.isBranch])
    dsimp only
    rw [interrupt_of_pending_none line hp]
    exact appendLine l hp

end Performs

end BodyState

end StoryScript
