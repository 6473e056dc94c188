import StoryScript.Proofs.Body.Lossless
import StoryScript.Proofs.Body.Parents

/-!
# What reading keeps

Whatever the reader does on a line, no issue is withdrawn and no node is lost but a divert that its
container takes over (`BodyState.Keeps`). An issue that is new stands on the line, and nesting is reported
as too deep only where the line is refused (`BodyState.Refuses`). So the issues of a body stand on its lines
(`Body.line_of_mem_issues`).
-/

namespace StoryScript

namespace BodyState

/-- Whether there is no room for what a line would open. A choice first finishes other choices. -/
def Refuses (branchFollows : Bool) (s : BodyState) (l : Line) : Prop :=
  match l.form with
  | .choice depth _ => (s.popWhile (·.endsAtChoice depth)).hasRoom = false
  | .conditionalOpen => branchFollows = true ∧ s.hasRoom = false
  | _ => False

/-- Nodes and issues are kept, and `P` holds of the new issues. -/
structure Keeps (P : Issue → Prop) (s t : BodyState) : Prop where
  nodes : ∀ x ∈ s.nodes, x.divertTarget? = none → x ∈ t.nodes
  issues : s.issues ⊆ t.issues
  news : ∀ i ∈ t.issues, i ∈ s.issues ∨ P i

variable {P Q : Issue → Prop} {line n : Nat} {s t u : BodyState} {l : Line}

@[simp] theorem nodes_extend (n : Nat) (s : BodyState) : (s.extend n).nodes = s.nodes := by
  simp [nodes, BodyState.extend, List.flatMap_map]

theorem mem_nodes_push {f : Frame} {x : Node} :
    x ∈ ({ s with frames := f :: s.frames } : BodyState).nodes ↔ x ∈ f.nodes ∨ x ∈ s.nodes := by
  simp only [nodes, List.flatMap_cons, List.mem_append]
  exact or_left_comm

/-- The nodes when a further branch is opened. -/
theorem mem_nodes_pushBranch {guard : Guard} {k : OpenMark} {bs : List Branch} {x : Node} :
    x ∈ (s.pushBranch line guard k bs).nodes ↔ x ∈ Branch.nodesIn bs ∨ x ∈ s.nodes := by
  have hframe : (Frame.branch (k.extend line) bs (s.openMark line) guard []).nodes =
      Branch.nodesIn bs := List.append_nil _
  change x ∈ ({ s.extend line with
    frames := .branch (k.extend line) bs (s.openMark line) guard [] :: (s.extend line).frames } :
      BodyState).nodes ↔ _
  rw [mem_nodes_push, hframe, nodes_extend]

namespace Keeps

/-- What changes neither the nodes nor the issues. -/
theorem of_eq (hnodes : t.nodes = s.nodes) (hissues : t.issues = s.issues) : s.Keeps P t :=
  ⟨fun _ hx _ => hnodes ▸ hx, hissues ▸ List.Subset.refl _, fun _ hi => Or.inl (hissues ▸ hi)⟩

theorem refl (s : BodyState) : s.Keeps P s := of_eq rfl rfl

theorem trans (h : s.Keeps P t) (h' : t.Keeps P u) : s.Keeps P u :=
  ⟨fun x hx hno => h'.nodes x (h.nodes x hx hno) hno, List.Subset.trans h.issues h'.issues,
    fun i hi => (h'.news i hi).elim (h.news i) Or.inr⟩

theorem mono (h : s.Keeps P t) (himp : ∀ i, P i → Q i) : s.Keeps Q t :=
  ⟨h.nodes, h.issues, fun i hi => (h.news i hi).imp_right (himp i)⟩

theorem report {cause : IssueCause} (s : BodyState) (h : P ⟨cause, line⟩) :
    s.Keeps P (s.report line cause) := by
  refine ⟨fun _ hx _ => hx, List.subset_cons_self _ _, fun i hi => ?_⟩
  rcases List.mem_cons.mp hi with rfl | hi
  · exact Or.inr h
  · exact Or.inl hi

theorem extend (n : Nat) (s : BodyState) : s.Keeps P (s.extend n) := of_eq (nodes_extend n s) rfl

theorem add (i : Item) (s : BodyState) : s.Keeps P (s.add i) :=
  ⟨fun _ hx _ => mem_nodes_add.mpr (Or.inr hx), by rw [issues_add]; exact List.Subset.refl _,
    fun _ hi => Or.inl (by rwa [issues_add] at hi)⟩

theorem append (n : Nat) (leaf : Leaf) (s : BodyState) : s.Keeps P (s.append n leaf) :=
  (of_eq (s := s) (t := s.draw n) rfl rfl).trans
    ((add _ _).trans (extend n _))

/-- A frame is pushed. -/
theorem push (f : Frame) (n : Nat) (s : BodyState) :
    s.Keeps P { s.draw n with frames := f :: s.frames } :=
  ⟨fun _ hx _ => mem_nodes_push.mpr (Or.inr hx), List.Subset.refl _, fun _ hi => Or.inl hi⟩

/-- A frame is finished: only a divert can be taken over. -/
theorem pop (s : BodyState) : s.Keeps P s.pop := by
  refine ⟨fun x hx hno => ?_, by rw [issues_pop]; exact List.Subset.refl _,
    fun _ hi => Or.inl (by rwa [issues_pop] at hi)⟩
  cases hf : s.frames with
  | nil => rwa [pop_of_frames_nil hf]
  | cons f fs =>
    rw [pop_of_frames hf, mem_nodes_add]
    have hsplit : x ∈ f.nodes ∨ x ∈ ({ s with frames := fs } : BodyState).nodes := by
      rwa [← mem_nodes_push, ← hf]
    refine hsplit.imp_left fun hx => (Frame.mem_nodes_close hx).resolve_right ?_
    rintro ⟨m, target, rfl, -⟩
    simp [Node.divertTarget?, Item.divertTarget?] at hno

theorem popWhile (p : Frame → Bool) (s : BodyState) : s.Keeps P (s.popWhile p) :=
  popWhile_induction (P := fun t => s.Keeps P t) (fun _ ht => ht.trans (pop _)) p (refl s)

theorem refuse (text : String) (s : BodyState) (h : P ⟨.nestingTooDeep nestingLimit, line⟩) :
    s.Keeps P (s.refuse line text) :=
  (report s h).trans (append _ _ _)

theorem openChoice (text : String) (depth : Nat) (head : ChoiceHead) (s : BodyState)
    (h : (s.popWhile (·.endsAtChoice depth)).hasRoom = false → P ⟨.nestingTooDeep nestingLimit, line⟩) :
    s.Keeps P (s.openChoice line text depth head) := by
  unfold BodyState.openChoice
  dsimp only
  split
  · exact (popWhile _ s).trans ((extend line _).trans (push _ _ _))
  · next hroom => exact (popWhile _ s).trans (refuse _ _ (h (by simpa using hroom)))

theorem openConditional (text : String) (s : BodyState)
    (h : s.hasRoom = false → P ⟨.nestingTooDeep nestingLimit, line⟩) :
    s.Keeps P (s.openConditional line text) := by
  unfold BodyState.openConditional
  split
  · exact (extend line s).trans (of_eq rfl rfl)
  · next hroom => exact refuse _ _ (h (by simpa using hroom))

/-- A branch is opened. The nodes of the branch before it go over into the finished branches. -/
theorem openBranch (guard : Guard) (s : BodyState) : s.Keeps P (s.openBranch line guard) := by
  have hopens := opensBranch line guard s
  generalize s.openBranch line guard = t at hopens ⊢
  cases hopens with
  | first _ =>
    exact ⟨fun _ hx _ => mem_nodes_pushBranch.mpr (Or.inr hx), List.Subset.refl _,
      fun _ hi => Or.inl hi⟩
  | @next k m bs g c fs _ hframes =>
    refine (popWhile (!·.isBranch) s).trans ?_
    generalize s.popWhile (!·.isBranch) = t at hframes ⊢
    refine ⟨fun x hx hno => ?_, List.Subset.refl _, fun i hi => Or.inl hi⟩
    rw [mem_nodes_pushBranch]
    have hsplit : x ∈ (Frame.branch k bs m g c).nodes ∨
        x ∈ ({ t with frames := fs } : BodyState).nodes := by
      rwa [← mem_nodes_push, ← hframes]
    refine hsplit.imp_left fun hx => ?_
    rw [Branch.nodesIn, List.mem_append]
    rcases List.mem_append.mp hx with hx | hx
    · exact Or.inr hx
    · refine Or.inl ((Frame.mem_nodes_closeBranch m g hx).resolve_right ?_)
      rintro ⟨lm, target, rfl, -⟩
      simp [Node.divertTarget?, Item.divertTarget?] at hno
  | stray _ _ => exact popWhile _ s

theorem closeConditional (hp : s.pending = none) : s.Keeps P (s.closeConditional line) := by
  rw [closeConditional_eq line hp]
  exact (extend line s).trans ((popWhile _ _).trans (pop _))

theorem appendLine (l : Line) (s : BodyState) : s.Keeps P (s.appendLine line l) := by
  unfold BodyState.appendLine
  split
  case h_2 => exact (append _ _ _).trans (append _ _ _)
  all_goals exact append _ _ _

/-! What may be reported on the line, besides nesting. -/

variable (hP : ∀ cause, (∀ limit, cause ≠ .nestingTooDeep limit) → P ⟨cause, line⟩)

include hP

theorem closeAll (hp : s.pending = none) : s.Keeps P (s.closeAll line) :=
  closeAll_induction (P := fun t => s.Keeps P t) line (fun _ ht => ht.trans (pop _))
    (fun t ht => ht.trans (report t (hP _ (by simp)))) hp (refl s)

theorem openStitch (name : String) (hp : s.pending = none) : s.Keeps P (s.openStitch line name) := by
  have hnoted : ∀ t : BodyState, t.Keeps P
      ({ t with stitches := name :: t.stitches }.append line (.stitch name)) := fun t =>
    (of_eq (s := t) (t := { t with stitches := name :: t.stitches }) rfl rfl).trans (append _ _ _)
  unfold BodyState.openStitch
  dsimp only
  split
  · exact (closeAll hP hp).trans ((report _ (hP _ (by simp))).trans (hnoted _))
  · exact (closeAll hP hp).trans (hnoted _)

/-- What one line does. Nesting is reported if the line is refused. -/
theorem apply (branchFollows : Bool) (l : Line) (hsound : s.Sound l.form.isBranch)
    (hrefused : s.Refuses branchFollows l → P ⟨.nestingTooDeep nestingLimit, line⟩) :
    s.Keeps P (s.apply branchFollows line l) := by
  unfold BodyState.apply
  unfold Refuses at hrefused
  cases hform : l.form with
  | stitchHeader name => exact openStitch hP name (hsound.pending_none (by rw [hform]; rfl))
  | choice depth head =>
    rw [hform] at hsound hrefused
    simp only [interrupt_of_pending_none line (hsound.pending_none rfl)]
    exact openChoice _ _ _ _ hrefused
  | conditionalOpen =>
    rw [hform] at hsound hrefused
    simp only [interrupt_of_pending_none line (hsound.pending_none rfl)]
    split
    · next hb => exact openConditional _ _ fun hroom => hrefused ⟨hb, hroom⟩
    · exact appendLine l s
  | branch guard rest =>
    dsimp only
    split
    · exact openBranch guard s
    · exact appendLine l s
  | conditionalClose =>
    have hp := hsound.pending_none (by rw [hform]; rfl)
    simp only [interrupt_of_pending_none line hp]
    split
    · exact closeConditional hp
    · exact appendLine l s
  | _ =>
    simp only [interrupt_of_pending_none line (hsound.pending_none (by rw [hform]; rfl))]
    exact appendLine l s

end Keeps

/-- A line that is refused is reported and kept as it stands. -/
theorem kept_of_refuses {branchFollows : Bool} (hsound : s.Sound l.form.isBranch)
    (h : s.Refuses branchFollows l) :
    ⟨.nestingTooDeep nestingLimit, line⟩ ∈ (s.apply branchFollows line l).issues ∧
      ∃ m : Mark, m.span = some ⟨line, line⟩ ∧
        .item (.leaf m (.raw l.text .unrecognized)) ∈ (s.apply branchFollows line l).nodes := by
  have hrefuse : ∀ t : BodyState, ⟨.nestingTooDeep nestingLimit, line⟩ ∈ (t.refuse line l.text).issues ∧
      ∃ m : Mark, m.span = some ⟨line, line⟩ ∧
        .item (.leaf m (.raw l.text .unrecognized)) ∈ (t.refuse line l.text).nodes := by
    refine fun t => ⟨?_, ⟨.fresh t.supply, some ⟨line, line⟩⟩, rfl, ?_⟩
    · rw [refuse, issues_append]
      exact List.mem_cons_self
    · rw [refuse, BodyState.append, nodes_extend, mem_nodes_add]
      exact Or.inl List.mem_cons_self
  unfold Refuses at h
  unfold BodyState.apply
  cases hform : l.form with
  | choice depth head =>
    rw [hform] at hsound h
    dsimp only
    rw [interrupt_of_pending_none line (hsound.pending_none rfl), openChoice, if_neg (by simp [h])]
    exact hrefuse _
  | conditionalOpen =>
    rw [hform] at hsound h
    dsimp only
    rw [interrupt_of_pending_none line (hsound.pending_none rfl), if_pos h.1, openConditional,
      if_neg (by simp [h.2])]
    exact hrefuse _
  | _ => simp [hform] at h

/-! ### From line to line -/

/-- The lines that are read, and the remainders of branches with them: in the state `s`, the line `l` is
read, which stands on line `n`; `branchFollows` says whether the next line that is not blank is a branch. -/
inductive Meets (start : BodyState) (line : Nat) (ls : List Line) :
    BodyState → Nat → Bool → Line → Prop
  | whole {s : BodyState} {n : Nat} {l : Line} {rest : List Line} :
      Passes start line ls s n (l :: rest) → l.form.isBlank = false →
      Meets start line ls s n (branchFirst rest) l
  | remainder {s : BodyState} {n : Nat} {branchFollows : Bool} {l : Line} {guard : Guard} {rest : String} :
      Meets start line ls s n branchFollows l → l.form = .branch guard rest → rest ≠ "" →
      s.inConditional = true →
      Meets start line ls (s.apply branchFollows n l) n branchFollows (.ofText rest)

variable {start : BodyState} {ls rest : List Line} {branchFollows : Bool}

theorem Meets.sound (h : Meets start line ls s n branchFollows l) (hstart : start.Sound (branchFirst ls)) :
    s.Sound l.form.isBranch := by
  induction h with
  | whole h hblank => exact branchFirst_cons_of_not_blank hblank ▸ h.sound hstart
  | remainder _ hform _ _ ih => exact ((Sound.apply _ _ _ ih).2 (by rw [hform]; rfl)).sound _

/-- A branch leaves the reader within its conditional. -/
theorem inConditional_apply {guard : Guard} {text : String} (hform : l.form = .branch guard text)
    (hin : s.inConditional = true) : (s.apply branchFollows n l).inConditional = true := by
  have hbranch : ∀ t : BodyState, (∃ f fs, t.frames = f :: fs ∧ f.isBranch = true) →
      t.inConditional = true := by
    rintro t ⟨f, fs, hf, hb⟩
    simp [inConditional, hf, hb]
  unfold BodyState.apply
  simp only [hform, hin, if_true]
  refine hbranch _ ?_
  have hopens := opensBranch n guard s
  generalize s.openBranch n guard = t at hopens ⊢
  cases hopens with
  | first _ => exact ⟨_, _, rfl, rfl⟩
  | next _ _ => exact ⟨_, _, rfl, rfl⟩
  | stray _ hout => simp [hin] at hout

/-- Behind a branch of a conditional its remainder is read like a line. -/
theorem process_of_remainder {guard : Guard} {text : String} (hform : l.form = .branch guard text)
    (htext : text ≠ "") (hin : s.inConditional = true) : s.process branchFollows n l =
      (s.apply branchFollows n l).process branchFollows n (.ofText text) := by
  have hnext : (s.apply branchFollows n l).inConditional = true := inConditional_apply hform hin
  simp only [process, hin, hnext, Bool.not_true, Bool.and_false, Bool.false_eq_true, if_false]
  rw [Line.chain_of_branch hform, if_neg htext, List.foldl_cons, Line.chainOf_eq]

/-- Any other line is read alone. -/
theorem process_of_alone
    (h : ¬ ∃ guard text, l.form = .branch guard text ∧ text ≠ "" ∧ s.inConditional = true) :
    s.process branchFollows n l = s.apply branchFollows n l := by
  unfold process
  split
  · rfl
  · next hin =>
    suffices hchain : l.chain = [l] by rw [hchain]; rfl
    by_cases hform : ∃ guard text, l.form = .branch guard text
    · obtain ⟨guard, text, hform⟩ := hform
      rw [Line.chain_of_branch hform, if_pos]
      by_contra htext
      exact h ⟨guard, text, hform, htext, by simpa [hform, LineForm.isBranch] using hin⟩
    · exact Line.chain_of_not_branch fun guard text hform' => hform ⟨guard, text, hform'⟩

/-- Behind a line and its remainder the reading goes on with the next line. -/
theorem Meets.exists_passes (h : Meets start line ls s n branchFollows l) :
    ∃ rest, Passes start line ls (s.process branchFollows n l) (n + 1) rest := by
  induction h with
  | whole h hblank => exact ⟨_, h.line hblank⟩
  | remainder _ hform htext hin ih => rwa [process_of_remainder hform htext hin] at ih

theorem Passes.add_length (h : Passes start line ls s n rest) : n + rest.length = line + ls.length := by
  induction h with
  | start => rfl
  | blank _ _ ih => rw [← ih, List.length_cons]; omega
  | line _ _ ih => rw [← ih, List.length_cons]; omega

theorem Meets.lt (h : Meets start line ls s n branchFollows l) : n < line + ls.length := by
  obtain ⟨rest, hpasses⟩ := h.exists_passes
  have := hpasses.add_length
  omega

/-- The issues that are found while some lines are read: they stand on these lines, and nesting is reported
where a line is refused. -/
def Found (start : BodyState) (line : Nat) (ls : List Line) (i : Issue) : Prop :=
  i.line < line + ls.length ∧ ∀ limit, i.cause = .nestingTooDeep limit → limit = nestingLimit ∧
    ∃ s branchFollows l, Meets start line ls s i.line branchFollows l ∧ s.Refuses branchFollows l

/-- A line that is met, and what is read behind it on the same line, is read to the end of the line. -/
theorem Meets.keeps (h : Meets start line ls s n branchFollows l) (hstart : start.Sound (branchFirst ls)) :
    s.Keeps (Found start line ls) (s.apply branchFollows n l) ∧
      (s.apply branchFollows n l).Keeps (Found start line ls) (s.process branchFollows n l) := by
  have happly : ∀ {s l}, Meets start line ls s n branchFollows l →
      s.Keeps (Found start line ls) (s.apply branchFollows n l) := fun {s l} h =>
    Keeps.apply (fun _ hcause => ⟨h.lt, fun limit hlimit => absurd hlimit (hcause limit)⟩)
      branchFollows l (h.sound hstart) fun hrefused => ⟨h.lt, fun limit hlimit =>
        ⟨(IssueCause.nestingTooDeep.inj hlimit).symm, _, _, _, h, hrefused⟩⟩
  -- along the chain of the line: a remainder is read like a line, in the state behind the branch
  induction hchain : l.chain generalizing s l with
  | nil =>
    obtain ⟨xs, hxs⟩ := l.exists_chain
    simp [hxs] at hchain
  | cons x xs ih =>
    refine ⟨happly h, ?_⟩
    by_cases hrest : ∃ guard text, l.form = .branch guard text ∧ text ≠ "" ∧ s.inConditional = true
    · obtain ⟨guard, text, hform, htext, hin⟩ := hrest
      have hnext := Meets.remainder h hform htext hin
      have hxs : (Line.ofText text).chain = xs := by
        rw [Line.chain_of_branch hform, if_neg htext, Line.chainOf_eq] at hchain
        exact (List.cons.inj hchain).2
      obtain ⟨hfirst, hothers⟩ := ih hnext hxs
      rw [process_of_remainder hform htext hin]
      exact hfirst.trans hothers
    · rw [process_of_alone hrest]
      exact Keeps.refl _

/-- What is read behind some point of the reading. -/
theorem Passes.keeps (h : Passes start line ls s n rest) (hstart : start.Sound (branchFirst ls)) :
    s.Keeps (Found start line ls) (start.readFrom line ls) := by
  have hread : s.Keeps (Found start line ls) (s.readFrom n rest) := by
    induction rest generalizing s n with
    | nil => exact Keeps.refl s
    | cons l rest ih =>
      cases hblank : l.form.isBlank with
      | true =>
        rw [readFrom_cons_of_blank hblank]
        exact ih (h.blank hblank)
      | false =>
        rw [readFrom_cons_of_not_blank hblank]
        obtain ⟨hfirst, hothers⟩ := (Meets.whole h hblank).keeps hstart
        exact hfirst.trans (hothers.trans (ih (h.line hblank)))
  have hsame : s.readFrom n rest = start.readFrom line ls := by
    clear hread
    induction h with
    | start => rfl
    | blank _ hblank ih => rwa [readFrom_cons_of_blank hblank] at ih
    | line _ hblank ih => rwa [readFrom_cons_of_not_blank hblank] at ih
  rwa [hsame] at hread

end BodyState

/-! ### A whole body -/

namespace Body

/-- The lines of a body that are read behind its position annotation, and the remainders with them. -/
def Meets (supply : Nat) (texts : List String) : BodyState → Nat → Bool → Line → Prop :=
  BodyState.Meets { supply } (skipped (Line.ofTexts texts)) (content (Line.ofTexts texts))

variable {supply : Nat} {texts : List String} {s : BodyState} {n : Nat} {branchFollows : Bool} {l : Line}

theorem Meets.sound (h : Meets supply texts s n branchFollows l) : s.Sound l.form.isBranch :=
  BodyState.Meets.sound h ((BodyState.start_quiet supply).sound _)

/-- The issues of a body: they stand on its lines, and nesting is reported where a line is refused. -/
def Found (supply : Nat) (texts : List String) (i : Issue) : Prop :=
  i.line < texts.length ∧ ∀ limit, i.cause = .nestingTooDeep limit → limit = nestingLimit ∧
    ∃ s branchFollows l, Meets supply texts s i.line branchFollows l ∧ s.Refuses branchFollows l

theorem Found.of_readFrom {i : Issue} (h : BodyState.Found { supply } (skipped (Line.ofTexts texts))
    (content (Line.ofTexts texts)) i) : Found supply texts i := by
  refine ⟨?_, h.2⟩
  have hlength : skipped (Line.ofTexts texts) + (content (Line.ofTexts texts)).length = texts.length := by
    rw [content, List.length_drop, Nat.add_sub_cancel' (skipped_le _), Line.length_ofTexts]
  exact hlength ▸ h.1

/-- What is read behind some point of the reading, and then everything is finished. -/
theorem keeps_lastState (hne : texts ≠ [])
    (h : s.Keeps (BodyState.Found { supply } (skipped (Line.ofTexts texts)) (content (Line.ofTexts texts)))
      (BodyState.readFrom { supply } (skipped (Line.ofTexts texts)) (content (Line.ofTexts texts)))) :
    s.Keeps (Found supply texts) (lastState supply (Line.ofTexts texts)) := by
  refine (h.mono fun _ => Found.of_readFrom).trans (BodyState.Keeps.closeAll
    (fun cause hcause => ?_) (pending_readFrom supply _))
  refine ⟨?_, fun limit hlimit => absurd hlimit (hcause limit)⟩
  have hpos := List.length_pos_iff.mpr hne
  dsimp only
  rw [Line.length_ofTexts]
  omega

/-- Where the issues of a body stand. -/
theorem found_of_mem_issues {i : Issue} (h : i ∈ (read supply texts).1.issues) : Found supply texts i := by
  rw [read_eq, List.mem_reverse] at h
  rcases eq_or_ne texts [] with rfl | hne
  · exact absurd h List.not_mem_nil
  · have hkeeps := keeps_lastState hne
      (BodyState.Passes.start.keeps ((BodyState.start_quiet supply).sound _))
    exact (hkeeps.news i h).resolve_left List.not_mem_nil

/-- The issues of a body stand on its lines. -/
theorem line_of_mem_issues {i : Issue} (h : i ∈ (read supply texts).1.issues) : i.line < texts.length :=
  (found_of_mem_issues h).1

/-- A line that is refused is reported in the end, and it stands in the tree. -/
theorem kept_of_refuses (h : Meets supply texts s n branchFollows l) (hrefuses : s.Refuses branchFollows l) :
    ⟨.nestingTooDeep nestingLimit, n⟩ ∈ (read supply texts).1.issues ∧
      ∃ m : Mark, m.span = some ⟨n, n⟩ ∧
        .item (.leaf m (.raw l.text .unrecognized)) ∈ Item.nodesIn (read supply texts).1.items := by
  have hstart := (BodyState.start_quiet supply).sound (branchFirst (content (Line.ofTexts texts)))
  have hne : texts ≠ [] := by
    rintro rfl
    exact absurd (BodyState.Meets.lt h) (Nat.not_lt_zero n)
  obtain ⟨rest, hpasses⟩ := BodyState.Meets.exists_passes h
  have hkeeps := keeps_lastState hne
    ((BodyState.Meets.keeps h hstart).2.trans (hpasses.keeps hstart))
  obtain ⟨hissue, m, hspan, hnode⟩ := BodyState.kept_of_refuses h.sound hrefuses
  have hlast := hkeeps.nodes _ hnode rfl
  rw [BodyState.nodes, frames_lastState, List.flatMap_nil, List.append_nil] at hlast
  rw [read_eq]
  exact ⟨List.mem_reverse.mpr (hkeeps.issues hissue), m, hspan, Item.mem_nodesIn_reverse.mpr hlast⟩

end Body

end StoryScript
