import StoryScript.Proofs.Body.Lossless
import StoryScript.Proofs.Body.Reading
import StoryScript.Proofs.Line.Section

/-!
# Where choices and other lines are put

In a body without conditionals the place of an item can be read off the lines (`Body.placed_read`). A choice
is put into the nearest choice before it of a lower depth, every other line but a stitch header into the
nearest choice before it, of whatever depth; a stitch header forgets all choices before it.

The choices that are open form a monotone stack (`Line.stillOpen`): a choice ends those of the same or a
greater depth. What matters is that no choice of a lower depth is ever lost that way, so the nearest one is
still open when it is looked for (`Line.find?_stillOpen`). The reader keeps just this stack as long as no
choice is refused (`BodyState.Positioned`).
-/

namespace StoryScript

/-! ### Choice lines -/

/-- Whether a line opens nothing and begins no stitch. -/
def LineForm.isContent : LineForm → Bool
  | .stitchHeader _ | .choice .. | .conditionalOpen => false
  | _ => true

namespace Line

/-- The choice lines among the first `n` lines, back to the last stitch header, each with its depth. The nearest
one comes first. -/
def choicesBefore (ls : List Line) : Nat → List (Nat × Nat)
  | 0 => []
  | n + 1 =>
    match (ls[n]?).map Line.form with
    | some (.stitchHeader _) => []
    | some (.choice depth _) => (n, depth) :: choicesBefore ls n
    | _ => choicesBefore ls n

/-- The nearest choice line in front of line `n` with no stitch header in between. -/
def choiceBefore? (ls : List Line) (n : Nat) : Option Nat := ((choicesBefore ls n).head?).map Prod.fst

/-- The nearest one of a depth lower than `depth`. -/
def choiceAbove? (ls : List Line) (n depth : Nat) : Option Nat :=
  ((choicesBefore ls n).find? fun x => x.2 < depth).map Prod.fst

/-- Of choices, the nearest one first, those that are still open: a choice ends those before it of the same or a
greater depth. -/
def stillOpen : List (Nat × Nat) → List (Nat × Nat)
  | [] => []
  | x :: xs => x :: (stillOpen xs).dropWhile fun y => x.2 ≤ y.2

theorem head?_stillOpen (xs : List (Nat × Nat)) : (stillOpen xs).head? = xs.head? := by
  cases xs <;> rfl

theorem find?_dropWhile_of_imp {α : Type} {p q : α → Bool} (h : ∀ x, p x = true → q x = false)
    (xs : List α) : (xs.dropWhile p).find? q = xs.find? q := by
  induction xs with
  | nil => rfl
  | cons x xs ih =>
    cases hp : p x with
    | true => rw [List.dropWhile_cons_of_pos hp, ih, List.find?_cons_of_neg (by simp [h x hp])]
    | false => rw [List.dropWhile_cons_of_neg (by simp [hp])]

/-- What a choice ends is of no use for one of a lower depth, which ends that choice too. -/
theorem find?_stillOpen (depth : Nat) (xs : List (Nat × Nat)) :
    (stillOpen xs).find? (fun x => x.2 < depth) = xs.find? fun x => x.2 < depth := by
  induction xs with
  | nil => rfl
  | cons x xs ih =>
    rw [stillOpen]
    by_cases hx : x.2 < depth
    · rw [List.find?_cons_of_pos (by simpa using hx), List.find?_cons_of_pos (by simpa using hx)]
    · rw [List.find?_cons_of_neg (by simpa using hx), List.find?_cons_of_neg (by simpa using hx),
        find?_dropWhile_of_imp (fun y hy => ?_), ih]
      simp only [decide_eq_true_eq, decide_eq_false_iff_not] at hy ⊢
      omega

/-- The innermost open choice that one of the given depth does not end. -/
theorem head?_dropWhile_stillOpen (depth : Nat) (xs : List (Nat × Nat)) :
    ((stillOpen xs).dropWhile fun x => depth ≤ x.2).head? = xs.find? fun x => x.2 < depth := by
  have hnot : (fun x : Nat × Nat => decide (depth ≤ x.2)) = fun x => !decide (x.2 < depth) := by
    funext x
    rw [← decide_not, decide_eq_decide, Nat.not_lt]
  rw [hnot, ← find?_stillOpen, List.find?_eq_head?_dropWhile_not]

variable {ls : List Line} {n : Nat} {l : Line}

theorem choicesBefore_of_stitchHeader {name : String} (hl : ls[n]? = some l)
    (hform : l.form = .stitchHeader name) : choicesBefore ls (n + 1) = [] := by
  simp [choicesBefore, hl, hform]

theorem choicesBefore_of_choice {depth : Nat} {head : ChoiceHead} (hl : ls[n]? = some l)
    (hform : l.form = .choice depth head) :
    choicesBefore ls (n + 1) = (n, depth) :: choicesBefore ls n := by
  simp [choicesBefore, hl, hform]

theorem choicesBefore_of_isContent (hl : ls[n]? = some l) (h : l.form.isContent = true) :
    choicesBefore ls (n + 1) = choicesBefore ls n := by
  rw [choicesBefore, hl, Option.map_some]
  cases hform : l.form <;> simp_all [LineForm.isContent]

end Line

/-! ### Items and frames in their places -/

/-- A divert on a line whose nearest choice is on line `n`, which may take it over. -/
def Line.EndsChoice (ls : List Line) (n : Nat) (target : String) : Prop :=
  ∃ (k : Nat) (l : Line), ls[k]? = some l ∧ .divert target ∈ l.leaves ∧ choiceBefore? ls k = some n

/-- A leaf of line `n` in the choice that begins on line `parent`, or at the root. -/
inductive Line.Puts (ls : List Line) (n : Nat) (l : Line) : Option Nat → Leaf → Prop
  | stitch {name : String} (hform : l.form = .stitchHeader name) : Puts ls n l none (.stitch name)
  | content {leaf : Leaf} (hform : l.form.isContent = true) (hleaf : leaf ∈ l.leaves) :
      Puts ls n l (choiceBefore? ls n) leaf

theorem Line.Puts.of_divert {ls : List Line} {n : Nat} {l : Line} {parent : Option Nat} {target : String}
    (h : Puts ls n l parent (.divert target)) : .divert target ∈ l.leaves ∧ parent = choiceBefore? ls n := by
  cases h with
  | content hform hleaf => exact ⟨hleaf, rfl⟩

mutual

/-- An item in the choice that begins on line `parent`, or at the root, and everything in it in its place. -/
def Item.Placed (ls : List Line) : Option Nat → Item → Prop
  | parent, .leaf m lf => ∃ n l, ls[n]? = some l ∧ m.span = some ⟨n, n⟩ ∧ Line.Puts ls n l parent lf
  | parent, .choice m h c => ∃ n last l depth head, ls[n]? = some l ∧ l.form = .choice depth head ∧
      m.span = some ⟨n, last⟩ ∧ h = { head with divert := h.divert } ∧
      (h.divert = head.divert ∨ ∃ t, h.divert = some t ∧ Line.EndsChoice ls n t) ∧
      parent = Line.choiceAbove? ls n depth ∧ Item.PlacedIn ls (some n) c
  | _, .conditional _ _ => False

/-- The items of one container. -/
def Item.PlacedIn (ls : List Line) : Option Nat → List Item → Prop
  | _, [] => True
  | parent, i :: is => i.Placed ls parent ∧ Item.PlacedIn ls parent is

end

variable {ls : List Line} {parent : Option Nat}

theorem Item.placedIn_iff {is : List Item} : PlacedIn ls parent is ↔ ∀ i ∈ is, i.Placed ls parent := by
  induction is with
  | nil => simp [PlacedIn]
  | cons i is ih => rw [PlacedIn, ih, List.forall_mem_cons]

namespace Frame

/-- The line and the depth of a choice. -/
def place? : Frame → Option (Nat × Nat)
  | choice m depth _ _ => some (m.span.first, depth)
  | branch .. => none

/-- An open choice in its place, with what it holds. -/
def Placed (ls : List Line) (parent : Option Nat) : Frame → Prop
  | choice m depth head c => ∃ l, ls[m.span.first]? = some l ∧ l.form = .choice depth head ∧
      parent = Line.choiceAbove? ls m.span.first depth ∧ ∀ i ∈ c, i.Placed ls (some m.span.first)
  | branch .. => False

variable {f : Frame}

@[simp] theorem place?_add (i : Item) : (f.add i).place? = f.place? := by cases f <;> rfl

@[simp] theorem place?_extend (line : Nat) : (f.extend line).place? = f.place? := by cases f <;> rfl

theorem Placed.extend (h : f.Placed ls parent) (line : Nat) : (f.extend line).Placed ls parent := by
  cases f with
  | choice m d hd c => exact h
  | branch k bs m g c => exact h

theorem Placed.add (h : f.Placed ls parent) {i : Item} (hi : i.Placed ls (f.place?.map Prod.fst)) :
    (f.add i).Placed ls parent := by
  cases f with
  | choice m d hd c =>
    obtain ⟨l, hl, hform, hparent, hc⟩ := h
    exact ⟨l, hl, hform, hparent, List.forall_mem_cons.mpr ⟨hi, hc⟩⟩
  | branch k bs m g c => exact h

/-- A divert in a choice stands on a line whose nearest choice it is, so it may be taken over. -/
theorem placed_hoist {n : Nat} (d : Option String) {c : List Item}
    (h : ∀ i ∈ c, i.Placed ls (some n)) :
    ((hoist d c).1 = d ∨ ∃ t, (hoist d c).1 = some t ∧ Line.EndsChoice ls n t) ∧
      Item.PlacedIn ls (some n) (hoist d c).2 := by
  unfold hoist
  split
  · next lm t rest =>
    obtain ⟨k, l, hl, -, hputs⟩ := h _ List.mem_cons_self
    obtain ⟨hleaf, hbefore⟩ := hputs.of_divert
    exact ⟨Or.inr ⟨t, rfl, k, l, hl, hleaf, hbefore.symm⟩, Item.placedIn_iff.mpr fun i hi =>
      h i (List.mem_cons_of_mem _ (List.mem_reverse.mp hi))⟩
  · exact ⟨Or.inl rfl, Item.placedIn_iff.mpr fun i hi => h i (List.mem_reverse.mp hi)⟩

theorem Placed.close (h : f.Placed ls parent) : f.close.Placed ls parent := by
  cases f with
  | branch k bs m g c => exact h.elim
  | choice m d hd c =>
    obtain ⟨l, hl, hform, hparent, hc⟩ := h
    obtain ⟨hdivert, hcontent⟩ := placed_hoist hd.divert hc
    exact ⟨m.span.first, m.span.last, l, d, hd, hl, hform, rfl, rfl, hdivert, hparent, hcontent⟩

end Frame

namespace BodyState

/-! ### Bodies without conditionals -/

/-- Nothing but choices is open. -/
structure Plain (s : BodyState) : Prop where
  pending : s.pending = none
  frames : ∀ f ∈ s.frames, f.isBranch = false

variable {s : BodyState} {n : Nat} {l : Line}

theorem Plain.inConditional (h : s.Plain) : s.inConditional = false := by
  have hframes : s.frames.any Frame.isBranch = false := by simpa using h.frames
  rw [BodyState.inConditional, h.pending, hframes]
  rfl

/-- What is left behind a branch label is read inside a conditional only. -/
theorem Plain.process_eq (h : s.Plain) (branchFollows : Bool) (n : Nat) (l : Line) :
    s.process branchFollows n l = s.apply branchFollows n l := by
  unfold process
  rw [h.inConditional]
  split
  · rfl
  · next hbranch =>
    have hnot : ∀ guard rest, l.form ≠ .branch guard rest := fun guard rest hform =>
      hbranch (by simp [hform, LineForm.isBranch])
    rw [Line.chain_of_not_branch hnot]
    rfl

/-- So a line is put where the reader is, as it is, unless it begins a stitch or a choice. -/
theorem Plain.apply_of_isContent (h : s.Plain) (branchFollows : Bool) (hl : l.form.isContent = true) :
    s.apply branchFollows n l = s.appendLine n l := by
  unfold apply
  cases hform : l.form <;>
    simp_all [LineForm.isContent, h.inConditional, interrupt_of_pending_none n h.pending]

theorem appendLine_eq (n : Nat) (l : Line) (s : BodyState) :
    s.appendLine n l = l.leaves.foldl (fun s leaf => s.append n leaf) s := by
  unfold appendLine Line.leaves
  cases l.form with
  | text content divert => cases divert <;> rfl
  | _ => rfl

theorem Plain.pop (h : s.Plain) : s.pop.Plain := by
  refine ⟨(pop_pending s).trans h.pending, fun f hf => ?_⟩
  cases hfs : s.frames with
  | nil => simp [pop_of_frames_nil hfs, hfs] at hf
  | cons g gs =>
    have hrest : ∀ f ∈ gs, f.isBranch = false := fun f hf => h.frames f (hfs ▸ List.mem_cons_of_mem _ hf)
    rw [pop_of_frames hfs] at hf
    unfold BodyState.add at hf
    cases gs with
    | nil => simp at hf
    | cons g' gs =>
      rcases List.mem_cons.mp hf with rfl | hf
      · rw [Frame.isBranch_add]
        exact hrest g' List.mem_cons_self
      · exact hrest f (List.mem_cons_of_mem _ hf)

theorem Plain.extend (h : s.Plain) (n : Nat) : (s.extend n).Plain := by
  refine ⟨by simp [BodyState.extend, h.pending], fun f hf => ?_⟩
  obtain ⟨g, hg, rfl⟩ := List.mem_map.mp hf
  rw [Frame.isBranch_extend]
  exact h.frames g hg

theorem Plain.append (h : s.Plain) (n : Nat) (leaf : Leaf) : (s.append n leaf).Plain := by
  refine Plain.extend (s := BodyState.add _ (s.draw n)) ?_ n
  refine ⟨by rw [add_pending]; exact h.pending, fun f hf => ?_⟩
  unfold BodyState.add at hf
  cases hfs : s.frames with
  | nil => simp [hfs] at hf
  | cons g gs =>
    simp only [draw_frames, hfs, List.mem_cons] at hf
    rcases hf with rfl | hf
    · rw [Frame.isBranch_add]
      exact h.frames g (hfs ▸ List.mem_cons_self)
    · exact h.frames f (hfs ▸ List.mem_cons_of_mem _ hf)

theorem Plain.appendLine (h : s.Plain) (n : Nat) (l : Line) : (s.appendLine n l).Plain := by
  rw [appendLine_eq]
  induction l.leaves generalizing s with
  | nil => exact h
  | cons leaf leaves ih => exact ih (h.append n leaf)

theorem Plain.openStitch (h : s.Plain) (n : Nat) (name : String) : (s.openStitch n name).Plain := by
  obtain ⟨t, heq, -, hframes, hpending, -⟩ := s.exists_openStitch_eq n name
  rw [closeAll_pending n h.pending] at hpending
  rw [closeAll_frames n h.pending] at hframes
  rw [heq]
  exact Plain.append ⟨hpending, by simp [hframes]⟩ n _

theorem Plain.openChoice (h : s.Plain) (n : Nat) (text : String) (depth : Nat) (head : ChoiceHead) :
    (s.openChoice n text depth head).Plain := by
  have hpopped : (s.popWhile (·.endsAtChoice depth)).Plain :=
    popWhile_induction (fun _ ht => ht.pop) _ h
  have hextended := hpopped.extend n
  unfold BodyState.openChoice
  dsimp only
  split
  · exact ⟨hextended.pending, List.forall_mem_cons.mpr ⟨rfl, hextended.frames⟩⟩
  · exact Plain.append (s := report n _ _) ⟨hpopped.pending, hpopped.frames⟩ n _

/-! ### No choice refused -/

/-- No line was refused so far. -/
def Roomy (s : BodyState) : Prop := ∀ i ∈ s.issues, ∀ limit, i.cause ≠ .nestingTooDeep limit

theorem issues_add (i : Item) (s : BodyState) : (s.add i).issues = s.issues := by
  unfold BodyState.add
  split <;> rfl

theorem issues_append (n : Nat) (leaf : Leaf) (s : BodyState) : (s.append n leaf).issues = s.issues :=
  issues_add _ _

theorem issues_pop (s : BodyState) : s.pop.issues = s.issues := by
  unfold BodyState.pop
  split
  · rfl
  · exact issues_add _ _

theorem Roomy.of_report {cause : IssueCause} (h : (s.report n cause).Roomy) : s.Roomy :=
  fun i hi => h i (List.mem_cons_of_mem _ hi)

/-- What is refused is reported, and no report is withdrawn. -/
theorem Roomy.of_closeAll (h : (s.closeAll n).Roomy) (hp : s.pending = none) : s.Roomy :=
  closeAll_induction (P := fun t => t.Roomy → s.Roomy) n
    (fun t ht htp => ht (fun i hi => htp i (by rwa [issues_pop])))
    (fun _ ht htr => ht htr.of_report) hp (fun hs => hs) h

theorem Roomy.of_openStitch {name : String} (h : (s.openStitch n name).Roomy) (hp : s.pending = none) :
    s.Roomy := by
  obtain ⟨t, heq, -, -, -, hissues⟩ := s.exists_openStitch_eq n name
  rw [heq] at h
  exact Roomy.of_closeAll (fun i hi => h i (by rw [issues_append]; exact hissues hi)) hp

theorem issues_popWhile (p : Frame → Bool) (s : BodyState) : (s.popWhile p).issues = s.issues :=
  popWhile_induction (P := fun t => t.issues = s.issues) (fun t ht => (issues_pop t).trans ht) p rfl

/-- A choice that was not refused found room, and opened a frame. -/
theorem Roomy.of_openChoice {text : String} {depth : Nat} {head : ChoiceHead}
    (h : (s.openChoice n text depth head).Roomy) : s.Roomy ∧
      (s.popWhile (·.endsAtChoice depth)).hasRoom = true := by
  unfold BodyState.openChoice at h
  dsimp only at h
  split at h
  · next hroom => exact ⟨fun i hi => h i (by rw [← issues_popWhile] at hi; exact hi), hroom⟩
  · refine absurd rfl (h ⟨.nestingTooDeep nestingLimit, n⟩ ?_ nestingLimit)
    rw [refuse, issues_append]
    exact List.mem_cons_self

theorem issues_appendLine (n : Nat) (l : Line) (s : BodyState) :
    (s.appendLine n l).issues = s.issues := by
  rw [appendLine_eq]
  induction l.leaves generalizing s with
  | nil => rfl
  | cons leaf leaves ih => rw [List.foldl_cons, ih, issues_append]

/-! ### The invariant of the reader -/

/-- Where a container begins, if it is a choice. -/
def beginOf : List Frame → Option Nat
  | [] => none
  | f :: _ => f.place?.map Prod.fst

/-- Open choices, each in its place in the one below it. -/
def PlacedOn (ls : List Line) (root : List Item) : List Frame → Prop
  | [] => ∀ i ∈ root, i.Placed ls none
  | f :: fs => f.Placed ls (beginOf fs) ∧ PlacedOn ls root fs

/-- Everything has been put in its place, and the choices `xs` are open. -/
structure Positioned (ls : List Line) (xs : List (Nat × Nat)) (s : BodyState) : Prop where
  frames : s.frames.map Frame.place? = xs.map some
  placed : PlacedOn ls s.root s.frames

variable {xs : List (Nat × Nat)}

theorem Positioned.beginOf_eq (h : s.Positioned ls xs) : beginOf s.frames = xs.head?.map Prod.fst := by
  have hframes := h.frames
  cases hfs : s.frames with
  | nil =>
    rw [hfs] at hframes
    rw [List.map_eq_nil_iff.mp hframes.symm]
    rfl
  | cons f fs =>
    rw [hfs] at hframes
    cases xs with
    | nil => simp at hframes
    | cons x xs =>
      rw [List.map_cons, List.map_cons, List.cons.injEq] at hframes
      rw [beginOf, hframes.1]
      rfl

theorem beginOf_extend (n : Nat) (fs : List Frame) : beginOf (fs.map (·.extend n)) = beginOf fs := by
  cases fs with
  | nil => rfl
  | cons f fs => simp [beginOf]

theorem Positioned.extend (h : s.Positioned ls xs) (n : Nat) : (s.extend n).Positioned ls xs := by
  refine ⟨?_, ?_⟩
  · rw [← h.frames, BodyState.extend, List.map_map]
    exact List.map_congr_left fun f _ => Frame.place?_extend n
  · have hplaced : ∀ fs, PlacedOn ls s.root fs → PlacedOn ls s.root (fs.map (·.extend n)) := by
      intro fs hfs
      induction fs with
      | nil => exact hfs
      | cons f fs ih =>
        refine ⟨?_, ih hfs.2⟩
        rw [beginOf_extend]
        exact hfs.1.extend n
    exact hplaced _ h.placed

/-- An item that belongs into the innermost choice is put there. -/
theorem Positioned.add (h : s.Positioned ls xs) {i : Item} (hi : i.Placed ls (beginOf s.frames)) :
    (s.add i).Positioned ls xs := by
  obtain ⟨hframes, hplaced⟩ := h
  unfold BodyState.add
  cases hfs : s.frames with
  | nil =>
    rw [hfs] at hframes hplaced hi
    exact ⟨hframes, List.forall_mem_cons.mpr ⟨hi, hplaced⟩⟩
  | cons f fs =>
    rw [hfs] at hframes hplaced hi
    refine ⟨?_, hplaced.1.add hi, hplaced.2⟩
    rw [List.map_cons, Frame.place?_add]
    exact hframes

theorem Positioned.pop (h : s.Positioned ls xs) : s.pop.Positioned ls xs.tail := by
  cases hfs : s.frames with
  | nil =>
    have hframes := h.frames
    rw [hfs] at hframes
    obtain rfl := List.map_eq_nil_iff.mp hframes.symm
    rwa [pop_of_frames_nil hfs]
  | cons f fs =>
    obtain ⟨hframes, hplaced⟩ := h
    rw [hfs] at hframes hplaced
    rw [pop_of_frames hfs]
    refine Positioned.add (s := { s with frames := fs, spans := _ }) ⟨?_, hplaced.2⟩ hplaced.1.close
    cases xs with
    | nil => simp at hframes
    | cons x xs => exact (List.cons.inj hframes).2

/-- A choice finishes the open ones of the same or a greater depth. -/
theorem Positioned.popWhile (h : s.Positioned ls xs) (depth : Nat) :
    (s.popWhile (·.endsAtChoice depth)).Positioned ls (xs.dropWhile fun x => depth ≤ x.2) := by
  induction xs generalizing s with
  | nil =>
    have hfs : s.frames = [] := List.map_eq_nil_iff.mp h.frames
    rwa [popWhile_of_nil hfs]
  | cons x xs ih =>
    have hframes := h.frames
    obtain ⟨f, fs, hfs⟩ : ∃ f fs, s.frames = f :: fs := by
      cases hfs : s.frames with
      | nil => simp [hfs] at hframes
      | cons f fs => exact ⟨f, fs, rfl⟩
    have hends : f.endsAtChoice depth = decide (depth ≤ x.2) := by
      rw [hfs, List.map_cons, List.map_cons, List.cons.injEq] at hframes
      cases f with
      | choice m d hd c =>
        obtain rfl := Option.some.inj hframes.1
        rfl
      | branch k bs m g c => simp [Frame.place?] at hframes
    by_cases hx : depth ≤ x.2
    · rw [List.dropWhile_cons_of_pos (by simpa using hx),
        popWhile_of_pos (fun f i => Frame.endsAtChoice_add f i depth) hfs (by simpa [hends] using hx)]
      exact ih h.pop
    · rw [List.dropWhile_cons_of_neg (by simpa using hx),
        popWhile_of_neg hfs (by simpa [hends] using hx)]
      exact h

/-- When everything is finished, all items are in their places. -/
theorem Positioned.closeAll (h : s.Positioned ls xs) (n : Nat) (hp : s.pending = none) :
    (s.closeAll n).Positioned ls [] := by
  obtain ⟨ys, hclosed⟩ : ∃ ys, (s.closeAll n).Positioned ls ys :=
    closeAll_induction (P := fun t => ∃ ys, t.Positioned ls ys) n (fun _ ht => ⟨_, ht.choose_spec.pop⟩)
      (fun _ ht => ⟨_, ht.choose_spec.frames, ht.choose_spec.placed⟩) hp ⟨xs, h⟩
  have hframes := hclosed.frames
  rw [closeAll_frames n hp] at hframes
  obtain rfl := List.map_eq_nil_iff.mp hframes.symm
  exact hclosed

theorem Positioned.append (h : s.Positioned ls xs) (hl : ls[n]? = some l) {leaf : Leaf}
    (hleaf : Line.Puts ls n l (beginOf s.frames) leaf) : (s.append n leaf).Positioned ls xs :=
  Positioned.extend (Positioned.add (s := s.draw n)
    (i := .leaf ⟨.fresh s.supply, some ⟨n, n⟩⟩ leaf) ⟨h.frames, h.placed⟩ ⟨n, l, hl, rfl, hleaf⟩) n

/-- A line of content is put into the nearest choice, which is the innermost one. -/
theorem Positioned.appendLine (h : s.Positioned ls xs) (hl : ls[n]? = some l)
    (hform : l.form.isContent = true) (hbegin : xs.head?.map Prod.fst = Line.choiceBefore? ls n) :
    (s.appendLine n l).Positioned ls xs := by
  have hleaves : ∀ (leaves : List Leaf) (t : BodyState), (∀ leaf ∈ leaves, leaf ∈ l.leaves) →
      t.Positioned ls xs → (leaves.foldl (fun t leaf => t.append n leaf) t).Positioned ls xs := by
    intro leaves
    induction leaves with
    | nil => exact fun t _ ht => ht
    | cons leaf leaves ih =>
      intro t hall ht
      rw [List.forall_mem_cons] at hall
      refine ih _ hall.2 (ht.append hl ?_)
      rw [ht.beginOf_eq, hbegin]
      exact .content hform hall.1
  rw [appendLine_eq]
  exact hleaves _ s (fun _ hleaf => hleaf) h

theorem Positioned.openStitch (h : s.Positioned ls xs) (hp : s.pending = none) (hl : ls[n]? = some l)
    {name : String} (hform : l.form = .stitchHeader name) : (s.openStitch n name).Positioned ls [] := by
  have hclosed := h.closeAll n hp
  obtain ⟨t, heq, hroot, hframes, -⟩ := s.exists_openStitch_eq n name
  rw [heq]
  refine Positioned.append ⟨by rw [hframes]; exact hclosed.frames, ?_⟩ hl ?_
  · rw [hroot, hframes]
    exact hclosed.placed
  · rw [hframes, closeAll_frames n hp]
    exact .stitch hform

/-- A choice that finds room is put into the nearest one that it does not end. -/
theorem Positioned.openChoice (h : s.Positioned ls (Line.stillOpen (Line.choicesBefore ls n)))
    (hl : ls[n]? = some l) {text : String} {depth : Nat} {head : ChoiceHead}
    (hform : l.form = .choice depth head) (hroom : (s.popWhile (·.endsAtChoice depth)).hasRoom = true) :
    (s.openChoice n text depth head).Positioned ls
      (Line.stillOpen (Line.choicesBefore ls (n + 1))) := by
  have hpopped := h.popWhile depth
  have hbegin := hpopped.beginOf_eq
  rw [Line.head?_dropWhile_stillOpen] at hbegin
  have hextended := hpopped.extend n
  unfold BodyState.openChoice
  dsimp only
  rw [if_pos hroom, Line.choicesBefore_of_choice hl hform, Line.stillOpen]
  refine ⟨?_, ⟨l, hl, hform, ?_, by simp⟩, hextended.placed⟩
  · rw [List.map_cons, hextended.frames]
    rfl
  · rw [BodyState.extend, beginOf_extend]
    exact hbegin

/-! ### From line to line -/

/-- Behind `n` lines: only choices are open, and if no line was refused then everything is in its place. -/
structure Settles (ls : List Line) (n : Nat) (s : BodyState) : Prop where
  plain : s.Plain
  positioned : s.Roomy → s.Positioned ls (Line.stillOpen (Line.choicesBefore ls n))

/-- A line that is neither blank nor opens a conditional. -/
theorem Settles.process (h : s.Settles ls n) (hl : ls[n]? = some l) (hopen : l.form ≠ .conditionalOpen)
    (branchFollows : Bool) : (s.process branchFollows n l).Settles ls (n + 1) := by
  rw [h.plain.process_eq]
  -- only a stitch header or a choice line changes which choices are open
  by_cases hcontent : l.form.isContent = true
  · rw [h.plain.apply_of_isContent branchFollows hcontent]
    refine ⟨?_, fun hroomy => ?_⟩
    · exact h.plain.appendLine n l
    · rw [Line.choicesBefore_of_isContent hl hcontent]
      refine (h.positioned fun i hi => hroomy i ?_).appendLine hl hcontent ?_
      · rwa [issues_appendLine]
      · rw [Line.head?_stillOpen]
        rfl
  · cases hform : l.form with
    | stitchHeader name =>
      have heq : s.apply branchFollows n l = s.openStitch n name := by
        unfold BodyState.apply
        rw [hform]
      rw [heq]
      refine ⟨h.plain.openStitch n name, fun hroomy => ?_⟩
      rw [Line.choicesBefore_of_stitchHeader hl hform]
      exact (h.positioned (hroomy.of_openStitch h.plain.pending)).openStitch h.plain.pending hl hform
    | choice depth head =>
      have heq : s.apply branchFollows n l = s.openChoice n l.text depth head := by
        unfold BodyState.apply
        rw [hform]
        dsimp only
        rw [interrupt_of_pending_none n h.plain.pending]
      rw [heq]
      refine ⟨h.plain.openChoice n l.text depth head, fun hroomy => ?_⟩
      obtain ⟨hbefore, hroom⟩ := hroomy.of_openChoice
      exact (h.positioned hbefore).openChoice hl hform hroom
    | conditionalOpen => exact absurd hform hopen
    | _ => simp [hform, LineForm.isContent] at hcontent

theorem Settles.readFrom {rest : List Line} (h : s.Settles ls n) (hrest : ls.drop n = rest)
    (hopen : ∀ l ∈ rest, l.form ≠ .conditionalOpen) :
    (s.readFrom n rest).Settles ls (n + rest.length) := by
  induction rest generalizing n s with
  | nil => exact h
  | cons l rest ih =>
    have hl : ls[n]? = some l := by
      rw [← List.head?_drop, hrest]
      rfl
    have hdrop : ls.drop (n + 1) = rest := by
      rw [← List.drop_drop, hrest]
      rfl
    rw [List.forall_mem_cons] at hopen
    rw [List.length_cons, Nat.add_comm rest.length, ← Nat.add_assoc]
    cases hblank : l.form.isBlank with
    | true =>
      rw [readFrom_cons_of_blank hblank]
      have hcontent : l.form.isContent = true := by
        rw [LineForm.isBlank_iff.mp hblank]
        rfl
      -- a blank line does nothing, and is no choice line either
      refine ih ⟨h.plain, ?_⟩ hdrop hopen.2
      rw [Line.choicesBefore_of_isContent hl hcontent]
      exact h.positioned
    | false =>
      rw [readFrom_cons_of_not_blank hblank]
      exact ih (h.process hl hopen.1 _) hdrop hopen.2

end BodyState

/-! ### A whole body -/

/-- In front of the content there are blank lines and a position annotation, and nothing else. -/
theorem Body.isContent_of_lt_skipped {ls : List Line} {i : Nat} {l : Line} (hl : ls[i]? = some l)
    (h : i < skipped ls) : l.form.isContent = true := by
  have hfront : ∀ (ls : List Line) (p : Position) (n i : Nat) (l : Line),
      leadingPosition? ls = some (p, n) → ls[i]? = some l → i < n → l.form.isContent = true := by
    intro ls
    induction ls with
    | nil => simp
    | cons l' ls ih =>
      intro p n i l hlead hl hi
      unfold leadingPosition? at hlead
      split at hlead
      · next hblank =>
        obtain ⟨x, hx, heq⟩ := Option.map_eq_some_iff.mp hlead
        obtain ⟨rfl, rfl⟩ := Prod.mk.inj heq
        cases i with
        | zero =>
          obtain rfl := Option.some.inj hl
          rw [hblank]
          rfl
        | succ i => exact ih x.1 x.2 i l hx hl (Nat.lt_of_succ_lt_succ hi)
      · next hposition =>
        obtain ⟨rfl, rfl⟩ := Prod.mk.inj (Option.some.inj hlead)
        obtain rfl := Nat.lt_one_iff.mp hi
        obtain rfl := Option.some.inj hl
        rw [hposition]
        rfl
      · simp at hlead
  unfold skipped at h
  cases hlead : leadingPosition? ls with
  | none => simp [hlead] at h
  | some x =>
    rw [hlead] at h
    exact hfront ls x.1 x.2 i l hlead hl h

theorem Line.choicesBefore_skipped (ls : List Line) : choicesBefore ls (Body.skipped ls) = [] := by
  have hall : ∀ n ≤ Body.skipped ls, choicesBefore ls n = [] := by
    intro n
    induction n with
    | zero => exact fun _ => rfl
    | succ n ih =>
      intro hn
      have hlt : n < ls.length := Nat.lt_of_lt_of_le hn (Body.skipped_le ls)
      have hl : ls[n]? = some ls[n] := List.getElem?_eq_getElem hlt
      rw [choicesBefore_of_isContent hl (Body.isContent_of_lt_skipped hl hn), ih (Nat.le_of_succ_le hn)]
  exact hall _ (Nat.le_refl _)

mutual

/-- The nodes of a tree in its place are items in their places. -/
theorem Item.Placed.nodes {ls : List Line} : ∀ {i : Item} {parent : Option Nat}, i.Placed ls parent →
    ∀ n ∈ i.nodes, ∃ j parent, n = .item j ∧ j.Placed ls parent
  | .leaf m lf, parent, h => by
    rw [Item.nodes, List.forall_mem_singleton]
    exact ⟨_, parent, rfl, h⟩
  | .choice m hd c, parent, h => by
    rw [Item.nodes, List.forall_mem_cons]
    refine ⟨⟨_, parent, rfl, h⟩, ?_⟩
    obtain ⟨n, last, l, depth, head, -, -, -, -, -, -, hc⟩ := h
    exact Item.PlacedIn.nodes hc
  | .conditional m bs, _, h => h.elim

theorem Item.PlacedIn.nodes {ls : List Line} : ∀ {is : List Item} {parent : Option Nat},
    Item.PlacedIn ls parent is → ∀ n ∈ Item.nodesIn is, ∃ j parent, n = .item j ∧ j.Placed ls parent
  | [], _, _ => by simp [Item.nodesIn]
  | i :: is, _, h => by
    rw [Item.nodesIn, List.forall_mem_append]
    exact ⟨Item.Placed.nodes h.1, Item.PlacedIn.nodes h.2⟩

end

namespace Body

/-- In a body without conditionals in which no choice is refused, every item is in its place. -/
theorem placedIn_read (supply : Nat) {texts : List String}
    (hopen : ∀ l ∈ Line.ofTexts texts, l.form ≠ .conditionalOpen)
    (hroom : ∀ i ∈ (read supply texts).1.issues, i.cause.rule ≠ "nesting-too-deep") :
    Item.PlacedIn (Line.ofTexts texts) none (read supply texts).1.items := by
  have hstart : BodyState.Settles (Line.ofTexts texts) (skipped (Line.ofTexts texts)) { supply } := by
    refine ⟨⟨rfl, by simp⟩, fun _ => ?_⟩
    rw [Line.choicesBefore_skipped]
    exact ⟨rfl, by simp [BodyState.PlacedOn]⟩
  have hread := hstart.readFrom rfl fun l hl => hopen l (List.mem_of_mem_drop hl)
  have hpending := hread.plain.pending
  have hroomy : (lastState supply (Line.ofTexts texts)).Roomy := by
    intro i hi limit hcause
    refine hroom i ?_ (by rw [hcause]; rfl)
    rw [read_eq]
    exact List.mem_reverse.mpr hi
  have hclosed := (hread.positioned (hroomy.of_closeAll hpending)).closeAll
    ((Line.ofTexts texts).length - 1) hpending
  have hplaced := hclosed.placed
  rw [BodyState.closeAll_frames _ hpending] at hplaced
  rw [read_items, Item.placedIn_iff]
  exact fun i hi => hplaced i (List.mem_reverse.mp hi)

/-- In a body without conditionals in which no choice is refused, every item is in its place: a choice in the
nearest choice before it of a lower depth, any other item but a stitch in the nearest choice before it, where a
stitch header is in front of neither. And every choice line begins a choice. -/
theorem placed_read (supply : Nat) {texts : List String}
    (hopen : ∀ l ∈ Line.ofTexts texts, l.form ≠ .conditionalOpen)
    (hroom : ∀ i ∈ (read supply texts).1.issues, i.cause.rule ≠ "nesting-too-deep") :
    Item.PlacedIn (Line.ofTexts texts) none (read supply texts).1.items ∧
      ∀ n l depth head, (Line.ofTexts texts)[n]? = some l → l.form = .choice depth head →
        ∃ m h c last, .item (.choice m h c) ∈ Item.nodesIn (read supply texts).1.items ∧
          m.span = some ⟨n, last⟩ := by
  have hplaced := placedIn_read supply hopen hroom
  refine ⟨hplaced, fun n l depth head hl hform => ?_⟩
  have hskipped : skipped (Line.ofTexts texts) ≤ n := by
    by_contra hlt
    have hcontent := isContent_of_lt_skipped hl (Nat.lt_of_not_le hlt)
    simp [hform, LineForm.isContent] at hcontent
  obtain ⟨x, hx, haccounts⟩ := exists_accounts_read supply hl hskipped (by rw [hform]; rfl)
  -- a choice line is neither a closing brace nor a divert, so the node begins on it
  obtain ⟨last, hspan⟩ : ∃ last, x.mark.span = some ⟨n, last⟩ := by
    cases haccounts with
    | begins hspan => exact ⟨_, hspan⟩
    | closes hcloses => simp [hform] at hcloses
    | diverts hdiverts => simp [hform] at hdiverts
  obtain ⟨i, parent, rfl, hi⟩ := hplaced.nodes x hx
  cases i with
  | leaf m lf =>
    obtain ⟨k, l', hl', hspan', hputs⟩ := hi
    obtain ⟨rfl, rfl⟩ : n = k ∧ last = k := by
      simpa using Option.some.inj (hspan.symm.trans hspan')
    obtain rfl := Option.some.inj (hl.symm.trans hl')
    cases hputs with
    | stitch hstitch => simp [hform] at hstitch
    | content hcontent _ => simp [hform, LineForm.isContent] at hcontent
  | choice m hd c => exact ⟨m, hd, c, last, hx, hspan⟩
  | conditional m bs => exact hi.elim

/-- Depths that jump up and down, with a stitch in between. -/
theorem placed_read_stairs :
    let texts := ["* [Up]", "*** [Far up]", "** [Back]", "quietly", "*** [Up again]", "-> roof", "* [Down]",
      "= cellar", "dark", "** [Light]"]
    Item.PlacedIn (Line.ofTexts texts) none (read 0 texts).1.items ∧
      Line.choiceAbove? (Line.ofTexts texts) 2 2 = some 0 ∧
      Line.choiceAbove? (Line.ofTexts texts) 4 3 = some 2 ∧
      Line.choiceAbove? (Line.ofTexts texts) 9 2 = none := by
  intro texts
  have hopen : ∀ l ∈ Line.ofTexts texts, l.form ≠ .conditionalOpen := by decide +kernel
  have hroom : ∀ i ∈ (read 0 texts).1.issues, i.cause.rule ≠ "nesting-too-deep" := by decide +kernel
  exact ⟨(placed_read 0 hopen hroom).1, by decide +kernel, by decide +kernel, by decide +kernel⟩

end Body

end StoryScript
