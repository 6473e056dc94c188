import StoryScript.Proofs.Body.Identities
import StoryScript.Proofs.Body.Lossless
import StoryScript.Proofs.Body.Reading

/-!
# The lines of a tree mirror the tree

In a tree that has been read a node stands on lines within the lines of the node around it, and no node begins
before the node in front of it ends (`Item.NestedIn`).

The lines of an open container grow with every line that is read, so it is the stack that carries this
(`BodyState.Nests`): every open container lies within the one below it and begins behind what that one holds
already. All of them end on the line that was read last, therefore a container that grows takes those below it
along, and finishing it puts an item into the container below that fits there.
-/

namespace StoryScript

/-! ### Spans -/

/-- A span that lies within another one. -/
structure Span.Within (inner outer : Span) : Prop where
  first : outer.first ≤ inner.first
  ordered : inner.first ≤ inner.last
  last : inner.last ≤ outer.last

/-- One span ends no later than the other one begins. -/
def Mark.Before (m m' : Mark) : Prop := ∀ s ∈ m.span, ∀ s' ∈ m'.span, s.last ≤ s'.first

theorem Span.Within.trans {s t u : Span} (h : s.Within t) (h' : t.Within u) : s.Within u :=
  ⟨Nat.le_trans h'.first h.first, h.ordered, Nat.le_trans h.last h'.last⟩

theorem Span.Within.mono {s t u : Span} (h : s.Within t) (hfirst : u.first ≤ t.first)
    (hlast : t.last ≤ u.last) : s.Within u :=
  ⟨Nat.le_trans hfirst h.first, h.ordered, Nat.le_trans h.last hlast⟩

/-! ### Trees -/

mutual

/-- An item on lines within `around`, and everything in it within its lines. -/
def Item.Nested : Span → Item → Prop
  | around, .leaf m _ => ∃ s, m.span = some s ∧ s.Within around
  | around, .choice m _ c => ∃ s, m.span = some s ∧ s.Within around ∧ Item.NestedIn s c
  | around, .conditional m bs => ∃ s, m.span = some s ∧ s.Within around ∧ Branch.NestedIn s bs

/-- A branch on lines within `around`, and everything in it within its lines. -/
def Branch.Nested : Span → Branch → Prop
  | around, .mk m _ _ c => ∃ s, m.span = some s ∧ s.Within around ∧ Item.NestedIn s c

/-- Items that stand one behind the other within `around`. -/
def Item.NestedIn : Span → List Item → Prop
  | _, [] => True
  | around, i :: is => i.Nested around ∧ (∀ j ∈ is.head?, i.mark.Before j.mark) ∧ Item.NestedIn around is

/-- Branches that stand one behind the other within `around`. -/
def Branch.NestedIn : Span → List Branch → Prop
  | _, [] => True
  | around, b :: bs =>
    b.Nested around ∧ (∀ c ∈ bs.head?, b.mark.Before c.mark) ∧ Branch.NestedIn around bs

end

/-- The nodes of a container that is open, newest first: each fits and lies behind those under it. -/
def Piled {α : Type} (mark : α → Mark) (fits : α → Prop) (xs : List α) : Prop :=
  xs.IsChain (fun x y => (mark y).Before (mark x)) ∧ ∀ x ∈ xs, fits x

theorem piled_nil {α : Type} {mark : α → Mark} {fits : α → Prop} : Piled mark fits [] := by
  simp [Piled]

theorem piled_cons {α : Type} {mark : α → Mark} {fits : α → Prop} {x : α} {xs : List α} :
    Piled mark fits (x :: xs) ↔
      (∀ y ∈ xs.head?, (mark y).Before (mark x)) ∧ fits x ∧ Piled mark fits xs := by
  simp only [Piled, List.isChain_cons, List.forall_mem_cons]
  tauto

theorem Piled.mono {α : Type} {mark : α → Mark} {fits fits' : α → Prop} {xs : List α}
    (h : Piled mark fits xs) (hfits : ∀ x, fits x → fits' x) : Piled mark fits' xs :=
  ⟨h.1, fun x hx => hfits x (h.2 x hx)⟩

variable {around : Span}

namespace Item

theorem nestedIn_iff {is : List Item} : NestedIn around is ↔
    is.IsChain (fun i j => i.mark.Before j.mark) ∧ ∀ i ∈ is, i.Nested around := by
  induction is with
  | nil => simp [NestedIn]
  | cons i is ih =>
    rw [NestedIn, ih, List.isChain_cons, List.forall_mem_cons]
    tauto

theorem nestedIn_reverse {c : List Item} :
    NestedIn around c.reverse ↔ Piled mark (Nested around) c := by
  simp only [nestedIn_iff, Piled, List.isChain_reverse, List.mem_reverse]

theorem Nested.within {i : Item} (h : i.Nested around) : ∃ s, i.mark.span = some s ∧ s.Within around := by
  cases i with
  | leaf m l => exact h
  | choice m hd c => obtain ⟨s, hs, hin, -⟩ := h; exact ⟨s, hs, hin⟩
  | conditional m bs => obtain ⟨s, hs, hin, -⟩ := h; exact ⟨s, hs, hin⟩

theorem Nested.mono {i : Item} (h : i.Nested around) {wider : Span} (hfirst : wider.first ≤ around.first)
    (hlast : around.last ≤ wider.last) : i.Nested wider := by
  cases i with
  | leaf m l => obtain ⟨s, hs, hin⟩ := h; exact ⟨s, hs, hin.mono hfirst hlast⟩
  | choice m hd c => obtain ⟨s, hs, hin, hc⟩ := h; exact ⟨s, hs, hin.mono hfirst hlast, hc⟩
  | conditional m bs => obtain ⟨s, hs, hin, hbs⟩ := h; exact ⟨s, hs, hin.mono hfirst hlast, hbs⟩

end Item

namespace Branch

theorem nestedIn_iff {bs : List Branch} : NestedIn around bs ↔
    bs.IsChain (fun b c => b.mark.Before c.mark) ∧ ∀ b ∈ bs, b.Nested around := by
  induction bs with
  | nil => simp [NestedIn]
  | cons b bs ih =>
    rw [NestedIn, ih, List.isChain_cons, List.forall_mem_cons]
    tauto

theorem nestedIn_reverse {bs : List Branch} :
    NestedIn around bs.reverse ↔ Piled mark (Nested around) bs := by
  simp only [nestedIn_iff, Piled, List.isChain_reverse, List.mem_reverse]

theorem Nested.within {b : Branch} (h : b.Nested around) :
    ∃ s, b.mark.span = some s ∧ s.Within around := by
  cases b with
  | mk m g d c => obtain ⟨s, hs, hin, -⟩ := h; exact ⟨s, hs, hin⟩

theorem Nested.mono {b : Branch} (h : b.Nested around) {wider : Span}
    (hfirst : wider.first ≤ around.first) (hlast : around.last ≤ wider.last) : b.Nested wider := by
  cases b with
  | mk m g d c => obtain ⟨s, hs, hin, hc⟩ := h; exact ⟨s, hs, hin.mono hfirst hlast, hc⟩

end Branch

/-! ### Open containers -/

namespace Frame

/-- The mark of the outermost container in a frame. -/
def outer : Frame → OpenMark
  | choice m _ _ _ => m
  | branch k _ _ _ _ => k

/-- What an open frame holds lies within its lines. -/
def Nested : Frame → Prop
  | choice m _ _ c => Piled Item.mark (Item.Nested m.span) c
  | branch k bs m _ c => Piled Branch.mark (Branch.Nested k.span) bs ∧ m.span.Within k.span ∧
      (∀ b ∈ bs.head?, b.mark.Before m.toMark) ∧ Piled Item.mark (Item.Nested m.span) c

variable {f : Frame} {line : Nat}

@[simp] theorem outer_add (i : Item) : (f.add i).outer = f.outer := by cases f <;> rfl

theorem outer_extend : (f.extend line).outer = f.outer.extend line := by cases f <;> rfl

theorem Nested.content (h : f.Nested) : Piled Item.mark (Item.Nested f.span) f.content := by
  cases f with
  | choice m d hd c => exact h
  | branch k bs m g c => exact h.2.2.2

theorem Nested.span_within (h : f.Nested) (hordered : f.outer.span.first ≤ f.outer.span.last) :
    f.span.Within f.outer.span := by
  cases f with
  | choice m d hd c => exact ⟨Nat.le_refl _, hordered, Nat.le_refl _⟩
  | branch k bs m g c => exact h.2.1

theorem Nested.add (h : f.Nested) {i : Item} (hi : i.Nested f.span)
    (hprev : ∀ j ∈ f.content.head?, j.mark.Before i.mark) : (f.add i).Nested := by
  cases f with
  | choice m d hd c => exact piled_cons.mpr ⟨hprev, hi, h⟩
  | branch k bs m g c =>
    obtain ⟨hbs, hin, hlast, hc⟩ := h
    exact ⟨hbs, hin, hlast, piled_cons.mpr ⟨hprev, hi, hc⟩⟩

/-- A frame may grow. -/
theorem Nested.extend (h : f.Nested) (hspan : f.span.last ≤ line) (houter : f.outer.span.last ≤ line) :
    (f.extend line).Nested := by
  cases f with
  | choice m d hd c => exact h.mono fun i hi => hi.mono (Nat.le_refl _) hspan
  | branch k bs m g c =>
    obtain ⟨hbs, hin, hlast, hc⟩ := h
    refine ⟨hbs.mono fun b hb => hb.mono (Nat.le_refl _) houter, ⟨hin.first, ?_, Nat.le_refl _⟩, ?_,
      hc.mono fun i hi => hi.mono (Nat.le_refl _) hspan⟩
    · exact Nat.le_trans hin.ordered hspan
    · intro b hb s hs s' hs'
      obtain rfl := Option.some.inj hs'
      exact hlast b hb s hs m.span rfl

/-- Taking over a divert leaves the rest as it was. -/
theorem nestedIn_hoist (d : Option String) {c : List Item} {around : Span}
    (h : Piled Item.mark (Item.Nested around) c) : Item.NestedIn around (hoist d c).2 := by
  unfold hoist
  split
  · exact Item.nestedIn_reverse.mpr (piled_cons.mp h).2.2
  · exact Item.nestedIn_reverse.mpr h

theorem nested_closeBranch {m : OpenMark} {g : Guard} {c : List Item} {around : Span}
    (hin : m.span.Within around) (h : Piled Item.mark (Item.Nested m.span) c) :
    (closeBranch m g c).Nested around :=
  ⟨m.span, rfl, hin, nestedIn_hoist none h⟩

theorem mark_close (f : Frame) : f.close.mark = f.outer.toMark := by cases f <;> rfl

/-- A frame that ends becomes an item on the same lines. -/
theorem Nested.close (h : f.Nested) {around : Span} (hin : f.outer.span.Within around) :
    f.close.Nested around := by
  cases f with
  | choice m d hd c => exact ⟨m.span, rfl, hin, nestedIn_hoist hd.divert h⟩
  | branch k bs m g c =>
    obtain ⟨hbs, hm, hlast, hc⟩ := h
    exact ⟨k.span, rfl, hin, Branch.nestedIn_reverse.mpr
      (piled_cons.mpr ⟨hlast, nested_closeBranch hm hc, hbs⟩)⟩

end Frame

namespace BodyState

/-- The lines of the innermost container, if lines up to `line` have been read. -/
def innerSpan (line : Nat) : List Frame → Span
  | [] => ⟨0, line⟩
  | f :: _ => f.span

/-- A container that may stand behind what the innermost container holds. -/
def Fits (line : Nat) (root : List Item) (frames : List Frame) (m : OpenMark) : Prop :=
  m.span.Within (innerSpan line frames) ∧
    ∀ i ∈ (innermost root frames).head?, i.mark.Before m.toMark

/-- Open containers, each within the one below it and behind what that one holds. -/
def NestsIn (line : Nat) (root : List Item) : List Frame → Prop
  | [] => Piled Item.mark (Item.Nested ⟨0, line⟩) root
  | f :: fs => f.Nested ∧ Fits line root fs f.outer ∧ NestsIn line root fs

/-- What has been read up to `line` is nested. -/
structure Nests (line : Nat) (s : BodyState) : Prop where
  frames : NestsIn line s.root s.frames
  pending : ∀ m ∈ s.pending, Fits line s.root s.frames m

variable {line line' : Nat} {root : List Item} {fs : List Frame} {s : BodyState}

theorem NestsIn.innermost (h : NestsIn line root fs) :
    Piled Item.mark (Item.Nested (innerSpan line fs)) (innermost root fs) := by
  cases fs with
  | nil => exact h
  | cons f fs => exact h.1.content

/-- The innermost container has not been read beyond the last line. -/
theorem NestsIn.innerSpan_within (h : NestsIn line root fs) : (innerSpan line fs).Within ⟨0, line⟩ := by
  induction fs with
  | nil => exact ⟨Nat.le_refl _, Nat.zero_le _, Nat.le_refl _⟩
  | cons f fs ih =>
    obtain ⟨hf, hfits, hrest⟩ := h
    exact ((hf.span_within hfits.1.ordered).trans hfits.1).trans (ih hrest)

theorem innerSpan_extend (line line' : Nat) (fs : List Frame) :
    innerSpan line' (fs.map (·.extend line')) = ⟨(innerSpan line fs).first, line'⟩ := by
  cases fs with
  | nil => rfl
  | cons f fs => exact Frame.span_extend

/-- When everything grows, what fitted still does. -/
theorem Fits.extend {m : OpenMark} (h : Fits line root fs m) (hfs : NestsIn line root fs)
    (hline : line ≤ line') : Fits line' root (fs.map (·.extend line')) (m.extend line') := by
  obtain ⟨hin, hprev⟩ := h
  have hlast : m.span.last ≤ line := Nat.le_trans hin.last hfs.innerSpan_within.last
  refine ⟨?_, fun i hi s hs s' hs' => ?_⟩
  · rw [innerSpan_extend line]
    exact ⟨hin.first, Nat.le_trans (Nat.le_trans hin.ordered hlast) hline, Nat.le_refl _⟩
  · rw [innermost_extend] at hi
    obtain rfl := Option.some.inj hs'
    exact hprev i hi s hs m.span rfl

theorem NestsIn.extend (h : NestsIn line root fs) (hline : line ≤ line') :
    NestsIn line' root (fs.map (·.extend line')) := by
  induction fs with
  | nil => exact Piled.mono h fun i hi => hi.mono (Nat.le_refl _) hline
  | cons f fs ih =>
    have hspan : f.span.last ≤ line := h.innerSpan_within.last
    obtain ⟨hf, hfits, hrest⟩ := h
    have houter : f.outer.span.last ≤ line :=
      Nat.le_trans hfits.1.last hrest.innerSpan_within.last
    refine ⟨hf.extend (Nat.le_trans hspan hline) (Nat.le_trans houter hline), ?_, ih hrest⟩
    rw [Frame.outer_extend]
    exact hfits.extend hrest hline

/-- Without any growth, more lines may have been read. -/
theorem NestsIn.mono (h : NestsIn line root fs) (hline : line ≤ line') : NestsIn line' root fs := by
  induction fs with
  | nil => exact Piled.mono h fun i hi => hi.mono (Nat.le_refl _) hline
  | cons f fs ih =>
    obtain ⟨hf, hfits, hrest⟩ := h
    refine ⟨hf, ⟨?_, hfits.2⟩, ih hrest⟩
    cases fs with
    | nil => exact hfits.1.mono (Nat.le_refl _) hline
    | cons g gs => exact hfits.1

theorem Nests.mono (h : s.Nests line) (hline : line ≤ line') : s.Nests line' := by
  refine ⟨h.frames.mono hline, fun m hm => ⟨?_, (h.pending m hm).2⟩⟩
  cases hfs : s.frames with
  | nil =>
    have hin := (h.pending m hm).1
    rw [hfs] at hin
    exact hin.mono (Nat.le_refl _) hline
  | cons f fs =>
    have hin := (h.pending m hm).1
    rwa [hfs] at hin

theorem Nests.extend (h : s.Nests line) : (s.extend line).Nests line := by
  refine ⟨h.frames.extend (Nat.le_refl _), fun m hm => ?_⟩
  obtain ⟨k, hk, rfl⟩ := Option.map_eq_some_iff.mp hm
  exact (h.pending k hk).extend h.frames (Nat.le_refl _)

/-- Behind everything else a container may be opened on the last line. -/
theorem NestsIn.fits_extend (h : NestsIn line root fs) (id : Id) :
    Fits line root (fs.map (·.extend line)) ⟨id, ⟨line, line⟩⟩ := by
  have hin := h.innerSpan_within
  refine ⟨?_, fun i hi s hs s' hs' => ?_⟩
  · rw [innerSpan_extend line]
    exact ⟨Nat.le_trans hin.ordered hin.last, Nat.le_refl _, Nat.le_refl _⟩
  · rw [innermost_extend] at hi
    obtain rfl := Option.some.inj hs'
    obtain ⟨si, hsi, hwithin⟩ := (h.innermost.2 i (List.mem_of_mem_head? hi)).within
    obtain rfl := Option.some.inj (hs.symm.trans hsi)
    exact Nat.le_trans hwithin.last hin.last

/-- An item that fits may be put into the innermost container. -/
theorem NestsIn.add (h : NestsIn line s.root s.frames) {i : Item}
    (hi : i.Nested (innerSpan line s.frames))
    (hprev : ∀ j ∈ (BodyState.innermost s.root s.frames).head?, j.mark.Before i.mark) :
    NestsIn line (s.add i).root (s.add i).frames := by
  unfold BodyState.add
  cases hfs : s.frames with
  | nil =>
    rw [hfs] at h hi hprev
    exact piled_cons.mpr ⟨hprev, hi, h⟩
  | cons f fs =>
    rw [hfs] at h hi hprev
    obtain ⟨hf, hfits, hrest⟩ := h
    exact ⟨hf.add hi hprev, by rwa [Frame.outer_add], hrest⟩

theorem Nests.add (h : s.Nests line) (hp : s.pending = none) {i : Item}
    (hi : i.Nested (innerSpan line s.frames))
    (hprev : ∀ j ∈ (innermost s.root s.frames).head?, j.mark.Before i.mark) :
    (s.add i).Nests line :=
  ⟨h.frames.add hi hprev, by simp [hp]⟩

theorem Nests.pop (h : s.Nests line) (hp : s.pending = none) : s.pop.Nests line := by
  cases hfs : s.frames with
  | nil => rwa [pop_of_frames_nil hfs]
  | cons f fs =>
    rw [pop_of_frames hfs]
    obtain ⟨hf, hfits, hrest⟩ : NestsIn line s.root (f :: fs) := hfs ▸ h.frames
    refine Nests.add (s := { s with frames := fs, spans := _ }) ⟨hrest, by simp [hp]⟩ hp (hf.close hfits.1) ?_
    rw [Frame.mark_close]
    exact hfits.2

theorem Nests.popWhile (h : s.Nests line) (hp : s.pending = none) (p : Frame → Bool) :
    (s.popWhile p).Nests line :=
  (popWhile_induction (P := fun t => t.pending = none ∧ t.Nests line)
    (fun t ht => ⟨(pop_pending t).trans ht.1, ht.2.pop ht.1⟩) p ⟨hp, h⟩).2

theorem Nests.closeAll (h : s.Nests line) (hp : s.pending = none) (n : Nat) :
    (s.closeAll n).Nests line :=
  (closeAll_induction (P := fun t => t.pending = none ∧ t.Nests line) n
    (fun t ht => ⟨(pop_pending t).trans ht.1, ht.2.pop ht.1⟩)
    (fun _ ht => ⟨ht.1, ht.2.frames, ht.2.pending⟩) hp ⟨hp, h⟩).2

/-! ### Acts -/

/-- A container is opened on the last line, which all others have reached. -/
theorem Nests.push (h : s.Nests line) (hp : s.pending = none) {f : Frame} (hf : f.Nested) {id : Id}
    (hmark : f.outer = ⟨id, ⟨line, line⟩⟩) : Nests line
      { (s.extend line).draw line with frames := f :: (s.extend line).frames } := by
  refine ⟨⟨hf, ?_, h.extend.frames⟩, by simp [pending_extend line hp]⟩
  rw [hmark]
  exact h.frames.fits_extend id

theorem extend_add (i : Item) : (s.add i).extend line = (s.extend line).add i := by
  have hframe : ∀ f : Frame, (f.add i).extend line = (f.extend line).add i := fun f => by
    cases f <;> rfl
  rw [BodyState.extend, openIds_add]
  unfold BodyState.add BodyState.extend
  cases s.frames <;> simp [hframe]

/-- A leaf on the last line. -/
theorem Nests.append (h : s.Nests line) (hp : s.pending = none) (leaf : Leaf) :
    (s.append line leaf).Nests line := by
  have hfits := h.frames.fits_extend (.fresh s.supply)
  rw [BodyState.append, extend_add]
  refine Nests.add (s := (s.draw line).extend line) ?_ ?_ ?_ ?_
  · exact ⟨h.extend.frames, h.extend.pending⟩
  · exact pending_extend line hp
  · exact ⟨_, rfl, hfits.1⟩
  · exact hfits.2

theorem Nests.openStitch (h : s.Nests line) (hp : s.pending = none) (name : String) :
    (s.openStitch line name).Nests line := by
  have hclosed := h.closeAll hp line
  obtain ⟨t, heq, hroot, hframes, hpending, -⟩ := s.exists_openStitch_eq line name
  rw [closeAll_pending line hp] at hpending
  rw [heq]
  refine Nests.append ⟨?_, by simp [hpending]⟩ hpending _
  rw [hroot, hframes]
  exact hclosed.frames

/-- The branch that a conditional goes on with, behind those that are finished. -/
theorem Nests.pushBranch (h : s.Nests line) (hp : s.pending = none) {k : OpenMark} {bs : List Branch}
    (hk : Fits line s.root s.frames k) (hbs : Piled Branch.mark (Branch.Nested k.span) bs)
    (guard : Guard) : (s.pushBranch line guard k bs).Nests line := by
  have hlast := Nat.le_trans hk.1.last h.frames.innerSpan_within.last
  refine ⟨⟨⟨hbs.mono fun b hb => hb.mono (Nat.le_refl _) hlast, ⟨?_, Nat.le_refl _, Nat.le_refl _⟩, ?_,
    piled_nil⟩, hk.extend h.frames (Nat.le_refl _), h.extend.frames⟩,
    by simp [hp]⟩
  · exact Nat.le_trans hk.1.ordered hlast
  · intro b hb s hs s' hs'
    obtain rfl := Option.some.inj hs'
    obtain ⟨sb, hsb, hwithin⟩ := (hbs.2 b (List.mem_of_mem_head? hb)).within
    obtain rfl := Option.some.inj (hs.symm.trans hsb)
    exact Nat.le_trans hwithin.last hlast

/-- A branch begins where the branch in front of it has ended. -/
theorem Nests.openBranch (h : s.Nests line) (guard : Guard) (hin : s.inConditional = true) :
    (s.openBranch line guard).Nests line := by
  have hopens := opensBranch line guard s
  generalize s.openBranch line guard = t at hopens ⊢
  cases hopens with
  | @first k hp =>
    have hcleared : ({ s with pending := none } : BodyState).Nests line := ⟨h.frames, by simp⟩
    exact hcleared.pushBranch rfl (h.pending k hp) piled_nil guard
  | @next k m bs g c fs hp hframes =>
    have hpopped := h.popWhile hp (!·.isBranch)
    have hp' := (popWhile_pending (!·.isBranch) s).trans hp
    obtain ⟨⟨hbs, hm, hlast, hc⟩, hfits, hrest⟩ :
      NestsIn line (s.popWhile (!·.isBranch)).root (.branch k bs m g c :: fs) := hframes ▸ hpopped.frames
    generalize (s.popWhile (!·.isBranch)).spans.drop (Frame.taken? none c) = spans
    have hleft : ({ s.popWhile (!·.isBranch) with frames := fs, spans } : BodyState).Nests line :=
      ⟨hrest, by simp [hp']⟩
    exact hleft.pushBranch hp' hfits (piled_cons.mpr ⟨hlast, Frame.nested_closeBranch hm hc, hbs⟩) guard
  | stray _ hout => simp [hin] at hout

theorem Nests.closeConditional (h : s.Nests line) (hp : s.pending = none) :
    (s.closeConditional line).Nests line := by
  have hp' := pending_extend line hp
  rw [closeConditional_eq line hp]
  exact (h.extend.popWhile hp' _).pop ((popWhile_pending _ _).trans hp')

/-- What an act on the last line does. -/
theorem Nests.perform (h : s.Nests line) {a : Act} (ha : s.Admits a) :
    (s.perform line a).Nests line := by
  cases a with
  | leaf l =>
    cases l with
    | stitch name => exact h.openStitch ha name
    | _ => exact h.append ha _
  | choice depth head =>
    have hpopped := h.popWhile ha (·.endsAtChoice depth)
    exact hpopped.push (f := .choice _ depth head []) ((popWhile_pending _ s).trans ha) piled_nil rfl
  | opening =>
    refine ⟨h.extend.frames, fun m hm => ?_⟩
    obtain rfl := Option.some.inj hm
    exact h.frames.fits_extend _
  | branch guard => exact h.openBranch guard ha
  | closing => exact h.closeConditional ha.1

end BodyState

/-! ### A whole body -/

/-- The tree that is read lies within the lines of the body. -/
theorem Body.nestedIn_read (supply : Nat) (texts : List String) :
    Item.NestedIn ⟨0, texts.length - 1⟩ (read supply texts).1.items := by
  -- up to the line that was begun last
  have hlast := BodyState.lastState_induction (I := fun n _ s => s.Nests (n - 1))
    (fun n _ s hs => hs.mono (Nat.sub_le_sub_right (Nat.le_succ n) 1))
    (fun _ _ _ _ _ hs => ⟨hs.frames, hs.pending⟩)
    (fun _ _ _ _ ha hs => hs.perform ha) (fun _ _ _ hp hs => hs.pop hp) supply (Line.ofTexts texts)
    ⟨piled_nil, by simp⟩
  have hnests := hlast.frames
  rw [frames_lastState] at hnests
  rw [read_items, Item.nestedIn_reverse, ← Line.length_ofTexts]
  exact hnests

end StoryScript
