import StoryScript.Proofs.Body.Diverts
import StoryScript.Proofs.Body.Lossless
import StoryScript.Proofs.Body.Reading

/-!
# Diverts and the lines that they are written on

A reference to a divert gives the line of the divert, as far as it is known: of a divert that is an item this
is the line of the item, of one that a choice or a branch holds it is the last line of the choice or the
branch. So two things move a reference away from its arrow. A divert on the line of a choice comes behind
everything in the choice, and on its last line; and a closing brace extends the containers that it finishes
before they take over the divert that they end in. `Act.spares` excludes both, and `BodyState.Points.perform`
says that nothing else goes wrong: the references of the tree so far then are the arrows of the acts so far, in
order and with their lines.

The invariant of the reader is `BodyState.Points`. Its core is that containers can be finished without moving
an arrow (`BodyState.Ready`), which only concerns the innermost one.
-/

namespace StoryScript

/-! ### Arrows of trees -/

/-- Where a divert is said to stand, and its target. -/
def DivertRef.arrow (r : DivertRef) : Option Nat × String := (r.line, r.target)

/-- The arrows of an item in a knot whose header is on line `n`. -/
def Item.arrows (n : Nat) (i : Item) : List (Option Nat × String) :=
  (i.divertRefs n .standalone).map DivertRef.arrow

def Branch.arrows (n : Nat) (b : Branch) : List (Option Nat × String) :=
  (b.divertRefs n).map DivertRef.arrow

/-- The arrow on the line of a container that is open. -/
def OpenMark.own (n : Nat) (m : OpenMark) (divert : Option String) : List (Option Nat × String) :=
  (divert.map fun target => (some (n + 1 + m.span.last), target)).toList

theorem Item.map_arrow_divertRefs (n : Nat) (x : DivertContext) (i : Item) :
    (i.divertRefs n x).map DivertRef.arrow = i.arrows n := by
  cases i with
  | leaf m l => cases l <;> rfl
  | choice m h c => rfl
  | conditional m bs => rfl

theorem Item.map_arrow_divertRefsIn (n : Nat) (x : DivertContext) (is : List Item) :
    (Item.divertRefsIn n x is).map DivertRef.arrow = is.flatMap (Item.arrows n) := by
  induction is with
  | nil => rfl
  | cons i is ih =>
    rw [Item.divertRefsIn, List.map_append, ih, List.flatMap_cons, Item.map_arrow_divertRefs]

theorem Branch.map_arrow_divertRefsIn (n : Nat) (bs : List Branch) :
    (Branch.divertRefsIn n bs).map DivertRef.arrow = bs.flatMap (Branch.arrows n) := by
  induction bs with
  | nil => rfl
  | cons b bs ih =>
    rw [Branch.divertRefsIn, List.map_append, ih, List.flatMap_cons]
    rfl

/-! ### Open frames -/

namespace Frame

/-- The divert on the line of a frame. -/
def divert? : Frame → Option String
  | choice _ _ h _ => h.divert
  | branch .. => none

/-- The arrows of a frame. -/
def arrows (n : Nat) : Frame → List (Option Nat × String)
  | choice m _ h c => c.reverse.flatMap (Item.arrows n) ++ m.own n h.divert
  | branch _ bs _ _ c => bs.reverse.flatMap (Branch.arrows n) ++ c.reverse.flatMap (Item.arrows n)

/-- A content, newest first, that does not end in a divert, or in one on `line`. -/
def EndsOn (line : Nat) (content : List Item) : Prop :=
  ∀ m t rest, content = .leaf m (.divert t) :: rest → m.span.map Span.first = some line

/-- A frame that ends in no divert, or in one on the last line of the frame. -/
def Level (f : Frame) : Prop := EndsOn f.span.last f.content

variable {n line : Nat} {f : Frame}

@[simp] theorem divert?_add (i : Item) : (f.add i).divert? = f.divert? := by cases f <;> rfl

@[simp] theorem divert?_extend : (f.extend line).divert? = f.divert? := by cases f <;> rfl

/-- The arrow of a divert that is taken over stays where it is if it is on the last line. -/
theorem arrows_hoist {m : OpenMark} (d : Option String) {c : List Item} (h : EndsOn m.span.last c) :
    (hoist d c).2.flatMap (Item.arrows n) ++ m.own n (hoist d c).1 =
      c.reverse.flatMap (Item.arrows n) ++ m.own n d := by
  unfold hoist
  split
  · next lm t rest =>
    have hline : (lm.linesFrom n).map Span.first = some (n + 1 + m.span.last) := by
      obtain ⟨s, hs, hfirst⟩ := Option.map_eq_some_iff.mp (h lm t rest rfl)
      rw [Mark.linesFrom, hs, ← hfirst]
      rfl
    have hleaf : Item.arrows n (.leaf lm (.divert t)) = [(some (n + 1 + m.span.last), t)] := by
      rw [← hline]
      rfl
    simp [hleaf, OpenMark.own]
  · rfl

theorem arrows_closeBranch {m : OpenMark} {g : Guard} {c : List Item} (h : EndsOn m.span.last c) :
    (closeBranch m g c).arrows n = c.reverse.flatMap (Item.arrows n) := by
  have hhoist := arrows_hoist (n := n) none h
  rw [Branch.arrows, closeBranch]
  dsimp only
  rw [Branch.divertRefs, List.map_append, Item.map_arrow_divertRefsIn]
  simp only [OpenMark.own, Option.map_none, Option.toList_none, List.append_nil] at hhoist
  rw [← hhoist]
  cases (hoist none c).1 <;> rfl

/-- A frame that is finished keeps its arrows where they are. -/
theorem Level.arrows_close (h : f.Level) : f.close.arrows n = f.arrows n := by
  cases f with
  | choice m d hd c =>
    have hc : EndsOn m.span.last c := h
    have hhoist := arrows_hoist (n := n) hd.divert hc
    rw [Item.arrows, close]
    dsimp only
    rw [Item.divertRefs, List.map_append, Item.map_arrow_divertRefsIn, arrows, ← hhoist]
    cases (hoist hd.divert c).1 <;> rfl
  | branch k bs m g c =>
    have hc : EndsOn m.span.last c := h
    rw [Item.arrows, close, Item.divertRefs, Branch.map_arrow_divertRefsIn, List.reverse_cons,
      List.flatMap_append, List.flatMap_singleton, arrows_closeBranch hc]
    rfl

theorem arrows_add_of_divert?_none (h : f.divert? = none) (i : Item) :
    (f.add i).arrows n = f.arrows n ++ i.arrows n := by
  cases f with
  | choice m d hd c =>
    have hown : hd.divert = none := h
    simp [add, arrows, OpenMark.own, hown]
  | branch k bs m g c => simp [add, arrows]

theorem arrows_extend_of_divert?_none (h : f.divert? = none) :
    (f.extend line).arrows n = f.arrows n := by
  cases f with
  | choice m d hd c =>
    have hown : hd.divert = none := h
    simp [extend, arrows, OpenMark.own, hown]
  | branch k bs m g c => rfl

end Frame

/-! ### Acts -/

namespace Act

/-- The arrows of acts, with the lines that they stand on. -/
def arrows (as : List (Nat × Act)) : List (Nat × String) := as.flatMap fun x => x.2.diverts.map (x.1, ·)

/-- Whether the act `b` right behind the act `a` leaves an arrow of `a` where it is. Behind a choice with a
divert only what finishes the choice does, and behind a divert everything but a closing brace. -/
def spares : Act → Act → Bool
  | .choice depth head, b =>
    head.divert.isNone || b.finishes (.choice depth head.divert) && b ≠ .closing
  | .leaf (.divert _), b => b ≠ .closing
  | _, _ => true

theorem arrows_concat (as : List (Nat × Act)) (line : Nat) (a : Act) :
    arrows (as ++ [(line, a)]) = arrows as ++ a.diverts.map (line, ·) := by
  simp [arrows]

end Act

/-! ### The invariant of the reader -/

namespace BodyState

/-- The arrows of what has been read so far. -/
def arrowsOf (n : Nat) (root : List Item) : List Frame → List (Option Nat × String)
  | [] => root.reverse.flatMap (Item.arrows n)
  | f :: fs => arrowsOf n root fs ++ f.arrows n

/-- No open container has a divert on its own line. -/
def Bare (s : BodyState) : Prop := ∀ f ∈ s.frames, f.divert? = none

/-- A state with the arrows `xs`, in which finishing containers moves none of them. -/
structure Ready (n : Nat) (xs : List (Option Nat × String)) (s : BodyState) : Prop where
  arrows : arrowsOf n s.root s.frames = xs
  below : ∀ f ∈ s.frames.tail, f.divert? = none
  level : ∀ f ∈ s.frames.head?, f.Level

/-- The arrows of acts as references give them in a knot whose header is on line `n`. -/
def placed (n : Nat) (as : List (Nat × Act)) : List (Option Nat × String) :=
  (Act.arrows as).map fun x => (some (n + 1 + x.1), x.2)

/-- The references so far point at the arrows of the acts so far. -/
structure Points (n : Nat) (as : List (Nat × Act)) (s : BodyState) : Prop where
  arrows : arrowsOf n s.root s.frames = placed n as
  below : ∀ f ∈ s.frames.tail, f.divert? = none
  /-- A container with a divert on its line was opened last. -/
  own : ∀ f ∈ s.frames.head?, f.divert? ≠ none → s.pending = none ∧
    ∃ x ∈ as.getLast?, ∃ depth head, x.2 = .choice depth head ∧ f.opens = [.choice depth head.divert]
  /-- A divert at the end of a container was read last. -/
  ends : s.pending = none → ∀ f ∈ s.frames.head?, ∀ m t rest, f.content = .leaf m (.divert t) :: rest →
    m.span.map Span.first = some f.span.last ∧ ∃ x ∈ as.getLast?, ∃ t, x.2 = .leaf (.divert t)

variable {n line : Nat} {xs : List (Option Nat × String)} {as : List (Nat × Act)} {s : BodyState}

theorem Points.start (n supply : Nat) : Points n [] { supply } := by
  constructor <;> simp [arrowsOf, placed, Act.arrows]

theorem Points.report (h : s.Points n as) (m : Nat) (cause : IssueCause) :
    (s.report m cause).Points n as :=
  ⟨h.arrows, h.below, h.own, h.ends⟩

theorem Points.ready (h : s.Points n as) (hp : s.pending = none) : s.Ready n (placed n as) :=
  ⟨h.arrows, h.below, fun f hf m t rest hc => (h.ends hp f hf m t rest hc).1⟩

theorem arrowsOf_add (h : s.Bare) (i : Item) :
    arrowsOf n (s.add i).root (s.add i).frames = arrowsOf n s.root s.frames ++ i.arrows n := by
  unfold BodyState.add
  cases hfs : s.frames with
  | nil => simp [arrowsOf]
  | cons f fs =>
    rw [Bare, hfs, List.forall_mem_cons] at h
    rw [arrowsOf, arrowsOf, Frame.arrows_add_of_divert?_none h.1, List.append_assoc]

theorem arrowsOf_extend (line : Nat) {root : List Item} {fs : List Frame} (h : ∀ f ∈ fs, f.divert? = none) :
    arrowsOf n root (fs.map (·.extend line)) = arrowsOf n root fs := by
  induction fs with
  | nil => rfl
  | cons f fs ih =>
    rw [List.forall_mem_cons] at h
    rw [List.map_cons, arrowsOf, arrowsOf, ih h.2, Frame.arrows_extend_of_divert?_none h.1]

theorem bare_of_head (hhead : ∀ f ∈ s.frames.head?, f.divert? = none)
    (hbelow : ∀ f ∈ s.frames.tail, f.divert? = none) : s.Bare := by
  unfold Bare
  cases hfs : s.frames with
  | nil => simp
  | cons f fs =>
    rw [hfs] at hhead hbelow
    exact List.forall_mem_cons.mpr ⟨hhead f rfl, hbelow⟩

theorem Bare.extend (h : s.Bare) : (s.extend line).Bare := by
  intro f hf
  obtain ⟨g, hg, rfl⟩ := List.mem_map.mp hf
  rw [Frame.divert?_extend]
  exact h g hg

theorem Bare.add (h : s.Bare) (i : Item) : (s.add i).Bare := by
  unfold BodyState.add
  cases hfs : s.frames with
  | nil => exact fun f hf => absurd hf (by simp)
  | cons f fs =>
    rw [Bare, hfs, List.forall_mem_cons] at h
    exact List.forall_mem_cons.mpr ⟨by rw [Frame.divert?_add]; exact h.1, h.2⟩

/-- When the innermost container is finished, the ones below it have no divert of their own. -/
theorem Ready.bare_pop (h : s.Ready n xs) : s.pop.Bare := by
  cases hfs : s.frames with
  | nil =>
    rw [pop_of_frames_nil hfs]
    exact fun f hf => absurd hf (by simp [hfs])
  | cons f fs =>
    rw [pop_of_frames hfs]
    refine Bare.add (s := { s with frames := fs, spans := _ }) (fun g hg => h.below g ?_) _
    rwa [hfs]

/-- Then the innermost container ends in the one that was finished, which is no divert. -/
theorem content_pop_ne {f : Frame} {fs : List Frame} (hfs : s.frames = f :: fs) :
    ∀ g ∈ s.pop.frames.head?, ∀ m t rest, g.content ≠ .leaf m (.divert t) :: rest := by
  intro g hg m t rest hc
  rw [pop_of_frames hfs] at hg
  unfold BodyState.add at hg
  cases fs with
  | nil => simp at hg
  | cons g' gs =>
    obtain rfl : g'.add f.close = g := Option.some.inj hg
    rw [Frame.content_add, List.cons.injEq] at hc
    have htarget := f.divertTarget?_close
    rw [hc.1] at htarget
    simp [Item.divertTarget?] at htarget

theorem Ready.pop (h : s.Ready n xs) : s.pop.Ready n xs := by
  have hbare := h.bare_pop
  cases hfs : s.frames with
  | nil => rwa [pop_of_frames_nil hfs]
  | cons f fs =>
    have hlevel : f.Level := h.level f (by rw [hfs]; rfl)
    have harrows := h.arrows
    generalize hspans : s.spans.drop f.dropped? = spans
    have hbelow : BodyState.Bare { s with frames := fs, spans } := fun g hg =>
      h.below g (by rwa [hfs])
    refine ⟨?_, fun g hg => hbare g (List.mem_of_mem_tail hg), fun g hg m t rest hc =>
      absurd hc (content_pop_ne hfs g hg m t rest)⟩
    rw [pop_of_frames hfs, hspans, arrowsOf_add hbelow, hlevel.arrows_close, ← harrows, hfs]
    rfl

theorem Ready.popWhile (h : s.Ready n xs) (p : Frame → Bool) : (s.popWhile p).Ready n xs :=
  popWhile_induction (P := fun t => t.Ready n xs) (fun _ ht => ht.pop) p h

/-- Finishing containers finishes the one with a divert on its line. -/
theorem Ready.bare_popWhile (h : s.Ready n xs) {p : Frame → Bool} (hp : ∀ f i, p (f.add i) = p f)
    (hown : ∀ f ∈ s.frames.head?, f.divert? ≠ none → p f = true) : (s.popWhile p).Bare := by
  cases hfs : s.frames with
  | nil =>
    rw [popWhile_of_nil hfs]
    exact fun f hf => absurd hf (by simp [hfs])
  | cons f fs =>
    have hhead : f ∈ s.frames.head? := by
      rw [hfs]
      rfl
    cases hpf : p f with
    | true =>
      rw [popWhile_of_pos hp hfs hpf]
      exact (popWhile_induction (P := fun t => t.Ready n xs ∧ t.Bare)
        (fun _ ht => ⟨ht.1.pop, ht.1.bare_pop⟩) p ⟨h.pop, h.bare_pop⟩).2
    | false =>
      rw [popWhile_of_neg hfs hpf]
      refine bare_of_head (fun g hg => ?_) h.below
      obtain rfl : f = g := Option.some.inj (hhead.symm.trans hg)
      by_contra hsome
      simp [hown f hhead hsome] at hpf

theorem Ready.closeAll (h : s.Ready n xs) (hp : s.pending = none) (m : Nat) :
    (s.closeAll m).Ready n xs :=
  closeAll_induction (P := fun t => t.Ready n xs) m (fun _ ht => ht.pop)
    (fun _ ht => ⟨ht.arrows, ht.below, ht.level⟩) hp h

/-! ### What an act does to the invariant -/

theorem placed_concat (as : List (Nat × Act)) (a : Act) :
    placed n (as ++ [(line, a)]) = placed n as ++ a.diverts.map fun t => (some (n + 1 + line), t) := by
  rw [placed, Act.arrows_concat, List.map_append, List.map_map]
  rfl

/-- The last act had a divert on its line only if the next one finishes it, and is no closing brace. -/
theorem Points.finishes (h : s.Points n as) {a : Act} (hspares : ∀ x ∈ as.getLast?, x.2.spares a = true) :
    ∀ f ∈ s.frames.head?, f.divert? ≠ none →
      ∃ depth divert, f.opens = [.choice depth divert] ∧ a.finishes (.choice depth divert) = true ∧
        a ≠ .closing := by
  intro f hf hsome
  obtain ⟨-, x, hx, depth, head, hact, hopens⟩ := h.own f hf hsome
  have hdivert : f.divert? = head.divert := by
    cases f with
    | choice m d hd c =>
      obtain ⟨⟨-, hdivert⟩, -⟩ : (d = depth ∧ hd.divert = head.divert) ∧ True := by
        simpa [Frame.opens] using hopens
      exact hdivert
    | branch k bs m g c => simp [Frame.opens] at hopens
  have hnext := hspares x hx
  rw [hact, Act.spares, ← hdivert, Option.isNone_eq_false_iff.mpr (Option.isSome_iff_ne_none.mpr hsome),
    Bool.false_or, Bool.and_eq_true, decide_eq_true_eq] at hnext
  exact ⟨depth, f.divert?, by rw [hopens, hdivert], hnext⟩

/-- So before an act that finishes no choice, or closes a conditional, no container has a divert of its
own. -/
theorem Points.bare (h : s.Points n as) {a : Act} (hspares : ∀ x ∈ as.getLast?, x.2.spares a = true)
    (ha : a = .closing ∨ ∀ depth divert, a.finishes (.choice depth divert) = false) : s.Bare := by
  refine bare_of_head (fun f hf => ?_) h.below
  by_contra hsome
  obtain ⟨depth, divert, -, hfin, hclosing⟩ := h.finishes hspares f hf hsome
  rcases ha with rfl | ha
  · exact hclosing rfl
  · simp [ha] at hfin

theorem map_diverts_leaf (n line : Nat) (id : Id) (l : Leaf) :
    Item.arrows n (.leaf ⟨id, some ⟨line, line⟩⟩ l) =
      (Act.leaf l).diverts.map fun t => (some (n + 1 + line), t) := by
  cases l <;> rfl

/-- A leaf is put into a container without a divert of its own. -/
theorem Points.append (harrows : arrowsOf n s.root s.frames = placed n as) (hbare : s.Bare)
    (leaf : Leaf) : (s.append line leaf).Points n (as ++ [(line, .leaf leaf)]) := by
  have hadd : ∀ i : Item, ((s.draw line).add i).Bare := fun i =>
    Bare.add (s := s.draw line) hbare i
  have hdone : (s.append line leaf).Bare := (hadd _).extend
  refine ⟨?_, fun f hf => hdone f (List.mem_of_mem_tail hf), fun f hf hsome => ?_, fun _ f hf m t rest hc => ?_⟩
  · rw [placed_concat, ← map_diverts_leaf n line (.fresh s.supply), ← harrows]
    exact (arrowsOf_extend line (hadd _)).trans
      (arrowsOf_add (s := s.draw line) hbare _)
  · exact absurd (hdone f (List.mem_of_mem_head? hf)) hsome
  · -- if the leaf is a divert, it is what the innermost container now ends in, and on the last line
    obtain ⟨g, hg, rfl⟩ : ∃ g, ((s.draw line).add
        (.leaf ⟨.fresh s.supply, some ⟨line, line⟩⟩ leaf)).frames.head? = some g ∧
          g.extend line = f := by
      rw [BodyState.append, BodyState.extend, List.head?_map] at hf
      exact Option.map_eq_some_iff.mp hf
    unfold BodyState.add at hg
    cases hfs : s.frames with
    | nil => simp [hfs] at hg
    | cons f' fs =>
      simp only [draw_frames, hfs, List.head?_cons, Option.some.injEq] at hg
      rw [← hg, Frame.content_extend, Frame.content_add, List.cons.injEq, Item.leaf.injEq] at hc
      obtain ⟨⟨rfl, rfl⟩, -⟩ := hc
      refine ⟨?_, (line, .leaf (.divert t)), by simp, t, rfl⟩
      rw [Frame.span_extend]
      rfl

theorem Points.openStitch (h : s.Points n as) (hp : s.pending = none) (name : String) :
    (s.openStitch line name).Points n (as ++ [(line, .leaf (.stitch name))]) := by
  have hready := (h.ready hp).closeAll hp line
  obtain ⟨t, heq, hroot, hframes, -⟩ := s.exists_openStitch_eq line name
  rw [heq]
  refine Points.append ?_ ?_ _
  · rw [hroot, hframes]
    exact hready.arrows
  · rw [Bare, hframes, closeAll_frames line hp]
    exact fun f hf => absurd hf (by simp)

/-- Whether a choice finishes a frame can be read off the containers in it. -/
theorem endsAtChoice_of_opens {f : Frame} {d depth : Nat} {divert : Option String}
    (h : f.opens = [.choice d divert]) : f.endsAtChoice depth = Open.endsAtChoice depth (.choice d divert) := by
  cases f with
  | choice m d' hd c =>
    rw [Frame.opens, List.cons.injEq] at h
    rw [← h.1]
    rfl
  | branch k bs m g c => simp [Frame.opens] at h

theorem Points.openChoice (h : s.Points n as) (hp : s.pending = none) (depth : Nat) (head : ChoiceHead)
    (hspares : ∀ x ∈ as.getLast?, x.2.spares (.choice depth head) = true) :
    (s.perform line (.choice depth head)).Points n (as ++ [(line, .choice depth head)]) := by
  have hready := h.ready hp
  have hpopped := hready.popWhile (·.endsAtChoice depth)
  have hp' := (popWhile_pending (·.endsAtChoice depth) s).trans hp
  have hbare : (s.popWhile (·.endsAtChoice depth)).Bare := by
    refine hready.bare_popWhile (fun f i => Frame.endsAtChoice_add f i depth) fun f hf hsome => ?_
    obtain ⟨d, divert, hopens, hfinishes, -⟩ := h.finishes hspares f hf hsome
    rw [endsAtChoice_of_opens hopens]
    exact hfinishes
  refine ⟨?_, hbare.extend, fun f hf _ => ?_, fun _ f hf m t rest hc => ?_⟩
  · have hown : ∀ id, Frame.arrows n (.choice ⟨id, ⟨line, line⟩⟩ depth head []) =
        (Act.choice depth head).diverts.map fun t => (some (n + 1 + line), t) := by
      intro id
      rw [show (Act.choice depth head).diverts = head.divert.toList from rfl]
      simp [Frame.arrows, OpenMark.own, Option.toList_map]
    rw [placed_concat, ← hpopped.arrows, ← arrowsOf_extend line hbare]
    exact congrArg (_ ++ ·) (hown _)
  · obtain rfl := Option.some.inj hf
    refine ⟨?_, (line, .choice depth head), by simp, depth, head, rfl, rfl⟩
    simp [perform, BodyState.extend, hp']
  · obtain rfl := Option.some.inj hf
    simp [Frame.content] at hc

/-- A conditional waits for its first branch, so nothing can be finished meanwhile. -/
theorem Points.openConditional (h : s.Points n as) (hspares : ∀ x ∈ as.getLast?, x.2.spares .opening = true) :
    (s.perform line .opening).Points n (as ++ [(line, .opening)]) := by
  have hbare := h.bare hspares (Or.inr fun _ _ => rfl)
  have hdone : (s.extend line).Bare := hbare.extend
  refine ⟨?_, fun f hf => hdone f (List.mem_of_mem_tail hf), fun f hf hsome =>
    absurd (hdone f (List.mem_of_mem_head? hf)) hsome, fun hp => ?_⟩
  · rw [placed_concat, ← h.arrows]
    exact (arrowsOf_extend line hbare).trans (List.append_nil _).symm
  · simp [perform] at hp

/-- The branch that a conditional goes on with has no arrow yet. -/
theorem Points.pushBranch (hbare : s.Bare) {k : OpenMark} {bs : List Branch}
    (harrows : arrowsOf n s.root s.frames ++ bs.reverse.flatMap (Branch.arrows n) = placed n as)
    (guard : Guard) : Points n (as ++ [(line, .branch guard)]) (s.pushBranch line guard k bs) := by
  unfold BodyState.pushBranch
  refine ⟨?_, hbare.extend, fun f hf hsome => ?_, fun _ f hf m d rest hc => ?_⟩
  · rw [placed_concat, ← harrows, ← arrowsOf_extend line hbare]
    simp [arrowsOf, Frame.arrows, Act.diverts, Act.piece?, Act.divert?, Piece.divert?, BodyState.extend]
  · obtain rfl := Option.some.inj hf
    exact absurd rfl hsome
  · obtain rfl := Option.some.inj hf
    simp [Frame.content] at hc

/-- A branch finishes the branch in front of it before it extends anything. -/
theorem Points.openBranch (h : s.Points n as) (guard : Guard) (hin : s.inConditional = true) :
    (s.openBranch line guard).Points n (as ++ [(line, .branch guard)]) := by
  have hopens := opensBranch line guard s
  generalize s.openBranch line guard = t at hopens ⊢
  cases hopens with
  | @first k hp =>
    -- a choice with a divert on its line would have come last, and not the conditional
    have hbare : s.Bare := by
      refine bare_of_head (fun f hf => ?_) h.below
      by_contra hsome
      simp [(h.own f hf hsome).1] at hp
    refine Points.pushBranch (s := { s with pending := none }) hbare ?_ guard
    rw [← h.arrows]
    exact List.append_nil _
  | @next k m bs g c fs hp hframes =>
    have hready := h.ready hp
    have hpopped := hready.popWhile (!·.isBranch)
    -- a choice with a divert on its line is finished before the branch of the conditional is innermost
    have hbare : (s.popWhile (!·.isBranch)).Bare := by
      refine hready.bare_popWhile (fun f i => by simp) fun f _ hsome => ?_
      cases f with
      | choice m d hd c => rfl
      | branch k bs m g c => exact absurd rfl hsome
    have hlevel : Frame.EndsOn m.span.last c :=
      hpopped.level (.branch k bs m g c) (by rw [hframes]; rfl)
    have harrows := hpopped.arrows
    rw [hframes] at harrows
    refine Points.pushBranch (s := { s.popWhile (!·.isBranch) with frames := fs, spans := _ })
      (fun f hf => hbare f ?_) ?_ guard
    · rw [hframes]
      exact List.mem_cons_of_mem _ hf
    · rw [← harrows, List.reverse_cons, List.flatMap_append, List.flatMap_singleton,
        Frame.arrows_closeBranch hlevel]
      rfl
  | stray _ hout => simp [hin] at hout

/-- A closing brace extends the containers that it finishes; none of them has an arrow on its last line. -/
theorem Points.closeConditional (h : s.Points n as) (hp : s.pending = none) (hin : s.inConditional = true)
    (hspares : ∀ x ∈ as.getLast?, x.2.spares .closing = true) :
    (s.closeConditional line).Points n (as ++ [(line, .closing)]) := by
  have hbare := h.bare hspares (Or.inl rfl)
  have hdone : (s.extend line).Bare := hbare.extend
  have hp' := pending_extend line hp
  -- what has been extended does not end in a divert, for that would have come last
  have hready : (s.extend line).Ready n (placed n as) := by
    refine ⟨(arrowsOf_extend line hbare).trans h.arrows, fun f hf => hdone f (List.mem_of_mem_tail hf), ?_⟩
    intro f hf m t rest hc
    rw [BodyState.extend, List.head?_map] at hf
    obtain ⟨g, hg, rfl⟩ := Option.map_eq_some_iff.mp hf
    rw [Frame.content_extend] at hc
    obtain ⟨-, x, hx, t', hact⟩ := h.ends hp g hg m t rest hc
    have hnext := hspares x hx
    rw [hact] at hnext
    simp [Act.spares] at hnext
  have hpopped := hready.popWhile (!·.isBranch)
  obtain ⟨k, bs, m, g, c, fs, hfs⟩ := exists_branch_of_inConditional hp' (by simpa using hin)
  have hclosed := hpopped.pop
  have hend := hpopped.bare_pop
  rw [closeConditional_eq line hp]
  refine ⟨?_, hclosed.below, fun f hf hsome => absurd (hend f (List.mem_of_mem_head? hf)) hsome,
    fun _ f hf m t rest hc => absurd hc (content_pop_ne hfs f hf m t rest)⟩
  rw [placed_concat, hclosed.arrows]
  exact (List.append_nil _).symm

/-- What an act does that moves no arrow. -/
theorem Points.perform (h : s.Points n as) {a : Act} (ha : s.Admits a)
    (hspares : ∀ x ∈ as.getLast?, x.2.spares a = true) : (s.perform line a).Points n (as ++ [(line, a)]) := by
  cases a with
  | leaf l =>
    rcases l.stitch_cases with ⟨name, rfl⟩ | hl
    · exact h.openStitch ha name
    · have hbare := h.bare hspares (Or.inr fun depth divert => by cases l <;> simp_all [Act.finishes])
      rw [perform_leaf hl line s]
      exact Points.append h.arrows hbare l
  | choice depth head => exact h.openChoice ha depth head hspares
  | opening => exact h.openConditional hspares
  | branch guard => exact h.openBranch guard ha
  | closing => exact h.closeConditional ha.1 ha.2 hspares

end BodyState

end StoryScript
