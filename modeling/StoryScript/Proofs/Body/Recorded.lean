import StoryScript.Proofs.Body.Identities

/-!
# The table of lines

The reader records the lines of nodes in a table beside the tree: an entry is made when a node begins, the
entries of the containers that are open are changed with every line, and the entry of a divert that its
container takes over is dropped. What is left in the end is the tree in document order, every node under its
identity with the lines that its mark gives (`Body.nodeLines_read`): no node is missing from the table, none is
in it twice, and nothing is left in it of a node that is not in the tree.

The invariant is `BodyState.Tabled`. The table is changed by identity and the tree by place, so the invariant says
as well that no two nodes and open containers share an identity: then changing the entries under the
identities of the open containers changes no finished node (`BodyState.listed_extend`), and dropping the entry of
a divert drops nothing else (`SpanTable.marks_drop`).
-/

namespace StoryScript

/-! ### Entries as marks -/

/-- The mark goes on up to `line` if it has one of the identities. -/
def Mark.touch (line : Nat) (ids : List Id) (m : Mark) : Mark :=
  if ids.contains m.id then { m with span := m.span.map fun s => { s with last := line } } else m

section Touch

variable {line : Nat} {ids : List Id}

theorem Mark.touch_of_not_mem {m : Mark} (h : m.id ∉ ids) : m.touch line ids = m := by
  rw [touch, if_neg (by simpa using h)]

theorem OpenMark.touch_toMark {m : OpenMark} (h : m.id ∈ ids) :
    m.toMark.touch line ids = (m.extend line).toMark := by
  rw [Mark.touch, if_pos (by simpa [toMark] using h)]
  rfl

theorem Mark.map_touch_of_not_mem {ms : List Mark} (h : ∀ m ∈ ms, m.id ∉ ids) :
    ms.map (Mark.touch line ids) = ms :=
  (List.map_congr_left fun m hm => touch_of_not_mem (h m hm)).trans (List.map_id' ms)

end Touch

namespace SpanTable

/-- The entries of a table as the marks of nodes. -/
def marks (t : SpanTable) : List Mark := t.map fun x => ⟨x.1, some x.2⟩

theorem marks_touch (line : Nat) (ids : List Id) (t : SpanTable) :
    (t.touch line ids).marks = t.marks.map (Mark.touch line ids) := by
  rw [marks, marks, touch, List.map_map, List.map_map]
  refine List.map_congr_left fun x _ => ?_
  simp only [Function.comp_apply, Mark.touch]
  split <;> rfl

theorem marks_concat (t : SpanTable) (x : Id × Span) :
    marks (t ++ [x]) = t.marks ++ [⟨x.1, some x.2⟩] := List.map_append

theorem marks_drop_eq (m? : Option Mark) (t : SpanTable) :
    (t.drop m?).marks = t.marks.filter fun m => some m.id ≠ m?.map Mark.id := by
  rw [marks, marks, drop, List.filter_map]
  rfl

/-- Under distinct identities, dropping the last entry of a table by its identity drops nothing else. -/
theorem marks_drop {t : SpanTable} {ms : List Mark} {m? : Option Mark} (h : t.marks = ms ++ m?.toList)
    (hnodup : (t.marks.map Mark.id).Nodup) : (t.drop m?).marks = ms := by
  rw [marks_drop_eq, h]
  cases m? with
  | none => simp
  | some m =>
    rw [h, List.map_append, List.nodup_append] at hnodup
    have hother : ∀ x ∈ ms, x.id ≠ m.id := fun x hx =>
      hnodup.2.2 _ (List.mem_map_of_mem hx) _ List.mem_cons_self
    simpa [List.filter_append] using hother

end SpanTable

/-! ### Open frames -/

namespace Frame

/-- A container takes over a divert that its content ends in, or nothing. -/
theorem hoist_cases (d : Option String) (c : List Item) :
    (∃ m t rest, d = none ∧ c = .leaf m (.divert t) :: rest) ∨
      hoist d c = (d, c.reverse) ∧ taken? d c = none := by
  cases d with
  | some t => exact Or.inr ⟨rfl, rfl⟩
  | none =>
    cases c with
    | nil => exact Or.inr ⟨rfl, rfl⟩
    | cons i rest =>
      cases i with
      | leaf m l =>
        cases l with
        | divert t => exact Or.inl ⟨m, t, rest, rfl, rfl⟩
        | _ => exact Or.inr ⟨rfl, rfl⟩
      | _ => exact Or.inr ⟨rfl, rfl⟩

/-- The marks of a frame in document order, those of its containers before what is in them. -/
def listed : Frame → List Mark
  | choice m _ _ c => m.toMark :: (Item.nodesIn c.reverse).map Node.mark
  | branch k bs m _ c =>
    k.toMark :: (Branch.nodesIn bs.reverse).map Node.mark ++
      m.toMark :: (Item.nodesIn c.reverse).map Node.mark

theorem marks_reverse_cons (i : Item) (c : List Item) :
    (Item.nodesIn (i :: c).reverse).map Node.mark =
      (Item.nodesIn c.reverse).map Node.mark ++ i.nodes.map Node.mark := by
  rw [List.reverse_cons, Item.nodesIn_append, List.map_append, Item.nodesIn, Item.nodesIn,
    List.append_nil]

theorem listed_add (f : Frame) (i : Item) : (f.add i).listed = f.listed ++ i.nodes.map Node.mark := by
  cases f with
  | choice m d h c => rw [add, listed, listed, marks_reverse_cons, List.cons_append]
  | branch k bs m g c =>
    rw [add, listed, listed, marks_reverse_cons]
    simp only [List.append_assoc, List.cons_append]

/-- The divert that is taken over is the last node of the content. -/
theorem marks_hoist (d : Option String) (c : List Item) :
    (Item.nodesIn c.reverse).map Node.mark =
      (Item.nodesIn (hoist d c).2).map Node.mark ++ (taken? d c).toList := by
  rcases hoist_cases d c with ⟨m, t, rest, rfl, rfl⟩ | ⟨hhoist, htaken⟩
  · exact marks_reverse_cons _ _
  · rw [hhoist, htaken]
    exact (List.append_nil _).symm

theorem marks_closeBranch (m : OpenMark) (g : Guard) (c : List Item) :
    m.toMark :: (Item.nodesIn c.reverse).map Node.mark =
      (closeBranch m g c).nodes.map Node.mark ++ (taken? none c).toList :=
  congrArg (m.toMark :: ·) (marks_hoist none c)

/-- A finished frame has the marks that it had while it was open, but for the divert that is taken over. -/
theorem listed_eq (f : Frame) : f.listed = f.close.nodes.map Node.mark ++ f.dropped?.toList := by
  cases f with
  | choice m d h c => exact congrArg (m.toMark :: ·) (marks_hoist h.divert c)
  | branch k bs m g c =>
    have hbranches : (Branch.nodesIn (closeBranch m g c :: bs).reverse).map Node.mark =
        (Branch.nodesIn bs.reverse).map Node.mark ++ (closeBranch m g c).nodes.map Node.mark := by
      rw [List.reverse_cons, Branch.nodesIn_append, List.map_append, Branch.nodesIn, Branch.nodesIn,
        List.append_nil]
    rw [listed, marks_closeBranch m g c, close, Item.nodes, List.map_cons, hbranches, dropped?]
    simp only [List.append_assoc, List.cons_append]
    rfl

theorem count_listed (f : Frame) (i : Id) : (f.listed.map Mark.id).count i = f.ids.count i := by
  have hitems : ∀ c : List Item, (((Item.nodesIn c.reverse).map Node.mark).map Mark.id).count i =
      (Item.idsIn c).count i := fun c => by
    rw [List.map_map]
    exact Item.count_idsIn_reverse c i
  have hbranches : ∀ bs : List Branch,
      (((Branch.nodesIn bs.reverse).map Node.mark).map Mark.id).count i = (Branch.idsIn bs).count i :=
    fun bs => by
      rw [List.map_map]
      exact Branch.count_idsIn_reverse bs i
  cases f with
  | choice m d h c =>
    rw [count_ids_choice, listed, List.map_cons, ← List.singleton_append, List.count_append, hitems]
    rfl
  | branch k bs m g c =>
    rw [count_ids_branch, listed, List.map_append, List.map_cons, List.map_cons]
    change (([k.id] ++ ((Branch.nodesIn bs.reverse).map Node.mark).map Mark.id) ++
      ([m.id] ++ ((Item.nodesIn c.reverse).map Node.mark).map Mark.id)).count i = _
    rw [List.count_append, List.count_append, List.count_append, hitems, hbranches]
    omega

/-- The open containers go on, and what is finished stays. -/
theorem listed_extend {f : Frame} {line : Nat} {ids : List Id} (hopen : f.openIds ⊆ ids)
    (hfinished : ∀ x ∈ f.nodes, x.id ∉ ids) :
    (f.extend line).listed = f.listed.map (Mark.touch line ids) := by
  have hkept : ∀ ns : List Node, (∀ x ∈ ns, x ∈ f.nodes) →
      (ns.map Node.mark).map (Mark.touch line ids) = ns.map Node.mark := fun ns hns =>
    Mark.map_touch_of_not_mem (List.forall_mem_map.mpr fun x hx => hfinished x (hns x hx))
  cases f with
  | choice m d h c =>
    rw [extend, listed, listed, List.map_cons, OpenMark.touch_toMark (hopen (by simp [openIds])),
      hkept _ fun x hx => Item.mem_nodesIn_reverse.mp hx]
  | branch k bs m g c =>
    have hbs : ∀ x ∈ Branch.nodesIn bs.reverse, x ∈ (branch k bs m g c).nodes := fun x hx =>
      List.mem_append_left _ (by simpa [Branch.mem_nodesIn] using hx)
    have hc : ∀ x ∈ Item.nodesIn c.reverse, x ∈ (branch k bs m g c).nodes := fun x hx =>
      List.mem_append_right _ (Item.mem_nodesIn_reverse.mp hx)
    rw [extend, listed, listed, List.map_append, List.map_cons, List.map_cons,
      OpenMark.touch_toMark (hopen (by simp [openIds])),
      OpenMark.touch_toMark (hopen (by simp [openIds])), hkept _ hbs, hkept _ hc]

end Frame

/-! ### The reader -/

namespace BodyState

/-- The marks at the root and in the open frames, in document order. -/
def listedOf (root : List Item) : List Frame → List Mark
  | [] => (Item.nodesIn root.reverse).map Node.mark
  | f :: fs => listedOf root fs ++ f.listed

/-- The marks of everything that is open or finished, in document order. -/
def listed (s : BodyState) : List Mark :=
  listedOf s.root s.frames ++ (s.pending.map OpenMark.toMark).toList

variable {s t : BodyState} {line : Nat}

theorem listed_of_pending_none (hp : s.pending = none) : s.listed = listedOf s.root s.frames := by
  rw [listed, hp]
  exact List.append_nil _

theorem count_listed (s : BodyState) (i : Id) : (s.listed.map Mark.id).count i = s.ids.count i := by
  have hframes : ∀ (root : List Item) (fs : List Frame), ((listedOf root fs).map Mark.id).count i =
      (fs.flatMap Frame.ids).count i + (Item.idsIn root).count i := by
    intro root fs
    induction fs with
    | nil =>
      rw [listedOf, List.map_map, List.flatMap_nil, List.count_nil, Nat.zero_add]
      exact Item.count_idsIn_reverse root i
    | cons f fs ih =>
      rw [listedOf, List.map_append, List.count_append, ih, Frame.count_listed, List.flatMap_cons,
        List.count_append]
      omega
  have hpending : (s.pending.map OpenMark.toMark).toList.map Mark.id =
      (s.pending.map OpenMark.id).toList := by
    cases s.pending <;> rfl
  rw [listed, List.map_append, List.count_append, hframes, hpending, count_ids]
  omega

/-- Every identity belongs to an open container or to a finished node. -/
theorem count_ids_eq (s : BodyState) (i : Id) :
    s.ids.count i = s.openIds.count i + (s.nodes.map Node.id).count i := by
  have hframes : ∀ fs : List Frame, (fs.flatMap Frame.ids).count i =
      (fs.flatMap Frame.openIds).count i + ((fs.flatMap Frame.nodes).map Node.id).count i := by
    intro fs
    induction fs with
    | nil => rfl
    | cons f fs ih =>
      have hf : f.ids = f.openIds ++ f.nodes.map Node.id := by cases f <;> rfl
      simp only [List.flatMap_cons, List.map_append, List.count_append, ih, hf]
      omega
  rw [count_ids, hframes, openIds, nodes, List.count_append, List.map_append, List.count_append]
  change _ = _ + ((Item.idsIn s.root).count i + _)
  omega

/-- Nothing that is finished has the identity of an open container. -/
theorem id_not_mem_openIds (h : s.ids.Nodup) {x : Node} (hx : x ∈ s.nodes) : x.id ∉ s.openIds := by
  intro hopen
  have hone := List.nodup_iff_count_le_one.mp h x.id
  have hsplit := count_ids_eq s x.id
  have hopen' := List.count_pos_iff.mpr hopen
  have hfinished := List.count_pos_iff.mpr (List.mem_map_of_mem (f := Node.id) hx)
  omega

theorem mem_listed_of_mem_openIds {i : Id} (h : i ∈ s.openIds) : i ∈ s.listed.map Mark.id := by
  have hopen := List.count_pos_iff.mpr h
  rw [← List.count_pos_iff, count_listed, count_ids_eq]
  omega

/-- A line changes the marks of the open containers, which are those under their identities. -/
theorem listed_extend (h : s.ids.Nodup) (line : Nat) :
    (s.extend line).listed = s.listed.map (Mark.touch line s.openIds) := by
  have hfinished := fun x hx => id_not_mem_openIds h (x := x) hx
  have hframes : ∀ fs : List Frame, (∀ f ∈ fs, f.openIds ⊆ s.openIds) →
      (∀ f ∈ fs, ∀ x ∈ f.nodes, x.id ∉ s.openIds) →
      listedOf s.root (fs.map (·.extend line)) =
        (listedOf s.root fs).map (Mark.touch line s.openIds) := by
    intro fs
    induction fs with
    | nil =>
      refine fun _ _ => (Mark.map_touch_of_not_mem (List.forall_mem_map.mpr fun x hx => ?_)).symm
      exact hfinished x (List.mem_append_left _ (Item.mem_nodesIn_reverse.mp hx))
    | cons f fs ih =>
      intro hopen hnodes
      rw [List.forall_mem_cons] at hopen hnodes
      rw [List.map_cons, listedOf, listedOf, ih hopen.2 hnodes.2,
        Frame.listed_extend hopen.1 hnodes.1, List.map_append]
  have hpending : ((s.pending.map (·.extend line)).map OpenMark.toMark).toList =
      (s.pending.map OpenMark.toMark).toList.map (Mark.touch line s.openIds) := by
    cases hp : s.pending with
    | none => rfl
    | some m =>
      have hm : m.id ∈ s.openIds := List.mem_append_right _ (by simp [hp])
      exact (congrArg (fun x => [x]) (OpenMark.touch_toMark hm)).symm
  rw [listed, listed, List.map_append, ← hpending, ← hframes s.frames]
  · rfl
  · exact fun f hf i hi => List.mem_append_left _ (List.mem_flatMap.mpr ⟨f, hf, hi⟩)
  · exact fun f hf x hx => hfinished x (List.mem_append_right _ (List.mem_flatMap.mpr ⟨f, hf, hx⟩))

theorem listed_add (hp : s.pending = none) (i : Item) :
    (s.add i).listed = listedOf s.root s.frames ++ i.nodes.map Node.mark := by
  rw [listed_of_pending_none (by simp [hp])]
  unfold add
  cases s.frames with
  | nil => exact Frame.marks_reverse_cons i s.root
  | cons f fs =>
    dsimp only
    rw [listedOf, listedOf, Frame.listed_add, List.append_assoc]

theorem spans_add (i : Item) (s : BodyState) : (s.add i).spans = s.spans := by
  unfold add
  split <;> rfl

/-- The table lists what is open or finished in document order, and no identity is used twice or has still to be
drawn. -/
structure Tabled (s : BodyState) : Prop where
  numbered : ∀ i, s.ids.count i ≤ Id.known s.supply i
  table : s.spans.marks = s.listed

namespace Tabled

theorem nodup (h : s.Tabled) : s.ids.Nodup :=
  List.nodup_iff_count_le_one.mpr fun i => Nat.le_trans (h.numbered i) (Id.known_le_one _ i)

theorem nodup_marks (h : s.Tabled) : (s.spans.marks.map Mark.id).Nodup := by
  rw [h.table, List.nodup_iff_count_le_one]
  intro i
  rw [count_listed]
  exact List.nodup_iff_count_le_one.mp h.nodup i

/-- Identities that are drawn meanwhile come from the supply, so only the table has to be looked at. -/
theorem of_draws (h : s.Tabled) (hdraws : s.Draws t) (htable : t.spans.marks = t.listed) : t.Tabled := by
  refine ⟨fun i => ?_, htable⟩
  have hbefore := h.numbered i
  have hcount := hdraws.2 i
  have hknown := Id.known_add_drawn hdraws.1 i
  omega

theorem start (supply : Nat) : Tabled { supply } :=
  ⟨fun _ => Nat.zero_le _, rfl⟩

theorem report (h : s.Tabled) (n : Nat) (cause : IssueCause) : (s.report n cause).Tabled :=
  ⟨h.numbered, h.table⟩

theorem extend (h : s.Tabled) (line : Nat) : (s.extend line).Tabled := by
  refine h.of_draws (.extend line s) ?_
  rw [listed_extend h.nodup, ← h.table, ← SpanTable.marks_touch]
  rfl

/-- An entry is made for a leaf, and then the containers around it go on. -/
theorem append (h : s.Tabled) (hp : s.pending = none) (line : Nat) (leaf : Leaf) :
    (s.append line leaf).Tabled := by
  refine extend (h.of_draws (.put line leaf s) ?_) line
  rw [spans_add, listed_add (s := s.draw line) hp, draw, SpanTable.marks_concat, h.table,
    listed_of_pending_none hp]
  rfl

/-- A container that ends keeps its entry, and the divert that it takes over loses its own. -/
theorem pop (h : s.Tabled) (hp : s.pending = none) : s.pop.Tabled := by
  refine h.of_draws (.pop s) ?_
  cases hf : s.frames with
  | nil =>
    rw [pop_of_frames_nil hf]
    exact h.table
  | cons f fs =>
    have htable := h.table
    rw [listed_of_pending_none hp, hf, listedOf, f.listed_eq, ← List.append_assoc] at htable
    rw [pop_of_frames hf, spans_add, listed_add (by exact hp)]
    exact SpanTable.marks_drop htable h.nodup_marks

theorem popWhile (h : s.Tabled) (hp : s.pending = none) (p : Frame → Bool) : (s.popWhile p).Tabled :=
  (popWhile_induction (P := fun t => t.pending = none ∧ t.Tabled)
    (fun t ht => ⟨(pop_pending t).trans ht.1, ht.2.pop ht.1⟩) p ⟨hp, h⟩).2

theorem closeAll (h : s.Tabled) (hp : s.pending = none) (n : Nat) : (s.closeAll n).Tabled :=
  (closeAll_induction (P := fun t => t.pending = none ∧ t.Tabled) n
    (fun t ht => ⟨(pop_pending t).trans ht.1, ht.2.pop ht.1⟩)
    (fun _ ht => ⟨ht.1, ht.2.report _ _⟩) hp ⟨hp, h⟩).2

theorem openStitch (h : s.Tabled) (hp : s.pending = none) (line : Nat) (name : String) :
    (s.openStitch line name).Tabled := by
  have hclosed := h.closeAll hp line
  have hnoted : ∀ t : BodyState, t.Tabled → t.pending = none →
      ({ t with stitches := name :: t.stitches }.append line (.stitch name)).Tabled := fun t ht hp' =>
    append (s := { t with stitches := name :: t.stitches }) ⟨ht.numbered, ht.table⟩ hp' line _
  unfold BodyState.openStitch
  dsimp only
  split
  · exact hnoted _ (hclosed.report line _) (closeAll_pending line hp)
  · exact hnoted _ hclosed (closeAll_pending line hp)

/-- An entry is made for a container that is opened, when those around it have gone on. -/
theorem push (h : s.Tabled) (hp : s.pending = none) {f : Frame} (hids : f.ids = [.fresh s.supply])
    (hlisted : f.listed = [⟨.fresh s.supply, some ⟨line, line⟩⟩]) :
    Tabled { s.draw line with frames := f :: s.frames } := by
  refine h.of_draws (.push hids) ?_
  rw [listed_of_pending_none (by exact hp), listedOf, hlisted]
  change (s.draw line).spans.marks = _
  rw [draw, SpanTable.marks_concat, h.table, listed_of_pending_none hp]

theorem opening (h : s.Tabled) (hp : s.pending = none) (line : Nat) :
    (s.perform line .opening).Tabled := by
  refine h.of_draws (.opening line s) ?_
  have hextended := (h.extend line).table
  rw [listed_of_pending_none (pending_extend line hp)] at hextended
  change ((s.extend line).draw line).spans.marks = _
  rw [draw, SpanTable.marks_concat, hextended]
  rfl

/-- A branch is recorded behind its conditional, which goes on, and the branches that are finished. -/
theorem marks_pushBranch {k : OpenMark} {bs : List Branch} (hp : s.pending = none)
    (htable : s.spans.marks =
      listedOf s.root s.frames ++ k.toMark :: (Branch.nodesIn bs.reverse).map Node.mark)
    (hnodup : (s.spans.marks.map Mark.id).Nodup) (line : Nat) (guard : Guard) :
    (s.pushBranch line guard k bs).spans.marks = (s.pushBranch line guard k bs).listed := by
  rw [← listed_of_pending_none hp] at htable
  rw [htable, List.map_append, List.nodup_append, List.map_cons, List.nodup_cons] at hnodup
  obtain ⟨hlisted, ⟨hk, -⟩, hapart⟩ := hnodup
  have hids : s.ids.Nodup := List.nodup_iff_count_le_one.mpr fun i => by
    rw [← count_listed]
    exact List.nodup_iff_count_le_one.mp hlisted i
  -- the entries of the conditional and of its branches are not those of the containers around it
  have hopen : ∀ m ∈ (k.extend line).toMark :: (Branch.nodesIn bs.reverse).map Node.mark,
      m.id ∉ s.openIds := fun m hm ho =>
    hapart _ (mem_listed_of_mem_openIds ho) _ (List.mem_map_of_mem (f := Mark.id) hm) rfl
  have htouched : (s.spans.touch line [k.id]).marks =
      s.listed ++ (k.extend line).toMark :: (Branch.nodesIn bs.reverse).map Node.mark := by
    rw [SpanTable.marks_touch, htable, List.map_append, List.map_cons,
      OpenMark.touch_toMark List.mem_cons_self, Mark.map_touch_of_not_mem fun m hm => ?_,
      Mark.map_touch_of_not_mem fun m hm => ?_]
    · rw [List.mem_singleton]
      exact fun hid => hk (List.mem_map.mpr ⟨m, hm, hid⟩)
    · rw [List.mem_singleton]
      exact hapart _ (List.mem_map_of_mem hm) _ List.mem_cons_self
  have hextended : ((s.spans.touch line [k.id]).touch line s.openIds).marks = (s.extend line).listed ++
      (k.extend line).toMark :: (Branch.nodesIn bs.reverse).map Node.mark := by
    rw [SpanTable.marks_touch, htouched, List.map_append, ← listed_extend hids,
      Mark.map_touch_of_not_mem hopen]
  rw [listed_of_pending_none (pending_extend line hp)] at hextended
  rw [listed_of_pending_none (by simp [hp]), pushBranch_frames, pushBranch_root, listedOf, Frame.listed]
  change (_ ++ [_] : SpanTable).marks = _
  rw [SpanTable.marks_concat]
  refine (congrArg (· ++ _) hextended).trans ?_
  rw [List.append_assoc]
  rfl

/-- A branch finishes the branch in front of it as if the conditional were finished with it. -/
theorem openBranch (h : s.Tabled) (line : Nat) (guard : Guard) : (s.openBranch line guard).Tabled := by
  refine h.of_draws (.openBranch line guard s) ?_
  have hopens := opensBranch line guard s
  generalize s.openBranch line guard = t at hopens ⊢
  cases hopens with
  | @first k hp =>
    have htable : s.spans.marks = listedOf s.root s.frames ++
        k.toMark :: (Branch.nodesIn [].reverse).map Node.mark := by
      rw [h.table, listed, hp]
      rfl
    exact marks_pushBranch (s := { s with pending := none }) rfl htable h.nodup_marks line guard
  | @next k m bs g c fs hp hframes =>
    have hpending := (popWhile_pending (!·.isBranch) s).trans hp
    have hpopped := (h.popWhile hp (!·.isBranch)).pop hpending
    generalize s.popWhile (!·.isBranch) = u at hframes hpending hpopped ⊢
    have htable := hpopped.table
    have hnodup := hpopped.nodup_marks
    rw [pop_of_frames hframes, spans_add] at htable hnodup
    rw [listed_add (by exact hpending)] at htable
    exact marks_pushBranch (s := { u with frames := fs, spans := u.spans.drop (Frame.taken? none c) })
      hpending htable hnodup line guard
  | stray hp _ => exact (h.popWhile hp _).table

theorem closeConditional (h : s.Tabled) (hp : s.pending = none) (line : Nat) :
    (s.closeConditional line).Tabled := by
  have hp' := pending_extend line hp
  rw [closeConditional_eq line hp]
  exact ((h.extend line).popWhile hp' _).pop ((popWhile_pending _ _).trans hp')

/-- What an act does. -/
theorem perform (h : s.Tabled) (line : Nat) {a : Act} (ha : s.Admits a) : (s.perform line a).Tabled := by
  cases a with
  | leaf leaf =>
    cases leaf with
    | stitch name => exact h.openStitch ha line name
    | _ => exact h.append ha line _
  | choice depth head =>
    have hp := (popWhile_pending (·.endsAtChoice depth) s).trans ha
    exact ((h.popWhile ha (·.endsAtChoice depth)).extend line).push (pending_extend line hp) rfl rfl
  | opening => exact h.opening ha line
  | branch guard => exact h.openBranch line guard
  | closing => exact h.closeConditional ha.1 line

end Tabled

end BodyState

/-! ### A whole body -/

namespace Body

/-- The table that is left lists the tree in document order. -/
theorem marks_spans_read (supply : Nat) (texts : List String) :
    (read supply texts).1.spans.marks = (Item.nodesIn (read supply texts).1.items).map Node.mark := by
  have hlast : (lastState supply (Line.ofTexts texts)).Tabled :=
    BodyState.lastState_induction (I := fun _ _ t => t.Tabled) (fun _ _ _ ht => ht)
      (fun _ _ _ _ _ ht => ht.report _ _) (fun n _ _ _ ha ht => ht.perform n ha)
      (fun _ _ _ hp ht => ht.pop hp) supply _ (.start supply)
  have hp : (lastState supply (Line.ofTexts texts)).pending = none :=
    BodyState.closeAll_pending _ (pending_readFrom supply _)
  have htable := hlast.table
  rw [BodyState.listed_of_pending_none hp, frames_lastState] at htable
  rw [read_eq]
  exact htable

/-- However the lines are counted, the lines recorded in the table are those of the nodes of the tree. -/
theorem nodeLines_read (supply : Nat) (texts : List String) (first : Int) :
    (read supply texts).1.nodeLines first =
      (Item.nodesIn (read supply texts).1.items).map fun n => (n.id, n.linesFrom first) := by
  have hmarks := congrArg (List.map fun m : Mark =>
    (m.id, m.span.map fun s => (first + (s.first : Int), first + (s.last : Int))))
    (marks_spans_read supply texts)
  rw [SpanTable.marks, List.map_map, List.map_map] at hmarks
  exact hmarks

/-- A choice goes on up to the divert that it takes over, whose lines are dropped. -/
example : (read 0 ["* [Go]", "quickly", "-> b"]).1.nodeLines 5 =
    [(.fresh 0, some (5, 7)), (.fresh 1, some (6, 6))] := by decide +kernel

end Body

end StoryScript
