import StoryScript.Proofs.Body.Outline

/-!
# Reading as a run of acts

What a line does to the containers that are open is one of a few acts: it adds a leaf, or it opens a
choice, a conditional or a branch, or it closes a conditional. An act first finishes some of the
innermost open containers (`Act.finishes`), then adds at most one node (`Act.piece?`) and then
changes the stack (`Act.push`). Of an open container only its kind, its depth and the divert on its
own line matter for this, so a stack of containers is a list of `Open`.

* `Act.run` — the outline that a run of acts lists. It is complete only when everything is finished,
  so a run ends by finishing all containers.
* `Act.head_depth_le` — whatever a run lists first stands no deeper than its stack is high. This
  tells two runs apart by what they list first.
-/

namespace StoryScript

/-- A stitch finishes all open containers; no other leaf finishes any. -/
theorem Leaf.stitch_cases (l : Leaf) : (∃ name, l = .stitch name) ∨ ∀ name, l ≠ .stitch name := by
  cases l with
  | stitch name => exact Or.inl ⟨name, rfl⟩
  | _ => exact Or.inr fun _ h => Leaf.noConfusion h

/-- A container that is open: the depth of a choice, and the divert on its own line. -/
inductive Open where
  | choice (depth : Nat) (divert : Option String)
  | conditional
  | branch
  deriving DecidableEq

/-- What a line does. -/
inductive Act where
  | leaf (leaf : Leaf)
  | choice (depth : Nat) (head : ChoiceHead)
  | opening
  | branch (guard : Guard)
  | closing
  deriving DecidableEq

namespace Open

/-- Whether a choice of the given depth finishes this container. -/
def endsAtChoice (depth : Nat) : Open → Bool
  | choice d _ => depth ≤ d
  | _ => false

/-- Whether this is no conditional. -/
def inside (o : Open) : Bool := o ≠ conditional

/-- What is listed when the `n`-th open container is finished. -/
def own (n : Nat) : Open → List Entry
  | choice _ d => Entry.own n d
  | _ => []

/-- The divert on the line of a container. -/
def divert? : Open → Option String
  | choice _ d => d
  | _ => none

/-- What is listed when the innermost containers are finished for as long as they satisfy a
condition. -/
def flush (p : Open → Bool) : List Open → List Entry
  | [] => []
  | o :: os => if p o then o.own (os.length + 1) ++ flush p os else []

variable {p : Open → Bool} {o : Open} {os : List Open}

@[simp] theorem flush_nil : flush p [] = [] := rfl

theorem flush_cons_of_pos (h : p o = true) :
    flush p (o :: os) = o.own (os.length + 1) ++ flush p os := by
  rw [flush, if_pos h]

theorem flush_cons_of_neg (h : p o = false) : flush p (o :: os) = [] := by
  rw [flush, if_neg (by simp [h])]

@[simp] theorem flush_false : flush (fun _ => false) os = [] := by
  cases os <;> simp [flush]

@[simp] theorem dropWhile_false : os.dropWhile (fun _ => false) = os := by
  cases os <;> simp

theorem mem_own {n : Nat} {e : Entry} (h : e ∈ o.own n) :
    e.depth = n ∧ ∃ t ∈ o.divert?, e.piece = .leaf (.divert t) := by
  cases o with
  | choice d t => cases t <;> simp_all [own, Entry.own, divert?]
  | conditional => simp [own] at h
  | branch => simp [own] at h

/-- Finishing containers lists their diverts, none of them deeper than the stack is high. -/
theorem mem_flush {e : Entry} (h : e ∈ flush p os) :
    e.depth ≤ os.length ∧ ∃ o ∈ os, ∃ t ∈ o.divert?, e.piece = .leaf (.divert t) := by
  induction os with
  | nil => simp at h
  | cons o os ih =>
    unfold flush at h
    split at h
    · rcases List.mem_append.mp h with hown | hflush
      · obtain ⟨hdepth, ht⟩ := mem_own hown
        exact ⟨by rw [hdepth, List.length_cons], o, List.mem_cons_self, ht⟩
      · obtain ⟨hdepth, o', ho', ht⟩ := ih hflush
        exact ⟨by rw [List.length_cons]; omega, o', List.mem_cons_of_mem _ ho', ht⟩
    · simp at h

end Open

namespace Act

/-- Which of the innermost open containers an act finishes. -/
def finishes : Act → Open → Bool
  | leaf (.stitch _) => fun _ => true
  | leaf _ => fun _ => false
  | choice depth _ => Open.endsAtChoice depth
  | opening => fun _ => false
  | branch _ => Open.inside
  | closing => Open.inside

/-- The node that an act adds. -/
def piece? : Act → Option Piece
  | leaf l => some (.leaf l)
  | choice _ head => some head.piece
  | opening => some .conditional
  | branch guard => some (.branch guard)
  | closing => none

/-- The divert that an act brings in besides its node. -/
def divert? : Act → Option String
  | choice _ head => head.divert
  | _ => none

/-- What an act makes of the containers that it does not finish. -/
def push : Act → List Open → List Open
  | leaf _, st => st
  | choice depth head, st => .choice depth head.divert :: st
  | opening, st => .conditional :: st
  | branch _, st => .branch :: st
  | closing, st => st.tail

/-- The containers that are open after an act. -/
def next (a : Act) (st : List Open) : List Open := a.push (st.dropWhile a.finishes)

/-- What an act lists. -/
def emit (a : Act) (st : List Open) : List Entry :=
  Open.flush a.finishes st ++
    (a.piece?.map fun p => ⟨(st.dropWhile a.finishes).length, p⟩).toList

/-- The containers that are open after some acts. -/
def after (st : List Open) (as : List Act) : List Open := as.foldl (fun st a => a.next st) st

/-- What acts list while containers stay open behind them. -/
def emitAll : List Open → List Act → List Entry
  | _, [] => []
  | st, a :: as => a.emit st ++ emitAll (a.next st) as

/-- The outline that acts list, everything finished behind them. -/
def run : List Act → List Open → List Entry
  | [], st => Open.flush (fun _ => true) st
  | a :: as, st => a.emit st ++ run as (a.next st)

@[simp] theorem after_nil (st : List Open) : after st [] = st := rfl

@[simp] theorem after_cons (st : List Open) (a : Act) (as : List Act) :
    after st (a :: as) = after (a.next st) as := rfl

theorem after_append (st : List Open) (as bs : List Act) :
    after st (as ++ bs) = after (after st as) bs :=
  List.foldl_append

@[simp] theorem emitAll_nil (st : List Open) : emitAll st [] = [] := rfl

@[simp] theorem emitAll_cons (st : List Open) (a : Act) (as : List Act) :
    emitAll st (a :: as) = a.emit st ++ emitAll (a.next st) as := rfl

theorem emitAll_singleton (st : List Open) (a : Act) : emitAll st [a] = a.emit st :=
  List.append_nil _

theorem emitAll_append (st : List Open) (as bs : List Act) :
    emitAll st (as ++ bs) = emitAll st as ++ emitAll (after st as) bs := by
  induction as generalizing st with
  | nil => rfl
  | cons a as ih => simp only [List.cons_append, emitAll_cons, ih, after_cons, List.append_assoc]

theorem run_append (as bs : List Act) (st : List Open) :
    run (as ++ bs) st = emitAll st as ++ run bs (after st as) := by
  induction as generalizing st with
  | nil => rfl
  | cons a as ih =>
    simp only [List.cons_append, run, emitAll_cons, ih, after_cons, List.append_assoc]

theorem run_eq_emitAll (as : List Act) (st : List Open) :
    run as st = emitAll st as ++ Open.flush (fun _ => true) (after st as) := by
  simpa [run] using run_append as [] st

/-! ### What is listed first -/

/-- No act but a stitch finishes a container before it adds a leaf. -/
theorem emit_leaf {l : Leaf} (h : ∀ name, l ≠ .stitch name) (st : List Open) :
    (leaf l).emit st = [⟨st.length, .leaf l⟩] := by
  cases l with
  | stitch name => exact absurd rfl (h name)
  | _ => simp [emit, finishes, piece?]

theorem next_leaf {l : Leaf} (h : ∀ name, l ≠ .stitch name) (st : List Open) :
    (leaf l).next st = st := by
  cases l with
  | stitch name => exact absurd rfl (h name)
  | _ => simp [next, finishes, push]

theorem length_dropWhile_le (p : Open → Bool) (st : List Open) :
    (st.dropWhile p).length ≤ st.length :=
  (List.dropWhile_sublist p).length_le

/-- Everything that one act lists stands no deeper than the stack is high. -/
theorem depth_le_of_mem_emit {a : Act} {st : List Open} {e : Entry} (h : e ∈ a.emit st) :
    e.depth ≤ st.length := by
  unfold emit at h
  rcases List.mem_append.mp h with hflush | hpiece
  · exact (Open.mem_flush hflush).1
  · obtain ⟨p, -, rfl⟩ : ∃ p, a.piece? = some p ∧ ⟨(st.dropWhile a.finishes).length, p⟩ = e := by
      simpa using hpiece
    exact length_dropWhile_le _ _

/-- A closing brace is the only act that lists no node. -/
theorem eq_closing_of_piece? {a : Act} (h : a.piece? = none) : a = closing := by
  cases a <;> simp_all [piece?]

theorem eq_leaf_of_piece? {a : Act} {l : Leaf} (h : a.piece? = some (.leaf l)) : a = leaf l := by
  cases a <;> simp [piece?, ChoiceHead.piece] at h
  rw [h]

/-- An act that lists no node leaves no more containers open than there were. -/
theorem length_next_le {a : Act} (h : a.piece? = none) (st : List Open) :
    (a.next st).length ≤ st.length := by
  obtain rfl := eq_closing_of_piece? h
  have hle := length_dropWhile_le Open.inside st
  simp only [next, push, List.length_tail]
  exact Nat.le_trans (Nat.sub_le _ _) hle

/-- What a run lists first is listed by its first act, unless that lists nothing. -/
theorem head_run_cons {a : Act} {as : List Act} {st : List Open} {e : Entry}
    (h : (run (a :: as) st).head? = some e) :
    e ∈ a.emit st ∨ a.piece? = none ∧ (run as (a.next st)).head? = some e := by
  rw [run, List.head?_append] at h
  cases hemit : (a.emit st).head? with
  | some e' =>
    rw [hemit] at h
    obtain rfl : e' = e := by simpa using h
    exact Or.inl (List.mem_of_head? hemit)
  | none =>
    rw [hemit, Option.none_or] at h
    rw [List.head?_eq_none_iff, emit, List.append_eq_nil_iff] at hemit
    exact Or.inr ⟨by simpa using hemit.2, h⟩

/-- What a run lists first stands no deeper than its stack is high. -/
theorem head_depth_le {as : List Act} {st : List Open} {e : Entry}
    (h : (run as st).head? = some e) : e.depth ≤ st.length := by
  induction as generalizing st with
  | nil => exact (Open.mem_flush (List.mem_of_head? h)).1
  | cons a as ih =>
    rcases head_run_cons h with hemit | ⟨hpiece, hrest⟩
    · exact depth_le_of_mem_emit hemit
    · exact Nat.le_trans (ih hrest) (length_next_le hpiece st)

/-! ### What is listed at all -/

/-- A container that is open after an act was open before or was opened by it. -/
theorem mem_next {a : Act} {st : List Open} {o : Open} (h : o ∈ a.next st) :
    o ∈ st ∨ o.divert? = a.divert? := by
  have hdrop : ∀ {p : Open → Bool}, o ∈ st.dropWhile p → o ∈ st := fun hmem =>
    (List.dropWhile_sublist _).subset hmem
  cases a with
  | leaf l => exact Or.inl (hdrop h)
  | choice depth head =>
    rcases List.mem_cons.mp h with rfl | hmem
    · exact Or.inr rfl
    · exact Or.inl (hdrop hmem)
  | opening =>
    rcases List.mem_cons.mp h with rfl | hmem
    · exact Or.inr rfl
    · exact Or.inl (hdrop hmem)
  | branch guard =>
    rcases List.mem_cons.mp h with rfl | hmem
    · exact Or.inr rfl
    · exact Or.inl (hdrop hmem)
  | closing => exact Or.inl (hdrop (List.mem_of_mem_tail h))

/-- Everything that a run lists is a node of one of its acts or a divert that one of them brought
in. -/
theorem piece_of_mem_run {P : Piece → Prop} {as : List Act} {st : List Open}
    (hpiece : ∀ a ∈ as, ∀ p ∈ a.piece?, P p)
    (hdivert : ∀ a ∈ as, ∀ t ∈ a.divert?, P (.leaf (.divert t)))
    (hst : ∀ o ∈ st, ∀ t ∈ o.divert?, P (.leaf (.divert t))) {e : Entry} (he : e ∈ run as st) :
    P e.piece := by
  have hflush : ∀ {p : Open → Bool} {st : List Open},
      (∀ o ∈ st, ∀ t ∈ o.divert?, P (.leaf (.divert t))) → e ∈ Open.flush p st → P e.piece := by
    intro p st hst hmem
    obtain ⟨-, o, ho, t, ht, hep⟩ := Open.mem_flush hmem
    rw [hep]
    exact hst o ho t ht
  induction as generalizing st with
  | nil => exact hflush hst he
  | cons a as ih =>
    rw [List.forall_mem_cons] at hpiece hdivert
    rcases List.mem_append.mp he with hemit | hrest
    · rcases List.mem_append.mp hemit with hmem | hnode
      · exact hflush hst hmem
      · obtain ⟨p, hp, rfl⟩ : ∃ p, a.piece? = some p ∧
            ⟨(st.dropWhile a.finishes).length, p⟩ = e := by simpa using hnode
        exact hpiece.1 p hp
    · refine ih hpiece.2 hdivert.2 (fun o ho t ht => ?_) hrest
      rcases mem_next ho with hmem | hnew
      · exact hst o hmem t ht
      · exact hdivert.1 t (hnew ▸ ht)

end Act

end StoryScript
