import StoryScript.Proofs.Body.Performed

/-!
# The reader as a run of acts

Reading lines is performing their acts (`BodyState.Performs.process`), and the acts of the lines are those
that `Act.ofLines` computes without building a tree. `Body.outlineIn_read` shows that these are enough: the
tree that `Body.read` builds has the outline that the acts of the lines list.

Behind this stands a simulation between the reader and the run of acts. Its invariant is
`BodyState.trace`, the outline of everything read so far, the containers that are still open
included: finishing a container adds the divert of its own line to the trace and nothing else
(`BodyState.trace_pop`), since a divert that is taken over stood at the end of the content already.

`Act.located` gives the acts of lines with the lines that they stand on. What holds at the start of a reading
and is kept by every act holds at its end (`BodyState.readFrom_induction`).
-/

namespace StoryScript

/-! ### Acts and their lines -/

namespace Act

/-- The acts of the lines from `n` on, each with its line. -/
def located (st : List Open) (n : Nat) : List Line → List (Nat × Act)
  | [] => []
  | l :: ls =>
    if l.form.isBlank then located st (n + 1) ls
    else
      let as := ofWholeLine st (branchFirst ls) l
      as.map (n, ·) ++ located (after st as) (n + 1) ls

theorem map_snd_located (st : List Open) (n : Nat) (ls : List Line) :
    (located st n ls).map Prod.snd = ofLines st ls := by
  induction ls generalizing st n with
  | nil => rfl
  | cons l ls ih =>
    rw [located, ofLines]
    split
    · exact ih st (n + 1)
    · simp [ih, Function.comp_def]

end Act

/-! ### The trace of a reader -/

/-- What is listed when a frame inside `k` containers is finished. -/
def Frame.own (k : Nat) : Frame → List Entry
  | choice _ _ head _ => Entry.own (k + 1) head.divert
  | branch .. => []

/-- The outline of a frame inside `k` containers. -/
def Frame.trace (k : Nat) : Frame → List Entry
  | choice _ _ head c => ⟨k, head.piece⟩ :: Item.outlineIn (k + 1) c.reverse
  | branch _ bs _ guard c =>
    ⟨k, .conditional⟩ :: (Branch.outlineIn k bs.reverse ++
      ⟨k + 1, .branch guard⟩ :: Item.outlineIn (k + 2) c.reverse)

namespace BodyState

/-- The outline of the items at the root and of the open frames. -/
def traceOf (root : List Item) : List Frame → List Entry
  | [] => Item.outlineIn 0 root.reverse
  | f :: fs => traceOf root fs ++ f.trace (heightOf fs)

/-- The outline of everything read so far. -/
def trace (s : BodyState) : List Entry :=
  traceOf s.root s.frames ++ if s.pending.isSome then [⟨heightOf s.frames, .conditional⟩] else []

theorem trace_of_pending_none {s : BodyState} (h : s.pending = none) :
    s.trace = traceOf s.root s.frames := by
  simp [trace, h]

/-- The trace when a frame is put on the stack. -/
theorem trace_frames_cons {t : BodyState} (hp : t.pending = none) (line : Nat) (f : Frame)
    (fs : List Frame) : ({ t.draw line with frames := f :: fs } : BodyState).trace =
      traceOf t.root fs ++ f.trace (heightOf fs) := by
  simp [trace, hp, traceOf]

/-! ### What changes the trace -/

@[simp] theorem traceOf_extend (root : List Item) (line : Nat) (fs : List Frame) :
    traceOf root (fs.map (·.extend line)) = traceOf root fs := by
  induction fs with
  | nil => rfl
  | cons f fs ih =>
    rw [List.map_cons, traceOf, traceOf, ih, heightOf_extend]
    cases f <;> rfl

@[simp] theorem trace_extend (line : Nat) (s : BodyState) : (s.extend line).trace = s.trace := by
  simp [trace, extend]

/-- The trace when a further branch is opened. -/
theorem trace_pushBranch {s : BodyState} (hp : s.pending = none) (line : Nat) (guard : Guard)
    (k : OpenMark) (bs : List Branch) : (s.pushBranch line guard k bs).trace =
      traceOf s.root s.frames ++ Frame.trace (heightOf s.frames)
        (.branch (k.extend line) bs (s.openMark line) guard []) := by
  simp [trace, hp, traceOf]

/-- An item that is put at the end of the innermost container ends the trace. -/
theorem traceOf_add {s : BodyState} (i : Item) :
    traceOf (s.add i).root (s.add i).frames =
      traceOf s.root s.frames ++ i.outline (heightOf s.frames) := by
  have hlast : ∀ (k : Nat) (c : List Item), Item.outlineIn k (i :: c).reverse =
      Item.outlineIn k c.reverse ++ i.outline k := by
    intro k c
    rw [List.reverse_cons, Item.outlineIn_append]
    simp [Item.outlineIn]
  unfold add
  cases hf : s.frames with
  | nil => exact hlast 0 s.root
  | cons f fs =>
    dsimp only
    rw [traceOf, traceOf, List.append_assoc]
    congr 1
    cases f with
    | choice m d h c =>
      rw [Frame.add, Frame.trace, Frame.trace, hlast, List.cons_append, heightOf_cons]
      simp [Frame.height, Nat.add_comm]
    | branch k bs m g c =>
      rw [Frame.add, Frame.trace, Frame.trace, hlast, heightOf_cons]
      simp [Frame.height, Nat.add_comm]

/-- The divert that a container takes over stood at the end of its content. -/
theorem outlineIn_hoist (k : Nat) (divert : Option String) (content : List Item) :
    Item.outlineIn k (Frame.hoist divert content).2 ++ Entry.own k (Frame.hoist divert content).1 =
      Item.outlineIn k content.reverse ++ Entry.own k divert := by
  unfold Frame.hoist
  split
  · rw [List.reverse_cons, Item.outlineIn_append]
    simp [Item.outlineIn, Item.outline]
  · rfl

theorem outline_closeBranch (k : Nat) (mark : OpenMark) (guard : Guard) (content : List Item) :
    (Frame.closeBranch mark guard content).outline k =
      ⟨k + 1, .branch guard⟩ :: Item.outlineIn (k + 2) content.reverse := by
  have h := outlineIn_hoist (k + 2) none content
  rw [Frame.closeBranch]
  dsimp only
  rw [Branch.outline, h]
  simp

/-- A finished frame is listed as it was while it was open, with the divert of its own line. -/
theorem outline_close (k : Nat) (f : Frame) : f.close.outline k = f.trace k ++ f.own k := by
  cases f with
  | choice m d h c =>
    have hc := outlineIn_hoist (k + 1) h.divert c
    rw [Frame.close]
    dsimp only
    rw [Item.outline, hc]
    rfl
  | branch kc bs m g c =>
    rw [Frame.close, Item.outline, List.reverse_cons, Branch.outlineIn_append, Branch.outlineIn,
      Branch.outlineIn, outline_closeBranch]
    simp [Frame.trace, Frame.own]

theorem trace_pop {s : BodyState} {f : Frame} {fs : List Frame} (h : s.frames = f :: fs) :
    traceOf s.pop.root s.pop.frames = traceOf s.root s.frames ++ f.own (heightOf fs) := by
  rw [pop_of_frames h, traceOf_add, outline_close, h, traceOf, List.append_assoc]

section

variable {p : Frame → Bool} {q : Open → Bool}

theorem Agree.flush_branch (h : Agree p q) (os : List Open) :
    Open.flush q (.branch :: .conditional :: os) = [] := by
  cases hb : q .branch with
  | false => exact Open.flush_cons_of_neg hb
  | true => rw [Open.flush_cons_of_pos hb, Open.flush_cons_of_neg h.conditional]; rfl

/-- Finishing frames lists the diverts of their own lines. -/
theorem trace_popWhile (h : Agree p q) (s : BodyState) :
    traceOf (s.popWhile p).root (s.popWhile p).frames =
      traceOf s.root s.frames ++ Open.flush q (opensOf s.frames) := by
  -- the induction is on the height of the stack, which `pop` lowers
  induction hlen : s.frames.length generalizing s with
  | zero =>
    have hf : s.frames = [] := List.eq_nil_of_length_eq_zero hlen
    simp [popWhile_of_nil hf, hf]
  | succ n ih =>
    obtain ⟨f, fs, hf⟩ : ∃ f fs, s.frames = f :: fs := List.exists_cons_of_length_eq_add_one hlen
    cases f with
    | branch k bs m g c =>
      rw [popWhile_of_neg hf (h.branch k bs m g c), hf, opensOf_cons]
      change _ = _ ++ Open.flush q (.branch :: .conditional :: opensOf fs)
      rw [h.flush_branch, List.append_nil]
    | choice m d hd c =>
      cases hp : p (.choice m d hd c) with
      | false =>
        rw [popWhile_of_neg hf hp, hf, opensOf_cons]
        change _ = _ ++ Open.flush q (.choice d hd.divert :: opensOf fs)
        rw [Open.flush_cons_of_neg (by rw [← h.choice m d hd c, hp]), List.append_nil]
      | true =>
        have hlen' : s.pop.frames.length = n := by
          rw [pop_of_frames hf]
          have hfs : fs.length = n := by simpa [hf] using hlen
          cases fs <;> simpa [BodyState.add] using hfs
        have hopens : opensOf s.pop.frames = opensOf fs := by
          rw [pop_of_frames hf, opensOf_add]
        rw [popWhile_of_pos h.add hf hp, ih _ hlen', trace_pop hf, hopens, hf, opensOf_cons,
          List.append_assoc]
        congr 1
        change _ = Open.flush q (.choice d hd.divert :: opensOf fs)
        rw [Open.flush_cons_of_pos (by rw [← h.choice m d hd c, hp]), length_opensOf]
        rfl

end

/-! ### One line -/

/-- A state goes on from another by some acts: the acts change its containers and list what is added
to its trace. -/
structure Follows (s : BodyState) (as : List Act) (t : BodyState) : Prop where
  opens : t.opens = Act.after s.opens as
  trace : t.trace = s.trace ++ Act.emitAll s.opens as

theorem Follows.refl (s : BodyState) : Follows s [] s := ⟨rfl, by simp⟩

theorem Follows.trans {s t u : BodyState} {as bs : List Act} (h : Follows s as t)
    (h' : Follows t bs u) : Follows s (as ++ bs) u := by
  refine ⟨?_, ?_⟩
  · rw [h'.opens, h.opens, Act.after_append]
  · rw [h'.trace, h.trace, h.opens, Act.emitAll_append, List.append_assoc]

/-- The issues that are reported do not count. -/
theorem Follows.report {s t : BodyState} {as : List Act} {line : Nat} {cause : IssueCause}
    (h : Follows s as t) : Follows s as (t.report line cause) := ⟨h.opens, h.trace⟩

theorem Follows.append {s : BodyState} {leaf : Leaf} (line : Nat) (hp : s.pending = none)
    (hleaf : ∀ name, leaf ≠ .stitch name) : Follows s [.leaf leaf] (s.append line leaf) := by
  have hp' : ((s.draw line).add
      (.leaf ⟨.fresh s.supply, some ⟨line, line⟩⟩ leaf)).pending = none := by simp [hp]
  refine ⟨?_, ?_⟩
  · rw [BodyState.append, opens_extend, opens_of_pending_none hp', opensOf_add, draw_frames,
      Act.after_cons, Act.next_leaf hleaf, Act.after_nil, opens_of_pending_none hp]
  · rw [BodyState.append, trace_extend, trace_of_pending_none hp', traceOf_add, trace_of_pending_none hp,
      Act.emitAll_cons, Act.emit_leaf hleaf, Act.emitAll_nil, opens_of_pending_none hp,
      length_opensOf]
    rfl

theorem trace_closeAll {s : BodyState} (line : Nat) (hp : s.pending = none) :
    (s.closeAll line).trace = s.trace ++ Open.flush (fun _ => true) s.opens := by
  -- the frames are closed one by one; each lists the divert on its own line, and a report lists nothing
  have hfold : ∀ (fs : List Frame) (s : BodyState), s.frames.map Frame.opens = fs.map Frame.opens →
      s.pending = none → (fs.foldl (fun s f =>
        (if f.isBranch then s.report line .conditionalUnclosed else s).pop) s).trace =
        s.trace ++ Open.flush (fun _ => true) (opensOf fs) := by
    intro fs
    induction fs with
    | nil => exact fun s _ _ => by simp
    | cons f fs ih =>
      intro s hopens hp
      have hpop : ∀ t : BodyState, t.frames = s.frames → t.root = s.root → t.pending = none →
          (fs.foldl (fun s f => (if f.isBranch then s.report line .conditionalUnclosed else s).pop)
            t.pop).trace = s.trace ++ Open.flush (fun _ => true) (opensOf (f :: fs)) := by
        intro t hframes hroot hp'
        obtain ⟨g, gs, hg⟩ : ∃ g gs, t.frames = g :: gs := by
          rw [← hframes] at hopens
          cases ht : t.frames with
          | nil => simp [ht] at hopens
          | cons g gs => exact ⟨g, gs, rfl⟩
        rw [← hframes, hg, List.map_cons, List.map_cons, List.cons.injEq] at hopens
        have hgs : t.pop.frames.map Frame.opens = fs.map Frame.opens := by
          rw [pop_of_frames hg, ← hopens.2]
          cases gs <;> simp [BodyState.add]
        have hopensOf : opensOf gs = opensOf fs := by
          simp only [opensOf, List.flatMap_def, hopens.2]
        have hown : g.own (heightOf gs) ++ Open.flush (fun _ => true) (opensOf fs) =
            Open.flush (fun _ => true) (opensOf (f :: fs)) := by
          rw [opensOf_cons, ← hopens.1, ← hopensOf]
          cases g <;> simp [Frame.own, Frame.opens, Open.flush, Open.own]
        rw [ih _ hgs ((pop_pending t).trans hp'), trace_of_pending_none ((pop_pending t).trans hp'),
          trace_pop hg, trace_of_pending_none hp, hframes, hroot, List.append_assoc, hown]
      rw [List.foldl_cons]
      split
      · exact hpop _ rfl rfl hp
      · exact hpop _ rfl rfl hp
  unfold closeAll
  rw [hp]
  simpa [opens_of_pending_none hp] using hfold s.frames s rfl hp

/-- A stitch finishes everything and stands at the root. -/
theorem Follows.openStitch {s : BodyState} (line : Nat) (name : String) (hp : s.pending = none) :
    Follows s [.leaf (.stitch name)] (s.openStitch line name) := by
  obtain ⟨t, heq, hroot, hframes, hpending, -⟩ := s.exists_openStitch_eq line name
  rw [closeAll_frames line hp] at hframes
  rw [closeAll_pending line hp] at hpending
  have htrace : t.trace = s.trace ++ Open.flush (fun _ => true) s.opens := by
    rw [← trace_closeAll line hp, trace_of_pending_none hpending,
      trace_of_pending_none (closeAll_pending line hp), hroot, hframes, closeAll_frames line hp]
  have hp' : ((t.draw line).add
      (.leaf ⟨.fresh t.supply, some ⟨line, line⟩⟩ (.stitch name))).pending = none := by simp [hpending]
  rw [heq]
  refine ⟨?_, ?_⟩
  · rw [BodyState.append, opens_extend, opens_of_pending_none hp', opensOf_add]
    simp [hframes, Act.next, Act.push, Act.finishes]
  · rw [BodyState.append, trace_extend, trace_of_pending_none hp', traceOf_add,
      ← trace_of_pending_none (s := t.draw line) hpending]
    change t.trace ++ _ = _
    rw [htrace, draw_frames, hframes, List.append_assoc]
    have hall : s.opens.dropWhile (fun _ => true) = [] := List.dropWhile_eq_nil_iff.mpr (by simp)
    simp [Act.emit, Act.finishes, Act.piece?, Item.outline, hall]

/-- Finishing the choices that a choice of the given depth finishes. -/
theorem trace_popWhile_of_pending_none {p : Frame → Bool} {q : Open → Bool} (h : Agree p q)
    {s : BodyState} (hp : s.pending = none) :
    (s.popWhile p).trace = s.trace ++ Open.flush q s.opens := by
  rw [trace_of_pending_none ((popWhile_pending _ s).trans hp), trace_of_pending_none hp,
    trace_popWhile h, opens_of_pending_none hp]

theorem Follows.choice {s : BodyState} (line : Nat) (depth : Nat) (head : ChoiceHead)
    (hp : s.pending = none) : Follows s [.choice depth head] (s.perform line (.choice depth head)) := by
  have hpop : (s.popWhile (·.endsAtChoice depth)).pending = none := (popWhile_pending _ s).trans hp
  have hopens := opens_popWhile_endsAtChoice depth hp
  have htrace := trace_popWhile_of_pending_none (Agree.endsAtChoice depth) hp
  have hp' := pending_extend line hpop
  unfold perform
  refine ⟨?_, ?_⟩
  · rw [opens_frames_cons hp', ← opens_of_pending_none hp', opens_extend, hopens]
    rfl
  · rw [trace_frames_cons hp', ← trace_of_pending_none hp', trace_extend, htrace,
      ← length_opensOf, ← opens_of_pending_none hp', opens_extend, hopens, List.append_assoc]
    simp [Act.emit, Act.finishes, Act.piece?, Frame.trace, Item.outlineIn]

theorem Follows.opening {s : BodyState} (line : Nat) (hp : s.pending = none) :
    Follows s [.opening] (s.perform line .opening) := by
  unfold perform
  refine ⟨?_, ?_⟩
  · simp [BodyState.opens, BodyState.extend, hp, Act.next, Act.push, Act.finishes]
  · simp [BodyState.trace, BodyState.opens, BodyState.extend, hp, Act.emit, Act.finishes,
      Act.piece?]

/-- The innermost branch and what is left of the stack around it, seen as containers. -/
theorem opens_of_innermost_branch {s : BodyState} (hp : s.pending = none) {k m : OpenMark}
    {bs : List Branch} {g : Guard} {c : List Item} {fs : List Frame}
    (hf : (s.popWhile (!·.isBranch)).frames = .branch k bs m g c :: fs) :
    s.opens.dropWhile Open.inside = .conditional :: opensOf fs := by
  rw [opens_of_pending_none hp, ← dropWhile_opensOf_popWhile Agree.inside, hf, opensOf_cons]
  rfl

theorem Follows.openBranch {s : BodyState} (line : Nat) (guard : Guard)
    (hin : s.inConditional = true) : Follows s [.branch guard] (s.openBranch line guard) := by
  have hbranch := opensBranch line guard s
  generalize s.openBranch line guard = t at hbranch ⊢
  cases hbranch with
  | first hp =>
    -- the conditional is the innermost container, so nothing is finished
    have hopens : s.opens = .conditional :: opensOf s.frames := by simp [BodyState.opens, hp]
    have htrace : s.trace =
        traceOf s.root s.frames ++ [⟨heightOf s.frames, .conditional⟩] := by
      simp [BodyState.trace, hp]
    refine ⟨?_, ?_⟩
    · rw [opens_pushBranch rfl, hopens]
      simp [Act.next, Act.push, Act.finishes, Open.inside]
    · rw [trace_pushBranch rfl, htrace, hopens]
      simp [Frame.trace, Branch.outlineIn, Item.outlineIn, Act.emit, Act.finishes, Act.piece?,
        Open.inside, Open.flush]
  | @next k m bs g c fs hp hf =>
    have hp' : (s.popWhile (!·.isBranch)).pending = none := (popWhile_pending _ s).trans hp
    have htrace := trace_popWhile_of_pending_none Agree.inside hp
    rw [trace_of_pending_none hp', hf, traceOf] at htrace
    have hdrop := opens_of_innermost_branch hp hf
    generalize (s.popWhile (!·.isBranch)).spans.drop (Frame.taken? none c) = spans
    refine ⟨?_, ?_⟩
    · rw [opens_pushBranch (s := { s.popWhile (!·.isBranch) with frames := fs, spans }) hp']
      simp [Act.next, Act.push, Act.finishes, hdrop]
    · have hbranch : ∀ mark : OpenMark, Frame.trace (heightOf fs) (.branch (k.extend line)
          (Frame.closeBranch m g c :: bs) mark guard []) =
          Frame.trace (heightOf fs) (.branch k bs m g c) ++ [⟨heightOf fs + 1, .branch guard⟩] := by
        intro mark
        simp only [Frame.trace, List.reverse_cons, Branch.outlineIn_append, Branch.outlineIn,
          outline_closeBranch, List.reverse_nil, Item.outlineIn, List.append_nil]
        simp
      rw [trace_pushBranch (s := { s.popWhile (!·.isBranch) with frames := fs, spans }) hp', hbranch,
        ← List.append_assoc, htrace]
      simp [Act.emit, Act.finishes, Act.piece?, hdrop]
  | stray _ hout => simp [hin] at hout

theorem Follows.closeConditional {s : BodyState} (line : Nat) (hin : s.inConditional = true)
    (hp : s.pending = none) : Follows s [.closing] (s.closeConditional line) := by
  have hp' := pending_extend line hp
  obtain ⟨k, bs, m, g, c, fs, hf⟩ := exists_branch_of_inConditional hp' (by simpa using hin)
  have hpop := (popWhile_pending (!·.isBranch) (s.extend line)).trans hp'
  have htrace := trace_popWhile_of_pending_none Agree.inside hp'
  have hdrop := opens_of_innermost_branch hp' hf
  rw [opens_extend] at htrace hdrop
  rw [closeConditional_eq line hp]
  refine ⟨?_, ?_⟩
  · rw [opens_of_pending_none ((pop_pending _).trans hpop), pop_of_frames hf, opensOf_add]
    simp [Act.next, Act.push, Act.finishes, hdrop]
  · rw [trace_of_pending_none ((pop_pending _).trans hpop), trace_pop hf,
      ← trace_of_pending_none hpop, htrace, trace_extend]
    simp [Frame.own, Act.emit, Act.finishes, Act.piece?]

/-- What an act does. -/
theorem Follows.perform {s : BodyState} (line : Nat) {a : Act} (h : s.Admits a) :
    Follows s [a] (s.perform line a) := by
  cases a with
  | leaf leaf =>
    by_cases hstitch : ∃ name, leaf = .stitch name
    · obtain ⟨name, rfl⟩ := hstitch
      exact openStitch line name h
    · have hleaf : ∀ name, leaf ≠ .stitch name := fun name hname => hstitch ⟨name, hname⟩
      rw [perform_leaf hleaf]
      exact append line h hleaf
  | choice depth head => exact choice line depth head h
  | opening => exact opening line h
  | branch guard => exact openBranch line guard h
  | closing => exact closeConditional line h.2 h.1

/-! ### From line to line -/

theorem Performs.follows {line : Nat} {s t : BodyState} {as : List Act} (h : Performs line s as t) :
    Follows s as t := by
  induction h with
  | refl => exact Follows.refl s
  | report n cause _ ih => exact ih.report
  | act _ hadmits ih => exact ih.trans (Follows.perform line hadmits)

/-- What one line does. -/
theorem Follows.apply {s : BodyState} (branchFollows : Bool) (line : Nat) (l : Line)
    (h : s.Sound (l.form.isBranch)) :
    Follows s (Act.ofLine s.opens branchFollows l) (s.apply branchFollows line l) :=
  (Performs.apply branchFollows l h).follows

theorem ofWholeLine_eq (s : BodyState) (branchFollows : Bool) (l : Line) :
    Act.ofWholeLine s.opens branchFollows l = Act.ofChain s.opens branchFollows (s.linesOf l) := by
  unfold Act.ofWholeLine linesOf
  rw [← inConditional_eq]
  split
  · simp [Act.ofChain]
  · rfl

/-- What a line does together with its remainder is to perform the acts of both. -/
theorem Performs.process {s : BodyState} (branchFollows : Bool) (line : Nat) (l : Line)
    (h : s.Sound l.form.isBranch) :
    Performs line s (Act.ofWholeLine s.opens branchFollows l) (s.process branchFollows line l) := by
  rw [process_eq, ofWholeLine_eq]
  refine h.linesOf_induction branchFollows line (P := fun s ls =>
    Performs line s (Act.ofChain s.opens branchFollows ls) (ls.foldl (BodyState.apply branchFollows line) s))
    (fun _ _ => refl) (fun s l ls hs hls => ?_) l
  have happly : Performs line s _ _ := Performs.apply branchFollows l hs
  rw [happly.follows.opens] at hls
  exact happly.trans hls

theorem Follows.process {s : BodyState} (branchFollows : Bool) (line : Nat) (l : Line)
    (h : s.Sound (l.form.isBranch)) :
    Follows s (Act.ofWholeLine s.opens branchFollows l) (s.process branchFollows line l) :=
  (Performs.process branchFollows line l h).follows

/-! ### Induction on acts -/

/-- What holds at the start of a reading, does not look at the issues, and is kept by every act that comes
holds at the end of the reading. The first component counts the lines that have been begun, the second one
lists the acts that have been performed. -/
theorem readFrom_induction {I : Nat → List (Nat × Act) → BodyState → Prop}
    (hline : ∀ n as s, I n as s → I (n + 1) as s)
    (hreport : ∀ n as s line cause, I n as s → I n as (s.report line cause))
    (hact : ∀ n as s a, s.Admits a → I (n + 1) as s → I (n + 1) (as ++ [(n, a)]) (s.perform n a))
    {ls : List Line} {n : Nat} {as : List (Nat × Act)} {s : BodyState}
    (h : s.Sound (branchFirst ls)) (hs : I n as s) :
    I (n + ls.length) (as ++ Act.located s.opens n ls) (s.readFrom n ls) := by
  -- on one line, by induction on its acts
  have hperforms : ∀ {n as s bs t}, Performs n s bs t → I (n + 1) as s →
      I (n + 1) (as ++ bs.map (n, ·)) t := by
    intro n as s bs t hbs hs
    induction hbs with
    | refl => simpa using hs
    | report line cause _ ih => exact hreport _ _ _ line cause ih
    | act _ hadmits ih =>
      rw [List.map_append, ← List.append_assoc]
      exact hact _ _ _ _ hadmits ih
  induction ls generalizing n as s with
  | nil => simpa [Act.located, readFrom] using hs
  | cons l ls ih =>
    rw [Act.located, List.length_cons, Nat.add_comm ls.length, ← Nat.add_assoc]
    cases hblank : l.form.isBlank with
    | true =>
      rw [readFrom_cons_of_blank hblank, if_pos rfl]
      rw [branchFirst_cons_of_blank hblank] at h
      exact ih h (hline _ _ _ hs)
    | false =>
      rw [readFrom_cons_of_not_blank hblank, if_neg (by simp), ← List.append_assoc]
      rw [branchFirst_cons_of_not_blank hblank] at h
      -- what is open behind the line is what its acts say, so they are the acts that come next
      have hrest := ih (h.process n l)
        (hperforms (Performs.process (branchFirst ls) n l h) (hline _ _ _ hs))
      rwa [(Follows.process (branchFirst ls) n l h).opens] at hrest

/-- What a list of lines does. -/
theorem Follows.readFrom {s : BodyState} (line : Nat) (ls : List Line)
    (h : s.Sound (branchFirst ls)) : Follows s (Act.ofLines s.opens ls) (s.readFrom line ls) := by
  have hstart : Follows s (([] : List (Nat × Act)).map Prod.snd) s := Follows.refl s
  rw [← Act.map_snd_located s.opens line ls]
  refine readFrom_induction (I := fun _ as t => Follows s (as.map Prod.snd) t) (fun _ _ _ ht => ht)
    (fun _ _ _ _ _ ht => ht.report) (fun n as t a hadmits ht => ?_) h hstart
  rw [List.map_append]
  exact ht.trans (Follows.perform n hadmits)

/-- What finishing a container keeps holds when a whole body has been read. -/
theorem lastState_induction {I : Nat → List (Nat × Act) → BodyState → Prop}
    (hline : ∀ n as s, I n as s → I (n + 1) as s)
    (hreport : ∀ n as s line cause, I n as s → I n as (s.report line cause))
    (hact : ∀ n as s a, s.Admits a → I (n + 1) as s → I (n + 1) (as ++ [(n, a)]) (s.perform n a))
    (hpop : ∀ n as s, s.pending = none → I n as s → I n as s.pop) (supply : Nat) (ls : List Line)
    (hstart : I (Body.skipped ls) [] { supply }) :
    I ls.length (Act.located [] (Body.skipped ls) (Body.content ls)) (Body.lastState supply ls) := by
  have hsound := (start_quiet supply).sound (branchFirst (ls.drop (Body.skipped ls)))
  have hread := readFrom_induction hline hreport hact hsound hstart
  have hpending := Body.pending_readFrom supply ls
  have hlength : Body.skipped ls + (ls.drop (Body.skipped ls)).length = ls.length := by
    rw [List.length_drop, Nat.add_sub_cancel' (Body.skipped_le ls)]
  rw [hlength] at hread
  -- nothing waits for a branch any more, and finishing containers does not change this
  exact (closeAll_induction (P := fun s => s.pending = none ∧
      I ls.length (Act.located [] (Body.skipped ls) (Body.content ls)) s) _
    (fun s hs => ⟨(pop_pending s).trans hs.1, hpop _ _ s hs.1 hs.2⟩)
    (fun s hs => ⟨hs.1, hreport _ _ s _ _ hs.2⟩) hpending
    ⟨hpending, hread⟩).2

end BodyState

/-- The tree that is read has the outline that the acts of the lines list. -/
theorem Body.outlineIn_read (supply : Nat) (texts : List String) :
    Item.outlineIn 0 (Body.read supply texts).1.items =
      Act.run (Act.ofLines [] ((Line.ofTexts texts).drop (Body.skipped (Line.ofTexts texts)))) [] := by
  have hsound := (BodyState.start_quiet supply).sound
    (branchFirst ((Line.ofTexts texts).drop (Body.skipped (Line.ofTexts texts))))
  have hread := BodyState.Follows.readFrom (Body.skipped (Line.ofTexts texts))
    ((Line.ofTexts texts).drop (Body.skipped (Line.ofTexts texts))) hsound
  have hp := pending_readFrom supply (Line.ofTexts texts)
  rw [content] at hp
  have hframes := BodyState.closeAll_frames ((Line.ofTexts texts).length - 1) hp
  have htrace := BodyState.trace_closeAll ((Line.ofTexts texts).length - 1) hp
  rw [BodyState.trace_of_pending_none (BodyState.closeAll_pending _ hp), hframes,
    hread.trace, hread.opens] at htrace
  rw [Body.read_items, Body.lastState, Act.run_eq_emitAll]
  exact htrace

end StoryScript
