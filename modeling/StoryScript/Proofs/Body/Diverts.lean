import StoryScript.Document.Knot
import StoryScript.Proofs.Body.Reading
import Mathlib.Data.List.Perm.Basic

/-!
# No divert is lost

A divert on a line ends up in the tree exactly once: as an item of its own, or as the divert of a choice
or of a branch. `BodyState.captures` collects the diverts of the lines as the reader goes through them,
and `Body.perm_diverts_read` says that these are the diverts of the tree, up to order. The order differs
where the divert on the line of a choice comes behind the diverts of its content.

Two steps lead there. The diverts of a tree can be read off its outline
(`Item.divertTargetsIn_eq_outlineIn`), which is what the acts of the lines list, and a run of acts lists
every divert that an act brings in, those of open containers when they are finished (`Act.perm_run`).
-/

namespace StoryScript

/-- The divert that is found on a line. -/
def LineForm.divert? : LineForm → Option String
  | .text _ d => d
  | .divert target => some target
  | .choice _ head => head.divert
  | _ => none

/-! ### The diverts of a tree -/

/-- The targets of all diverts of a tree, as they stand in the references to knots. -/
def Item.divertTargetsIn (items : List Item) : List String :=
  (Item.divertRefsIn 0 .standalone items).map DivertRef.target

/-- The target of a piece that is a divert. -/
def Piece.divert? : Piece → Option String
  | .leaf (.divert target) => some target
  | _ => none

/-- The targets of the diverts among some entries. -/
def Entry.diverts (es : List Entry) : List String := es.filterMap fun e => e.piece.divert?

namespace Entry

@[simp] theorem diverts_nil : diverts [] = [] := rfl

@[simp] theorem diverts_append (es fs : List Entry) : diverts (es ++ fs) = diverts es ++ diverts fs :=
  List.filterMap_append

@[simp] theorem diverts_own (k : Nat) (d : Option String) : diverts (own k d) = d.toList := by
  cases d <;> rfl

/-- An entry that is no divert adds none. -/
theorem diverts_cons_of_none {e : Entry} (h : e.piece.divert? = none) (es : List Entry) :
    diverts (e :: es) = diverts es := List.filterMap_cons_none h

end Entry

mutual

theorem Item.targets_divertRefs (n k : Nat) (x : DivertContext) : ∀ i : Item,
    (i.divertRefs n x).map DivertRef.target = Entry.diverts (i.outline k)
  | .leaf m l => by cases l <;> rfl
  | .choice m h c => by
    rw [Item.divertRefs, Item.outline, Entry.diverts_cons_of_none (by rfl), Entry.diverts_append,
      Entry.diverts_own, List.map_append, Item.targets_divertRefsIn n (k + 1) _ c]
    cases h.divert <;> rfl
  | .conditional m bs => by
    rw [Item.divertRefs, Item.outline, Entry.diverts_cons_of_none (by rfl),
      Branch.targets_divertRefsIn n k bs]

theorem Branch.targets_divertRefs (n k : Nat) : ∀ b : Branch,
    (b.divertRefs n).map DivertRef.target = Entry.diverts (b.outline k)
  | .mk m g d c => by
    rw [Branch.divertRefs, Branch.outline, Entry.diverts_cons_of_none (by rfl), Entry.diverts_append,
      Entry.diverts_own, List.map_append, Item.targets_divertRefsIn n (k + 2) _ c]
    cases d <;> rfl

theorem Item.targets_divertRefsIn (n k : Nat) (x : DivertContext) : ∀ is : List Item,
    (Item.divertRefsIn n x is).map DivertRef.target = Entry.diverts (Item.outlineIn k is)
  | [] => rfl
  | i :: is => by
    rw [Item.divertRefsIn, Item.outlineIn, List.map_append, Entry.diverts_append,
      Item.targets_divertRefs n k x i, Item.targets_divertRefsIn n k x is]

theorem Branch.targets_divertRefsIn (n k : Nat) : ∀ bs : List Branch,
    (Branch.divertRefsIn n bs).map DivertRef.target = Entry.diverts (Branch.outlineIn k bs)
  | [] => rfl
  | b :: bs => by
    rw [Branch.divertRefsIn, Branch.outlineIn, List.map_append, Entry.diverts_append,
      Branch.targets_divertRefs n k b, Branch.targets_divertRefsIn n k bs]

end

theorem Item.divertTargetsIn_eq_outlineIn (items : List Item) :
    Item.divertTargetsIn items = Entry.diverts (Item.outlineIn 0 items) :=
  Item.targets_divertRefsIn 0 0 .standalone items

/-! ### The diverts of acts -/

namespace Act

/-- The diverts that an act brings in, with its node or besides it. -/
def diverts (a : Act) : List String := (a.piece?.bind Piece.divert?).toList ++ a.divert?.toList

/-- The diverts of containers that are open. -/
def openDiverts (st : List Open) : List String := st.filterMap Open.divert?

theorem diverts_flush (p : Open → Bool) (st : List Open) :
    Entry.diverts (Open.flush p st) = openDiverts (st.takeWhile p) := by
  induction st with
  | nil => rfl
  | cons o st ih =>
    cases hp : p o with
    | false =>
      rw [Open.flush_cons_of_neg hp, List.takeWhile_cons_of_neg (by simp [hp])]
      rfl
    | true =>
      rw [Open.flush_cons_of_pos hp, List.takeWhile_cons_of_pos hp, Entry.diverts_append, ih]
      cases o with
      | choice d t => cases t <;> rfl
      | conditional => rfl
      | branch => rfl

theorem openDiverts_append (st st' : List Open) :
    openDiverts (st ++ st') = openDiverts st ++ openDiverts st' := List.filterMap_append

/-- The divert of a container is kept for as long as it is open. -/
theorem openDiverts_push (a : Act) (st : List Open) (hst : ∀ o ∈ st.head?, a.finishes o = false) :
    openDiverts (a.push st) = a.divert?.toList ++ openDiverts st := by
  cases a with
  | leaf l => rfl
  | choice depth head =>
    cases hd : head.divert <;> simp [push, divert?, openDiverts, Open.divert?, hd, List.filterMap_cons]
  | opening => rfl
  | branch guard => rfl
  | closing =>
    cases st with
    | nil => rfl
    | cons o st =>
      -- only a conditional is closed, and it has no divert
      have ho : Open.inside o = false := hst o rfl
      cases o with
      | conditional => rfl
      | choice d t => simp [Open.inside] at ho
      | branch => simp [Open.inside] at ho

/-- One act lists the diverts of the containers that it finishes and the divert that is its node. -/
theorem perm_emit (a : Act) (st : List Open) :
    (Entry.diverts (a.emit st) ++ openDiverts (a.next st)).Perm (a.diverts ++ openDiverts st) := by
  have hsplit : openDiverts st = openDiverts (st.takeWhile a.finishes) ++
      openDiverts (st.dropWhile a.finishes) := by
    rw [← openDiverts_append, List.takeWhile_append_dropWhile]
  have hhead : ∀ o ∈ (st.dropWhile a.finishes).head?, a.finishes o = false := fun o ho => by
    simpa [Option.mem_def.mp ho] using List.head?_dropWhile_not a.finishes st
  have hnode : ∀ k : Nat, Entry.diverts ((a.piece?.map fun p => (⟨k, p⟩ : Entry)).toList) =
      (a.piece?.bind Piece.divert?).toList := by
    intro k
    cases a.piece? with
    | none => rfl
    | some p => cases hp : p.divert? <;> simp [Entry.diverts, hp]
  rw [emit, next, Entry.diverts_append, diverts_flush, hnode, openDiverts_push a _ hhead, hsplit,
    diverts]
  -- what is finished moves from the front of the containers to the front of what is listed
  simp only [List.append_assoc]
  refine List.perm_append_comm_assoc _ _ _ |>.trans ?_
  refine List.Perm.append_left _ ?_
  exact List.perm_append_comm_assoc _ _ _

/-- A run of acts lists just the diverts that they bring in and those of the containers that were
open. -/
theorem perm_run (as : List Act) (st : List Open) :
    (Entry.diverts (run as st)).Perm (as.flatMap diverts ++ openDiverts st) := by
  induction as generalizing st with
  | nil =>
    have hall : st.takeWhile (fun _ => true) = st := List.takeWhile_eq_self_iff.mpr (by simp)
    rw [run, diverts_flush, hall]
    exact List.Perm.refl _
  | cons a as ih =>
    rw [run, Entry.diverts_append, List.flatMap_cons]
    calc List.Perm (Entry.diverts (a.emit st) ++ Entry.diverts (run as (a.next st)))
          (Entry.diverts (a.emit st) ++ (as.flatMap diverts ++ openDiverts (a.next st))) :=
        (ih (a.next st)).append_left _
      List.Perm _ (as.flatMap diverts ++ (Entry.diverts (a.emit st) ++ openDiverts (a.next st))) :=
        List.perm_append_comm_assoc _ _ _
      List.Perm _ (as.flatMap diverts ++ (a.diverts ++ openDiverts st)) :=
        (perm_emit a st).append_left _
      List.Perm _ (a.diverts ++ (as.flatMap diverts ++ openDiverts st)) :=
        List.perm_append_comm_assoc _ _ _
      List.Perm _ ((a.diverts ++ as.flatMap diverts) ++ openDiverts st) :=
        List.Perm.of_eq (List.append_assoc _ _ _).symm

end Act

/-! ### The diverts of lines -/

namespace BodyState

/-- Whether a line is a choice that is kept as it stands, because too many containers are open. -/
def keeps (line : Nat) (s : BodyState) (l : Line) : Bool :=
  match l.form with
  | .choice depth _ => !((s.interrupt line).popWhile (·.endsAtChoice depth)).hasRoom
  | _ => false

/-- The diverts found on lines that stand on one, those of a choice that is kept as it stands
excepted. -/
def capturesOf (branchFollows : Bool) (line : Nat) (s : BodyState) : List Line → List String
  | [] => []
  | l :: ls =>
    (if s.keeps line l then [] else l.form.divert?.toList) ++
      capturesOf branchFollows line (s.apply branchFollows line l) ls

/-- The diverts found on the lines from `line` on, as the reader goes through them. -/
def captures (s : BodyState) (line : Nat) : List Line → List String
  | [] => []
  | l :: ls =>
    if l.form.isBlank then s.captures (line + 1) ls
    else s.capturesOf (branchFirst ls) line (s.linesOf l) ++
      (s.process (branchFirst ls) line l).captures (line + 1) ls

/-- What the leaves of a line bring in is the divert that is found on it. -/
theorem diverts_leaves {l : Line} (h : ∀ depth head, l.form ≠ .choice depth head) :
    (l.leaves.map Act.leaf).flatMap Act.diverts = l.form.divert?.toList := by
  unfold Line.leaves
  cases hform : l.form with
  | text content divert => cases divert <;> rfl
  | choice depth head => exact absurd hform (h depth head)
  | _ => rfl

theorem keeps_eq_false {l : Line} (h : ∀ depth head, l.form ≠ .choice depth head) (line : Nat)
    (s : BodyState) : s.keeps line l = false := by
  unfold keeps
  split
  · next hform => exact absurd hform (h _ _)
  · rfl

theorem keeps_of_choice {s : BodyState} (hp : s.pending = none) (line : Nat) {l : Line} {depth : Nat}
    {head : ChoiceHead} (hform : l.form = .choice depth head) : s.keeps line l =
      !decide ((s.opens.dropWhile (Open.endsAtChoice depth)).length < nestingLimit) := by
  rw [keeps, hform]
  dsimp only
  rw [interrupt_of_pending_none line hp, hasRoom, ← length_opens, opens_popWhile_endsAtChoice depth hp]

/-- The acts of a line bring in the divert that is found on it. -/
theorem diverts_ofLine {s : BodyState} (branchFollows : Bool) (line : Nat) (l : Line)
    (h : s.Sound (l.form.isBranch)) :
    (Act.ofLine s.opens branchFollows l).flatMap Act.diverts =
      if s.keeps line l then [] else l.form.divert?.toList := by
  have hacts := Act.lineActs s.opens branchFollows l
  generalize Act.ofLine s.opens branchFollows l = as at hacts
  cases hacts with
  | choice hform hroom =>
    have hp := h.pending_none (by simp [hform, LineForm.isBranch])
    rw [keeps_of_choice hp line hform, decide_eq_true hroom, hform]
    simp [Act.diverts, Act.piece?, ChoiceHead.piece, Piece.divert?, Act.divert?, LineForm.divert?]
  | keptChoice hform hroom =>
    have hp := h.pending_none (by simp [hform, LineForm.isBranch])
    rw [keeps_of_choice hp line hform, decide_eq_false hroom]
    rfl
  | leaves _ hchoice =>
    rw [keeps_eq_false hchoice, diverts_leaves hchoice]
    rfl
  | stitch hform | opening hform | keptOpening hform | branch hform | closing hform =>
    rw [keeps_eq_false (by simp [hform]), hform]
    rfl

/-- So do the acts of a line together with its remainder. -/
theorem diverts_ofWholeLine {s : BodyState} (branchFollows : Bool) (line : Nat) (l : Line)
    (h : s.Sound (l.form.isBranch)) :
    (Act.ofWholeLine s.opens branchFollows l).flatMap Act.diverts =
      s.capturesOf branchFollows line (s.linesOf l) := by
  rw [ofWholeLine_eq]
  refine h.linesOf_induction branchFollows line (P := fun s ls =>
    (Act.ofChain s.opens branchFollows ls).flatMap Act.diverts = s.capturesOf branchFollows line ls)
    (fun _ _ => rfl) (fun s l ls hs hls => ?_) l
  rw [(Follows.apply branchFollows line l hs).opens] at hls
  rw [Act.ofChain, List.flatMap_append, diverts_ofLine branchFollows line l hs, hls, capturesOf]

/-- The acts of the lines of a body bring in the diverts that are found on the lines. -/
theorem diverts_ofLines {s : BodyState} (line : Nat) (ls : List Line) (h : s.Sound (branchFirst ls)) :
    (Act.ofLines s.opens ls).flatMap Act.diverts = s.captures line ls := by
  induction ls generalizing s line with
  | nil => rfl
  | cons l ls ih =>
    rw [Act.ofLines, captures]
    cases hblank : l.form.isBlank with
    | true =>
      rw [if_pos rfl, if_pos rfl]
      rw [branchFirst_cons_of_blank hblank] at h
      exact ih (line + 1) h
    | false =>
      rw [if_neg (by simp), if_neg (by simp)]
      rw [branchFirst_cons_of_not_blank hblank] at h
      have hopens := (Follows.process (branchFirst ls) line l h).opens
      rw [List.flatMap_append, diverts_ofWholeLine (branchFirst ls) line l h, ← hopens,
        ih (line + 1) (h.process line l)]

end BodyState

/-- The diverts found on the lines of a body behind its position annotation. -/
def Body.captures (supply : Nat) (texts : List String) : List String :=
  BodyState.captures { supply } (skipped (Line.ofTexts texts)) (content (Line.ofTexts texts))

/-- The diverts of a tree that was read are those that were found on the lines, each as often. -/
theorem Body.perm_diverts_read (supply : Nat) (texts : List String) :
    (Item.divertTargetsIn (Body.read supply texts).1.items).Perm (Body.captures supply texts) := by
  have hsound := (BodyState.start_quiet supply).sound (branchFirst (content (Line.ofTexts texts)))
  have hlines := BodyState.diverts_ofLines (skipped (Line.ofTexts texts))
    (content (Line.ofTexts texts)) hsound
  have hrun := Act.perm_run (Act.ofLines [] (content (Line.ofTexts texts))) []
  rw [Item.divertTargetsIn_eq_outlineIn, Body.outlineIn_read]
  refine hrun.trans (List.Perm.of_eq ?_)
  rw [Body.captures, ← hlines]
  exact List.append_nil _

end StoryScript
