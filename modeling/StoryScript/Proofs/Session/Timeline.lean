import StoryScript.Proofs.Session.Reachable

/-!
# The history as a timeline

The earlier snapshots of a session, the present one and those that were undone are one list of snapshots
with a cursor (`Session.timeline`). An edit that is carried out cuts the list off behind the cursor and
appends its snapshot; going back and forward move the cursor by one; whatever is refused, has nothing to
do, or only saves leaves both alone (`Session.follows_attempt`). That a refused edit has not touched the
session is a matter of its steps, each check of which stands before the commit (`Session.attempt_eq`). So
after any run of commands the three parts of the history are read off the timeline that the run makes
(`Session.history_eq_timeline`).

That a snapshot that is appended pushes out at most one other rests on a bound on both stacks together
(`Session.Bounded`): going forward fills the earlier snapshots without a look at the limit, but takes each
of them from those that were undone.
-/

namespace StoryScript

/-! ### Timelines -/

/-- Snapshots in the order in which they were made, and the place of the present one. -/
structure Timeline where
  snapshots : List Document
  cursor : Nat

namespace Timeline

/-- What can happen to a timeline. -/
inductive Event where
  | commit (d : Document)
  | undo
  | redo
  | stay

/-- The timeline of a session that has just begun. -/
def start (d : Document) : Timeline := ⟨[d], 0⟩

/-- All behind the cursor is cut off and a snapshot appended; the oldest ones go as long as more than
`limit` stand in front of it. -/
def commit (limit : Nat) (t : Timeline) (d : Document) : Timeline :=
  let snapshots := t.snapshots.take (t.cursor + 1) ++ [d]
  let kept := snapshots.drop (snapshots.length - (limit + 1))
  ⟨kept, kept.length - 1⟩

/-- One place back, unless the cursor is at the oldest snapshot. -/
def undo (t : Timeline) : Timeline := { t with cursor := t.cursor - 1 }

/-- One place forward, unless the cursor is at the latest snapshot. -/
def redo (t : Timeline) : Timeline :=
  if t.cursor + 1 < t.snapshots.length then { t with cursor := t.cursor + 1 } else t

def step (limit : Nat) (t : Timeline) : Event → Timeline
  | .commit d => t.commit limit d
  | .undo => t.undo
  | .redo => t.redo
  | .stay => t

end Timeline

namespace Session

variable {s : Session}

/-! ### Runs -/

/-- The session that a command leaves, whether or not it is refused. -/
def attempt (s : Session) : Command → Session
  | .insert name item caret => (Edit.insert 0 name item caret).left s
  | .replace name id item => (Edit.replace name id item).left s
  | .delete name id => (Edit.delete name id).left s
  | .move name id caret => (Edit.move name id caret).left s
  | .addStitch name stitch caret => (Edit.addStitch name stitch caret).left s
  | .addKnot name body region position => (Edit.addKnot name body region position).left s
  | .deleteKnot name => (Edit.deleteKnot name).left s
  | .renameKnot old new => (Edit.renameKnot old new).left s
  | .replaceKnot name body => (Edit.replaceKnot name body).left s
  | .setKnotPosition name position => (Edit.setKnotPosition name position).left s
  | .setInitialDivert target => (Edit.setInitialDivert target).left s
  | .updateText text => (Edit.updateText text).left s
  | .undo => s.undo?.getD s
  | .redo => s.redo?.getD s
  | .save path => (Edit.save path).left s

/-- The session after a list of commands. -/
def run (s : Session) (cs : List Command) : Session := cs.foldl attempt s

/-- An edit commits what it makes, unless it is refused. -/
def Command.edit (s : Session) (c : Command) : Timeline.Event :=
  match c.perform? s with
  | some t => .commit t.document
  | none => .stay

/-- What a command is to the timeline. -/
def Command.event (s : Session) : Command → Timeline.Event
  | .undo => .undo
  | .redo => .redo
  | .save _ => .stay
  | .renameKnot old new => if new = old then .stay else (Command.renameKnot old new).edit s
  | c => c.edit s

/-- What the commands of a run are to the timeline, each in the session that it is given to. -/
def events (s : Session) : List Command → List Timeline.Event
  | [] => []
  | c :: cs => c.event s :: (s.attempt c).events cs

/-! ### Commands that are refused -/

/-- A name that is given again makes no snapshot. -/
theorem perform?_renameKnot_self (s : Session) (name : String) :
    (Command.renameKnot name name).perform? s = none := by
  rw [Command.perform?, Session.renameKnot]
  cases (Edit.renameKnot name name).outcome s with
  | error e => rfl
  | ok t => simp [Except.map, Except.toOption]

/-- A command that is refused, or has nothing to do, leaves the session as it was. -/
theorem attempt_eq (s : Session) (c : Command) : s.attempt c = (c.perform? s).getD s := by
  cases c with
  | insert name item caret => exact (Edit.guarded_insert 0 name item caret).left_eq s
  | replace name id item => exact (Edit.guarded_replace name id item).left_eq s
  | delete name id => exact (Edit.guarded_delete name id).left_eq s
  | move name id caret => exact (Edit.guarded_move name id caret).left_eq s
  | addStitch name stitch caret => exact (Edit.guarded_addStitch name stitch caret).left_eq s
  | addKnot name body region position =>
    exact (Edit.guarded_addKnot name body region position).left_eq s
  | deleteKnot name => exact (Edit.guarded_deleteKnot name).left_eq s
  | renameKnot old new =>
    by_cases hname : new = old
    · subst hname
      rw [perform?_renameKnot_self]
      exact Edit.looks_renameKnot_self new s
    · have hleft := (Edit.guarded_renameKnot old new).left_eq s
      rw [attempt, hleft, Command.perform?, Session.renameKnot]
      cases (Edit.renameKnot old new).outcome s with
      | error e => rfl
      | ok t => simp [Except.map, Except.toOption, hname]
  | replaceKnot name body => exact (Edit.guarded_replaceKnot name body).left_eq s
  | setKnotPosition name position => exact (Edit.guarded_setKnotPosition name position).left_eq s
  | setInitialDivert target => rfl
  | updateText text => rfl
  | undo => rfl
  | redo => rfl
  | save path =>
    have hleft := (Edit.guarded_save path).left_eq s
    rw [attempt, hleft, Command.perform?, Session.save, Edit.outcome]
    cases ((Edit.save path).on s).1 <;> rfl

/-! ### The timeline of a session -/

/-- The snapshots of a session in the order in which they were made. -/
def timeline (s : Session) : Timeline :=
  ⟨s.past.reverse ++ s.document :: s.future, s.past.length⟩

@[simp] theorem cursor_timeline (s : Session) : s.timeline.cursor = s.past.length := rfl

theorem past_eq_timeline (s : Session) :
    s.past = (s.timeline.snapshots.take s.timeline.cursor).reverse := by
  rw [timeline, List.take_left' List.length_reverse, List.reverse_reverse]

theorem getElem?_timeline (s : Session) :
    s.timeline.snapshots[s.timeline.cursor]? = some s.document := by
  simp [timeline]

theorem future_eq_timeline (s : Session) :
    s.future = s.timeline.snapshots.drop (s.timeline.cursor + 1) := by
  simp [timeline, List.drop_append]

/-- Both stacks together hold no more than the history may. -/
def Bounded (s : Session) : Prop := s.past.length + s.future.length ≤ s.historyLimit

theorem trimHistory_eq_take {limit : Nat} {past : List Document} (h : past.length ≤ limit + 1) :
    trimHistory limit past = past.take limit := by
  unfold trimHistory
  split
  · next hlt =>
    obtain rfl : limit = past.length - 1 := by omega
    exact List.dropLast_eq_take
  · next hle => exact (List.take_of_length_le (Nat.le_of_not_lt hle)).symm

theorem timeline_commit (h : s.Bounded) (d : Document) :
    (s.commit d).timeline = s.timeline.commit s.historyLimit d := by
  have hpast : (s.document :: s.past).length ≤ s.historyLimit + 1 := by
    unfold Bounded at h
    rw [List.length_cons]
    omega
  have hcut : s.timeline.snapshots.take (s.timeline.cursor + 1) = (s.document :: s.past).reverse := by
    rw [timeline, List.reverse_cons, List.append_cons]
    exact List.take_left' (by simp)
  -- the snapshots in front of the new one, with the oldest left out
  have hkept : (s.commit d).timeline.snapshots =
      ((s.document :: s.past).reverse ++ [d]).drop
        (((s.document :: s.past).reverse ++ [d]).length - (s.historyLimit + 1)) := by
    change (trimHistory s.historyLimit (s.document :: s.past)).reverse ++ [d] = _
    rw [trimHistory_eq_take hpast, List.reverse_take, List.drop_append_of_le_length]
    · simp
    · simp only [List.length_append, List.length_reverse, List.length_cons, List.length_nil]
      omega
  have hcursor : (s.commit d).timeline.cursor = (s.commit d).timeline.snapshots.length - 1 := by
    simp [timeline, Session.commit]
  rw [Timeline.commit, hcut]
  exact congrArg₂ Timeline.mk hkept (by rw [← hkept]; exact hcursor)

theorem bounded_commit (h : s.Bounded) (d : Document) : (s.commit d).Bounded := by
  have hpast : (s.document :: s.past).length ≤ s.historyLimit + 1 := by
    unfold Bounded at h
    rw [List.length_cons]
    omega
  change (trimHistory s.historyLimit (s.document :: s.past)).length + 0 ≤ s.historyLimit
  rw [trimHistory_eq_take hpast, List.length_take]
  exact Nat.min_le_left _ _

theorem timeline_undo (s : Session) : (s.undo?.getD s).timeline = s.timeline.undo := by
  cases hpast : s.past with
  | nil => simp [undo?, timeline, Timeline.undo, hpast]
  | cons d past => simp [undo?, timeline, Timeline.undo, hpast]

theorem timeline_redo (s : Session) : (s.redo?.getD s).timeline = s.timeline.redo := by
  cases hfuture : s.future with
  | nil => simp [redo?, timeline, Timeline.redo, hfuture]
  | cons d future => simp [redo?, timeline, Timeline.redo, hfuture]

/-- Going back moves a snapshot from one stack to the other. -/
theorem bounded_undo (h : s.Bounded) : (s.undo?.getD s).Bounded := by
  unfold Bounded at h
  cases hpast : s.past with
  | nil => simpa [undo?, Bounded, hpast] using h
  | cons d past =>
    rw [hpast, List.length_cons] at h
    simp only [undo?, hpast, Option.getD_some, Bounded, List.length_cons]
    omega

theorem bounded_redo (h : s.Bounded) : (s.redo?.getD s).Bounded := by
  unfold Bounded at h
  cases hfuture : s.future with
  | nil => simpa [redo?, Bounded, hfuture] using h
  | cons d future =>
    rw [hfuture, List.length_cons] at h
    simp only [redo?, hfuture, Option.getD_some, Bounded, List.length_cons]
    omega

/-! ### Commands -/

/-- From one session to another the timeline goes on by an event, and the stacks stay bounded. -/
structure Follows (s t : Session) (e : Timeline.Event) : Prop where
  timeline : t.timeline = s.timeline.step s.historyLimit e
  bounded : t.Bounded
  historyLimit : t.historyLimit = s.historyLimit

theorem follows_stay (h : s.Bounded) : s.Follows s .stay := ⟨rfl, h, rfl⟩

theorem follows_undo (h : s.Bounded) : s.Follows (s.undo?.getD s) .undo := by
  refine ⟨timeline_undo s, bounded_undo h, ?_⟩
  unfold undo?
  split <;> rfl

theorem follows_redo (h : s.Bounded) : s.Follows (s.redo?.getD s) .redo := by
  refine ⟨timeline_redo s, bounded_redo h, ?_⟩
  unfold redo?
  split <;> rfl

/-- A commit, whatever has been drawn from the supply before. -/
theorem follows_commit (h : s.Bounded) (supply : Nat) (d : Document) :
    s.Follows (({ s with supply } : Session).commit d) (.commit d) := by
  have hdrawn : ({ s with supply } : Session).Bounded := h
  exact ⟨timeline_commit hdrawn d, bounded_commit hdrawn d, rfl⟩

theorem follows_save (h : s.Bounded) (path : Option Path) :
    s.Follows (s.attempt (.save path)) .stay := by
  rw [attempt_eq]
  cases hs : (Command.save path).perform? s with
  | none => exact follows_stay h
  | some t =>
    obtain ⟨⟨u, file, text⟩, hsave, rfl⟩ := Option.map_eq_some_iff.mp hs
    rw [Option.getD_some, eq_of_save (eq_ok_of_toOption hsave)]
    exact ⟨rfl, h, rfl⟩

/-- An edit that is carried out commits the document it reads. -/
theorem follows_edit (h : s.Bounded) {c : Command} (hundo : c ≠ .undo) (hredo : c ≠ .redo)
    (hsave : ∀ path, c ≠ .save path) : s.Follows (s.attempt c) (c.edit s) := by
  rw [attempt_eq, Command.edit]
  cases hs : c.perform? s with
  | none => exact follows_stay h
  | some t =>
    cases outcome_of_perform? hs with
    | rereads text r _ => exact follows_commit h _ _
    | undoes _ => exact absurd rfl hundo
    | redoes _ => exact absurd rfl hredo
    | saves target _ _ => exact absurd rfl (hsave target)

/-- Every command does to the timeline what it is to it. -/
theorem follows_attempt (h : s.Bounded) (c : Command) : s.Follows (s.attempt c) (c.event s) := by
  cases c with
  | undo => exact follows_undo h
  | redo => exact follows_redo h
  | save path => exact follows_save h path
  | renameKnot old new =>
    by_cases hname : new = old
    · subst hname
      rw [attempt_eq, perform?_renameKnot_self, Command.event, if_pos rfl]
      exact follows_stay h
    · rw [Command.event, if_neg hname]
      exact follows_edit h (by simp) (by simp) (by simp)
  | _ => exact follows_edit h (by simp) (by simp) (by simp)

/-- A run makes the timeline that its events make. -/
theorem follows_run (h : s.Bounded) (cs : List Command) :
    (s.run cs).timeline = (s.events cs).foldl (Timeline.step s.historyLimit) s.timeline ∧
      (s.run cs).Bounded ∧ (s.run cs).historyLimit = s.historyLimit := by
  induction cs generalizing s with
  | nil => exact ⟨rfl, h, rfl⟩
  | cons c cs ih =>
    have hstep := follows_attempt h c
    obtain ⟨htimeline, hbounded, hlimit⟩ := ih hstep.bounded
    refine ⟨?_, hbounded, hlimit.trans hstep.historyLimit⟩
    calc ((s.attempt c).run cs).timeline
        = ((s.attempt c).events cs).foldl (Timeline.step (s.attempt c).historyLimit)
            (s.attempt c).timeline := htimeline
      _ = ((s.attempt c).events cs).foldl (Timeline.step s.historyLimit)
            (s.timeline.step s.historyLimit (c.event s)) := by
          rw [hstep.historyLimit, hstep.timeline]

/-- After any run of commands the earlier snapshots, the present one and the undone ones are what the
timeline of the run has in front of its cursor, at it and behind it; and both stacks together never hold
more snapshots than the history may. -/
theorem history_eq_timeline (supply : Nat) (text : String) (path : Option Path)
    (indent historyLimit : Nat) (cs : List Command) :
    let first := start supply text path indent historyLimit
    let line := (first.events cs).foldl (Timeline.step historyLimit) (.start first.document)
    (first.run cs).past = (line.snapshots.take line.cursor).reverse ∧
      line.snapshots[line.cursor]? = some (first.run cs).document ∧
      (first.run cs).future = line.snapshots.drop (line.cursor + 1) ∧
      (first.run cs).past.length + (first.run cs).future.length ≤ historyLimit := by
  intro first line
  have hbounded : first.Bounded := Nat.zero_le _
  obtain ⟨htimeline, hrun, hlimit⟩ := follows_run hbounded cs
  have hline : (first.run cs).timeline = line := htimeline
  rw [← hline]
  refine ⟨past_eq_timeline _, getElem?_timeline _, future_eq_timeline _, ?_⟩
  rw [Bounded, hlimit] at hrun
  exact hrun

end Session

end StoryScript
