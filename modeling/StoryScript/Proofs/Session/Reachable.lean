import StoryScript.Proofs.Session.Outcome
import StoryScript.Proofs.Body.Rewritten
import StoryScript.Proofs.Document.Reread

/-!
# Sessions that can be reached

A session begins over a text and goes on by commands (`Session.ReachableBy`). A command does one of four
things (`Session.outcome_of_perform?`): it reads a text anew and aligns the knots with those of the
present snapshot, one of them perhaps with an edited tree; it goes back or forward in the history; or it
leaves the snapshots alone. So a property of every document that is read, which carrying identities over
keeps, is one of every snapshot that a session ever holds. The first of these is that a snapshot is a
reading of a text, up to identities (`Document.IsReading`).
-/

namespace StoryScript

open Text

/-! ### Documents that were read -/

/-- A document that is a reading of a text, up to identities. -/
def Document.IsReading (d : Document) : Prop :=
  ∃ supply text, d.unlabelled = (Document.read supply text).1.unlabelled

namespace Document

theorem isReading_read (supply : Nat) (text : String) :
    (Document.read supply text).1.IsReading := ⟨supply, text, rfl⟩

theorem IsReading.carry {d : Document} (h : d.IsReading) (old : Document) (c : Counterpart) :
    (d.carry old c).IsReading := by
  obtain ⟨supply, text, hd⟩ := h
  exact ⟨supply, text, (unlabelled_carry d old c).trans hd⟩

theorem IsReading.line {d : Document} (h : d.IsReading) : ∀ l ∈ d.lines, '\n' ∉ l.toList := by
  obtain ⟨supply, text, hd⟩ := h
  have hlines : d.lines = Text.lines text := congrArg Document.lines hd
  rw [hlines]
  exact fun _ hl => newline_not_mem_lines hl

theorem IsReading.lines_ne_nil {d : Document} (h : d.IsReading) : d.lines ≠ [] := by
  obtain ⟨supply, text, hd⟩ := h
  have hlines : d.lines = Text.lines text := congrArg Document.lines hd
  rw [hlines]
  exact Text.lines_ne_nil text

theorem knots_read (supply : Nat) (text : String) :
    (Document.read supply text).1.knots =
      (ScriptState.ofLines supply (Text.lines text)).knots.reverse := rfl

/-- What is read of lines that were joined is what is read of the lines. -/
theorem alike_knots_read (supply : Nat) {ls : List String} (hline : ∀ l ∈ ls, '\n' ∉ l.toList) :
    List.Forall₂ Knot.Alike (read supply (unlines ls)).1.knots
      (ScriptState.ofLines supply ls).knots.reverse := by
  rw [knots_read]
  cases ls with
  | nil => exact .nil
  | cons l ls =>
    exact List.rel_reverse (ScriptState.alike_ofLines supply supply (map_strip_lines_unlines (by simp) hline))

theorem regions_read (supply : Nat) {ls : List String} (hline : ∀ l ∈ ls, '\n' ∉ l.toList) :
    (read supply (unlines ls)).1.regions = (ScriptState.ofLines supply ls).regions.reverse := by
  have hregions := congrArg ScriptState.regions (ScriptState.plain_ofLines_unlines supply supply hline)
  rw [ScriptState.regions_plain, ScriptState.regions_plain] at hregions
  rw [read_eq, hregions]

theorem initialDivert_read (supply : Nat) {ls : List String} (hline : ∀ l ∈ ls, '\n' ∉ l.toList) :
    (read supply (unlines ls)).1.initialDivert = (ScriptState.ofLines supply ls).initialDivert := by
  have hdivert := congrArg ScriptState.initialDivert (ScriptState.plain_ofLines_unlines supply supply hline)
  rw [ScriptState.initialDivert_plain, ScriptState.initialDivert_plain] at hdivert
  rw [read_eq, hdivert]

theorem IsReading.knots {d : Document} (h : d.IsReading) : ∃ supply,
    d.knots.map Knot.unlabelled =
      (ScriptState.ofLines supply d.lines).knots.reverse.map Knot.unlabelled := by
  obtain ⟨supply, text, hd⟩ := h
  have hlines : d.lines = Text.lines text := congrArg Document.lines hd
  refine ⟨supply, ?_⟩
  rw [hlines, ← knots_read]
  exact congrArg Document.knots hd

theorem IsReading.regions {d : Document} (h : d.IsReading) : ∃ supply,
    d.regions = (ScriptState.ofLines supply d.lines).regions.reverse := by
  obtain ⟨supply, text, hd⟩ := h
  have hlines : d.lines = Text.lines text := congrArg Document.lines hd
  refine ⟨supply, ?_⟩
  rw [hlines]
  exact congrArg Document.regions hd

theorem IsReading.initialDivert {d : Document} (h : d.IsReading) :
    ∃ supply, d.initialDivert = (ScriptState.ofLines supply d.lines).initialDivert := by
  obtain ⟨supply, text, hd⟩ := h
  have hlines : d.lines = Text.lines text := congrArg Document.lines hd
  refine ⟨supply, ?_⟩
  rw [hlines]
  exact congrArg Document.initialDivert hd

/-- The knots are those of the lines, whatever identities are drawn for them. -/
theorem IsReading.alike_knots {d : Document} (h : d.IsReading) (supply : Nat) :
    List.Forall₂ Knot.Alike (ScriptState.ofLines supply d.lines).knots.reverse d.knots := by
  obtain ⟨supply', hknots⟩ := h.knots
  exact Knot.forall₂_alike_trans (List.rel_reverse (ScriptState.alike_ofLines supply supply' rfl))
    (Knot.forall₂_alike_symm (Knot.forall₂_alike_of_map_unlabelled hknots))

/-- The tree of a knot was read from lines of the document, up to identities. -/
theorem IsReading.exists_body {d : Document} (h : d.IsReading) {k : Knot} (hk : k ∈ d.knots) :
    ∃ supply body, (∀ l ∈ body, '\n' ∉ l.toList) ∧
      Item.unlabelledIn (Body.read supply body).1.items = Item.unlabelledIn k.items := by
  obtain ⟨supply, hknots⟩ := h.knots
  have hmem : k.unlabelled ∈ (ScriptState.ofLines supply d.lines).knots.reverse.map
      Knot.unlabelled := by
    rw [← hknots]
    exact List.mem_map_of_mem hk
  obtain ⟨l, hl, hlk⟩ := List.mem_map.mp hmem
  obtain ⟨supply', body, hbody, hitems, -⟩ := ScriptState.fromLines_of_mem (List.mem_reverse.mp hl)
  refine ⟨supply', body, fun s hs => h.line s (hbody s hs), ?_⟩
  rw [← hitems]
  exact (Knot.alike_of_unlabelled hlk).items

/-- Every knot of a document that was read equals itself. -/
theorem IsReading.sameList_self {d : Document} (h : d.IsReading) :
    ∀ k ∈ d.knots, Item.sameList k.items k.items = true := by
  intro k hk
  obtain ⟨supply, body, hline, hitems⟩ := h.exists_body hk
  have hself := Body.sameList_read_self supply hline
  rw [Item.sameList_congr hitems] at hself
  have hsymm := Item.sameList_symm hself
  rwa [Item.sameList_congr hitems] at hsymm

/-- The tree of a knot that was read is well shaped, and each of its nodes is one that a line can be
read as. -/
theorem IsReading.readable {d : Document} (h : d.IsReading) {k : Knot} (hk : k ∈ d.knots) :
    Item.WellShapedIn true k.items ∧ ∀ e ∈ Item.outlineIn 0 k.items, e.piece.Readable := by
  obtain ⟨supply, body, hline, hitems⟩ := h.exists_body hk
  have hsame : Item.sameList (Body.read supply body).1.items k.items = true := by
    rw [Item.sameList_congr hitems]
    exact h.sameList_self k hk
  refine ⟨Item.wellShapedIn_of_sameList hsame (Body.wellShapedIn_read supply body), fun e he => ?_⟩
  rw [← Item.outlineIn_unlabelledIn, ← hitems, Item.outlineIn_unlabelledIn] at he
  exact Body.readable_of_mem_outlineIn supply hline he

/-- So is a tree that equals the tree of a knot that was read. -/
theorem IsReading.readable_of_sameList {d : Document} (h : d.IsReading) {k : Knot} (hk : k ∈ d.knots)
    {items : List Item} (hsame : Item.sameList k.items items = true)
    (hunbroken : Item.AllIn Leaf.Unbroken items) :
    Item.WellShapedIn true items ∧ ∀ e ∈ Item.outlineIn 0 items, e.piece.Readable := by
  obtain ⟨hshape, hreadable⟩ := h.readable hk
  exact ⟨Item.wellShapedIn_of_sameList hsame hshape,
    Item.readable_of_sameList hreadable hsame hunbroken⟩

/-- No media extension in a document that was read holds a line break. -/
theorem IsReading.allIn_unbroken {d : Document} (h : d.IsReading) {k : Knot} (hk : k ∈ d.knots) :
    Item.AllIn Leaf.Unbroken k.items := by
  refine Item.allIn_of_outlineIn (k := 0) fun e he l hl => ?_
  have hreadable := (h.readable hk).2 e he
  rw [hl] at hreadable
  exact Leaf.Readable.unbroken hreadable

end Document

/-! ### Commands -/

namespace Session

/-- What a session can be told to do. -/
inductive Command where
  | insert (name : String) (item : Item) (caret : Caret)
  | replace (name : String) (id : Id) (item : Item)
  | delete (name : String) (id : Id)
  | move (name : String) (id : Id) (caret : Caret)
  | addStitch (name stitch : String) (caret : Option Caret)
  | addKnot (name body : String) (region : Option String) (position : Option Position)
  | deleteKnot (name : String)
  | renameKnot (old new : String)
  | replaceKnot (name body : String)
  | setKnotPosition (name : String) (position : Position)
  | setInitialDivert (target : Option String)
  | updateText (text : String)
  | undo
  | redo
  | save (path : Option Path)

namespace Command

/-- The session after a command, unless the command is refused or has nothing to do. -/
def perform? (s : Session) : Command → Option Session
  | insert name item caret => (s.insert name item caret).toOption
  | replace name id item => (s.replace name id item).toOption
  | delete name id => (s.delete name id).toOption
  | move name id caret => (s.move name id caret).toOption
  | addStitch name stitch caret => (s.addStitch name stitch caret).toOption
  | addKnot name body region position => (s.addKnot name body region position).toOption
  | deleteKnot name => (s.deleteKnot name).toOption
  | renameKnot old new => (s.renameKnot old new).toOption.join
  | replaceKnot name body => (s.replaceKnot name body).toOption
  | setKnotPosition name position => (s.setKnotPosition name position).toOption
  | setInitialDivert target => some (s.setInitialDivert target)
  | updateText text => some (s.updateText text)
  | undo => s.undo?
  | redo => s.redo?
  | save path => (s.save path).toOption.map Prod.fst

/-- How many identities a command draws before anything is read. -/
def draws : Command → Nat
  | addStitch .. => 1
  | _ => 0

/-- The tree that a command aligns the first knot of a name with, in place of the tree that the knot of
that name had. -/
inductive Yields (s : Session) : Command → String × List Item → Prop
  | insert {name : String} {item : Item} {caret : Caret} {k : Knot} {items : List Item}
      (hk : s.document.findKnot? name = some k) (h : Item.insert k.items item caret = .ok items) :
      Yields s (.insert name item caret) (name, items)
  | replace {name : String} {id : Id} {item : Item} {k : Knot} {items : List Item}
      (hk : s.document.findKnot? name = some k) (h : Item.replace k.items id item = .ok items) :
      Yields s (.replace name id item) (name, items)
  | delete {name : String} {id : Id} {k : Knot} {items : List Item}
      (hk : s.document.findKnot? name = some k) (h : Item.delete k.items id = .ok items) :
      Yields s (.delete name id) (name, items)
  | move {name : String} {id : Id} {caret : Caret} {k : Knot} {items : List Item}
      (hk : s.document.findKnot? name = some k) (h : Item.move k.items id caret = .ok items) :
      Yields s (.move name id caret) (name, items)
  | addStitch {name stitch : String} {caret : Option Caret} {c : Caret} {k : Knot}
      {items : List Item} (hk : s.document.findKnot? name = some k)
      (h : Item.insert k.items (.leaf ⟨.fresh s.supply, none⟩ (.stitch stitch)) c = .ok items) :
      Yields s (.addStitch name stitch caret) (name, items)
  | renameKnot {old new : String} {k : Knot} (hk : s.document.findKnot? old = some k)
      (hnew : s.document.findKnot? new = none) : Yields s (.renameKnot old new) (new, k.items)

end Command

variable {s s' t u : Session}

/-- A session is led to another by commands, each of which satisfies `P` where it is given. -/
inductive ReachableBy (P : Session → Command → Prop) (s : Session) : Session → Prop
  | refl : ReachableBy P s s
  | step {t u : Session} {c : Command} (h : ReachableBy P s t) (hc : P t c)
      (hu : c.perform? t = some u) : ReachableBy P s u

/-- The sessions that commands lead to from a text. -/
def Reachable (s : Session) : Prop :=
  ∃ supply text path indent historyLimit,
    ReachableBy (fun _ _ => True) (start supply text path indent historyLimit) s

theorem reachable_start (supply : Nat) (text : String) (path : Option Path)
    (indent historyLimit : Nat) : (start supply text path indent historyLimit).Reachable :=
  ⟨supply, text, path, indent, historyLimit, .refl⟩

/-- What each command preserves is preserved by all of them together. -/
theorem ReachableBy.induction {P : Session → Command → Prop} {I : Session → Prop}
    (h : ReachableBy P s t) (hs : I s)
    (hstep : ∀ {t u : Session} {c : Command}, I t → P t c → c.perform? t = some u → I u) : I t := by
  induction h with
  | refl => exact hs
  | step _ hc hu ih => exact hstep ih hc hu

theorem ReachableBy.mono {P Q : Session → Command → Prop} (hPQ : ∀ t c, P t c → Q t c)
    (h : ReachableBy P s t) : ReachableBy Q s t := by
  induction h with
  | refl => exact .refl
  | step _ hc hu ih => exact .step ih (hPQ _ _ hc) hu

/-! ### What commands do -/

/-- What a command makes of a session. -/
inductive Outcome (s : Session) : Command → Session → Prop
  /-- It reads a text anew. -/
  | rereads {c : Command} (text : String) (r : Document.Counterpart) (hr : ∀ x ∈ r, c.Yields s x) :
      Outcome s c (({ s with supply := s.supply + c.draws } : Session).reread text r)
  | undoes {s' : Session} (h : s.undo? = some s') : Outcome s .undo s'
  | redoes {s' : Session} (h : s.redo? = some s') : Outcome s .redo s'
  /-- It leaves all snapshots alone. -/
  | saves (target path : Option Path) (savedText : String) :
      Outcome s (.save target) { s with path, savedText }

/-- A command that draws nothing and reads a text without a tree to align it with. -/
theorem Outcome.ofLines {c : Command} (hc : c.draws = 0) (lines : List String) :
    Outcome s c (s.commitLines lines none) := by
  have h := Outcome.rereads (s := s) (c := c) (unlines lines) none (by simp)
  rw [hc] at h
  exact h

/-- A command that draws nothing and writes items. -/
theorem Outcome.ofItems {c : Command} (hc : c.draws = 0) {name : String} {items : List Item}
    (hitems : c.Yields s (name, items)) {action : EditAction} {exact : Bool}
    (h : s.writeItems name items action exact = .ok s') : Outcome s c s' := by
  obtain ⟨k, -, rfl, -⟩ := exists_of_writeItems h
  have hread := Outcome.rereads (s := s) (c := c) (unlines (spliceKnot s.document.lines k
    (renderSection s.indent k.header k.position items))) (some (name, items)) fun x hx => by
      obtain rfl : (name, items) = x := by simpa using hx
      exact hitems
  rw [hc] at hread
  exact hread

/-- Every command reads a text, goes through the history or leaves the snapshots alone. -/
theorem outcome_of_perform? {c : Command} (h : c.perform? s = some s') : Outcome s c s' := by
  -- an edit of items writes the items of one knot, an edit of knots writes the lines of the script; both
  -- are read again
  cases c with
  | insert name item caret =>
    obtain ⟨k, items, hk, -, hitems, h⟩ := exists_of_insert (eq_ok_of_toOption h)
    exact .ofItems rfl (.insert (findKnot?_of_knot hk) hitems) h
  | replace name id item =>
    obtain ⟨k, items, hk, -, hitems, h⟩ := exists_of_replace (eq_ok_of_toOption h)
    exact .ofItems rfl (.replace (findKnot?_of_knot hk) hitems) h
  | delete name id =>
    obtain ⟨k, items, hk, hitems, h⟩ := exists_of_delete (eq_ok_of_toOption h)
    exact .ofItems rfl (.delete (findKnot?_of_knot hk) hitems) h
  | move name id caret =>
    obtain ⟨k, items, hk, hitems, h⟩ := exists_of_move (eq_ok_of_toOption h)
    exact .ofItems rfl (.move (findKnot?_of_knot hk) hitems) h
  | addStitch name stitch caret =>
    obtain ⟨c, h⟩ := exists_of_addStitch (eq_ok_of_toOption h)
    obtain ⟨k, items, hk, -, hitems, h⟩ := exists_of_insert h
    obtain ⟨-, -, rfl, -⟩ := exists_of_writeItems h
    refine .rereads _ _ fun x hx => ?_
    obtain rfl : (name, items) = x := by simpa using hx
    exact .addStitch (s := s) (findKnot?_of_knot hk) hitems
  | addKnot name body region position =>
    obtain ⟨-, -, -, front, behind, -, rfl⟩ := exists_of_addKnot (eq_ok_of_toOption h)
    exact .ofLines rfl _
  | deleteKnot name =>
    obtain ⟨k, -, rfl⟩ := exists_of_deleteKnot (eq_ok_of_toOption h)
    exact .ofLines rfl _
  | renameKnot old new =>
    obtain ⟨k, hk, -, hnew, rfl⟩ :=
      exists_of_renameKnot (eq_ok_of_toOption (Option.join_eq_some_iff.mp h))
    refine .rereads _ _ fun x hx => ?_
    obtain rfl : (new, k.items) = x := by simpa using hx
    exact .renameKnot (findKnot?_of_knot hk) hnew
  | replaceKnot name body =>
    obtain ⟨k, -, -, rfl⟩ := exists_of_replaceKnot (eq_ok_of_toOption h)
    exact .ofLines rfl _
  | setKnotPosition name position =>
    obtain ⟨k, -, rfl⟩ := exists_of_setKnotPosition (eq_ok_of_toOption h)
    exact .ofLines rfl _
  | setInitialDivert target =>
    obtain rfl := Option.some.inj h
    rw [setInitialDivert_eq]
    exact .ofLines rfl _
  | updateText text =>
    obtain rfl := Option.some.inj h
    rw [updateText_eq]
    exact .rereads (c := .updateText text) text none (by simp)
  | undo => exact .undoes h
  | redo => exact .redoes h
  | save path =>
    obtain ⟨⟨u, file, text⟩, hsave, rfl⟩ := Option.map_eq_some_iff.mp h
    rw [eq_of_save (eq_ok_of_toOption hsave)]
    exact .saves _ _ _

/-! ### What commands make of snapshots -/

/-- Every snapshot of the session has a property. -/
structure Snapshots (P : Document → Prop) (s : Session) : Prop where
  document : P s.document
  past : ∀ d ∈ s.past, P d
  future : ∀ d ∈ s.future, P d

namespace Snapshots

variable {P Q : Document → Prop}

theorem imp (hPQ : ∀ d, P d → Q d) (h : s.Snapshots P) : s.Snapshots Q :=
  ⟨hPQ _ h.document, fun d hd => hPQ d (h.past d hd), fun d hd => hPQ d (h.future d hd)⟩

theorem mem_trimHistory {limit : Nat} {past : List Document} {d : Document}
    (h : d ∈ trimHistory limit past) : d ∈ past := by
  unfold trimHistory at h
  split at h
  · exact List.dropLast_subset _ h
  · exact h

theorem start {supply : Nat} {text : String} (h : P (Document.read supply text).1)
    (path : Option Path) (indent historyLimit : Nat) :
    (Session.start supply text path indent historyLimit).Snapshots P :=
  ⟨h, by simp [Session.start], by simp [Session.start]⟩

/-- The new snapshot is the only one that was not there before. -/
theorem reread (h : s.Snapshots P) {text : String} {c : Document.Counterpart}
    (hnew : P (s.read text c).1) : (s.reread text c).Snapshots P := by
  refine ⟨hnew, fun e he => ?_, by simp [Session.reread, Session.commit]⟩
  rcases List.mem_cons.mp (mem_trimHistory he) with rfl | he
  · exact h.document
  · exact h.past e he

theorem undo (h : s.Snapshots P) (hs : s.undo? = some s') : s'.Snapshots P := by
  unfold undo? at hs
  split at hs
  · simp at hs
  · next d past hpast =>
    obtain rfl := Option.some.inj hs
    have hold := h.past
    rw [hpast, List.forall_mem_cons] at hold
    exact ⟨hold.1, hold.2, List.forall_mem_cons.mpr ⟨h.document, h.future⟩⟩

theorem redo (h : s.Snapshots P) (hs : s.redo? = some s') : s'.Snapshots P := by
  unfold redo? at hs
  split at hs
  · simp at hs
  · next d future hfuture =>
    obtain rfl := Option.some.inj hs
    have hold := h.future
    rw [hfuture, List.forall_mem_cons] at hold
    exact ⟨hold.1, List.forall_mem_cons.mpr ⟨h.document, h.past⟩, hold.2⟩

end Snapshots

/-- Going through the history draws nothing. -/
theorem supply_of_undo? (h : s.undo? = some s') : s'.supply = s.supply := by
  unfold undo? at h
  split at h
  · simp at h
  · rw [← Option.some.inj h]

theorem supply_of_redo? (h : s.redo? = some s') : s'.supply = s.supply := by
  unfold redo? at h
  split at h
  · simp at h
  · rw [← Option.some.inj h]

/-- Every snapshot of the session is a reading of its lines. -/
abbrev Reads (s : Session) : Prop := s.Snapshots Document.IsReading

theorem isReading_read (s : Session) (text : String) (c : Document.Counterpart) :
    (s.read text c).1.IsReading :=
  (Document.isReading_read s.supply text).carry s.document c

/-- A command makes snapshots by reading. -/
theorem Reads.perform (h : s.Reads) {c : Command} (hs : c.perform? s = some s') : s'.Reads := by
  cases outcome_of_perform? hs with
  | rereads text r _ =>
    have hdrawn : ({ s with supply := s.supply + c.draws } : Session).Reads :=
      ⟨h.document, h.past, h.future⟩
    exact hdrawn.reread (isReading_read _ text r)
  | undoes hs => exact h.undo hs
  | redoes hs => exact h.redo hs
  | saves _ path savedText => exact ⟨h.document, h.past, h.future⟩

/-- Every snapshot of a session that can be reached is a reading of its lines. -/
theorem Reachable.reads (h : s.Reachable) : s.Reads := by
  obtain ⟨supply, text, path, indent, historyLimit, h⟩ := h
  exact h.induction (Snapshots.start (Document.isReading_read supply text) path indent historyLimit)
    fun hreads _ hs => hreads.perform hs

end Session

end StoryScript
