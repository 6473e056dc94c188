import StoryScript.Session.Edit

/-!
# What edits lead to and what they leave

An edit works on the session in place. What it finds out or reads on its way does not change the session
(`Edit.Looks`), and the commit is its last step, behind every check. So an edit that is refused leaves the
session as it was (`Edit.Guarded`); this is put together along the steps of each edit
(`Edit.Looks.bind_guarded`).

An edit that is not refused leads to the session over lines that are read anew (`Session.reread`). For each
edit it is said which lines these are and what was checked before (`Session.exists_of_insert` and so on).
-/

namespace StoryScript

open Text

namespace Session

variable {s : Session}

/-- The session over a text that was read anew, with the identities that it had. -/
def reread (s : Session) (text : String) (c : Document.Counterpart) : Session :=
  (s.read text c).2.commit (s.read text c).1

/-- The session over lines that were read anew. -/
def commitLines (s : Session) (lines : List String) (c : Document.Counterpart) : Session :=
  s.reread (unlines lines) c

/-- What was read is committed into the session that it was read in. -/
theorem commit_reread (s : Session) (drawn : Nat) (text : String) (c : Document.Counterpart) :
    ({ s with supply := (({ s with supply := s.supply + drawn } : Session).reread text c).supply } :
      Session).commit (({ s with supply := s.supply + drawn } : Session).reread text c).document =
        ({ s with supply := s.supply + drawn } : Session).reread text c := by
  -- whatever the text is read as
  unfold Session.reread Session.read
  generalize Document.read _ text = x
  rfl

theorem findKnot?_of_knot {name : String} {k : Knot} (h : s.knot name = .ok k) :
    s.document.findKnot? name = some k := by
  unfold Session.knot at h
  split at h
  · next hk => rwa [Except.ok.inj h] at hk
  · simp at h

theorem mem_of_knot {name : String} {k : Knot} (h : s.knot name = .ok k) : k ∈ s.document.knots :=
  List.mem_of_find?_eq_some (findKnot?_of_knot h)

end Session

open Session

namespace Edit

variable {α β : Type}

/-! ### Step by step -/

section Step

variable {e : Edit α} {f : α → Edit β} {s t : Session}

/-- An edit goes on with the session that its first step leaves. -/
theorem on_bind_of_ok {a : α} (h : e.on s = (.ok a, t)) : Edit.on (e >>= f) s = (f a).on t := by
  rw [on] at h
  simp only [on, ExceptT.run_bind, StateT.run_bind, h]
  rfl

theorem outcome_bind_of_ok {a : α} (h : e.on s = (.ok a, t)) :
    Edit.outcome (e >>= f) s = (f a).outcome t := by
  rw [outcome, left, on_bind_of_ok h]
  rfl

/-- An edit ends where its first step is refused. -/
theorem on_bind_of_error {error : EditError} (h : e.on s = (.error error, t)) :
    Edit.on (e >>= f) s = (.error error, t) := by
  rw [on] at h
  simp only [on, ExceptT.run_bind, StateT.run_bind, h]
  rfl

theorem outcome_bind_of_error {error : EditError} (h : e.on s = (.error error, t)) :
    Edit.outcome (e >>= f) s = .error error := by
  rw [outcome, on_bind_of_error h]
  rfl

end Step

theorem on_get (s : Session) : (get : Edit Session).on s = (.ok s, s) := rfl

/-- Reading a text finds out what the session over it would be, and draws nothing from its supply. -/
theorem on_reread (drawn : Nat) (text : String) (c : Document.Counterpart) (s : Session) :
    (reread drawn text c).on s =
      (.ok ((({ s with supply := s.supply + drawn } : Session).reread text c).document,
        (({ s with supply := s.supply + drawn } : Session).reread text c).supply), s) := by
  rw [reread, on_bind_of_ok (on_get s), Session.reread]
  generalize ({ s with supply := s.supply + drawn } : Session).read text c = x
  rfl

theorem on_commitText (text : String) (c : Document.Counterpart) (s : Session) :
    (commitText text c).on s = (.ok (), s.reread text c) := by
  rw [commitText, on_bind_of_ok (on_reread 0 text c s)]
  exact congrArg (Except.ok (), ·) (commit_reread s 0 text c)

section Outcome

variable {s : Session}

@[simp] theorem outcome_get_bind (f : Session → Edit α) : (get >>= f).outcome s = (f s).outcome s :=
  outcome_bind_of_ok (on_get s)

/-- Behind a check that is passed an edit goes on with the session as it was. -/
@[simp] theorem outcome_check_bind (x : Except EditError α) (f : α → Edit β) :
    Edit.outcome (liftM x >>= f) s = x >>= fun a => (f a).outcome s := by
  cases x <;> rfl

@[simp] theorem outcome_throw_bind (error : EditError) (f : α → Edit β) :
    Edit.outcome (throw error >>= f) s = .error error :=
  outcome_bind_of_error rfl

@[simp] theorem outcome_reread_bind (drawn : Nat) (text : String) (c : Document.Counterpart)
    (f : Document × Nat → Edit α) : (reread drawn text c >>= f).outcome s =
      (f ((({ s with supply := s.supply + drawn } : Session).reread text c).document,
        (({ s with supply := s.supply + drawn } : Session).reread text c).supply)).outcome s :=
  outcome_bind_of_ok (on_reread drawn text c s)

@[simp] theorem outcome_commit (d : Document) (supply : Nat) :
    (commit d supply).outcome s = .ok (({ s with supply } : Session).commit d) := rfl

@[simp] theorem outcome_commitText (text : String) (c : Document.Counterpart) :
    (commitText text c).outcome s = .ok (s.reread text c) := by
  rw [outcome, left, on_commitText]
  rfl

@[simp] theorem outcome_ite {p : Prop} [Decidable p] (e e' : Edit α) :
    (if p then e else e').outcome s = if p then e.outcome s else e'.outcome s := by
  split <;> rfl

/-- A knot is read back with its new items before it is committed. -/
theorem outcome_writeItems (drawn : Nat) (name : String) (items : List Item) (action : EditAction)
    (exact : Bool) : (writeItems drawn name items action exact).outcome s = s.knot name >>= fun k =>
      let t := ({ s with supply := s.supply + drawn } : Session).reread
        (unlines (spliceKnot s.document.lines k
          (renderSection s.indent k.header k.position items))) (some (name, items))
      if exact && !(t.document.findKnot? name).any (fun k => Item.sameList k.items items) then
        .error (.structureChanged action name)
      else .ok t := by
  simp only [writeItems, outcome_get_bind, outcome_check_bind, outcome_reread_bind, outcome_ite,
    outcome_throw_bind, outcome_commit, commit_reread]

/-- An insertion behind identities that were drawn is one into a session whose supply begins there. -/
theorem outcome_insert (drawn : Nat) (name : String) (item : Item) (caret : Caret) :
    (insert drawn name item caret).outcome s =
      ({ s with supply := s.supply + drawn } : Session).insert name item caret := by
  simp only [Session.insert, insert, outcome_get_bind, outcome_check_bind, outcome_writeItems,
    Nat.add_zero]
  rfl

end Outcome

/-! ### Edits that are refused -/

/-- Whatever comes of it, the session stays as it was. -/
def Looks (e : Edit α) : Prop := ∀ s, e.left s = s

/-- If it is refused, the session stays as it was. -/
def Guarded (e : Edit α) : Prop := ∀ s error, (e.on s).1 = .error error → e.left s = s

theorem Looks.guarded {e : Edit α} (h : e.Looks) : e.Guarded := fun s _ _ => h s

theorem looks_get : (get : Edit Session).Looks := fun _ => rfl

theorem looks_check (x : Except EditError α) : Edit.Looks (liftM x) := fun _ => rfl

theorem looks_reread (drawn : Nat) (text : String) (c : Document.Counterpart) :
    (reread drawn text c).Looks := fun s => congrArg Prod.snd (on_reread drawn text c s)

theorem looks_pure (a : α) : (pure a : Edit α).Looks := fun _ => rfl

theorem looks_throw (error : EditError) : (throw error : Edit α).Looks := fun _ => rfl

theorem looks_throw_bind (error : EditError) (f : α → Edit β) : Edit.Looks (throw error >>= f) :=
  fun _ => rfl

/-- Behind a step that only looks an edit has ended, or it goes on with the session as it was. -/
theorem Looks.on_bind_cases {e : Edit α} (he : e.Looks) (f : α → Edit β) (s : Session) :
    Edit.left (e >>= f) s = s ∨ ∃ a, Edit.on (e >>= f) s = (f a).on s := by
  have hs : (e.on s).2 = s := he s
  rcases hon : e.on s with ⟨x, t⟩
  rw [hon] at hs
  obtain rfl : t = s := hs
  cases x with
  | error error => exact .inl (congrArg Prod.snd (on_bind_of_error hon))
  | ok a => exact .inr ⟨a, on_bind_of_ok hon⟩

theorem Looks.bind {e : Edit α} {f : α → Edit β} (he : e.Looks) (hf : ∀ a, (f a).Looks) :
    Edit.Looks (e >>= f) := by
  intro s
  rcases he.on_bind_cases f s with hleft | ⟨a, hon⟩
  · exact hleft
  · exact (congrArg Prod.snd hon).trans (hf a s)

theorem Looks.bind_guarded {e : Edit α} {f : α → Edit β} (he : e.Looks) (hf : ∀ a, (f a).Guarded) :
    Edit.Guarded (e >>= f) := by
  intro s error herror
  rcases he.on_bind_cases f s with hleft | ⟨a, hon⟩
  · exact hleft
  · rw [hon] at herror
    exact (congrArg Prod.snd hon).trans (hf a s error herror)

theorem Guarded.ite {p : Prop} [Decidable p] {e e' : Edit α} (h : e.Guarded) (h' : e'.Guarded) :
    Edit.Guarded (if p then e else e') := by
  split
  · exact h
  · exact h'

/-- So the session that is left is the one that the edit leads to, or it is the same session. -/
theorem Guarded.left_eq {e : Edit α} (h : e.Guarded) (s : Session) :
    e.left s = (e.outcome s).toOption.getD s := by
  cases hx : (e.on s).1 with
  | error error =>
    rw [h s error hx, outcome, hx]
    rfl
  | ok a =>
    rw [outcome, hx]
    rfl

/-- A commit is not refused. -/
theorem guarded_commit (d : Document) (supply : Nat) : (commit d supply).Guarded := by
  intro s error herror
  cases herror

theorem guarded_commitText (text : String) (c : Document.Counterpart) : (commitText text c).Guarded :=
  (looks_reread 0 text c).bind_guarded fun x => guarded_commit x.1 x.2

theorem guarded_writeItems (drawn : Nat) (name : String) (items : List Item) (action : EditAction)
    (exact : Bool) : (writeItems drawn name items action exact).Guarded :=
  -- the knot is read back before it is committed
  looks_get.bind_guarded fun _ => (looks_check _).bind_guarded fun _ =>
    (looks_reread _ _ _).bind_guarded fun _ =>
      .ite (looks_throw_bind _ _).guarded (guarded_commit _ _)

theorem guarded_insert (drawn : Nat) (name : String) (item : Item) (caret : Caret) :
    (insert drawn name item caret).Guarded :=
  looks_get.bind_guarded fun _ => (looks_check _).bind_guarded fun _ =>
    (looks_check _).bind_guarded fun _ => (looks_check _).bind_guarded fun _ =>
      guarded_writeItems _ _ _ _ _

theorem guarded_replace (name : String) (id : Id) (item : Item) : (replace name id item).Guarded :=
  looks_get.bind_guarded fun _ => (looks_check _).bind_guarded fun _ =>
    (looks_check _).bind_guarded fun _ => (looks_check _).bind_guarded fun _ =>
      guarded_writeItems _ _ _ _ _

theorem guarded_delete (name : String) (id : Id) : (delete name id).Guarded :=
  looks_get.bind_guarded fun _ => (looks_check _).bind_guarded fun _ =>
    (looks_check _).bind_guarded fun _ => guarded_writeItems _ _ _ _ _

theorem guarded_move (name : String) (id : Id) (caret : Caret) : (move name id caret).Guarded :=
  looks_get.bind_guarded fun _ => (looks_check _).bind_guarded fun _ =>
    (looks_check _).bind_guarded fun _ => guarded_writeItems _ _ _ _ _

theorem guarded_addStitch (name stitch : String) (caret : Option Caret) :
    (addStitch name stitch caret).Guarded :=
  looks_get.bind_guarded fun _ => (looks_check _).bind_guarded fun _ => guarded_insert _ _ _ _

theorem guarded_addKnot (name body : String) (region : Option String) (position : Option Position) :
    (addKnot name body region position).Guarded := by
  refine (looks_check _).bind_guarded fun _ => looks_get.bind_guarded fun s =>
    .ite (looks_throw_bind _ _).guarded ((looks_check _).bind_guarded fun _ => ?_)
  cases region with
  | none => exact guarded_commitText _ _
  | some r =>
    simp only
    split
    · exact (looks_throw _).guarded
    · exact guarded_commitText _ _

theorem guarded_deleteKnot (name : String) : (deleteKnot name).Guarded :=
  looks_get.bind_guarded fun _ => (looks_check _).bind_guarded fun _ => guarded_commitText _ _

theorem guarded_renameKnot (old new : String) : (renameKnot old new).Guarded :=
  looks_get.bind_guarded fun _ => (looks_check _).bind_guarded fun _ =>
    (looks_check _).bind_guarded fun _ => .ite (looks_pure _).guarded
      (.ite (looks_throw_bind _ _).guarded (guarded_commitText _ _))

/-- A name that is given again changes nothing. -/
theorem looks_renameKnot_self (name : String) : (renameKnot name name).Looks := by
  refine looks_get.bind fun _ => (looks_check _).bind fun _ => (looks_check _).bind fun _ => ?_
  rw [if_pos rfl]
  exact looks_pure _

theorem guarded_replaceKnot (name body : String) : (replaceKnot name body).Guarded :=
  looks_get.bind_guarded fun _ => (looks_check _).bind_guarded fun _ =>
    (looks_check _).bind_guarded fun _ => guarded_commitText _ _

theorem guarded_setKnotPosition (name : String) (position : Position) :
    (setKnotPosition name position).Guarded :=
  looks_get.bind_guarded fun _ => (looks_check _).bind_guarded fun _ => guarded_commitText _ _

theorem guarded_save (path : Option Path) : (save path).Guarded := by
  refine looks_get.bind_guarded fun s => ?_
  split
  · exact (looks_throw _).guarded
  · intro s error herror
    cases herror

/-! ### Saving -/

theorem on_save_of_none {path : Option Path} {s : Session} (h : (path.orElse fun _ => s.path) = none) :
    (save path).on s = (.error .noPath, s) := by
  rw [save, on_bind_of_ok (on_get s)]
  simp only [h]
  rfl

theorem on_save_of_some {path : Option Path} {s : Session} {target : Path}
    (h : (path.orElse fun _ => s.path) = some target) :
    (save path).on s = (.ok (target, s.document.text),
      { s with path := some target, savedText := s.document.text }) := by
  rw [save, on_bind_of_ok (on_get s)]
  simp only [h]
  rfl

end Edit

namespace Session

variable {s s' : Session}

/-! ### Edits that are carried out -/

theorem exists_of_bind_ok {ε α β : Type} {x : Except ε α} {f : α → Except ε β} {b : β}
    (h : x >>= f = .ok b) : ∃ a, x = .ok a ∧ f a = .ok b := by
  cases x with
  | error e => simp [bind, Except.bind] at h
  | ok a => exact ⟨a, rfl, h⟩

theorem eq_ok_of_toOption {ε α : Type} {x : Except ε α} {a : α} (h : x.toOption = some a) :
    x = .ok a := by
  cases x with
  | error e => simp [Except.toOption] at h
  | ok b => simpa [Except.toOption] using h

theorem exists_of_map_ok {ε α β : Type} {x : Except ε α} {f : α → β} {b : β}
    (h : x.map f = .ok b) : ∃ a, x = .ok a ∧ f a = b := by
  cases x with
  | error e => cases h
  | ok a => exact ⟨a, rfl, Except.ok.inj h⟩

/-- What has become of a session when other items were written into a knot. -/
theorem exists_of_writeItems {name : String} {items : List Item} {action : EditAction} {exact : Bool}
    (h : s.writeItems name items action exact = .ok s') : ∃ k, s.knot name = .ok k ∧
      (s' = s.reread (unlines (spliceKnot s.document.lines k
          (renderSection s.indent k.header k.position items))) (some (name, items))) ∧
      (exact = true → (s'.document.findKnot? name).any (fun k => Item.sameList k.items items) = true) := by
  simp only [Session.writeItems, Edit.outcome_writeItems, Nat.add_zero] at h
  obtain ⟨k, hk, h⟩ := exists_of_bind_ok h
  refine ⟨k, hk, ?_⟩
  split at h
  · cases h
  · next hcheck =>
    obtain rfl := Except.ok.inj h
    refine ⟨rfl, fun hexact => ?_⟩
    rw [hexact, Bool.true_and, Bool.not_eq_true, Bool.not_eq_false'] at hcheck
    exact hcheck

/-- An insertion checks the name of a stitch and writes the tree with the item. -/
theorem exists_of_insert {name : String} {item : Item} {caret : Caret}
    (h : s.insert name item caret = .ok s') : ∃ k items, s.knot name = .ok k ∧
      checkStitch k item none = .ok () ∧ Item.insert k.items item caret = .ok items ∧
      s.writeItems name items (.insert item.kindName) true = .ok s' := by
  simp only [Session.insert, Edit.insert, Edit.outcome_get_bind, Edit.outcome_check_bind] at h
  obtain ⟨k, hk, h⟩ := exists_of_bind_ok h
  obtain ⟨⟨⟩, hcheck, h⟩ := exists_of_bind_ok h
  obtain ⟨items, hitems, h⟩ := exists_of_bind_ok h
  exact ⟨k, items, hk, hcheck, hitems, h⟩

theorem exists_of_replace {name : String} {id : Id} {item : Item}
    (h : s.replace name id item = .ok s') : ∃ k items, s.knot name = .ok k ∧
      checkStitch k item (some id) = .ok () ∧ Item.replace k.items id item = .ok items ∧
      s.writeItems name items (.replace id) true = .ok s' := by
  simp only [Session.replace, Edit.replace, Edit.outcome_get_bind, Edit.outcome_check_bind] at h
  obtain ⟨k, hk, h⟩ := exists_of_bind_ok h
  obtain ⟨⟨⟩, hcheck, h⟩ := exists_of_bind_ok h
  obtain ⟨items, hitems, h⟩ := exists_of_bind_ok h
  exact ⟨k, items, hk, hcheck, hitems, h⟩

theorem exists_of_delete {name : String} {id : Id} (h : s.delete name id = .ok s') :
    ∃ k items, s.knot name = .ok k ∧ Item.delete k.items id = .ok items ∧
      s.writeItems name items (.delete id) false = .ok s' := by
  simp only [Session.delete, Edit.delete, Edit.outcome_get_bind, Edit.outcome_check_bind] at h
  obtain ⟨k, hk, h⟩ := exists_of_bind_ok h
  obtain ⟨items, hitems, h⟩ := exists_of_bind_ok h
  exact ⟨k, items, hk, hitems, h⟩

theorem exists_of_move {name : String} {id : Id} {caret : Caret}
    (h : s.move name id caret = .ok s') : ∃ k items, s.knot name = .ok k ∧
      Item.move k.items id caret = .ok items ∧ s.writeItems name items (.move id) true = .ok s' := by
  simp only [Session.move, Edit.move, Edit.outcome_get_bind, Edit.outcome_check_bind] at h
  obtain ⟨k, hk, h⟩ := exists_of_bind_ok h
  obtain ⟨items, hitems, h⟩ := exists_of_bind_ok h
  exact ⟨k, items, hk, hitems, h⟩

theorem exists_of_addStitch {name stitch : String} {caret : Option Caret}
    (h : s.addStitch name stitch caret = .ok s') : ∃ c,
      ({ s with supply := s.supply + 1 } : Session).insert name
        (.leaf ⟨.fresh s.supply, none⟩ (.stitch stitch)) c = .ok s' := by
  simp only [Session.addStitch, Edit.addStitch, Edit.outcome_get_bind, Edit.outcome_check_bind,
    Edit.outcome_insert] at h
  obtain ⟨k, -, h⟩ := exists_of_bind_ok h
  exact ⟨_, h⟩

/-- The lines in front of a knot that is added and those behind: it is added behind all lines but the
blank ones at the end, or in front of the last line of a region. -/
inductive Gap (d : Document) : Option String → List String → List String → Prop
  | last : Gap d none (d.lines.take (d.lines.length - trailingBlankLines d.lines) ++
      if (d.lines.take (d.lines.length - trailingBlankLines d.lines)).isEmpty then [] else [""]) []
  | region {name : String} {r : Region} (hr : d.regions.find? (·.name = name) = some r) :
      Gap d (some name) (d.lines.take (r.lineEnd - 1)) (d.lines.drop (r.lineEnd - 1))

/-- Where a knot may be added and what lines that makes. -/
theorem exists_of_addKnot {name body : String} {region : Option String} {position : Option Position}
    (h : s.addKnot name body region position = .ok s') :
    checkKnotName name = .ok () ∧ s.document.findKnot? name = none ∧
      checkBody name (name :: s.document.knotNames) (bodyLines body) = .ok () ∧
      ∃ front behind, Gap s.document region front behind ∧
        s' = s.commitLines (front ++ (renderKnotHeader name ::
          (position.map Position.comment).toList ++ bodyLines body) ++ "" :: behind) none := by
  simp only [Session.addKnot, Edit.addKnot, Edit.outcome_check_bind, Edit.outcome_get_bind,
    Edit.outcome_ite, Edit.outcome_throw_bind] at h
  obtain ⟨⟨⟩, hname, h⟩ := exists_of_bind_ok h
  split at h
  · cases h
  · next htaken =>
    obtain ⟨⟨⟩, hbody, h⟩ := exists_of_bind_ok h
    refine ⟨hname, by simpa using htaken, hbody, ?_⟩
    cases region with
    | some r =>
      simp only at h
      split at h
      · cases h
      · next target htarget =>
        rw [Edit.outcome_commitText] at h
        obtain rfl := Except.ok.inj h
        exact ⟨_, _, .region htarget, rfl⟩
    | none =>
      simp only [Edit.outcome_commitText] at h
      obtain rfl := Except.ok.inj h
      exact ⟨_, _, .last, rfl⟩

theorem exists_of_deleteKnot {name : String} (h : s.deleteKnot name = .ok s') :
    ∃ k, s.knot name = .ok k ∧ s' = s.commitLines
      (s.document.lines.take (k.lineStart - 1) ++ s.document.lines.drop k.lineEnd) none := by
  rw [Session.deleteKnot, Edit.deleteKnot, Edit.outcome_get_bind, Edit.outcome_check_bind] at h
  obtain ⟨k, hk, h⟩ := exists_of_bind_ok h
  rw [Edit.outcome_commitText] at h
  exact ⟨k, hk, (Except.ok.inj h).symm⟩

theorem exists_of_renameKnot {old new : String} (h : s.renameKnot old new = .ok (some s')) :
    ∃ k, s.knot old = .ok k ∧ checkKnotName new = .ok () ∧ s.document.findKnot? new = none ∧
      s' = s.commitLines (renameLines s.document.lines k new) (some (new, k.items)) := by
  rw [Session.renameKnot] at h
  obtain ⟨t, ht, heq⟩ := exists_of_map_ok h
  rw [Option.ite_none_left_eq_some] at heq
  obtain ⟨hnew, rfl⟩ : ¬new = old ∧ t = s' := by simpa using heq
  simp only [Edit.renameKnot, Edit.outcome_get_bind, Edit.outcome_check_bind, Edit.outcome_ite,
    Edit.outcome_throw_bind, if_neg hnew] at ht
  obtain ⟨k, hk, h⟩ := exists_of_bind_ok ht
  obtain ⟨⟨⟩, hname, h⟩ := exists_of_bind_ok h
  refine ⟨k, hk, hname, ?_⟩
  split at h
  · cases h
  · next htaken =>
    rw [Edit.outcome_commitText] at h
    exact ⟨by simpa using htaken, (Except.ok.inj h).symm⟩

theorem exists_of_replaceKnot {name body : String} (h : s.replaceKnot name body = .ok s') :
    ∃ k, s.knot name = .ok k ∧ checkBody name s.document.knotNames (rawLines body) = .ok () ∧
      s' = s.commitLines (spliceKnot s.document.lines k
        (k.header :: (k.position.map Position.comment).toList ++ rawLines body)) none := by
  simp only [Session.replaceKnot, Edit.replaceKnot, Edit.outcome_get_bind,
    Edit.outcome_check_bind] at h
  obtain ⟨k, hk, h⟩ := exists_of_bind_ok h
  obtain ⟨⟨⟩, hbody, h⟩ := exists_of_bind_ok h
  rw [Edit.outcome_commitText] at h
  exact ⟨k, hk, hbody, (Except.ok.inj h).symm⟩

theorem exists_of_setKnotPosition {name : String} {position : Position}
    (h : s.setKnotPosition name position = .ok s') : ∃ k, s.knot name = .ok k ∧
      s' = s.commitLines (positionLines s.document.lines k position.comment) none := by
  rw [Session.setKnotPosition, Edit.setKnotPosition, Edit.outcome_get_bind,
    Edit.outcome_check_bind] at h
  obtain ⟨k, hk, h⟩ := exists_of_bind_ok h
  rw [Edit.outcome_commitText] at h
  exact ⟨k, hk, (Except.ok.inj h).symm⟩

theorem setInitialDivert_eq (s : Session) (target : Option String) :
    s.setInitialDivert target = s.commitLines (initialDivertLines s.document target) none := by
  rw [Session.setInitialDivert, Edit.setInitialDivert, Edit.left, Edit.on_bind_of_ok (Edit.on_get s),
    Edit.on_commitText]
  rfl

theorem updateText_eq (s : Session) (text : String) : s.updateText text = s.reread text none := by
  rw [Session.updateText, Edit.updateText, Edit.left, Edit.on_commitText]

theorem eq_of_save {path : Option Path} {file : Path} {text : String}
    (h : s.save path = .ok (s', file, text)) :
    s' = { s with path := some file, savedText := s.document.text } := by
  cases htarget : path.orElse fun _ => s.path with
  | none =>
    rw [Session.save, Edit.on_save_of_none htarget] at h
    cases h
  | some target =>
    rw [Session.save, Edit.left, Edit.on_save_of_some htarget] at h
    obtain ⟨rfl, rfl, -⟩ : _ ∧ _ ∧ _ := by simpa [Except.map] using h
    rfl

end Session

end StoryScript
