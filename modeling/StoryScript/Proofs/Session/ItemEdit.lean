import StoryScript.Proofs.Session.Placement

/-!
# Edits of the content of a knot

An insertion, a replacement or a move writes a knot anew and is refused unless the knot is read back
with the tree that was meant. That comparison looks at one knot, but it protects all of them: lines that
are read back as the tree they were printed for end no knot and leave no comment open
(`Body.inside_of_sameList`), so what stands behind them is read as before. Hence such an edit does
exactly what it says (`Session.rewritten_of_itemEdit`): the knot gets the edited tree with all its
identities, and every other knot is what it was.

A deletion is written without that comparison. It leaves the other knots alone if the lines of the
remaining tree form one body (`Session.othersKept_of_delete`), and that cannot be left out: to delete the
line that closes a comment is to let the comment run on.
-/

namespace StoryScript

open Text

namespace Document

/-- All knots but one are the same in both documents, in the same places; that one is the first of its
name and is `k` in the one document and `k'` in the other. -/
def OthersKept (d d' : Document) (k k' : Knot) : Prop :=
  d.findKnot? k.name = some k ∧ d'.findKnot? k.name = some k' ∧
    ∃ ks ls ks' ls', d.knots = ks ++ k :: ls ∧ d'.knots = ks' ++ k' :: ls' ∧
      List.Forall₂ Knot.Kept ks' ks ∧ List.Forall₂ Knot.Kept ls' ls

theorem OthersKept.length_knots {d d' : Document} {k k' : Knot} (h : d.OthersKept d' k k') :
    d'.knots.length = d.knots.length := by
  obtain ⟨-, -, ks, ls, ks', ls', hd, hd', hks, hls⟩ := h
  rw [hd, hd', List.length_append, List.length_append, List.length_cons, List.length_cons,
    hks.length_eq, hls.length_eq]

/-- The first knot of a name holds just the given items, and every other knot is what it was. -/
def Rewritten (d d' : Document) (name : String) (items : List Item) : Prop :=
  ∃ k k', k.name = name ∧ d.OthersKept d' k k' ∧
    Item.sameList k'.items items = true ∧ Item.idsIn k'.items = Item.idsIn items

variable {d : Document} {k : Knot} {front : List String} {header : String} {body behind : List String}
  {ks ls : List Knot}

/-- The lines in front of a knot. -/
theorem Placed.take_front (hp : d.Placed k front header body behind ks ls) :
    d.lines.take (k.lineStart - 1) = front := by
  rw [hp.stands.lineStart, hp.lines, Nat.add_sub_cancel, List.take_left]

/-- The lines behind a knot. -/
theorem Placed.drop_behind (hp : d.Placed k front header body behind ks ls) :
    d.lines.drop k.lineEnd = behind := by
  have hlength : k.lineEnd = (front ++ header :: body).length := by
    rw [hp.stands.lineEnd, List.length_append, List.length_cons]
    omega
  rw [hlength, hp.lines, ← List.cons_append, ← List.append_assoc, List.drop_left]

/-- Writing a section over a knot leaves the lines around it and the blank lines that end it. -/
theorem Placed.exists_spliceKnot (hp : d.Placed k front header body behind ks ls) :
    ∃ blanks : List String, (∀ s ∈ blanks, s = "") ∧ ∀ section_,
      Session.spliceKnot d.lines k (k.header :: section_) =
        front ++ header :: (section_ ++ blanks ++ behind) := by
  refine ⟨List.replicate (Session.trailingBlankLines
    ((d.lines.take k.lineEnd).drop (k.lineStart - 1))) "", fun s hs => List.eq_of_mem_replicate hs,
    fun section_ => ?_⟩
  rw [Session.spliceKnot, hp.take_front, hp.drop_behind, hp.stands.header]
  simp only [List.append_assoc, List.cons_append]

end Document

namespace Session

variable {s s' : Session} {name : String} {k : Knot} {items : List Item}

/-- The knots are those of the lines, up to identities, whatever these are carried over from. -/
theorem alike_knots_read (s : Session) {lines : List String} (hline : ∀ l ∈ lines, '\n' ∉ l.toList)
    (c : Document.Counterpart) :
    List.Forall₂ Knot.Alike (s.read (unlines lines) c).1.knots
      (ScriptState.ofLines s.supply lines).knots.reverse :=
  Knot.forall₂_alike_trans (Knot.forall₂_alike_of_map_unlabelled (Document.map_unlabelled_carry _ _ _))
    (Document.alike_knots_read s.supply hline)

theorem exists_kept_of_mem {ks ls : List Knot} (h : List.Forall₂ Knot.Kept ks ls) {x : Knot}
    (hx : x ∈ ks) : ∃ y ∈ ls, x.Kept y := by
  induction h with
  | nil => simp at hx
  | @cons k l ks ls hkl _ ih =>
    rcases List.mem_cons.mp hx with rfl | hx
    · exact ⟨l, List.mem_cons_self, hkl⟩
    · obtain ⟨y, hy, hxy⟩ := ih hx
      exact ⟨y, List.mem_cons_of_mem _ hy, hxy⟩

variable {front : List String} {header : String} {body behind blanks : List String} {ks ls : List Knot}

/-- If the lines that are written form one body, every other knot carries on as it was. -/
theorem exists_othersKept (hreads : s.Reads)
    (hp : s.document.Placed k front header body behind ks ls) {written : List String}
    (hline : ∀ l ∈ written, '\n' ∉ l.toList)
    (haround : Line.AroundKnot k.name front header written behind) {items : List Item}
    {new : Document}
    (hnew : (s.read (unlines (front ++ header :: (written ++ behind))) (some (k.name, items))).1 = new) :
    ∃ k' : Knot, s.document.OthersKept new k (k'.carry items) := by
  have hlines := hp.line hreads.document hline
  obtain ⟨ks', k', ls', hknots, hk', hks, hls⟩ := hp.exists_carry items
    hreads.document haround (Document.alike_knots_read s.supply hlines)
  have hknots' : new.knots = ks' ++ k'.carry items :: ls' := hnew ▸ hknots
  have hfirst : ∀ x ∈ ks', x.name ≠ (k'.carry items).name := by
    intro x hx hxk
    obtain ⟨y, hy, hxy⟩ := exists_kept_of_mem hks hx
    exact hp.first y hy (hxy.name.symm.trans (hxk.trans hk'.name))
  have hfind : new.findKnot? k.name = some (k'.carry items) :=
    hk'.name ▸ Document.findKnot?_eq_some hknots' hfirst
  exact ⟨k', Document.findKnot?_eq_some hp.knots hp.first, hfind, ks, ls, ks', ls', hp.knots, hknots', hks, hls⟩

/-- Lines that are read back as the tree they were printed for form one body. -/
theorem aroundKnot_of_sameList (hreads : s.Reads)
    (hp : s.document.Placed k front header body behind ks ls) (hblanks : ∀ l ∈ blanks, l = "")
    (hunbroken : Item.AllIn Leaf.Unbroken items) {c : Document.Counterpart} {new : Document}
    (hnew : (s.read (unlines (front ++ header ::
      (Body.printed s.indent k.position items ++ blanks ++ behind))) c).1 = new)
    {k' : Knot} (hk' : new.findKnot? k.name = some k') (hsame : Item.sameList k'.items items = true) :
    Line.AroundKnot k.name front header (Body.printed s.indent k.position items ++ blanks) behind ∧
      ∀ l ∈ Body.printed s.indent k.position items ++ blanks, '\n' ∉ l.toList := by
  have hreading : new.IsReading := hnew ▸ isReading_read s _ c
  obtain ⟨hshape, hreadable⟩ := hreading.readable_of_sameList (List.mem_of_find?_eq_some hk') hsame
    hunbroken
  have hline := Body.newline_not_mem_printed_append s.indent k.position hreadable hblanks
  have hlines := hp.line hreads.document hline
  have hbehind : ∀ l ∈ behind, '\n' ∉ l.toList := fun l hl => hlines l (by simp [hl])
  have halike := s.alike_knots_read hlines c
  rw [hnew] at halike
  -- the new lines hold a first knot of that name, and it is the one that was found
  obtain ⟨body', behind', k₁, hsplit, haround, hk₁, hfound⟩ := hp.exists_body _ halike
  obtain rfl : k₁ = k' := Option.some.inj (hk₁.symm.trans hk')
  have hitems : Item.sameList (Body.read 0 body').1.items items = true := by
    have hread : Item.unlabelledIn k₁.items = Item.unlabelledIn (Body.read 0 body').1.items := hfound.items
    rwa [← Item.sameList_congr hread]
  have hsection := haround.section_eq
  obtain ⟨hinside, hclosed⟩ := Body.inside_of_sameList hshape hreadable hblanks hbehind hp.around.ends
    hsplit hsection hitems
  exact ⟨⟨hp.around.clear, hp.around.opens, hinside, hclosed, hp.around.ends⟩, hline⟩

/-! ### The edits -/

/-- Items that were written and read back stand in the knot, and nothing else has changed. -/
theorem rewritten_of_writeItems (hreads : s.Reads) (hk : s.knot name = .ok k) {action : EditAction}
    (h : s.writeItems name items action true = .ok s') (hunbroken : Item.AllIn Leaf.Unbroken items) :
    s.document.Rewritten s'.document name items := by
  obtain ⟨k₀, hk₀, hs', hcheck⟩ := exists_of_writeItems h
  obtain rfl : k₀ = k := Except.ok.inj (hk₀.symm.trans hk)
  have hfind := findKnot?_of_knot hk
  obtain rfl := Document.name_of_findKnot? hfind
  obtain ⟨front, header, body, behind, ks, ls, hp⟩ := hreads.document.exists_placed hfind
  obtain ⟨blanks, hblanks, hsplice⟩ := hp.exists_spliceKnot
  rw [renderSection_eq, hsplice] at hs'
  have hdocument : s'.document = (s.read (unlines (front ++ header ::
      (Body.printed s.indent k₀.position items ++ blanks ++ behind))) (some (k₀.name, items))).1 := by
    rw [hs']
    rfl
  obtain ⟨k', hk', hsame⟩ := (Option.any_eq_true _ _).mp (hcheck rfl)
  obtain ⟨haround, hline⟩ := aroundKnot_of_sameList hreads hp hblanks hunbroken hdocument.symm hk' hsame
  obtain ⟨u, hkept⟩ := exists_othersKept hreads hp hline haround hdocument.symm
  -- the knot that was read carries the identities of the tree that was meant
  obtain rfl : u.carry items = k' := Option.some.inj (hkept.2.1.symm.trans hk')
  have hread : Item.sameList u.items items = true := by
    rwa [← Item.sameList_congr (Item.unlabelledIn_carry u.items items)]
  exact ⟨k₀, u.carry items, rfl, hkept, hsame, Item.idsIn_carry hread⟩

/-- An edit of the content of a knot that must be read back as it was meant. -/
inductive ItemEdit where
  | insert (item : Item) (caret : Caret)
  | replace (id : Id) (item : Item)
  | move (id : Id) (caret : Caret)

namespace ItemEdit

/-- The tree that the edit makes of a tree. -/
def tree (items : List Item) : ItemEdit → Except EditError (List Item)
  | insert item caret => Item.insert items item caret
  | replace id item => Item.replace items id item
  | move id caret => Item.move items id caret

/-- The edit in a knot of a session. -/
def perform (s : Session) (name : String) : ItemEdit → Except EditError Session
  | insert item caret => s.insert name item caret
  | replace id item => s.replace name id item
  | move id caret => s.move name id caret

/-- The item that the edit brings in. -/
def given? : ItemEdit → Option Item
  | insert item _ => some item
  | replace _ item => some item
  | move _ _ => none

variable {e : ItemEdit}

theorem allIn_tree {P : Leaf → Prop} {result : List Item} (h : e.tree items = .ok result)
    (hgiven : ∀ i ∈ e.given?, i.All P) (hitems : Item.AllIn P items) : Item.AllIn P result := by
  cases e with
  | insert item caret => exact Item.allIn_insert h (hgiven item rfl) hitems
  | replace id item => exact Item.allIn_replace h (hgiven item rfl) hitems
  | move id caret => exact Item.allIn_move h hitems

/-- An edit writes the tree that it makes of the old one. -/
theorem exists_of_perform (h : e.perform s name = .ok s') : ∃ k items action,
    s.knot name = .ok k ∧ e.tree k.items = .ok items ∧ s.writeItems name items action true = .ok s' := by
  cases e with
  | insert item caret =>
    obtain ⟨k, items, hk, -, hitems, h⟩ := exists_of_insert h
    exact ⟨k, items, _, hk, hitems, h⟩
  | replace id item =>
    obtain ⟨k, items, hk, -, hitems, h⟩ := exists_of_replace h
    exact ⟨k, items, _, hk, hitems, h⟩
  | move id caret =>
    obtain ⟨k, items, hk, hitems, h⟩ := exists_of_move h
    exact ⟨k, items, _, hk, hitems, h⟩

end ItemEdit

/-- An insertion, a replacement or a move that is not refused puts just the edited tree into the knot,
with all its identities, and leaves every other knot as it was. The extension of a media item is not
compared, so it is assumed that none is brought in with a line break. -/
theorem rewritten_of_itemEdit (hs : s.Reachable) {e : ItemEdit} (h : e.perform s name = .ok s')
    (hgiven : ∀ i ∈ e.given?, i.All Leaf.Unbroken) :
    ∃ k items, s.document.findKnot? name = some k ∧ e.tree k.items = .ok items ∧
      s.document.Rewritten s'.document name items := by
  obtain ⟨k, items, action, hk, hitems, hwrite⟩ := ItemEdit.exists_of_perform h
  have hfind := findKnot?_of_knot hk
  have hmem : k ∈ s.document.knots := List.mem_of_find?_eq_some hfind
  have hold : Item.AllIn Leaf.Unbroken k.items :=
    hs.reads.document.allIn_unbroken hmem
  exact ⟨k, items, hfind, hitems,
    rewritten_of_writeItems hs.reads hk hwrite (ItemEdit.allIn_tree hitems hgiven hold)⟩

/-- A text comes behind the greeting of one knot, and the other knot stays. -/
theorem rewritten_of_itemEdit_greeting :
    let s := start 0 "=== a ===\nhello\n=== b ===\nbye\n" none 4 200
    let e := ItemEdit.insert (.leaf ⟨.named "aside", none⟩ (.text "there")) ⟨none, 0⟩
    ∃ s', e.perform s "a" = .ok s' ∧ ∃ k items, s.document.findKnot? "a" = some k ∧
      e.tree k.items = .ok items ∧ s.document.Rewritten s'.document "a" items := by
  intro s e
  have hok : (e.perform s "a").isOk = true := by decide +kernel
  cases h : e.perform s "a" with
  | error cause => simp [h, Except.isOk, Except.toBool] at hok
  | ok s' =>
    refine ⟨s', rfl, rewritten_of_itemEdit (reachable_start ..) h ?_⟩
    intro i hi
    obtain rfl : Item.leaf ⟨.named "aside", none⟩ (.text "there") = i := Option.some.inj hi
    rintro _ _ _ ⟨⟩

/-! ### Deletions -/

/-- A deletion changes no other knot, provided that the lines of what is left still form one body: none
of them is a header or a region marker, and no comment stays open behind them. Deletions are not
compared with what is read back, so this is not checked. -/
theorem othersKept_of_delete (hs : s.Reachable) {id : Id} (h : s.delete name id = .ok s')
    (hk : s.document.findKnot? name = some k) (hitems : Item.delete k.items id = .ok items)
    (hbody : Line.OneBody (Item.renderList s.indent items)) :
    ∃ k', s.document.OthersKept s'.document k k' := by
  have hreads := hs.reads
  obtain ⟨k₀, items₀, hk₀, hitems₀, h⟩ := exists_of_delete h
  obtain rfl : k₀ = k := Option.some.inj ((findKnot?_of_knot hk₀).symm.trans hk)
  obtain rfl : items₀ = items := Except.ok.inj (hitems₀.symm.trans hitems)
  obtain ⟨k₁, hk₁, hs', -⟩ := exists_of_writeItems h
  obtain rfl : k₁ = k₀ := Except.ok.inj (hk₁.symm.trans hk₀)
  obtain rfl := Document.name_of_findKnot? hk
  obtain ⟨front, header, body, behind, ks, ls, hp⟩ := hreads.document.exists_placed hk
  obtain ⟨blanks, hblanks, hsplice⟩ := hp.exists_spliceKnot
  rw [renderSection_eq, hsplice] at hs'
  -- every node that is left was read, so each is written on a line of its own
  obtain ⟨-, hreadable⟩ := hreads.document.readable (List.mem_of_find?_eq_some hk)
  have hline : ∀ l ∈ Body.printed s.indent k₁.position items₀ ++ blanks, '\n' ∉ l.toList := by
    refine Body.newline_not_mem_printed_append _ _ (fun e he => hreadable e ?_) hblanks
    exact (Item.sublist_outlineIn_delete hitems 0).subset he
  have haround : Line.AroundKnot k₁.name front header
      (Body.printed s.indent k₁.position items₀ ++ blanks) behind := by
    obtain ⟨hinside, hclosed⟩ := Body.oneBody_printed_append k₁.position hblanks hbody
    exact ⟨hp.around.clear, hp.around.opens, hinside, fun _ => hclosed, hp.around.ends⟩
  have hdocument : s'.document = (s.read (unlines (front ++ header ::
      (Body.printed s.indent k₁.position items₀ ++ blanks ++ behind))) (some (k₁.name, items₀))).1 := by
    rw [hs']
    rfl
  obtain ⟨u, hkept⟩ := exists_othersKept hreads hp hline haround hdocument.symm
  exact ⟨u.carry items₀, hkept⟩

/-- Of two texts in a knot one is deleted, and the other knot stays. -/
theorem othersKept_of_delete_greeting :
    let s := start 0 "=== a ===\nhello\nthere\n=== b ===\nbye\n" none 4 200
    ∃ s' k k', s.delete "a" (.fresh 0) = .ok s' ∧ s.document.OthersKept s'.document k k' := by
  intro s
  have hcheck : (s.delete "a" (.fresh 0)).isOk = true ∧ (s.document.findKnot? "a").any (fun k =>
      (Item.delete k.items (.fresh 0)).toOption.any fun items =>
        Line.OneBody (Item.renderList s.indent items)) = true := by decide +kernel
  obtain ⟨hok, hbody⟩ := hcheck
  obtain ⟨k, hk, hbody⟩ := (Option.any_eq_true _ _).mp hbody
  obtain ⟨items, hitems, hbody⟩ := (Option.any_eq_true _ _).mp hbody
  cases h : s.delete "a" (.fresh 0) with
  | error cause => simp [h, Except.isOk, Except.toBool] at hok
  | ok s' =>
    cases hresult : Item.delete k.items (.fresh 0) with
    | error cause => simp [hresult, Except.toOption] at hitems
    | ok result =>
      obtain rfl : result = items := by simpa [hresult, Except.toOption] using hitems
      obtain ⟨k', hkept⟩ := othersKept_of_delete (reachable_start ..) h hk hresult
        (of_decide_eq_true hbody)
      exact ⟨s', k, k', rfl, hkept⟩

/-- Without that, a deletion may let a comment run on over the knots behind: here the line that closes
the comment is deleted, and the other knot is gone. -/
theorem not_othersKept_of_delete_comment :
    let s := start 0 "=== a ===\n/*\nnote\n*/\nhi\n=== b ===\nbye\n" none 4 200
    ∃ s', s.Reachable ∧ s.delete "a" (.fresh 2) = .ok s' ∧
      ∀ k k', ¬ s.document.OthersKept s'.document k k' := by
  intro s
  have hcheck : s.document.knots.length = 2 ∧
      (s.delete "a" (.fresh 2)).toOption.any (fun s' => s'.document.knots.length = 1) = true := by
    decide +kernel
  obtain ⟨hlength, hdeleted⟩ := hcheck
  cases h : s.delete "a" (.fresh 2) with
  | error cause => simp [h, Except.toOption] at hdeleted
  | ok s' =>
    refine ⟨s', reachable_start .., rfl, fun k k' hkept => ?_⟩
    have hlength' : s'.document.knots.length = 1 := by simpa [h, Except.toOption] using hdeleted
    have hsame := hkept.length_knots
    omega

end Session

end StoryScript
