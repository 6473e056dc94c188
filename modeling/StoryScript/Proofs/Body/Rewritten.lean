import StoryScript.Document.Rendering
import StoryScript.Proofs.Body.Front
import StoryScript.Proofs.Line.Position
import StoryScript.Proofs.Story.Edit

/-!
# A body in the place of another

The lines of a knot are replaced by the canonical lines of a tree, in front of the blank lines that end
the knot and of whatever comes behind it. If the knot is then read with an equal tree, its lines are
just the new ones and the blank lines: none of them ended the knot, and no comment in them stays open
over the lines behind (`Body.inside_of_sameList`).
-/

namespace StoryScript

open Text

/-! ### Trees that equal what was read -/

/-- The extension of a media item holds no line break. -/
def Leaf.Unbroken (l : Leaf) : Prop :=
  ∀ kind filename extension, l = .media kind filename extension → '\n' ∉ extension.toList

theorem Leaf.Readable.unbroken {l : Leaf} (h : l.Readable) : l.Unbroken := by
  rintro kind filename extension rfl
  exact h.2

/-- A leaf that equals a readable leaf is readable, but for the spelling of an extension. -/
theorem Leaf.Readable.of_same {a b : Leaf} (h : a.Readable) (hsame : a.same b = true)
    (hb : b.Unbroken) : b.Readable := by
  cases a <;> cases b <;> simp_all [Leaf.same, Leaf.Readable]
  case media kind filename extension filename' => exact hb _ _ _ rfl
  case fakeType d e => exact Binary64.equal_self_right hsame
  case wait d e => exact Binary64.equal_self_right hsame

/-- A tree that equals a tree with a readable outline has a readable outline. -/
theorem Item.readable_of_sameList {is js : List Item} {k : Nat}
    (his : ∀ e ∈ Item.outlineIn k is, e.piece.Readable) (hsame : Item.sameList is js = true)
    (hjs : Item.AllIn Leaf.Unbroken js) : ∀ e ∈ Item.outlineIn k js, e.piece.Readable := by
  intro e he
  have hplain := Item.outlineIn_of_sameList (k := k) hsame
  have hmem : e.plain ∈ (Item.outlineIn k is).map Entry.plain := by
    rw [hplain]
    exact List.mem_map_of_mem he
  obtain ⟨e', he', hee⟩ := List.mem_map.mp hmem
  have hpiece : e'.piece.plain = e.piece.plain := congrArg Entry.piece hee
  have hreadable := his e' he'
  generalize e'.piece = p at hpiece hreadable
  have hunbroken : ∀ l, e.piece = .leaf l → l.Unbroken :=
    Item.allIn_outlineIn (fun t => by rintro _ _ _ ⟨⟩) hjs e he
  generalize e.piece = q at hpiece hunbroken
  cases p <;> cases q <;> simp only [Piece.plain, Piece.leaf.injEq, reduceCtorEq] at hpiece
  case leaf.leaf a b =>
    have hab : a.same b = true := Leaf.same_iff.mpr ⟨Leaf.Readable.same hreadable, hpiece⟩
    exact Leaf.Readable.of_same hreadable hab (hunbroken b rfl)
  case choice.choice =>
    rw [← hpiece]
    exact hreadable
  case conditional.conditional => trivial
  case branch.branch =>
    rw [← hpiece]
    exact hreadable

/-! ### The lines of a knot -/

/-- The canonical body of a knot: its position, if it has one, and its tree. -/
def Body.printed (indent : Nat) (position : Option Position) (items : List Item) : List String :=
  (position.map Position.comment).toList ++ Item.renderList indent items

theorem renderSection_eq (indent : Nat) (header : String) (position : Option Position)
    (items : List Item) :
    renderSection indent header position items = header :: Body.printed indent position items := by
  rw [renderSection, Body.printed, List.cons_append]

variable {indent : Nat} {position : Option Position} {items : List Item}

/-- Up to blanks around them, the lines of a tree are the texts of its acts. -/
theorem Body.strip_printed (indent : Nat) (position : Option Position) (items : List Item) :
    (Body.printed indent position items).map strip =
      ((position.map Position.comment).toList ++ (Item.actsIn 1 items).map Act.text).map strip := by
  rw [printed, List.map_append, List.map_append, Item.renderList, Item.strip_renderIn, List.map_map]
  rfl

theorem newline_not_mem_indented {text : String} (indent level : Nat) (h : '\n' ∉ text.toList) :
    '\n' ∉ (indented indent level text).toList := by
  unfold indented
  split
  · simp
  · rw [String.toList_append, String.toList_ofList, List.mem_append, not_or]
    exact ⟨fun hmem => absurd (List.eq_of_mem_replicate hmem) (by decide), h⟩

/-- Every line of a body with a readable outline is one line of the script. -/
theorem Body.newline_not_mem_printed (hreadable : ∀ e ∈ Item.outlineIn 0 items, e.piece.Readable) :
    ∀ s ∈ Body.printed indent position items, '\n' ∉ s.toList := by
  intro s hs
  rcases List.mem_append.mp hs with hs | hs
  · obtain ⟨p, -, rfl⟩ := Option.map_eq_some_iff.mp (Option.mem_toList.mp hs)
    exact Line.newline_not_mem_positionComment p
  · obtain ⟨a, ha, level, rfl⟩ := Item.exists_printedOn hs
    exact newline_not_mem_indented indent level
      (Item.printable_actsIn Nat.zero_lt_one hreadable a ha).line

theorem Body.newline_not_mem_printed_append (indent : Nat) (position : Option Position)
    {blanks : List String}
    (hreadable : ∀ e ∈ Item.outlineIn 0 items, e.piece.Readable) (hblanks : ∀ s ∈ blanks, s = "") :
    ∀ s ∈ Body.printed indent position items ++ blanks, '\n' ∉ s.toList := by
  intro s hs
  rcases List.mem_append.mp hs with hs | hs
  · exact Body.newline_not_mem_printed hreadable s hs
  · rw [hblanks s hs]
    decide

theorem Line.readFrom_blank (inBlock : Bool) {blanks : List String} (h : ∀ s ∈ blanks, s = "") :
    ∀ l ∈ readFrom inBlock blanks, l.form.endsKnot = false := by
  induction blanks generalizing inBlock with
  | nil => simp [readFrom]
  | cons s blanks ih =>
    rw [List.forall_mem_cons] at h
    obtain ⟨rfl, h⟩ := h
    rw [readFrom_cons, List.forall_mem_cons]
    exact ⟨by cases inBlock <;> rfl, ih _ h⟩

theorem Line.opensBlock_blank {blanks : List String} (h : ∀ s ∈ blanks, s = "") :
    opensBlock false blanks = false := by
  induction blanks with
  | nil => rfl
  | cons s blanks ih =>
    rw [List.forall_mem_cons] at h
    obtain ⟨rfl, h⟩ := h
    rw [opensBlock_false_cons]
    exact ih h

theorem Line.behind_append {blanks behind : List String} (h : ∀ s ∈ blanks, s = "")
    (hends : ∀ p ∈ behind.head?, (ofText p).form.endsKnot = true) : Behind (blanks ++ behind) := by
  induction blanks with
  | nil =>
    cases behind with
    | nil => trivial
    | cons p ps => exact Or.inr (hends p rfl)
  | cons s blanks ih =>
    rw [List.forall_mem_cons] at h
    obtain ⟨rfl, h⟩ := h
    exact Or.inl ⟨rfl, ih h⟩

/-- Lines that form the body of one knot wherever they stand: none of them ends the knot, and no comment
stays open behind them. -/
def Line.OneBody (ls : List String) : Prop :=
  (∀ l ∈ ofTexts ls, l.form.endsKnot = false) ∧ opensBlock false ls = false

instance (ls : List String) : Decidable (Line.OneBody ls) := inferInstanceAs (Decidable (_ ∧ _))

/-- If the lines of a tree form one body, they do so with the position in front and blank lines
behind. -/
theorem Body.oneBody_printed_append (position : Option Position) {blanks : List String}
    (hblanks : ∀ s ∈ blanks, s = "") (h : Line.OneBody (Item.renderList indent items)) :
    Line.OneBody (Body.printed indent position items ++ blanks) := by
  obtain ⟨hinside, hclosed⟩ := h
  have hprinted : (∀ l ∈ Line.readFrom false (Body.printed indent position items),
      l.form.endsKnot = false) ∧ Line.opensBlock false (Body.printed indent position items) = false := by
    cases position with
    | none => exact ⟨hinside, hclosed⟩
    | some p =>
      have hends : (Line.ofText p.comment).form.endsKnot = false := by
        rcases Line.form_positionComment p with ⟨q, hq⟩ | hform
        · rw [hq]
          rfl
        · rw [hform]
          rfl
      have hopens : decide ((Line.ofText p.comment).form = .blockComment true) = false := by
        rcases Line.form_positionComment p with ⟨q, hq⟩ | hform
        · simp [hq]
        · simp [hform]
      refine ⟨?_, ?_⟩
      · change ∀ l ∈ Line.readFrom false (p.comment :: Item.renderList indent items), _
        rw [Line.readFrom_false_cons, hopens, List.forall_mem_cons]
        exact ⟨hends, hinside⟩
      · change Line.opensBlock false (p.comment :: Item.renderList indent items) = false
        rw [Line.opensBlock_false_cons, hopens, hclosed]
  constructor
  · rw [Line.ofTexts, Line.readFrom_append, List.forall_mem_append]
    exact ⟨hprinted.1, Line.readFrom_blank _ hblanks⟩
  · rw [Line.opensBlock_append, hprinted.2, Line.opensBlock_blank hblanks]

section

variable {supply : Nat} {blanks behind body after : List String}

/-- The printed lines of a knot are read as the texts of its acts. -/
theorem Body.readFrom_printed_append (indent : Nat) (position : Option Position) (items : List Item)
    (behind : List String) : Line.readFrom false (Body.printed indent position items ++ behind) =
      Line.readFrom false
        ((position.map Position.comment).toList ++ ((Item.actsIn 1 items).map Act.text ++ behind)) := by
  refine Line.readFrom_congr ?_ false
  rw [List.map_append, Body.strip_printed]
  simp only [List.map_append, List.append_assoc]

variable (hshape : Item.WellShapedIn true items) (hreadable : ∀ e ∈ Item.outlineIn 0 items, e.piece.Readable)
  (hblanks : ∀ s ∈ blanks, s = "") (hbehind : ∀ s ∈ behind, '\n' ∉ s.toList)
  (hends : ∀ p ∈ behind.head?, (Line.ofText p).form.endsKnot = true)
  (hsplit : Body.printed indent position items ++ blanks ++ behind = body ++ after)
  (hsection : Line.section_ (Line.readFrom false (body ++ after)) = Line.readFrom false body)
  (hsame : Item.sameList (Body.read supply body).1.items items = true)

include hshape hsplit hsection hsame in
/-- A body that is read with the tree that was written lists what the acts of that tree list. -/
theorem Body.run_of_sameList :
    (Act.run (Act.ofLines [] (Body.content (Line.section_ (Line.readFrom false
      ((position.map Position.comment).toList ++
        ((Item.actsIn 1 items).map Act.text ++ (blanks ++ behind))))))) []).map Entry.plain =
      (Act.run (Item.actsIn 1 items) []).map Entry.plain := by
  have houtline := Item.outlineIn_of_sameList (k := 0) hsame
  rw [Body.outlineIn_read, Line.ofTexts, ← hsection, ← hsplit, List.append_assoc,
    Body.readFrom_printed_append] at houtline
  rw [(Item.run_actsIn hshape).1]
  exact houtline

include hblanks hbehind in
theorem Line.newline_not_mem_blanks_append : ∀ s ∈ blanks ++ behind, '\n' ∉ s.toList := by
  intro s hs
  rcases List.mem_append.mp hs with hs | hs
  · rw [hblanks s hs]
    decide
  · exact hbehind s hs

include hshape hreadable hblanks hbehind hends hsplit hsection hsame

/-- A knot that is read with the tree that was written consists of the lines that were written. -/
theorem Body.inside_of_sameList :
    (∀ l ∈ Line.readFrom false (Body.printed indent position items ++ blanks),
        l.form.endsKnot = false) ∧
      (behind ≠ [] → Line.opensBlock false (Body.printed indent position items ++ blanks) = false) := by
  have hprintable := Item.printable_actsIn Nat.zero_lt_one hreadable
  have hstrip := Body.strip_printed indent position items
  -- the lines of the acts are the printed ones but for blanks, and each is forced to be read as its act
  have hforced : (∀ l ∈ Line.readFrom false ((position.map Position.comment).toList ++
        (Item.actsIn 1 items).map Act.text), l.form.endsKnot = false) ∧
      (Line.opensBlock false ((position.map Position.comment).toList ++
        (Item.actsIn 1 items).map Act.text) = true → blanks ++ behind = []) := by
    refine Act.forced_body hprintable (Item.run_actsIn hshape).2 (Line.behind_append hblanks hends)
      (Line.newline_not_mem_blanks_append hblanks hbehind) ?_
      (Body.run_of_sameList hshape hsplit hsection hsame)
    intro s hs
    obtain ⟨p, -, rfl⟩ := Option.map_eq_some_iff.mp hs
    exact Line.form_positionComment p
  obtain ⟨hinside, hopen⟩ := hforced
  have hinside' : ∀ l ∈ Line.readFrom false (Body.printed indent position items),
      l.form.endsKnot = false := by
    rw [Line.readFrom_congr hstrip false]
    exact hinside
  have hopen' : Line.opensBlock false (Body.printed indent position items) = true →
      blanks ++ behind = [] := by
    rw [Line.opensBlock_congr hstrip false]
    exact hopen
  constructor
  · rw [Line.readFrom_append, List.forall_mem_append]
    exact ⟨hinside', Line.readFrom_blank _ hblanks⟩
  · intro hne
    cases hblock : Line.opensBlock false (Body.printed indent position items) with
    | true => exact absurd (List.append_eq_nil_iff.mp (hopen' hblock)).2 hne
    | false => rw [Line.opensBlock_append, hblock, Line.opensBlock_blank hblanks]

/-- Where no position was written none is read: the lines that it would take are missing from the tree. -/
theorem Body.leadingPosition?_of_sameList (hnone : position = none) :
    leadingPosition? (Line.readFrom false body) = none := by
  subst hnone
  have hrun := Body.run_of_sameList hshape hsplit hsection hsame
  have hlines := Body.readFrom_printed_append indent none items (blanks ++ behind)
  rw [← List.append_assoc, hsplit] at hlines
  rw [← hlines, hsection] at hrun
  rw [Option.map_none, Option.toList_none, List.nil_append] at hlines
  cases hposition : leadingPosition? (Line.readFrom false body) with
  | none => rfl
  | some pn =>
    obtain ⟨p, n⟩ := pn
    rw [Body.content, Body.skipped, hposition] at hrun
    rw [← hsection, hlines] at hposition hrun
    exact absurd hrun (Act.not_skipped (Item.printable_actsIn Nat.zero_lt_one hreadable)
      (Line.behind_append hblanks hends) (Line.newline_not_mem_blanks_append hblanks hbehind) hposition [] (by simp))

end

end StoryScript
