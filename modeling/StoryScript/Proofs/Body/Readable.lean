import StoryScript.Proofs.Body.Printing
import StoryScript.Proofs.Body.Reading
import StoryScript.Proofs.Line.Readable
import StoryScript.Proofs.Number.Text

/-!
# What bodies that are read are made of

No node of a tree that was read holds a line feed, and its names, targets, choices and guards are
such as can stand on a line (`Piece.Readable`). This is a property of the outline alone, so it passes
to every tree with that outline, and from there to the acts that the tree is printed for
(`Item.readable_actsIn`): whatever is compared with what was read can be printed line by line.

* `Act.readable_ofLines` — lines stand for readable acts.
* `Act.readable_of_mem_run` — readable acts list readable entries.
* `Act.Readable.line` — a readable act is printed on one line.
-/

namespace StoryScript

open Text

/-! ### Readable nodes -/

/-- What a leaf that was read is like. -/
def Leaf.Readable : Leaf → Prop
  | text content => '\n' ∉ content.toList
  | media _ filename extension => '\n' ∉ filename.toList ∧ '\n' ∉ extension.toList
  | stitch name => IsName name.toList
  | divert target => IsTarget target.toList
  | flagOperation _ flag => '\n' ∉ flag.toList
  | sideStory name => '\n' ∉ name.toList
  | transition title subtitle => '\n' ∉ title.toList ∧ '\n' ∉ subtitle.toList
  | raw content _ => '\n' ∉ content.toList
  | fakeType d | wait d => d.equal d = true

/-- What a node that was read is like. -/
def Piece.Readable : Piece → Prop
  | leaf l => l.Readable
  | choice text sticky bracketed => ChoiceHead.Readable ⟨text, sticky, bracketed, none⟩
  | conditional => True
  | branch guard => guard.Readable

/-- What an act that lines stand for is like. -/
structure Act.Readable (a : Act) : Prop where
  piece : ∀ p ∈ a.piece?, p.Readable
  divert : ∀ t ∈ a.divert?, IsTarget t.toList

theorem ChoiceHead.readable_piece {h : ChoiceHead} : h.piece.Readable ↔ h.Readable :=
  ⟨fun hr => ⟨hr.line, hr.trimmed, hr.opening, hr.unbracketed⟩,
    fun hr => ⟨hr.line, hr.trimmed, hr.opening, hr.unbracketed⟩⟩

namespace Act

theorem readable_leaf {l : Leaf} : (leaf l).Readable ↔ l.Readable :=
  ⟨fun h => h.piece _ rfl, fun h => ⟨fun p hp => by
    obtain rfl : Piece.leaf l = p := by simpa [piece?] using hp
    exact h, by simp [divert?]⟩⟩

theorem readable_choice {depth : Nat} {head : ChoiceHead} : (choice depth head).Readable ↔
    head.Readable ∧ ∀ t ∈ head.divert, IsTarget t.toList :=
  ⟨fun h => ⟨ChoiceHead.readable_piece.mp (h.piece _ rfl), h.divert⟩, fun h => ⟨fun p hp => by
    obtain rfl : head.piece = p := by simpa [piece?] using hp
    exact ChoiceHead.readable_piece.mpr h.1, h.2⟩⟩

theorem readable_branch {guard : Guard} : (branch guard).Readable ↔ guard.Readable :=
  ⟨fun h => h.piece _ rfl, fun h => ⟨fun p hp => by
    obtain rfl : Piece.branch guard = p := by simpa [piece?] using hp
    exact h, by simp [divert?]⟩⟩

theorem readable_opening : opening.Readable :=
  ⟨fun p hp => by
    obtain rfl : Piece.conditional = p := by simpa [piece?] using hp
    trivial, by simp [divert?]⟩

theorem readable_closing : closing.Readable := ⟨by simp [piece?], by simp [divert?]⟩

end Act

/-! ### Lines stand for readable acts -/

/-- A line that was read from a text without line feeds. -/
def Line.Single (l : Line) : Prop :=
  ∃ s : String, '\n' ∉ s.toList ∧ (l = Line.ofText s ∨ l = Line.insideComment s)

theorem Line.single_ofText {s : String} (h : '\n' ∉ s.toList) : (Line.ofText s).Single :=
  ⟨s, h, Or.inl rfl⟩

theorem Line.single_of_mem_readFrom {ls : List String} (h : ∀ s ∈ ls, '\n' ∉ s.toList)
    {inBlock : Bool} {l : Line} (hl : l ∈ Line.readFrom inBlock ls) : l.Single := by
  induction ls generalizing inBlock with
  | nil => simp [Line.readFrom] at hl
  | cons s ls ih =>
    rw [List.forall_mem_cons] at h
    rw [Line.readFrom_cons] at hl
    rcases List.mem_cons.mp hl with rfl | hl
    · exact ⟨s, h.1, Line.lineIn_cases inBlock s⟩
    · exact ih h.2 hl

namespace Line

variable {l : Line}

/-- The text of a line is trimmed and holds no line feed, and its form is read off the text unless
it is inside a block comment. -/
theorem Single.spec (h : l.Single) : Trimmed l.text.toList ∧ '\n' ∉ l.text.toList ∧
    (l.form = formOf l.text.toList ∨ l.form = .comment) := by
  obtain ⟨s, hs, rfl | rfl⟩ := h
  · have htext : (ofText s).text.toList = stripChars s.toList := String.toList_ofList
    rw [htext]
    exact ⟨trimmed_stripChars _, fun hc => hs (mem_of_mem_stripChars hc), Or.inl rfl⟩
  · have htext : (insideComment s).text.toList = stripChars s.toList := String.toList_ofList
    rw [htext]
    exact ⟨trimmed_stripChars _, fun hc => hs (mem_of_mem_stripChars hc), Or.inr rfl⟩

/-- Every form but dialogue is recognised, also inside a block comment. -/
theorem Single.recognised (h : l.Single) (hblank : l.form ≠ .blank)
    (htext : ∀ content divert, l.form ≠ .text content divert) : l.form.Recognised l.text.toList := by
  obtain ⟨htrim, hline, hform | hform⟩ := h.spec
  · exact recognised_of_formOf htrim hline hform.symm hblank htext
  · rw [hform]
    trivial

/-- The leaves of a line are readable. -/
theorem Single.leaves (h : l.Single) : ∀ x ∈ l.leaves, x.Readable := by
  obtain ⟨htrim, hline, -⟩ := h.spec
  intro x hx
  -- only a text may be two leaves, where an arrow ends it; any other line is one leaf
  by_cases htext : ∃ content divert, l.form = .text content divert
  · obtain ⟨content, divert, hform⟩ := htext
    have hof : formOf l.text.toList = .text content divert := by
      obtain ⟨-, -, hform' | hform'⟩ := h.spec
      · rw [← hform', hform]
      · rw [hform'] at hform
        simp at hform
    obtain ⟨-, -, ⟨behind, hsplit⟩, -, htarget⟩ := text_of_formOf htrim hline hof
    have hcontent : '\n' ∉ content.toList := fun hc => hline (by rw [hsplit]; simp [hc])
    cases divert with
    | none =>
      obtain rfl : x = .text content := by simpa [Line.leaves, hform] using hx
      exact hcontent
    | some t =>
      rcases (by simpa [Line.leaves, hform] using hx : x = .text content ∨ x = .divert t)
        with rfl | rfl
      · exact hcontent
      · exact (htarget t rfl).1
  · have hrec := fun hblank =>
      h.recognised hblank fun content divert hform => htext ⟨content, divert, hform⟩
    unfold Line.leaves at hx
    cases hform : l.form with
    | text content divert => exact absurd ⟨content, divert, hform⟩ htext
    | blank =>
      rw [hform] at hx
      obtain rfl := List.mem_singleton.mp hx
      exact hline
    | divert target =>
      replace hrec := hrec (by simp [hform])
      rw [hform] at hx hrec
      obtain rfl := List.mem_singleton.mp hx
      exact hrec.1
    | _ =>
      replace hrec := hrec (by simp [hform])
      rw [hform] at hx hrec
      obtain rfl := List.mem_singleton.mp hx
      first
        | exact hrec
        | exact hline

end Line

namespace Act

variable {st : List Open} {branchFollows : Bool}

theorem readable_leaves {l : Line} (h : l.Single) : ∀ a ∈ l.leaves.map leaf, a.Readable := by
  intro a ha
  obtain ⟨x, hx, rfl⟩ := List.mem_map.mp ha
  exact readable_leaf.mpr (h.leaves x hx)

theorem readable_kept {l : Line} (h : l.Single) : ∀ a ∈ kept l, a.Readable := by
  intro a ha
  rw [List.mem_singleton.mp ha]
  exact readable_leaf.mpr h.spec.2.1

theorem readable_ofLine {l : Line} (h : l.Single) : ∀ a ∈ ofLine st branchFollows l, a.Readable := by
  have hacts := lineActs st branchFollows l
  generalize ofLine st branchFollows l = as at hacts
  cases hacts with
  | stitch hform =>
    have hrec := h.recognised (by simp [hform]) (by simp [hform])
    rw [hform] at hrec
    exact List.forall_mem_singleton.mpr (readable_leaf.mpr hrec)
  | choice hform =>
    have hrec := h.recognised (by simp [hform]) (by simp [hform])
    rw [hform] at hrec
    exact List.forall_mem_singleton.mpr (readable_choice.mpr hrec)
  | opening => exact List.forall_mem_singleton.mpr readable_opening
  | branch hform =>
    have hrec := h.recognised (by simp [hform]) (by simp [hform])
    rw [hform] at hrec
    exact List.forall_mem_singleton.mpr (readable_branch.mpr hrec.1)
  | closing => exact List.forall_mem_singleton.mpr readable_closing
  | keptChoice => exact readable_kept h
  | keptOpening => exact readable_kept h
  | leaves => exact readable_leaves h

theorem readable_ofChain {ls : List Line} (h : ∀ l ∈ ls, l.Single) :
    ∀ a ∈ ofChain st branchFollows ls, a.Readable := by
  induction ls generalizing st with
  | nil => simp [ofChain]
  | cons l ls ih =>
    rw [List.forall_mem_cons] at h
    intro a ha
    rcases List.mem_append.mp ha with ha | ha
    · exact readable_ofLine h.1 a ha
    · exact ih h.2 a ha

end Act

/-- What is left of a branch line stays on one line, and so on. -/
theorem Line.single_of_mem_chainOf {s : String} (hs : '\n' ∉ s.toList) :
    ∀ l ∈ Line.chainOf s, l.Single := by
  induction hn : s.length using Nat.strongRecOn generalizing s with
  | _ n ih =>
    intro l hl
    rw [Line.chainOf_eq] at hl
    by_cases hb : ∃ guard rest, (Line.ofText s).form = .branch guard rest
    · obtain ⟨guard, rest, hform⟩ := hb
      have hlt := Line.length_lt_of_branch hform
      have hrec := (Line.single_ofText hs).recognised (by simp [hform]) (by simp [hform])
      rw [hform] at hrec
      rw [Line.chain_of_branch hform] at hl
      split at hl
      · rw [List.mem_singleton.mp hl]
        exact Line.single_ofText hs
      · rcases List.mem_cons.mp hl with rfl | hl
        · exact Line.single_ofText hs
        · exact ih rest.length (hn ▸ hlt) hrec.2 rfl l hl
    · rw [Line.chain_of_not_branch fun guard rest hform => hb ⟨guard, rest, hform⟩] at hl
      rw [List.mem_singleton.mp hl]
      exact Line.single_ofText hs

theorem Line.Single.chain {l : Line} (h : l.Single) : ∀ x ∈ l.chain, x.Single := by
  intro x hx
  by_cases hb : ∃ guard rest, l.form = .branch guard rest
  · obtain ⟨guard, rest, hform⟩ := hb
    have hrec := h.recognised (by simp [hform]) (by simp [hform])
    rw [hform] at hrec
    rw [Line.chain_of_branch hform] at hx
    split at hx
    · rwa [List.mem_singleton.mp hx]
    · rcases List.mem_cons.mp hx with rfl | hx
      · exact h
      · exact Line.single_of_mem_chainOf hrec.2 x hx
  · rw [Line.chain_of_not_branch fun guard rest hform => hb ⟨guard, rest, hform⟩] at hx
    rwa [List.mem_singleton.mp hx]

namespace Act

theorem readable_ofWholeLine {st : List Open} {branchFollows : Bool} {l : Line} (h : l.Single) :
    ∀ a ∈ ofWholeLine st branchFollows l, a.Readable := by
  unfold ofWholeLine
  split
  · exact readable_ofLine h
  · exact readable_ofChain h.chain

/-- Lines stand for readable acts. -/
theorem readable_ofLines {st : List Open} {ls : List Line} (h : ∀ l ∈ ls, l.Single) :
    ∀ a ∈ ofLines st ls, a.Readable := by
  induction ls generalizing st with
  | nil => simp [ofLines]
  | cons l ls ih =>
    rw [List.forall_mem_cons] at h
    rw [ofLines]
    split
    · exact ih h.2
    · intro a ha
      rcases List.mem_append.mp ha with ha | ha
      · exact readable_ofWholeLine h.1 a ha
      · exact ih h.2 a ha

/-- Readable acts list readable entries. -/
theorem readable_of_mem_run {as : List Act} (h : ∀ a ∈ as, a.Readable) {e : Entry}
    (he : e ∈ run as []) : e.piece.Readable :=
  piece_of_mem_run (fun a ha => (h a ha).piece) (fun a ha => (h a ha).divert) (by simp) he

end Act

/-- Every node of a tree that was read from lines is readable. -/
theorem Body.readable_of_mem_outlineIn (supply : Nat) {texts : List String}
    (h : ∀ s ∈ texts, '\n' ∉ s.toList) {e : Entry}
    (he : e ∈ Item.outlineIn 0 (Body.read supply texts).1.items) : e.piece.Readable := by
  rw [Body.outlineIn_read] at he
  refine Act.readable_of_mem_run (Act.readable_ofLines fun l hl => ?_) he
  exact Line.single_of_mem_readFrom h (List.mem_of_mem_drop hl)

/-- A readable leaf holds no number that equals nothing. -/
theorem Leaf.Readable.same {l : Leaf} (h : l.Readable) : l.same l = true := by
  cases l <;> simp_all [Leaf.Readable, Leaf.same]

/-- A tree that was read equals itself. -/
theorem Body.sameList_read_self (supply : Nat) {texts : List String}
    (h : ∀ s ∈ texts, '\n' ∉ s.toList) :
    Item.sameList (Body.read supply texts).1.items (Body.read supply texts).1.items = true := by
  have hregular : ∀ e ∈ Item.outlineIn 0 (Body.read supply texts).1.items, e.Regular := by
    intro e he l hl
    have hreadable := Body.readable_of_mem_outlineIn supply h he
    rw [hl] at hreadable
    exact Leaf.Readable.same hreadable
  exact Item.sameList_self hregular

/-! ### Trees with a readable outline -/

/-- What an act that a tree is printed for is like. -/
structure Act.Printable (a : Act) : Prop extends a.Readable where
  depth : ∀ depth head, a = .choice depth head → 0 < depth

namespace Act

theorem printable_leaf {l : Leaf} (h : l.Readable) : (leaf l).Printable :=
  ⟨readable_leaf.mpr h, by simp⟩

theorem printable_trailing {d : Option String} {k : Nat}
    (h : ∀ e ∈ Entry.own k d, e.piece.Readable) : ∀ a ∈ trailing d, a.Printable := by
  cases d with
  | none => simp
  | some t =>
    intro a ha
    rw [List.mem_singleton.mp ha]
    exact printable_leaf (h ⟨k, .leaf (.divert t)⟩ (by simp))

end Act

mutual

theorem Item.printable_acts {k depth : Nat} (hd : 0 < depth) : ∀ {i : Item},
    (∀ e ∈ i.outline k, e.piece.Readable) → ∀ a ∈ i.acts depth, a.Printable
  | .leaf _ l, h, a, ha => by
    rw [List.mem_singleton.mp ha]
    exact Act.printable_leaf (h _ List.mem_cons_self)
  | .choice _ hd' c, h, a, ha => by
    rw [Item.outline, List.forall_mem_cons, List.forall_mem_append] at h
    obtain ⟨hpiece, hcontent, hown⟩ := h
    rw [Item.acts] at ha
    rcases List.mem_cons.mp ha with rfl | ha
    · refine ⟨Act.readable_choice.mpr ⟨?_, fun t ht => ?_⟩, fun depth' head heq => ?_⟩
      · exact ChoiceHead.readable_piece.mp hpiece
      -- a divert on the line of the choice is one that is listed behind its content
      · have hdivert : hd'.divert = some t := by
          unfold ChoiceHead.printed at ht
          split at ht
          · exact ht
          · simp at ht
        exact hown ⟨k + 1, .leaf (.divert t)⟩ (by simp [hdivert])
      · rw [Act.choice.injEq] at heq
        rwa [← heq.1]
    · rcases List.mem_append.mp ha with ha | ha
      · exact Item.printable_actsIn (Nat.succ_pos depth) hcontent a ha
      · split at ha
        · simp at ha
        · exact Act.printable_trailing hown a ha
  | .conditional _ bs, h, a, ha => by
    rw [Item.outline, List.forall_mem_cons] at h
    rw [Item.acts] at ha
    rcases List.mem_cons.mp ha with rfl | ha
    · exact ⟨Act.readable_opening, by simp⟩
    · rcases List.mem_append.mp ha with ha | ha
      · exact Branch.printable_actsIn h.2 a ha
      · rw [List.mem_singleton.mp ha]
        exact ⟨Act.readable_closing, by simp⟩

theorem Branch.printable_acts {k : Nat} : ∀ {b : Branch},
    (∀ e ∈ b.outline k, e.piece.Readable) → ∀ a ∈ b.acts, a.Printable
  | .mk _ g d c, h, a, ha => by
    rw [Branch.outline, List.forall_mem_cons, List.forall_mem_append] at h
    obtain ⟨hpiece, hcontent, hown⟩ := h
    rw [Branch.acts] at ha
    rcases List.mem_cons.mp ha with rfl | ha
    · exact ⟨Act.readable_branch.mpr hpiece, by simp⟩
    · rcases List.mem_append.mp ha with ha | ha
      · exact Item.printable_actsIn Nat.zero_lt_one hcontent a ha
      · exact Act.printable_trailing hown a ha

/-- A tree with a readable outline is printed for acts that can be printed. -/
theorem Item.printable_actsIn {k depth : Nat} (hd : 0 < depth) : ∀ {is : List Item},
    (∀ e ∈ Item.outlineIn k is, e.piece.Readable) → ∀ a ∈ Item.actsIn depth is, a.Printable
  | [], _, a, ha => by simp [Item.actsIn] at ha
  | i :: is, h, a, ha => by
    rw [Item.outlineIn, List.forall_mem_append] at h
    rw [Item.actsIn] at ha
    rcases List.mem_append.mp ha with ha | ha
    · exact Item.printable_acts hd h.1 a ha
    · exact Item.printable_actsIn hd h.2 a ha

theorem Branch.printable_actsIn {k : Nat} : ∀ {bs : List Branch},
    (∀ e ∈ Branch.outlineIn k bs, e.piece.Readable) → ∀ a ∈ Branch.actsIn bs, a.Printable
  | [], _, a, ha => by simp [Branch.actsIn] at ha
  | b :: bs, h, a, ha => by
    rw [Branch.outlineIn, List.forall_mem_append] at h
    rw [Branch.actsIn] at ha
    rcases List.mem_append.mp ha with ha | ha
    · exact Branch.printable_acts h.1 a ha
    · exact Branch.printable_actsIn h.2 a ha

end

/-! ### Printed lines -/

/-- The text of a number stays on one line. -/
theorem newline_not_mem_renderDuration (d : Binary64) : '\n' ∉ (renderDuration d).toList := by
  intro h
  unfold renderDuration at h
  have hchar : Decimal.isNumberChar '\n' = true := Binary64.isNumberChar_general 6 d h
  exact absurd hchar (by decide)

/-- A readable leaf is printed on one line. -/
theorem Leaf.Readable.line {l : Leaf} (h : l.Readable) : '\n' ∉ l.render.toList := by
  cases l with
  | text content => exact h
  | media kind filename extension =>
    have hfile : '\n' ∉ filename.toList := h.1
    have hext : '\n' ∉ extension.toList := h.2
    have hopening : '\n' ∉ kind.tagOpening.toList := by cases kind <;> decide
    change '\n' ∉ ("<" ++ kind.tagOpening ++ filename ++ extension ++ ">").toList
    simp [hfile, hext, hopening]
  | fakeType d =>
    have hd := newline_not_mem_renderDuration d
    change '\n' ∉ ("<fake-type-" ++ renderDuration d ++ ">").toList
    simp [hd]
  | wait d =>
    have hd := newline_not_mem_renderDuration d
    change '\n' ∉ ("<wait-" ++ renderDuration d ++ ">").toList
    simp [hd]
  | stitch name =>
    have hname : '\n' ∉ name.toList := fun hc => absurd (IsName.isWord h _ hc) (by decide)
    change '\n' ∉ ("= " ++ name).toList
    simp [hname]
  | divert target =>
    have htarget : '\n' ∉ target.toList := IsTarget.newline_not_mem h
    change '\n' ∉ ("-> " ++ target).toList
    simp [htarget]
  | flagOperation verb flag =>
    have hflag : '\n' ∉ flag.toList := h
    have hverb : '\n' ∉ verb.function.toList := by cases verb <;> decide
    change '\n' ∉ ("~ " ++ verb.function ++ "(\"" ++ flag ++ "\")").toList
    simp [hflag, hverb]
  | sideStory name =>
    have hname : '\n' ∉ name.toList := h
    change '\n' ∉ ("<side-story-" ++ name ++ ">").toList
    simp [hname]
  | transition title subtitle =>
    have htitle : '\n' ∉ title.toList := h.1
    have hsubtitle : '\n' ∉ subtitle.toList := h.2
    change '\n' ∉ ("~ ShowCustomTransition(\"" ++ title ++ "\", \"" ++ subtitle ++ "\")").toList
    simp [htitle, hsubtitle]
  | raw content reason => exact h

namespace Act

/-- The head of a readable choice with its divert as characters. -/
theorem exists_divert {head : ChoiceHead} (h : ∀ t ∈ head.divert, IsTarget t.toList) :
    ∃ t : Option (List Char), (∀ t' ∈ t, IsTarget t') ∧ t.isSome = head.divert.isSome ∧
      head = { head with divert := t.map String.ofList } := by
  cases hd : head.divert with
  | none => exact ⟨none, by simp, rfl, by cases head; simp_all⟩
  | some t =>
    refine ⟨some t.toList, ?_, rfl, ?_⟩
    · intro t' ht'
      obtain rfl : t.toList = t' := by simpa using ht'
      exact h t hd
    · cases head
      simp_all

/-- An act that can be printed is printed on one line. -/
theorem Printable.line {a : Act} (h : a.Printable) : '\n' ∉ a.text.toList := by
  cases a with
  | leaf l => exact (readable_leaf.mp h.toReadable).line
  | choice depth head =>
    obtain ⟨hread, hdivert⟩ := readable_choice.mp h.toReadable
    obtain ⟨n, rfl⟩ := Nat.exists_eq_succ_of_ne_zero (h.depth depth head rfl).ne'
    obtain ⟨t, ht, hsome, hhead⟩ := exists_divert hdivert
    have hbehind : '\n' ∉ head.behindMarkers t := by
      simpa [onOneLine] using hread.line_behindMarkers ht
    have htext := ChoiceHead.toList_render head n t
    rw [hsome, ← hhead] at htext
    rw [text_choice, htext]
    intro hnl
    rcases List.mem_append.mp hnl with hnl | hnl
    · rcases Line.mem_markers hnl with hm | hm
      · have hblank : isBlank '\n' = false := by
          rw [hm]
          exact ChoiceHead.isBlank_marker
        exact absurd hblank (by decide)
      · exact absurd hm (by decide)
    · split at hnl
      · simp at hnl
      · rcases List.mem_cons.mp hnl with hm | hm
        · exact absurd hm (by decide)
        · exact hbehind hm
  | opening => decide
  | branch guard =>
    have hguard := (readable_branch.mp h.toReadable).line
    simp [Guard.renderLine, hguard]
  | closing => decide

end Act

end StoryScript
