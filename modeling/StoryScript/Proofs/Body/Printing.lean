import StoryScript.Document.Rendering
import StoryScript.Proofs.Body.Act
import StoryScript.Proofs.Line.Blank

/-!
# The acts that printed lines are meant to be

Every line of the canonical text of a content tree is printed for an act: `Item.actsIn` lists these
acts in the order of the lines, and `Act.text` is the line of an act but for its indentation
(`Item.strip_renderIn`). `Item.run_actsIn` shows that they are the right ones: a run of them lists
the outline of the tree they come from.

Nothing is printed to finish a choice. It is finished by whatever comes behind the list it ends, so
the run goes on with some acts `rest`, and `Act.Closes` asks that these begin with one that finishes
it. The shape of the tree provides for that inside a list, where only a choice or a stitch stands
behind a choice, and at the end of a branch, whose divert is not printed behind a choice because such
a branch has none.
-/

namespace StoryScript

/-! ### The acts of a tree -/

/-- The act of the divert that is printed behind the content of a container. -/
def Act.trailing (divert : Option String) : List Act :=
  (divert.map fun target => .leaf (.divert target)).toList

/-- The head of a choice as it is printed, with its divert only if that stands on the same line. -/
def ChoiceHead.printed (h : ChoiceHead) (content : List Item) : ChoiceHead :=
  { h with divert := if inlineDivert h content then h.divert else none }

mutual

/-- The acts of an item; `depth` is the depth of a choice at this place. -/
def Item.acts (depth : Nat) : Item → List Act
  | .leaf _ l => [.leaf l]
  | .choice _ h c => .choice depth (h.printed c) :: (Item.actsIn (depth + 1) c ++
      if inlineDivert h c then [] else Act.trailing h.divert)
  | .conditional _ bs => .opening :: (Branch.actsIn bs ++ [.closing])

/-- The acts of a branch. -/
def Branch.acts : Branch → List Act
  | .mk _ g d c => .branch g :: (Item.actsIn 1 c ++ Act.trailing d)

/-- The acts of a list of items. -/
def Item.actsIn (depth : Nat) : List Item → List Act
  | [] => []
  | i :: is => i.acts depth ++ Item.actsIn depth is

/-- The acts of a list of branches. -/
def Branch.actsIn : List Branch → List Act
  | [] => []
  | b :: bs => b.acts ++ Branch.actsIn bs

end

namespace Act

/-- The line of an act, without its indentation. -/
def text : Act → String
  | leaf l => l.render
  | choice depth head => head.render depth head.divert.isSome
  | opening => "\x7b"
  | branch guard => guard.renderLine
  | closing => "\x7d"

theorem text_leaf (l : Leaf) : (leaf l).text = l.render := rfl

@[simp] theorem text_divert (t : String) : (leaf (.divert t)).text = renderDivert t := rfl

@[simp] theorem text_choice (depth : Nat) (head : ChoiceHead) :
    (choice depth head).text = head.render depth head.divert.isSome := rfl

@[simp] theorem text_opening : opening.text = "\x7b" := rfl

@[simp] theorem text_branch (guard : Guard) : (branch guard).text = guard.renderLine := rfl

@[simp] theorem text_closing : closing.text = "\x7d" := rfl

@[simp] theorem trailing_none : trailing none = [] := rfl

@[simp] theorem trailing_some (t : String) : trailing (some t) = [leaf (.divert t)] := rfl

end Act

/-! ### The lines of the acts -/

theorem strip_indented (indent level : Nat) (text : String) :
    Text.strip (indented indent level text) = Text.strip text := by
  unfold indented
  split
  · next h => rw [h]
  · rw [Text.strip_eq_iff, String.toList_append, String.toList_ofList,
      Text.stripChars_append_of_blank]
    intro c hc
    rw [(List.mem_replicate.mp hc).2]
    decide

theorem ChoiceHead.render_printed (h : ChoiceHead) (content : List Item) (depth : Nat) :
    (h.printed content).render depth (h.printed content).divert.isSome =
      h.render depth (inlineDivert h content) := by
  unfold ChoiceHead.printed ChoiceHead.render
  cases hinline : inlineDivert h content with
  | false => simp
  | true =>
    have hsome : h.divert.isSome = true := by
      rw [inlineDivert, Bool.and_eq_true] at hinline
      exact hinline.1
    simp [hsome]

/-- A line on which an act is printed, at some level of nesting. -/
def Act.PrintedOn (indent : Nat) (line : String) (a : Act) : Prop :=
  ∃ level, line = indented indent level a.text

theorem Act.PrintedOn.strip {indent : Nat} {line : String} {a : Act} (h : a.PrintedOn indent line) :
    Text.strip line = Text.strip a.text := by
  obtain ⟨level, rfl⟩ := h
  exact strip_indented indent level a.text

/-- The divert behind the content of a container is printed for the act behind its acts. -/
theorem Act.printedOn_trailing (indent level : Nat) (d : Option String) :
    List.Forall₂ (fun line (a : Act) => a.PrintedOn indent line)
      (d.map fun t => indented indent level (renderDivert t)).toList (Act.trailing d) := by
  cases d with
  | none => exact .nil
  | some t => exact .cons ⟨level, rfl⟩ .nil

mutual

theorem Item.printedOn_render (indent level depth : Nat) : ∀ i : Item,
    List.Forall₂ (fun line (a : Act) => a.PrintedOn indent line) (i.render indent level depth)
      (i.acts depth)
  | .leaf _ _ => .cons ⟨_, rfl⟩ .nil
  | .choice _ h c => by
    have hhead : (Act.choice depth (h.printed c)).PrintedOn indent
        (indented indent level (h.render depth (inlineDivert h c))) :=
      ⟨level, by rw [Act.text_choice, ChoiceHead.render_printed]⟩
    simp only [Item.render, Item.acts, List.cons_append]
    refine .cons hhead (List.rel_append (Item.printedOn_renderIn indent (level + 1) (depth + 1) c) ?_)
    split
    · exact .nil
    · exact Act.printedOn_trailing indent (level + 1) h.divert
  | .conditional _ bs => by
    simp only [Item.render, Item.acts, List.cons_append]
    exact .cons ⟨level, rfl⟩ (List.rel_append (Branch.printedOn_renderIn indent level bs)
      (.cons ⟨level, rfl⟩ .nil))

theorem Branch.printedOn_render (indent level : Nat) : ∀ b : Branch,
    List.Forall₂ (fun line (a : Act) => a.PrintedOn indent line) (b.render indent level) b.acts
  | .mk _ g d c => by
    simp only [Branch.render, Branch.acts, List.cons_append]
    exact .cons ⟨level, rfl⟩ (List.rel_append (Item.printedOn_renderIn indent (level + 1) 1 c)
      (Act.printedOn_trailing indent (level + 1) d))

/-- The lines of a list of items are printed for its acts one by one. -/
theorem Item.printedOn_renderIn (indent level depth : Nat) : ∀ is : List Item,
    List.Forall₂ (fun line (a : Act) => a.PrintedOn indent line)
      (Item.renderIn indent level depth is) (Item.actsIn depth is)
  | [] => .nil
  | i :: is => by
    rw [Item.renderIn, Item.actsIn]
    exact List.rel_append (Item.printedOn_render indent level depth i)
      (Item.printedOn_renderIn indent level depth is)

theorem Branch.printedOn_renderIn (indent level : Nat) : ∀ bs : List Branch,
    List.Forall₂ (fun line (a : Act) => a.PrintedOn indent line) (Branch.renderIn indent level bs)
      (Branch.actsIn bs)
  | [] => .nil
  | b :: bs => by
    rw [Branch.renderIn, Branch.actsIn]
    exact List.rel_append (Branch.printedOn_render indent level b)
      (Branch.printedOn_renderIn indent level bs)

end

/-- The lines of a list of items are those of its acts but for the blanks around them. -/
theorem Item.strip_renderIn (indent level depth : Nat) (is : List Item) :
    (Item.renderIn indent level depth is).map Text.strip =
      (Item.actsIn depth is).map fun a => Text.strip a.text := by
  have hstrip : ∀ {lines : List String} {as : List Act},
      List.Forall₂ (fun line (a : Act) => a.PrintedOn indent line) lines as →
        lines.map Text.strip = as.map fun a => Text.strip a.text := by
    intro lines as h
    induction h with
    | nil => rfl
    | cons hline _ ih => rw [List.map_cons, List.map_cons, hline.strip, ih]
  exact hstrip (Item.printedOn_renderIn indent level depth is)

/-- Every line of a list of items is printed for one of its acts. -/
theorem Item.exists_printedOn {indent level depth : Nat} {is : List Item} {line : String}
    (h : line ∈ Item.renderIn indent level depth is) :
    ∃ a ∈ Item.actsIn depth is, a.PrintedOn indent line := by
  have hmem : ∀ {lines : List String} {as : List Act},
      List.Forall₂ (fun line (a : Act) => a.PrintedOn indent line) lines as → line ∈ lines →
        ∃ a ∈ as, a.PrintedOn indent line := by
    intro lines as hprinted
    induction hprinted with
    | nil => simp
    | cons hline _ ih =>
      intro h
      rcases List.mem_cons.mp h with rfl | h
      · exact ⟨_, List.mem_cons_self, hline⟩
      · obtain ⟨a, ha, hprinted⟩ := ih h
        exact ⟨a, List.mem_cons_of_mem _ ha, hprinted⟩
  exact hmem (Item.printedOn_renderIn indent level depth is) h

/-! ### Choices that are finished by what follows -/

namespace Act

/-- Acts that begin, if they begin at all, with one that finishes the choices of depth `n` and
more. -/
def Closes (n : Nat) (as : List Act) : Prop :=
  ∀ a ∈ as.head?, ∀ m ≥ n, ∀ d, a.finishes (.choice m d) = true

/-- A conditional is followed by its first branch, and branches and closing braces stand inside a
conditional. -/
def Linked : List Open → List Act → Prop
  | _, [] => True
  | st, a :: as => (match a with
      | opening => ∃ guard rest, as = branch guard :: rest
      | branch _ | closing => .conditional ∈ st
      | _ => True) ∧ Linked (a.next st) as

variable {n m : Nat} {as : List Act} {st : List Open}

theorem closes_nil : Closes n [] := by simp [Closes]

theorem closes_cons {a : Act} :
    Closes n (a :: as) ↔ ∀ m ≥ n, ∀ d, a.finishes (.choice m d) = true := by
  simp [Closes]

theorem closes_closing : Closes n (closing :: as) :=
  closes_cons.mpr fun _ _ _ => by simp [finishes, Open.inside]

theorem closes_branch {guard : Guard} : Closes n (branch guard :: as) :=
  closes_cons.mpr fun _ _ _ => by simp [finishes, Open.inside]

theorem closes_choice {head : ChoiceHead} : Closes n (choice n head :: as) :=
  closes_cons.mpr fun m hm _ => by simpa [finishes, Open.endsAtChoice] using hm

theorem closes_stitch {name : String} : Closes n (leaf (.stitch name) :: as) :=
  closes_cons.mpr fun _ _ _ => rfl

theorem Closes.mono (h : Closes n as) (hnm : n ≤ m) : Closes m as :=
  fun a ha k hk => h a ha k (Nat.le_trans hnm hk)

/-- Acts that finish the innermost choice list its divert and go on as if it had not been there. -/
theorem Closes.run (h : Closes n as) (d : Option String) :
    run as (.choice n d :: st) = Entry.own (st.length + 1) d ++ run as st := by
  cases as with
  | nil => rfl
  | cons a as =>
    have ha := closes_cons.mp h n (Nat.le_refl n) d
    simp only [Act.run, emit, next, Open.flush_cons_of_pos ha, List.dropWhile_cons_of_pos ha,
      List.append_assoc]
    rfl

/-- The same acts are linked whether the choice that they finish is open or not. -/
theorem Closes.linked (h : Closes n as) {d : Option String} (hl : Linked st as) :
    Linked (.choice n d :: st) as := by
  cases as with
  | nil => trivial
  | cons a as =>
    have ha := closes_cons.mp h n (Nat.le_refl n) d
    have hnext : a.next (.choice n d :: st) = a.next st := by
      rw [next, next, List.dropWhile_cons_of_pos ha]
    refine ⟨?_, by rw [hnext]; exact hl.2⟩
    cases a with
    | opening => exact hl.1
    | branch guard => exact List.mem_cons_of_mem _ hl.1
    | closing => exact List.mem_cons_of_mem _ hl.1
    | leaf l => trivial
    | choice depth head => trivial

/-- Acts that list `es` in front of what `rest` lists, and that are linked if `rest` is. -/
structure Lists (st : List Open) (as rest : List Act) (es : List Entry) : Prop where
  run : run (as ++ rest) st = es ++ run rest st
  linked : Linked st rest → Linked st (as ++ rest)

/-- No choice of depth `n` finishes the innermost container. -/
def Under (n : Nat) (st : List Open) : Prop := ∀ o ∈ st.head?, o.endsAtChoice n = false

theorem Under.flush (h : Under n st) : Open.flush (Open.endsAtChoice n) st = [] := by
  cases st with
  | nil => rfl
  | cons o os => exact Open.flush_cons_of_neg (h o rfl)

theorem Under.dropWhile (h : Under n st) : st.dropWhile (Open.endsAtChoice n) = st := by
  cases st with
  | nil => rfl
  | cons o os => exact List.dropWhile_cons_of_neg (by simp [h o rfl])

/-- The divert that is printed behind a content lists as the divert of its container. -/
theorem lists_trailing (st : List Open) (d : Option String) (rest : List Act) :
    Lists st (trailing d) rest (Entry.own st.length d) := by
  cases d with
  | none => exact ⟨rfl, fun h => h⟩
  | some t =>
    have hemit : (leaf (.divert t)).emit st = _ := emit_leaf (by simp) st
    have hnext : (leaf (.divert t)).next st = _ := next_leaf (by simp) st
    refine ⟨?_, fun h => ⟨trivial, ?_⟩⟩
    · rw [trailing_some, List.singleton_append, Act.run, hemit, hnext]
      rfl
    · rw [hnext]
      exact h

/-- A leaf lists as it is; for a stitch nothing may be open. -/
theorem lists_leaf {l : Leaf} (hl : (∃ name, l = .stitch name) → st = []) (rest : List Act) :
    Lists st [leaf l] rest [⟨st.length, .leaf l⟩] := by
  have hemit : (leaf l).emit st = [⟨st.length, .leaf l⟩] := by
    rcases l.stitch_cases with ⟨name, rfl⟩ | hs
    · rw [hl ⟨name, rfl⟩]
      rfl
    · exact emit_leaf hs st
  have hnext : (leaf l).next st = st := by
    rcases l.stitch_cases with ⟨name, rfl⟩ | hs
    · rw [hl ⟨name, rfl⟩]
      rfl
    · exact next_leaf hs st
  refine ⟨?_, fun h => ⟨trivial, ?_⟩⟩
  · rw [List.singleton_append, Act.run, hemit, hnext]
  · rw [hnext]
    exact h

end Act

/-! ### The outline of the acts of a tree -/

/-- What is printed behind an item closes it if it is a choice. -/
theorem Item.closes_rest {root : Bool} {depth : Nat} {i : Item} {is : List Item} {rest : List Act}
    (h : Item.WellShapedIn root (i :: is))
    (hrest : Item.EndsIn Item.isChoice (i :: is) → Act.Closes depth rest)
    (hi : i.isChoice = true) : Act.Closes depth (Item.actsIn depth is ++ rest) := by
  cases is with
  | nil => exact hrest (by simpa [Item.EndsIn] using hi)
  | cons j js =>
    rcases h.2.2.1 j rfl hi with hj | ⟨-, hj⟩
    · cases j with
      | choice m hd c => exact Act.closes_choice
      | leaf m l => simp [Item.isChoice] at hj
      | conditional m bs => simp [Item.isChoice] at hj
    · cases j with
      | leaf m l =>
        cases l with
        | stitch name => exact Act.closes_stitch
        | _ => simp [Item.isStitch, Item.stitchName?] at hj
      | choice m hd c => simp [Item.isStitch, Item.stitchName?] at hj
      | conditional m bs => simp [Item.isStitch, Item.stitchName?] at hj

/-- Where the divert of a choice is printed on its own line, or there is none, nothing is printed
behind the content; elsewhere the content does not end in a choice. -/
theorem inlineDivert_cases (h : ChoiceHead) (c : List Item) :
    ((if inlineDivert h c then [] else Act.trailing h.divert) = [] ∧
      (h.printed c).divert = h.divert) ∨
    ((if inlineDivert h c then [] else Act.trailing h.divert) = Act.trailing h.divert ∧
      (h.printed c).divert = none ∧ ¬ Item.EndsIn Item.isChoice c) := by
  unfold ChoiceHead.printed
  cases hinline : inlineDivert h c with
  | true => exact Or.inl ⟨by simp, by simp⟩
  | false =>
    cases hd : h.divert with
    | none => exact Or.inl ⟨by simp, by simp⟩
    | some t =>
      refine Or.inr ⟨by simp, by simp, fun hends => ?_⟩
      unfold Item.EndsIn at hends
      unfold inlineDivert at hinline
      cases hlast : c.getLast? with
      | none => simp [hlast] at hends
      | some last => simp_all

mutual

/-- The acts of an item list its outline. -/
theorem Item.lists_acts {root : Bool} {depth : Nat} {st : List Open} (rest : List Act) :
    ∀ {i : Item}, i.WellShaped → (i.isStitch = true → root = true) → (root = true → st = []) →
    Act.Under depth st → (i.isChoice = true → Act.Closes depth rest) →
    Act.Lists st (i.acts depth) rest (i.outline st.length)
  | .leaf _ l, _, hstitch, hroot, _, _ => by
    refine Act.lists_leaf (fun hs => hroot (hstitch ?_)) rest
    obtain ⟨name, rfl⟩ := hs
    rfl
  | .choice _ h c, hshape, _, _, hunder, hcloses => by
    -- the content is listed with the choice on top of the stack, if what follows closes a choice at its end
    have hcl := hcloses rfl
    have hin : ∀ X, (Item.EndsIn Item.isChoice c → Act.Closes (depth + 1) X) →
        Act.Lists (.choice depth (h.printed c).divert :: st) (Item.actsIn (depth + 1) c) X
          (Item.outlineIn (st.length + 1) c) := fun X hX =>
      Item.lists_actsIn X hshape.2 (by simp) (by simp [Act.Under, Open.endsAtChoice]) hX
    have hemit : (Act.choice depth (h.printed c)).emit st = [⟨st.length, h.piece⟩] := by
      simp [Act.emit, Act.finishes, hunder.flush, hunder.dropWhile, Act.piece?, ChoiceHead.piece,
        ChoiceHead.printed]
    have hnext : (Act.choice depth (h.printed c)).next st =
        .choice depth (h.printed c).divert :: st := by
      simp [Act.next, Act.push, Act.finishes, hunder.dropWhile]
    rw [Item.acts]
    -- the divert of the choice stands on its line, or on a line of its own behind the content
    rcases inlineDivert_cases h c with ⟨htrailing, hdivert⟩ | ⟨htrailing, hdivert, hends⟩
    · have hc := hin rest fun _ => hcl.mono (Nat.le_succ depth)
      rw [htrailing, List.append_nil]
      refine ⟨?_, fun hl => ⟨trivial, ?_⟩⟩
      · rw [List.cons_append, Act.run, hemit, hnext, hc.run, hcl.run, hdivert, Item.outline]
        simp
      · rw [hnext]
        exact hc.linked (hcl.linked hl)
    · have htr := Act.lists_trailing (.choice depth (h.printed c).divert :: st) h.divert rest
      have hc := hin (Act.trailing h.divert ++ rest) fun he => absurd he hends
      rw [htrailing]
      refine ⟨?_, fun hl => ⟨trivial, ?_⟩⟩
      · rw [List.cons_append, List.append_assoc, Act.run, hemit, hnext, hc.run, htr.run, hcl.run,
          hdivert, Item.outline]
        simp
      · rw [hnext]
        change Act.Linked _ (Item.actsIn (depth + 1) c ++ Act.trailing h.divert ++ rest)
        rw [List.append_assoc]
        exact hc.linked (htr.linked (hcl.linked hl))
  | .conditional _ bs, hshape, _, _, _, _ => by
    have hbs := Branch.lists_actsIn st (.conditional :: st) rest hshape.2 (by simp [Open.inside])
      (by simp [Open.flush, Open.inside])
    rw [Item.acts]
    refine ⟨?_, fun hl => ⟨?_, ?_⟩⟩
    · rw [List.cons_append, List.append_assoc, Act.run, List.singleton_append, Item.outline]
      simp only [Act.emit, Act.next, Act.push, Act.finishes, Open.flush_false,
        Open.dropWhile_false, Act.piece?]
      rw [hbs.1]
      rfl
    · cases bs with
      | nil => exact absurd rfl hshape.1
      | cons b bs =>
        cases b with
        | mk m g d c => exact ⟨g, _, rfl⟩
    · have hl' := hbs.2 hl
      simpa [Act.next, Act.push, Act.finishes] using hl'

/-- The acts of the branches of a conditional, and the brace behind them, list their outline. The
stack holds the conditional, and on top of it perhaps the branch before. -/
theorem Branch.lists_actsIn (st st' : List Open) (rest : List Act) : ∀ {bs : List Branch},
    Branch.WellShapedIn bs → st'.dropWhile Open.inside = .conditional :: st →
    Open.flush Open.inside st' = [] →
    Act.run (Branch.actsIn bs ++ .closing :: rest) st' =
        Branch.outlineIn st.length bs ++ Act.run rest st ∧
      (Act.Linked st rest → Act.Linked st' (Branch.actsIn bs ++ .closing :: rest))
  | [], _, hdrop, hflush => by
    have hmem : Open.conditional ∈ st' :=
      (List.dropWhile_suffix _).subset (hdrop ▸ List.mem_cons_self)
    refine ⟨?_, fun hl => ⟨hmem, ?_⟩⟩
    · rw [Branch.actsIn, List.nil_append, Act.run]
      simp [Act.emit, Act.next, Act.push, Act.finishes, Act.piece?, hflush, hdrop,
        Branch.outlineIn]
    · simpa [Act.next, Act.push, Act.finishes, hdrop] using hl
  | .mk _ g d c :: bs, hshape, hdrop, hflush => by
    have hmem : Open.conditional ∈ st' :=
      (List.dropWhile_suffix _).subset (hdrop ▸ List.mem_cons_self)
    have hnext : (Act.branch g).next st' = .branch :: .conditional :: st := by
      simp [Act.next, Act.push, Act.finishes, hdrop]
    have hbs := Branch.lists_actsIn st (.branch :: .conditional :: st) rest hshape.2 (by simp [Open.inside])
      (by simp [Open.flush, Open.inside, Open.own])
    -- the next branch or the brace closes the choices of this one
    have hbehind : Act.Closes 1 (Branch.actsIn bs ++ .closing :: rest) := by
      cases bs with
      | nil => exact Act.closes_closing
      | cons b bs =>
        cases b with
        | mk m g d c => exact Act.closes_branch
    have htr := Act.lists_trailing (.branch :: .conditional :: st) d
      (Branch.actsIn bs ++ .closing :: rest)
    have hc : Act.Lists (.branch :: .conditional :: st) (Item.actsIn 1 c)
        (Act.trailing d ++ (Branch.actsIn bs ++ .closing :: rest))
        (Item.outlineIn (st.length + 2) c) := by
      refine Item.lists_actsIn _ hshape.1.2.2 (by simp) (by simp [Act.Under, Open.endsAtChoice])
        fun hends => ?_
      cases d with
      | none => exact hbehind
      | some t => exact absurd hends (hshape.1.2.1 (by simp))
    rw [Branch.actsIn, Branch.acts, List.cons_append, List.cons_append, List.append_assoc,
      List.append_assoc]
    refine ⟨?_, fun hl => ⟨hmem, ?_⟩⟩
    · rw [Act.run, hnext, hc.run, htr.run, hbs.1, Branch.outlineIn, Branch.outline]
      simp [Act.emit, Act.finishes, Act.piece?, hflush, hdrop]
    · rw [hnext]
      exact hc.linked (htr.linked (hbs.2 hl))

/-- The acts of a list of items list its outline. -/
theorem Item.lists_actsIn {root : Bool} {depth : Nat} {st : List Open} (rest : List Act) :
    ∀ {is : List Item}, Item.WellShapedIn root is → (root = true → st = []) →
    Act.Under depth st → (Item.EndsIn Item.isChoice is → Act.Closes depth rest) →
    Act.Lists st (Item.actsIn depth is) rest (Item.outlineIn st.length is)
  | [], _, _, _, _ => ⟨rfl, fun h => h⟩
  | i :: is, hshape, hroot, hunder, hrest => by
    have hi := Item.lists_acts (Item.actsIn depth is ++ rest) hshape.1 hshape.2.1 hroot
      hunder (Item.closes_rest hshape hrest)
    have his := Item.lists_actsIn rest hshape.2.2.2 hroot hunder
      fun hends => hrest (Item.endsIn_cons hends)
    rw [Item.actsIn]
    refine ⟨?_, fun hl => ?_⟩
    · rw [List.append_assoc, hi.run, his.run, Item.outlineIn, List.append_assoc]
    · rw [List.append_assoc]
      exact hi.linked (his.linked hl)

end

/-- The acts of a tree list its outline, and they are linked. -/
theorem Item.run_actsIn {is : List Item} (h : Item.WellShapedIn true is) :
    Act.run (Item.actsIn 1 is) [] = Item.outlineIn 0 is ∧ Act.Linked [] (Item.actsIn 1 is) := by
  have hlists : Act.Lists [] (Item.actsIn 1 is) [] (Item.outlineIn 0 is) :=
    Item.lists_actsIn [] h (fun _ => rfl) (by simp [Act.Under]) fun _ => Act.closes_nil
  have hrun := hlists.run
  have hlinked := hlists.linked trivial
  simp only [List.append_nil] at hrun hlinked
  refine ⟨?_, hlinked⟩
  rw [hrun]
  simp [Act.run]

end StoryScript
