import StoryScript.Proofs.Body.Readable
import StoryScript.Proofs.Body.RoundTrip
import StoryScript.Proofs.Line.Section

/-!
# What a run lists first

What a run of acts lists first says which act it began with, up to the diverts of the containers that
it finishes.

* A leaf that is neither a stitch nor a divert can only be listed by a line for just that leaf
  (`Act.exists_leaf_of_head`), since everything else lists something else first or, like a closing
  brace, leaves a stack that is too low.
* A line that is skipped is blank, and outside block comments no line lists a blank leaf
  (`Act.not_blank_of_head`); so a leaf is printed on a blank line only inside a comment.
* A printed line that is read as something that begins with markup was printed for just that
  (`Act.Printable.cases_text`, `Act.Printable.exists_leaf`).
-/

namespace StoryScript

open Text

namespace Act

variable {a x : Act} {as xs : List Act} {st : List Open}

/-! ### What is listed first -/

/-- A run that lists a leaf first, neither a stitch nor a divert, begins with that leaf. -/
theorem exists_leaf_of_head {q : Leaf} (hx : x = closing → .conditional ∈ st)
    (hstitch : ∀ name, q ≠ .stitch name) (hdivert : ∀ t, q ≠ .divert t)
    (h : ((run (x :: xs) st).map Entry.plain).head? = some ⟨st.length, .leaf q⟩) :
    ∃ l, x = leaf l ∧ l.plain = q := by
  rw [List.head?_map, Option.map_eq_some_iff] at h
  obtain ⟨e, he, heq⟩ := h
  rw [run, emit, List.append_assoc] at he
  cases hflush : Open.flush x.finishes st with
  | cons e' es =>
    -- what is finished first has a divert
    rw [hflush, List.cons_append, List.head?_cons, Option.some.injEq] at he
    obtain ⟨-, o, -, t, -, hpiece⟩ :=
      Open.mem_flush (show e ∈ Open.flush x.finishes st by rw [hflush, he]; exact List.mem_cons_self)
    rw [Entry.plain, hpiece, Entry.mk.injEq] at heq
    obtain rfl : Leaf.divert t = q := by simpa [Piece.plain, Leaf.plain] using heq.2
    exact absurd rfl (hdivert t)
  | nil =>
    rw [hflush, List.nil_append] at he
    cases hp : x.piece? with
    | some p =>
      obtain rfl : ⟨(st.dropWhile x.finishes).length, p⟩ = e := by simpa [hp] using he
      have hplain : p.plain = .leaf q := congrArg Entry.piece heq
      cases p with
      | leaf l =>
        exact ⟨l, eq_leaf_of_piece? hp, by simpa [Piece.plain] using hplain⟩
      | choice text sticky bracketed => simp [Piece.plain] at hplain
      | conditional => simp [Piece.plain] at hplain
      | branch guard => simp [Piece.plain] at hplain
    | none =>
      -- a closing brace leaves a stack that is too low for the leaf
      have hclosing : x = closing := by cases x <;> simp [piece?] at hp; rfl
      subst hclosing
      have hle := head_depth_le (show (run xs (closing.next st)).head? = some e by
        simpa [piece?] using he)
      have hdepth : e.depth = st.length := congrArg Entry.depth heq
      obtain ⟨o, os, hdrop⟩ := List.exists_cons_of_ne_nil (show st.dropWhile Open.inside ≠ [] by
        intro hnil
        rw [List.dropWhile_eq_nil_iff] at hnil
        exact absurd (hnil _ (hx rfl)) (by simp [Open.inside]))
      have hlen := length_dropWhile_le Open.inside st
      have hnext : closing.next st = os := by simp [next, push, finishes, hdrop]
      rw [hnext] at hle
      rw [hdrop, List.length_cons] at hlen
      omega

/-- What one act lists is its node or the divert of a container that it finishes. -/
theorem piece_of_mem_emit {e : Entry} (h : e ∈ a.emit st) :
    (∃ t, e.piece = .leaf (.divert t)) ∨ a.piece? = some e.piece := by
  rcases List.mem_append.mp h with hflush | hnode
  · obtain ⟨-, o, -, t, -, hpiece⟩ := Open.mem_flush hflush
    exact Or.inl ⟨t, hpiece⟩
  · obtain ⟨p, hp, rfl⟩ : ∃ p, a.piece? = some p ∧ ⟨(st.dropWhile a.finishes).length, p⟩ = e := by
      simpa using hnode
    exact Or.inr hp

/-- How the acts that a line stands for begin: a closing brace closes a conditional, and a leaf is a stitch,
the line kept because nothing takes it, or the first of the leaves of the line. -/
structure Leads (st : List Open) (l : Line) (x : Act) (r : List Act) : Prop where
  closing : x = closing → .conditional ∈ st ∧ r = [] ∧ l.form = .conditionalClose
  leaf : ∀ q, x = leaf q → (∃ name, q = .stitch name) ∧ r = [] ∨
    q = .raw l.text .unrecognized ∧ r = [] ∧ l.form.isComment = false ∨
    x :: r = l.leaves.map leaf

namespace Leads

variable {l : Line} {x : Act} {r : List Act}

theorem of_ne (hclosing : x ≠ Act.closing) (hleaf : ∀ q, x ≠ Act.leaf q) : Leads st l x r :=
  ⟨fun h => absurd h hclosing, fun q h => absurd h (hleaf q)⟩

theorem stitch (name : String) : Leads st l (.leaf (.stitch name)) [] :=
  ⟨by simp, fun q hq => Or.inl ⟨⟨name, (Act.leaf.inj hq).symm⟩, rfl⟩⟩

theorem unrecognized (hcomment : l.form.isComment = false) :
    Leads st l (.leaf (.raw l.text .unrecognized)) [] :=
  ⟨by simp, fun q hq => Or.inr (Or.inl ⟨(Act.leaf.inj hq).symm, rfl, hcomment⟩)⟩

theorem exists_leaves (st : List Open) (l : Line) :
    ∃ x r, l.leaves.map Act.leaf = x :: r ∧ Leads st l x r := by
  obtain ⟨q, qs, hq⟩ := List.exists_cons_of_ne_nil (show l.leaves ≠ [] by
    unfold Line.leaves
    split <;> simp)
  exact ⟨.leaf q, qs.map .leaf, by rw [hq, List.map_cons], by simp,
    fun _ _ => Or.inr (Or.inr (by rw [hq, List.map_cons]))⟩

end Leads

/-- What a line that is not blank stands for first. -/
theorem ofWholeLine_cases (st : List Open) (branchFollows : Bool) (l : Line) :
    ∃ x r, ofWholeLine st branchFollows l = x :: r ∧ Leads st l x r := by
  have hleaves := Leads.exists_leaves st l
  -- outside a conditional the label of a branch is kept with what stands behind it; inside, it opens a chain
  by_cases hb : ∃ guard rest, l.form = .branch guard rest
  · obtain ⟨guard, rest, hform⟩ := hb
    cases hin : inConditional st with
    | false =>
      have hline : ofWholeLine st branchFollows l = l.leaves.map leaf := by
        rw [ofWholeLine, if_pos (by simp [hform, LineForm.isBranch, hin]), ofLine, hform]
        simp [hin]
      rw [hline]
      exact hleaves
    | true =>
      have hfirst : ofLine st branchFollows l = [branch guard] := by simp [ofLine, hform, hin]
      have hne : l.chain ≠ [] := by
        rw [Line.chain_of_branch hform]
        split <;> simp
      obtain ⟨l', ls, hchain⟩ := List.exists_cons_of_ne_nil hne
      have hl' : l' = l := by
        rw [Line.chain_of_branch hform] at hchain
        split at hchain <;> simp_all
      subst hl'
      rw [ofWholeLine, if_neg (by simp [hin]), hchain, ofChain, hfirst]
      exact ⟨branch guard, _, rfl, .of_ne (by simp) (by simp)⟩
  · rw [ofWholeLine_of_not_branch (LineForm.isBranch_eq_false hb)]
    have hacts := lineActs st branchFollows l
    generalize ofLine st branchFollows l = as at hacts
    cases hacts with
    | @stitch name hform => exact ⟨_, [], rfl, .stitch name⟩
    | choice hform => exact ⟨_, [], rfl, .of_ne (by simp) (by simp)⟩
    | keptChoice hform => exact ⟨_, [], rfl, .unrecognized (by simp [hform, LineForm.isComment])⟩
    | opening hform => exact ⟨_, [], rfl, .of_ne (by simp) (by simp)⟩
    | keptOpening hform => exact ⟨_, [], rfl, .unrecognized (by simp [hform, LineForm.isComment])⟩
    | branch hform => exact absurd ⟨_, _, hform⟩ hb
    | closing hform hin => exact ⟨_, [], rfl, fun _ => ⟨inConditional_iff.mp hin, rfl, hform⟩, by simp⟩
    | leaves => exact hleaves

end Act

theorem Piece.exists_leaf_of_plain {p : Piece} {q : Leaf} (h : p.plain = .leaf q) :
    ∃ l, p = .leaf l ∧ l.plain = q := by
  cases p with
  | leaf l => exact ⟨l, rfl, by simpa [plain] using h⟩
  | choice text sticky bracketed => simp [plain] at h
  | conditional => simp [plain] at h
  | branch guard => simp [plain] at h

/-! ### Leaves that print a blank line or a position -/

namespace Leaf

/-- A leaf whose line is blank. -/
def IsBlank (q : Leaf) : Prop :=
  ∃ content, (q = text content ∨ ∃ reason, q = raw content reason) ∧ stripChars content.toList = []

/-- A leaf whose line gives a position. -/
def IsPosition (q : Leaf) : Prop :=
  ∃ content, (q = text content ∨ ∃ reason, q = raw content reason) ∧
    ∃ p, (Line.ofText content).form = .position p

/-- A leaf whose line may be skipped in front of a body. -/
def IsFront (q : Leaf) : Prop := q.IsBlank ∨ q.IsPosition

theorem isBlank_plain {q : Leaf} : q.plain.IsBlank ↔ q.IsBlank := by
  cases q <;> simp [IsBlank, plain]

theorem isPosition_plain {q : Leaf} : q.plain.IsPosition ↔ q.IsPosition := by
  cases q <;> simp [IsPosition, plain]

end Leaf

namespace Line

theorem form_ofText (s : String) : (ofText s).form = formOf (stripChars s.toList) := rfl

theorem toList_text_ofText (s : String) : (ofText s).text.toList = stripChars s.toList :=
  String.toList_ofList

/-- A line that was kept is read again as it was. -/
theorem ofText_text (s : String) : ofText (ofText s).text = ofText s :=
  ofText_congr (strip_strip s)

/-- The text that a line begins with is neither blank nor a position. -/
theorem not_isBlank_of_text {s content : String} {divert : Option String} (hs : '\n' ∉ s.toList)
    (h : (ofText s).form = .text content divert) :
    ¬ (Leaf.text content).IsBlank ∧ ¬ (Leaf.text content).IsPosition := by
  have hline : '\n' ∉ stripChars s.toList := fun hc => hs (mem_of_mem_stripChars hc)
  obtain ⟨hnone, hne, ⟨behind, hsplit⟩, -⟩ := text_of_formOf (trimmed_stripChars _) hline h
  have hhead : ∀ c ∈ content.toList.head?, isBlank c = false := by
    intro c hc
    refine (trimmed_stripChars s.toList).1 c ?_
    rw [hsplit, List.head?_append, hc]
    rfl
  obtain ⟨bs, hrest, hbs⟩ := exists_stripChars content.toList
  rw [skipBlanks_of_head hhead] at hrest
  constructor
  · rintro ⟨c, hc, hblank⟩
    obtain rfl : content = c := by simpa using hc
    rw [hblank, List.nil_append] at hrest
    obtain ⟨a, as, ha⟩ := List.exists_cons_of_ne_nil hne
    have hfirst := hbs a (by rw [← hrest, ha]; exact List.mem_cons_self)
    rw [hhead a (by rw [ha]; rfl)] at hfirst
    exact Bool.false_ne_true hfirst
  · rintro ⟨c, hc, p, hp⟩
    obtain rfl : content = c := by simpa using hc
    have hcontent : '\n' ∉ stripChars content.toList := by
      intro hc
      refine hline ?_
      rw [hsplit]
      exact List.mem_append_left _ (mem_of_mem_stripChars hc)
    have hslashes : ['/', '/'] <+: stripChars content.toList := by
      have hrec := recognised_of_formOf (trimmed_stripChars _) hcontent hp (by simp) (by simp)
      exact hrec.1
    obtain ⟨rest, hrest'⟩ := hslashes
    have hcomment := hnone lineComment? (by simp [patterns])
    have hlit : lit? "//" (stripChars s.toList) = some (rest ++ (bs ++ behind)) := by
      rw [lit?_eq_some_iff, hsplit, hrest, ← hrest']
      simp
    simp [lineComment?, hlit] at hcomment

/-- A line stands for one leaf, or for a text and the divert that ends it. -/
theorem leaves_cases (l : Line) : (∃ q, l.leaves = [q]) ∨
    ∃ content t, l.form = .text content (some t) ∧ l.leaves = [.text content, .divert t] := by
  unfold leaves
  split
  · exact Or.inl ⟨_, rfl⟩
  · next content t hform => exact Or.inr ⟨content, t, hform, rfl⟩
  all_goals exact Or.inl ⟨_, rfl⟩

/-- A line is kept as it stands or its first leaf holds no blank text and no position. -/
theorem head_leaves {s : String} (hs : '\n' ∉ s.toList) {q : Leaf} {qs : List Leaf}
    (h : (ofText s).leaves = q :: qs) :
    (∃ reason, q = .raw (ofText s).text reason) ∨ ¬ q.IsBlank ∧ ¬ q.IsPosition := by
  unfold leaves at h
  split at h
  · next content hform =>
    obtain rfl : Leaf.text content = q := by simpa using (List.cons.inj h).1
    exact Or.inr (not_isBlank_of_text hs hform)
  · next content t hform =>
    obtain rfl : Leaf.text content = q := by simpa using (List.cons.inj h).1
    exact Or.inr (not_isBlank_of_text hs hform)
  case h_10 => exact Or.inl ⟨_, (List.cons.inj h).1.symm⟩
  all_goals
    rw [← (List.cons.inj h).1]
    exact Or.inr ⟨by simp [Leaf.IsBlank], by simp [Leaf.IsPosition]⟩

end Line

namespace Act

/-- What a line outside block comments stands for first is not blank, and it is a position only
where the line is one. -/
theorem first_leaf {s : String} (hs : '\n' ∉ s.toList) (hblank : (Line.ofText s).form.isBlank = false)
    {branchFollows : Bool} {q : Leaf} {r : List Act}
    (h : ofWholeLine st branchFollows (Line.ofText s) = leaf q :: r) :
    ¬ q.IsBlank ∧ (q.IsPosition → (∃ p, (Line.ofText s).form = .position p) ∧ r = []) := by
  have hraw : ∀ reason, ¬ (Leaf.raw (Line.ofText s).text reason).IsBlank := by
    rintro reason ⟨content, hcontent, hnil⟩
    obtain rfl : (Line.ofText s).text = content := by simpa using hcontent
    rw [Line.toList_text_ofText, stripChars_stripChars] at hnil
    rw [Line.form_ofText, hnil] at hblank
    exact absurd hblank (by decide)
  have hposition : ∀ reason, (Leaf.raw (Line.ofText s).text reason).IsPosition →
      ∃ p, (Line.ofText s).form = .position p := by
    rintro reason ⟨content, hcontent, p, hp⟩
    obtain rfl : (Line.ofText s).text = content := by simpa using hcontent
    rw [Line.ofText_text] at hp
    exact ⟨p, hp⟩
  obtain ⟨x, r', hxr, hleads⟩ := ofWholeLine_cases st branchFollows (Line.ofText s)
  rw [h, List.cons.injEq] at hxr
  obtain ⟨rfl, rfl⟩ := hxr
  -- a stitch is neither; what is not recognised is kept whole; all else lists the leaves of the line
  rcases hleads.leaf q rfl with ⟨⟨name, rfl⟩, -⟩ | ⟨rfl, -, hcomment⟩ | hleaves
  · exact ⟨by simp [Leaf.IsBlank], by simp [Leaf.IsPosition]⟩
  · refine ⟨hraw _, fun hp => ?_⟩
    obtain ⟨p, hform⟩ := hposition _ hp
    rw [hform] at hcomment
    exact absurd hcomment (by simp [LineForm.isComment])
  · obtain ⟨qs, hqs, rfl⟩ : ∃ qs, (Line.ofText s).leaves = q :: qs ∧ r = qs.map leaf := by
      obtain ⟨q', qs, hqs⟩ := List.exists_cons_of_ne_nil (show (Line.ofText s).leaves ≠ [] by
        rintro hnil
        simp [hnil] at hleaves)
      rw [hqs, List.map_cons, List.cons.injEq, Act.leaf.injEq] at hleaves
      exact ⟨qs, by rw [hqs, hleaves.1], hleaves.2⟩
    rcases Line.head_leaves hs hqs with ⟨reason, rfl⟩ | ⟨hnot, hnotpos⟩
    · refine ⟨hraw _, fun hp => ?_⟩
      obtain ⟨p, hform⟩ := hposition _ hp
      refine ⟨⟨p, hform⟩, ?_⟩
      have hone : (Line.ofText s).leaves = [.raw (Line.ofText s).text .comment] := by
        simp [Line.leaves, hform, LineForm.isComment]
      rw [hone, List.cons.injEq] at hqs
      rw [← hqs.2, List.map_nil]
    · exact ⟨hnot, fun hp => absurd hp hnotpos⟩

/-- Outside block comments no line lists a blank leaf first. -/
theorem not_blank_of_head {ls : List String} (hls : ∀ s ∈ ls, '\n' ∉ s.toList) {e : Entry}
    (he : (run (ofLines st (Line.section_ (Line.readFrom false ls))) st).head? = some e) {q : Leaf}
    (hq : e.piece = .leaf q) : ¬ q.IsBlank := by
  have hflush : ∀ {st : List Open}, (run [] st).head? = some e → ¬ q.IsBlank := by
    intro st he
    obtain ⟨-, o, -, t, -, hpiece⟩ := Open.mem_flush (List.mem_of_head? he)
    rw [hpiece, Piece.leaf.injEq] at hq
    rw [← hq]
    simp [Leaf.IsBlank]
  -- the first line that lists anything decides; in front of it are blank lines and closing braces
  induction ls generalizing st with
  | nil => exact hflush he
  | cons s ls ih =>
    rw [List.forall_mem_cons] at hls
    rw [Line.readFrom_false_cons] at he
    cases hends : (Line.ofText s).form.endsKnot with
    | true =>
      rw [Line.section_cons_of_endsKnot hends] at he
      exact hflush he
    | false =>
      rw [Line.section_cons hends, ofLines] at he
      cases hblank : (Line.ofText s).form.isBlank with
      | true =>
        have hflag : decide ((Line.ofText s).form = .blockComment true) = false := by
          rw [LineForm.isBlank_iff.mp hblank]
          rfl
        rw [hblank, if_pos rfl, hflag] at he
        exact ih hls.2 he
      | false =>
        rw [hblank, if_neg (by simp)] at he
        obtain ⟨x, r, hxr, hleads⟩ := ofWholeLine_cases st
          (branchFirst (Line.section_ (Line.readFrom
            (decide ((Line.ofText s).form = .blockComment true)) ls))) (Line.ofText s)
        rw [hxr, List.cons_append] at he
        rcases head_run_cons he with hemit | ⟨hpiece, hrest⟩
        · rcases piece_of_mem_emit hemit with ⟨t, ht⟩ | hp
          · rw [ht, Piece.leaf.injEq] at hq
            rw [← hq]
            simp [Leaf.IsBlank]
          · rw [hq] at hp
            obtain rfl := eq_leaf_of_piece? hp
            exact (first_leaf hls.1 hblank hxr).1
        · -- a closing brace lists nothing itself
          obtain rfl := eq_closing_of_piece? hpiece
          obtain ⟨-, rfl, hform⟩ := hleads.closing rfl
          have hflag : decide ((Line.ofText s).form = .blockComment true) = false := by
            rw [hform]
            rfl
          rw [hflag] at hrest
          exact ih hls.2 hrest

theorem not_blank_of_plain_head {ls : List String} (hls : ∀ s ∈ ls, '\n' ∉ s.toList) {n : Nat}
    {q : Leaf} (h : ((run (ofLines st (Line.section_ (Line.readFrom false ls))) st).map
      Entry.plain).head? = some ⟨n, .leaf q⟩) : ¬ q.IsBlank := by
  rw [List.head?_map, Option.map_eq_some_iff] at h
  obtain ⟨e, he, heq⟩ := h
  obtain ⟨l, hl, hplain⟩ := Piece.exists_leaf_of_plain (congrArg Entry.piece heq)
  rw [← hplain, Leaf.isBlank_plain]
  exact not_blank_of_head hls he hl

/-! ### How printed lines are read -/

/-- A line that begins like markup, neither with a blank nor with a slash. -/
def BeginsMarkup (s : String) : Prop :=
  ∃ c cs, s.toList = c :: cs ∧ isBlank c = false ∧ c ≠ '/'

theorem BeginsMarkup.append {s : String} (h : BeginsMarkup s) (t : String) : BeginsMarkup (s ++ t) := by
  obtain ⟨c, cs, hs, hc, hne⟩ := h
  exact ⟨c, cs ++ t.toList, by rw [String.toList_append, hs, List.cons_append], hc, hne⟩

/-- A leaf is its text, or its line begins like markup. -/
theorem leaf_cases (q : Leaf) :
    (∃ content, q.render = content ∧ (q = .text content ∨ ∃ reason, q = .raw content reason)) ∨
      BeginsMarkup q.render := by
  cases q with
  | text content => exact Or.inl ⟨content, rfl, Or.inl rfl⟩
  | raw content reason => exact Or.inl ⟨content, rfl, Or.inr ⟨reason, rfl⟩⟩
  | media kind filename extension =>
    have hbegins : BeginsMarkup "<" := ⟨'<', [], rfl, by decide, by decide⟩
    exact Or.inr ((((hbegins.append _).append _).append _).append _)
  | fakeType d =>
    have hbegins : BeginsMarkup "<fake-type-" := ⟨'<', _, rfl, by decide, by decide⟩
    exact Or.inr ((hbegins.append _).append _)
  | wait d =>
    have hbegins : BeginsMarkup "<wait-" := ⟨'<', _, rfl, by decide, by decide⟩
    exact Or.inr ((hbegins.append _).append _)
  | stitch name =>
    have hbegins : BeginsMarkup "= " := ⟨'=', _, rfl, by decide, by decide⟩
    exact Or.inr (hbegins.append _)
  | divert target =>
    have hbegins : BeginsMarkup "-> " := ⟨'-', _, rfl, by decide, by decide⟩
    exact Or.inr (hbegins.append _)
  | flagOperation verb flag =>
    have hbegins : BeginsMarkup "~ " := ⟨'~', _, rfl, by decide, by decide⟩
    exact Or.inr ((((hbegins.append _).append _).append _).append _)
  | sideStory name =>
    have hbegins : BeginsMarkup "<side-story-" := ⟨'<', _, rfl, by decide, by decide⟩
    exact Or.inr ((hbegins.append _).append _)
  | transition title subtitle =>
    have hbegins : BeginsMarkup "~ ShowCustomTransition(\"" := ⟨'~', _, rfl, by decide, by decide⟩
    exact Or.inr ((((hbegins.append _).append _).append _).append _)

/-- The line of an act is the text of a leaf or begins like markup. -/
theorem Printable.cases_text (h : a.Printable) :
    (∃ q content, a = leaf q ∧ q.render = content ∧ (q = .text content ∨ ∃ reason, q = .raw content reason)) ∨
      BeginsMarkup a.text := by
  cases a with
  | leaf q =>
    obtain ⟨content, hrender, hq⟩ | hbegins := leaf_cases q
    · exact Or.inl ⟨q, content, rfl, hrender, hq⟩
    · exact Or.inr hbegins
  | choice depth head =>
    right
    obtain ⟨hread, hdivert⟩ := readable_choice.mp h.toReadable
    obtain ⟨n, rfl⟩ := Nat.exists_eq_succ_of_ne_zero (h.depth depth head rfl).ne'
    obtain ⟨t, -, hsome, hhead⟩ := exists_divert hdivert
    have htext := ChoiceHead.toList_render head n t
    rw [hsome, ← hhead] at htext
    obtain ⟨ms, hms⟩ := Line.exists_markers head.marker n
    rw [hms, List.cons_append] at htext
    refine ⟨head.marker, _, htext, ChoiceHead.isBlank_marker, ?_⟩
    unfold ChoiceHead.marker
    split <;> decide
  | opening => exact Or.inr ⟨_, [], rfl, by decide, by decide⟩
  | branch guard =>
    right
    refine ⟨'-', ' ' :: (guard.render.toList ++ [':']), ?_, by decide, by decide⟩
    simp [Guard.renderLine]
  | closing => exact Or.inr ⟨_, [], rfl, by decide, by decide⟩

/-- A line that begins like markup is neither blank nor a position. -/
theorem BeginsMarkup.form {s : String} (h : BeginsMarkup s) (hs : '\n' ∉ s.toList) :
    (Line.ofText s).form ≠ .blank ∧ ∀ p, (Line.ofText s).form ≠ .position p := by
  obtain ⟨c, cs, h, hc, hne⟩ := h
  have hline : '\n' ∉ stripChars s.toList := fun hnl => hs (mem_of_mem_stripChars hnl)
  obtain ⟨bs, hbs, hblank⟩ := exists_stripChars s.toList
  rw [h, skipBlanks_of_head (by simpa using hc), ← h] at hbs
  constructor
  · intro hform
    rw [Line.eq_nil_of_blank (trimmed_stripChars _) hline hform, List.nil_append, h] at hbs
    have hfirst := hblank c (by rw [← hbs]; exact List.mem_cons_self)
    rw [hc] at hfirst
    exact Bool.false_ne_true hfirst
  · intro p hform
    -- a position is written behind two slashes
    obtain ⟨⟨rest, hrest⟩, -⟩ : ['/', '/'] <+: stripChars s.toList ∧ p.equal p = true :=
      Line.recognised_of_formOf (trimmed_stripChars _) hline hform (by simp) (by simp)
    rw [← hrest, h, List.cons_append, List.cons_append, List.cons.injEq] at hbs
    exact hne hbs.1

/-- Only a blank leaf is printed on a blank line. -/
theorem Printable.isBlank (h : a.Printable) (hform : (Line.ofText a.text).form = .blank) :
    ∃ q, a = leaf q ∧ q.IsBlank := by
  rcases h.cases_text with ⟨q, content, rfl, hrender, hq⟩ | hbegins
  · refine ⟨q, rfl, content, hq, ?_⟩
    have hnil := Line.eq_nil_of_blank (trimmed_stripChars _)
      (fun hnl => h.line (mem_of_mem_stripChars hnl)) hform
    rwa [text_leaf, hrender] at hnil
  · exact absurd hform (hbegins.form h.line).1

/-- Only a leaf that gives a position is printed on a line that does. -/
theorem Printable.isPosition (h : a.Printable) {p : Position}
    (hform : (Line.ofText a.text).form = .position p) : ∃ q, a = leaf q ∧ q.IsPosition := by
  rcases h.cases_text with ⟨q, content, rfl, hrender, hq⟩ | hbegins
  · rw [text_leaf, hrender] at hform
    exact ⟨q, rfl, content, hq, p, hform⟩
  · exact absurd hform ((hbegins.form h.line).2 p)

/-- Only a leaf that is neither a stitch nor a divert is printed on a line that is skipped or ends
the knot. -/
theorem Printable.exists_leaf (h : a.Printable)
    (hform : (Line.ofText a.text).form.endsKnot = true ∨ (Line.ofText a.text).form.isBlank = true) :
    ∃ q, a = leaf q ∧ (∀ name, q ≠ .stitch name) ∧ ∀ t, q ≠ .divert t := by
  cases a with
  | leaf q =>
    refine ⟨q, rfl, ?_, ?_⟩
    · rintro name rfl
      have hname : IsName name.toList := readable_leaf.mp h.toReadable
      have hread := Line.form_stitch hname
      rw [String.ofList_toList] at hread
      change (Line.ofText (leaf (.stitch name)).text).form = _ at hread
      rw [hread] at hform
      simp [LineForm.endsKnot, LineForm.isBlank] at hform
    · rintro t rfl
      have ht : IsTarget t.toList := readable_leaf.mp h.toReadable
      have hread := Line.form_renderDivert ht
      rw [String.ofList_toList, ← text_divert] at hread
      rw [hread] at hform
      simp [LineForm.endsKnot, LineForm.isBlank] at hform
  | choice depth head =>
    obtain ⟨hread, hdivert⟩ := readable_choice.mp h.toReadable
    obtain ⟨n, rfl⟩ := Nat.exists_eq_succ_of_ne_zero (h.depth depth head rfl).ne'
    obtain ⟨t, ht, hsome, hhead⟩ := exists_divert hdivert
    have hchoice := Line.form_choice hread n ht
    rw [hsome, ← hhead, ← text_choice] at hchoice
    rw [hchoice, Line.choiceForm] at hform
    split at hform <;> simp [LineForm.endsKnot, LineForm.isBlank] at hform
  | opening =>
    rw [form_opening] at hform
    simp [LineForm.endsKnot, LineForm.isBlank] at hform
  | branch guard =>
    have hbranch := Line.form_branch (readable_branch.mp h.toReadable)
    rw [← text_branch] at hbranch
    rw [hbranch] at hform
    simp [LineForm.endsKnot, LineForm.isBlank] at hform
  | closing =>
    rw [form_closing] at hform
    simp [LineForm.endsKnot, LineForm.isBlank] at hform

end Act

end StoryScript
