import StoryScript.Proofs.Line.Ending
import StoryScript.Proofs.Line.Readable
import StoryScript.Session.Edit
import Mathlib.Data.List.Infix

/-!
# Lines in which a name is changed

Renaming a knot changes its name behind arrows, wherever in a line these stand. Where every arrow to the
name ends its line (`Line.ArrowsEnd`), the changed line is read as the line was, with the target that leads
to the name led to the new one and nothing else changed (`Line.reworded_redirectLine`).

Without the condition a renaming changes dialogue, conditions and quoted texts that hold an arrow.
-/

namespace StoryScript

open Text

/-- Where a target leads once the knot `old` is called `new`. -/
def retarget (old new target : String) : String :=
  if knotPart target = old then String.ofList (new.toList ++ target.toList.dropWhile (· ≠ '.'))
  else target

namespace Session

variable {old new : List Char}

/-! ### Arrows to a name -/

/-- An arrow to a whole name. -/
theorem arrowTo?_of_isName (hold : IsName old) {bs rest : List Char} (hbs : ∀ c ∈ bs, isBlank c = true)
    (hrest : ∀ c ∈ rest.head?, isWord c = false) :
    arrowTo? old ('-' :: '>' :: (bs ++ old ++ rest)) = some ('-' :: '>' :: bs) := by
  have hhead : ∀ c ∈ (old ++ rest).head?, isBlank c = false := by
    intro c hc
    rw [List.head?_append_of_ne_nil _ hold.ne_nil] at hc
    exact hold.trimmed.1 c hc
  have hskip : skipBlanks (bs ++ old ++ rest) = old ++ rest := by
    rw [List.append_assoc, skipBlanks_append_of_blank hbs, skipBlanks_of_head hhead]
  have htake : (bs ++ old ++ rest).takeWhile isBlank = bs := by
    rw [List.append_assoc]
    exact (takeWhile_dropWhile_append hbs hhead).1
  have hlit : lit? "->" ('-' :: '>' :: (bs ++ old ++ rest)) = some (bs ++ old ++ rest) := rfl
  have hprefix : old.isPrefixOf? (old ++ rest) = some rest := by
    have h := lit?_append (String.ofList old) rest
    rwa [lit?, String.toList_ofList] at h
  have hword : rest.head?.any isWord = false := by
    cases hc : rest.head? with
    | none => rfl
    | some c => exact hrest c hc
  rw [arrowTo?, hlit]
  simp only [Option.bind_eq_bind, Option.bind_some, hskip, hprefix, hword, htake]
  rfl

/-- What an arrow to a whole name is. -/
theorem arrowTo?_eq_some_iff (hold : IsName old) {cs arrow : List Char} :
    arrowTo? old cs = some arrow ↔ ∃ bs rest, cs = '-' :: '>' :: (bs ++ old ++ rest) ∧
      arrow = '-' :: '>' :: bs ∧ (∀ c ∈ bs, isBlank c = true) ∧
      ∀ c ∈ rest.head?, isWord c = false := by
  constructor
  · exact arrowTo?_sound
  · rintro ⟨bs, rest, rfl, rfl, hbs, hrest⟩
    exact arrowTo?_of_isName hold hbs hrest

/-- Blanks go on no word. -/
theorem head?_append_blank {rest ds : List Char} (hrest : ∀ c ∈ rest.head?, isWord c = false)
    (hds : ∀ c ∈ ds, isBlank c = true) : ∀ c ∈ (rest ++ ds).head?, isWord c = false := by
  intro c hc
  cases rest with
  | nil =>
    by_contra hword
    have hblank := hds c (List.mem_of_head? hc)
    rw [isBlank_of_isWord (by simpa using hword)] at hblank
    exact Bool.false_ne_true hblank
  | cons d rest => exact hrest c hc

/-- Blanks behind a text neither make nor hide an arrow to a name. -/
theorem arrowTo?_append_blank (hold : IsName old) {m ds : List Char} (hds : ∀ c ∈ ds, isBlank c = true) :
    arrowTo? old (m ++ ds) = arrowTo? old m := by
  refine Option.ext fun arrow => ?_
  rw [arrowTo?_eq_some_iff hold, arrowTo?_eq_some_iff hold]
  constructor
  · rintro ⟨bs, rest, hm, rfl, hbs, hrest⟩
    -- the arrow and the name end in a character that is no blank, so they lie within the text
    obtain ⟨a, rfl, rfl⟩ : ∃ a, m = '-' :: '>' :: (bs ++ old) ++ a ∧ rest = a ++ ds := by
      rcases List.append_eq_append_iff.mp (hm.trans (show _ = '-' :: '>' :: (bs ++ old) ++ rest by simp)) with
        ⟨a, harrow, hds'⟩ | ⟨a, hm', hrest'⟩
      · rcases List.eq_nil_or_concat a with rfl | ⟨a', c, rfl⟩
        · exact ⟨[], by rw [harrow]; simp, by simpa using hds'.symm⟩
        · have hlast : c ∈ old.getLast? := by
            have h := congrArg List.getLast? harrow
            rw [show '-' :: '>' :: (bs ++ old) = ('-' :: '>' :: bs) ++ old by simp,
              List.getLast?_append_of_ne_nil _ hold.ne_nil] at h
            rw [h]
            simp
          have hblank := hds c (by rw [hds']; simp)
          rw [hold.trimmed.2 c hlast] at hblank
          exact absurd hblank (by simp)
      · exact ⟨a, hm', hrest'⟩
    refine ⟨bs, a, by simp, rfl, hbs, fun c hc => hrest c ?_⟩
    rw [Option.mem_def] at hc ⊢
    rw [List.head?_append, hc]
    rfl
  · rintro ⟨bs, rest, rfl, rfl, hbs, hrest⟩
    exact ⟨bs, rest ++ ds, by simp, rfl, hbs, head?_append_blank hrest hds⟩

/-! ### What a redirected text is -/

/-- An arrow to the old name is changed, and what follows it goes on. -/
theorem redirect_arrow (hold : IsName old) {bs rest : List Char} (hbs : ∀ c ∈ bs, isBlank c = true)
    (hrest : ∀ c ∈ rest.head?, isWord c = false) :
    redirect old new 0 ('-' :: '>' :: (bs ++ old ++ rest)) =
      '-' :: '>' :: (bs ++ new ++ redirect old new 0 rest) := by
  rw [redirect, arrowTo?_of_isName hold hbs hrest]
  simp only
  rw [redirect_skip_arrow]
  rfl

theorem redirect_cons {c : Char} {cs : List Char} (h : arrowTo? old (c :: cs) = none) :
    redirect old new 0 (c :: cs) = c :: redirect old new 0 cs := by
  rw [redirect, h]

/-- A text in which no arrow to the old name begins stays in front of what is redirected. -/
theorem redirect_append {as cs : List Char}
    (h : ∀ q, q <:+ as → q ≠ [] → arrowTo? old (q ++ cs) = none) :
    redirect old new 0 (as ++ cs) = as ++ redirect old new 0 cs := by
  induction as with
  | nil => rfl
  | cons a as ih =>
    have hhere := h (a :: as) (List.suffix_refl _) (by simp)
    rw [List.cons_append] at hhere ⊢
    rw [redirect_cons hhere, ih fun q hq => h q (hq.trans (List.suffix_cons a as)), List.cons_append]

theorem redirect_of_not_mem {cs : List Char} (h : '-' ∉ cs) : redirect old new 0 cs = cs :=
  (redirected_redirect cs).eq_of_not_mem h

/-- Blanks in front and behind are not redirected. -/
theorem redirect_blanks (hold : IsName old) {as ds : List Char} (has : ∀ c ∈ as, isBlank c = true)
    (hds : ∀ c ∈ ds, isBlank c = true) (m : List Char) :
    redirect old new 0 (as ++ m ++ ds) = as ++ redirect old new 0 m ++ ds := by
  have hfront : ∀ cs, redirect old new 0 (as ++ cs) = as ++ redirect old new 0 cs := by
    intro cs
    refine redirect_append fun q hq hne => ?_
    obtain ⟨c, q', rfl⟩ := List.exists_cons_of_ne_nil hne
    have hc : isBlank c = true := has c (hq.subset List.mem_cons_self)
    by_contra hsome
    obtain ⟨arrow, harrow⟩ := Option.ne_none_iff_exists'.mp hsome
    obtain ⟨bs, rest, hcs, -⟩ := (arrowTo?_eq_some_iff hold).mp harrow
    obtain rfl : c = '-' := (List.cons.inj hcs).1
    exact absurd hc (by decide)
  have hbehind : redirect old new 0 (m ++ ds) = redirect old new 0 m ++ ds := by
    -- the arrows of the text are those of the text with blanks behind it
    induction hn : m.length using Nat.strong_induction_on generalizing m with
    | _ n ih =>
      cases m with
      | nil =>
        rw [List.nil_append, redirect_of_not_mem (Line.dash_not_mem_of_blank hds)]
        rfl
      | cons c m =>
        cases harrow : arrowTo? old (c :: m) with
        | none =>
          have harrow' : arrowTo? old (c :: (m ++ ds)) = none := by
            rw [← List.cons_append, arrowTo?_append_blank hold hds, harrow]
          rw [List.cons_append, redirect_cons harrow', redirect_cons harrow,
            ih m.length (by simp [← hn]) m rfl, List.cons_append]
        | some arrow =>
          obtain ⟨bs, rest, hcs, -, hbs, hrest⟩ := (arrowTo?_eq_some_iff hold).mp harrow
          have hlength : rest.length < n := by
            rw [← hn, hcs]
            simp only [List.length_cons, List.length_append]
            omega
          have happend : c :: m ++ ds = '-' :: '>' :: (bs ++ old ++ (rest ++ ds)) := by
            rw [hcs]
            simp
          rw [happend, hcs, redirect_arrow hold hbs (head?_append_blank hrest hds),
            redirect_arrow hold hbs hrest, ih rest.length hlength rest rfl]
          simp
  rw [List.append_assoc, hfront, hbehind, List.append_assoc]

end Session

/-! ### Targets -/

section Targets

variable {old new target : String}

theorem head?_dropWhile_dot (cs : List Char) : ∀ c ∈ (cs.dropWhile (· ≠ '.')).head?, c = '.' :=
  fun _ hc => by simpa using of_mem_head?_dropWhile hc

/-- A target that leads to the name begins with it; a stitch may follow. -/
theorem exists_of_knotPart (new : String) (h : knotPart target = old) : ∃ tail,
    target.toList = old.toList ++ tail ∧ (retarget old new target).toList = new.toList ++ tail ∧
      ∀ c ∈ tail.head?, c = '.' := by
  refine ⟨target.toList.dropWhile (· ≠ '.'), ?_, ?_, head?_dropWhile_dot _⟩
  · rw [← h, knotPart, String.toList_ofList, List.takeWhile_append_dropWhile]
  · rw [retarget, if_pos h, String.toList_ofList]

theorem retarget_of_ne (h : knotPart target ≠ old) : retarget old new target = target := if_neg h

theorem dot_not_mem_of_isName {w : List Char} (hw : IsName w) : '.' ∉ w := hw.not_mem isWord_dot

/-- A name, and what follows it from a dot on. -/
theorem takeWhile_dropWhile_dot {w v : List Char} (hw : IsName w) (hv : ∀ c ∈ v.head?, c = '.') :
    (w ++ v).takeWhile (· ≠ '.') = w ∧ (w ++ v).dropWhile (· ≠ '.') = v := by
  refine takeWhile_dropWhile_append (p := fun c => decide (c ≠ '.')) (fun c hc => ?_) fun c hc => ?_
  · simp only [decide_eq_true_eq]
    rintro rfl
    exact dot_not_mem_of_isName hw hc
  · simp [hv c hc]

/-- A target keeps its form when it is led to another name. -/
theorem isTarget_retarget (hnew : IsName new.toList) (h : IsTarget target.toList) :
    IsTarget (retarget old new target).toList := by
  by_cases hknot : knotPart target = old
  · obtain ⟨tail, htarget, hretarget, htail⟩ := exists_of_knotPart new hknot
    rw [hretarget]
    cases tail with
    | nil =>
      rw [List.append_nil]
      exact Or.inl hnew
    | cons c tail =>
      obtain rfl : c = '.' := htail c rfl
      rcases h with hname | ⟨knot, stitch, hknot', hstitch, heq⟩
      · exact absurd (show '.' ∈ target.toList by rw [htarget]; simp) (dot_not_mem_of_isName hname)
      · obtain ⟨htake, hdrop⟩ := takeWhile_dropWhile_dot (v := '.' :: stitch) hknot' (by simp)
        have hold : IsName old.toList := by
          rw [← hknot, knotPart, String.toList_ofList, heq, htake]
          exact hknot'
        -- the stitch is what follows the one dot
        have htail' : '.' :: tail = '.' :: stitch := by
          rw [← (takeWhile_dropWhile_dot (v := '.' :: tail) hold (by simp)).2, ← htarget, heq, hdrop]
        exact Or.inr ⟨new.toList, tail, hnew, by rw [(List.cons.inj htail').2]; exact hstitch, rfl⟩
  · rwa [retarget_of_ne hknot]

end Targets

/-! ### Lines -/

namespace Line

open Session

variable {old new : String} {f bs t : List Char}

/-- An arrow to a target of another knot is no arrow to the name. -/
theorem arrowTo?_of_knotPart_ne (hold : IsName old.toList) (ht : IsTarget t)
    (hbs : ∀ c ∈ bs, isBlank c = true) (hknot : knotPart (String.ofList t) ≠ old) :
    arrowTo? old.toList ('-' :: '>' :: (bs ++ t)) = none := by
  by_contra hsome
  obtain ⟨arrow, harrow⟩ := Option.ne_none_iff_exists'.mp hsome
  obtain ⟨bs', rest, hcs, -, hbs', hrest⟩ := (arrowTo?_eq_some_iff hold).mp harrow
  have hhead : ∀ c ∈ (old.toList ++ rest).head?, isBlank c = false := fun c hc =>
    hold.trimmed.1 c (by rwa [List.head?_append_of_ne_nil _ hold.ne_nil] at hc)
  -- behind the blanks the target begins with the name
  have hskip := congrArg skipBlanks (List.cons.inj (List.cons.inj hcs).2).2
  rw [skipBlanks_append_of_blank hbs, skipBlanks_of_head ht.trimmed.1, List.append_assoc,
    skipBlanks_append_of_blank hbs', skipBlanks_of_head hhead] at hskip
  have hdot : ∀ c ∈ rest.head?, c = '.' := by
    intro c hc
    have hmem : c ∈ t := by
      rw [hskip]
      exact List.mem_append_right _ (List.mem_of_head? hc)
    rcases ht.spec.2.1 c hmem with hword | hdot
    · rw [hrest c hc] at hword
      exact absurd hword (by simp)
    · exact hdot
  refine hknot ?_
  rw [knotPart, String.toList_ofList, hskip, (takeWhile_dropWhile_dot hold hdot).1, String.ofList_toList]

/-- The arrow that ends a line is changed if it leads to the name, whatever stands behind a dot. -/
theorem redirect_toArrow (hold : IsName old.toList) (ht : IsTarget t) (hbs : ∀ c ∈ bs, isBlank c = true)
    (hf : ∀ q, q <:+ f → q ≠ [] → arrowTo? old.toList (toArrow q bs t) = none) :
    redirect old.toList new.toList 0 (toArrow f bs t) =
      toArrow f bs (retarget old new (String.ofList t)).toList := by
  have hdash : '-' ∉ t := fun hmem =>
    (ht.spec.2.1 '-' hmem).elim (fun h => absurd h (by decide)) fun h => absurd h (by decide)
  rw [toArrow, redirect_append hf, toArrow]
  congr 1
  -- an arrow to another knot is no arrow to the name, though its target may begin with it
  by_cases hknot : knotPart (String.ofList t) = old
  · obtain ⟨tail, htarget, hretarget, htail⟩ := exists_of_knotPart new hknot
    rw [String.toList_ofList] at htarget
    have hword : ∀ c ∈ tail.head?, isWord c = false := fun c hc => by rw [htail c hc]; exact isWord_dot
    have hdashTail : '-' ∉ tail := fun hmem => hdash (htarget ▸ List.mem_append_right _ hmem)
    rw [hretarget, htarget, ← List.append_assoc, redirect_arrow hold hbs hword,
      redirect_of_not_mem hdashTail, List.append_assoc]
  · have hnone := arrowTo?_of_knotPart_ne hold ht hbs hknot
    have hbehind : '-' ∉ '>' :: (bs ++ t) := by
      simp [dash_not_mem_of_blank hbs, hdash]
    rw [retarget_of_ne hknot, String.toList_ofList, redirect_cons hnone, redirect_of_not_mem hbehind]

/-! ### Lines without an arrow at the end -/

/-- What is left of a line without blanks at its ends, from any character that is no blank on. -/
theorem stripChars_of_suffix {q m : List Char} (hm : Trimmed m) (hq : q <:+ m) :
    stripChars q = skipBlanks q := by
  obtain ⟨front, hfront⟩ := (skipBlanks_suffix q).trans hq
  refine dropTrailingBlanks_of_last fun c hc => hm.2 c ?_
  rw [Option.mem_def] at hc ⊢
  rw [← hfront, List.getLast?_append, hc]
  rfl

section Idle

variable {m : List Char} (hidle : ∀ q, q <:+ m → arrowTarget? q = none)
include hidle

theorem dividedByArrow?_of_idle {g : List Char} (hg : g <:+ m) : dividedByArrow? g = none := by
  by_contra hne
  obtain ⟨⟨front, t⟩, h⟩ := Option.ne_none_iff_exists'.mp hne
  obtain ⟨rest, rfl, harrow⟩ := exists_of_shortest h
  rw [hidle _ (((skipBlanks_suffix _).trans (List.suffix_append _ _)).trans hg)] at harrow
  simp at harrow

/-- Where no arrow ends a line, no target is taken out of it. -/
theorem reword_formOf_of_idle (hm : Trimmed m) {w : Rewording}
    (hraw : ∀ q, q <:+ m → w.raw (String.ofList q) = String.ofList q) :
    (formOf m).reword w = formOf m := by
  rcases cases_of_formOf (rfl : formOf m = formOf m) with ⟨-, h⟩ | ⟨p, hp, h⟩ | ⟨-, -, h⟩
  · rw [h]
    rfl
  · generalize formOf m = form at h ⊢
    -- rewording changes what only six patterns read; of these, diverts and choices take targets from an arrow
    by_cases hopen : p ∈ openPatterns
    · simp only [openPatterns, List.mem_cons, List.not_mem_nil, or_false] at hopen
      rcases hopen with rfl | rfl | rfl | rfl | rfl | rfl
      · obtain ⟨_, -, hform⟩ := Option.bind_eq_some_iff.mp h
        rw [← Option.some.inj hform]
        rfl
      · obtain ⟨_, -, hform⟩ := Option.bind_eq_some_iff.mp h
        rw [← Option.some.inj hform]
        rfl
      · rw [choice?_eq] at h
        obtain ⟨sticky, -, hform⟩ := Option.bind_eq_some_iff.mp h
        split at hform
        · have hdivert : (choiceHead sticky (m.dropWhile isMarker)).divert = none := by
            rw [choiceHead, dividedByArrow?_of_idle hidle (List.dropWhile_suffix _)]
            simp only
            split <;> rfl
          rw [← Option.some.inj hform, choiceForm]
          split
          · rfl
          · rw [LineForm.reword, ChoiceHead.reword, hdivert, Option.map_none, ← hdivert]
        · simp at hform
      · rw [divert?, hidle m (List.suffix_refl m)] at h
        simp at h
      · obtain ⟨⟨c, r⟩, hparts, rfl⟩ := Option.map_eq_some_iff.mp h
        have hr := suffix_of_branchParts? hparts
        simp only [stripChars_of_suffix hm hr, LineForm.reword, hraw _ ((skipBlanks_suffix _).trans hr)]
      · simp only [inclusion?, Option.bind_eq_bind, Option.bind_eq_some_iff, Option.some.injEq] at h
        obtain ⟨rest, hrest, -, -, -, -, rfl⟩ := h
        have hsuffix : rest <:+ m := by
          rw [lit?_eq_some_iff.mp hrest]
          exact List.suffix_append _ _
        rw [LineForm.reword, hraw _ ((skipBlanks_suffix _).trans hsuffix)]
    · exact reword_of_mem_patterns hp hopen h w
  · rw [← h, textForm, dividedByArrow?_of_idle hidle (List.suffix_refl m)]
    split <;> rfl

end Idle

/-! ### Lines in which every arrow to a name is at the end -/

/-- Wherever an arrow to a name stands on a line, it ends the line. -/
def ArrowsEnd (old line : String) : Prop :=
  ∀ rest ∈ (stripChars line.toList).tails,
    (arrowTo? old.toList rest).isSome = true → (arrowTarget? rest).isSome = true

instance (old line : String) : Decidable (ArrowsEnd old line) :=
  inferInstanceAs (Decidable (∀ rest ∈ (stripChars line.toList).tails,
    (arrowTo? old.toList rest).isSome = true → (arrowTarget? rest).isSome = true))

variable {s : String}

theorem arrowsEnd_iff : ArrowsEnd old s ↔ ∀ rest, rest <:+ stripChars s.toList →
    (arrowTo? old.toList rest).isSome = true → (arrowTarget? rest).isSome = true := by
  simp only [ArrowsEnd, List.mem_tails]

theorem ArrowsEnd.of_suffix {q : List Char} (h : ArrowsEnd old s) (hq : q <:+ stripChars s.toList) :
    ArrowsEnd old (String.ofList (stripChars q)) := by
  rw [arrowsEnd_iff] at h ⊢
  intro rest hrest
  rw [String.toList_ofList, stripChars_stripChars, stripChars_of_suffix (trimmed_stripChars _) hq] at hrest
  exact h rest (hrest.trans ((skipBlanks_suffix q).trans hq))

/-- A line on which every arrow to the name is at the end holds none or ends in one. -/
theorem cases_of_arrowsEnd (hline : '\n' ∉ s.toList) (h : ArrowsEnd old s) :
    (∀ q, q <:+ stripChars s.toList → arrowTarget? q = none ∧ arrowTo? old.toList q = none) ∨
      ∃ f bs t, stripChars s.toList = toArrow f bs t ∧ IsTarget t ∧ (∀ c ∈ bs, isBlank c = true) ∧
        ∀ q, q <:+ f → q ≠ [] → arrowTo? old.toList (toArrow q bs t) = none := by
  rw [arrowsEnd_iff] at h
  have hm := trimmed_stripChars s.toList
  have hmLine : '\n' ∉ stripChars s.toList := fun hmem => hline (mem_of_mem_stripChars hmem)
  generalize stripChars s.toList = m at h hm hmLine
  have hnone : ∀ {q}, q <:+ m → arrowTarget? q = none → arrowTo? old.toList q = none := by
    intro q hq hnone
    have hsome := h q hq
    rw [hnone] at hsome
    simpa using hsome
  cases hdivided : dividedByArrow? m with
  | none =>
    refine Or.inl fun q hq => ?_
    have hidle : arrowTarget? q = none := by
      obtain ⟨front, hfront⟩ := hq
      have hskip := shortest_eq_none hdivided hfront.symm fun hmem => hmLine (by rw [← hfront]; simp [hmem])
      by_contra hne
      obtain ⟨t, ht⟩ := Option.ne_none_iff_exists'.mp hne
      obtain ⟨-, bs, ds, rfl, -⟩ := arrowTarget?_sound ht
      rw [skipBlanks_of_head (by simp; decide), ht] at hskip
      simp at hskip
    exact ⟨hidle, hnone hq hidle⟩
  | some division =>
    obtain ⟨front, t⟩ := division
    obtain ⟨ht, as, bs, ds, hsplit, -, hbs, hds⟩ := dividedByArrow?_sound hdivided
    -- no blank stands behind the target, since none ends the line
    obtain rfl : ds = [] := by
      rcases List.eq_nil_or_concat ds with hnil | ⟨ds, d, rfl⟩
      · exact hnil
      · have hend : m = (front ++ as ++ '-' :: '>' :: (bs ++ t ++ ds)) ++ [d] := by simp [hsplit]
        have hlast : isBlank d = false := hm.2 d (by rw [hend, List.getLast?_concat]; rfl)
        rw [hds d (by simp)] at hlast
        exact absurd hlast (by simp)
    have hm' : m = toArrow (front ++ as) bs t := by simp [hsplit, toArrow]
    refine Or.inr ⟨front ++ as, bs, t, hm', ht, hbs, fun q hq hne => ?_⟩
    obtain ⟨p, hp⟩ := hq
    exact hnone ⟨p, by rw [hm', ← hp, toArrow_append]⟩ (arrowTarget?_toArrow_of_ne_nil hne)

end Line

/-! ### Reading what has been renamed -/

/-- What a renaming does: targets lead to the new name, and in lines that are kept as they stand every
arrow does. -/
def Rewording.renaming (old new : String) : Rewording :=
  ⟨retarget old new, Session.redirectLine old new⟩

@[simp] theorem Rewording.target_renaming (old new : String) :
    (Rewording.renaming old new).target = retarget old new := rfl

@[simp] theorem Rewording.raw_renaming (old new : String) :
    (Rewording.renaming old new).raw = Session.redirectLine old new := rfl

namespace Line

open Session

variable {old new s : String}

/-- A line is read, once it is redirected, as it was in other words. -/
theorem ofText_redirectLine (hold : IsName old.toList) (hnew : IsName new.toList) (h : ArrowsEnd old s)
    (hline : '\n' ∉ s.toList) :
    ofText (redirectLine old new s) = (ofText s).reword (.renaming old new) := by
  have hm := trimmed_stripChars s.toList
  have hmLine : '\n' ∉ stripChars s.toList := fun hmem => hline (mem_of_mem_stripChars hmem)
  have hredirect : stripChars (redirectLine old new s).toList =
      stripChars (redirect old.toList new.toList 0 (stripChars s.toList)) := by
    obtain ⟨as, ds, hs, has, hds⟩ := stripChars_eq s.toList
    rw [redirectLine, String.toList_ofList]
    conv_lhs => rw [hs, redirect_blanks hold has hds, stripChars_append_blank _ hds,
      stripChars_append_of_blank has]
  have hraw : ∀ q, (Rewording.renaming old new).raw (String.ofList q) =
      String.ofList (redirect old.toList new.toList 0 q) := by
    intro q
    rw [Rewording.raw_renaming, redirectLine, String.toList_ofList]
  rw [ofText, ofText, hredirect, reword, hraw]
  -- either no end of the line is an arrow, and nothing changes, or one arrow ends it
  rcases cases_of_arrowsEnd hline h with hidle | ⟨f, bs, t, hft, ht, hbs, hf⟩
  · have hsame : ∀ q, q <:+ stripChars s.toList → redirect old.toList new.toList 0 q = q := by
      intro q hq
      have happend : redirect old.toList new.toList 0 (q ++ []) = q ++ redirect old.toList new.toList 0 [] :=
        redirect_append fun p hp _ => by
          rw [List.append_nil]
          exact (hidle p (hp.trans hq)).2
      rwa [List.append_nil, redirect, List.append_nil] at happend
    rw [hsame _ (List.suffix_refl _), stripChars_stripChars,
      reword_formOf_of_idle (fun q hq => (hidle q hq).1) hm fun q hq => by rw [hraw, hsame q hq]]
  · have ht' : IsTarget (retarget old new (String.ofList t)).toList :=
      isTarget_retarget hnew (by rwa [String.toList_ofList])
    have hat : ∀ g, g <:+ f → redirect old.toList new.toList 0 (toArrow g bs t) =
        toArrow g bs (retarget old new (String.ofList t)).toList := fun g hg =>
      redirect_toArrow hold ht hbs fun q hq => hf q (hq.trans hg)
    have hfront : skipBlanks f = f := by
      have hskip := skipBlanks_toArrow f bs t
      rw [← hft, skipBlanks_of_head hm.1, hft] at hskip
      exact (List.append_cancel_right hskip).symm
    rw [hft] at hmLine ⊢
    rw [hat f (List.suffix_refl f), stripChars_toArrow ht', hfront]
    have hrewords : Rewords (.renaming old new) f bs t (retarget old new (String.ofList t)).toList :=
      ⟨by rw [String.ofList_toList]; rfl, fun g hg => by rw [hraw, hat g hg]⟩
    rw [formOf_toArrow hrewords ht ht' hbs hmLine]

/-- A line is read, once it is redirected, as it was in other words, and so is all that is read from its
remainder. -/
theorem reworded_redirectLine (hold : IsName old.toList) (hnew : IsName new.toList)
    (h : ArrowsEnd old s) (hline : '\n' ∉ s.toList) :
    (ofText s).Reworded (.renaming old new) (ofText (redirectLine old new s)) := by
  -- the remainder of a branch is a line again, which is shorter
  induction hn : s.length using Nat.strong_induction_on generalizing s with
  | _ n ih =>
    have hread := ofText_redirectLine hold hnew h hline
    rw [Reworded, hread]
    by_cases hb : ∃ guard rest, (ofText s).form = .branch guard rest
    · obtain ⟨guard, rest, hform⟩ := hb
      have hform' : ((ofText s).reword (.renaming old new)).form =
          .branch guard (redirectLine old new rest) := by
        rw [reword, hform]
        rfl
      have hempty : redirectLine old new rest = "" ↔ rest = "" := by
        rw [← String.toList_eq_nil_iff, ← String.toList_eq_nil_iff]
        exact (redirected_redirectLine old new rest).eq_nil_iff.symm
      have hmLine : '\n' ∉ stripChars s.toList := fun hmem => hline (mem_of_mem_stripChars hmem)
      have hbranch := branch?_of_formOf hform
      have hrestLine : '\n' ∉ rest.toList := (readable_of_branch? hmLine hbranch).2
      have hrest : ArrowsEnd old rest := by
        obtain ⟨⟨c, r⟩, hparts, heq⟩ := Option.map_eq_some_iff.mp hbranch
        obtain ⟨-, rfl⟩ := LineForm.branch.inj heq
        exact h.of_suffix (suffix_of_branchParts? hparts)
      have hlength := length_lt_of_branch hform
      rw [chain_of_branch hform, chain_of_branch hform']
      by_cases hnil : rest = ""
      · rw [if_pos hnil, if_pos (hempty.mpr hnil)]
        rfl
      · rw [if_neg hnil, if_neg fun h => hnil (hempty.mp h), chainOf_eq, chainOf_eq, List.map_cons,
          ih rest.length (by omega) hrest hrestLine rfl]
    · have hb' : ∀ guard rest, ((ofText s).reword (.renaming old new)).form ≠ .branch guard rest := by
        intro guard rest hform
        have hisBranch : (ofText s).form.isBranch = true := by
          rw [← LineForm.isBranch_reword (.renaming old new), show
            (ofText s).form.reword (.renaming old new) = .branch guard rest from hform]
          rfl
        cases hs : (ofText s).form with
        | branch guard rest => exact hb ⟨guard, rest, hs⟩
        | _ => simp [hs, LineForm.isBranch] at hisBranch
      rw [chain_of_not_branch fun guard rest hform => hb ⟨guard, rest, hform⟩, chain_of_not_branch hb']
      rfl

end Line

end StoryScript
