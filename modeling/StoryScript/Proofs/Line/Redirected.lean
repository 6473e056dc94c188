import StoryScript.Proofs.Body.Stitches
import StoryScript.Proofs.Line.Branch
import StoryScript.Proofs.Line.Choice
import StoryScript.Proofs.Line.Pattern
import StoryScript.Proofs.Text.Redirected
import StoryScript.Session.Edit

/-!
# Lines that differ in where arrows lead

Renaming a knot changes names behind arrows, and no more (`Line.redirected_redirect`). The form of a line
may well look at what an arrow leads to, but its bare form does not (`Line.bare_formOf_redirected`): a header
and the end of a region hold no dash, what a choice or a branch is like shows in front of every arrow or
behind a colon, and where a region or a block comment begins or ends no name can stand. So redirected lines
are like the lines they were made from (`Line.alike_readFrom`).
-/

namespace StoryScript

open Text

namespace Session

variable {old new : List Char}

/-- An arrow is found in front of a name, behind which no word goes on. -/
theorem arrowTo?_sound {cs arrow : List Char} (h : arrowTo? old cs = some arrow) :
    ∃ bs rest, cs = '-' :: '>' :: (bs ++ old ++ rest) ∧ arrow = '-' :: '>' :: bs ∧
      (∀ c ∈ bs, isBlank c = true) ∧ ∀ c ∈ rest.head?, isWord c = false := by
  simp only [arrowTo?, Option.bind_eq_bind, Option.bind_eq_some_iff] at h
  obtain ⟨rest, hrest, behind, hbehind, u, hword, harrow⟩ := h
  have hcs : cs = '-' :: '>' :: rest := lit?_eq_some_iff.mp hrest
  have hname : skipBlanks rest = old ++ behind := by
    have hlit : lit? (String.ofList old) (skipBlanks rest) = some behind := by
      rw [lit?, String.toList_ofList]
      exact hbehind
    rw [lit?_eq_some_iff.mp hlit, String.toList_ofList]
  refine ⟨rest.takeWhile isBlank, behind, ?_, (Option.some.inj harrow).symm,
    fun _ hc => List.mem_takeWhile_imp hc, fun c hc => ?_⟩
  · rw [hcs, List.append_assoc, ← hname, skipBlanks, List.takeWhile_append_dropWhile]
  · rw [Option.mem_def] at hc
    simp only [guard, hc, Option.any_some] at hword
    by_contra hne
    rw [if_neg (by simpa using hne)] at hword
    exact absurd hword (by simp)

/-- The characters of an arrow that has been changed are passed over. -/
theorem redirect_skip (as cs : List Char) :
    redirect old new as.length (as ++ cs) = redirect old new 0 cs := by
  induction as with
  | nil => rfl
  | cons a as ih => rw [List.cons_append, List.length_cons, redirect, ih]

theorem redirect_skip_arrow (bs rest : List Char) :
    redirect old new (('-' :: '>' :: bs).length + old.length - 1) ('>' :: (bs ++ old ++ rest)) =
      redirect old new 0 rest := by
  have hlength : ('-' :: '>' :: bs).length + old.length - 1 = ('>' :: (bs ++ old)).length := by
    simp only [List.length_cons, List.length_append]
    omega
  rw [hlength, ← redirect_skip ('>' :: (bs ++ old)) rest, List.cons_append]

/-- Redirecting changes names behind arrows, and no more. -/
theorem redirected_redirect (cs : List Char) : Redirected old new cs (redirect old new 0 cs) := by
  induction hn : cs.length using Nat.strong_induction_on generalizing cs with
  | _ n ih =>
    cases cs with
    | nil => exact .nil
    | cons c cs =>
      rw [redirect]
      cases harrow : arrowTo? old (c :: cs) with
      | none => exact .cons c (ih cs.length (by simp [← hn]) cs rfl)
      | some arrow =>
        obtain ⟨bs, rest, hcs, rfl, hbs, -⟩ := arrowTo?_sound harrow
        rw [List.cons.injEq] at hcs
        obtain ⟨rfl, rfl⟩ := hcs
        dsimp only
        rw [redirect_skip_arrow]
        refine .arrow hbs (ih rest.length ?_ rest rfl)
        simp only [← hn, List.length_cons, List.length_append]
        omega

/-- A line with every arrow to one name changed into an arrow to another. -/
def redirectLine (old new : String) (line : String) : String :=
  String.ofList (redirect old.toList new.toList 0 line.toList)

theorem redirected_redirectLine (old new line : String) :
    Redirected old.toList new.toList line.toList (redirectLine old new line).toList := by
  rw [redirectLine, String.toList_ofList]
  exact redirected_redirect _

end Session

namespace Line

variable {old new : List Char}

/-! ### Lines with a dash -/

theorem dash_not_mem_of_blank {bs : List Char} (h : ∀ c ∈ bs, isBlank c = true) : '-' ∉ bs := by
  intro hmem
  exact absurd (h '-' hmem) (by decide)

/-- A dash behind blanks is a dash. -/
theorem dash_not_mem_of_skipBlanks {cs : List Char} (h : '-' ∉ skipBlanks cs) : '-' ∉ cs := by
  obtain ⟨bs, hcs, hbs⟩ := exists_skipBlanks cs
  rw [hcs, List.mem_append, not_or]
  exact ⟨dash_not_mem_of_blank hbs, h⟩

theorem dash_not_mem_of_equals {cs : List Char} (h : '-' ∉ cs.dropWhile (· = '=')) : '-' ∉ cs := by
  rw [← List.takeWhile_append_dropWhile (p := fun c => decide (c = '=')) (l := cs), List.mem_append, not_or]
  refine ⟨fun hmem => ?_, h⟩
  have hequals := List.mem_takeWhile_imp hmem
  exact absurd hequals (by decide)

theorem dash_not_mem_of_word? {cs w rest : List Char} (h : word? cs = some (w, rest))
    (hrest : '-' ∉ rest) : '-' ∉ cs := by
  obtain ⟨hcs, hname, -⟩ := word?_sound h
  rw [hcs, List.mem_append, not_or]
  exact ⟨hname.not_mem isWord_minus, hrest⟩

theorem dash_not_mem_of_done? {cs : List Char} {u : Unit} (h : done? (skipBlanks cs) = some u) :
    '-' ∉ cs :=
  dash_not_mem_of_skipBlanks (by rw [done?_eq_some_iff.mp h]; simp)

theorem dash_not_mem_of_knotHeader? {cs : List Char} {form : LineForm}
    (h : knotHeader? cs = some form) : '-' ∉ cs := by
  simp only [knotHeader?, Option.bind_eq_bind, Option.bind_eq_some_iff, Prod.exists] at h
  obtain ⟨-, -, w, rest, hword, -, -, u, hdone, -⟩ := h
  exact dash_not_mem_of_equals <| dash_not_mem_of_skipBlanks <| dash_not_mem_of_word? hword <|
    dash_not_mem_of_skipBlanks <| dash_not_mem_of_equals <| dash_not_mem_of_done? hdone

theorem dash_not_mem_of_stitchHeader? {cs : List Char} {form : LineForm}
    (h : stitchHeader? cs = some form) : '-' ∉ cs := by
  simp only [stitchHeader?, Option.bind_eq_bind, Option.bind_eq_some_iff, Prod.exists] at h
  obtain ⟨rest, hrest, w, rest', hword, u, hdone, -⟩ := h
  rw [lit?_eq_some_iff.mp hrest, List.mem_append, not_or]
  exact ⟨by decide, dash_not_mem_of_skipBlanks <| dash_not_mem_of_word? hword <|
    dash_not_mem_of_done? hdone⟩

theorem dash_not_mem_of_regionEnd? {cs : List Char} {form : LineForm}
    (h : regionEnd? cs = some form) : '-' ∉ cs := by
  have hlit : ∀ {p : String} {cs rest : List Char}, lit? p cs = some rest → '-' ∉ p.toList →
      '-' ∉ rest → '-' ∉ cs := by
    intro p cs rest hlit hp hrest
    rw [lit?_eq_some_iff.mp hlit, List.mem_append, not_or]
    exact ⟨hp, hrest⟩
  simp only [regionEnd?, Option.bind_eq_bind, Option.bind_eq_some_iff] at h
  obtain ⟨a, ha, b, hb, c, hc, d, hd, u, hdone, -⟩ := h
  exact hlit ha (by decide) <| dash_not_mem_of_skipBlanks <| hlit hb (by decide) <|
    dash_not_mem_of_skipBlanks <| hlit hc (by decide) <| dash_not_mem_of_skipBlanks <|
    hlit hd (by decide) <| dash_not_mem_of_done? hdone

/-- The openings of the lines in whose bare form something may show although they hold a dash. -/
def openings : List String := ["*", "+", "-", "//", "/*"]

theorem sticky?_eq_none {cs : List Char} (hopens : ∀ p ∈ openings, lit? p cs = none) :
    sticky? cs = none := by
  unfold sticky?
  split
  · exact absurd (hopens "*" (by decide)) (by simp [lit?, List.isPrefixOf?])
  · exact absurd (hopens "+" (by decide)) (by simp [lit?, List.isPrefixOf?])
  · rfl

/-- Nothing shows in the bare form of any other line with a dash. -/
theorem bare_of_mem_patterns {f : List Char → Option LineForm} (hf : f ∈ patterns) {cs : List Char}
    {form : LineForm} (h : f cs = some form) (hdash : '-' ∈ cs)
    (hopens : ∀ p ∈ openings, lit? p cs = none) : form.bare = .raw := by
  have hlit : ∀ {p : String} {α : Type} {g : List Char → Option α} {a : α}, (lit? p cs).bind g = some a →
      p ∈ openings → form.bare = .raw := by
    intro p α g a hbind hp
    rw [hopens p hp] at hbind
    simp at hbind
  cases makes_of_mem_patterns hf h with
  -- it takes no dash
  | knotHeader => exact absurd hdash (dash_not_mem_of_knotHeader? h)
  | stitchHeader => exact absurd hdash (dash_not_mem_of_stitchHeader? h)
  | conditionalOpen => simp at hdash
  | conditionalClose => simp at hdash
  -- it begins with one of the openings
  | position => exact hlit h (by decide)
  | regionStart => exact hlit h (by decide)
  | regionEnd => exact hlit h (by decide)
  | comment => exact hlit h (by decide)
  | blockComment => exact hlit h (by decide)
  | choice =>
    obtain ⟨sticky, hsticky, -⟩ := Option.bind_eq_some_iff.mp h
    exact absurd (sticky?_eq_none hopens) (by simp [hsticky])
  | branch hparts => exact hlit hparts (by decide)
  -- nothing shows in what it makes
  | _ => rfl

theorem bare_textForm (cs : List Char) : (textForm cs).bare = .raw := by
  unfold textForm
  split
  · rfl
  · split <;> rfl

theorem bare_formOf_of_dash {cs : List Char} (hdash : '-' ∈ cs)
    (hopens : ∀ p ∈ openings, lit? p cs = none) : (formOf cs).bare = .raw := by
  rcases cases_of_formOf (rfl : formOf cs = formOf cs) with ⟨hnil, -⟩ | ⟨f, hf, h⟩ | ⟨-, -, h⟩
  · exact absurd hnil (List.ne_nil_of_mem hdash)
  · exact bare_of_mem_patterns hf h hdash hopens
  · rw [← h]
    exact bare_textForm cs

/-! ### Choices -/

theorem bare_choiceForm (depth : Nat) (sticky : Bool) (rest : List Char) :
    (choiceForm depth (choiceHead sticky rest)).bare =
      if rest = [] then .raw else .choice depth default := by
  cases rest with
  | nil => rfl
  | cons c cs =>
    rw [if_neg (by simp), choiceForm, if_neg]
    · rfl
    · cases hdivided : dividedByArrow? (c :: cs) with
      | some division =>
        cases hinner : bracketed? (stripChars division.1) <;> simp [choiceHead, hdivided, hinner]
      | none => cases hinner : bracketed? (c :: cs) <;> simp [choiceHead, hdivided, hinner]

/-- What shows of a choice stands in front of every arrow. -/
theorem bare_formOf_choice {cs ds : List Char} (h : Redirected old new cs ds) (hcs : '\n' ∉ cs)
    (hds : '\n' ∉ ds) {sticky : Bool} (hsticky : sticky? cs = some sticky) :
    (formOf cs).bare = (formOf ds).bare := by
  have hsticky' : sticky? ds = some sticky := by
    cases h with
    | nil => simp [sticky?] at hsticky
    | cons c h =>
      unfold sticky? at hsticky ⊢
      split at hsticky <;> simp_all
    | arrow => simp [sticky?] at hsticky
  -- no marker belongs to an arrow: the markers are the same and what is behind them is empty in both or in
  -- neither
  obtain ⟨htake, hdrop⟩ := h.takeWhile_dropWhile (p := isMarker) (by decide)
  have hline : ∀ {cs : List Char}, '\n' ∉ cs → onOneLine (cs.dropWhile isMarker) = true := by
    intro cs hcs
    have hmem : '\n' ∉ cs.dropWhile isMarker := fun hmem => hcs ((List.dropWhile_sublist _).subset hmem)
    simpa [onOneLine] using hmem
  have hchoice : ∀ {cs : List Char}, '\n' ∉ cs → sticky? cs = some sticky →
      (formOf cs).bare = if cs.dropWhile isMarker = [] then .raw
        else .choice ((cs.takeWhile isMarker).filter isCounted).length default := by
    intro cs hcs hsticky
    rw [formOf_marker hsticky, choice?_eq, hsticky, Option.bind_some, if_pos (hline hcs),
      Option.getD_some, bare_choiceForm]
  rw [hchoice hcs hsticky, hchoice hds hsticky', htake]
  simp only [hdrop.eq_nil_iff]

/-! ### Branches -/

/-- Behind a colon both lines go on alike. -/
theorem follows_afterColon? (hold : IsName old) (hnew : IsName new) :
    Redirected.Follows afterColon? (Redirected old new) old new ':' where
  head cs a h := by
    obtain ⟨rest, hrest, -⟩ := Option.bind_eq_some_iff.mp h
    rw [lit?_eq_some_iff.mp hrest]
    rfl
  rel {cs ds} h hline := by
    have hline' : '\n' ∉ ds := fun hmem => hline (h.symm.mem_of_mem hnew (by decide) hmem)
    have hone : ∀ {cs rest : List Char}, '\n' ∉ cs → rest ⊆ skipBlanks cs →
        onOneLine (skipBlanks rest) = true := by
      intro cs rest hcs hsub
      have hmem : '\n' ∉ skipBlanks rest := fun hmem =>
        hcs ((List.dropWhile_sublist _).subset (hsub ((List.dropWhile_sublist _).subset hmem)))
      simpa [onOneLine] using hmem
    refine Redirected.rel_bind (Redirected.rel_lit? (by decide) h.skipBlanks) fun rest rest' hrest => ?_
    rw [hone hline hrest.2.1, hone hline' hrest.2.2]
    exact .some hrest.1.skipBlanks
  old := Redirected.apart_of_not_isWord hold (by decide) (by decide) (by decide) (by decide)
  new := Redirected.apart_of_not_isWord hnew (by decide) (by decide) (by decide) (by decide)

theorem rel_branchParts? (hold : IsName old) (hnew : IsName new) {cs ds : List Char}
    (h : Redirected old new cs ds) (hline : '\n' ∉ cs) :
    Option.Rel (fun a b => Redirected old new a.2 b.2) (branchParts? cs) (branchParts? ds) := by
  have hk := follows_afterColon? hold hnew
  have hminus : ∀ cs, branchParts? ('-' :: cs) = afterBlanks (shortestSome afterColon?) cs := fun _ => rfl
  cases h with
  | nil => exact .none
  | @cons c cs ds h =>
    rw [List.mem_cons, not_or] at hline
    by_cases hc : c = '-'
    · subst hc
      rw [hminus, hminus]
      exact Redirected.rel_afterBlanks
        (fun h hline => Redirected.rel_shortestSome hk hold hnew h hline) h hline.2
    · rw [branchParts?_eq_none_of_head hc, branchParts?_eq_none_of_head hc]
      exact .none
  | @arrow bs cs ds hbs h =>
    -- the condition begins with the tip of the arrow
    simp only [List.mem_cons, List.mem_append, not_or] at hline
    obtain ⟨-, -, ⟨hbsLine, -⟩, hcsLine⟩ := hline
    have htip : ∀ cs, branchParts? ('-' :: '>' :: cs) =
        (shortest afterColon? cs).map fun x => ('>' :: x.1, x.2) := fun _ => rfl
    have hcs : shortest afterColon? (bs ++ old ++ cs) = _ :=
      Redirected.shortest_arrow [] hk.head hold hk.old hbs hbsLine (by simp) cs
    have hds : shortest afterColon? (bs ++ new ++ ds) = _ :=
      Redirected.shortest_arrow [] hk.head hnew hk.new hbs hbsLine (by simp) ds
    rw [htip, htip, hcs, hds, Option.map_map, Option.map_map]
    exact Redirected.rel_map (Redirected.rel_shortest hk hold hnew h hcsLine) fun _ _ h => h

/-- Every branch has a colon. -/
theorem colon_mem_of_branchParts? {cs : List Char} {parts : List Char × List Char}
    (h : branchParts? cs = some parts) : ':' ∈ cs := by
  obtain ⟨rest, hrest, h⟩ := Option.bind_eq_some_iff.mp h
  obtain ⟨front, behind, hfront, h⟩ := exists_append_of_afterBlanks h
  obtain ⟨colon, hbehind, -, h⟩ := exists_of_shortestSome (p := parts.1) (a := parts.2) h
  obtain ⟨as, bs, hcolon, -⟩ := afterColon?_sound h
  rw [lit?_eq_some_iff.mp hrest, hfront, hbehind, hcolon]
  simp

/-- What shows of a line that begins with a dash is whether it is a branch. -/
theorem bare_formOf_minus (cs : List Char) : (formOf ('-' :: cs)).bare =
    if (branchParts? ('-' :: cs)).isSome then .branch default "" else .raw := by
  rw [formOf_minus, List.findSome?]
  cases hdivert : divert? ('-' :: cs) with
  | some form =>
    obtain ⟨target, harrow, rfl⟩ := Option.map_eq_some_iff.mp hdivert
    have hnone : branchParts? ('-' :: cs) = none := by
      by_contra hsome
      obtain ⟨parts, hparts⟩ := Option.ne_none_iff_exists'.mp hsome
      -- a branch has a colon, and an arrow to a target has none
      have hcolon := colon_mem_of_branchParts? hparts
      obtain ⟨ht, bs, ds, hcs, hbs, hds⟩ := arrowTarget?_sound harrow
      have hblank : ∀ {bs : List Char}, (∀ c ∈ bs, isBlank c = true) → ':' ∉ bs := fun h hmem =>
        absurd (h ':' hmem) (by decide)
      have htarget : ':' ∉ target := fun hmem => by
        rcases ht.spec.2.1 ':' hmem with hword | hdot
        · exact absurd hword (by decide)
        · exact absurd hdot (by decide)
      rw [hcs] at hcolon
      simp [hblank hbs, hblank hds, htarget] at hcolon
    rw [hnone]
    rfl
  | none =>
    have hbranch : [branch?].findSome? (fun p => p ('-' :: cs)) = branch? ('-' :: cs) := by
      rw [List.findSome?]
      cases branch? ('-' :: cs) <;> rfl
    dsimp only
    rw [hbranch, branch?]
    cases branchParts? ('-' :: cs) <;> rfl

/-! ### Comments -/

/-- What has to stand behind the name of a region. -/
def closing? (cs : List Char) : Option Unit := do
  let rest ← lit? "#>" (skipBlanks cs)
  done? (skipBlanks rest)

theorem regionStart?_eq (cs : List Char) : regionStart? cs =
    (lit? "//" cs).bind fun rest => (lit? "<#" (skipBlanks rest)).bind fun rest =>
      (lit? "StartRegion:" (skipBlanks rest)).bind fun rest =>
        (afterBlanks (shortestSome closing?) rest).bind fun parts =>
          some (.regionStart (String.ofList parts.1)) := rfl

theorem follows_closing? (hold : IsName old) (hnew : IsName new) :
    Redirected.Follows closing? (fun _ _ => True) old new '#' where
  head cs a h := by
    obtain ⟨rest, hrest, -⟩ := Option.bind_eq_some_iff.mp h
    rw [lit?_eq_some_iff.mp hrest]
    rfl
  rel {cs ds} h hline := by
    refine Redirected.rel_bind (Redirected.rel_lit? (by decide) h.skipBlanks) fun rest rest' hrest => ?_
    have hend := hrest.1.skipBlanks.eq_nil_iff
    cases hcs : skipBlanks rest with
    | nil =>
      rw [hend.mp hcs]
      exact .some trivial
    | cons c cs =>
      obtain ⟨d, ds, hds⟩ := List.exists_cons_of_ne_nil (l := skipBlanks rest') fun hnil => by
        simp [hend.mpr hnil] at hcs
      rw [hds]
      exact .none
  old := Redirected.apart_of_not_isWord hold (by decide) (by decide) (by decide) (by decide)
  new := Redirected.apart_of_not_isWord hnew (by decide) (by decide) (by decide) (by decide)

/-- A line opens a region whatever its arrows lead to. -/
theorem isSome_regionStart? (hold : IsName old) (hnew : IsName new) {cs ds : List Char}
    (h : Redirected old new cs ds) (hline : '\n' ∉ cs) :
    (regionStart? cs).isSome = (regionStart? ds).isSome := by
  have hk := follows_closing? hold hnew
  have hblanks : ∀ cs : List Char, skipBlanks cs ⊆ cs := fun cs => (List.dropWhile_sublist _).subset
  refine Redirected.isSome_of_rel (show Option.Rel (fun _ _ => True) _ _ from ?_)
  rw [regionStart?_eq, regionStart?_eq]
  refine Redirected.rel_bind (Redirected.rel_lit? (by decide) h) fun a a' ha => ?_
  refine Redirected.rel_bind (Redirected.rel_lit? (by decide) ha.1.skipBlanks) fun b b' hb => ?_
  refine Redirected.rel_bind (Redirected.rel_lit? (by decide) hb.1.skipBlanks) fun c c' hc => ?_
  have hcLine : '\n' ∉ c := fun hmem =>
    hline (ha.2.1 (hblanks _ (hb.2.1 (hblanks _ (hc.2.1 hmem)))))
  refine Redirected.rel_bind (Redirected.rel_afterBlanks
    (fun h hline => Redirected.rel_shortestSome hk hold hnew h hline) hc.1 hcLine) fun _ _ _ => ?_
  exact .some trivial

/-- No line with a dash closes a region. -/
theorem isSome_regionEnd? {cs ds : List Char} (h : Redirected old new cs ds) :
    (regionEnd? cs).isSome = (regionEnd? ds).isSome := by
  have hsome : ∀ {old new cs ds}, Redirected old new cs ds → (regionEnd? cs).isSome = true →
      (regionEnd? ds).isSome = true := by
    intro old new cs ds h hcs
    obtain ⟨form, hform⟩ := Option.isSome_iff_exists.mp hcs
    rwa [h.eq_of_not_mem (dash_not_mem_of_regionEnd? hform)]
  exact Bool.eq_iff_iff.mpr ⟨hsome h, hsome h.symm⟩

/-- An annotation of a position is no marker of a region. -/
theorem region_of_position? {cs : List Char} {form : LineForm} (h : position? cs = some form) :
    form.bare = .raw ∧ regionStart? cs = none ∧ regionEnd? cs = none := by
  obtain ⟨a, ha, h⟩ := Option.bind_eq_some_iff.mp h
  obtain ⟨b, hb, h⟩ := Option.bind_eq_some_iff.mp h
  obtain ⟨⟨p, c⟩, hcoordinates, h⟩ := Option.bind_eq_some_iff.mp h
  obtain ⟨d, hd, -⟩ := Option.bind_eq_some_iff.mp hcoordinates
  obtain ⟨e, -, h⟩ := Option.bind_eq_some_iff.mp h
  obtain ⟨u, -, hform⟩ := Option.bind_eq_some_iff.mp h
  have hskip : skipBlanks a = '<' :: '{' :: d := by
    rw [lit?_eq_some_iff.mp hb, lit?_eq_some_iff.mp hd]
    rfl
  have hmark : lit? "<#" ('<' :: '{' :: d) = none := rfl
  refine ⟨by rw [← Option.some.inj hform]; rfl, ?_, ?_⟩
  · rw [regionStart?_eq, ha, Option.bind_some, hskip, hmark, Option.bind_none]
  · rw [regionEnd?, ha, Option.bind_eq_bind, Option.bind_some, hskip, hmark]
    rfl

theorem region_of_nodePosition? {label : String} (hlabel : label ∈ ["start", "end"]) {cs : List Char}
    {p : Position} (h : nodePosition? label cs = some p) :
    regionStart? cs = none ∧ regionEnd? cs = none := by
  obtain ⟨a, ha, h⟩ := Option.bind_eq_some_iff.mp h
  obtain ⟨b, hb, h⟩ := Option.bind_eq_some_iff.mp h
  obtain ⟨c, hc, -⟩ := Option.bind_eq_some_iff.mp h
  have hname : lit? "StartRegion:" (skipBlanks b) = none ∧ lit? "EndRegion" (skipBlanks b) = none := by
    rw [lit?_eq_some_iff.mp hc]
    simp only [List.mem_cons, List.not_mem_nil, or_false] at hlabel
    rcases hlabel with rfl | rfl <;> exact ⟨rfl, rfl⟩
  constructor
  · rw [regionStart?_eq, ha, Option.bind_some, hb, Option.bind_some, hname.1, Option.bind_none]
  · rw [regionEnd?, ha, Option.bind_eq_bind, Option.bind_some, hb, Option.bind_eq_bind, Option.bind_some,
      hname.2]
    rfl

/-- What shows of a line comment is whether it is the marker of a region. -/
theorem bare_formOf_slashes (cs : List Char) : (formOf ('/' :: '/' :: cs)).bare =
    if (regionStart? ('/' :: '/' :: cs)).isSome then .regionStart ""
    else if (regionEnd? ('/' :: '/' :: cs)).isSome then .regionEnd else .raw := by
  have hform : formOf ('/' :: '/' :: cs) =
      ([position?, fun cs => (nodePosition? "start" cs).map .startPosition,
        fun cs => (nodePosition? "end" cs).map .endPosition, regionStart?, regionEnd?,
        lineComment?].findSome? fun p => p ('/' :: '/' :: cs)).getD
          (textForm ('/' :: '/' :: cs)) := rfl
  have hcomment : lineComment? ('/' :: '/' :: cs) = some .comment := rfl
  have hregion : ∀ form, regionStart? ('/' :: '/' :: cs) = some form → form.bare = .regionStart "" := by
    intro form h
    simp only [regionStart?_eq, Option.bind_eq_some_iff] at h
    obtain ⟨_, -, _, -, _, -, parts, -, hform⟩ := h
    rw [← Option.some.inj hform]
    rfl
  have hend : ∀ form, regionEnd? ('/' :: '/' :: cs) = some form → form = .regionEnd := by
    intro form h
    simp only [regionEnd?, Option.bind_eq_bind, Option.bind_eq_some_iff] at h
    obtain ⟨_, -, _, -, _, -, _, -, _, -, hform⟩ := h
    exact (Option.some.inj hform).symm
  rw [hform]
  -- what a position is read from is no marker of a region, so the order of the patterns does not matter
  generalize '/' :: '/' :: cs = line at *
  simp only [List.findSome?]
  cases hposition : position? line with
  | some form =>
    obtain ⟨hbare, hstart, hend⟩ := region_of_position? hposition
    simp [hstart, hend, hbare]
  | none =>
    cases hstart : nodePosition? "start" line with
    | some p =>
      obtain ⟨hstart, hend⟩ := region_of_nodePosition? (by simp) hstart
      simp [hstart, hend, LineForm.bare]
    | none =>
      cases hlast : nodePosition? "end" line with
      | some p =>
        obtain ⟨hstart, hend⟩ := region_of_nodePosition? (by simp) hlast
        simp [hstart, hend, LineForm.bare]
      | none =>
        cases hopen : regionStart? line with
        | some form => simp [hregion form hopen]
        | none =>
          cases hclose : regionEnd? line with
          | some form =>
            obtain rfl := hend form hclose
            simp [LineForm.bare]
          | none => simp [hcomment, LineForm.bare]

theorem formOf_slashStar (cs : List Char) :
    formOf ('/' :: '*' :: cs) = .blockComment !(occursIn ['*', '/'] cs) := rfl

/-! ### All lines -/

/-- A line that begins with one of the openings still does when it is redirected. -/
theorem isSome_lit?_opening {p : String} (hp : p ∈ openings) {cs ds : List Char}
    (h : Redirected old new cs ds) : (lit? p cs).isSome = (lit? p ds).isSome := by
  simp only [openings, List.mem_cons, List.not_mem_nil, or_false] at hp
  by_cases hdash : p = "-"
  · -- an arrow begins with a dash, but so does what it becomes
    subst hdash
    cases h with
    | nil => rfl
    | cons c h =>
      by_cases hc : c = '-'
      · subst hc
        rfl
      · have hnone : ∀ cs, lit? "-" (c :: cs) = none := fun cs =>
          lit?_eq_none_of_head (by simpa using Ne.symm hc) (by simp)
        rw [hnone, hnone]
    | arrow => rfl
  · have hnot : '-' ∉ p.toList := by
      rcases hp with rfl | rfl | rfl | rfl | rfl
      case _ => decide
      case _ => decide
      case _ => exact absurd rfl hdash
      case _ => decide
      case _ => decide
    exact Redirected.isSome_of_rel (Redirected.rel_lit? hnot h)

/-- Redirected lines have the same bare form. -/
theorem bare_formOf_redirected (hold : IsName old) (hnew : IsName new) {cs ds : List Char}
    (h : Redirected old new cs ds) (hline : '\n' ∉ cs) : (formOf cs).bare = (formOf ds).bare := by
  by_cases hdash : '-' ∈ cs
  · by_cases hopens : ∀ p ∈ openings, lit? p cs = none
    · have hopens' : ∀ p ∈ openings, lit? p ds = none := by
        intro p hp
        have hsome := isSome_lit?_opening hp h
        rw [hopens p hp] at hsome
        exact Option.not_isSome_iff_eq_none.mp (by simp [← hsome])
      rw [bare_formOf_of_dash hdash hopens,
        bare_formOf_of_dash ((h.mem_iff hold hnew isWord_minus).mp hdash) hopens']
    · obtain ⟨p, hp, rest, hrest⟩ : ∃ p ∈ openings, ∃ rest, lit? p cs = some rest := by
        by_contra hnone
        refine hopens fun p hp => ?_
        by_contra hsome
        exact hnone ⟨p, hp, Option.ne_none_iff_exists'.mp hsome⟩
      have hcs := lit?_eq_some_iff.mp hrest
      have hds : '\n' ∉ ds := fun hmem => hline ((h.mem_iff hold hnew (by decide)).mpr hmem)
      simp only [openings, List.mem_cons, List.not_mem_nil, or_false] at hp
      rcases hp with rfl | rfl | rfl | rfl | rfl
      case _ =>
        have hsticky : sticky? cs = some false := by rw [hcs]; rfl
        exact bare_formOf_choice h hline hds hsticky
      case _ =>
        have hsticky : sticky? cs = some true := by rw [hcs]; rfl
        exact bare_formOf_choice h hline hds hsticky
      case _ =>
        -- behind a dash it shows whether there is a condition
        have hparts := Redirected.isSome_of_rel (rel_branchParts? hold hnew h hline)
        have hhead := h.head?
        obtain rfl : cs = '-' :: rest := hcs
        cases ds with
        | nil => simp at hhead
        | cons d ds =>
          obtain rfl : '-' = d := by simpa using hhead
          rw [bare_formOf_minus, bare_formOf_minus, hparts]
      case _ =>
        -- of a line comment it shows whether it marks a region
        obtain rfl : cs = ['/', '/'] ++ rest := hcs
        obtain ⟨es, rfl, -⟩ := h.exists_append (by decide)
        have hstart := isSome_regionStart? hold hnew h hline
        have hend := isSome_regionEnd? h
        simp only [List.cons_append, List.nil_append] at hstart hend ⊢
        rw [bare_formOf_slashes, bare_formOf_slashes, hstart, hend]
      case _ =>
        -- of a block comment it shows whether it is closed on its line
        obtain rfl : cs = ['/', '*'] ++ rest := hcs
        obtain ⟨es, rfl, hes⟩ := h.exists_append (by decide)
        simp only [List.cons_append, List.nil_append]
        rw [formOf_slashStar, formOf_slashStar,
          hes.occursIn (Redirected.apart_star hold) (Redirected.apart_star hnew)]
  · rw [h.eq_of_not_mem hdash]

/-- Redirected lines are alike. The induction is on the length of the line, because a branch holds a
shorter line behind its colon. -/
theorem alike_ofText_redirected (hold : IsName old) (hnew : IsName new) {s t : String}
    (h : Redirected old new s.toList t.toList) (hline : '\n' ∉ s.toList) :
    (ofText s).Alike (ofText t) := by
  induction hn : s.length using Nat.strong_induction_on generalizing s t with
  | _ n ih =>
    have hstrip := h.stripChars hold hnew
    have hstripLine : '\n' ∉ stripChars s.toList := fun hmem => hline (mem_of_mem_stripChars hmem)
    have hbare : (ofText s).form.bare = (ofText t).form.bare :=
      bare_formOf_redirected hold hnew hstrip hstripLine
    have hbranch : (ofText s).form.isBranch = (ofText t).form.isBranch := by
      rw [← LineForm.isBranch_bare, hbare, LineForm.isBranch_bare]
    by_cases hb : ∃ guard rest, (ofText s).form = .branch guard rest
    -- what stands behind the colon is read as a line again, and it is shorter
    · obtain ⟨guard, rest, hform⟩ := hb
      obtain ⟨guard', rest', hform'⟩ : ∃ guard rest, (ofText t).form = .branch guard rest :=
        LineForm.isBranch_iff.mp (by rw [← hbranch, hform]; rfl)
      have hlength := length_lt_of_branch hform
      have hrest : Redirected old new rest.toList rest'.toList := by
        have hparts := rel_branchParts? hold hnew hstrip hstripLine
        have hs := branch?_of_formOf hform
        have ht := branch?_of_formOf hform'
        simp only [branch?, Option.map_eq_some_iff, LineForm.branch.injEq, Prod.exists] at hs ht
        obtain ⟨c, r, hcr, -, rfl⟩ := hs
        obtain ⟨c', r', hcr', -, rfl⟩ := ht
        rw [hcr, hcr'] at hparts
        cases hparts with
        | some hr =>
          rw [String.toList_ofList, String.toList_ofList]
          exact hr.stripChars hold hnew
      have hrestLine : '\n' ∉ rest.toList :=
        (readable_of_branch? hstripLine (branch?_of_formOf hform)).2
      have hempty : rest = "" ↔ rest' = "" := by
        rw [← String.toList_eq_nil_iff, ← String.toList_eq_nil_iff]
        exact hrest.eq_nil_iff
      have halike := ih rest.length (by omega) hrest hrestLine rfl
      rw [Alike, chain_of_branch hform, chain_of_branch hform']
      by_cases hnil : rest = ""
      · rw [if_pos hnil, if_pos (hempty.mp hnil)]
        simp [hbare]
      · rw [if_neg hnil, if_neg fun h => hnil (hempty.mpr h), chainOf_eq, chainOf_eq, List.map_cons,
          List.map_cons, hbare, halike]
    · have hb' : ∀ guard rest, (ofText t).form ≠ .branch guard rest := by
        intro guard rest hform
        exact hb (LineForm.isBranch_iff.mp (by rw [hbranch, hform]; rfl))
      rw [Alike, chain_of_not_branch fun guard rest hform => hb ⟨guard, rest, hform⟩,
        chain_of_not_branch hb']
      simp [hbare]

/-- Redirected lines are read as lines that are alike, and they leave the same comment open. -/
theorem alike_readFrom_redirected (hold : IsName old) (hnew : IsName new) {ls ms : List String}
    (h : List.Forall₂ (fun s t => Redirected old new s.toList t.toList) ls ms)
    (hline : ∀ s ∈ ls, '\n' ∉ s.toList) (inBlock : Bool) :
    List.Forall₂ Alike (readFrom inBlock ls) (readFrom inBlock ms) ∧
      opensBlock inBlock ls = opensBlock inBlock ms := by
  induction h generalizing inBlock with
  | nil => exact ⟨.nil, rfl⟩
  | @cons s t ls ms hst _ ih =>
    rw [List.forall_mem_cons] at hline
    cases inBlock with
    | true =>
      -- inside a comment all that counts is whether it is closed, and no arrow touches its end
      have hcloses : closesComment s = closesComment t :=
        (hst.stripChars hold hnew).occursIn (Redirected.apart_star hold) (Redirected.apart_star hnew)
      rw [readFrom_true_cons, readFrom_true_cons, opensBlock_true_cons, opensBlock_true_cons, hcloses]
      exact ⟨.cons rfl (ih hline.2 _).1, (ih hline.2 _).2⟩
    | false =>
      have halike := alike_ofText_redirected hold hnew hst hline.1
      have hopens : (ofText s).form = .blockComment true ↔ (ofText t).form = .blockComment true := by
        rw [← LineForm.bare_eq_blockComment_iff, halike.bare, LineForm.bare_eq_blockComment_iff]
      rw [readFrom_false_cons, readFrom_false_cons, opensBlock_false_cons, opensBlock_false_cons,
        decide_eq_decide.mpr hopens]
      exact ⟨.cons halike (ih hline.2 _).1, (ih hline.2 _).2⟩

end Line

end StoryScript
