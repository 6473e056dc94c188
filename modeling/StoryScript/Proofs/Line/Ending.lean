import StoryScript.Proofs.Body.Reworded
import StoryScript.Proofs.Line.Choice
import StoryScript.Proofs.Line.Branch
import StoryScript.Proofs.Line.Redirected

/-!
# Lines that end in an arrow

A line that ends in an arrow with a target has a form that depends on the target in one place only
(`Line.formOf_toArrow`): the target itself, where the line is a divert, a choice or dialogue with a divert
behind it, or the end of what is kept of the line. Every other pattern refuses such a line, since it asks
for a closing mark at the end (`Line.Closed`) or for a line without a dash.
-/

namespace StoryScript.Line

open Text

variable {f bs t : List Char}

/-- A text with an arrow behind it, blanks behind the arrow and a target behind these. -/
def toArrow (f bs t : List Char) : List Char := f ++ '-' :: '>' :: (bs ++ t)

theorem dash_mem_toArrow (f bs t : List Char) : '-' ∈ toArrow f bs t := by simp [toArrow]

theorem toArrow_ne_nil (f bs t : List Char) : toArrow f bs t ≠ [] :=
  List.ne_nil_of_mem (dash_mem_toArrow f bs t)

theorem toArrow_append (g f bs t : List Char) : toArrow (g ++ f) bs t = g ++ toArrow f bs t :=
  List.append_assoc ..

theorem skipBlanks_suffix (cs : List Char) : skipBlanks cs <:+ cs := List.dropWhile_suffix _

/-! ### Lines that end in a closing mark -/

/-- A text whose last character can stand in no name. -/
def Closed (cs : List Char) : Prop := ∃ c ∈ cs.getLast?, isWord c = false

theorem closed_of_mem {p : String} (h : p ∈ [">", "#>", ")", ";"]) : Closed p.toList := by
  simp only [List.mem_cons, List.not_mem_nil, or_false] at h
  rcases h with rfl | rfl | rfl | rfl <;> exact ⟨_, rfl, by decide⟩

namespace Closed

variable {cs rest : List Char}

theorem append (h : Closed rest) (as : List Char) : Closed (as ++ rest) := by
  obtain ⟨c, hc, hword⟩ := h
  refine ⟨c, ?_, hword⟩
  rw [Option.mem_def] at hc ⊢
  rw [List.getLast?_append, hc]
  rfl

theorem of_lit? {p : String} (h : lit? p cs = some rest) (hrest : Closed rest) : Closed cs := by
  rw [lit?_eq_some_iff.mp h]
  exact hrest.append _

theorem of_dropWhile {p : Char → Bool} (h : Closed (cs.dropWhile p)) : Closed cs := by
  rw [← List.takeWhile_append_dropWhile (p := p) (l := cs)]
  exact h.append _

theorem of_skipBlanks (h : Closed (skipBlanks cs)) : Closed cs := of_dropWhile h

/-- A closing mark that only blanks follow ends a text. -/
theorem of_done? {p : String} (hp : Closed p.toList) (h : lit? p cs = some rest) {u : Unit}
    (hdone : done? (skipBlanks rest) = some u) : Closed cs := by
  rw [lit?_eq_some_iff.mp h]
  rcases List.eq_nil_or_concat rest with rfl | ⟨ds, d, rfl⟩
  · rwa [List.append_nil]
  · obtain ⟨as, has, hblank⟩ := exists_skipBlanks (ds.concat d)
    rw [done?_eq_some_iff.mp hdone, List.append_nil] at has
    have hd : isBlank d = true := hblank d (by rw [← has]; simp)
    refine Closed.append ⟨d, by simp, ?_⟩ _
    by_contra hword
    rw [isBlank_of_isWord (by simpa using hword)] at hd
    exact Bool.false_ne_true hd

theorem of_quoted? {text : List Char} (h : quoted? cs = some (text, rest)) (hrest : Closed rest) :
    Closed cs := by
  have hcs : cs = ('"' :: (text ++ ['"'])) ++ rest := by simp [(quoted?_sound h).1]
  rw [hcs]
  exact hrest.append _

theorem of_word? {w : List Char} (h : word? cs = some (w, rest)) (hrest : Closed rest) : Closed cs := by
  rw [(word?_sound h).1]
  exact hrest.append _

theorem of_unsigned? {digits : List Char} (h : unsigned? cs = some (digits, rest))
    (hrest : Closed rest) : Closed cs := by
  simp only [unsigned?, Option.bind_eq_bind, Option.bind_eq_some_iff, Prod.exists] at h
  obtain ⟨whole, behind, hwhole, h⟩ := h
  rw [(run?_sound hwhole).1]
  refine Closed.append ?_ whole
  split at h
  · next frac behind' hfrac =>
    obtain ⟨hdigits, hrun⟩ := Option.bind_eq_some_iff.mp hfrac
    obtain ⟨rfl, rfl⟩ : whole ++ '.' :: frac = digits ∧ behind' = rest := by simpa using h
    exact of_lit? hrun.1 (by rw [(run?_sound hrun.2).1]; exact hrest.append _)
  · obtain ⟨rfl, rfl⟩ : whole = digits ∧ behind = rest := by simpa using h
    exact hrest

theorem of_number? {digits : List Char} (h : number? cs = some (digits, rest)) (hrest : Closed rest) :
    Closed cs := by
  unfold number? at h
  split at h
  · next behind hminus =>
    obtain ⟨⟨digits', rest'⟩, hdigits, heq⟩ := Option.map_eq_some_iff.mp h
    obtain ⟨-, rfl⟩ := Prod.mk.injEq .. ▸ heq
    exact of_lit? hminus (of_unsigned? hdigits hrest)
  · exact of_unsigned? h hrest

theorem of_coordinates? {p : Position} (h : coordinates? cs = some (p, rest)) (hrest : Closed rest) :
    Closed cs := by
  simp only [coordinates?, Option.bind_eq_bind, Option.bind_eq_some_iff, Prod.exists, Option.some.injEq,
    Prod.mk.injEq] at h
  obtain ⟨a, ha, b, hb, c, hc, x, d, hd, e, he, g, hg, i, hi, y, j, hj, k, hk, -, rfl⟩ := h
  exact of_lit? ha <| of_skipBlanks <| of_lit? hb <| of_skipBlanks <| of_lit? hc <| of_skipBlanks <|
    of_number? hd <| of_skipBlanks <| of_lit? he <| of_skipBlanks <| of_lit? hg <| of_skipBlanks <|
    of_lit? hi <| of_skipBlanks <| of_number? hj <| of_skipBlanks <| of_lit? hk hrest

theorem of_callEnd? {u : Unit} (h : callEnd? cs = some u) : Closed cs := by
  simp only [callEnd?, Option.bind_eq_bind, Option.bind_eq_some_iff] at h
  obtain ⟨rest, hparen, hdone⟩ := h
  refine of_skipBlanks ?_
  cases hsemicolon : lit? ";" (skipBlanks rest) with
  | none =>
    rw [hsemicolon, Option.getD_none, skipBlanks_of_head fun _ => head_skipBlanks] at hdone
    exact of_done? (closed_of_mem (by simp)) hparen hdone
  | some behind =>
    rw [hsemicolon, Option.getD_some] at hdone
    exact of_lit? hparen <| of_skipBlanks <| of_done? (closed_of_mem (by simp)) hsemicolon hdone

end Closed

theorem not_closed_toArrow (ht : IsTarget t) : ¬Closed (toArrow f bs t) := by
  rintro ⟨c, hc, hword⟩
  have hlast : (toArrow f bs t).getLast? = t.getLast? := by
    rw [toArrow, ← List.append_nil t, List.append_nil, show f ++ '-' :: '>' :: (bs ++ t) =
      (f ++ '-' :: '>' :: bs) ++ t by simp, List.getLast?_append_of_ne_nil _ ht.spec.1]
  rw [hlast] at hc
  rw [ht.spec.2.2.2 c hc] at hword
  exact Bool.false_ne_true hword.symm

/-! ### Patterns that refuse an arrow at the end -/

theorem closed_of_tag? {label : String} {cs content : List Char} (h : tag? label cs = some content) :
    Closed cs := by
  simp only [tag?, Option.bind_eq_bind, Option.bind_eq_some_iff] at h
  obtain ⟨rest, hlabel, -, -, closing, hclosing, u, hdone, -⟩ := h
  rw [done?_eq_some_iff.mp hdone] at hclosing
  exact .of_lit? hlabel <| .of_dropWhile <| .of_done? (closed_of_mem (by simp)) hclosing (u := ()) rfl

theorem closed_of_duration? {label : String} {cs : List Char} {d : Binary64}
    (h : duration? label cs = some d) : Closed cs := by
  obtain ⟨content, hcontent, -⟩ := Option.bind_eq_some_iff.mp h
  exact closed_of_tag? hcontent

theorem closed_of_flagCall? {function : String} {verb : FlagVerb} {cs : List Char} {form : LineForm}
    (h : flagCall? function verb cs = some form) : Closed cs := by
  simp only [flagCall?, Option.bind_eq_bind, Option.bind_eq_some_iff, Prod.exists] at h
  obtain ⟨a, ha, b, hb, c, hc, flag, d, hd, u, hend, -⟩ := h
  exact .of_lit? ha <| .of_skipBlanks <| .of_lit? hb <| .of_lit? hc <| .of_skipBlanks <|
    .of_quoted? hd <| .of_callEnd? hend

theorem closed_of_transition? {cs : List Char} {form : LineForm} (h : transition? cs = some form) :
    Closed cs := by
  simp only [transition?, Option.bind_eq_bind, Option.bind_eq_some_iff, Prod.exists] at h
  obtain ⟨a, ha, b, hb, title, c, hc, u, hend, -⟩ := h
  refine .of_lit? ha <| .of_skipBlanks <| .of_lit? hb <| .of_skipBlanks <| .of_quoted? hc ?_
  -- a subtitle is a second quoted text behind a comma
  cases hsubtitle : (lit? "," (skipBlanks c)).bind fun rest => quoted? (skipBlanks rest) with
  | none =>
    rw [hsubtitle] at hend
    exact .of_callEnd? hend
  | some found =>
    obtain ⟨subtitle, d⟩ := found
    rw [hsubtitle] at hend
    obtain ⟨e, he, hd⟩ := Option.bind_eq_some_iff.mp hsubtitle
    exact .of_skipBlanks <| .of_lit? he <| .of_skipBlanks <| .of_quoted? hd <| .of_callEnd? hend

theorem closed_of_position? {cs : List Char} {form : LineForm} (h : position? cs = some form) :
    Closed cs := by
  simp only [position?, Option.bind_eq_bind, Option.bind_eq_some_iff, Prod.exists] at h
  obtain ⟨a, ha, b, hb, p, c, hc, d, hd, u, hdone, -⟩ := h
  exact .of_lit? ha <| .of_skipBlanks <| .of_lit? hb <| .of_coordinates? hc <|
    .of_done? (closed_of_mem (by simp)) hd hdone

theorem closed_of_nodePosition? {label : String} {cs : List Char} {p : Position}
    (h : nodePosition? label cs = some p) : Closed cs := by
  simp only [nodePosition?, Option.bind_eq_bind, Option.bind_eq_some_iff, Prod.exists] at h
  obtain ⟨a, ha, b, hb, c, hc, d, hd, q, e, he, g, hg, u, hdone, -⟩ := h
  exact .of_lit? ha <| .of_skipBlanks <| .of_lit? hb <| .of_skipBlanks <| .of_lit? hc <|
    .of_lit? hd <| .of_skipBlanks <| .of_coordinates? he <| .of_skipBlanks <|
    .of_done? (closed_of_mem (by simp)) hg hdone

theorem closed_of_regionStart? {cs : List Char} {form : LineForm} (h : regionStart? cs = some form) :
    Closed cs := by
  simp only [regionStart?, Option.bind_eq_bind, Option.bind_eq_some_iff, Prod.exists] at h
  obtain ⟨a, ha, b, hb, c, hc, name, u, hname, -⟩ := h
  obtain ⟨front, rest, rfl, hrest⟩ := exists_append_of_afterBlanks hname
  obtain ⟨behind, rfl, -, hclosing⟩ := exists_of_shortestSome hrest
  obtain ⟨d, hd, hdone⟩ := Option.bind_eq_some_iff.mp hclosing
  exact .of_lit? ha <| .of_skipBlanks <| .of_lit? hb <| .of_skipBlanks <| .of_lit? hc <|
    Closed.append (Closed.append (.of_skipBlanks <| .of_done? (closed_of_mem (by simp)) hd hdone) _) _

theorem closed_of_external? {cs : List Char} {form : LineForm} (h : external? cs = some form) :
    Closed cs := by
  simp only [external?, Option.bind_eq_bind, Option.bind_eq_some_iff, Prod.exists] at h
  obtain ⟨a, ha, -, -, name, b, hb, c, hc, u, hend, -⟩ := h
  exact .of_lit? ha <| .of_skipBlanks <| .of_word? hb <| .of_skipBlanks <| .of_lit? hc <|
    .of_dropWhile <| .of_callEnd? hend

/-- The patterns that an arrow at the end of a line does not rule out. -/
def openPatterns : List (List Char → Option LineForm) :=
  [lineComment?, blockComment?, choice?, divert?, branch?, inclusion?]

/-- Any other pattern refuses a line with a dash that ends in a name. -/
theorem eq_none_of_mem_patterns {p : List Char → Option LineForm} (hp : p ∈ patterns)
    (hopen : p ∉ openPatterns) {cs : List Char} (hdash : '-' ∈ cs) (hclosed : ¬Closed cs) :
    p cs = none := by
  by_contra hne
  obtain ⟨form, h⟩ := Option.ne_none_iff_exists'.mp hne
  cases makes_of_mem_patterns hp h with
  -- it takes no dash
  | knotHeader => exact dash_not_mem_of_knotHeader? h hdash
  | stitchHeader => exact dash_not_mem_of_stitchHeader? h hdash
  | regionEnd => exact dash_not_mem_of_regionEnd? h hdash
  | conditionalOpen => simp at hdash
  | conditionalClose => simp at hdash
  -- the line has to end in a mark that closes
  | position => exact hclosed (closed_of_position? h)
  | startPosition hplace => exact hclosed (closed_of_nodePosition? hplace)
  | endPosition hplace => exact hclosed (closed_of_nodePosition? hplace)
  | regionStart => exact hclosed (closed_of_regionStart? h)
  | setFlag => exact hclosed (closed_of_flagCall? h)
  | removeFlag => exact hclosed (closed_of_flagCall? h)
  | transition => exact hclosed (closed_of_transition? h)
  | media _ htag => exact hclosed (closed_of_tag? htag)
  | fakeType hd => exact hclosed (closed_of_duration? hd)
  | wait hd => exact hclosed (closed_of_duration? hd)
  | sideStory htag => exact hclosed (closed_of_tag? htag)
  | external => exact hclosed (closed_of_external? h)
  -- it is open
  | comment | blockComment | choice | markers | divert | branch | inclusion => simp [openPatterns] at hopen

/-- Nor does any other pattern take out a target or the rest of a line. -/
theorem reword_of_mem_patterns {p : List Char → Option LineForm} (hp : p ∈ patterns)
    (hopen : p ∉ openPatterns) {cs : List Char} {form : LineForm} (h : p cs = some form)
    (w : Rewording) : form.reword w = form := by
  cases makes_of_mem_patterns hp h with
  | choice | divert | branch | inclusion => simp [openPatterns] at hopen
  | _ => rfl

/-! ### What stands in front of the arrow -/

/-- A text in front of an arrow leads to no target itself, since no target holds an arrow. -/
theorem arrowTarget?_toArrow_of_ne_nil (hf : f ≠ []) : arrowTarget? (toArrow f bs t) = none := by
  by_contra hne
  obtain ⟨t', h⟩ := Option.ne_none_iff_exists'.mp hne
  have hcount := count_gt_of_arrowTarget? h
  obtain ⟨-, bs', ds', hcs, -⟩ := arrowTarget?_sound h
  obtain ⟨a, f', rfl⟩ := List.exists_cons_of_ne_nil hf
  cases f' with
  | nil => simp [toArrow] at hcs
  | cons b f' =>
    rw [toArrow, List.cons_append, List.cons_append, List.cons.injEq, List.cons.injEq] at hcs
    obtain ⟨rfl, rfl, -⟩ := hcs
    simp [toArrow] at hcount

theorem skipBlanks_toArrow (f bs t : List Char) :
    skipBlanks (toArrow f bs t) = toArrow (skipBlanks f) bs t := by
  obtain ⟨as, has, hblank⟩ := exists_skipBlanks f
  conv_lhs => rw [has, toArrow_append, skipBlanks_append_of_blank hblank]
  refine skipBlanks_of_head fun c hc => ?_
  cases hskip : skipBlanks f with
  | nil =>
    rw [hskip] at hc
    obtain rfl : '-' = c := by simpa [toArrow] using hc
    decide
  | cons d ds =>
    rw [hskip] at hc
    obtain rfl : d = c := by simpa [toArrow] using hc
    exact head_skipBlanks (show d ∈ (skipBlanks f).head? by rw [hskip]; rfl)

theorem stripChars_toArrow (ht : IsTarget t) :
    stripChars (toArrow f bs t) = toArrow (skipBlanks f) bs t := by
  rw [stripChars, skipBlanks_toArrow]
  refine dropTrailingBlanks_of_last fun c hc => ?_
  have hlast : (toArrow (skipBlanks f) bs t).getLast? = t.getLast? := by
    have happend : toArrow (skipBlanks f) bs t = (skipBlanks f ++ '-' :: '>' :: bs) ++ t := by
      simp [toArrow]
    rw [happend, List.getLast?_append_of_ne_nil _ ht.spec.1]
  rw [hlast] at hc
  exact ht.trimmed.2 c hc

/-- What stands in front of the arrow does not depend on the target. -/
theorem dividedByArrow?_toArrow (ht : IsTarget t) (hbs : ∀ c ∈ bs, isBlank c = true) (hf : '\n' ∉ f) :
    dividedByArrow? (toArrow f bs t) = some (dropTrailingBlanks f, t) := by
  obtain ⟨as, has, hasBlank⟩ : ∃ as, f = dropTrailingBlanks f ++ as ∧ ∀ c ∈ as, isBlank c = true := by
    obtain ⟨as, has, hblank⟩ := exists_skipBlanks f.reverse
    refine ⟨as.reverse, ?_, fun c hc => hblank c (List.mem_reverse.mp hc)⟩
    rw [dropTrailingBlanks_eq, ← List.reverse_append, ← has, List.reverse_reverse]
  have hlast : ∀ c ∈ (dropTrailingBlanks f).getLast?, isBlank c = false := by
    intro c hc
    rw [dropTrailingBlanks_eq, List.getLast?_reverse] at hc
    exact head_skipBlanks hc
  have hline : '\n' ∉ dropTrailingBlanks f := fun hmem => hf (by rw [has]; exact List.mem_append_left _ hmem)
  have hcs : toArrow f bs t = dropTrailingBlanks f ++ toArrow as bs t := by
    conv_lhs => rw [has, toArrow_append]
  rw [hcs]
  refine shortest_append ?_ hline fun q s hqs hs => ?_
  · have hnil : skipBlanks as = [] := by
      rw [← List.append_nil as, skipBlanks_append_of_blank hasBlank, skipBlanks_nil]
    rw [skipBlanks_toArrow, hnil]
    exact arrowTarget?_of_isTarget ht hbs
  · -- an arrow that began earlier would have this one in its target
    have hslast : ∀ c ∈ s.getLast?, isBlank c = false := by
      intro c hc
      refine hlast c ?_
      rw [Option.mem_def] at hc ⊢
      rw [hqs, List.getLast?_append, hc]
      rfl
    obtain ⟨hskip, hne⟩ := skipBlanks_append_of_last (r := toArrow as bs t) hs hslast
    rw [hskip, ← toArrow_append]
    exact arrowTarget?_toArrow_of_ne_nil (by simp [hne])

/-! ### The patterns that are left -/

variable {w : Rewording} {t' : List Char}

/-- A rewording that changes the target at the end of a line, wherever in `f` the line begins. -/
structure Rewords (w : Rewording) (f bs t t' : List Char) : Prop where
  target : w.target (String.ofList t) = String.ofList t'
  raw : ∀ g, g <:+ f → w.raw (String.ofList (toArrow g bs t)) = String.ofList (toArrow g bs t')

/-- A text without a dash stands in front of the arrow or not at all. -/
theorem lit?_toArrow {p : String} (hp : '-' ∉ p.toList) (f bs t : List Char) :
    lit? p (toArrow f bs t) = (lit? p f).map fun g => toArrow g bs t := by
  unfold lit?
  generalize p.toList = p at hp
  induction p generalizing f with
  | nil => rfl
  | cons a p ih =>
    rw [List.mem_cons, not_or] at hp
    cases f with
    | nil => simp [toArrow, List.isPrefixOf?, Ne.symm hp.1]
    | cons b f =>
      rw [show toArrow (b :: f) bs t = b :: toArrow f bs t from rfl, List.isPrefixOf?,
        List.isPrefixOf?]
      split
      · exact ih f hp.2
      · rfl

theorem head?_toArrow (f bs t : List Char) : (toArrow f bs t).head? = f.head?.or (some '-') := by
  cases f <;> rfl

theorem onOneLine_toArrow (hline : '\n' ∉ toArrow f bs t) {g : List Char} (hg : g <:+ f) :
    onOneLine (toArrow g bs t) = true := by
  obtain ⟨p, rfl⟩ := hg
  rw [toArrow_append, List.mem_append, not_or] at hline
  simpa [onOneLine] using hline.2

theorem inclusion?_toArrow (h : Rewords w f bs t t') (hline : '\n' ∉ toArrow f bs t)
    (hline' : '\n' ∉ toArrow f bs t') :
    inclusion? (toArrow f bs t') = (inclusion? (toArrow f bs t)).map (LineForm.reword w) := by
  rw [inclusion?, inclusion?, lit?_toArrow (by decide), lit?_toArrow (by decide)]
  cases hlit : lit? "INCLUDE" f with
  | none => rfl
  | some g =>
    have hg : skipBlanks g <:+ f := by
      rw [lit?_eq_some_iff.mp hlit]
      exact (List.dropWhile_suffix _).trans (List.suffix_append _ _)
    simp only [Option.map_some, Option.bind_eq_bind, Option.bind_some, head?_toArrow, skipBlanks_toArrow,
      onOneLine_toArrow hline hg, onOneLine_toArrow hline' hg]
    cases (g.head?.or (some '-')).any isBlank with
    | false => rfl
    | true => simp [guard, toArrow_ne_nil, LineForm.reword, h.raw _ hg]

theorem divert?_toArrow (h : Rewords w f bs t t') (ht : IsTarget t) (ht' : IsTarget t')
    (hbs : ∀ c ∈ bs, isBlank c = true) :
    divert? (toArrow f bs t') = (divert? (toArrow f bs t)).map (LineForm.reword w) := by
  rw [divert?, divert?]
  by_cases hf : f = []
  · subst hf
    rw [toArrow, List.nil_append, toArrow, List.nil_append, arrowTarget?_of_isTarget ht hbs,
      arrowTarget?_of_isTarget ht' hbs, Option.map_some, Option.map_some, Option.map_some, LineForm.reword,
      h.target]
  · rw [arrowTarget?_toArrow_of_ne_nil hf, arrowTarget?_toArrow_of_ne_nil hf]
    rfl

theorem lineComment?_toArrow (w : Rewording) (f bs t t' : List Char) :
    lineComment? (toArrow f bs t') = (lineComment? (toArrow f bs t)).map (LineForm.reword w) := by
  rw [lineComment?, lineComment?, lit?_toArrow (by decide), lit?_toArrow (by decide)]
  cases lit? "//" f <;> rfl

/-- A comment is closed in front of the arrow or not at all. -/
theorem occursIn_toArrow (ht : IsTarget t) (hbs : ∀ c ∈ bs, isBlank c = true) (f : List Char) :
    occursIn ['*', '/'] (toArrow f bs t) = occursIn ['*', '/'] f := by
  have hstar : '*' ∉ '-' :: '>' :: (bs ++ t) := by
    have hblank : '*' ∉ bs := fun hmem => absurd (hbs '*' hmem) (by decide)
    have htarget : '*' ∉ t := fun hmem =>
      (ht.spec.2.1 '*' hmem).elim (fun h => absurd h (by decide)) fun h => absurd h (by decide)
    simp [hblank, htarget]
  induction f with
  | nil =>
    have harrow := Redirected.occursIn_append (b := '/') hstar []
    rwa [List.append_nil] at harrow
  | cons c f ih =>
    rw [show toArrow (c :: f) bs t = c :: toArrow f bs t from rfl, occursIn, occursIn, ih]
    cases f with
    | nil => simp [toArrow, List.isPrefixOf]
    | cons d f => simp [toArrow, List.isPrefixOf]

theorem blockComment?_toArrow (w : Rewording) (ht : IsTarget t) (ht' : IsTarget t')
    (hbs : ∀ c ∈ bs, isBlank c = true) :
    blockComment? (toArrow f bs t') = (blockComment? (toArrow f bs t)).map (LineForm.reword w) := by
  rw [blockComment?, blockComment?, lit?_toArrow (by decide), lit?_toArrow (by decide)]
  cases lit? "/*" f with
  | none => rfl
  | some g =>
    simp only [Option.map_some, Option.bind_eq_bind, Option.bind_some, occursIn_toArrow ht hbs,
      occursIn_toArrow ht' hbs]
    rfl

theorem takeWhile_dropWhile_toArrow {p : Char → Bool} (hp : p '-' = false) (f bs t : List Char) :
    (toArrow f bs t).takeWhile p = f.takeWhile p ∧
      (toArrow f bs t).dropWhile p = toArrow (f.dropWhile p) bs t := by
  induction f with
  | nil => simp [toArrow, hp]
  | cons c f ih =>
    rw [show toArrow (c :: f) bs t = c :: toArrow f bs t from rfl]
    cases hc : p c with
    | true => simp [hc, ih.1, ih.2]
    | false => simp [hc, toArrow]

/-- Only the divert of a choice depends on the target. -/
theorem choiceForm_toArrow (h : Rewords w f bs t t') (ht : IsTarget t) (ht' : IsTarget t')
    (hbs : ∀ c ∈ bs, isBlank c = true) (depth : Nat) (sticky : Bool) {g : List Char} (hg : '\n' ∉ g) :
    choiceForm depth (choiceHead sticky (toArrow g bs t')) =
      (choiceForm depth (choiceHead sticky (toArrow g bs t))).reword w := by
  have hform : ∀ {u : List Char}, IsTarget u → choiceForm depth (choiceHead sticky (toArrow g bs u)) =
      .choice depth { choiceHead sticky (toArrow g bs t) with divert := some (String.ofList u) } := by
    intro u hu
    unfold choiceForm choiceHead
    rw [dividedByArrow?_toArrow hu hbs hg, dividedByArrow?_toArrow ht hbs hg]
    cases hinner : bracketed? (stripChars (dropTrailingBlanks g)) <;> simp [hinner]
  rw [hform ht, hform ht', LineForm.reword, ChoiceHead.reword, Option.map_some, h.target]

theorem choice?_toArrow (h : Rewords w f bs t t') (ht : IsTarget t) (ht' : IsTarget t')
    (hbs : ∀ c ∈ bs, isBlank c = true) (hline : '\n' ∉ toArrow f bs t)
    (hline' : '\n' ∉ toArrow f bs t') :
    choice? (toArrow f bs t') = (choice? (toArrow f bs t)).map (LineForm.reword w) := by
  have hsticky : sticky? (toArrow f bs t') = sticky? (toArrow f bs t) := by
    cases f with
    | nil => rfl
    | cons c f =>
      rw [toArrow, toArrow, List.cons_append, List.cons_append]
      unfold sticky?
      split <;> simp_all
  have hf : '\n' ∉ f.dropWhile isMarker := fun hmem =>
    hline (List.mem_append_left _ ((List.dropWhile_sublist _).subset hmem))
  obtain ⟨htake, hdrop⟩ := takeWhile_dropWhile_toArrow (p := isMarker) (by decide) f bs t
  obtain ⟨htake', hdrop'⟩ := takeWhile_dropWhile_toArrow (p := isMarker) (by decide) f bs t'
  rw [choice?_eq, choice?_eq, hsticky, htake, htake', hdrop, hdrop',
    onOneLine_toArrow hline (List.dropWhile_suffix _), onOneLine_toArrow hline' (List.dropWhile_suffix _)]
  cases sticky? (toArrow f bs t) with
  | none => rfl
  | some sticky =>
    rw [Option.bind_some, Option.bind_some, if_pos rfl, if_pos rfl, Option.map_some,
      choiceForm_toArrow h ht ht' hbs _ _ hf]

/-! ### Branches -/

theorem colon_not_mem_arrow (ht : IsTarget t) (hbs : ∀ c ∈ bs, isBlank c = true) :
    ':' ∉ '-' :: '>' :: (bs ++ t) := by
  have hblank : ':' ∉ bs := fun hmem => absurd (hbs ':' hmem) (by decide)
  have htarget : ':' ∉ t := fun hmem =>
    (ht.spec.2.1 ':' hmem).elim (fun h => absurd h (by decide)) fun h => absurd h (by decide)
  simp [hblank, htarget]

theorem shortest_afterColon?_eq_none {cs : List Char} (h : ':' ∉ cs) : shortest afterColon? cs = none := by
  by_contra hne
  obtain ⟨⟨p, r⟩, hsome⟩ := Option.ne_none_iff_exists'.mp hne
  obtain ⟨rest, rfl, hrest⟩ := exists_of_shortest hsome
  obtain ⟨as, bs, rfl, -⟩ := afterColon?_sound hrest
  simp at h

theorem afterColon?_toArrow (hline : '\n' ∉ toArrow f bs t) :
    afterColon? (toArrow f bs t) = (afterColon? f).map fun g => toArrow g bs t := by
  have hf : '\n' ∉ f := fun hmem => hline (List.mem_append_left _ hmem)
  rw [afterColon?, afterColon?, skipBlanks_toArrow, lit?_toArrow (by decide)]
  cases hlit : lit? ":" (skipBlanks f) with
  | none => rfl
  | some g =>
    have hg : skipBlanks g <:+ f := by
      have hskip : g <:+ skipBlanks f := by
        rw [lit?_eq_some_iff.mp hlit]
        exact List.suffix_append _ _
      exact (List.dropWhile_suffix _).trans (hskip.trans (List.dropWhile_suffix _))
    have hone : onOneLine (skipBlanks g) = true := by
      simpa [onOneLine] using fun hmem => hf (hg.subset hmem)
    simp [skipBlanks_toArrow, onOneLine_toArrow hline hg, hone, guard]

/-- The colon of a branch stands in front of the arrow. -/
theorem branchParts?_toArrow (ht : IsTarget t) (hbs : ∀ c ∈ bs, isBlank c = true)
    (hline : '\n' ∉ toArrow f bs t) :
    branchParts? (toArrow f bs t) = (branchParts? f).map fun (c, r) => (c, toArrow r bs t) := by
  have harrow := colon_not_mem_arrow ht hbs
  have htip : ':' ∉ '>' :: (bs ++ t) := fun hmem => harrow (List.mem_cons_of_mem _ hmem)
  -- the search for the colon is the same in front of the arrow, and goes on in vain behind it
  have hshortest : ∀ g, '\n' ∉ toArrow g bs t → shortest afterColon? (toArrow g bs t) =
      (shortest afterColon? g).map fun (c, r) => (c, toArrow r bs t) := by
    intro g
    induction g with
    | nil => exact fun _ => shortest_afterColon?_eq_none harrow
    | cons c g ih =>
      intro hline
      have hhere := afterColon?_toArrow hline
      have hc : c ≠ '\n' := fun hc => hline (hc ▸ List.mem_cons_self)
      rw [show toArrow (c :: g) bs t = c :: toArrow g bs t from rfl] at hhere ⊢
      rw [Redirected.shortest_cons hc, Redirected.shortest_cons hc, hhere,
        ih fun hmem => hline (List.mem_cons_of_mem _ hmem)]
      cases afterColon? (c :: g) with
      | some r => rfl
      | none => cases shortest afterColon? g <;> rfl
  have hsome : ∀ g, '\n' ∉ toArrow g bs t → shortestSome afterColon? (toArrow g bs t) =
      (shortestSome afterColon? g).map fun (c, r) => (c, toArrow r bs t) := by
    intro g hline
    cases g with
    | nil =>
      have htail : shortestSome afterColon? (toArrow [] bs t) =
          (shortest afterColon? ('>' :: (bs ++ t))).map fun (p, r) => ('-' :: p, r) := rfl
      rw [htail, shortest_afterColon?_eq_none htip]
      rfl
    | cons c g =>
      rw [show toArrow (c :: g) bs t = c :: toArrow g bs t from rfl, shortestSome, shortestSome,
        hshortest g fun hmem => hline (List.mem_cons_of_mem _ hmem)]
      split
      · rfl
      · cases shortest afterColon? g <;> rfl
  have hafter : ∀ g, '\n' ∉ toArrow g bs t → afterBlanks (shortestSome afterColon?) (toArrow g bs t) =
      (afterBlanks (shortestSome afterColon?) g).map fun (c, r) => (c, toArrow r bs t) := by
    intro g
    induction g with
    | nil => exact fun hline => hsome [] hline
    | cons c g ih =>
      intro hline
      have hhere := hsome (c :: g) hline
      rw [show toArrow (c :: g) bs t = c :: toArrow g bs t from rfl] at hhere ⊢
      rw [afterBlanks, afterBlanks, hhere, ih fun hmem => hline (List.mem_cons_of_mem _ hmem)]
      split
      · cases afterBlanks (shortestSome afterColon?) g <;> rfl
      · rfl
  cases f with
  | nil =>
    have hparts : branchParts? (toArrow [] bs t) =
        (shortest afterColon? (bs ++ t)).map fun (p, r) => ('>' :: p, r) := rfl
    rw [hparts, shortest_afterColon?_eq_none fun hmem => htip (List.mem_cons_of_mem _ hmem)]
    rfl
  | cons c f =>
    by_cases hc : c = '-'
    · subst hc
      exact hafter f fun hmem => hline (List.mem_cons_of_mem _ hmem)
    · rw [show toArrow (c :: f) bs t = c :: toArrow f bs t from rfl, branchParts?_eq_none_of_head hc,
        branchParts?_eq_none_of_head hc]
      rfl

theorem suffix_of_branchParts? {cs c r : List Char} (h : branchParts? cs = some (c, r)) : r <:+ cs := by
  simp only [branchParts?, Option.bind_eq_bind, Option.bind_eq_some_iff] at h
  obtain ⟨rest, hrest, h⟩ := h
  obtain ⟨front, behind, rfl, hsome⟩ := exists_append_of_afterBlanks h
  obtain ⟨tail, rfl, -, hcolon⟩ := exists_of_shortestSome hsome
  obtain ⟨as, bs, rfl, -⟩ := afterColon?_sound hcolon
  rw [lit?_eq_some_iff.mp hrest]
  exact ⟨"-".toList ++ front ++ c ++ as ++ ':' :: bs, by simp⟩

theorem branch?_toArrow (h : Rewords w f bs t t') (ht : IsTarget t) (ht' : IsTarget t')
    (hbs : ∀ c ∈ bs, isBlank c = true) (hline : '\n' ∉ toArrow f bs t)
    (hline' : '\n' ∉ toArrow f bs t') :
    branch? (toArrow f bs t') = (branch? (toArrow f bs t)).map (LineForm.reword w) := by
  rw [branch?, branch?, branchParts?_toArrow ht hbs hline, branchParts?_toArrow ht' hbs hline']
  cases hparts : branchParts? f with
  | none => rfl
  | some parts =>
    obtain ⟨c, r⟩ := parts
    have hr : skipBlanks r <:+ f := (List.dropWhile_suffix _).trans (suffix_of_branchParts? hparts)
    simp only [Option.map_some, stripChars_toArrow ht, stripChars_toArrow ht', LineForm.reword, h.raw _ hr]

/-! ### All lines -/

theorem textForm_toArrow (h : Rewords w f bs t t') (ht : IsTarget t) (ht' : IsTarget t')
    (hbs : ∀ c ∈ bs, isBlank c = true) (hf : '\n' ∉ f) :
    textForm (toArrow f bs t') = (textForm (toArrow f bs t)).reword w := by
  -- the arrow has a dash and no other opening, so the openings are those of the front
  have hopening : ∀ p ∈ syntaxOpenings, (lit? p (toArrow f bs t')).isSome =
      (lit? p (toArrow f bs t)).isSome := by
    intro p hp
    by_cases hdash : p = "-"
    · subst hdash
      cases f with
      | nil => rfl
      | cons c f => simp [lit?, List.isPrefixOf?, toArrow]; split <;> rfl
    · have hnot : '-' ∉ p.toList := by
        have hrest : ∀ p ∈ syntaxOpenings.erase "-", '-' ∉ p.toList := by decide
        exact hrest p ((List.mem_erase_of_ne hdash).mpr hp)
      rw [lit?_toArrow hnot, lit?_toArrow hnot, Option.isSome_map, Option.isSome_map]
  have hany : (syntaxOpenings.any fun p => (lit? p (toArrow f bs t')).isSome) =
      syntaxOpenings.any fun p => (lit? p (toArrow f bs t)).isSome := by
    rw [Bool.eq_iff_iff, List.any_eq_true, List.any_eq_true]
    constructor
    · rintro ⟨p, hp, hsome⟩
      exact ⟨p, hp, by rwa [← hopening p hp]⟩
    · rintro ⟨p, hp, hsome⟩
      exact ⟨p, hp, by rwa [hopening p hp]⟩
  rw [textForm, textForm, hany, dividedByArrow?_toArrow ht hbs hf, dividedByArrow?_toArrow ht' hbs hf]
  split
  · rfl
  · rw [LineForm.reword, Option.map_some, h.target]

/-- The form of a line that ends in an arrow depends on the target there and on nothing else behind the
arrow. -/
theorem formOf_toArrow (h : Rewords w f bs t t') (ht : IsTarget t) (ht' : IsTarget t')
    (hbs : ∀ c ∈ bs, isBlank c = true) (hline : '\n' ∉ toArrow f bs t) :
    formOf (toArrow f bs t') = (formOf (toArrow f bs t)).reword w := by
  have hline' : '\n' ∉ toArrow f bs t' := by
    have hnew := ht'.newline_not_mem
    simp [toArrow] at hline ⊢
    exact ⟨hline.1, hline.2.1, hnew⟩
  -- only six patterns may match a line that ends in an arrow, and another target does not change which one does
  have hpattern : ∀ p ∈ patterns, p (toArrow f bs t') = (p (toArrow f bs t)).map (LineForm.reword w) := by
    intro p hp
    by_cases hopen : p ∈ openPatterns
    · simp only [openPatterns, List.mem_cons, List.not_mem_nil, or_false] at hopen
      rcases hopen with rfl | rfl | rfl | rfl | rfl | rfl
      · exact lineComment?_toArrow w f bs t t'
      · exact blockComment?_toArrow w ht ht' hbs
      · exact choice?_toArrow h ht ht' hbs hline hline'
      · exact divert?_toArrow h ht ht' hbs
      · exact branch?_toArrow h ht ht' hbs hline hline'
      · exact inclusion?_toArrow h hline hline'
    · rw [eq_none_of_mem_patterns hp hopen (dash_mem_toArrow f bs t) (not_closed_toArrow ht),
        eq_none_of_mem_patterns hp hopen (dash_mem_toArrow f bs t') (not_closed_toArrow ht'), Option.map_none]
  have hfind : ∀ ps : List (List Char → Option LineForm),
      (∀ p ∈ ps, p (toArrow f bs t') = (p (toArrow f bs t)).map (LineForm.reword w)) →
      (ps.findSome? fun p => p (toArrow f bs t')) =
        (ps.findSome? fun p => p (toArrow f bs t)).map (LineForm.reword w) := by
    intro ps hps
    induction ps with
    | nil => rfl
    | cons p ps ih =>
      rw [List.forall_mem_cons] at hps
      rw [List.findSome?_cons, List.findSome?_cons, hps.1, ih hps.2]
      cases p (toArrow f bs t) <;> rfl
  rw [formOf, formOf, if_neg (toArrow_ne_nil f bs t'), if_neg (toArrow_ne_nil f bs t),
    hfind patterns hpattern]
  cases patterns.findSome? fun p => p (toArrow f bs t) with
  | some form => rfl
  | none => exact textForm_toArrow h ht ht' hbs fun hmem => hline (List.mem_append_left _ hmem)

end StoryScript.Line
