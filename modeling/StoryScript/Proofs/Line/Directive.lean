import StoryScript.Document.Rendering
import StoryScript.Proofs.Line.Position
import StoryScript.Proofs.Text.Lines

/-!
# Lines in front of the first knot

The line that is written for the declaration of a function or for the name of another script file is
read as that declaration or that name (`External.Returns`, `ReturnsInclusion`), whatever line it was
first read from (`Line.returns_of_external`, `Line.returns_of_inclusion`). The name of a region is part of
its marker and holds no line feed (`Line.newline_not_mem_of_regionStart`).
-/

namespace StoryScript

open Text

/-! ### Declarations -/

/-- A parameter of a function: one piece of a line between commas, without blanks around it. -/
structure IsParam (cs : List Char) : Prop where
  ne_nil : cs ≠ []
  trimmed : Trimmed cs
  comma : ',' ∉ cs
  paren : ')' ∉ cs
  line : '\n' ∉ cs

/-- The line of a declaration is read as that declaration. -/
structure External.Returns (e : External) : Prop where
  line : '\n' ∉ e.render.toList
  form : (Line.ofText e.render).form = .external e.name e.params

/-- The line of an inclusion is read as that inclusion. -/
structure ReturnsInclusion (path : String) : Prop where
  line : '\n' ∉ ("INCLUDE " ++ path).toList
  form : (Line.ofText ("INCLUDE " ++ path)).form = .inclusion path

namespace Line

/-- The characters of parameters with commas between them. -/
theorem toList_join_params (p : String) (ps : List String) : (Text.join ", " (p :: ps)).toList =
    joinWith ',' (p.toList :: ps.map fun q => ' ' :: q.toList) := by
  induction ps generalizing p with
  | nil => simp [Text.join, joinWith, String.intercalate_singleton]
  | cons q ps ih =>
    have hq := ih q
    rw [Text.join] at hq
    rw [Text.join, String.intercalate_cons_of_ne_nil (by simp), String.toList_append,
      String.toList_append, hq, List.map_cons, joinWith_cons _ p.toList (by simp)]
    cases ps with
    | nil => simp [joinWith]
    | cons r ps => simp [joinWith]

theorem not_mem_join_params {params : List String} {c : Char} (hc : c ≠ ',') (hspace : c ≠ ' ')
    (h : ∀ p ∈ params, c ∉ p.toList) : c ∉ (Text.join ", " params).toList := by
  induction params with
  | nil => simp [Text.join]
  | cons p params ih =>
    rw [List.forall_mem_cons] at h
    cases params with
    | nil => simpa [Text.join, String.intercalate_singleton] using h.1
    | cons q params =>
      have hrest := ih h.2
      rw [Text.join] at hrest
      rw [Text.join, String.intercalate_cons_of_ne_nil (by simp), String.toList_append,
        String.toList_append, List.mem_append, List.mem_append, not_or, not_or]
      exact ⟨⟨h.1, by simp [hc, hspace]⟩, hrest⟩

/-- Parameters that are joined and cut again are the same parameters. -/
theorem params_join {params : List String} (h : ∀ p ∈ params, IsParam p.toList) :
    (((splitAt ',' (Text.join ", " params).toList).map stripChars).filter (· ≠ [])).map
      String.ofList = params := by
  cases params with
  | nil => rfl
  | cons p params =>
    have hcomma : ∀ cs ∈ p.toList :: params.map (fun q => ' ' :: q.toList), ',' ∉ cs := by
      rw [List.forall_mem_cons, List.forall_mem_map]
      refine ⟨(h p List.mem_cons_self).comma, fun q hq => ?_⟩
      rw [List.mem_cons, not_or]
      exact ⟨by decide, (h q (List.mem_cons_of_mem _ hq)).comma⟩
    have hstrip : (p.toList :: params.map fun q => ' ' :: q.toList).map stripChars =
        (p :: params).map String.toList := by
      rw [List.map_cons, List.map_map, List.map_cons,
        stripChars_of_trimmed (h p List.mem_cons_self).trimmed]
      refine congrArg _ (List.map_congr_left fun q hq => ?_)
      change stripChars ([' '] ++ q.toList) = q.toList
      rw [stripChars_append_of_blank isBlank_of_mem_space,
        stripChars_of_trimmed (h q (List.mem_cons_of_mem _ hq)).trimmed]
    have hfilter : ((p :: params).map String.toList).filter (· ≠ []) =
        (p :: params).map String.toList := by
      rw [List.filter_eq_self, List.forall_mem_map]
      exact fun q hq => decide_eq_true (h q hq).ne_nil
    rw [toList_join_params, splitAt_joinWith (by simp) hcomma, hstrip, hfilter, List.map_map]
    simp

theorem formOf_E (cs : List Char) : formOf ('E' :: cs) =
    ([external?, inclusion?].findSome? fun p => p ('E' :: cs)).getD (textForm ('E' :: cs)) := rfl

theorem formOf_I (cs : List Char) : formOf ('I' :: cs) =
    ([external?, inclusion?].findSome? fun p => p ('I' :: cs)).getD (textForm ('I' :: cs)) := rfl

/-- A declaration is read from its name and what stands between the parentheses. -/
theorem external?_append {name inside : List Char} (hname : IsName name) (hinside : ')' ∉ inside) :
    external? ("EXTERNAL ".toList ++ (name ++ '(' :: (inside ++ [')']))) =
      some (.external (String.ofList name)
        ((((splitAt ',' inside).map stripChars).filter (· ≠ [])).map String.ofList)) := by
  have hlit : lit? "EXTERNAL" ("EXTERNAL ".toList ++ (name ++ '(' :: (inside ++ [')']))) =
      some ([' '] ++ (name ++ '(' :: (inside ++ [')']))) := lit?_append "EXTERNAL" _
  have hskip : skipBlanks ([' '] ++ (name ++ '(' :: (inside ++ [')']))) =
      name ++ '(' :: (inside ++ [')']) := by
    rw [skipBlanks_append_of_blank isBlank_of_mem_space, skipBlanks_of_head]
    intro c hc
    rw [List.head?_append_of_ne_nil _ hname.ne_nil] at hc
    exact isBlank_of_isWord (hname.isWord c (List.mem_of_head? hc))
  have hword : word? (name ++ '(' :: (inside ++ [')'])) = some (name, '(' :: (inside ++ [')'])) :=
    word?_append hname fun c hc => by obtain rfl := Option.some.inj hc; decide
  have hparen : lit? "(" (skipBlanks ('(' :: (inside ++ [')']))) = some (inside ++ [')']) :=
    lit?_append "(" _
  obtain ⟨htake, hdrop⟩ := takeWhile_dropWhile_append
    (show ∀ c ∈ inside, decide (c ≠ ')') = true from fun c hc => by
      simpa using fun heq : c = ')' => hinside (heq ▸ hc))
    (show ∀ c ∈ [')'].head?, decide (c ≠ ')') = false by simp)
  have hend : callEnd? [')'] = some () := by decide
  rw [external?, hlit]
  simp only [Option.bind_eq_bind, Option.bind_some, hskip, hword, hparen, htake, hdrop, hend]
  rfl

/-- The line of a declaration with a name and parameters. -/
theorem returns_external {e : External} (hname : IsName e.name.toList)
    (hparams : ∀ p ∈ e.params, IsParam p.toList) : e.Returns := by
  have hparen := not_mem_join_params (c := ')') (by decide) (by decide) fun p hp =>
    (hparams p hp).paren
  have hline := not_mem_join_params (c := '\n') (by decide) (by decide) fun p hp =>
    (hparams p hp).line
  have hnameLine : '\n' ∉ e.name.toList := fun hmem =>
    absurd (hname.isWord _ hmem) (by decide)
  have hcs : e.render.toList = "EXTERNAL ".toList ++ (e.name.toList ++
      '(' :: ((Text.join ", " e.params).toList ++ [')'])) := by
    simp [External.render]
  have htrim : Trimmed e.render.toList := by
    have hlast : e.render.toList = 'E' :: (("XTERNAL ".toList ++ (e.name.toList ++
        '(' :: (Text.join ", " e.params).toList)) ++ [')']) := by
      rw [hcs]
      simp
    rw [hlast]
    exact (trimmed_singleton (by decide)).cons_append (by simp) (by decide) _
  have hexternal := external?_append hname hparen
  rw [params_join hparams, String.ofList_toList, ← hcs] at hexternal
  refine ⟨by simp [hcs, hnameLine, hline], ?_⟩
  have hE : ∃ cs, e.render.toList = 'E' :: cs := ⟨_, hcs⟩
  obtain ⟨cs, hE⟩ := hE
  rw [ofText_of_trimmed htrim]
  dsimp only
  rw [hE] at hexternal ⊢
  rw [formOf_E, List.findSome?, hexternal]
  rfl

/-- What is read for a declaration has a name and parameters. -/
theorem external?_sound {cs : List Char} (hline : '\n' ∉ cs) {name : String} {params : List String}
    (h : external? cs = some (.external name params)) :
    IsName name.toList ∧ ∀ p ∈ params, IsParam p.toList := by
  simp only [external?, Option.bind_eq_bind, Option.bind_eq_some_iff, Prod.exists,
    Option.some.injEq, LineForm.external.injEq] at h
  obtain ⟨r₁, h₁, -, -, w, r₂, hword, r₃, h₃, -, -, rfl, rfl⟩ := h
  obtain ⟨hcs, hname, -⟩ := word?_sound hword
  have hsub : ∀ {c}, c ∈ r₃ → c ∈ cs := fun {c} hc => by
    have hc : c ∈ skipBlanks r₁ := by
      rw [hcs]
      exact List.mem_append_right _ (skipBlanks_subset _ (lit?_subset h₃ hc))
    exact lit?_subset h₁ (skipBlanks_subset _ hc)
  refine ⟨by rwa [String.toList_ofList], ?_⟩
  rw [List.forall_mem_map]
  intro p hp
  rw [String.toList_ofList]
  obtain ⟨hp, hne⟩ := List.mem_filter.mp hp
  obtain ⟨q, hq, rfl⟩ := List.mem_map.mp hp
  have hpiece : ∀ {c}, c ∈ stripChars q → c ∈ r₃.takeWhile fun c => c ≠ ')' := fun {c} hc => by
    have hjoin := joinWith_splitAt ',' (r₃.takeWhile fun c => c ≠ ')')
    rw [← hjoin]
    exact mem_joinWith hq (stripChars_subset _ hc)
  refine ⟨by simpa using hne, trimmed_stripChars q, fun hc => ?_, fun hc => ?_, fun hc => ?_⟩
  · exact sep_not_mem_splitAt ',' _ q hq (stripChars_subset _ hc)
  · have := List.mem_takeWhile_imp (hpiece hc)
    simp at this
  · exact hline (hsub ((List.takeWhile_sublist _).subset (hpiece hc)))

/-! ### Inclusions -/

/-- An inclusion is read from any path without blanks around it. -/
theorem inclusion?_append {path : List Char} (hne : path ≠ []) (htrim : Trimmed path)
    (hline : '\n' ∉ path) :
    inclusion? ("INCLUDE ".toList ++ path) = some (.inclusion (String.ofList path)) := by
  have hlit : lit? "INCLUDE" ("INCLUDE ".toList ++ path) = some ([' '] ++ path) :=
    lit?_append "INCLUDE" _
  have hskip : skipBlanks ([' '] ++ path) = path := by
    rw [skipBlanks_append_of_blank isBlank_of_mem_space, skipBlanks_of_head htrim.1]
  have hone : onOneLine path = true := by simpa [onOneLine] using hline
  rw [inclusion?, hlit]
  simp only [Option.bind_eq_bind, Option.bind_some, hskip, hone]
  simp [hne, guard, isBlank_of_mem_space]

/-- The line of an inclusion with a path. -/
theorem returns_inclusion {path : String} (hne : path.toList ≠ []) (htrim : Trimmed path.toList)
    (hline : '\n' ∉ path.toList) : ReturnsInclusion path := by
  have hcs : ("INCLUDE " ++ path).toList = "INCLUDE ".toList ++ path.toList := String.toList_append
  have hI : "INCLUDE ".toList ++ path.toList = 'I' :: ("NCLUDE ".toList ++ path.toList) := rfl
  have htrim' : Trimmed ("INCLUDE " ++ path).toList := by
    rw [hcs, hI]
    exact htrim.cons_append hne (by decide) "NCLUDE ".toList
  have hread := inclusion?_append hne htrim hline
  rw [String.ofList_toList, hI] at hread
  refine ⟨by simp [hcs, hline], ?_⟩
  rw [ofText_of_trimmed htrim', hcs, hI]
  dsimp only
  rw [formOf_I, List.findSome?, (rfl : external? ('I' :: ("NCLUDE ".toList ++ path.toList)) = none),
    List.findSome?, hread]
  rfl

/-- What is read for an inclusion is a path without blanks around it. -/
theorem inclusion?_sound {cs : List Char} (htrim : Trimmed cs) (hline : '\n' ∉ cs) {path : String}
    (h : inclusion? cs = some (.inclusion path)) :
    path.toList ≠ [] ∧ Trimmed path.toList ∧ '\n' ∉ path.toList := by
  simp only [inclusion?, Option.bind_eq_bind, Option.bind_eq_some_iff, Option.some.injEq,
    LineForm.inclusion.injEq] at h
  obtain ⟨rest, hrest, -, -, u, hpath, rfl⟩ := h
  obtain ⟨bs, hbs, -⟩ := exists_skipBlanks rest
  have hne : skipBlanks rest ≠ [] := by
    intro hnil
    simp [hnil, guard] at hpath
  have hcs : cs = ("INCLUDE".toList ++ bs) ++ skipBlanks rest := by
    rw [List.append_assoc, ← hbs]
    exact lit?_eq_some_iff.mp hrest
  rw [String.toList_ofList]
  refine ⟨hne, ⟨fun c hc => head_skipBlanks hc, fun c hc => ?_⟩, fun hmem => ?_⟩
  · refine htrim.2 c ?_
    rw [hcs, List.getLast?_append_of_ne_nil _ hne]
    exact hc
  · rw [hcs] at hline
    exact hline (List.mem_append_right _ hmem)

end Line

/-! ### Where directives and markers come from -/

/-- The recogniser that a directive or the marker of a region comes from. -/
def LineForm.TakenFrom (cs : List Char) : LineForm → Prop
  | external name params => Line.external? cs = some (.external name params)
  | inclusion path => Line.inclusion? cs = some (.inclusion path)
  | regionStart name => Line.regionStart? cs = some (.regionStart name)
  | _ => True

namespace Line

theorem takenFrom_of_mem_patterns {p : List Char → Option LineForm} (hp : p ∈ patterns)
    {cs : List Char} {form : LineForm} (h : p cs = some form) : form.TakenFrom cs := by
  cases makes_of_mem_patterns hp h with
  | regionStart => exact h
  | external => exact h
  | inclusion => exact h
  | _ => trivial

theorem takenFrom_formOf (cs : List Char) : (formOf cs).TakenFrom cs := by
  rcases cases_of_formOf (rfl : formOf cs = formOf cs) with ⟨-, h⟩ | ⟨p, hp, h⟩ | ⟨-, -, h⟩
  · rw [h]
    trivial
  · exact takenFrom_of_mem_patterns hp h
  · rw [← h]
    unfold textForm
    split
    · trivial
    · split <;> trivial

/-- The declaration that a line is read as is read again from the line that is written for it. -/
theorem returns_of_external {s : String} (hs : '\n' ∉ s.toList) {e : External}
    (h : (ofText s).form = .external e.name e.params) : e.Returns := by
  have htaken := takenFrom_formOf (stripChars s.toList)
  rw [show formOf (stripChars s.toList) = .external e.name e.params from h] at htaken
  obtain ⟨hname, hparams⟩ := external?_sound (fun hmem => hs (mem_of_mem_stripChars hmem)) htaken
  exact returns_external hname hparams

/-- The inclusion that a line is read as is read again from the line that is written for it. -/
theorem returns_of_inclusion {s : String} (hs : '\n' ∉ s.toList) {path : String}
    (h : (ofText s).form = .inclusion path) : ReturnsInclusion path := by
  have htaken := takenFrom_formOf (stripChars s.toList)
  rw [show formOf (stripChars s.toList) = .inclusion path from h] at htaken
  obtain ⟨hne, htrim, hline⟩ := inclusion?_sound (trimmed_stripChars _)
    (fun hmem => hs (mem_of_mem_stripChars hmem)) htaken
  exact returns_inclusion hne htrim hline

/-- The name of a region is part of the line of its marker. -/
theorem newline_not_mem_of_regionStart {s : String} (hs : '\n' ∉ s.toList) {name : String}
    (h : (ofText s).form = .regionStart name) : '\n' ∉ name.toList := by
  have htaken := takenFrom_formOf (stripChars s.toList)
  rw [show formOf (stripChars s.toList) = .regionStart name from h] at htaken
  change regionStart? _ = _ at htaken
  simp only [regionStart?, Option.bind_eq_bind, Option.bind_eq_some_iff, Prod.exists,
    Option.some.injEq, LineForm.regionStart.injEq] at htaken
  obtain ⟨r₁, h₁, r₂, h₂, r₃, h₃, cs, u, hafter, rfl⟩ := htaken
  obtain ⟨front, behind, hfront, hshort⟩ := exists_append_of_afterBlanks hafter
  obtain ⟨rest, hrest, -⟩ := exists_of_shortestSome hshort
  rw [String.toList_ofList]
  intro hmem
  have hr₃ : '\n' ∈ r₃ := by
    rw [hfront, hrest]
    simp [hmem]
  have hr₂ : '\n' ∈ r₂ := skipBlanks_subset _ (lit?_subset h₃ hr₃)
  have hr₁ : '\n' ∈ r₁ := skipBlanks_subset _ (lit?_subset h₂ hr₂)
  exact hs (mem_of_mem_stripChars (lit?_subset h₁ hr₁))

end Line

end StoryScript
