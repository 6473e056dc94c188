import StoryScript.Proofs.Line.Arrow

/-!
# The lines of branches

The first line of a branch is a dash, a condition and a colon. A condition goes on up to the first
colon, so it holds none itself, unless it begins with one: something must stand in front of the colon
that ends it. A condition that checks a flag is kept as the name of the flag and printed in one
canonical way.

* `Guard.Readable` — what the guard of a branch that was read is like; it says that the guard can be
  read off its own printed condition.
* `Line.form_branch` — the printed line of a readable guard is a branch with that guard and nothing
  behind its colon.
* `Line.readable_of_branch?` — every guard that is read is readable.
-/

namespace StoryScript

open Text

/-- What the guard of a branch that was read is like. -/
structure Guard.Readable (g : Guard) : Prop where
  trimmed : Trimmed g.render.toList
  line : '\n' ∉ g.render.toList
  colon : ':' ∉ g.render.toList.tail
  guardOf_render : Line.guardOf g.render.toList = g

namespace Line

theorem branchParts?_eq_none_of_head {c : Char} (hc : c ≠ '-') (cs : List Char) :
    branchParts? (c :: cs) = none := by
  have hlit : lit? "-" (c :: cs) = none := lit?_eq_none_of_head (by simpa using hc.symm) (by simp)
  rw [branchParts?, hlit]
  rfl

/-! ### The colon behind a condition -/

theorem afterColon?_colon {cs : List Char} (h : '\n' ∉ cs) :
    afterColon? (':' :: cs) = some (skipBlanks cs) := by
  have hlit : lit? ":" (':' :: cs) = some cs := lit?_append ":" cs
  have hskip : skipBlanks (':' :: cs) = ':' :: cs := skipBlanks_of_head (by simp; decide)
  have hline : onOneLine (skipBlanks cs) = true := by
    have hmem : '\n' ∉ skipBlanks cs := fun hc => h ((List.dropWhile_sublist _).subset hc)
    simpa [onOneLine] using hmem
  simp [afterColon?, hskip, hlit, hline, guard]

theorem afterColon?_sound {cs r : List Char} (h : afterColon? cs = some r) :
    ∃ as bs, cs = as ++ ':' :: (bs ++ r) ∧ ∀ c ∈ as, isBlank c = true := by
  simp only [afterColon?, Option.bind_eq_bind, Option.bind_eq_some_iff] at h
  obtain ⟨rest, hrest, -, -, hr⟩ := h
  obtain ⟨as, has, hasBlank⟩ := exists_skipBlanks cs
  obtain ⟨bs, hbs, -⟩ := exists_skipBlanks rest
  have hcolon : skipBlanks cs = ':' :: rest := lit?_eq_some_iff.mp hrest
  refine ⟨as, bs, ?_, hasBlank⟩
  rw [← Option.some.inj hr, ← hbs, ← hcolon]
  exact has

/-- A condition is found again in front of its colon. -/
theorem branchParts?_append {c : List Char} (htrim : Trimmed c) (hline : '\n' ∉ c)
    (hcolon : ':' ∉ c.tail) :
    ∃ c', stripChars c' = c ∧ branchParts? ('-' :: ' ' :: (c ++ [':'])) = some (c', []) := by
  cases c with
  | nil => exact ⟨[' '], rfl, rfl⟩
  | cons d p =>
    refine ⟨d :: p, stripChars_of_trimmed htrim, ?_⟩
    have hd : isBlank d = false := htrim.1 d rfl
    have hnl : d ≠ '\n' := fun h => hline (by simp [h])
    have hp : '\n' ∉ p := fun h => hline (List.mem_cons_of_mem _ h)
    have hshort : shortest afterColon? (p ++ [':']) = some (p, []) := by
      refine shortest_append (afterColon?_colon (by simp)) hp fun q s hps hs => ?_
      -- what is left of the condition ends in no blank and holds no colon
      have hlast : ∀ c ∈ s.getLast?, isBlank c = false := by
        intro c hc
        refine htrim.2 c ?_
        rw [hps, ← List.cons_append, List.getLast?_append_of_ne_nil _ hs]
        exact hc
      obtain ⟨hskip, hne⟩ := skipBlanks_append_of_last (r := [':']) hs hlast
      by_contra hsome
      obtain ⟨r, hr⟩ := Option.ne_none_iff_exists'.mp hsome
      simp only [afterColon?, Option.bind_eq_bind, Option.bind_eq_some_iff] at hr
      obtain ⟨rest, hrest, -⟩ := hr
      rw [hskip] at hrest
      have hcons : skipBlanks s ++ [':'] = ':' :: rest := lit?_eq_some_iff.mp hrest
      obtain ⟨a, s', hs'⟩ := List.exists_cons_of_ne_nil hne
      rw [hs', List.cons_append, List.cons.injEq] at hcons
      have hmem : a ∈ skipBlanks s := by simp [hs']
      refine hcolon ?_
      rw [List.tail_cons, hps, ← hcons.1]
      exact List.mem_append_right _ ((List.dropWhile_sublist _).subset hmem)
    have hlit : lit? "-" ('-' :: ' ' :: (d :: p ++ [':'])) = some (' ' :: (d :: p ++ [':'])) :=
      lit?_append "-" (' ' :: (d :: p ++ [':']))
    have hafter : afterBlanks (shortestSome afterColon?) (' ' :: d :: (p ++ [':'])) =
        some (d :: p, []) := by
      have hspace : isBlank ' ' = true := by decide
      simp [afterBlanks, hspace, hd, shortestSome, hnl, hshort]
    rw [branchParts?, hlit]
    exact hafter

/-- A condition and what is left of its line behind the colon. -/
theorem branchParts?_sound {cs c r : List Char} (hline : '\n' ∉ cs)
    (h : branchParts? cs = some (c, r)) :
    ':' ∉ c.tail ∧ (∀ a ∈ c, a ∈ cs) ∧ ∀ a ∈ r, a ∈ cs := by
  simp only [branchParts?, Option.bind_eq_bind, Option.bind_eq_some_iff] at h
  obtain ⟨rest, hrest, h⟩ := h
  have hcs : cs = '-' :: rest := lit?_eq_some_iff.mp hrest
  obtain ⟨front, rest', hfront, hshort⟩ := exists_append_of_afterBlanks h
  cases rest' with
  | nil => simp [shortestSome] at hshort
  | cons d tail =>
    simp only [shortestSome] at hshort
    split at hshort
    · simp at hshort
    · simp only [Option.map_eq_some_iff, Prod.mk.injEq, Prod.exists] at hshort
      obtain ⟨p, r', hp, rfl, rfl⟩ := hshort
      obtain ⟨behind, htail, hcolon⟩ := exists_of_shortest hp
      obtain ⟨as, bs, hbehind, -⟩ := afterColon?_sound hcolon
      -- a dash, blanks, the condition from its first character on, the colon and the remainder
      have hall : cs = '-' :: (front ++ d :: (p ++ (as ++ ':' :: (bs ++ r')))) := by
        rw [hcs, hfront, htail, hbehind]
      refine ⟨fun hmem => ?_, fun a ha => ?_, fun a ha => ?_⟩
      · -- a colon inside would have ended the condition
        obtain ⟨q, s, hqs⟩ := List.append_of_mem hmem
        have hnone := shortest_minimal hp hqs (by simp) htail
        rw [List.cons_append, afterColon?_colon] at hnone
        · simp at hnone
        · intro hnl
          refine hline ?_
          rw [hcs, hfront, htail, show p = q ++ ':' :: s from hqs]
          simp only [List.mem_append] at hnl
          rcases hnl with hnl | hnl <;> simp [hnl]
      · rw [hall]
        rcases List.mem_cons.mp ha with rfl | ha
        · simp
        · simp [ha]
      · rw [hall]
        simp [ha]

/-! ### Checks of a flag -/

/-- A flag that is checked is named between quotes. -/
theorem flagCheck?_sound {cs flag : List Char} (h : flagCheck? cs = some flag) :
    '"' ∉ flag ∧ ∃ as bs, cs = "GetStoryFlag(".toList ++ (as ++ '"' :: (flag ++ '"' :: bs)) := by
  simp only [flagCheck?, Option.bind_eq_bind, Option.bind_eq_some_iff, Prod.exists,
    Option.some.injEq] at h
  obtain ⟨rest, hrest, flag', rest', hquoted, -, -, -, -, rfl⟩ := h
  obtain ⟨hskip, hquote⟩ := quoted?_sound hquoted
  obtain ⟨as, has, -⟩ := exists_skipBlanks rest
  exact ⟨hquote, as, rest', by rw [lit?_eq_some_iff.mp hrest, ← hskip, ← has]⟩

theorem flagCheck?_quoted {flag : List Char} (h : '"' ∉ flag) :
    flagCheck? ("GetStoryFlag(".toList ++ '"' :: (flag ++ '"' :: [')'])) = some flag := by
  have hlit : lit? "GetStoryFlag(" ("GetStoryFlag(".toList ++ '"' :: (flag ++ '"' :: [')'])) =
      some ('"' :: (flag ++ '"' :: [')'])) := lit?_append _ _
  have hskip : skipBlanks ('"' :: (flag ++ '"' :: [')'])) = '"' :: (flag ++ '"' :: [')']) :=
    skipBlanks_of_head (by simp; decide)
  have hend : lit? ")" (skipBlanks [')']) = some [] := rfl
  simp only [flagCheck?, hlit, Option.bind_eq_bind, Option.bind_some, hskip,
    quoted?_append h, hend, done?]

/-! ### Guards -/

/-- The guard of a condition is readable. -/
theorem readable_guardOf {c : List Char} (htrim : Trimmed c) (hline : '\n' ∉ c)
    (hcolon : ':' ∉ c.tail) : (guardOf c).Readable := by
  unfold guardOf
  -- the guard of `else`, of a flag or of another condition is printed so that it is read again
  split
  · have helse : Trimmed ('e' :: (['l', 's'] ++ ['e'])) :=
      (trimmed_singleton (by decide)).cons_append (by simp) (by decide) ['l', 's']
    exact ⟨helse, by decide, by decide, by decide⟩
  · next helse =>
    split
    · next flag hflag =>
      obtain ⟨hquote, as, bs, hc⟩ := flagCheck?_sound hflag
      have hrender : (({ flag := some (String.ofList flag) } : Guard).render).toList =
          "GetStoryFlag(".toList ++ '"' :: (flag ++ '"' :: [')']) := by
        simp [Guard.render]
      have hmem : ∀ a ∈ flag, a ∈ c.tail := by
        intro a ha
        rw [hc]
        change a ∈ "etStoryFlag(".toList ++ (as ++ '"' :: (flag ++ '"' :: bs))
        simp [ha]
      refine ⟨?_, ?_, ?_, ?_⟩
      · rw [hrender]
        have hclosing : Trimmed [')'] := trimmed_singleton (by decide)
        have := hclosing.cons_append (by simp) (show isBlank 'G' = false by decide)
          ("etStoryFlag(".toList ++ '"' :: (flag ++ ['"']))
        simpa using this
      · rw [hrender]
        have hflagLine : '\n' ∉ flag := fun hnl => hline (List.mem_of_mem_tail (hmem _ hnl))
        simp [hflagLine]
      · rw [hrender]
        have hflagColon : ':' ∉ flag := fun hmem' => hcolon (hmem _ hmem')
        change ':' ∉ "etStoryFlag(".toList ++ '"' :: (flag ++ '"' :: [')'])
        simp [hflagColon]
      · rw [hrender, guardOf, if_neg (by simp), flagCheck?_quoted hquote]
    · next hflag =>
      have hrender : (({ condition := some (String.ofList c) } : Guard).render).toList = c := by
        simp [Guard.render]
      refine ⟨by rwa [hrender], by rwa [hrender], by rwa [hrender], ?_⟩
      rw [hrender, guardOf, if_neg helse, hflag]

/-- Taking blanks off a condition leaves at most its first character in front. -/
theorem mem_tail_of_mem_tail_stripChars {c : List Char} {a : Char}
    (h : a ∈ (stripChars c).tail) : a ∈ c.tail := by
  obtain ⟨as, bs, hc, -⟩ := stripChars_eq c
  rw [hc]
  cases as with
  | nil =>
    obtain ⟨d, s, hs⟩ := List.exists_cons_of_ne_nil (l := stripChars c) (by rintro hnil; simp [hnil] at h)
    rw [hs] at h ⊢
    simp only [List.tail_cons, List.nil_append, List.cons_append] at h ⊢
    exact List.mem_append_left _ h
  | cons b as =>
    have hmem := List.mem_of_mem_tail h
    simp [hmem]

/-- Every guard that is read is readable, and what is left of its line stays on the line. -/
theorem readable_of_branch? {cs : List Char} {g : Guard} {rest : String} (hline : '\n' ∉ cs)
    (h : branch? cs = some (.branch g rest)) : g.Readable ∧ '\n' ∉ rest.toList := by
  simp only [branch?, Option.map_eq_some_iff, LineForm.branch.injEq, Prod.exists] at h
  obtain ⟨c, r, hparts, rfl, rfl⟩ := h
  obtain ⟨hcolon, hc, hr⟩ := branchParts?_sound hline hparts
  constructor
  · exact readable_guardOf (trimmed_stripChars c)
      (fun hnl => hline (hc _ (mem_of_mem_stripChars hnl)))
      fun hmem => hcolon (mem_tail_of_mem_tail_stripChars hmem)
  · rw [String.toList_ofList]
    exact fun hnl => hline (hr _ (mem_of_mem_stripChars hnl))

/-- The line that is printed for a readable guard is a branch with that guard. -/
theorem form_branch {g : Guard} (hg : g.Readable) :
    (ofText g.renderLine).form = .branch g "" := by
  have hcs : g.renderLine.toList = '-' :: ' ' :: (g.render.toList ++ [':']) := by
    simp [Guard.renderLine]
  have htrim : Trimmed ('-' :: ' ' :: (g.render.toList ++ [':'])) := by
    have hclosing : Trimmed [':'] := trimmed_singleton (by decide)
    exact hclosing.cons_append (by simp) (by decide) (' ' :: g.render.toList)
  obtain ⟨c, hstrip, hparts⟩ := branchParts?_append hg.trimmed hg.line hg.colon
  have hdivert : divert? ('-' :: ' ' :: (g.render.toList ++ [':'])) = none := rfl
  have hbranch : branch? ('-' :: ' ' :: (g.render.toList ++ [':'])) = some (.branch g "") := by
    have hguard : guardOf (stripChars c) = g := by rw [hstrip, hg.guardOf_render]
    rw [branch?, hparts, Option.map_some]
    simp only [hguard]
    rfl
  rw [ofText_of_trimmed (hcs ▸ htrim), hcs, formOf_minus, List.findSome?, hdivert, List.findSome?,
    hbranch]
  rfl

end Line

end StoryScript
