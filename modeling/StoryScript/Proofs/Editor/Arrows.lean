import StoryScript.Editor.Hover
import StoryScript.Proofs.Line.Ending

/-!
# Arrows under the cursor

An editor looks for arrows anywhere on a line, while a divert is read at the end of a line only. The arrows
that are found on a line lie on it and do not overlap (`arrow_bounds`). So the arrow that ends a line is found
behind all others, as it is read (`arrows_toArrow`), and a cursor on it finds it, unless another arrow ends
where the cursor is (`divertAt?_toArrow`).
-/

namespace StoryScript

open Text Line

variable {column skip : Nat} {f bs t ds cs rest : List Char} {m : ArrowMatch}

/-! ### One arrow -/

theorem isBlank_of_isTargetChar {c : Char} (h : isTargetChar c = true) : isBlank c = false := by
  rw [isTargetChar, Bool.or_eq_true, decide_eq_true_eq] at h
  rcases h with rfl | h
  · decide
  · exact isBlank_of_isWord h

theorem isTargetChar_of_isTarget (ht : IsTarget t) : ∀ c ∈ t, isTargetChar c = true := by
  intro c hc
  rcases ht.spec.2.1 c hc with hword | rfl
  · simp [isTargetChar, hword]
  · rfl

/-- What an arrow that was found consists of. -/
theorem arrowAt?_sound (h : arrowAt? column cs = some (m, rest)) : ∃ bs t,
    cs = '-' :: '>' :: (bs ++ (t ++ rest)) ∧ t ≠ [] ∧
      m = ⟨column, column + 2 + bs.length, column + 2 + bs.length + t.length, String.ofList t⟩ := by
  simp only [arrowAt?, Option.bind_eq_bind, Option.bind_eq_some_iff, Prod.exists, Option.some.injEq,
    Prod.mk.injEq] at h
  obtain ⟨behind, hlit, t, rest', hrun, rfl, rfl⟩ := h
  obtain ⟨htake, hne, -⟩ := run?_sound hrun
  refine ⟨behind.takeWhile isBlank, t, ?_, hne, rfl⟩
  have hcs : cs = '-' :: '>' :: behind := lit?_eq_some_iff.mp hlit
  rw [← htake, hcs, skipBlanks, List.takeWhile_append_dropWhile]

/-- An arrow with blanks and a target behind it is found where it begins. -/
theorem arrowAt?_of_isTarget (ht : IsTarget t) (hbs : ∀ c ∈ bs, isBlank c = true)
    (hrest : ∀ c ∈ rest.head?, isTargetChar c = false) :
    arrowAt? column ('-' :: '>' :: (bs ++ (t ++ rest))) =
      some (⟨column, column + 2 + bs.length, column + 2 + bs.length + t.length, String.ofList t⟩, rest) := by
  have hlit : lit? "->" ('-' :: '>' :: (bs ++ (t ++ rest))) = some (bs ++ (t ++ rest)) :=
    lit?_append "->" _
  have hhead : ∀ c ∈ (t ++ rest).head?, isBlank c = false := by
    intro c hc
    rw [List.head?_append_of_ne_nil _ ht.spec.1] at hc
    exact ht.trimmed.1 c hc
  obtain ⟨htake, hdrop⟩ := takeWhile_dropWhile_append hbs hhead
  have hrun : run? isTargetChar (t ++ rest) = some (t, rest) :=
    run?_append ht.spec.1 (isTargetChar_of_isTarget ht) hrest
  simp [arrowAt?, hlit, htake, skipBlanks, hdrop, hrun]

/-- An arrow that begins in front of another one ends in front of it. -/
theorem arrowAt?_toArrow (hf : f ≠ []) : arrowAt? column (toArrow f bs t) =
    (arrowAt? column f).map fun x => (x.1, toArrow x.2 bs t) := by
  have hlit : lit? "->" (toArrow f bs t) = (lit? "->" f).map fun g => toArrow g bs t := by
    -- no arrow begins where a text ends and the arrow behind it begins
    by_cases h : ∃ g, f = '-' :: '>' :: g
    · obtain ⟨g, rfl⟩ := h
      rw [show '-' :: '>' :: g = "->".toList ++ g from rfl, toArrow_append, lit?_append, lit?_append]
      rfl
    · have hnone : lit? "->" f = none := by
        by_contra hne
        obtain ⟨g, hg⟩ := Option.ne_none_iff_exists'.mp hne
        exact h ⟨g, lit?_eq_some_iff.mp hg⟩
      rw [hnone, Option.map_none]
      by_contra hne
      obtain ⟨g, hg⟩ := Option.ne_none_iff_exists'.mp hne
      have hg := lit?_eq_some_iff.mp hg
      obtain ⟨a, f, rfl⟩ := List.exists_cons_of_ne_nil hf
      cases f with
      | nil => simp [toArrow] at hg
      | cons b f =>
        obtain ⟨rfl, rfl, -⟩ : a = '-' ∧ b = '>' ∧ _ := by simpa [toArrow] using hg
        exact h ⟨f, rfl⟩
  rw [arrowAt?, arrowAt?, hlit]
  cases lit? "->" f with
  | none => rfl
  | some g =>
    obtain ⟨hblank, hskip⟩ := takeWhile_dropWhile_toArrow (p := isBlank) (by decide) g bs t
    obtain ⟨htake, hdrop⟩ :=
      takeWhile_dropWhile_toArrow (p := isTargetChar) (by decide) (skipBlanks g) bs t
    simp only [Option.map_some, Option.bind_eq_bind, Option.bind_some, hblank, skipBlanks, hskip] at *
    unfold run?
    rw [htake, hdrop]
    cases (g.dropWhile isBlank).takeWhile isTargetChar <;> rfl

/-! ### The arrows of a line -/

theorem arrowsFrom_of_not_mem (h : '-' ∉ cs) : arrowsFrom column skip cs = [] := by
  induction cs generalizing column skip with
  | nil => rw [arrowsFrom]
  | cons c cs ih =>
    rw [List.mem_cons, not_or] at h
    cases skip with
    | succ skip => exact ih h.2
    | zero =>
      have hnone : arrowAt? column (c :: cs) = none := by
        by_contra hne
        obtain ⟨⟨m, rest⟩, hm⟩ := Option.ne_none_iff_exists'.mp hne
        obtain ⟨bs, t, hcs, -⟩ := arrowAt?_sound hm
        exact h.1 (List.cons.inj hcs).1.symm
      rw [arrowsFrom, hnone]
      exact ih h.2

theorem arrowsFrom_skip (as cs : List Char) :
    arrowsFrom column as.length (as ++ cs) = arrowsFrom (column + as.length) 0 cs := by
  induction as generalizing column with
  | nil => rfl
  | cons a as ih =>
    rw [List.length_cons, List.cons_append, arrowsFrom, ih, Nat.add_right_comm, Nat.add_assoc]

/-- An arrow that was found, and where the search goes on. -/
theorem arrowsFrom_of_some (h : arrowAt? column cs = some (m, rest)) :
    m.start = column ∧ column < m.stop ∧ m.stop + rest.length = column + cs.length ∧
      arrowsFrom column 0 cs = m :: arrowsFrom m.stop 0 rest := by
  obtain ⟨bs, t, rfl, hne, rfl⟩ := arrowAt?_sound h
  have hpos := List.length_pos_iff.mpr hne
  refine ⟨rfl, ?_, ?_, ?_⟩
  · dsimp only
    omega
  · simp only [List.length_cons, List.length_append]
    omega
  · have hcs : '>' :: (bs ++ (t ++ rest)) = ('>' :: (bs ++ t)) ++ rest := by simp
    have hlength : ('>' :: (bs ++ t)).length = column + 2 + bs.length + t.length - column - 1 := by
      simp only [List.length_cons, List.length_append]
      omega
    rw [arrowsFrom, h]
    dsimp only
    rw [hcs, ← hlength, arrowsFrom_skip]
    simp only [List.length_cons, List.length_append]
    congr 2
    omega

/-- Where the arrows of a text lie. -/
theorem arrowsFrom_bounds (h : m ∈ arrowsFrom column skip cs) :
    column ≤ m.start ∧ m.start < m.stop ∧ m.stop ≤ column + cs.length := by
  induction cs generalizing column skip with
  | nil => simp [arrowsFrom] at h
  | cons c cs ih =>
    have hrest : ∀ {skip}, m ∈ arrowsFrom (column + 1) skip cs →
        column ≤ m.start ∧ m.start < m.stop ∧ m.stop ≤ column + (c :: cs).length := by
      intro skip hm
      obtain ⟨hstart, hlt, hstop⟩ := ih hm
      rw [List.length_cons]
      omega
    cases skip with
    | succ skip => exact hrest h
    | zero =>
      cases hat : arrowAt? column (c :: cs) with
      | none =>
        rw [arrowsFrom, hat] at h
        exact hrest h
      | some x =>
        obtain ⟨a, rest⟩ := x
        obtain ⟨hstart, hlt, hlength, -⟩ := arrowsFrom_of_some hat
        rw [arrowsFrom, hat] at h
        rcases List.mem_cons.mp h with rfl | h
        · omega
        · exact hrest h

/-- An arrow of a line lies on the line. -/
theorem arrow_bounds {line : String} (h : m ∈ arrows line) :
    m.start < m.stop ∧ m.stop ≤ line.length := by
  obtain ⟨-, hlt, hstop⟩ := arrowsFrom_bounds h
  rw [Nat.zero_add, String.length_toList] at hstop
  exact ⟨hlt, hstop⟩

/-- The arrow that ends a text is found behind those that are found in front of it. -/
theorem arrowsFrom_toArrow (ht : IsTarget t) (hbs : ∀ c ∈ bs, isBlank c = true)
    (hds : ∀ c ∈ ds, isBlank c = true) (column : Nat) (f : List Char) :
    arrowsFrom column 0 (toArrow f bs (t ++ ds)) = arrowsFrom column 0 f ++
      [⟨column + f.length, column + f.length + 2 + bs.length,
        column + f.length + 2 + bs.length + t.length, String.ofList t⟩] := by
  -- behind an arrow the search goes on with what is left, not with the next character
  induction hn : f.length using Nat.strong_induction_on generalizing column f with
  | _ n ih =>
  subst hn
  cases f with
  | nil =>
    have hrest : ∀ c ∈ ds.head?, isTargetChar c = false := by
      intro c hc
      by_contra htarget
      have hblank := isBlank_of_isTargetChar (by simpa using htarget)
      rw [hds c (List.mem_of_head? hc)] at hblank
      exact Bool.false_ne_true hblank.symm
    have hat : arrowAt? column ('-' :: '>' :: (bs ++ (t ++ ds))) = some
        (⟨column, column + 2 + bs.length, column + 2 + bs.length + t.length, String.ofList t⟩, ds) :=
      arrowAt?_of_isTarget ht hbs hrest
    obtain ⟨-, -, -, harrows⟩ := arrowsFrom_of_some hat
    rw [toArrow, List.nil_append, harrows, arrowsFrom_of_not_mem (dash_not_mem_of_blank hds)]
    rfl
  | cons c f =>
    have hat : arrowAt? column (toArrow (c :: f) bs (t ++ ds)) =
        (arrowAt? column (c :: f)).map fun x => (x.1, toArrow x.2 bs (t ++ ds)) :=
      arrowAt?_toArrow (List.cons_ne_nil c f)
    cases hfound : arrowAt? column (c :: f) with
    | none =>
      rw [hfound] at hat
      have hnext := ih f.length (by simp) (column + 1) f rfl
      rw [show toArrow (c :: f) bs (t ++ ds) = c :: toArrow f bs (t ++ ds) from rfl] at hat ⊢
      rw [arrowsFrom, hat, arrowsFrom, hfound, Option.map_none]
      dsimp only
      rw [hnext, List.length_cons, Nat.add_right_comm column 1, Nat.add_assoc column]
    | some x =>
      obtain ⟨m, rest⟩ := x
      rw [hfound] at hat
      obtain ⟨-, hlt, hlength, harrows⟩ := arrowsFrom_of_some hfound
      obtain ⟨-, -, -, harrows'⟩ := arrowsFrom_of_some hat
      rw [List.length_cons] at hlength
      have hnext := ih rest.length (by rw [List.length_cons]; omega) m.stop rest rfl
      rw [harrows, harrows', hnext, hlength, List.length_cons]
      rfl

theorem arrows_toArrow (ht : IsTarget t) (hbs : ∀ c ∈ bs, isBlank c = true)
    (hds : ∀ c ∈ ds, isBlank c = true) (f : List Char) :
    arrows (String.ofList (toArrow f bs (t ++ ds))) = arrows (String.ofList f) ++
      [⟨f.length, f.length + 2 + bs.length, f.length + 2 + bs.length + t.length, String.ofList t⟩] := by
  rw [arrows, arrows, String.toList_ofList, String.toList_ofList, arrowsFrom_toArrow ht hbs hds]
  simp

/-- A cursor on the arrow that ends a line, or on its target, finds it. Only where it begins another arrow
may end, which is found instead. -/
theorem divertAt?_toArrow (ht : IsTarget t) (hbs : ∀ c ∈ bs, isBlank c = true)
    (hds : ∀ c ∈ ds, isBlank c = true) {column : Nat} (hstart : f.length ≤ column)
    (hstop : column ≤ f.length + 2 + bs.length + t.length)
    (hfree : ∀ m ∈ arrows (String.ofList f), m.stop ≠ column) :
    (divertAt? (String.ofList (toArrow f bs (t ++ ds))) column).map ArrowMatch.target =
      some (String.ofList t) := by
  have hfront : (arrows (String.ofList f)).find?
      (fun m => (m.start : Int) ≤ (column : Int) && (column : Int) ≤ m.stop) = none := by
    rw [List.find?_eq_none]
    intro m hm hon
    obtain ⟨-, hle⟩ := arrow_bounds hm
    rw [String.length_ofList] at hle
    have hne := hfree m hm
    simp only [Bool.and_eq_true, decide_eq_true_eq] at hon
    omega
  rw [divertAt?, arrows_toArrow ht hbs hds, List.find?_append, hfront, Option.none_or, List.find?_cons]
  have hon : ((f.length : Int) ≤ (column : Int) &&
      (column : Int) ≤ (f.length + 2 + bs.length + t.length : Nat)) = true := by
    simp only [Bool.and_eq_true, decide_eq_true_eq]
    omega
  rw [hon]
  rfl

example : (divertAt? "->a->b" 3).map ArrowMatch.target = some "a" := by decide +kernel

end StoryScript
