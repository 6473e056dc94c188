import StoryScript.Proofs.Text.Strip
import StoryScript.Text.Scan

/-!
# What the recognisers of line parts read

For each recogniser, what a text looks like that it reads and that it does read such a text. With
these lemmas a text that was put together from parts can be taken apart again without looking into
the recognisers.

A word character is no blank (`Text.isBlank_of_isWord`), so a name ends where blanks begin, and a
divert target holds neither blanks nor any character of an arrow (`Text.IsTarget`).
-/

namespace StoryScript.Text

/-! ### Literal texts -/

theorem lit?_append (p : String) (cs : List Char) : lit? p (p.toList ++ cs) = some cs := by
  unfold lit?
  generalize p.toList = p
  induction p with
  | nil => cases cs <;> rfl
  | cons c p ih =>
    change (if c == c then p.isPrefixOf? (p ++ cs) else none) = some cs
    rw [if_pos (beq_self_eq_true c), ih]

theorem lit?_eq_some_iff {p : String} {cs rest : List Char} :
    lit? p cs = some rest ↔ cs = p.toList ++ rest :=
  ⟨eq_append_of_lit?, fun h => h ▸ lit?_append p rest⟩

/-- A text that begins with another character than a literal text does not begin with it. -/
theorem lit?_eq_none_of_head {p : String} {c : Char} {cs : List Char}
    (h : p.toList.head? ≠ some c) (hp : p.toList ≠ []) : lit? p (c :: cs) = none := by
  unfold lit?
  cases hp' : p.toList with
  | nil => exact absurd hp' hp
  | cons a p =>
    have hac : a ≠ c := by simpa [hp'] using h
    simp [List.isPrefixOf?, hac]

theorem done?_eq_some_iff {cs : List Char} {u : Unit} : done? cs = some u ↔ cs = [] := by
  cases cs <;> simp [done?]

/-! ### Word characters -/

/-- No blank above U+007F is a letter or a number. -/
theorem inRanges_wideBlanks : ∀ n ∈ wideBlanks, inRanges wordRanges n = false := by
  decide +kernel

/-- The ASCII letters and digits by their codes. -/
theorem toNat_of_isAlphanum {c : Char} (h : c.isAlphanum = true) :
    48 ≤ c.toNat ∧ c.toNat ≤ 57 ∨ 65 ≤ c.toNat ∧ c.toNat ≤ 90 ∨ 97 ≤ c.toNat ∧ c.toNat ≤ 122 := by
  have hval : c.toNat = c.val.toNat := rfl
  have halpha : c.isAlpha = (c.isUpper || c.isLower) := rfl
  have hupper : c.isUpper = decide (65 ≤ c.val ∧ c.val ≤ 90) := rfl
  have hlower : c.isLower = (decide (97 ≤ c.val) && decide (c.val ≤ 122)) := rfl
  simp only [Char.isAlphanum, halpha, hupper, hlower, Char.isDigit, Bool.or_eq_true,
    Bool.and_eq_true, decide_eq_true_eq, UInt32.le_iff_toNat_le] at h
  simp at h
  omega

/-- A word character is no blank. -/
theorem isBlank_of_isWord {c : Char} (h : isWord c = true) : isBlank c = false := by
  simp only [isWord, isAlnum, Bool.or_eq_true, decide_eq_true_eq] at h
  rcases h with rfl | h
  · decide
  · unfold isBlank
    split at h
    · next hlt =>
      rw [if_pos hlt]
      have hcode := toNat_of_isAlphanum h
      have hspace : c ≠ ' ' := by
        rintro rfl
        simp at h
      simp only [hspace, decide_false, Bool.false_or, Bool.or_eq_false_iff, Bool.and_eq_false_iff,
        decide_eq_false_iff_not]
      omega
    · next hlt =>
      rw [if_neg hlt]
      by_contra hblank
      rw [Bool.not_eq_false, List.contains_iff_mem] at hblank
      rw [inRanges_wideBlanks _ hblank] at h
      simp at h

/-! ### Runs and words -/

theorem run?_eq_some_iff {p : Char → Bool} {cs run rest : List Char} :
    run? p cs = some (run, rest) ↔ run ≠ [] ∧ run = cs.takeWhile p ∧ rest = cs.dropWhile p := by
  unfold run?
  split
  · next h => exact ⟨by simp, fun hr => absurd (hr.2.1.trans h) hr.1⟩
  · next h =>
    simp only [Option.some.injEq, Prod.mk.injEq]
    constructor
    · rintro ⟨rfl, rfl⟩
      exact ⟨h, rfl, rfl⟩
    · rintro ⟨-, hrun, hrest⟩
      exact ⟨hrun.symm, hrest.symm⟩

/-- A run of a class ends where the class does. -/
theorem takeWhile_dropWhile_append {p : Char → Bool} {run rest : List Char}
    (hrun : ∀ c ∈ run, p c = true) (hrest : ∀ c ∈ rest.head?, p c = false) :
    (run ++ rest).takeWhile p = run ∧ (run ++ rest).dropWhile p = rest := by
  have htake : rest.takeWhile p = [] := by
    cases rest with
    | nil => rfl
    | cons c cs => exact List.takeWhile_cons_of_neg (by simp [hrest c rfl])
  have hdrop : rest.dropWhile p = rest := by
    cases rest with
    | nil => rfl
    | cons c cs => exact List.dropWhile_cons_of_neg (by simp [hrest c rfl])
  constructor
  · rw [List.takeWhile_append_of_pos hrun, htake, List.append_nil]
  · rw [List.dropWhile_append_of_pos hrun, hdrop]

/-- A run that is followed by no further character of the class is read whole. -/
theorem run?_append {p : Char → Bool} {run rest : List Char} (hne : run ≠ [])
    (hrun : ∀ c ∈ run, p c = true) (hrest : ∀ c ∈ rest.head?, p c = false) :
    run? p (run ++ rest) = some (run, rest) := by
  obtain ⟨htake, hdrop⟩ := takeWhile_dropWhile_append hrun hrest
  exact run?_eq_some_iff.mpr ⟨hne, htake.symm, hdrop.symm⟩

/-- What a run is: it is not empty, of the class, stands in front and ends where the class ends. -/
theorem run?_sound {p : Char → Bool} {cs run rest : List Char} (h : run? p cs = some (run, rest)) :
    cs = run ++ rest ∧ run ≠ [] ∧ (∀ c ∈ run, p c = true) ∧ ∀ c ∈ rest.head?, p c = false := by
  obtain ⟨hne, rfl, rfl⟩ := run?_eq_some_iff.mp h
  exact ⟨(List.takeWhile_append_dropWhile).symm, hne, fun _ hc => List.mem_takeWhile_imp hc,
    fun _ hc => of_mem_head?_dropWhile hc⟩

/-- A word: one or more letters, numbers and underscores. -/
structure IsName (w : List Char) : Prop where
  ne_nil : w ≠ []
  isWord : ∀ c ∈ w, isWord c = true

theorem word?_sound {cs w rest : List Char} (h : word? cs = some (w, rest)) :
    cs = w ++ rest ∧ IsName w ∧ ∀ c ∈ rest.head?, isWord c = false := by
  obtain ⟨hcs, hne, hw, hrest⟩ := run?_sound h
  exact ⟨hcs, ⟨hne, hw⟩, hrest⟩

theorem word?_append {w rest : List Char} (hw : IsName w)
    (hrest : ∀ c ∈ rest.head?, isWord c = false) : word? (w ++ rest) = some (w, rest) :=
  run?_append hw.ne_nil hw.isWord hrest

theorem word?_of_isName {w : List Char} (hw : IsName w) : word? w = some (w, []) := by
  have h : word? (w ++ []) = some (w, []) := word?_append hw (by simp)
  rwa [List.append_nil] at h

theorem IsName.trimmed {w : List Char} (hw : IsName w) : Trimmed w :=
  ⟨fun c hc => isBlank_of_isWord (hw.isWord c (List.mem_of_head? hc)),
    fun c hc => isBlank_of_isWord (hw.isWord c (List.mem_of_getLast? hc))⟩

/-! ### Quotes -/

theorem quoted?_sound {cs text rest : List Char} (h : quoted? cs = some (text, rest)) :
    cs = '"' :: (text ++ '"' :: rest) ∧ '"' ∉ text := by
  simp only [quoted?, Option.bind_eq_bind, Option.bind_eq_some_iff, Option.some.injEq,
    Prod.mk.injEq] at h
  obtain ⟨r, hr, rest', hrest, htext, rfl⟩ := h
  have hcs : cs = '"' :: r := lit?_eq_some_iff.mp hr
  have hclose : r.dropWhile (· ≠ '"') = '"' :: rest' := lit?_eq_some_iff.mp hrest
  refine ⟨?_, fun hmem => ?_⟩
  · rw [hcs, ← htext, ← hclose, List.takeWhile_append_dropWhile]
  · rw [← htext] at hmem
    simpa using List.mem_takeWhile_imp hmem

/-- A text without quotes is read from between quotes. -/
theorem quoted?_append {text : List Char} (h : '"' ∉ text) (rest : List Char) :
    quoted? ('"' :: (text ++ '"' :: rest)) = some (text, rest) := by
  have hlit : lit? "\"" ('"' :: (text ++ '"' :: rest)) = some (text ++ '"' :: rest) :=
    lit?_append "\"" (text ++ '"' :: rest)
  have hlit' : lit? "\"" ('"' :: rest) = some rest := lit?_append "\"" rest
  obtain ⟨htake, hdrop⟩ := takeWhile_dropWhile_append
    (show ∀ c ∈ text, decide (c ≠ '"') = true from fun c hc => by
      simpa using fun heq : c = '"' => h (heq ▸ hc))
    (show ∀ c ∈ ('"' :: rest).head?, decide (c ≠ '"') = false by simp)
  simp only [quoted?, hlit, Option.bind_eq_bind, Option.bind_some, htake, hdrop, hlit']

/-! ### Divert targets -/

/-- A name or two names joined by a dot. -/
def IsTarget (t : List Char) : Prop :=
  IsName t ∨ ∃ knot stitch, IsName knot ∧ IsName stitch ∧ t = knot ++ '.' :: stitch

theorem isWord_dot : isWord '.' = false := by decide

theorem target?_sound {cs t rest : List Char} (h : target? cs = some (t, rest)) :
    cs = t ++ rest ∧ IsTarget t := by
  simp only [target?, Option.bind_eq_bind, Option.bind_eq_some_iff, Prod.exists] at h
  obtain ⟨knot, behind, hknot, h⟩ := h
  obtain ⟨hcs, hname, -⟩ := word?_sound hknot
  split at h
  · next stitch rest' hstitch =>
    obtain ⟨dotted, hdot, hword⟩ := Option.bind_eq_some_iff.mp hstitch
    obtain ⟨hdotted, hname', -⟩ := word?_sound hword
    simp only [Option.some.injEq, Prod.mk.injEq] at h
    obtain ⟨rfl, rfl⟩ := h
    have hbehind : behind = '.' :: dotted := lit?_eq_some_iff.mp hdot
    refine ⟨?_, Or.inr ⟨knot, stitch, hname, hname', rfl⟩⟩
    rw [hcs, hbehind, hdotted, List.append_assoc, List.cons_append]
  · simp only [Option.some.injEq, Prod.mk.injEq] at h
    obtain ⟨rfl, rfl⟩ := h
    exact ⟨hcs, Or.inl hname⟩

theorem target?_of_isTarget {t : List Char} (h : IsTarget t) : target? t = some (t, []) := by
  rcases h with hname | ⟨knot, stitch, hknot, hstitch, rfl⟩
  · simp [target?, word?_of_isName hname, lit?, List.isPrefixOf?]
  · have hword : word? (knot ++ '.' :: stitch) = some (knot, '.' :: stitch) :=
      word?_append hknot (by simp [isWord_dot])
    have hlit : lit? "." ('.' :: stitch) = some stitch := lit?_append "." stitch
    simp [target?, hword, hlit, word?_of_isName hstitch]

/-- A target holds word characters and dots, and begins and ends with a word character. -/
theorem IsTarget.spec {t : List Char} (h : IsTarget t) : t ≠ [] ∧
    (∀ c ∈ t, isWord c = true ∨ c = '.') ∧ (∀ c ∈ t.head?, isWord c = true) ∧
    ∀ c ∈ t.getLast?, isWord c = true := by
  rcases h with hname | ⟨knot, stitch, hknot, hstitch, rfl⟩
  · exact ⟨hname.ne_nil, fun c hc => Or.inl (hname.isWord c hc),
      fun c hc => hname.isWord c (List.mem_of_head? hc),
      fun c hc => hname.isWord c (List.mem_of_getLast? hc)⟩
  · refine ⟨by simp, ?_, ?_, ?_⟩
    · intro c hc
      simp only [List.mem_append, List.mem_cons] at hc
      rcases hc with hc | rfl | hc
      · exact Or.inl (hknot.isWord c hc)
      · exact Or.inr rfl
      · exact Or.inl (hstitch.isWord c hc)
    · intro c hc
      obtain ⟨a, as, rfl⟩ := List.exists_cons_of_ne_nil hknot.ne_nil
      obtain rfl : a = c := by simpa using hc
      exact hknot.isWord a List.mem_cons_self
    · intro c hc
      have hlast : (knot ++ '.' :: stitch).getLast? = stitch.getLast? := by
        obtain ⟨a, as, rfl⟩ := List.exists_cons_of_ne_nil hstitch.ne_nil
        simp [List.getLast?_append, List.getLast?_cons]
      rw [hlast] at hc
      exact hstitch.isWord c (List.mem_of_getLast? hc)

theorem IsTarget.trimmed {t : List Char} (h : IsTarget t) : Trimmed t :=
  ⟨fun c hc => isBlank_of_isWord (h.spec.2.2.1 c hc),
    fun c hc => isBlank_of_isWord (h.spec.2.2.2 c hc)⟩

theorem IsTarget.newline_not_mem {t : List Char} (h : IsTarget t) : '\n' ∉ t := by
  intro hmem
  rcases h.spec.2.1 '\n' hmem with hword | hdot
  · exact absurd hword (by decide)
  · exact absurd hdot (by decide)

/-! ### Searches -/

variable {α : Type} {k : List Char → Option α}

/-- A search finds what it looks for if it looks for it nowhere before. -/
theorem shortest_append {p rest : List Char} {a : α} (hk : k rest = some a) (hline : '\n' ∉ p)
    (hno : ∀ q s, p = q ++ s → s ≠ [] → k (s ++ rest) = none) :
    shortest k (p ++ rest) = some (p, a) := by
  induction p with
  | nil => cases rest <;> simp [shortest, hk]
  | cons c p ih =>
    have hc : k (c :: (p ++ rest)) = none := hno [] (c :: p) rfl (by simp)
    have hnl : c ≠ '\n' := fun h => hline (by simp [h])
    have hp := ih (fun h => hline (List.mem_cons_of_mem _ h)) fun q s hps hs =>
      hno (c :: q) s (by rw [hps, List.cons_append]) hs
    rw [List.cons_append, shortest, hc]
    simp [hnl, hp]

/-- Blanks may be read in front of what is found. -/
theorem exists_append_of_afterBlanks {cs : List Char} {a : α} (h : afterBlanks k cs = some a) :
    ∃ front rest, cs = front ++ rest ∧ k rest = some a := by
  induction cs with
  | nil => exact ⟨[], [], rfl, h⟩
  | cons c cs ih =>
    simp only [afterBlanks] at h
    split at h
    · cases hk : afterBlanks k cs with
      | some b =>
        obtain rfl : b = a := by simpa [hk] using h
        obtain ⟨front, rest, hcs, hrest⟩ := ih hk
        exact ⟨c :: front, rest, by rw [hcs, List.cons_append], hrest⟩
      | none => exact ⟨[], c :: cs, rfl, by simpa [hk] using h⟩
    · exact ⟨[], c :: cs, rfl, h⟩

/-- A search that fails would have found nothing anywhere. -/
theorem shortest_eq_none {cs q s : List Char} (h : shortest k cs = none) (hcs : cs = q ++ s)
    (hline : '\n' ∉ q) : k s = none := by
  induction q generalizing cs with
  | nil =>
    obtain rfl : cs = s := hcs
    cases cs with
    | nil => simpa [shortest] using h
    | cons c cs =>
      by_contra hk
      obtain ⟨a, ha⟩ := Option.ne_none_iff_exists'.mp hk
      simp [shortest, ha] at h
  | cons c q ih =>
    obtain rfl : cs = c :: (q ++ s) := hcs
    have hnl : c ≠ '\n' := fun h => hline (by simp [h])
    rw [shortest] at h
    split at h
    · simp at h
    · rw [if_neg hnl] at h
      exact ih (by simpa using h) rfl fun h => hline (List.mem_cons_of_mem _ h)

/-- What a search passes over stands before the first place where it would have succeeded. -/
theorem shortest_minimal {cs p : List Char} {a : α} (h : shortest k cs = some (p, a))
    {q s : List Char} (hp : p = q ++ s) (hs : s ≠ []) {rest : List Char} (hcs : cs = p ++ rest) :
    k (s ++ rest) = none := by
  induction q generalizing cs p a with
  | nil =>
    obtain rfl : p = s := hp
    obtain ⟨c, s', rfl⟩ := List.exists_cons_of_ne_nil hs
    subst hcs
    rw [List.cons_append, shortest] at h
    split at h
    · simp at h
    · next hk => exact hk
  | cons c q ih =>
    subst hp hcs
    rw [List.cons_append, List.cons_append, shortest] at h
    split at h
    · simp at h
    · split at h
      · simp at h
      · simp only [Option.map_eq_some_iff, Prod.mk.injEq, Prod.exists] at h
        obtain ⟨p', a', hp', hpp, -⟩ := h
        rw [List.cons.injEq] at hpp
        obtain rfl : p' = q ++ s := hpp.2
        exact ih hp' rfl rfl

end StoryScript.Text
