import StoryScript.Proofs.Document.Markers
import StoryScript.Proofs.Document.Membership

/-!
# What becomes of every line

A document accounts for all lines of its script (`Document.tiled_read`). The knots span disjoint stretches
of lines, one for each header. A line outside all of them is blank, or a marker of a region, or belongs to
the front of the script, where it is kept, or stands behind the front, where it is a comment or reported
(`Document.Accounts`). And a name means the first of its knots, which is the one that is not marked as a
duplicate.

The two invariants of the reader that place knots and regions are those of `Spans` and `Markers`; the one
here, `ScriptState.Accounted`, says that every line so far is in a knot or accounted for, and rests on the
reader never losing what it holds (`ScriptState.Extends`).
-/

namespace StoryScript

open Text

/-- Whether lines hold neither a knot header nor the start of a region, so that the front of the script goes
on behind them. -/
def Line.isFront (ls : List Line) : Bool :=
  ls.all fun l => l.form.header?.isNone && l.form.regionName?.isNone

/-- How a document accounts for line `n`, which is not blank and in no knot. -/
def Document.Accounts (d : Document) (inFront : Bool) (n : Nat) (l : Line) : Prop :=
  match l.form, inFront with
  | .regionStart name, _ => ∃ r ∈ d.regions, r.lineStart = n ∧ r.name = name
  | .regionEnd, _ => (∃ r ∈ d.regions, r.lineEnd = n) ∨ ⟨.regionEndStray, n⟩ ∈ d.issues
  | .startPosition _, true => d.startPosition.isSome = true
  | .endPosition _, true => d.endPosition.isSome = true
  | .external name params, true => ⟨name, params, n⟩ ∈ d.externals
  | .inclusion path, true => path ∈ d.inclusions
  | .divert target, true => d.initialDivert = some target ∨ l.text ∈ d.preamble
  | _, true => l.text ∈ d.preamble
  | .comment, false | .blockComment _, false | .position _, false => True
  | _, false => ⟨.outsideKnot, n⟩ ∈ d.issues

namespace ScriptState

variable {supply : Nat} {ls : List String} {n : Nat} {s t u : ScriptState}

/-- The document of what has been read. -/
def document (ls : List String) (s : ScriptState) : Document where
  knots := s.knots.reverse
  regions := s.regions.reverse
  externals := s.externals.reverse
  inclusions := s.inclusions.reverse
  initialDivert := s.initialDivert
  startPosition := s.startPosition
  endPosition := s.endPosition
  preamble := s.preamble.reverse
  issues := s.issues.reverse.mergeSort fun a b => a.line ≤ b.line
  lines := ls

theorem document_ofLines (supply : Nat) (text : String) :
    (Document.read supply text).1 = (ofLines supply (Text.lines text)).document (Text.lines text) :=
  rfl

/-! ### Nothing is lost -/

/-- A state that holds all that another holds outside knots. -/
structure Extends (t s : ScriptState) : Prop where
  regions : s.regions ⊆ t.regions
  externals : s.externals ⊆ t.externals
  inclusions : s.inclusions ⊆ t.inclusions
  initialDivert : ∀ target ∈ s.initialDivert, t.initialDivert = some target
  startPosition : s.startPosition.isSome = true → t.startPosition.isSome = true
  endPosition : s.endPosition.isSome = true → t.endPosition.isSome = true
  preamble : s.preamble ⊆ t.preamble
  issues : s.issues ⊆ t.issues

namespace Extends

theorem refl (s : ScriptState) : s.Extends s :=
  ⟨List.Subset.refl _, List.Subset.refl _, List.Subset.refl _, fun _ h => h, id, id,
    List.Subset.refl _, List.Subset.refl _⟩

theorem trans (h : u.Extends t) (h' : t.Extends s) : u.Extends s :=
  ⟨List.Subset.trans h'.regions h.regions, List.Subset.trans h'.externals h.externals,
    List.Subset.trans h'.inclusions h.inclusions,
    fun target ht => h.initialDivert target (h'.initialDivert target ht),
    h.startPosition ∘ h'.startPosition, h.endPosition ∘ h'.endPosition,
    List.Subset.trans h'.preamble h.preamble, List.Subset.trans h'.issues h.issues⟩

theorem report (line : Nat) (cause : IssueCause) (s : ScriptState) : (s.report line cause).Extends s :=
  { refl s with issues := List.subset_cons_self _ _ }

theorem closeKnot (last : Nat) (s : ScriptState) : (s.closeKnot last).Extends s := by
  cases hk : s.knot with
  | none =>
    rw [closeKnot_of_none last hk]
    exact refl s
  | some k =>
    rw [closeKnot_of_some last hk]
    exact { refl s with issues := List.subset_append_right _ _ }

theorem closeRegion (last : Nat) (s : ScriptState) : (s.closeRegion last).Extends s := by
  unfold ScriptState.closeRegion
  split
  · exact refl s
  · exact { refl s with regions := List.subset_cons_self _ _ }

theorem closeUnclosedRegion (line last : Nat) (s : ScriptState) :
    (s.closeUnclosedRegion line last).Extends s := by
  unfold ScriptState.closeUnclosedRegion
  split
  · exact refl s
  · exact (closeRegion last _).trans (report line _ s)

theorem outsideLine (n : Nat) (l : Line) (s : ScriptState) : (s.outsideLine n l).Extends s := by
  unfold ScriptState.outsideLine preambleLine
  split
  · split
    · exact { refl s with startPosition := fun _ => rfl }
    · exact { refl s with endPosition := fun _ => rfl }
    · exact { refl s with externals := List.subset_cons_self _ _ }
    · exact { refl s with inclusions := List.subset_cons_self _ _ }
    · next hnone => exact { refl s with initialDivert := fun target ht => by simp [hnone] at ht }
    · exact { refl s with preamble := List.subset_cons_self _ _ }
  · split
    · exact refl s
    · exact refl s
    · exact refl s
    · exact report n _ s

theorem looseLine (n : Nat) (l : Line) (s : ScriptState) : (s.looseLine n l).Extends s := by
  have hsteps := stepsOutside n l s
  generalize s.looseLine n l = t at hsteps ⊢
  cases hsteps with
  | placed _ _ _ => exact { refl s with }
  | passed _ _ => exact (outsideLine n l _).trans { refl s with }
  | outside _ => exact outsideLine n l s

theorem step (n : Nat) (p : String) (l : Line) (s : ScriptState) : (s.step n p l).Extends s := by
  have hclosed := closeKnot (n - 1) s
  have hsteps := steps n p l s
  generalize s.step n p l = t at hsteps ⊢
  cases hsteps with
  | header _ => exact { hclosed with }
  | regionStart _ => exact { (closeUnclosedRegion n (n - 1) (s.closeKnot (n - 1))).trans hclosed with }
  | strayEnd _ _ => exact (report n _ _).trans hclosed
  | regionEnd _ _ => exact (closeRegion n _).trans hclosed
  | body _ _ => exact { refl s with }
  | blank _ _ => exact refl s
  | loose _ _ _ => exact looseLine n l s

theorem accounts (h : t.Extends s) {inFront : Bool} {n : Nat} {l : Line}
    (hs : (s.document ls).Accounts inFront n l) : (t.document ls).Accounts inFront n l := by
  have hregions : ∀ r ∈ (s.document ls).regions, r ∈ (t.document ls).regions := fun r hr =>
    List.mem_reverse.mpr (h.regions (List.mem_reverse.mp hr))
  have hexternals : ∀ e ∈ (s.document ls).externals, e ∈ (t.document ls).externals := fun e he =>
    List.mem_reverse.mpr (h.externals (List.mem_reverse.mp he))
  have hinclusions : ∀ i ∈ (s.document ls).inclusions, i ∈ (t.document ls).inclusions := fun i hi =>
    List.mem_reverse.mpr (h.inclusions (List.mem_reverse.mp hi))
  have hpreamble : ∀ x ∈ (s.document ls).preamble, x ∈ (t.document ls).preamble := fun x hx =>
    List.mem_reverse.mpr (h.preamble (List.mem_reverse.mp hx))
  have hissues : ∀ i ∈ (s.document ls).issues, i ∈ (t.document ls).issues := by
    intro i hi
    rw [document, List.mem_mergeSort, List.mem_reverse] at hi ⊢
    exact h.issues hi
  -- each of these lists has grown, the first divert stays the one it is, and a position that was found is not
  -- taken back
  revert hs
  unfold Document.Accounts
  split
  · exact fun ⟨r, hr, hline⟩ => ⟨r, hregions r hr, hline⟩
  · exact Or.imp (fun ⟨r, hr, hline⟩ => ⟨r, hregions r hr, hline⟩) (hissues _)
  · exact h.startPosition
  · exact h.endPosition
  · exact hexternals _
  · exact hinclusions _
  · exact Or.imp (fun ht => h.initialDivert _ ht) (hpreamble _)
  · exact hpreamble _
  · exact id
  · exact id
  · exact id
  · exact hissues _

end Extends

/-! ### Every line is accounted for -/

/-- Whether a line is in a knot. -/
def Covers (s : ScriptState) (n : Nat) : Prop :=
  (∃ k ∈ s.knots, k.lineStart ≤ n ∧ n ≤ k.lineEnd) ∨ ∃ k ∈ s.knot, k.line ≤ n

theorem covers_closeKnot {i : Nat} (h : s.Covers i) (hi : i ≤ n) : (s.closeKnot n).Covers i := by
  cases hk : s.knot with
  | none => rwa [closeKnot_of_none n hk]
  | some k =>
    refine Or.inl ?_
    rw [knots_closeKnot n hk]
    rcases h with ⟨k', hk', hline⟩ | ⟨k', hk', hline⟩
    · exact ⟨k', List.mem_cons_of_mem _ hk', hline⟩
    · rw [hk, Option.mem_some_iff] at hk'
      subst hk'
      exact ⟨_, List.mem_cons_self, hline, hi⟩

/-- What is in a knot stays in it. -/
theorem covers_step {i : Nat} (h : s.Covers i) (hi : i ≤ n) (p : String) (l : Line) :
    (s.step (n + 1) p l).Covers i := by
  have hknots := knots_step (n + 1) p l s
  have hknot := knot_step (n + 1) p l s
  by_cases hends : l.form.endsKnot = true
  · rw [if_pos hends] at hknots
    rcases covers_closeKnot h hi with hcover | ⟨k, hk, -⟩
    · exact Or.inl (hknots ▸ hcover)
    · simp [knot_closeKnot] at hk
  · rw [if_neg hends] at hknots hknot
    rw [LineForm.header?_of_not_endsKnot hends] at hknot
    rcases h with hcover | ⟨k, hk, hline⟩
    · exact Or.inl (hknots ▸ hcover)
    · refine Or.inr ⟨{ k with body := p :: k.body }, ?_, hline⟩
      rw [hknot, hk]
      rfl

/-- A state behind the first `n` lines, each of which is blank, in a knot or accounted for. -/
structure Accounted (ls : List String) (n : Nat) (s : ScriptState) : Prop where
  /-- The flag: the front goes on. -/
  flag : s.inPreamble = Line.isFront ((Line.ofTexts ls).take n)
  region : s.region.isSome = true → s.inPreamble = false
  lines : ∀ i < n, ∀ l, (Line.ofTexts ls)[i]? = some l → l.form.isBlank = false →
    l.form.regionName? = none → s.Covers (i + 1) ∨
      (s.document ls).Accounts (Line.isFront ((Line.ofTexts ls).take i)) (i + 1) l

/-! ### A line outside knots -/

theorem mem_issues_document {i : Issue} (h : i ∈ s.issues) : i ∈ (s.document ls).issues := by
  rw [document, List.mem_mergeSort]
  exact List.mem_reverse.mpr h

/-- A line of the front is kept, and one behind it is a comment or reported. -/
theorem accounts_outsideLine (m : Nat) {l : Line} (hends : l.form.endsKnot = false) :
    ((s.outsideLine m l).document ls).Accounts s.inPreamble m l := by
  unfold outsideLine
  -- the front keeps every line; behind it a line that is no comment is reported
  cases hfront : s.inPreamble with
  | true =>
    rw [if_pos rfl]
    unfold preambleLine
    split
    · next hform => simp [Document.Accounts, hform, document]
    · next hform => simp [Document.Accounts, hform, document]
    · next hform => simp [Document.Accounts, hform, document]
    · next hform => simp [Document.Accounts, hform, document]
    · next hform _ => simp [Document.Accounts, hform, document]
    · next hstart hend hexternal hinclusion hdivert =>
      have hkept : l.text ∈ (({ s with preamble := l.text :: s.preamble } : ScriptState).document
          ls).preamble := List.mem_reverse.mpr List.mem_cons_self
      unfold Document.Accounts
      split
      · next hform => simp [hform, LineForm.endsKnot] at hends
      · next hform => simp [hform, LineForm.endsKnot] at hends
      · next hform _ => exact (hstart _ hform).elim
      · next hform _ => exact (hend _ hform).elim
      · next hform _ => exact (hexternal _ _ hform).elim
      · next hform _ => exact (hinclusion _ hform).elim
      · exact Or.inr hkept
      · exact hkept
      all_goals simp_all
  | false =>
    have hreported : ⟨.outsideKnot, m⟩ ∈ ((s.report m .outsideKnot).document ls).issues :=
      mem_issues_document List.mem_cons_self
    rw [if_neg Bool.false_ne_true]
    cases hform : l.form with
    | comment => simp [Document.Accounts, hform]
    | blockComment staysOpen => simp [Document.Accounts, hform]
    | position p => simp [Document.Accounts, hform]
    | knotHeader name => simp [hform, LineForm.endsKnot] at hends
    | regionStart name => simp [hform, LineForm.endsKnot] at hends
    | regionEnd => simp [hform, LineForm.endsKnot] at hends
    | _ =>
      unfold Document.Accounts
      rw [hform]
      exact hreported

theorem accounts_looseLine (hregion : s.region.isSome = true → s.inPreamble = false) (m : Nat)
    {l : Line} (hends : l.form.endsKnot = false) :
    ((s.looseLine m l).document ls).Accounts s.inPreamble m l := by
  have hsteps := stepsOutside m l s
  generalize s.looseLine m l = t at hsteps ⊢
  cases hsteps with
  | placed _ hform hsome =>
    -- behind a marker the front is over
    unfold Document.Accounts
    rw [hregion (by rw [hsome]; rfl), hform]
    trivial
  | passed _ _ => exact accounts_outsideLine (s := { s with positionMayFollow := false }) m hends
  | outside _ => exact accounts_outsideLine m hends

/-! ### The flag of the front -/

theorem inPreamble_closeKnot (last : Nat) (s : ScriptState) :
    (s.closeKnot last).inPreamble = s.inPreamble := by
  cases hk : s.knot with
  | none => rw [closeKnot_of_none last hk]
  | some k => rw [closeKnot_of_some last hk]

theorem inPreamble_step (n : Nat) (p : String) (l : Line) (s : ScriptState) :
    (s.step n p l).inPreamble =
      (s.inPreamble && (l.form.header?.isNone && l.form.regionName?.isNone)) := by
  have hclosed := inPreamble_closeKnot (n - 1) s
  -- headers and markers of regions end the knot, so other lines leave the front as it is
  have hno : l.form.endsKnot = false → (l.form.header?.isNone && l.form.regionName?.isNone) = true := by
    intro hends
    cases hform : l.form with
    | knotHeader name => simp [hform, LineForm.endsKnot] at hends
    | regionStart name => simp [hform, LineForm.endsKnot] at hends
    | _ => rfl
  have hsteps := steps n p l s
  generalize s.step n p l = t at hsteps ⊢
  cases hsteps with
  | header hform =>
    rw [hform]
    exact (Bool.and_false _).symm
  | regionStart hform =>
    rw [hform]
    exact (Bool.and_false _).symm
  | strayEnd hform _ =>
    rw [hform]
    exact hclosed.trans (Bool.and_true _).symm
  | regionEnd hform hregion =>
    rw [hform, closeRegion, hregion]
    exact hclosed.trans (Bool.and_true _).symm
  | body hends _ => rw [hno hends, Bool.and_true]
  | blank hblank _ => rw [hno (LineForm.endsKnot_of_isBlank hblank), Bool.and_true]
  | loose hends _ _ => rw [hno hends, Bool.and_true, (sameChapters_looseLine n l s).inPreamble]

/-- With a region open the front is over. -/
theorem region_step_isSome (n : Nat) (p : String) (l : Line) {s : ScriptState}
    (h : s.region.isSome = true → s.inPreamble = false)
    (hsome : (s.step n p l).region.isSome = true) : (s.step n p l).inPreamble = false := by
  rw [inPreamble_step]
  by_cases hmarker : l.form.isRegionMarker = true
  · cases hform : l.form with
    | regionStart name => exact Bool.and_false _
    | regionEnd => simp [(step_regionEnd n p s hform).2.2] at hsome
    | _ => simp [hform, LineForm.isRegionMarker] at hmarker
  · have hregion := region_step n p s (by simpa using hmarker)
    rw [← Option.isSome_map (f := OpenRegion.name), hregion, Option.isSome_map] at hsome
    rw [h hsome, Bool.false_and]

namespace Accounted

theorem start (supply : Nat) (ls : List String) : Accounted ls 0 { supply } := by
  constructor <;> simp [Line.isFront]

/-- Line `n + 1` is blank, in a knot or accounted for. -/
theorem last_line (h : s.Accounted ls n) (hspanned : s.Spanned ls n) (p : String) {l : Line}
    (hblank : l.form.isBlank = false) (hname : l.form.regionName? = none) :
    (s.step (n + 1) p l).Covers (n + 1) ∨
      ((s.step (n + 1) p l).document ls).Accounts s.inPreamble (n + 1) l := by
  have hsteps := steps (n + 1) p l s
  generalize s.step (n + 1) p l = t at hsteps ⊢
  -- the line is in a knot that it opens or that stays open, ends a region or is loose
  cases hsteps with
  | header _ => exact Or.inl (Or.inr ⟨_, rfl, Nat.le_refl _⟩)
  | regionStart hform => simp [hform, LineForm.regionName?] at hname
  | strayEnd hform _ =>
    right
    unfold Document.Accounts
    rw [hform]
    exact Or.inr (mem_issues_document List.mem_cons_self)
  | @regionEnd r hform hregion =>
    right
    unfold Document.Accounts
    rw [hform]
    refine Or.inl ⟨⟨r.name, r.line, n + 1, r.position, r.knots.reverse⟩, ?_, rfl⟩
    rw [closeRegion, hregion]
    exact List.mem_reverse.mpr List.mem_cons_self
  | body _ hk => exact Or.inl (Or.inr ⟨_, rfl, Nat.le_succ_of_le (hspanned.line _ hk).2⟩)
  | blank hblank' _ => simp [hblank] at hblank'
  | loose hends _ _ => exact Or.inr (accounts_looseLine h.region (n + 1) hends)

theorem step (h : s.Accounted ls n) (hspanned : s.Spanned ls n) (p : String) {l : Line}
    (hl : (Line.ofTexts ls)[n]? = some l) : (s.step (n + 1) p l).Accounted ls (n + 1) := by
  refine ⟨?_, region_step_isSome (n + 1) p l h.region, fun i hi l' hl' hblank hname => ?_⟩
  · rw [inPreamble_step, h.flag, Line.take_succ_eq hl, Line.isFront, Line.isFront, List.all_append]
    simp
  · rcases Nat.lt_succ_iff_lt_or_eq.mp hi with hi | rfl
    · rcases h.lines i hi l' hl' hblank hname with hcover | haccounts
      · exact Or.inl (covers_step hcover hi p l)
      · exact Or.inr ((Extends.step (n + 1) p l s).accounts haccounts)
    · rw [hl] at hl'
      obtain rfl := Option.some.inj hl'
      rw [← h.flag]
      exact h.last_line hspanned p hblank hname

end Accounted

/-- Of all lines: each is blank, in a knot or accounted for. -/
theorem accounted_ofLines (supply : Nat) (ls : List String) {i : Nat} {l : Line}
    (hl : (Line.ofTexts ls)[i]? = some l) (hblank : l.form.isBlank = false)
    (hout : ∀ k ∈ (ofLines supply ls).knots, ¬(k.lineStart ≤ i + 1 ∧ i + 1 ≤ k.lineEnd)) :
    ((ofLines supply ls).document ls).Accounts (Line.isFront ((Line.ofTexts ls).take i)) (i + 1) l := by
  have hlt : i < ls.length := by
    have hlt := (List.getElem?_eq_some_iff.mp hl).1
    rwa [Line.length_ofTexts] at hlt
  obtain ⟨-, haccounted⟩ : (behindFirst supply ls ls.length).Spanned ls ls.length ∧
      (behindFirst supply ls ls.length).Accounted ls ls.length :=
    behindFirst_induction (I := fun n s => s.Spanned ls n ∧ s.Accounted ls n)
      ⟨.start supply ls, .start supply ls⟩
      fun n p l s hp hl h => ⟨h.1.step hp hl, h.2.step h.1 p hl⟩
  cases hname : l.form.regionName? with
  | some name =>
    have hform : l.form = .regionStart name := by
      cases hform : l.form with
      | regionStart name' =>
        rw [hform] at hname
        rw [Option.some.inj hname]
      | _ => simp [hform, LineForm.regionName?] at hname
    have hmem := Line.mem_located hl hname
    rw [← (marked_ofLines supply ls).1] at hmem
    obtain ⟨r, hr, heq⟩ := List.mem_map.mp hmem
    obtain ⟨hline, hname'⟩ := Prod.mk.inj heq
    unfold Document.Accounts
    rw [hform]
    exact ⟨r, hr, hline, hname'⟩
  | none =>
    have hextends : (ofLines supply ls).Extends (behindFirst supply ls ls.length) := by
      rw [ofLines_eq_finish, finish]
      exact (Extends.closeUnclosedRegion _ _ _).trans (Extends.closeKnot _ _)
    rcases haccounted.lines i hlt l hl hblank hname with hcover | haccounts
    · -- the knot that is open at the end goes on to the last line
      rcases covers_closeKnot hcover hlt with ⟨k, hk, hline⟩ | ⟨k, hk, -⟩
      · refine absurd hline (hout k ?_)
        rw [ofLines_eq_finish, finish, (sameKnots_closeUnclosedRegion _ _ _).1]
        exact hk
      · simp [knot_closeKnot] at hk
    · exact hextends.accounts haccounts

/-! ### Names -/

theorem Flagged.of_append {ks ks' : List Knot} (h : Flagged (ks ++ ks')) : Flagged ks' := by
  induction ks with
  | nil => exact h
  | cons k ks ih => exact ih h.2

/-- The mark of a knot among those in front of it. -/
theorem Flagged.duplicate_eq {ks front behind : List Knot} {k : Knot} (h : Flagged ks)
    (hks : ks.reverse = front ++ k :: behind) : k.duplicate = front.any (·.name = k.name) := by
  have heq : ks = behind.reverse ++ k :: front.reverse := by
    rw [← List.reverse_reverse ks, hks]
    simp
  rw [heq] at h
  have hmark := h.of_append.1
  rwa [List.any_reverse] at hmark

end ScriptState

/-- A name means a knot just if none of the knots in front has it. -/
theorem Document.findKnot?_eq_some_iff {d : Document} {front behind : List Knot} {k : Knot}
    (hknots : d.knots = front ++ k :: behind) (hk : k ∉ front) :
    d.findKnot? k.name = some k ↔ ∀ k' ∈ front, k'.name ≠ k.name := by
  have hself : (k :: behind).find? (fun k' => decide (k'.name = k.name)) = some k :=
    List.find?_cons_of_pos (by simp)
  rw [Document.findKnot?, hknots, List.find?_append, hself]
  cases hfront : front.find? fun k' => decide (k'.name = k.name) with
  | none =>
    rw [List.find?_eq_none] at hfront
    exact iff_of_true rfl fun k' hk' => by simpa using hfront k' hk'
  | some k' =>
    have hmem := List.mem_of_find?_eq_some hfront
    refine iff_of_false (fun heq => hk ?_) fun hnone => hnone k' hmem (by simpa using List.find?_some hfront)
    rw [← Option.some.inj heq]
    exact hmem

/-- A document that accounts for all lines of its script. -/
structure Document.Tiled (d : Document) : Prop where
  /-- One knot for each header. -/
  headers : d.knots.map (fun k => (k.lineStart, k.name)) =
    Line.located LineForm.header? (Line.ofTexts d.lines)
  /-- A knot has its header, a body in which nothing ends it, and what is read from the body. -/
  spans : ∀ k ∈ d.knots, k.Spans d.lines
  increasing : d.knots.Pairwise fun k k' => k.lineEnd < k'.lineStart
  /-- By itself a body is read as it is in the script. -/
  bodies : ∀ k ∈ d.knots, Line.ofTexts ((d.lines.take k.lineEnd).drop k.lineStart) =
    ((Line.ofTexts d.lines).take k.lineEnd).drop k.lineStart
  /-- One region for each marker, with the position that stands behind it. -/
  markers : d.regions.map (fun r => (r.lineStart, r.name)) =
    Line.located LineForm.regionName? (Line.ofTexts d.lines)
  positions : ∀ r ∈ d.regions,
    r.position = firstPosition? ((Line.ofTexts d.lines).drop r.lineStart)
  outside : ∀ n l, (Line.ofTexts d.lines)[n]? = some l → l.form.isBlank = false →
    (∀ k ∈ d.knots, ¬(k.lineStart ≤ n + 1 ∧ n + 1 ≤ k.lineEnd)) →
      d.Accounts (Line.isFront ((Line.ofTexts d.lines).take n)) (n + 1) l
  /-- A knot is marked as a duplicate if an earlier one has its name; else its name means it. -/
  names : ∀ front k behind, d.knots = front ++ k :: behind →
    (k.duplicate = true ↔ ∃ k' ∈ front, k'.name = k.name) ∧
      (d.findKnot? k.name = some k ↔ k.duplicate = false)

/-- Every document that was read accounts for all lines of its text. -/
theorem Document.tiled_read (supply : Nat) (text : String) : (Document.read supply text).1.Tiled := by
  obtain ⟨cs, hcomposed⟩ := exists_composedOf supply text
  rw [ScriptState.document_ofLines] at hcomposed ⊢
  obtain ⟨hheaders, hspans⟩ := ScriptState.spanned_ofLines supply (Text.lines text)
  obtain ⟨hmarkers, hpositions⟩ := ScriptState.marked_ofLines supply (Text.lines text)
  have hflagged := ScriptState.flagged_ofLines supply (Text.lines text)
  have hspans' : ∀ k ∈ (ScriptState.ofLines supply (Text.lines text)).knots.reverse,
      k.Spans (Text.lines text) := fun k hk => hspans k (List.mem_reverse.mp hk)
  refine ⟨hheaders, hspans', hcomposed.pairwise_knots, fun k hk => (hspans' k hk).ofTexts_body,
    hmarkers, fun r hr => hpositions r (List.mem_reverse.mp hr), fun n l hl hblank hout => ?_,
    fun front k behind hknots => ?_⟩
  · exact ScriptState.accounted_ofLines supply _ hl hblank fun k hk =>
      hout k (List.mem_reverse.mpr hk)
  · have hmark := hflagged.duplicate_eq hknots
    have hnew : k ∉ front := by
      intro hk
      have hincreasing := hcomposed.pairwise_knots
      rw [hknots] at hincreasing
      have hself := (List.pairwise_append.mp hincreasing).2.2 k hk k List.mem_cons_self
      have hmem : k ∈ (ScriptState.ofLines supply (Text.lines text)).knots.reverse := by
        change k ∈ (ScriptState.document (Text.lines text) _).knots
        rw [hknots]
        exact List.mem_append_left _ hk
      have hordered := (hspans' k hmem).ordered.2.1
      omega
    refine ⟨by simp [hmark], ?_⟩
    rw [findKnot?_eq_some_iff hknots hnew, hmark, List.any_eq_false]
    simp

end StoryScript
