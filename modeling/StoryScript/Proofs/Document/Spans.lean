import StoryScript.Proofs.Document.Regions
import StoryScript.Proofs.Document.Visible

/-!
# The lines of knots

Every knot header opens a knot, which spans the lines up to the next header, the next region marker or the
end of the script (`ScriptState.spanned_ofLines`). The body of a knot is cut out of the script and read by
itself, with no comment open at its start. That is how its lines were read in the script too, since a line in
a comment is no header (`Line.ofTexts_drop`).

The invariant of the reader is `ScriptState.Spanned`: the knots that have ended and the one that is open have
the headers that were read, and each of them its lines.
-/

namespace StoryScript

open Text

/-- The name in a knot header. -/
def LineForm.header? : LineForm → Option String
  | knotHeader name => some name
  | _ => none

theorem LineForm.header?_of_not_endsKnot {f : LineForm} (h : ¬f.endsKnot = true) : f.header? = none := by
  cases f with
  | knotHeader name => simp [endsKnot] at h
  | _ => rfl

/-! ### Parts of lines -/

namespace Line

/-- What is found in lines, each with the number of its line. -/
def located {α : Type} (f : LineForm → Option α) (ls : List Line) : List (Nat × α) :=
  ls.zipIdx.filterMap fun x => (f x.1.form).map fun a => (x.2 + 1, a)

theorem located_concat {α : Type} (f : LineForm → Option α) (ls : List Line) (l : Line) :
    located f (ls ++ [l]) =
      located f ls ++ ((f l.form).map fun a => (ls.length + 1, a)).toList := by
  rw [located, located, List.zipIdx_append, List.filterMap_append, Nat.zero_add]
  cases hf : f l.form <;> simp [hf]

theorem take_succ_eq {α : Type} {xs : List α} {n : Nat} {x : α} (h : xs[n]? = some x) :
    xs.take (n + 1) = xs.take n ++ [x] := by
  rw [List.take_add_one, h]
  rfl

theorem length_take_of_getElem? {α : Type} {xs : List α} {n : Nat} {x : α} (h : xs[n]? = some x) :
    (xs.take n).length = n := by
  rw [List.length_take]
  exact Nat.min_eq_left (Nat.le_of_lt (List.getElem?_eq_some_iff.mp h).1)

/-- What is found in one line more. -/
theorem located_take_succ {α : Type} (f : LineForm → Option α) {ls : List Line} {n : Nat} {l : Line}
    (h : ls[n]? = some l) : located f (ls.take (n + 1)) =
      located f (ls.take n) ++ ((f l.form).map fun a => (n + 1, a)).toList := by
  rw [take_succ_eq h, located_concat, length_take_of_getElem? h]

theorem mem_located {α : Type} {f : LineForm → Option α} {ls : List Line} {n : Nat} {l : Line} {a : α}
    (hl : ls[n]? = some l) (ha : f l.form = some a) : (n + 1, a) ∈ located f ls := by
  refine List.mem_filterMap.mpr ⟨(l, n), List.mk_mem_zipIdx_iff_getElem?.mpr hl, ?_⟩
  rw [ha]
  rfl

theorem mem_map_fst_located {α : Type} {f : LineForm → Option α} {ls : List Line} {m : Nat} :
    m ∈ (located f ls).map Prod.fst ↔ ∃ n l, ls[n]? = some l ∧ (f l.form).isSome = true ∧ m = n + 1 := by
  rw [located, List.map_filterMap, List.mem_filterMap]
  constructor
  · rintro ⟨⟨l, n⟩, hmem, hm⟩
    obtain ⟨a, ha, rfl⟩ := Option.map_eq_some_iff.mp hm
    obtain ⟨b, hb, rfl⟩ := Option.map_eq_some_iff.mp ha
    exact ⟨n, l, List.mk_mem_zipIdx_iff_getElem?.mp hmem, by rw [hb]; rfl, rfl⟩
  · rintro ⟨n, l, hl, hsome, rfl⟩
    obtain ⟨b, hb⟩ := Option.isSome_iff_exists.mp hsome
    exact ⟨(l, n), List.mk_mem_zipIdx_iff_getElem?.mpr hl, by simp [hb]⟩

/-- Behind a knot header the lines are read as if they were all. -/
theorem ofTexts_drop {ls : List String} {n : Nat} {l : Line} {name : String}
    (hl : (ofTexts ls)[n]? = some l) (h : l.form = .knotHeader name) :
    ofTexts (ls.drop (n + 1)) = (ofTexts ls).drop (n + 1) := by
  have hlt : n < ls.length := by
    have hlt := (List.getElem?_eq_some_iff.mp hl).1
    rwa [length_ofTexts] at hlt
  have hfront : (readFrom false (ls.take n)).length = n := by
    rw [length_readFrom, List.length_take, Nat.min_eq_left (Nat.le_of_lt hlt)]
  have hsplit : ofTexts ls = readFrom false (ls.take n) ++
      readFrom (opensBlock false (ls.take n)) (ls[n] :: ls.drop (n + 1)) := by
    rw [← readFrom_append, ← List.drop_eq_getElem_cons hlt, List.take_append_drop]
    rfl
  have hnil : (readFrom false (ls.take n)).drop (n + 1) = [] :=
    List.drop_eq_nil_of_le (by omega)
  rw [hsplit, List.getElem?_append_right (by omega), hfront, Nat.sub_self] at hl
  rw [hsplit, List.drop_append, hfront, Nat.add_sub_cancel_left, hnil, List.nil_append]
  cases hopen : opensBlock false (ls.take n) with
  | true =>
    -- inside a comment no line is a header
    rw [hopen, readFrom_true_cons] at hl
    obtain rfl := Option.some.inj hl
    simp [insideComment] at h
  | false =>
    rw [hopen, readFrom_false_cons] at hl
    obtain rfl := Option.some.inj hl
    rw [readFrom_false_cons, h]
    rfl

/-- So are the lines from a header to any later line. -/
theorem ofTexts_section {ls : List String} {n : Nat} {l : Line} {name : String}
    (hl : (ofTexts ls)[n]? = some l) (h : l.form = .knotHeader name) (m : Nat) :
    ofTexts ((ls.take m).drop (n + 1)) = ((ofTexts ls).take m).drop (n + 1) := by
  by_cases hnm : n < m
  · have hl' : (ofTexts (ls.take m))[n]? = some l := by
      rw [ScriptState.ofTexts_take, List.getElem?_take_of_lt hnm, hl]
    rw [ofTexts_drop hl' h, ScriptState.ofTexts_take]
  · rw [List.drop_eq_nil_of_le, List.drop_eq_nil_of_le]
    · rfl
    · rw [List.length_take]
      omega
    · rw [List.length_take]
      omega

end Line

/-! ### The run over the lines -/

namespace ScriptState

variable {supply : Nat} {ls : List String} {n : Nat} {s : ScriptState}

/-- What every line keeps holds behind the last. -/
theorem behindFirst_induction {I : Nat → ScriptState → Prop} (hstart : I 0 { supply })
    (hstep : ∀ n p l s, ls[n]? = some p → (Line.ofTexts ls)[n]? = some l → I n s →
      I (n + 1) (s.step (n + 1) p l)) : I ls.length (behindFirst supply ls ls.length) := by
  have hall : ∀ n ≤ ls.length, I n (behindFirst supply ls n) := by
    intro n
    induction n with
    | zero => exact fun _ => hstart
    | succ n ih =>
      intro hn
      have hp : ls[n]? = some ls[n] := List.getElem?_eq_getElem hn
      have hn' : n < (Line.ofTexts ls).length := by rwa [Line.length_ofTexts]
      have hl : (Line.ofTexts ls)[n]? = some (Line.ofTexts ls)[n] := List.getElem?_eq_getElem hn'
      rw [behindFirst_succ supply (List.getElem?_zip_eq_some.mpr ⟨hp, hl⟩)]
      exact hstep n _ _ _ hp hl (ih (Nat.le_of_succ_le hn))
  exact hall ls.length (Nat.le_refl _)

theorem ofLines_eq_finish (supply : Nat) (ls : List String) :
    ofLines supply ls = (behindFirst supply ls ls.length).finish ls.length := by
  rw [ofLines, behindFirst, List.take_of_length_le (by rw [length_zip_ofTexts])]

/-- What a line does to the open knot. -/
theorem knot_step (n : Nat) (p : String) (l : Line) (s : ScriptState) :
    (s.step n p l).knot = match l.form.header? with
      | some name => some ⟨name, n, p, []⟩
      | none => if l.form.endsKnot then none else s.knot.map fun k => { k with body := p :: k.body } := by
  have hother : l.form.endsKnot = false → (match l.form.header? with
      | some name => some ⟨name, n, p, []⟩
      | none => if l.form.endsKnot then none else s.knot.map fun k => { k with body := p :: k.body }) =
        s.knot.map fun k => { k with body := p :: k.body } := by
    intro hends
    rw [LineForm.header?_of_not_endsKnot (by simp [hends]), hends]
    rfl
  have hsteps := steps n p l s
  generalize s.step n p l = t at hsteps ⊢
  cases hsteps with
  | header hform => rw [hform]; rfl
  | regionStart hform =>
    rw [hform]
    exact (sameKnots_closeUnclosedRegion _ _ _).2.1.trans (knot_closeKnot _ _)
  | strayEnd hform _ =>
    rw [hform]
    exact knot_closeKnot _ _
  | regionEnd hform _ =>
    rw [hform]
    exact (sameKnots_closeRegion _ _).2.1.trans (knot_closeKnot _ _)
  | body hends hknot =>
    rw [hother hends, hknot]
    rfl
  | blank hblank hknot =>
    rw [hother (LineForm.endsKnot_of_isBlank hblank), hknot]
    rfl
  | loose hends _ hknot =>
    rw [hother hends, (sameKnots_looseLine n l s).knot, hknot]
    rfl

end ScriptState

/-! ### Spans -/

/-- A knot whose header is on the line on which it begins, and whose body are the lines from there up to the
line on which it ends. No other knot and no region begins or ends among them. -/
structure Knot.Spans (ls : List String) (k : Knot) : Prop where
  ordered : 0 < k.lineStart ∧ k.lineStart ≤ k.lineEnd ∧ k.lineEnd ≤ ls.length
  header : ∃ l, (Line.ofTexts ls)[k.lineStart - 1]? = some l ∧ l.form = .knotHeader k.name
  inside : ∀ l ∈ ((Line.ofTexts ls).take k.lineEnd).drop k.lineStart, l.form.endsKnot = false
  body : ∃ supply,
    k.items = (Body.read supply ((ls.take k.lineEnd).drop k.lineStart)).1.items ∧
      k.position = (Body.read supply ((ls.take k.lineEnd).drop k.lineStart)).1.position

/-- The body of a knot is read in the script as it is by itself. -/
theorem Knot.Spans.ofTexts_body {ls : List String} {k : Knot} (h : k.Spans ls) :
    Line.ofTexts ((ls.take k.lineEnd).drop k.lineStart) =
      ((Line.ofTexts ls).take k.lineEnd).drop k.lineStart := by
  obtain ⟨l, hl, hform⟩ := h.header
  have hsection := Line.ofTexts_section hl hform k.lineEnd
  rwa [Nat.sub_add_cancel h.ordered.1] at hsection

namespace ScriptState

variable {supply : Nat} {ls : List String} {n : Nat} {s t : ScriptState}

/-- A state behind the first `n` lines, whose knots have the headers of these lines. -/
structure Spanned (ls : List String) (n : Nat) (s : ScriptState) : Prop where
  headers : s.knots.reverse.map (fun k => (k.lineStart, k.name)) ++
    (s.knot.map fun k => (k.line, k.name)).toList =
      Line.located LineForm.header? ((Line.ofTexts ls).take n)
  ended : ∀ k ∈ s.knots, k.Spans ls
  line : ∀ k ∈ s.knot, 0 < k.line ∧ k.line ≤ n
  header : ∀ k ∈ s.knot, ∃ l, (Line.ofTexts ls)[k.line - 1]? = some l ∧ l.form = .knotHeader k.name
  inside : ∀ k ∈ s.knot, ∀ l ∈ ((Line.ofTexts ls).take n).drop k.line, l.form.endsKnot = false
  body : ∀ k ∈ s.knot, k.body.reverse = (ls.take n).drop k.line

namespace Spanned

theorem start (supply : Nat) (ls : List String) : Spanned ls 0 { supply } := by
  constructor <;> simp [Line.located]

/-- The open knot ends on the last line that was read. -/
theorem closeKnot (h : s.Spanned ls n) (hn : n ≤ ls.length) : (s.closeKnot n).Spanned ls n := by
  cases hk : s.knot with
  | none => rwa [closeKnot_of_none n hk]
  | some k =>
    have hnone := knot_closeKnot n s
    have hheaders := h.headers
    refine ⟨?_, ?_, by simp [hnone], by simp [hnone], by simp [hnone], by simp [hnone]⟩
    · rw [← hheaders, knots_closeKnot n hk, hnone, hk]
      simp [finished]
    · rw [knots_closeKnot n hk, List.forall_mem_cons]
      refine ⟨⟨?_, h.header k hk, h.inside k hk, s.supply, ?_, ?_⟩, h.ended⟩
      · exact ⟨(h.line k hk).1, (h.line k hk).2, hn⟩
      · rw [finished, h.body k hk]
      · rw [finished, h.body k hk]

/-- A header opens a knot. -/
theorem openKnot (h : s.Spanned ls n) (hnone : s.knot = none) {p name : String} {l : Line}
    (hl : (Line.ofTexts ls)[n]? = some l) (hform : l.form = .knotHeader name)
    (hknots : t.knots = s.knots) (hknot : t.knot = some ⟨name, n + 1, p, []⟩) :
    t.Spanned ls (n + 1) := by
  have hheaders := h.headers
  have hmem : ∀ k ∈ t.knot, k = ⟨name, n + 1, p, []⟩ := by simp [hknot]
  refine ⟨?_, by rw [hknots]; exact h.ended, fun k hk => ?_, fun k hk => ?_, fun k hk => ?_,
    fun k hk => ?_⟩
  · rw [hnone, Option.map_none, Option.toList_none, List.append_nil] at hheaders
    rw [Line.located_take_succ _ hl, hform, ← hheaders, hknots, hknot]
    rfl
  · rw [hmem k hk]
    exact ⟨Nat.succ_pos n, Nat.le_refl _⟩
  · rw [hmem k hk]
    exact ⟨l, hl, hform⟩
  · rw [hmem k hk, List.drop_eq_nil_of_le (List.length_take_le _ _)]
    simp
  · rw [hmem k hk, List.drop_eq_nil_of_le (List.length_take_le _ _)]
    rfl

/-- A line without a knot, which opens none. -/
theorem noKnot (h : s.Spanned ls n) (hnone : s.knot = none) {l : Line}
    (hl : (Line.ofTexts ls)[n]? = some l) (hform : l.form.header? = none)
    (hknots : t.knots = s.knots) (hknot : t.knot = none) : t.Spanned ls (n + 1) := by
  have hheaders := h.headers
  refine ⟨?_, by rw [hknots]; exact h.ended, by simp [hknot], by simp [hknot], by simp [hknot],
    by simp [hknot]⟩
  rw [hnone] at hheaders
  rw [Line.located_take_succ _ hl, hform, ← hheaders, hknots, hknot]
  exact (List.append_nil _).symm

/-- A line of the open knot. -/
theorem bodyLine (h : s.Spanned ls n) {k : OpenKnot} (hk : s.knot = some k) {p : String} {l : Line}
    (hp : ls[n]? = some p) (hl : (Line.ofTexts ls)[n]? = some l) (hends : l.form.endsKnot = false)
    (hheader : l.form.header? = none) (hknots : t.knots = s.knots)
    (hknot : t.knot = some { k with body := p :: k.body }) : t.Spanned ls (n + 1) := by
  have hheaders := h.headers
  have hline := (h.line k hk).2
  have hmem : ∀ k' ∈ t.knot, k' = { k with body := p :: k.body } := by simp [hknot]
  refine ⟨?_, by rw [hknots]; exact h.ended, fun k' hk' => ?_, fun k' hk' => ?_, fun k' hk' => ?_,
    fun k' hk' => ?_⟩
  · rw [hk] at hheaders
    rw [Line.located_take_succ _ hl, hheader, ← hheaders, hknots, hknot]
    exact (List.append_nil _).symm
  · rw [hmem k' hk']
    exact ⟨(h.line k hk).1, Nat.le_succ_of_le hline⟩
  · rw [hmem k' hk']
    exact h.header k hk
  · rw [hmem k' hk', Line.take_succ_eq hl, List.drop_append_of_le_length, List.forall_mem_append]
    · exact ⟨h.inside k hk, by simpa using hends⟩
    · rwa [Line.length_take_of_getElem? hl]
  · rw [hmem k' hk', Line.take_succ_eq hp, List.drop_append_of_le_length, ← h.body k hk]
    · exact List.reverse_cons
    · rwa [Line.length_take_of_getElem? hp]

theorem step (h : s.Spanned ls n) {p : String} {l : Line} (hp : ls[n]? = some p)
    (hl : (Line.ofTexts ls)[n]? = some l) : (s.step (n + 1) p l).Spanned ls (n + 1) := by
  have hclosed := h.closeKnot (Nat.le_of_lt (List.getElem?_eq_some_iff.mp hp).1)
  have hshut := knot_closeKnot n s
  have hknots := knots_step (n + 1) p l s
  have hknot := knot_step (n + 1) p l s
  by_cases hends : l.form.endsKnot = true
  · rw [if_pos hends] at hknots hknot
    cases hform : l.form with
    | knotHeader name =>
      rw [hform] at hknot
      exact hclosed.openKnot hshut hl hform hknots hknot
    | regionStart name =>
      rw [hform] at hknot
      exact hclosed.noKnot hshut hl (by rw [hform]; rfl) hknots hknot
    | regionEnd =>
      rw [hform] at hknot
      exact hclosed.noKnot hshut hl (by rw [hform]; rfl) hknots hknot
    | _ => simp [hform, LineForm.endsKnot] at hends
  · have hheader := LineForm.header?_of_not_endsKnot hends
    rw [if_neg hends] at hknots hknot
    rw [hheader] at hknot
    rw [Bool.not_eq_true] at hends
    cases hk : s.knot with
    | none =>
      rw [hk] at hknot
      exact h.noKnot hk hl hheader hknots hknot
    | some k =>
      rw [hk] at hknot
      exact h.bodyLine hk hp hl hends hheader hknots hknot

end Spanned

/-- The knots of lines: one for each header, and each with its lines. -/
theorem spanned_ofLines (supply : Nat) (ls : List String) :
    (ofLines supply ls).knots.reverse.map (fun k => (k.lineStart, k.name)) =
        Line.located LineForm.header? (Line.ofTexts ls) ∧
      ∀ k ∈ (ofLines supply ls).knots, k.Spans ls := by
  have hread : (behindFirst supply ls ls.length).Spanned ls ls.length :=
    behindFirst_induction (.start supply ls) fun n p l s hp hl h => h.step hp hl
  have hclosed := hread.closeKnot (Nat.le_refl _)
  have hknots : (ofLines supply ls).knots =
      ((behindFirst supply ls ls.length).closeKnot ls.length).knots := by
    rw [ofLines_eq_finish, finish, (sameKnots_closeUnclosedRegion _ _ _).1]
  have hheaders := hclosed.headers
  rw [knot_closeKnot, Option.map_none, Option.toList_none, List.append_nil,
    List.take_of_length_le (by rw [Line.length_ofTexts])] at hheaders
  rw [hknots]
  exact ⟨hheaders, hclosed.ended⟩

end ScriptState

end StoryScript
