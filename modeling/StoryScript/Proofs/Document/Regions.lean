import StoryScript.Proofs.Document.Trailing

/-!
# Regions

Only the markers of regions open and close them: without any the same region stays open
(`ScriptState.region_ahead_append`). A region of a document that ends with its end marker is open right in
front of that line (`ScriptState.region_ahead_of_mem`). This is not so of a region that lacks its marker: its
last line is just the one before the next region, or the last of the script.
-/

namespace StoryScript

open Text

/-- Whether a line opens or closes a region. -/
def LineForm.isRegionMarker : LineForm → Bool
  | regionStart _ | regionEnd => true
  | _ => false

namespace ScriptState

variable {s : ScriptState}

/-! ### Lines that are no markers -/

theorem region_step (n : Nat) (p : String) {l : Line} (s : ScriptState)
    (h : l.form.isRegionMarker = false) :
    (s.step n p l).region.map OpenRegion.name = s.region.map OpenRegion.name := by
  have hsteps := steps n p l s
  generalize s.step n p l = t at hsteps ⊢
  cases hsteps with
  | header _ => exact region_closeKnot _ _
  | regionStart hform => simp [hform, LineForm.isRegionMarker] at h
  | strayEnd hform _ => simp [hform, LineForm.isRegionMarker] at h
  | regionEnd hform _ => simp [hform, LineForm.isRegionMarker] at h
  | body _ _ => rfl
  | blank _ _ => rfl
  | loose _ _ _ => exact (sameKnots_looseLine n l s).region

theorem region_readFrom (s : ScriptState) (n : Nat) {xs : List (String × Line)}
    (h : ∀ x ∈ xs, x.2.form.isRegionMarker = false) :
    (s.readFrom n xs).region.map OpenRegion.name = s.region.map OpenRegion.name := by
  induction xs generalizing s n with
  | nil => rfl
  | cons x xs ih =>
    obtain ⟨p, l⟩ := x
    rw [List.forall_mem_cons] at h
    rw [readFrom, ih _ (n + 1) h.2, region_step n p s h.1]

/-- Lines without markers leave the region open that was open. -/
theorem region_ahead_append (supply : Nat) {front mid : List String}
    (hclear : Line.opensBlock false front = false)
    (hends : ∀ p ∈ mid.head?, (Line.ofText p).form.endsKnot = true)
    (h : ∀ l ∈ Line.ofTexts mid, l.form.isRegionMarker = false) :
    (ahead supply (front ++ mid)).region.map OpenRegion.name =
      (ahead supply front).region.map OpenRegion.name := by
  rw [ahead_append supply hclear hends, region_closeKnot]
  exact region_readFrom _ _ fun x hx => h x.2 (List.of_mem_zip hx).2

/-! ### Regions that end -/

theorem regions_closeKnot (last : Nat) (s : ScriptState) : (s.closeKnot last).regions = s.regions := by
  unfold closeKnot
  split
  · rfl
  · dsimp only
    split <;> rfl

/-- The region that ends is the one that was open. -/
theorem mem_regions_closeRegion {last : Nat} {r : Region} (h : r ∈ (s.closeRegion last).regions) :
    r ∈ s.regions ∨ s.region.map OpenRegion.name = some r.name ∧ r.lineEnd = last := by
  unfold closeRegion at h
  split at h
  · exact Or.inl h
  · next o ho =>
    rcases List.mem_cons.mp h with rfl | h
    · exact Or.inr ⟨by rw [ho]; rfl, rfl⟩
    · exact Or.inl h

theorem mem_regions_closeUnclosedRegion {line last : Nat} {r : Region}
    (h : r ∈ (s.closeUnclosedRegion line last).regions) :
    r ∈ s.regions ∨ s.region.map OpenRegion.name = some r.name ∧ r.lineEnd = last := by
  unfold closeUnclosedRegion at h
  split at h
  · exact Or.inl h
  · next o _ =>
    have hreported := mem_regions_closeRegion (s := s.report line (.regionUnclosed o.name)) h
    exact hreported

/-- A region that ends with a line ends at its end marker, on this line, or without one, on the line before
the next region. -/
theorem mem_regions_step {n : Nat} {p : String} {l : Line} {r : Region}
    (h : r ∈ (s.step n p l).regions) : r ∈ s.regions ∨
      s.region.map OpenRegion.name = some r.name ∧
        (l.form = .regionEnd ∧ r.lineEnd = n ∨ l.form ≠ .regionEnd ∧ r.lineEnd = n - 1) := by
  have hregion := region_closeKnot (n - 1) s
  have hsteps := steps n p l s
  generalize s.step n p l = t at hsteps h
  cases hsteps with
  | header _ => exact Or.inl (regions_closeKnot (n - 1) s ▸ h)
  | regionStart hform =>
    rcases mem_regions_closeUnclosedRegion h with h | ⟨hname, hlast⟩
    · exact Or.inl (regions_closeKnot (n - 1) s ▸ h)
    · exact Or.inr ⟨hregion ▸ hname, Or.inr ⟨by simp [hform], hlast⟩⟩
  | strayEnd _ _ => exact Or.inl (regions_closeKnot (n - 1) s ▸ h)
  | regionEnd hform _ =>
    rcases mem_regions_closeRegion h with h | ⟨hname, hlast⟩
    · exact Or.inl (regions_closeKnot (n - 1) s ▸ h)
    · exact Or.inr ⟨hregion ▸ hname, Or.inl ⟨hform, hlast⟩⟩
  | body _ _ => exact Or.inl h
  | blank _ _ => exact Or.inl h
  | loose _ _ _ =>
    rw [(sameChapters_looseLine n l s).regions] at h
    exact Or.inl h

/-! ### Regions with an end marker -/

/-- The state when the first lines of a script have been read. -/
def behindFirst (supply : Nat) (ls : List String) (n : Nat) : ScriptState :=
  ({ supply } : ScriptState).readFrom 1 ((ls.zip (Line.ofTexts ls)).take n)

theorem behindFirst_succ (supply : Nat) {ls : List String} {n : Nat} {p : String} {l : Line}
    (h : (ls.zip (Line.ofTexts ls))[n]? = some (p, l)) :
    behindFirst supply ls (n + 1) = (behindFirst supply ls n).step (n + 1) p l := by
  have hn : n ≤ (ls.zip (Line.ofTexts ls)).length :=
    Nat.le_of_lt (List.getElem?_eq_some_iff.mp h).1
  have htake : (ls.zip (Line.ofTexts ls)).take (n + 1) =
      (ls.zip (Line.ofTexts ls)).take n ++ [(p, l)] := by
    rw [List.take_add_one, h]
    rfl
  rw [behindFirst, htake, readFrom_append, List.length_take, Nat.min_eq_left hn, Nat.add_comm 1]
  rfl

/-- A region that ends with an end marker was open in front of that line. -/
def EndsWhereOpen (supply : Nat) (ls : List String) (r : Region) : Prop :=
  ∀ l, (Line.ofTexts ls)[r.lineEnd - 1]? = some l → l.form = .regionEnd →
    (behindFirst supply ls (r.lineEnd - 1)).region.map OpenRegion.name = some r.name

/-- A region that ends in front of the next one has no end marker. -/
theorem endsWhereOpen_of_unclosed {supply : Nat} {ls : List String} {n : Nat} {r : Region}
    (hname : (behindFirst supply ls n).region.map OpenRegion.name = some r.name)
    (hlast : r.lineEnd = n) : EndsWhereOpen supply ls r := by
  intro l hl hform
  exfalso
  cases n with
  | zero => simp [behindFirst, readFrom] at hname
  | succ n =>
    -- behind an end marker no region is open
    rw [hlast, Nat.add_sub_cancel] at hl
    have hlength : n < ls.length := by
      have hlt := (List.getElem?_eq_some_iff.mp hl).1
      rwa [Line.length_ofTexts] at hlt
    have hzip : (ls.zip (Line.ofTexts ls))[n]? = some (ls[n], l) :=
      List.getElem?_zip_eq_some.mpr ⟨List.getElem?_eq_getElem hlength, hl⟩
    rw [behindFirst_succ supply hzip, (step_regionEnd (n + 1) _ _ hform).2.2] at hname
    simp at hname

theorem endsWhereOpen_behindFirst (supply : Nat) (ls : List String) (n : Nat) :
    ∀ r ∈ (behindFirst supply ls n).regions, EndsWhereOpen supply ls r := by
  induction n with
  | zero => simp [behindFirst, readFrom]
  | succ n ih =>
    cases hx : (ls.zip (Line.ofTexts ls))[n]? with
    | none =>
      have hsame : behindFirst supply ls (n + 1) = behindFirst supply ls n := by
        have hle := List.getElem?_eq_none_iff.mp hx
        rw [behindFirst, behindFirst, List.take_of_length_le hle,
          List.take_of_length_le (Nat.le_succ_of_le hle)]
      rwa [hsame]
    | some x =>
      obtain ⟨p, l⟩ := x
      intro r hr
      rw [behindFirst_succ supply hx] at hr
      rcases mem_regions_step hr with hr | ⟨hname, ⟨-, hlast⟩ | ⟨-, hlast⟩⟩
      · exact ih r hr
      · intro l' _ _
        rwa [hlast, Nat.add_sub_cancel]
      · exact endsWhereOpen_of_unclosed hname hlast

theorem ofTexts_take (ls : List String) (n : Nat) :
    Line.ofTexts (ls.take n) = (Line.ofTexts ls).take n := by
  by_cases hn : n ≤ ls.length
  · rw [Line.ofTexts_eq_take_append ls n, List.take_left' (by rw [Line.length_ofTexts, List.length_take, Nat.min_eq_left hn])]
  · rw [List.take_of_length_le (by omega), List.take_of_length_le (by rw [Line.length_ofTexts]; omega)]

/-- In front of the end marker of a region the region is open. -/
theorem region_ahead_of_mem {supply : Nat} {ls : List String} {r : Region}
    (hr : r ∈ (ofLines supply ls).regions) {l : Line}
    (hl : (Line.ofTexts ls)[r.lineEnd - 1]? = some l) (hform : l.form = .regionEnd) :
    (ahead supply (ls.take (r.lineEnd - 1))).region.map OpenRegion.name = some r.name := by
  have hall : ofLines supply ls = (behindFirst supply ls ls.length).finish ls.length := by
    rw [ofLines, behindFirst, List.take_of_length_le (by rw [length_zip_ofTexts])]
  have hopen : EndsWhereOpen supply ls r := by
    rw [hall, finish] at hr
    rcases mem_regions_closeUnclosedRegion hr with hr | ⟨hname, hlast⟩
    · rw [regions_closeKnot] at hr
      exact endsWhereOpen_behindFirst supply ls _ r hr
    · rw [region_closeKnot] at hname
      exact endsWhereOpen_of_unclosed hname hlast
  have hzip : (ls.take (r.lineEnd - 1)).zip (Line.ofTexts (ls.take (r.lineEnd - 1))) =
      (ls.zip (Line.ofTexts ls)).take (r.lineEnd - 1) := by
    rw [ofTexts_take]
    exact List.take_zipWith.symm
  rw [ahead, region_closeKnot, hzip]
  exact hopen l hl hform

end ScriptState

end StoryScript
