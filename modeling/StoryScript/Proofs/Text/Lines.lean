import Mathlib.Data.List.Forall2
import StoryScript.Text.Lines
import StoryScript.Proofs.Text.Strip

/-!
# Joining and cutting lines

A line of a text holds no line feed (`Text.newline_not_mem_lines`). Lines without line feeds that are
joined and cut again are the same, but that a carriage return that ends a line is taken for a part of the line
break behind it (`Text.forall₂_lines_unlines`); so they are the same up to blanks around them
(`Text.map_strip_lines_unlines`). Lines with line feeds stand for more than one line of the text that they are
joined to (`Text.unlines_unbroken`).
-/

namespace StoryScript.Text

theorem sep_not_mem_splitAt (sep : Char) (cs : List Char) : ∀ p ∈ splitAt sep cs, sep ∉ p := by
  induction cs with
  | nil => simp [splitAt]
  | cons c cs ih =>
    rw [splitAt]
    split
    · rw [List.forall_mem_cons]
      exact ⟨by simp, ih⟩
    · next hc =>
      cases hs : splitAt sep cs with
      | nil => exact absurd hs (splitAt_ne_nil sep cs)
      | cons p ps =>
        rw [hs, List.forall_mem_cons] at ih
        rw [List.forall_mem_cons]
        refine ⟨?_, ih.2⟩
        rw [List.mem_cons, not_or]
        exact ⟨fun h => hc h.symm, ih.1⟩

/-- Cutting undoes joining, if no piece holds the separator. -/
theorem splitAt_append (sep : Char) {p : List Char} (hp : sep ∉ p) (cs : List Char) :
    splitAt sep (p ++ sep :: cs) = p :: splitAt sep cs := by
  induction p with
  | nil => rw [List.nil_append, splitAt, if_pos rfl]
  | cons c p ih =>
    rw [List.mem_cons, not_or] at hp
    rw [List.cons_append, splitAt, if_neg (fun h => hp.1 h.symm), ih hp.2]

theorem splitAt_of_not_mem {sep : Char} {p : List Char} (hp : sep ∉ p) : splitAt sep p = [p] := by
  induction p with
  | nil => rfl
  | cons c p ih =>
    rw [List.mem_cons, not_or] at hp
    rw [splitAt, if_neg (fun h => hp.1 h.symm), ih hp.2]

theorem joinWith_cons (sep : Char) (p : List Char) {ps : List (List Char)} (h : ps ≠ []) :
    joinWith sep (p :: ps) = p ++ sep :: joinWith sep ps := by
  cases ps with
  | nil => exact absurd rfl h
  | cons q qs => rfl

/-- An empty piece behind others adds a separator. -/
theorem joinWith_concat_nil (sep : Char) {ps : List (List Char)} (h : ps ≠ []) :
    joinWith sep (ps ++ [[]]) = joinWith sep ps ++ [sep] := by
  induction ps with
  | nil => exact absurd rfl h
  | cons p ps ih =>
    cases ps with
    | nil => simp [joinWith]
    | cons q ps =>
      rw [List.cons_append, joinWith_cons sep p (by simp), joinWith_cons sep p (by simp), ih (by simp),
        List.append_assoc, List.cons_append]

/-- Joining keeps the characters of every piece. -/
theorem mem_joinWith {sep c : Char} {p : List Char} {ps : List (List Char)} (hp : p ∈ ps)
    (hc : c ∈ p) : c ∈ joinWith sep ps := by
  induction ps with
  | nil => simp at hp
  | cons q qs ih =>
    by_cases hqs : qs = []
    · subst hqs
      obtain rfl := List.mem_singleton.mp hp
      exact hc
    · rw [joinWith_cons sep q hqs, List.mem_append, List.mem_cons]
      rcases List.mem_cons.mp hp with rfl | hp
      · exact Or.inl hc
      · exact Or.inr (Or.inr (ih hp))

theorem splitAt_joinWith {sep : Char} {ps : List (List Char)} (hne : ps ≠ [])
    (h : ∀ p ∈ ps, sep ∉ p) : splitAt sep (joinWith sep ps) = ps := by
  induction ps with
  | nil => exact absurd rfl hne
  | cons p ps ih =>
    rw [List.forall_mem_cons] at h
    by_cases hps : ps = []
    · rw [hps]
      exact splitAt_of_not_mem h.1
    · rw [joinWith_cons sep p hps, splitAt_append sep h.1, ih hps h.2]

/-! ### Carriage returns -/

theorem dropCarriageReturns_of_not_mem {p : List Char} (hp : '\n' ∉ p) :
    dropCarriageReturns p = p := by
  induction p with
  | nil => rfl
  | cons c p ih =>
    rw [List.mem_cons, not_or] at hp
    unfold dropCarriageReturns
    split
    · next heq =>
      rw [List.cons.injEq] at heq
      simp [heq.2] at hp
    · next heq =>
      rw [List.cons.injEq] at heq
      rw [← heq.1, ← heq.2, ih hp.2]
    · next heq => simp at heq

/-- In front of a line feed a line may lose a carriage return at its end. -/
theorem dropCarriageReturns_append {p : List Char} (hp : '\n' ∉ p) (cs : List Char) :
    ∃ q, (p = q ∨ p = q ++ ['\r']) ∧
      dropCarriageReturns (p ++ '\n' :: cs) = q ++ '\n' :: dropCarriageReturns cs := by
  induction p with
  | nil => exact ⟨[], Or.inl rfl, rfl⟩
  | cons c p ih =>
    rw [List.mem_cons, not_or] at hp
    obtain ⟨q, hq, hdrop⟩ := ih hp.2
    by_cases hcr : c = '\r' ∧ p = []
    · obtain ⟨rfl, rfl⟩ := hcr
      exact ⟨[], Or.inr rfl, rfl⟩
    · refine ⟨c :: q, ?_, ?_⟩
      · rcases hq with rfl | rfl
        · exact Or.inl rfl
        · exact Or.inr rfl
      · rw [List.cons_append, List.cons_append, ← hdrop]
        conv_lhs => unfold dropCarriageReturns
        split
        · next heq =>
          -- a line feed directly behind the carriage return would have to be the one behind the line
          rw [List.cons.injEq] at heq
          obtain ⟨rfl, htail⟩ := heq
          cases p with
          | nil => exact absurd ⟨rfl, rfl⟩ hcr
          | cons d p =>
            rw [List.cons_append, List.cons.injEq] at htail
            simp [htail.1] at hp
        · next heq =>
          rw [List.cons.injEq] at heq
          rw [heq.1, heq.2]
        · next heq => simp at heq

/-! ### Lines -/

/-- No line holds a line feed. -/
theorem newline_not_mem_lines {text line : String} (h : line ∈ lines text) :
    '\n' ∉ line.toList := by
  obtain ⟨p, hp, rfl⟩ := List.mem_map.mp h
  rw [String.toList_ofList]
  exact sep_not_mem_splitAt '\n' _ p hp

theorem stripChars_dropped {p q : List Char} (h : p = q ∨ p = q ++ ['\r']) :
    stripChars q = stripChars p := by
  rcases h with rfl | rfl
  · rfl
  · exact (stripChars_append_blank q (List.forall_mem_singleton.mpr (by decide))).symm

/-- Pieces that are joined by line feeds may then lose carriage returns at their ends. -/
theorem dropCarriageReturns_joinWith {ps : List (List Char)} (h : ∀ p ∈ ps, '\n' ∉ p) :
    ∃ qs, dropCarriageReturns (joinWith '\n' ps) = joinWith '\n' qs ∧
      List.Forall₂ (fun q p => p = q ∨ p = q ++ ['\r']) qs ps ∧ ∀ q ∈ qs, '\n' ∉ q := by
  induction ps with
  | nil => exact ⟨[], rfl, .nil, by simp⟩
  | cons p ps ih =>
    rw [List.forall_mem_cons] at h
    obtain ⟨qs, hjoin, hlost, hqs⟩ := ih h.2
    by_cases hps : ps = []
    · subst hps
      exact ⟨[p], dropCarriageReturns_of_not_mem h.1, .cons (Or.inl rfl) .nil, by simpa using h.1⟩
    · obtain ⟨q, hq, hdrop⟩ := dropCarriageReturns_append h.1 (joinWith '\n' ps)
      have hne : qs ≠ [] := by
        rintro rfl
        exact hps (List.forall₂_nil_left_iff.mp hlost)
      refine ⟨q :: qs, ?_, .cons hq hlost, ?_⟩
      · rw [joinWith_cons _ _ hps, hdrop, hjoin, joinWith_cons _ _ hne]
      · rw [List.forall_mem_cons]
        refine ⟨fun hmem => h.1 ?_, hqs⟩
        rcases hq with rfl | rfl
        · exact hmem
        · exact List.mem_append_left _ hmem

/-- Lines that are joined and cut again are the same, but for carriage returns at their ends. -/
theorem forall₂_lines_unlines {ls : List String} (hne : ls ≠ []) (h : ∀ l ∈ ls, '\n' ∉ l.toList) :
    List.Forall₂ (fun m l => l = m ∨ l = m ++ "\r") (lines (unlines ls)) ls := by
  have hpieces : ∀ p ∈ ls.map String.toList, '\n' ∉ p := by simpa using h
  obtain ⟨qs, hjoin, hlost, hqs⟩ := dropCarriageReturns_joinWith hpieces
  have hqne : qs ≠ [] := by
    rintro rfl
    exact hne (List.map_eq_nil_iff.mp (List.forall₂_nil_left_iff.mp hlost))
  rw [lines, unlines, String.toList_ofList, hjoin, splitAt_joinWith hqne hqs, List.forall₂_map_left_iff]
  refine (List.forall₂_map_right_iff.mp hlost).imp fun q l hql => ?_
  rw [← String.toList_inj, ← String.toList_inj, String.toList_append, String.toList_ofList]
  exact hql

/-- So they are the same up to blanks around them. -/
theorem map_strip_lines_unlines {ls : List String} (hne : ls ≠ [])
    (h : ∀ l ∈ ls, '\n' ∉ l.toList) : (lines (unlines ls)).map strip = ls.map strip := by
  have hstrip : List.Forall₂ (fun m l => strip m = strip l) (lines (unlines ls)) ls := by
    refine (forall₂_lines_unlines hne h).imp fun m l hml => ?_
    rw [strip, strip]
    refine congrArg String.ofList (stripChars_dropped ?_)
    rcases hml with rfl | rfl
    · exact Or.inl rfl
    · exact Or.inr (by simp)
  rwa [← List.forall₂_eq_eq_eq, List.forall₂_map_left_iff, List.forall₂_map_right_iff]

/-- An empty line at the end is a line feed. -/
theorem unlines_concat_empty {ls : List String} (h : ls ≠ []) :
    unlines (ls ++ [""]) = unlines ls ++ "\n" := by
  have hjoin : joinWith '\n' (ls.map String.toList ++ [[]]) = joinWith '\n' (ls.map String.toList) ++ ['\n'] :=
    joinWith_concat_nil '\n' (by simpa using h)
  rw [unlines, List.map_append, ← String.toList_inj, String.toList_append, String.toList_ofList, unlines,
    String.toList_ofList]
  exact hjoin

/-! ### Lines with line feeds -/

/-- The lines of the text that lines with line feeds are joined to. -/
def unbroken (ls : List String) : List String :=
  ls.flatMap fun l => (splitAt '\n' l.toList).map String.ofList

theorem newline_not_mem_unbroken {ls : List String} : ∀ l ∈ unbroken ls, '\n' ∉ l.toList := by
  intro l hl
  obtain ⟨m, -, hl⟩ := List.mem_flatMap.mp hl
  obtain ⟨p, hp, rfl⟩ := List.mem_map.mp hl
  rw [String.toList_ofList]
  exact sep_not_mem_splitAt '\n' _ p hp

theorem unbroken_append (ls ms : List String) : unbroken (ls ++ ms) = unbroken ls ++ unbroken ms :=
  List.flatMap_append

theorem unbroken_of_not_mem {ls : List String} (h : ∀ l ∈ ls, '\n' ∉ l.toList) : unbroken ls = ls := by
  induction ls with
  | nil => rfl
  | cons l ls ih =>
    rw [List.forall_mem_cons] at h
    rw [unbroken, List.flatMap_cons, splitAt_of_not_mem h.1, ← unbroken, ih h.2, List.map_singleton,
      String.ofList_toList, List.singleton_append]

theorem joinWith_append (sep : Char) {ps qs : List (List Char)} (hps : ps ≠ []) (hqs : qs ≠ []) :
    joinWith sep (ps ++ qs) = joinWith sep ps ++ sep :: joinWith sep qs := by
  induction ps with
  | nil => exact absurd rfl hps
  | cons p ps ih =>
    by_cases hnil : ps = []
    · rw [hnil, List.singleton_append, joinWith_cons sep p hqs]
      rfl
    · rw [List.cons_append, joinWith_cons sep p (by simp [hnil]), ih hnil, joinWith_cons sep p hnil,
        List.append_assoc, List.cons_append]

theorem unlines_unbroken (ls : List String) : unlines (unbroken ls) = unlines ls := by
  suffices hjoin : joinWith '\n' ((unbroken ls).map String.toList) = joinWith '\n' (ls.map String.toList) from
    congrArg String.ofList hjoin
  induction ls with
  | nil => rfl
  | cons l ls ih =>
    have hpieces : ((splitAt '\n' l.toList).map String.ofList).map String.toList = splitAt '\n' l.toList := by
      rw [List.map_map]
      exact List.map_id'' (fun _ => String.toList_ofList) _
    rw [unbroken, List.flatMap_cons, ← unbroken, List.map_append, hpieces]
    cases ls with
    | nil =>
      rw [unbroken, List.flatMap_nil, List.map_nil, List.append_nil]
      exact joinWith_splitAt '\n' l.toList
    | cons m ls =>
      have hne : (unbroken (m :: ls)).map String.toList ≠ [] := by
        simp [unbroken, splitAt_ne_nil]
      rw [joinWith_append '\n' (splitAt_ne_nil _ _) hne, ih, joinWith_splitAt]
      rfl

theorem lines_ne_nil (text : String) : lines text ≠ [] := by
  rw [lines, Ne, List.map_eq_nil_iff]
  exact splitAt_ne_nil '\n' _

end StoryScript.Text
