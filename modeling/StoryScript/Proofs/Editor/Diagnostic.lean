import StoryScript.Editor.Diagnostic
import StoryScript.Proofs.Editor.Arrows
import StoryScript.Proofs.Lint.Finding

/-!
# Marks on the text

What an editor marks is in the text (`Document.diagnostics_read`). The line is one of the script, since the line
of a finding is (`Document.line_of_mem_findings`). On the line an arrow is marked, which lies on it
(`arrow_bounds`), or what stands between the blanks around it (`contentColumns_marks`); on a line without
anything else one column is marked behind the last blank.
-/

namespace StoryScript

open Text

/-- Columns that can be marked on a line: at least one, all of them on the line, or one at the end of a line
of blanks. -/
def Marks (line : String) (column length : Nat) : Prop :=
  0 < length ∧ (column + length ≤ line.length ∨
    (∀ c ∈ line.toList, isBlank c = true) ∧ column = line.length ∧ length = 1)

/-- What is on a line besides the blanks around it lies on it. -/
theorem contentColumns_marks (line : String) :
    Marks line (contentColumns line).1 (contentColumns line).2 := by
  refine ⟨Nat.le_max_right _ _, ?_⟩
  cases hcontent : stripChars line.toList with
  | nil =>
    -- every character is a blank, so the leading blanks are the whole line
    obtain ⟨as, bs, hline, has, hbs⟩ := stripChars_eq line.toList
    rw [hcontent, List.append_nil] at hline
    have hblank : ∀ c ∈ line.toList, isBlank c = true := by
      rw [hline]
      exact List.forall_mem_append.mpr ⟨has, hbs⟩
    have hfront : line.toList.takeWhile isBlank = line.toList := List.takeWhile_eq_self_iff.mpr hblank
    refine Or.inr ⟨hblank, ?_⟩
    rw [contentColumns, hcontent, hfront]
    exact ⟨String.length_toList, rfl⟩
  | cons c cs =>
    have hlength : (line.toList.takeWhile isBlank).length + (skipBlanks line.toList).length = line.length := by
      rw [← List.length_append, skipBlanks, List.takeWhile_append_dropWhile, String.length_toList]
    obtain ⟨bs, hskip, -⟩ := exists_stripChars line.toList
    rw [hskip, hcontent, List.length_append, List.length_cons] at hlength
    rw [contentColumns, hcontent, List.length_cons]
    dsimp only
    omega

theorem markedColumns_marks (cause : FindingCause) (line : String) :
    Marks line (markedColumns cause line).1 (markedColumns cause line).2 := by
  unfold markedColumns
  split
  · next m hm =>
    obtain ⟨t, -, hfind⟩ := Option.bind_eq_some_iff.mp hm
    obtain ⟨hlt, hle⟩ := arrow_bounds (List.mem_of_find?_eq_some hfind)
    refine ⟨?_, Or.inl ?_⟩ <;> dsimp only <;> omega
  · exact contentColumns_marks line

/-- A finding is marked on its line, or on the first one if it has none. -/
theorem Finding.diagnostic_line {lines : List String} {f : Finding} (h : LineWithin lines.length f.line) :
    (f.diagnostic lines).line + 1 = f.line.getD 1 := by
  cases hline : f.line with
  | none => simp [Finding.diagnostic, hline]
  | some n =>
    have hn := (h n hline).1
    simp only [Finding.diagnostic, hline, if_neg (Nat.ne_of_gt hn), Option.getD_some]
    omega

theorem Finding.diagnostic_marks {lines : List String} {f : Finding} (h : LineWithin lines.length f.line)
    (hne : lines ≠ []) : ∃ line, lines[(f.diagnostic lines).line]? = some line ∧
      Marks line (f.diagnostic lines).column (f.diagnostic lines).length := by
  have hlt : (f.diagnostic lines).line < lines.length := by
    have hline := Finding.diagnostic_line h
    have hpos := List.length_pos_iff.mpr hne
    cases hf : f.line with
    | none =>
      rw [hf, Option.getD_none] at hline
      omega
    | some n =>
      have hle := (h n hf).2
      rw [hf, Option.getD_some] at hline
      omega
  have hmarks : Marks (lines[(f.diagnostic lines).line]?.getD "") (f.diagnostic lines).column
      (f.diagnostic lines).length := markedColumns_marks f.cause _
  rw [List.getElem?_eq_getElem hlt, Option.getD_some] at hmarks
  exact ⟨_, List.getElem?_eq_getElem hlt, hmarks⟩

namespace Document

theorem parseFindings_subset (d : Document) (images videos : Option (List String)) (config : MediaConfig) :
    d.parseFindings ⊆ d.findings images videos config := by
  intro f hf
  simp only [findings, List.mem_append]
  simp only [hf, true_or]

theorem brokenDiverts_subset (d : Document) (images videos : Option (List String)) (config : MediaConfig) :
    d.brokenDiverts ⊆ d.findings images videos config := by
  intro f hf
  simp only [findings, List.mem_append]
  simp only [hf, true_or, or_true]

/-- Every finding is marked, in order and as it is called, on its line or else on the first one. Every issue and
every finding that has a line has the number of a line of the script, and what is marked lies on the line. -/
theorem diagnostics_read (supply : Nat) (text : String) (images videos : Option (List String))
    (config : Config) :
    let d := (read supply text).1
    List.Forall₂ (fun f g => g.rule = f.rule ∧ g.severity = f.severity ∧ g.message = f.message ∧
        g.line + 1 = f.line.getD 1 ∧ ∃ line, d.lines[g.line]? = some line ∧ Marks line g.column g.length)
      (d.findingsOf images videos config.media config.lint.disable none)
      (d.diagnostics images videos config) ∧
    (∀ i ∈ d.issues, 0 < i.line ∧ i.line ≤ d.lines.length) ∧
    ∀ f ∈ d.findings images videos config.media, ∀ n ∈ f.line, 0 < n ∧ n ≤ d.lines.length := by
  intro d
  refine ⟨?_, fun i hi => line_of_mem_issues hi, fun f hf => line_of_mem_findings hf⟩
  rw [diagnostics, List.forall₂_map_right_iff, List.forall₂_same]
  intro f hf
  have hline : LineWithin d.lines.length f.line := line_of_mem_findings (List.mem_of_mem_filter hf)
  exact ⟨rfl, rfl, rfl, Finding.diagnostic_line hline, Finding.diagnostic_marks hline (lines_ne_nil text)⟩

/-- The conditional lacks its end, which is reported on the last line, where there are only blanks; and no knot
has the name of the target. -/
theorem diagnostics_read_cellar :
    let d := (read 0 "=== cellar ===\n\x7b\n- dark:\n  -> stairs\n  ").1
    (∃ i ∈ d.issues, i.line = 5 ∧ i.line ≤ d.lines.length) ∧
      (∃ f ∈ d.findings none none {}, f.line = some 5 ∧ 5 ≤ d.lines.length ∧
        f.diagnostic d.lines = ⟨4, 2, 1, .warning, "unclosed-conditional",
          "Conditional block missing closing '\x7d'"⟩) ∧
      ∃ f ∈ d.findings none none {}, f.line = some 4 ∧ 4 ≤ d.lines.length ∧
        f.diagnostic d.lines = ⟨3, 2, 9, .warning, "broken-divert",
          "Divert to 'stairs' - target not found"⟩ := by
  intro d
  obtain ⟨-, hissues, hfindings⟩ := diagnostics_read 0
    "=== cellar ===\n\x7b\n- dark:\n  -> stairs\n  " none none {}
  have hissue : ∃ i ∈ d.issues, i.line = 5 := by decide +kernel
  have hparse : ∃ f ∈ d.parseFindings, f.line = some 5 ∧ f.diagnostic d.lines =
      ⟨4, 2, 1, .warning, "unclosed-conditional", "Conditional block missing closing '\x7d'"⟩ := by
    decide +kernel
  have hbroken : ∃ f ∈ d.brokenDiverts, f.line = some 4 ∧ f.diagnostic d.lines =
      ⟨3, 2, 9, .warning, "broken-divert", "Divert to 'stairs' - target not found"⟩ := by
    decide +kernel
  obtain ⟨i, hi, hline⟩ := hissue
  obtain ⟨f, hf, hfline, hfmark⟩ := hparse
  obtain ⟨g, hg, hgline, hgmark⟩ := hbroken
  have hf := parseFindings_subset d none none {} hf
  have hg := brokenDiverts_subset d none none {} hg
  exact ⟨⟨i, hi, hline, (hissues i hi).2⟩, ⟨f, hf, hfline, (hfindings f hf 5 hfline).2, hfmark⟩,
    g, hg, hgline, (hfindings g hg 4 hgline).2, hgmark⟩

end Document

end StoryScript
