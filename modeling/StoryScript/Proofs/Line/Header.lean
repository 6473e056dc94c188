import StoryScript.Document.Rendering
import StoryScript.Proofs.Line.Readable
import StoryScript.Session.Edit

/-!
# Headers of knots

A header is two or more equals signs, a name and what may end a header (`Line.EndsHeader`). The header
that is printed for a name is read as a header of that name (`Line.form_renderKnotHeader`), and so is a
header in which the name is changed (`Line.form_replaceFirst`): in front of its name a header holds no
character of a name, so the first occurrence of the name is the name.
-/

namespace StoryScript

open Text

/-- A knot name that holds no line feed is a name. -/
theorem isName_of_checkKnotName {name : String} (h : checkKnotName name = .ok ())
    (hline : '\n' ∉ name.toList) : IsName name.toList := by
  have hknot : isKnotName name = true := by
    by_contra hne
    simp [checkKnotName, hne] at h
  have hbreak : withoutFinalBreak name.toList = name.toList := by
    rw [withoutFinalBreak, if_neg]
    exact fun hlast => hline (List.mem_of_getLast? hlast)
  have hword : ∀ c : Char, (isNameStart c || c.isDigit) = true → isWord c = true := by
    intro c hc
    simp only [isNameStart, Bool.or_eq_true, decide_eq_true_eq] at hc
    have halnum : c.isAlpha = true ∨ c.isDigit = true → c.isAlphanum = true := by
      simp [Char.isAlphanum]
    have hascii : c.isAlphanum = true → c.toNat < 128 := fun hc => by
      have := toNat_of_isAlphanum hc
      omega
    rcases hc with (hc | rfl) | hc
    · have hc := halnum (Or.inl hc)
      simp [isWord, isAlnum, hascii hc, hc]
    · decide
    · have hc := halnum (Or.inr hc)
      simp [isWord, isAlnum, hascii hc, hc]
  unfold isKnotName at hknot
  rw [hbreak] at hknot
  cases hcs : name.toList with
  | nil => simp [hcs] at hknot
  | cons c cs =>
    simp only [hcs, Bool.and_eq_true, List.all_eq_true] at hknot
    refine ⟨by simp, fun d hd => ?_⟩
    rcases List.mem_cons.mp hd with rfl | hd
    · exact hword d (by simp [hknot.1])
    · exact hword d (hknot.2 d hd)

namespace Line

/-- What stands in front of the name in a header: two or more equals signs, and blanks. -/
def BeginsHeader (cs : List Char) : Prop :=
  ∃ es bs, cs = es ++ bs ∧ 2 ≤ es.length ∧ (∀ c ∈ es, c = '=') ∧ ∀ c ∈ bs, isBlank c = true

/-- What may stand behind the name in a header: nothing, or two or more equals signs, with blanks around
them. -/
structure EndsHeader (cs : List Char) : Prop where
  head : ∀ c ∈ cs.head?, isWord c = false
  signs : ((skipBlanks cs).takeWhile (· = '=')).length ≠ 1
  behind : skipBlanks ((skipBlanks cs).dropWhile (· = '=')) = []

theorem BeginsHeader.exists_cons {cs : List Char} (h : BeginsHeader cs) : ∃ rest, cs = '=' :: rest := by
  obtain ⟨es, bs, rfl, hlength, hes, -⟩ := h
  cases es with
  | nil => simp at hlength
  | cons e es => exact ⟨es ++ bs, by rw [hes e List.mem_cons_self, List.cons_append]⟩

theorem BeginsHeader.isWord {cs : List Char} (h : BeginsHeader cs) : ∀ c ∈ cs, isWord c = false := by
  obtain ⟨es, bs, rfl, -, hes, hbs⟩ := h
  intro c hc
  rcases List.mem_append.mp hc with hc | hc
  · rw [hes c hc]
    decide
  · by_contra hword
    have hblank := isBlank_of_isWord (by simpa using hword)
    rw [hbs c hc] at hblank
    exact Bool.false_ne_true hblank.symm

theorem knotHeader?_sound {cs : List Char} {form : LineForm} (h : knotHeader? cs = some form) :
    ∃ as name bs, cs = as ++ name ++ bs ∧ BeginsHeader as ∧ IsName name ∧ EndsHeader bs ∧
      form = .knotHeader (String.ofList name) := by
  simp only [knotHeader?, Option.bind_eq_bind, Option.bind_eq_some_iff, Prod.exists] at h
  obtain ⟨u, hsigns, name, bs, hword, v, hend, w, hdone, hform⟩ := h
  obtain ⟨hcs, hname, hhead⟩ := word?_sound hword
  obtain ⟨blanks, hblanks, hblank⟩ := exists_skipBlanks (cs.dropWhile (· = '='))
  refine ⟨cs.takeWhile (· = '=') ++ blanks, name, bs, ?_, ⟨_, _, rfl, ?_, ?_, hblank⟩, hname,
    ⟨hhead, ?_, done?_eq_some_iff.mp hdone⟩, (Option.some.inj hform).symm⟩
  · rw [List.append_assoc, List.append_assoc, ← hcs, ← hblanks, List.takeWhile_append_dropWhile]
  · by_contra hless
    simp [guard, hless] at hsigns
  · intro c hc
    simpa using List.mem_takeWhile_imp hc
  · simpa [guard] using hend

theorem knotHeader?_append {as name bs : List Char} (has : BeginsHeader as) (hname : IsName name)
    (hbs : EndsHeader bs) :
    knotHeader? (as ++ name ++ bs) = some (.knotHeader (String.ofList name)) := by
  obtain ⟨es, blanks, rfl, hlength, hes, hblanks⟩ := has
  have hne : name ++ bs ≠ [] := by simp [hname.ne_nil]
  have hfirst : ∀ c ∈ (name ++ bs).head?, isWord c = true := by
    intro c hc
    rw [List.head?_append_of_ne_nil _ hname.ne_nil] at hc
    exact hname.isWord c (List.mem_of_head? hc)
  -- no further equals sign follows the ones in front
  have hsigns : ∀ c ∈ (blanks ++ (name ++ bs)).head?, decide (c = '=') = false := by
    intro c hc
    rw [decide_eq_false_iff_not]
    rintro rfl
    cases blanks with
    | nil => exact absurd (hfirst _ hc) (by decide)
    | cons b blanks =>
      obtain rfl : b = '=' := by simpa using hc
      exact absurd (hblanks _ List.mem_cons_self) (by decide)
  obtain ⟨htake, hdrop⟩ := takeWhile_dropWhile_append
    (fun c hc => by simpa using hes c hc) hsigns
  have hskip : skipBlanks (blanks ++ (name ++ bs)) = name ++ bs := by
    rw [skipBlanks_append_of_blank hblanks, skipBlanks_of_head]
    exact fun c hc => isBlank_of_isWord (hfirst c hc)
  have hend : done? (skipBlanks ((skipBlanks bs).dropWhile (· = '='))) = some () :=
    done?_eq_some_iff.mpr hbs.behind
  have hsplit : es ++ blanks ++ name ++ bs = es ++ (blanks ++ (name ++ bs)) := by simp
  rw [hsplit, knotHeader?, htake, hdrop, hskip, word?_append hname hbs.head]
  simp [guard, hlength, hbs.signs, hend]

/-- A line that is a header but for blanks around it. -/
theorem form_header {cs as name bs behind : List Char} (hcs : ∀ c ∈ cs, isBlank c = true)
    (has : BeginsHeader as) (hname : IsName name) (hbs : EndsHeader bs)
    (hlast : ∀ c ∈ bs.getLast?, isBlank c = false) (hbehind : ∀ c ∈ behind, isBlank c = true) :
    (ofText (String.ofList (cs ++ (as ++ name ++ bs) ++ behind))).form =
      .knotHeader (String.ofList name) := by
  have hknot := knotHeader?_append has hname hbs
  obtain ⟨rest, rfl⟩ := has.exists_cons
  have htrim : Trimmed ('=' :: rest ++ name ++ bs) := by
    refine ⟨fun c hc => ?_, fun c hc => ?_⟩
    · obtain rfl : '=' = c := by simpa using hc
      decide
    · rw [List.getLast?_append] at hc
      cases hnil : bs.getLast? with
      | some d =>
        rw [hnil] at hc
        exact hlast c (by rwa [hnil])
      | none =>
        rw [hnil, List.getLast?_append_of_ne_nil _ hname.ne_nil] at hc
        exact hname.trimmed.2 c hc
  have hstrip : stripChars (cs ++ ('=' :: rest ++ name ++ bs) ++ behind) = '=' :: rest ++ name ++ bs := by
    rw [stripChars_append_blank _ hbehind, stripChars_append_of_blank hcs, stripChars_of_trimmed htrim]
  rw [ofText, String.toList_ofList, hstrip]
  dsimp only
  rw [List.cons_append, List.cons_append] at hknot ⊢
  rw [formOf_equals, List.findSome?, hknot]
  rfl

/-- The name in a header is a name. -/
theorem isName_of_header {header name : String} (hline : '\n' ∉ header.toList)
    (h : (ofText header).form = .knotHeader name) : IsName name.toList := by
  have hstrip : '\n' ∉ stripChars header.toList := fun hmem => hline (mem_of_mem_stripChars hmem)
  have hknot : knotHeader? (stripChars header.toList) = some (.knotHeader name) :=
    recognised_of_formOf (trimmed_stripChars _) hstrip h (by simp) (by simp)
  obtain ⟨as, cs, bs, -, -, hname, -, hform⟩ := knotHeader?_sound hknot
  obtain rfl : name = String.ofList cs := by simpa using hform
  rwa [String.toList_ofList]

/-- The header that is printed for a name. -/
theorem form_renderKnotHeader {name : String} (hname : IsName name.toList) :
    (ofText (renderKnotHeader name)).form = .knotHeader name := by
  have hcs : renderKnotHeader name =
      String.ofList ([] ++ (['=', '=', '=', ' '] ++ name.toList ++ [' ', '=', '=', '=']) ++ []) := by
    rw [← String.toList_inj]
    simp [renderKnotHeader]
  have hbegins : BeginsHeader ['=', '=', '=', ' '] :=
    ⟨['=', '=', '='], [' '], rfl, by decide, by simp, isBlank_of_mem_space⟩
  have hends : EndsHeader [' ', '=', '=', '='] :=
    ⟨fun c hc => by obtain rfl := Option.some.inj hc; decide, by decide, by decide⟩
  have hlast : ∀ c ∈ [' ', '=', '=', '='].getLast?, isBlank c = false := fun c hc => by
    obtain rfl := Option.some.inj hc
    decide
  rw [hcs, form_header (by simp) hbegins hname hends hlast (by simp), String.ofList_toList]

/-- The first occurrence of a text behind one in which it cannot begin. -/
theorem replaceFirst_append {old new as : List Char} (hold : IsName old)
    (has : ∀ c ∈ as, isWord c = false) (bs : List Char) :
    Session.replaceFirst old new (as ++ old ++ bs) = as ++ new ++ bs := by
  have hprefix : old.isPrefixOf? (old ++ bs) = some bs := by
    have hlit := lit?_append (String.ofList old) bs
    rwa [lit?, String.toList_ofList] at hlit
  obtain ⟨c, cs, rfl⟩ := List.exists_cons_of_ne_nil hold.ne_nil
  induction as with
  | nil =>
    rw [List.cons_append] at hprefix
    rw [List.nil_append, List.cons_append, Session.replaceFirst, hprefix, List.nil_append]
  | cons a as ih =>
    rw [List.forall_mem_cons] at has
    have hne : c ≠ a := by
      rintro rfl
      rw [hold.isWord c List.mem_cons_self] at has
      exact Bool.false_ne_true has.1.symm
    have hnone : (c :: cs).isPrefixOf? (a :: (as ++ c :: cs ++ bs)) = none := by
      simp [List.isPrefixOf?, hne]
    rw [List.cons_append, List.cons_append, Session.replaceFirst, hnone, ih has.2]
    rfl

/-- A header with another name in the place of its own. -/
theorem form_replaceFirst {old new header : String} (hnew : IsName new.toList)
    (hline : '\n' ∉ header.toList) (h : (ofText header).form = .knotHeader old) :
    (ofText (String.ofList (Session.replaceFirst old.toList new.toList header.toList))).form =
      .knotHeader new := by
  obtain ⟨cs, behind, hheader, hcs, hbehind⟩ := stripChars_eq header.toList
  have hstrip : '\n' ∉ stripChars header.toList := fun hmem => hline (mem_of_mem_stripChars hmem)
  have hknot : knotHeader? (stripChars header.toList) = some (.knotHeader old) :=
    recognised_of_formOf (trimmed_stripChars _) hstrip h (by simp) (by simp)
  obtain ⟨as, name, bs, hsplit, has, hname, hbs, hold⟩ := knotHeader?_sound hknot
  obtain rfl : old = String.ofList name := by simpa using hold
  have hlast : ∀ c ∈ bs.getLast?, isBlank c = false := by
    intro c hc
    refine (trimmed_stripChars header.toList).2 c ?_
    rw [hsplit, List.getLast?_append, hc]
    rfl
  -- no letter stands in front of the name, so its first occurrence is the name itself
  have hword : ∀ c ∈ cs ++ as, isWord c = false := by
    intro c hc
    rcases List.mem_append.mp hc with hc | hc
    · by_contra hword
      have hblank := isBlank_of_isWord (by simpa using hword)
      rw [hcs c hc] at hblank
      exact Bool.false_ne_true hblank.symm
    · exact has.isWord c hc
  have hreplace : Session.replaceFirst name new.toList header.toList =
      cs ++ (as ++ new.toList ++ bs) ++ behind := by
    have happ : header.toList = cs ++ as ++ name ++ (bs ++ behind) := by
      rw [hheader, hsplit]
      simp
    rw [happ, replaceFirst_append hname hword]
    simp
  rw [String.toList_ofList, hreplace, form_header hcs has hnew hbs hlast hbehind, String.ofList_toList]

end Line

end StoryScript
