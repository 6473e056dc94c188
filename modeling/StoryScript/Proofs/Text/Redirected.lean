import StoryScript.Proofs.Text.Scan

/-!
# Texts that differ in where arrows lead

`Text.Redirected old new cs ds` says that `ds` is `cs` with the name `new` in the place of `old` behind
some of its arrows. Everything else is the same, so whatever a reader of lines does that looks at no name
behind an arrow it does to both: taking blanks off (`Redirected.stripChars`), dropping a run of characters
(`Redirected.dropWhile`) and searching (`Redirected.rel_shortest`, `Redirected.rel_afterBlanks`).

A search passes over an arrow and its name as a whole if what is searched for begins, behind blanks, with a
character that stands in neither.
-/

namespace StoryScript.Text

theorem IsName.not_mem {w : List Char} (hw : IsName w) {c : Char} (hc : Text.isWord c = false) :
    c ∉ w := by
  intro hmem
  rw [hw.isWord c hmem] at hc
  exact Bool.false_ne_true hc.symm

/-- A text with another name behind some of the arrows that lead to a name. -/
inductive Redirected (old new : List Char) : List Char → List Char → Prop
  | nil : Redirected old new [] []
  | cons (c : Char) {cs ds : List Char} (h : Redirected old new cs ds) :
      Redirected old new (c :: cs) (c :: ds)
  | arrow {bs cs ds : List Char} (hbs : ∀ c ∈ bs, isBlank c = true) (h : Redirected old new cs ds) :
      Redirected old new ('-' :: '>' :: (bs ++ old ++ cs)) ('-' :: '>' :: (bs ++ new ++ ds))

namespace Redirected

variable {old new cs ds : List Char}

theorem symm (h : Redirected old new cs ds) : Redirected new old ds cs := by
  induction h with
  | nil => exact .nil
  | cons c _ ih => exact .cons c ih
  | arrow hbs _ ih => exact .arrow hbs ih

theorem head? (h : Redirected old new cs ds) : cs.head? = ds.head? := by
  cases h <;> rfl

theorem eq_nil_iff (h : Redirected old new cs ds) : cs = [] ↔ ds = [] := by
  cases h <;> simp

/-- Without a dash there is no arrow. -/
theorem eq_of_not_mem (h : Redirected old new cs ds) (hdash : '-' ∉ cs) : ds = cs := by
  induction h with
  | nil => rfl
  | cons c _ ih => rw [ih fun hmem => hdash (List.mem_cons_of_mem _ hmem)]
  | arrow => simp at hdash

/-- What stands in front of the first dash is the same. -/
theorem exists_append {p : List Char} (h : Redirected old new (p ++ cs) ds) (hdash : '-' ∉ p) :
    ∃ es, ds = p ++ es ∧ Redirected old new cs es := by
  induction p generalizing ds with
  | nil => exact ⟨ds, rfl, h⟩
  | cons c p ih =>
    rw [List.mem_cons, not_or] at hdash
    rw [List.cons_append] at h
    generalize hcs : c :: (p ++ cs) = xs at h
    cases h with
    | nil => simp at hcs
    | cons d h =>
      rw [List.cons.injEq] at hcs
      obtain ⟨rfl, rfl⟩ := hcs
      obtain ⟨es, rfl, hes⟩ := ih h hdash.2
      exact ⟨es, rfl, hes⟩
    | arrow hbs h =>
      rw [List.cons.injEq] at hcs
      exact absurd hcs.1.symm hdash.1

/-- A run of characters none of which is a dash is the same. -/
theorem takeWhile_dropWhile {p : Char → Bool} (hp : p '-' = false) (h : Redirected old new cs ds) :
    cs.takeWhile p = ds.takeWhile p ∧ Redirected old new (cs.dropWhile p) (ds.dropWhile p) := by
  induction h with
  | nil => exact ⟨rfl, .nil⟩
  | @cons c cs ds h ih =>
    cases hc : p c with
    | true =>
      simp only [List.takeWhile_cons, List.dropWhile_cons, hc, if_true, ih.1, true_and]
      exact ih.2
    | false =>
      simp only [List.takeWhile_cons, List.dropWhile_cons, hc, Bool.false_eq_true, if_false, true_and]
      exact .cons c h
  | arrow hbs h =>
    simp only [List.takeWhile_cons, List.dropWhile_cons, hp, Bool.false_eq_true, if_false, true_and]
    exact .arrow hbs h

theorem skipBlanks (h : Redirected old new cs ds) :
    Redirected old new (skipBlanks cs) (skipBlanks ds) :=
  (h.takeWhile_dropWhile (by decide)).2

/-! ### Characters of an arrow -/

/-- No character outside names changes. -/
theorem mem_of_mem (hold : IsName old) {c : Char} (hc : isWord c = false)
    (h : Redirected old new cs ds) (hmem : c ∈ cs) : c ∈ ds := by
  induction h with
  | nil => exact hmem
  | cons d _ ih =>
    rcases List.mem_cons.mp hmem with rfl | hmem
    · exact List.mem_cons_self
    · exact List.mem_cons_of_mem _ (ih hmem)
  | @arrow bs cs ds _ _ ih =>
    have hname : c ∉ old := hold.not_mem hc
    simp only [List.mem_cons, List.mem_append] at hmem ⊢
    tauto

theorem mem_iff (hold : IsName old) (hnew : IsName new) {c : Char} (hc : isWord c = false)
    (h : Redirected old new cs ds) : c ∈ cs ↔ c ∈ ds :=
  ⟨h.mem_of_mem hold hc, h.symm.mem_of_mem hnew hc⟩

/-- An arrow with its blanks and a name ends in no blank. -/
theorem getLast?_arrow {name bs : List Char} (hname : IsName name) (as : List Char) :
    ∀ c ∈ (as ++ (bs ++ name)).getLast?, isBlank c = false := by
  intro c hc
  rw [← List.append_assoc, List.getLast?_append_of_ne_nil _ hname.ne_nil] at hc
  exact hname.trimmed.2 c hc

/-! ### Taking blanks off -/

theorem dropTrailingBlanks_cons (c : Char) (cs : List Char) :
    dropTrailingBlanks (c :: cs) =
      if dropTrailingBlanks cs = [] ∧ isBlank c = true then [] else c :: dropTrailingBlanks cs := by
  simp only [dropTrailingBlanks, List.reverse_cons, List.dropWhile_append, List.isEmpty_iff,
    List.reverse_eq_nil_iff]
  by_cases hnil : cs.reverse.dropWhile isBlank = []
  · cases hc : isBlank c with
    | true => simp [hnil, hc]
    | false => simp [hnil, hc]
  · simp [hnil]

/-- Blanks behind a text that does not end in one are all that is taken off. -/
theorem dropTrailingBlanks_append {as : List Char} (has : ∀ c ∈ as.getLast?, isBlank c = false)
    (hne : as ≠ []) (cs : List Char) :
    dropTrailingBlanks (as ++ cs) = as ++ dropTrailingBlanks cs := by
  induction as with
  | nil => exact absurd rfl hne
  | cons a as ih =>
    rw [List.cons_append, dropTrailingBlanks_cons]
    by_cases hnil : as = []
    · subst hnil
      have ha : isBlank a = false := has a rfl
      rw [List.nil_append, if_neg (by simp [ha]), List.singleton_append]
    · have hlast : ∀ c ∈ as.getLast?, isBlank c = false := by
        intro c hc
        refine has c ?_
        rwa [List.getLast?_cons_of_ne_nil hnil]
      rw [ih hlast hnil, if_neg (by simp [hnil]), List.cons_append]

theorem dropTrailingBlanks (hold : IsName old) (hnew : IsName new) (h : Redirected old new cs ds) :
    Redirected old new (dropTrailingBlanks cs) (dropTrailingBlanks ds) := by
  induction h with
  | nil => exact .nil
  | @cons c cs ds _ ih =>
    rw [dropTrailingBlanks_cons, dropTrailingBlanks_cons]
    by_cases hnil : Text.dropTrailingBlanks cs = [] ∧ isBlank c = true
    · rw [if_pos hnil, if_pos ⟨ih.eq_nil_iff.mp hnil.1, hnil.2⟩]
      exact .nil
    · rw [if_neg hnil, if_neg fun h => hnil ⟨ih.eq_nil_iff.mpr h.1, h.2⟩]
      exact .cons c ih
  | @arrow bs cs ds hbs _ ih =>
    have hsplit : ∀ name es : List Char, '-' :: '>' :: (bs ++ name ++ es) =
        ['-', '>'] ++ (bs ++ name) ++ es := fun _ _ => rfl
    rw [hsplit, hsplit, dropTrailingBlanks_append (getLast?_arrow hold _) (by simp),
      dropTrailingBlanks_append (getLast?_arrow hnew _) (by simp)]
    exact .arrow hbs ih

/-- Taking blanks off both ends changes no arrow. -/
theorem stripChars (hold : IsName old) (hnew : IsName new) (h : Redirected old new cs ds) :
    Redirected old new (stripChars cs) (stripChars ds) :=
  h.skipBlanks.dropTrailingBlanks hold hnew

/-! ### Searches -/

theorem occursIn_append {as : List Char} {a b : Char} (h : a ∉ as) (cs : List Char) :
    occursIn [a, b] (as ++ cs) = occursIn [a, b] cs := by
  induction as with
  | nil => rfl
  | cons c as ih =>
    rw [List.mem_cons, not_or] at h
    rw [List.cons_append, occursIn, ih h.2]
    simp [List.isPrefixOf, h.1]

/-- A character that stands in no arrow to a name. -/
structure Apart (name : List Char) (x : Char) : Prop where
  dash : x ≠ '-'
  tip : x ≠ '>'
  blank : isBlank x = false
  name : x ∉ name

theorem apart_of_not_isWord {name : List Char} (hname : IsName name) {x : Char} (hdash : x ≠ '-')
    (htip : x ≠ '>') (hblank : isBlank x = false) (hword : isWord x = false) : Apart name x :=
  ⟨hdash, htip, hblank, hname.not_mem hword⟩

/-- A star, the first character of what closes a block comment. -/
theorem apart_star {name : List Char} (hname : IsName name) : Apart name '*' :=
  apart_of_not_isWord hname (by decide) (by decide) (by decide) (by decide)

theorem Apart.not_mem {name bs : List Char} {x : Char} (hx : Apart name x)
    (hbs : ∀ c ∈ bs, isBlank c = true) : x ∉ '-' :: '>' :: (bs ++ name) := by
  have hblank : x ∉ bs := fun hmem => by
    have h := hbs x hmem
    rw [hx.blank] at h
    exact Bool.false_ne_true h
  simp [hx.dash, hx.tip, hblank, hx.name]

/-- Two characters occur next to each other in both texts or in neither, if the first stands in no
arrow. -/
theorem occursIn {x y : Char} (hold : Apart old x) (hnew : Apart new x)
    (h : Redirected old new cs ds) : occursIn [x, y] cs = occursIn [x, y] ds := by
  induction h with
  | nil => rfl
  | @cons c cs ds h ih =>
    have hhead : List.isPrefixOf [x, y] (c :: cs) = List.isPrefixOf [x, y] (c :: ds) := by
      have hhead := h.head?
      cases cs <;> cases ds <;> simp_all [List.isPrefixOf]
    rw [Text.occursIn, Text.occursIn, ih, hhead]
  | @arrow bs cs ds hbs _ ih =>
    have hpass : ∀ {name : List Char}, Apart name x → ∀ es, Text.occursIn [x, y]
        ('-' :: '>' :: (bs ++ name ++ es)) = Text.occursIn [x, y] es := fun hx es =>
      occursIn_append (hx.not_mem hbs) es
    rw [hpass hold, hpass hnew, ih]

variable {α β : Type} {k : List Char → Option α} {R : α → α → Prop} {x : Char}

/-- A search passes over a text in which what is searched for cannot begin. -/
theorem shortest_append_of_none {as : List Char} (hline : '\n' ∉ as) (cs : List Char)
    (hno : ∀ q s, as = q ++ s → s ≠ [] → k (s ++ cs) = none) :
    shortest k (as ++ cs) = (shortest k cs).map fun (p, a) => (as ++ p, a) := by
  induction as with
  | nil => cases h : shortest k cs <;> simp [h]
  | cons c as ih =>
    have hc : k (c :: (as ++ cs)) = none := hno [] (c :: as) rfl (by simp)
    rw [List.mem_cons, not_or] at hline
    rw [List.cons_append, shortest, hc, if_neg (Ne.symm hline.1),
      ih hline.2 fun q s hqs hs => hno (c :: q) s (by rw [hqs, List.cons_append]) hs, Option.map_map]
    rfl

/-- A search passes over an arrow and its name, or over the rest of them. -/
theorem shortest_arrow (as : List Char)
    (hk : ∀ cs a, k cs = some a → (Text.skipBlanks cs).head? = some x)
    {name bs : List Char} (hname : IsName name) (hx : Apart name x)
    (hbs : ∀ c ∈ bs, isBlank c = true) (hline : '\n' ∉ bs) (has : as ⊆ ['-', '>']) (cs : List Char) :
    shortest k (as ++ (bs ++ name ++ cs)) =
      (shortest k cs).map fun (p, a) => (as ++ (bs ++ name) ++ p, a) := by
  have hnl : '\n' ∉ as ++ (bs ++ name) := by
    simp only [List.mem_append, not_or]
    exact ⟨fun hmem => absurd (has hmem) (by decide), hline, hname.not_mem (by decide)⟩
  have hxas : x ∉ as ++ (bs ++ name) := by
    intro hmem
    refine hx.not_mem hbs ?_
    rw [List.mem_append] at hmem
    rcases hmem with hmem | hmem
    · exact List.mem_append_left (bs ++ name) (has hmem)
    · exact List.mem_cons_of_mem _ (List.mem_cons_of_mem _ hmem)
  rw [← List.append_assoc]
  refine shortest_append_of_none hnl cs fun q s hqs hs => ?_
  by_contra hsome
  obtain ⟨a, ha⟩ := Option.ne_none_iff_exists'.mp hsome
  have hlast : ∀ c ∈ s.getLast?, isBlank c = false := by
    intro c hc
    refine @getLast?_arrow name bs hname as c ?_
    rwa [hqs, List.getLast?_append_of_ne_nil _ hs]
  obtain ⟨hskip, hne⟩ := skipBlanks_append_of_last (r := cs) hs hlast
  have hhead := hk _ _ ha
  rw [hskip, List.head?_append_of_ne_nil _ hne] at hhead
  have hmem : x ∈ Text.skipBlanks s := List.mem_of_head? hhead
  refine hxas ?_
  rw [hqs]
  exact List.mem_append_right _ ((List.dropWhile_sublist _).subset hmem)

theorem rel_map {β : Type} {S : β → β → Prop} {f g : α → β} {a b : Option α}
    (h : Option.Rel R a b) (hf : ∀ x y, R x y → S (f x) (g y)) :
    Option.Rel S (a.map f) (b.map g) := by
  cases h with
  | some h => exact .some (hf _ _ h)
  | none => exact .none

theorem isSome_of_rel {β : Type} {S : α → β → Prop} {a : Option α} {b : Option β}
    (h : Option.Rel S a b) : a.isSome = b.isSome := by
  cases h <;> rfl

theorem rel_orElse {a b a' b' : Option α} (h : Option.Rel R a b) (h' : Option.Rel R a' b') :
    Option.Rel R (a.orElse fun _ => a') (b.orElse fun _ => b') := by
  cases h with
  | some h => exact .some h
  | none => exact h'

theorem shortest_cons {c : Char} (hc : c ≠ '\n') (cs : List Char) :
    shortest k (c :: cs) = ((k (c :: cs)).map ([], ·)).orElse fun _ =>
      (shortest k cs).map fun (p, a) => (c :: p, a) := by
  rw [shortest, if_neg hc]
  cases k (c :: cs) <;> rfl

theorem rel_bind {β : Type} {S : β → β → Prop} {f g : α → Option β} {a b : Option α}
    (h : Option.Rel R a b) (hf : ∀ x y, R x y → Option.Rel S (f x) (g y)) :
    Option.Rel S (a.bind f) (b.bind g) := by
  cases h with
  | some h => exact hf _ _ h
  | none => exact .none

/-- A literal text without a dash stands in front of both texts or of neither. -/
theorem rel_lit? {p : String} (hp : '-' ∉ p.toList) (h : Redirected old new cs ds) :
    Option.Rel (fun rest rest' => Redirected old new rest rest' ∧ rest ⊆ cs ∧ rest' ⊆ ds)
      (lit? p cs) (lit? p ds) := by
  cases hcs : Text.lit? p cs with
  | some rest =>
    rw [lit?_eq_some_iff.mp hcs] at h ⊢
    obtain ⟨es, hds, hrest⟩ := h.exists_append hp
    rw [hds, lit?_append]
    exact .some ⟨hrest, List.subset_append_right _ _, List.subset_append_right _ _⟩
  | none =>
    cases hds : Text.lit? p ds with
    | some rest =>
      rw [lit?_eq_some_iff.mp hds] at h
      obtain ⟨es, hes, -⟩ := h.symm.exists_append hp
      rw [hes, lit?_append] at hcs
      simp at hcs
    | none => exact .none

/-- A search for something that begins, behind blanks, with a character that stands in no arrow, and that
is found in a text whenever it is found in the text with other names behind its arrows. -/
structure Follows (k : List Char → Option α) (R : α → α → Prop) (old new : List Char) (x : Char) :
    Prop where
  head : ∀ cs a, k cs = some a → (Text.skipBlanks cs).head? = some x
  rel : ∀ {cs ds}, Redirected old new cs ds → '\n' ∉ cs → Option.Rel R (k cs) (k ds)
  old : Apart old x
  new : Apart new x

variable (hk : Follows k R old new x)
include hk

/-- What is found in both texts agrees. -/
theorem rel_shortest (hold : IsName old) (hnew : IsName new) (h : Redirected old new cs ds)
    (hline : '\n' ∉ cs) :
    Option.Rel (fun a b => R a.2 b.2) (shortest k cs) (shortest k ds) := by
  induction h with
  | nil => exact rel_map (hk.rel .nil hline) fun _ _ h => h
  | @cons c cs ds h ih =>
    have hhere := hk.rel (.cons c h) hline
    rw [List.mem_cons, not_or] at hline
    rw [shortest_cons (Ne.symm hline.1), shortest_cons (Ne.symm hline.1)]
    exact rel_orElse (rel_map hhere fun _ _ h => h) (rel_map (ih hline.2) fun _ _ h => h)
  | @arrow bs cs ds hbs h ih =>
    simp only [List.mem_cons, List.mem_append, not_or] at hline
    obtain ⟨-, -, ⟨hbsLine, -⟩, hcsLine⟩ := hline
    have hcs : shortest k ('-' :: '>' :: (bs ++ old ++ cs)) = _ :=
      shortest_arrow ['-', '>'] hk.head hold hk.old hbs hbsLine (by decide) cs
    have hds : shortest k ('-' :: '>' :: (bs ++ new ++ ds)) = _ :=
      shortest_arrow ['-', '>'] hk.head hnew hk.new hbs hbsLine (by decide) ds
    rw [hcs, hds]
    exact rel_map (ih hcsLine) fun _ _ h => h

theorem rel_shortestSome (hold : IsName old) (hnew : IsName new) (h : Redirected old new cs ds)
    (hline : '\n' ∉ cs) :
    Option.Rel (fun a b => R a.2 b.2) (shortestSome k cs) (shortestSome k ds) := by
  cases h with
  | nil => exact .none
  | @cons c cs ds h =>
    rw [List.mem_cons, not_or] at hline
    rw [shortestSome, shortestSome, if_neg (Ne.symm hline.1), if_neg (Ne.symm hline.1)]
    exact rel_map (rel_shortest hk hold hnew h hline.2) fun _ _ h => h
  | @arrow bs cs ds hbs h =>
    simp only [List.mem_cons, List.mem_append, not_or] at hline
    obtain ⟨-, -, ⟨hbsLine, -⟩, hcsLine⟩ := hline
    have hcs : shortest k ('>' :: (bs ++ old ++ cs)) = _ :=
      shortest_arrow ['>'] hk.head hold hk.old hbs hbsLine (by decide) cs
    have hds : shortest k ('>' :: (bs ++ new ++ ds)) = _ :=
      shortest_arrow ['>'] hk.head hnew hk.new hbs hbsLine (by decide) ds
    rw [shortestSome, shortestSome, if_neg (by decide), if_neg (by decide), hcs, hds, Option.map_map,
      Option.map_map]
    exact rel_map (rel_shortest hk hold hnew h hcsLine) fun _ _ h => h

omit hk in
/-- What is found behind blanks agrees, if it does behind every blank. -/
theorem rel_afterBlanks {β : Type} {f : List Char → Option β} {S : β → β → Prop}
    (hrel : ∀ {cs ds}, Redirected old new cs ds → '\n' ∉ cs → Option.Rel S (f cs) (f ds))
    (h : Redirected old new cs ds) (hline : '\n' ∉ cs) :
    Option.Rel S (afterBlanks f cs) (afterBlanks f ds) := by
  have hhere := hrel h hline
  induction h with
  | nil => exact hhere
  | @cons c cs ds h ih =>
    rw [List.mem_cons, not_or] at hline
    rw [afterBlanks, afterBlanks]
    split
    · exact rel_orElse (ih hline.2 (hrel h hline.2)) hhere
    · exact hhere
  | arrow => exact hhere

end Redirected

end StoryScript.Text
