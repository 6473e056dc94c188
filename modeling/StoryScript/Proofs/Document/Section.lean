import StoryScript.Proofs.Document.Runs
import StoryScript.Proofs.Text.Lines

/-!
# The lines of one knot

A script that holds a knot of some name falls into the lines in front of the header, the header, the
body and the lines behind (`Line.AroundKnot`). Its knots then are those in front, the one in question
and those behind, and other lines in the place of the body change nothing in the others, provided that
they neither end the knot nor leave a comment open (`ScriptState.alike_knots_around`).

That rests on a cut where a knot ends anyway: what is read behind it depends on the lines in front through
the open region and the names that are taken, and on nothing else (`ScriptState.alike_knots_behind`).
-/

namespace StoryScript

open Text

/-! ### Cutting lines at a header -/

namespace Line

/-- The lines in front of a knot, its header, its body and the lines behind. -/
structure AroundKnot (name : String) (front : List String) (header : String)
    (body behind : List String) : Prop where
  clear : opensBlock false front = false
  opens : (ofText header).form = .knotHeader name
  inside : ∀ l ∈ readFrom false body, l.form.endsKnot = false
  closed : behind ≠ [] → opensBlock false body = false
  ends : ∀ p ∈ behind.head?, (ofText p).form.endsKnot = true

/-- Lines with a header of some name can be cut at the first. -/
theorem exists_header {name : String} {inBlock : Bool} {ls : List String}
    (h : ∃ l ∈ readFrom inBlock ls, l.form = .knotHeader name) :
    ∃ front header rest, ls = front ++ header :: rest ∧ opensBlock inBlock front = false ∧
      (ofText header).form = .knotHeader name ∧
      ∀ l ∈ readFrom inBlock front, l.form ≠ .knotHeader name := by
  induction ls generalizing inBlock with
  | nil =>
    obtain ⟨l, hl, -⟩ := h
    simp [readFrom] at hl
  | cons s ls ih =>
    obtain ⟨l, hl, hform⟩ := h
    by_cases hs : (lineIn inBlock s).form = .knotHeader name
    · cases inBlock with
      | true => exact LineForm.noConfusion hs
      | false => exact ⟨[], s, ls, rfl, rfl, hs, by simp [readFrom]⟩
    · rw [readFrom_cons] at hl
      rcases List.mem_cons.mp hl with rfl | hl
      · exact absurd hform hs
      · obtain ⟨front, header, rest, rfl, hopen, hheader, hfront⟩ := ih ⟨l, hl, hform⟩
        refine ⟨s :: front, header, rest, rfl, by rwa [opensBlock_cons], hheader, ?_⟩
        rw [readFrom_cons, List.forall_mem_cons]
        exact ⟨hs, hfront⟩

/-- Lines behind a header can be cut where the knot ends. -/
theorem exists_section (inBlock : Bool) (ls : List String) :
    ∃ body behind, ls = body ++ behind ∧ section_ (readFrom inBlock ls) = readFrom inBlock body ∧
      (∀ l ∈ readFrom inBlock body, l.form.endsKnot = false) ∧
      (behind ≠ [] → opensBlock inBlock body = false) ∧
      ∀ p ∈ behind.head?, (ofText p).form.endsKnot = true := by
  induction ls generalizing inBlock with
  | nil => exact ⟨[], [], rfl, rfl, by simp [readFrom], by simp, by simp⟩
  | cons s ls ih =>
    by_cases hs : (lineIn inBlock s).form.endsKnot = true
    · cases inBlock with
      | true => exact absurd hs Bool.false_ne_true
      | false =>
        refine ⟨[], s :: ls, rfl, ?_, by simp [readFrom], fun _ => rfl, fun p hp => ?_⟩
        · rw [readFrom_cons, section_cons_of_endsKnot hs]
          rfl
        · obtain rfl := Option.some.inj hp
          exact hs
    · rw [Bool.not_eq_true] at hs
      obtain ⟨body, behind, rfl, hsection, hbody, hopen, hbehind⟩ := ih (opensBehind inBlock s)
      refine ⟨s :: body, behind, rfl, ?_, ?_, by rwa [opensBlock_cons], hbehind⟩
      · rw [readFrom_cons, readFrom_cons, section_cons hs, hsection]
      · rw [readFrom_cons, List.forall_mem_cons]
        exact ⟨hs, hbody⟩

namespace AroundKnot

variable {name header : String} {front body behind : List String}

/-- The body opens no comment if anything follows. -/
theorem readFrom_body (h : AroundKnot name front header body behind) :
    readFrom false (body ++ behind) = readFrom false body ++ readFrom false behind := by
  rw [readFrom_append]
  by_cases hnil : behind = []
  · rw [hnil]
    simp [readFrom]
  · rw [h.closed hnil]

/-- The header opens no comment, and nor does the body if anything follows. -/
theorem readFrom_eq (h : AroundKnot name front header body behind) :
    ofTexts (front ++ header :: (body ++ behind)) =
      ofTexts front ++ ofText header :: (ofTexts body ++ ofTexts behind) := by
  have hheader : decide ((ofText header).form = .blockComment true) = false := by
    rw [h.opens]
    simp
  rw [ofTexts, readFrom_append, h.clear, readFrom_false_cons, hheader, h.readFrom_body]
  rfl

theorem section_eq (h : AroundKnot name front header body behind) :
    section_ (readFrom false (body ++ behind)) = readFrom false body := by
  have hbehind : section_ (readFrom false behind) = [] := by
    cases hbehind : behind with
    | nil => rfl
    | cons p ps =>
      rw [readFrom_false_cons]
      exact section_cons_of_endsKnot (h.ends p (by rw [hbehind]; rfl))
  rw [h.readFrom_body, section_, List.takeWhile_append_of_pos (by simpa using h.inside), ← section_, hbehind,
    List.append_nil]

end AroundKnot

end Line

/-! ### The knots of lines -/

/-- A knot that stands on the lines from `n` on. -/
structure Knot.StandsAt (k : Knot) (n : Nat) (name header : String) (body : List String) :
    Prop where
  name : k.name = name
  lineStart : k.lineStart = n
  lineEnd : k.lineEnd = n + body.length
  header : k.header = header
  position : k.position = (leadingPosition? (Line.ofTexts body)).map Prod.fst
  items : Item.unlabelledIn k.items = Item.unlabelledIn (Body.read 0 body).1.items

/-- A knot whose tree and position were read from some of the lines. -/
def Knot.FromLines (ls : List String) (k : Knot) : Prop :=
  ∃ supply body, (∀ l ∈ body, l ∈ ls) ∧ k.items = (Body.read supply body).1.items ∧
    k.position = (Body.read supply body).1.position

namespace ScriptState

/-- The state when the last of some lines has been read. -/
def ofLines (supply : Nat) (ls : List String) : ScriptState :=
  (({ supply } : ScriptState).readFrom 1 (ls.zip (Line.ofTexts ls))).finish ls.length

theorem similar_start (N : String → Prop) (supply supply' : Nat) :
    Similar N [] [] { supply } { supply := supply' } :=
  ⟨⟨[], [], rfl, rfl, .nil⟩, fun _ _ => Iff.rfl, .none, by simp, rfl⟩

theorem forall₂_zip {ls ms : List String} (h : ls.map strip = ms.map strip) (xs : List Line) :
    List.Forall₂ (fun x y => strip x.1 = strip y.1 ∧ x.2 = y.2) (ls.zip xs) (ms.zip xs) := by
  replace h := Line.forall₂_of_map_strip h
  induction h generalizing xs with
  | nil => exact .nil
  | cons hl _ ih =>
    cases xs with
    | nil => exact .nil
    | cons x xs => exact .cons ⟨hl, rfl⟩ (ih xs)

/-- Lines that agree up to blanks around them hold the same knots. -/
theorem alike_ofLines (supply supply' : Nat) {ls ms : List String}
    (h : ls.map strip = ms.map strip) :
    List.Forall₂ Knot.Alike (ofLines supply ls).knots (ofLines supply' ms).knots := by
  have hlines : Line.ofTexts ls = Line.ofTexts ms := Line.readFrom_congr h false
  obtain ⟨ks, ls', hks, hls, halike⟩ := (((similar_start (fun _ => True) supply supply').readFrom 1 1
    (forall₂_zip h (Line.ofTexts ms)) fun _ _ _ _ => trivial).finish ls.length ms.length).knots
  rw [ofLines, ofLines, hlines, hks, hls, List.append_nil, List.append_nil]
  exact halike

/-! ### Lines in front and behind -/

/-- The state behind the lines in front of a knot. -/
def ahead (supply : Nat) (front : List String) : ScriptState :=
  (({ supply } : ScriptState).readFrom 1 (front.zip (Line.ofTexts front))).closeKnot front.length

theorem knots_ofLines (supply : Nat) (ls : List String) :
    (ofLines supply ls).knots = (ahead supply ls).knots := by
  rw [ofLines, finish, (sameKnots_closeUnclosedRegion _ _ _).1, ahead]

theorem knot_ahead (supply : Nat) (front : List String) : (ahead supply front).knot = none :=
  knot_closeKnot _ _

theorem similar_ahead (supply supply' : Nat) (front : List String) :
    (ahead supply front).Similar (fun _ => True) [] [] (ahead supply' front) :=
  ((similar_start _ supply supply').readFrom 1 1 (forall₂_zip rfl _) fun _ _ _ _ => trivial).closeKnot
    _ _

theorem alike_knots_ahead (supply supply' : Nat) (front : List String) :
    List.Forall₂ Knot.Alike (ahead supply front).knots (ahead supply' front).knots := by
  obtain ⟨ks, ls, hks, hls, halike⟩ := (similar_ahead supply supply' front).knots
  rw [hks, hls, List.append_nil, List.append_nil]
  exact halike

theorem length_zip_ofTexts (ls : List String) : (ls.zip (Line.ofTexts ls)).length = ls.length := by
  rw [List.length_zip, Line.length_ofTexts, Nat.min_self]

theorem zip_ofTexts_append {front : List String} (hclear : Line.opensBlock false front = false)
    (behind : List String) : (front ++ behind).zip (Line.ofTexts (front ++ behind)) =
      front.zip (Line.ofTexts front) ++ behind.zip (Line.ofTexts behind) := by
  have hlines : Line.ofTexts (front ++ behind) = Line.ofTexts front ++ Line.ofTexts behind := by
    rw [Line.ofTexts, Line.readFrom_append, hclear]
    rfl
  rw [hlines, List.zip_append (Line.length_ofTexts front).symm]

/-- A line that ends a knot, at the head of lines that are read. -/
theorem head?_zip_ofTexts {behind : List String}
    (hends : ∀ p ∈ behind.head?, (Line.ofText p).form.endsKnot = true) :
    ∀ x ∈ (behind.zip (Line.ofTexts behind)).head?, x.2.form.endsKnot = true := by
  cases behind with
  | nil => simp
  | cons p ps =>
    rw [Line.ofTexts, Line.readFrom_false_cons, List.zip_cons_cons]
    intro x hx
    rw [List.head?_cons, Option.mem_some_iff] at hx
    rw [← hx]
    exact hends p rfl

/-- Lines are read as those in front, and then those from where a knot ends. -/
theorem ofLines_append (supply : Nat) {front behind : List String}
    (hclear : behind ≠ [] → Line.opensBlock false front = false)
    (hends : ∀ p ∈ behind.head?, (Line.ofText p).form.endsKnot = true) :
    ofLines supply (front ++ behind) = ((ahead supply front).readFrom (front.length + 1)
      (behind.zip (Line.ofTexts behind))).finish (front.length + behind.length) := by
  have hfinish := finish_readFrom (({ supply } : ScriptState).readFrom 1
    (front.zip (Line.ofTexts front))) front.length (head?_zip_ofTexts hends)
  rw [length_zip_ofTexts] at hfinish
  rw [ahead, ← hfinish, ofLines, List.length_append]
  cases hbehind : behind with
  | nil => rw [List.append_nil, List.zip_nil_left, readFrom]
  | cons p ps =>
    rw [zip_ofTexts_append (hclear (by simp [hbehind])), readFrom_append, length_zip_ofTexts,
      Nat.add_comm 1]

/-- What is read behind lines that have been read. -/
theorem ahead_append (supply : Nat) {front mid : List String}
    (hclear : Line.opensBlock false front = false)
    (hends : ∀ p ∈ mid.head?, (Line.ofText p).form.endsKnot = true) :
    ahead supply (front ++ mid) = ((ahead supply front).readFrom (front.length + 1)
      (mid.zip (Line.ofTexts mid))).closeKnot (front.length + mid.length) := by
  have hshut : ∀ s : ScriptState, (s.readFrom (front.length + 1) (mid.zip (Line.ofTexts mid))).closeKnot
      (front.length + mid.length) = ((s.closeKnot front.length).readFrom (front.length + 1)
        (mid.zip (Line.ofTexts mid))).closeKnot (front.length + mid.length) := by
    intro s
    cases hmid : mid with
    | nil =>
      rw [List.zip_nil_left, readFrom, readFrom, List.length_nil, Nat.add_zero, closeKnot_closeKnot]
    | cons p ps =>
      have hhead : (Line.ofText p).form.endsKnot = true := hends p (by rw [hmid]; rfl)
      rw [Line.ofTexts, Line.readFrom_false_cons, List.zip_cons_cons, readFrom, readFrom,
        ← step_closeKnot (front.length + 1) p s hhead, Nat.add_sub_cancel]
  rw [ahead, zip_ofTexts_append hclear, readFrom_append, length_zip_ofTexts, Nat.add_comm 1,
    List.length_append, hshut, ahead]

/-- Behind a line that ends a region no region is open. -/
theorem step_regionEnd (n : Nat) (p : String) {l : Line} (s : ScriptState) (h : l.form = .regionEnd) :
    (s.step n p l).knots = (s.closeKnot (n - 1)).knots ∧ (s.step n p l).knot = none ∧
      (s.step n p l).region = none := by
  unfold step
  rw [h]
  dsimp only
  split
  · next hnone => exact ⟨rfl, knot_closeKnot _ _, Option.isNone_iff_eq_none.mp hnone⟩
  · obtain ⟨hknots, hknot, hregion⟩ := sameKnots_closeRegion n (s.closeKnot (n - 1))
    exact ⟨hknots, hknot.trans (knot_closeKnot _ _), hregion⟩

/-- The same lines hold the same knots behind two fronts that leave the same region open, unless it ends
right there, and among whose knots are the same of the names that come behind. -/
theorem alike_knots_behind (supply supply' : Nat) {front front' behind : List String}
    (hclear : behind ≠ [] → Line.opensBlock false front = false)
    (hclear' : behind ≠ [] → Line.opensBlock false front' = false)
    (hends : ∀ p ∈ behind.head?, (Line.ofText p).form.endsKnot = true)
    (hregion : ∀ p ∈ behind.head?, (Line.ofText p).form = .regionEnd ∨
      (ahead supply front).region.map OpenRegion.name =
        (ahead supply' front').region.map OpenRegion.name)
    (hnames : ∀ l ∈ Line.ofTexts behind, ∀ name, l.form = .knotHeader name →
      (name ∈ (ahead supply front).knots.map Knot.name ↔
        name ∈ (ahead supply' front').knots.map Knot.name)) :
    ∃ after after',
      (ofLines supply (front ++ behind)).knots.reverse = (ahead supply front).knots.reverse ++ after ∧
      (ofLines supply' (front' ++ behind)).knots.reverse =
        (ahead supply' front').knots.reverse ++ after' ∧
      List.Forall₂ Knot.Alike after after' := by
  cases behind with
  | nil =>
    refine ⟨[], [], ?_, ?_, .nil⟩
    · rw [List.append_nil, List.append_nil, knots_ofLines]
    · rw [List.append_nil, List.append_nil, knots_ofLines]
  | cons p ps =>
    set N : String → Prop := fun name => ∃ l ∈ Line.ofTexts (p :: ps), l.form = .knotHeader name
      with hN
    have htaken : ∀ name, N name → (name ∈ (ahead supply front).knots.map Knot.name ↔
        name ∈ (ahead supply' front').knots.map Knot.name) :=
      fun name ⟨l, hl, hform⟩ => hnames l hl name hform
    have hread : ∀ x ∈ (p :: ps).zip (Line.ofTexts (p :: ps)), ∀ name,
        x.2.form = .knotHeader name → N name :=
      fun x hx name hform => ⟨x.2, (List.of_mem_zip hx).2, hform⟩
    have hzip : (p :: ps).zip (Line.ofTexts (p :: ps)) = (p, Line.ofText p) ::
        ps.zip (Line.readFrom (decide ((Line.ofText p).form = .blockComment true)) ps) := by
      rw [Line.ofTexts, Line.readFrom_false_cons, List.zip_cons_cons]
    rw [hzip, List.forall_mem_cons] at hread
    -- the first line brings both runs into states between which there is no difference any more
    have hfirst : ((ahead supply front).step (front.length + 1) p (Line.ofText p)).Similar N
        (ahead supply front).knots (ahead supply' front').knots
        ((ahead supply' front').step (front'.length + 1) p (Line.ofText p)) := by
      rcases hregion p rfl with hend | hsame
      · obtain ⟨hknots, hknot, hnone⟩ :=
          step_regionEnd (front.length + 1) p (ahead supply front) hend
        obtain ⟨hknots', hknot', hnone'⟩ :=
          step_regionEnd (front'.length + 1) p (ahead supply' front') hend
        rw [closeKnot_of_none _ (knot_ahead supply front)] at hknots
        rw [closeKnot_of_none _ (knot_ahead supply' front')] at hknots'
        exact ⟨⟨[], [], hknots, hknots', .nil⟩, htaken, by rw [hknot, hknot']; exact .none,
          by rw [hknot]; simp, by rw [hnone, hnone']⟩
      · have hahead : (ahead supply front).Similar N (ahead supply front).knots
            (ahead supply' front').knots (ahead supply' front') :=
          ⟨⟨[], [], rfl, rfl, .nil⟩, htaken, by rw [knot_ahead, knot_ahead]; exact .none,
            by rw [knot_ahead]; simp, hsame⟩
        exact hahead.step _ _ rfl fun name hform => hread.1 name hform
    obtain ⟨after, after', hafter, hafter', hlike⟩ :=
      ((hfirst.readFrom (front.length + 1 + 1) (front'.length + 1 + 1)
        (forall₂_zip (rfl : ps.map strip = ps.map strip) _) hread.2).finish
          (front.length + (p :: ps).length) (front'.length + (p :: ps).length)).knots
    refine ⟨after.reverse, after'.reverse, ?_, ?_, List.rel_reverse hlike⟩
    · rw [ofLines_append supply hclear hends, hzip, readFrom, hafter, List.reverse_append]
    · rw [ofLines_append supply' hclear' hends, hzip, readFrom, hafter', List.reverse_append]

/-! ### Around a knot -/

/-- The state in a knot. -/
def within (supply : Nat) (front : List String) (name header : String) (body : List String) :
    ScriptState :=
  { ahead supply front with
    inPreamble := false
    positionMayFollow := false
    knot := some ⟨name, front.length + 1, header, body.reverse⟩ }

variable {name header : String} {front body behind : List String}

/-- The state behind a knot. -/
theorem ahead_around (supply : Nat) (h : Line.AroundKnot name front header body behind) :
    ahead supply (front ++ header :: body) =
      (within supply front name header body).closeKnot (front.length + 1 + body.length) := by
  have hhead : ∀ p ∈ (header :: body).head?, (Line.ofText p).form.endsKnot = true := by
    intro p hp
    obtain rfl : header = p := by simpa using hp
    rw [h.opens]
    rfl
  have hzip : (header :: body).zip (Line.ofTexts (header :: body)) =
      (header, Line.ofText header) :: body.zip (Line.ofTexts body) := by
    rw [Line.ofTexts, Line.readFrom_false_cons, decide_eq_false (by rw [h.opens]; simp),
      List.zip_cons_cons]
    rfl
  have hopened : (ahead supply front).step (front.length + 1) header (Line.ofText header) =
      { ahead supply front with
        inPreamble := false
        positionMayFollow := false
        knot := some ⟨name, front.length + 1, header, []⟩ } := by
    unfold step
    rw [h.opens]
    dsimp only
    rw [closeKnot_of_none _ (knot_ahead supply front)]
  have hbody : ∀ x ∈ body.zip (Line.ofTexts body), x.2.form.endsKnot = false :=
    fun x hx => h.inside x.2 (List.of_mem_zip hx).2
  have hfst : (body.zip (Line.ofTexts body)).map Prod.fst = body :=
    List.map_fst_zip (Nat.le_of_eq (Line.length_ofTexts body).symm)
  rw [ahead_append supply h.clear hhead, hzip, readFrom, hopened, readFrom_body _ rfl hbody, hfst,
    List.append_nil, List.length_cons, ← Nat.add_assoc, Nat.add_right_comm]
  rfl

/-- The knot that stands there. -/
def standing (supply : Nat) (front : List String) (name header : String) (body : List String) :
    Knot :=
  (within supply front name header body).finished ⟨name, front.length + 1, header, body.reverse⟩
    (front.length + 1 + body.length)

theorem standsAt_standing (supply : Nat) :
    (standing supply front name header body).StandsAt (front.length + 1) name header body := by
  refine ⟨rfl, rfl, rfl, rfl, ?_, ?_⟩
  · change (Body.read (ahead supply front).supply body.reverse.reverse).1.position = _
    rw [List.reverse_reverse, Body.position_read]
  · change Item.unlabelledIn (Body.read (ahead supply front).supply body.reverse.reverse).1.items = _
    rw [List.reverse_reverse, Body.unlabelledIn_read _ 0]

theorem knots_ahead_around (supply : Nat) (h : Line.AroundKnot name front header body behind) :
    (ahead supply (front ++ header :: body)).knots =
      standing supply front name header body :: (ahead supply front).knots := by
  rw [ahead_around supply h]
  exact knots_closeKnot _ rfl

theorem region_ahead_around (supply : Nat) (h : Line.AroundKnot name front header body behind) :
    (ahead supply (front ++ header :: body)).region.map OpenRegion.name =
      (ahead supply front).region.map OpenRegion.name := by
  rw [ahead_around supply h, region_closeKnot]
  rfl

/-- The knots of a script around one of them. Other lines in its body change no other knot. -/
theorem alike_knots_around (supply supply' : Nat) {body' : List String}
    (h : Line.AroundKnot name front header body behind)
    (h' : Line.AroundKnot name front header body' behind) :
    ∃ after after',
      (ofLines supply (front ++ header :: (body ++ behind))).knots.reverse =
        (ahead supply front).knots.reverse ++ standing supply front name header body :: after ∧
      (ofLines supply' (front ++ header :: (body' ++ behind))).knots.reverse =
        (ahead supply' front).knots.reverse ++ standing supply' front name header body' :: after' ∧
      List.Forall₂ Knot.Alike (ahead supply front).knots.reverse
        (ahead supply' front).knots.reverse ∧
      List.Forall₂ Knot.Alike after after' ∧
      (standing supply front name header body).region =
        (standing supply' front name header body').region ∧
      (standing supply front name header body).duplicate =
        (standing supply' front name header body').duplicate := by
  have hahead := similar_ahead supply supply' front
  have hknots := alike_knots_ahead supply supply' front
  have hclosed : ∀ {body : List String}, Line.AroundKnot name front header body behind →
      behind ≠ [] → Line.opensBlock false (front ++ header :: body) = false := by
    intro body h hne
    rw [Line.opensBlock_append, h.clear, Line.opensBlock_false_cons,
      decide_eq_false (by rw [h.opens]; simp), h.closed hne]
  -- behind the knot both runs have read knots of the same names
  have hnames : (ahead supply (front ++ header :: body)).knots.map Knot.name =
      (ahead supply' (front ++ header :: body')).knots.map Knot.name := by
    rw [knots_ahead_around supply h, knots_ahead_around supply' h', List.map_cons, List.map_cons,
      map_name_of_alike hknots]
    rfl
  have hregion : (ahead supply (front ++ header :: body)).region.map OpenRegion.name =
      (ahead supply' (front ++ header :: body')).region.map OpenRegion.name := by
    rw [region_ahead_around supply h, region_ahead_around supply' h', hahead.region]
  obtain ⟨after, after', hafter, hafter', hlike⟩ := alike_knots_behind supply supply' (hclosed h)
    (hclosed h') h.ends (fun _ _ => Or.inr hregion) fun _ _ _ _ => by rw [hnames]
  have hsplit : ∀ body : List String,
      front ++ header :: (body ++ behind) = front ++ header :: body ++ behind := fun body => by simp
  refine ⟨after, after', ?_, ?_, List.rel_reverse hknots, hlike, hahead.region, ?_⟩
  · rw [hsplit, hafter, knots_ahead_around supply h, List.reverse_cons, List.append_assoc,
      List.singleton_append]
  · rw [hsplit, hafter', knots_ahead_around supply' h', List.reverse_cons, List.append_assoc,
      List.singleton_append]
  · exact hahead.any_name trivial

/-! ### What holds of all knots -/

/-- A property of the knots read so far, and one of the open knot. -/
structure Holds (P : Knot → Prop) (Q : OpenKnot → Prop) (s : ScriptState) : Prop where
  knots : ∀ k ∈ s.knots, P k
  knot : ∀ k ∈ s.knot, Q k

namespace Holds

variable {P : Knot → Prop} {Q : OpenKnot → Prop} {s t : ScriptState}

theorem closeKnot (hclose : ∀ s k last, Q k → P (finished s k last)) (h : s.Holds P Q) (last : Nat) :
    (s.closeKnot last).Holds P Q := by
  cases hs : s.knot with
  | none => rwa [closeKnot_of_none last hs]
  | some k =>
    refine ⟨?_, by rw [knot_closeKnot]; simp⟩
    rw [knots_closeKnot last hs, List.forall_mem_cons]
    exact ⟨hclose s k last (h.knot k hs), h.knots⟩

theorem of_eq (hknots : t.knots = s.knots) (hknot : t.knot = s.knot) (h : s.Holds P Q) :
    t.Holds P Q :=
  ⟨by rw [hknots]; exact h.knots, by rw [hknot]; exact h.knot⟩

/-- A line keeps what holds of a knot that it opens and of an open knot to which it is added. -/
theorem step (hclose : ∀ s k last, Q k → P (finished s k last)) (h : s.Holds P Q) (n : Nat)
    (p : String) {l : Line} (hopen : ∀ name, l.form = .knotHeader name → Q ⟨name, n, p, []⟩)
    (hbody : ∀ k, Q k → Q { k with body := p :: k.body }) : (s.step n p l).Holds P Q := by
  have hclosed := h.closeKnot hclose (n - 1)
  have hsteps := steps n p l s
  generalize s.step n p l = t at hsteps ⊢
  cases hsteps with
  | header hform =>
    refine ⟨hclosed.knots, fun k hk => ?_⟩
    obtain rfl := Option.some.inj hk
    exact hopen _ hform
  | regionStart _ =>
    obtain ⟨hknots, hknot, -⟩ := sameKnots_closeUnclosedRegion n (n - 1) (s.closeKnot (n - 1))
    exact hclosed.of_eq hknots hknot
  | strayEnd _ _ => exact ⟨hclosed.knots, hclosed.knot⟩
  | regionEnd _ _ =>
    obtain ⟨hknots, hknot, -⟩ := sameKnots_closeRegion n (s.closeKnot (n - 1))
    exact hclosed.of_eq hknots hknot
  | body _ hknot =>
    refine ⟨h.knots, fun k' hk' => ?_⟩
    obtain rfl := Option.some.inj hk'
    exact hbody _ (h.knot _ hknot)
  | blank _ _ => exact h
  | loose _ _ _ =>
    obtain ⟨hknots, hknot, -⟩ := sameKnots_looseLine n l s
    exact h.of_eq hknots hknot

/-- What lines keep holds of everything that is read from them. -/
theorem ofLines (hclose : ∀ s k last, Q k → P (finished s k last)) (supply : Nat) {ls : List String}
    (hopen : ∀ (p : String) (l : Line) name n, p ∈ ls → l ∈ Line.ofTexts ls →
      l.form = .knotHeader name → Q ⟨name, n, p, []⟩)
    (hbody : ∀ p ∈ ls, ∀ k, Q k → Q { k with body := p :: k.body }) :
    (({ supply } : ScriptState).readFrom 1 (ls.zip (Line.ofTexts ls))).Holds P Q := by
  have hrun : ∀ (xs : List (String × Line)) (s : ScriptState) n,
      (∀ x ∈ xs, x.1 ∈ ls ∧ x.2 ∈ Line.ofTexts ls) → s.Holds P Q → (s.readFrom n xs).Holds P Q := by
    intro xs
    induction xs with
    | nil => exact fun _ _ _ h => h
    | cons x xs ih =>
      obtain ⟨p, l⟩ := x
      intro s n hxs h
      rw [List.forall_mem_cons] at hxs
      refine ih _ (n + 1) hxs.2 (h.step hclose n p ?_ (hbody p hxs.1.1))
      exact fun name hform => hopen p l name n hxs.1.1 hxs.1.2 hform
  refine hrun _ _ 1 ?_ ⟨by simp, by simp⟩
  rintro ⟨p, l⟩ hx
  exact List.of_mem_zip hx

end Holds

/-- Without a header of that name in front there is no knot of that name in front. -/
theorem name_ne_of_mem_ahead (supply : Nat)
    (h : ∀ l ∈ Line.ofTexts front, l.form ≠ .knotHeader name) :
    ∀ k ∈ (ahead supply front).knots, k.name ≠ name := by
  have hclose : ∀ (s : ScriptState) (k : OpenKnot) (last : Nat), k.name ≠ name →
      (finished s k last).name ≠ name := fun _ _ _ hk => hk
  have hread := Holds.ofLines (P := fun k => k.name ≠ name) (Q := fun k => k.name ≠ name) hclose supply
    (fun p l other n _ hl hform hname => h l hl (hform.trans (congrArg LineForm.knotHeader hname)))
    (fun _ _ _ hk => hk)
  exact (hread.closeKnot hclose front.length).knots

/-- A knot comes from a header of its name. -/
theorem exists_header_of_mem {supply : Nat} {ls : List String} {k : Knot}
    (hk : k ∈ (ofLines supply ls).knots) : ∃ l ∈ Line.ofTexts ls, l.form = .knotHeader k.name := by
  by_contra hnone
  rw [knots_ofLines] at hk
  have hclose : ∀ (s : ScriptState) (x : OpenKnot) (last : Nat), x.name ≠ k.name →
      (finished s x last).name ≠ k.name := fun _ _ _ hx => hx
  have hread := Holds.ofLines (P := fun x => x.name ≠ k.name) (Q := fun x => x.name ≠ k.name) hclose
    supply (fun p l other n _ hl hform hname =>
      hnone ⟨l, hl, hform.trans (congrArg LineForm.knotHeader hname)⟩) (fun _ _ _ hx => hx)
  exact (hread.closeKnot hclose ls.length).knots k hk rfl

/-- The tree of a knot is read from lines of the script. -/
theorem fromLines_of_mem {supply : Nat} {ls : List String} {k : Knot}
    (hk : k ∈ (ofLines supply ls).knots) : k.FromLines ls := by
  rw [knots_ofLines] at hk
  have hclose : ∀ (s : ScriptState) (x : OpenKnot) (last : Nat), (∀ l ∈ x.body, l ∈ ls) →
      (finished s x last).FromLines ls := by
    intro s x last hbody
    exact ⟨s.supply, x.body.reverse, fun l hl => hbody l (List.mem_reverse.mp hl), rfl, rfl⟩
  have hread := Holds.ofLines (P := Knot.FromLines ls) (Q := fun x => ∀ l ∈ x.body, l ∈ ls) hclose supply
    (fun p l name n _ _ _ l hl => by simp at hl)
    (fun p hp x hbody => List.forall_mem_cons.mpr ⟨hp, hbody⟩)
  exact (hread.closeKnot hclose ls.length).knots k hk

end ScriptState

end StoryScript
