import StoryScript.Proofs.Document.Regions
import StoryScript.Proofs.Document.Carry
import StoryScript.Proofs.Body.Rewritten

/-!
# Lines with headers among the lines of a script

Lines that begin with a header make knots of their own between those in front and those behind. The first of
them has the name of that header and stands in the region that is open there, and the names of the rest are
those of the headers that follow (`ScriptState.exists_ahead_header`, `ScriptState.map_name_ahead`). If no name
behind is among them, all knots around carry on as they were (`Document.exists_keptAround`).
-/

namespace StoryScript

open Text

namespace Line

/-- The names of the knots that begin on some lines. -/
def headersIn (ls : List String) : List String := (namesIn (ofTexts ls)).map Prod.fst

theorem mem_headersIn {ls : List String} {name : String} :
    name ∈ headersIn ls ↔ ∃ l ∈ ofTexts ls, l.form = .knotHeader name := mem_map_fst_namesIn

variable {name header : String} {front : List String}

theorem headersIn_append (hclear : opensBlock false front = false) (ls : List String) :
    headersIn (front ++ ls) = headersIn front ++ headersIn ls := by
  rw [headersIn, ofTexts_append hclear, map_fst_namesIn_append, headersIn, headersIn]

theorem headersIn_cons (hopens : (ofText header).form = .knotHeader name) (ls : List String) :
    headersIn (header :: ls) = name :: headersIn ls := by
  rw [headersIn, ofTexts_cons_of_header hopens, namesIn_cons_of_header _ hopens, List.map_cons,
    headersIn]

/-- Neither silent lines in front of a body nor blank lines behind it make a knot, not even behind a comment
that is left open. -/
theorem headersIn_raw {tops body blanks : List String} (htops : ∀ s ∈ tops, Silent s)
    (hblanks : ∀ s ∈ blanks, s = "") : headersIn (tops ++ body ++ blanks) = headersIn body := by
  have hnone : ∀ inBlock : Bool, (namesIn (readFrom inBlock blanks)).map Prod.fst = [] := by
    intro inBlock
    rw [List.eq_nil_iff_forall_not_mem]
    intro name hname
    obtain ⟨l, hl, hform⟩ := mem_map_fst_namesIn.mp hname
    have hends := readFrom_blank inBlock hblanks l hl
    simp [hform, LineForm.endsKnot] at hends
  have hlines : ofTexts (body ++ blanks) = ofTexts body ++ readFrom (opensBlock false body) blanks :=
    readFrom_append false _ _
  rw [headersIn, List.append_assoc, namesIn_append_of_silent htops, hlines, map_fst_namesIn_append,
    hnone, List.append_nil, headersIn]

/-- Behind a header with silent lines under it a comment is open if the body leaves one open. -/
theorem opensBlock_raw {tops body blanks : List String}
    (hopens : (ofText header).form = .knotHeader name) (htops : ∀ s ∈ tops, Silent s)
    (hblanks : ∀ s ∈ blanks, s = "") (hclosed : opensBlock false body = false) :
    opensBlock false (header :: (tops ++ body ++ blanks)) = false := by
  rw [opensBlock_false_cons, decide_eq_false (by rw [hopens]; simp), List.append_assoc,
    opensBlock_append_of_silent htops, opensBlock_append, hclosed, opensBlock_blank hblanks]

/-- With its header, silent lines under it and blank lines behind it, a body without markers of regions is
still without any. -/
theorem unmarked_raw {tops body blanks : List String}
    (hopens : (ofText header).form = .knotHeader name) (htops : ∀ s ∈ tops, Silent s)
    (hblanks : ∀ s ∈ blanks, s = "") (hunmarked : ∀ l ∈ ofTexts body, l.form.isRegionMarker = false) :
    ∀ l ∈ ofTexts (header :: (tops ++ body ++ blanks)), l.form.isRegionMarker = false := by
  have hmarker : ∀ {f : LineForm}, f.endsKnot = false → f.isRegionMarker = false := by
    intro f hf
    cases f <;> first | rfl | exact absurd hf.symm Bool.false_ne_true
  have hlines : ofTexts (header :: (tops ++ body ++ blanks)) =
      ofText header :: (tops.map ofText ++ (ofTexts body ++ readFrom (opensBlock false body) blanks)) := by
    have hclear : opensBlock false tops = false := by
      have hopen := opensBlock_append_of_silent htops []
      rwa [List.append_nil] at hopen
    rw [ofTexts_cons_of_header hopens, List.append_assoc, ofTexts_append hclear,
      ofTexts_of_silent htops, ofTexts, readFrom_append, ofTexts]
  rw [hlines, List.forall_mem_cons, List.forall_mem_append, List.forall_mem_append,
    List.forall_mem_map]
  exact ⟨by rw [hopens]; rfl, fun s hs => hmarker (htops s hs).ends, hunmarked,
    fun l hl => hmarker (readFrom_blank _ hblanks l hl)⟩

end Line

/-! ### Knots that are made -/

namespace ScriptState

variable {name header : String} {front : List String}

/-- What has been read stays. -/
theorem exists_knots_readFrom (s : ScriptState) (n : Nat) (xs : List (String × Line)) :
    ∃ ks, (s.readFrom n xs).knots = ks ++ s.knots := by
  have hself : s.Similar (fun _ => True) s.knots s.knots s := by
    refine ⟨⟨[], [], rfl, rfl, .nil⟩, fun _ _ => Iff.rfl, ?_, fun _ _ => trivial, rfl⟩
    cases s.knot with
    | none => exact .none
    | some k => exact .some ⟨rfl, rfl⟩
  have hxs : List.Forall₂ (fun x y : String × Line => strip x.1 = strip y.1 ∧ x.2 = y.2) xs xs :=
    List.forall₂_same.mpr fun _ _ => ⟨rfl, rfl⟩
  obtain ⟨ks, -, hks, -⟩ := (hself.readFrom n n hxs fun _ _ _ _ => trivial).knots
  exact ⟨ks, hks⟩

theorem exists_knots_closeKnot (s : ScriptState) (last : Nat) :
    ∃ ks, (s.closeKnot last).knots = ks ++ s.knots := by
  cases hs : s.knot with
  | none => exact ⟨[], by rw [closeKnot_of_none last hs]; rfl⟩
  | some k => exact ⟨[s.finished k last], knots_closeKnot last hs⟩

/-- The knots read so far have the names of the headers so far. -/
theorem map_name_ahead (supply : Nat) (ls : List String) :
    (ahead supply ls).knots.reverse.map Knot.name = Line.headersIn ls := by
  have hnames := congrArg (List.map Prod.fst) (names_ofLines supply ls)
  rw [knots_ofLines, List.map_map] at hnames
  exact hnames

/-- Lines that begin with a header make a knot of its name in the open region, and perhaps more, behind those
that were there. -/
theorem exists_ahead_header (supply : Nat) (rest : List String)
    (hclear : Line.opensBlock false front = false)
    (hopens : (Line.ofText header).form = .knotHeader name) : ∃ k more,
      (ahead supply (front ++ header :: rest)).knots.reverse =
        (ahead supply front).knots.reverse ++ k :: more ∧
      k.name = name ∧ k.region = (ahead supply front).region.map OpenRegion.name ∧
      (k :: more).map Knot.name = Line.headersIn (header :: rest) := by
  obtain ⟨body, behind, rfl, -, hinside, hclosed, hends⟩ := Line.exists_section false rest
  have haround : Line.AroundKnot name front header body behind :=
    ⟨hclear, hopens, hinside, hclosed, hends⟩
  have hknots := knots_ahead_around supply haround
  obtain ⟨more, hmore⟩ : ∃ more, (ahead supply (front ++ header :: (body ++ behind))).knots.reverse =
      (ahead supply front).knots.reverse ++ standing supply front name header body :: more := by
    -- the first section is the knot, and what is behind it may begin further ones
    cases hbehind : behind with
    | nil => exact ⟨[], by rw [List.append_nil, hknots, List.reverse_cons]⟩
    | cons p ps =>
      have hopen : Line.opensBlock false (front ++ header :: body) = false := by
        rw [Line.opensBlock_append, hclear, Line.opensBlock_false_cons,
          decide_eq_false (by rw [hopens]; simp), hclosed (by simp [hbehind])]
      have hsplit : front ++ header :: (body ++ p :: ps) = front ++ header :: body ++ p :: ps := by simp
      rw [hbehind] at hends
      obtain ⟨ks, hks⟩ := exists_knots_readFrom (ahead supply (front ++ header :: body))
        ((front ++ header :: body).length + 1) ((p :: ps).zip (Line.ofTexts (p :: ps)))
      rw [hsplit, ahead_append supply hopen hends]
      generalize (ahead supply (front ++ header :: body)).readFrom
        ((front ++ header :: body).length + 1) ((p :: ps).zip (Line.ofTexts (p :: ps))) = s at hks ⊢
      obtain ⟨ks', hks'⟩ := exists_knots_closeKnot s
        ((front ++ header :: body).length + (p :: ps).length)
      refine ⟨ks.reverse ++ ks'.reverse, ?_⟩
      rw [hks', hks, hknots]
      simp
  refine ⟨_, more, hmore, rfl, rfl, ?_⟩
  have hnames := map_name_ahead supply (front ++ header :: (body ++ behind))
  rw [hmore, List.map_append, map_name_ahead, Line.headersIn_append hclear,
    List.append_cancel_left_eq] at hnames
  exact hnames

theorem mem_map_name_ahead {supply : Nat} {ls : List String} {name : String} :
    name ∈ (ahead supply ls).knots.map Knot.name ↔ name ∈ Line.headersIn ls := by
  rw [← map_name_ahead supply ls, List.map_reverse, List.mem_reverse]

end ScriptState

/-! ### Knots that are kept -/

/-- A knot that is what another one was, but for its lines. -/
structure Knot.Kept (k l : Knot) : Prop where
  name : k.name = l.name
  region : k.region = l.region
  duplicate : k.duplicate = l.duplicate
  items : k.items = l.items

namespace Document

/-- The knots of a document are some that were kept, then others, and then again some that were kept. -/
def KeptAround (d : Document) (ks mid ls : List Knot) : Prop :=
  ∃ us vs, d.knots = us ++ mid ++ vs ∧ List.Forall₂ Knot.Kept us ks ∧ List.Forall₂ Knot.Kept vs ls

/-- Carrying identities over changes neither names nor regions. -/
theorem forall₂_carryKnot {old : Document} {c : Counterpart} (seen : List String) {ks ls : List Knot}
    (h : List.Forall₂ Knot.Alike ks ls) :
    List.Forall₂ (fun k l : Knot => k.name = l.name ∧ k.region = l.region)
      ((withOccurrence seen ks).map (old.carryKnot c)) ls := by
  have hsame : ∀ x : Knot × Nat, (old.carryKnot c x).name = x.1.name ∧
      (old.carryKnot c x).region = x.1.region := by
    intro x
    unfold carryKnot
    split
    · exact ⟨rfl, rfl⟩
    · exact ⟨rfl, rfl⟩
  induction h generalizing seen with
  | nil => exact .nil
  | @cons k l ks ls hkl _ ih =>
    rw [withOccurrence, List.map_cons]
    exact .cons ⟨(hsame _).1.trans hkl.name, (hsame _).2.trans hkl.region⟩ (ih _)

/-- Knots that differ from earlier ones in identities alone become these again, beside others of which no name
is that of a knot behind them. -/
theorem exists_keptAround {new old : Document} {ks ms ls as added bs : List Knot}
    (hold : old.knots = ks ++ ms ++ ls) (hself : ∀ x ∈ old.knots, Item.sameList x.items x.items = true)
    (hnew : List.Forall₂ Knot.Alike new.knots (as ++ added ++ bs))
    (has : List.Forall₂ Knot.Alike as ks) (hbs : List.Forall₂ Knot.Alike bs ls)
    (hcount : ∀ x ∈ ls, (added.map Knot.name).count x.name = (ms.map Knot.name).count x.name) :
    ∃ mid, (new.carry old none).KeptAround ks mid ls ∧
      List.Forall₂ (fun m m' => m.name = m'.name ∧ m.region = m'.region) mid added := by
  -- the new knots fall into three parts as well
  have hfront := List.forall₂_take_append _ _ _ (List.append_assoc as added bs ▸ hnew)
  have hrest := List.forall₂_drop_append _ _ _ (List.append_assoc as added bs ▸ hnew)
  have hmid := List.forall₂_take_append _ _ _ hrest
  have hbehind := List.forall₂_drop_append _ _ _ hrest
  have hsplit : new.knots = new.knots.take as.length ++
      (new.knots.drop as.length).take added.length ++
        (new.knots.drop as.length).drop added.length := by
    rw [List.append_assoc, List.take_append_drop, List.take_append_drop]
  generalize new.knots.take as.length = as' at hfront hsplit
  generalize (new.knots.drop as.length).take added.length = ms' at hmid hsplit
  generalize (new.knots.drop as.length).drop added.length = bs' at hbehind hsplit
  obtain ⟨us, vs, hknots, hus, hvs⟩ := exists_carry_around none ms ms' hsplit hold hself (by simp)
    (fun x hx => by rw [map_name_of_alike hmid]; exact hcount x hx)
    (Knot.forall₂_alike_trans hfront has) (Knot.forall₂_alike_trans hbehind hbs)
  have hkept : ∀ u x : Knot, Recovers u x → u.Kept x := fun u x h =>
    ⟨h.1.name, h.1.region, h.1.duplicate, h.2⟩
  refine ⟨_, ⟨us, vs, hknots, hus.imp hkept, hvs.imp hkept⟩, forall₂_carryKnot _ hmid⟩

end Document

end StoryScript
