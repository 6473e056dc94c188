import StoryScript.Proofs.Document.Inserted
import StoryScript.Proofs.Session.Reachable

/-!
# A knot among the lines of its document

A document that was read holds the first knot of a name on a stretch of its lines
(`Document.Placed`): some lines stand in front of the header, then come the header, the body and the
lines behind. Putting other lines in the place of the body leaves all other knots as they are, provided
that these lines form one body (`Line.AroundKnot`), and the knot itself is then read from them
(`Document.Placed.exists_carry`). What is left to show of an edit of a knot's content is that the
lines it writes form one body.
-/

namespace StoryScript

open Text

/-- A knot with another body. -/
def Knot.withBody (k : Knot) (body : List String) : Knot :=
  { k with
    position := (leadingPosition? (Line.ofTexts body)).map Prod.fst
    items := (Body.read 0 body).1.items }

namespace Document

/-- The first knot of its name among the lines and the knots of a document. -/
structure Placed (d : Document) (k : Knot) (front : List String) (header : String)
    (body behind : List String) (ks ls : List Knot) : Prop where
  lines : d.lines = front ++ header :: (body ++ behind)
  around : Line.AroundKnot k.name front header body behind
  unnamed : ∀ l ∈ Line.ofTexts front, l.form ≠ .knotHeader k.name
  knots : d.knots = ks ++ k :: ls
  first : ∀ x ∈ ks, x.name ≠ k.name
  stands : k.StandsAt (front.length + 1) k.name header body
  /-- The knots of any reading of the lines. -/
  read : ∀ supply, ∃ after, (ScriptState.ofLines supply d.lines).knots.reverse =
    (ScriptState.ahead supply front).knots.reverse ++
      ScriptState.standing supply front k.name header body :: after ∧
    List.Forall₂ Knot.Alike (ScriptState.ahead supply front).knots.reverse ks ∧
    (ScriptState.standing supply front k.name header body).Alike k ∧
    List.Forall₂ Knot.Alike after ls

theorem findKnot?_eq_some {d : Document} {ks ls : List Knot} {k : Knot}
    (hknots : d.knots = ks ++ k :: ls) (hfirst : ∀ x ∈ ks, x.name ≠ k.name) :
    d.findKnot? k.name = some k := by
  rw [findKnot?, hknots, List.find?_append, List.find?_eq_none.mpr (by simpa using hfirst)]
  simp

theorem name_of_findKnot? {d : Document} {name : String} {k : Knot}
    (h : d.findKnot? name = some k) : k.name = name := by
  simpa using List.find?_some h

end Document

/-! ### Reading the lines of a document again -/

namespace ScriptState

/-- The knots that lines hold when they are cut at the first header of a name. -/
theorem exists_standing {name header : String} {front : List String} (rest : List String)
    (hclear : Line.opensBlock false front = false)
    (hopens : (Line.ofText header).form = .knotHeader name) :
    ∃ body behind, rest = body ++ behind ∧ Line.AroundKnot name front header body behind ∧
      ∀ supply, ∃ after, (ofLines supply (front ++ header :: rest)).knots.reverse =
        (ahead supply front).knots.reverse ++ standing supply front name header body :: after := by
  obtain ⟨body, behind, rfl, -, hinside, hclosed, hends⟩ := Line.exists_section false rest
  have haround : Line.AroundKnot name front header body behind :=
    ⟨hclear, hopens, hinside, hclosed, hends⟩
  refine ⟨body, behind, rfl, haround, fun supply => ?_⟩
  obtain ⟨after, -, hknots, -⟩ := alike_knots_around supply supply haround haround
  exact ⟨after, hknots⟩

end ScriptState

namespace Document

variable {d : Document} {k : Knot}

/-- The first knot of a name stands somewhere among the lines. -/
theorem IsReading.exists_placed (h : d.IsReading) {name : String} (hk : d.findKnot? name = some k) :
    ∃ front header body behind ks ls, d.Placed k front header body behind ks ls := by
  obtain rfl := name_of_findKnot? hk
  obtain ⟨supply, hknots⟩ := h.knots
  -- the knot comes from a header of its name, and the lines can be cut at the first of these
  have hmem : k.unlabelled ∈ d.knots.map Knot.unlabelled :=
    List.mem_map_of_mem (List.mem_of_find?_eq_some hk)
  rw [hknots] at hmem
  obtain ⟨l, hl, hlk⟩ := List.mem_map.mp hmem
  have hname : l.name = k.name := (Knot.alike_of_unlabelled hlk).name
  obtain ⟨front, header, rest, hlines, hclear, hopens, hunnamed⟩ :=
    Line.exists_header (hname ▸ ScriptState.exists_header_of_mem (List.mem_reverse.mp hl))
  obtain ⟨body, behind, rfl, haround, hread⟩ := ScriptState.exists_standing rest hclear hopens
  rw [← hlines] at hread
  -- so the knots of the document fall into those in front, that knot and those behind
  obtain ⟨after, hafter⟩ := hread supply
  rw [hafter, List.map_append, List.map_cons] at hknots
  obtain ⟨ks, rest', hsplit, hks, hrest⟩ := List.map_eq_append_iff.mp hknots
  obtain ⟨k', ls, rfl, hk', hls⟩ := List.map_eq_cons_iff.mp hrest
  have halike : (ScriptState.standing supply front k.name header body).Alike k' :=
    (Knot.alike_of_unlabelled hk').symm
  have hfirst : ∀ x ∈ ks, x.name ≠ k.name := by
    intro x hx hxk
    have hx' : x.unlabelled ∈ ks.map Knot.unlabelled := List.mem_map_of_mem hx
    rw [hks] at hx'
    obtain ⟨y, hy, hyx⟩ := List.mem_map.mp hx'
    exact ScriptState.name_ne_of_mem_ahead supply hunnamed y (List.mem_reverse.mp hy)
      ((Knot.alike_of_unlabelled hyx).name.trans hxk)
  have hk'name : k'.name = k.name := halike.name.symm
  have hkk' : k' = k := by
    have hfind := findKnot?_eq_some hsplit fun x hx => hk'name ▸ hfirst x hx
    rw [hk'name, hk, Option.some.injEq] at hfind
    exact hfind.symm
  subst hkk'
  have hstanding : (ScriptState.standing supply front k'.name header body).StandsAt
      (front.length + 1) k'.name header body := ScriptState.standsAt_standing supply
  refine ⟨front, header, body, behind, ks, ls, hlines, haround, hunnamed, hsplit, hfirst, ?_, ?_⟩
  · have hfield : ∀ {α : Type} (f : Knot → α), (∀ x : Knot, f x.unlabelled = f x) →
        f k' = f (ScriptState.standing supply front k'.name header body) := by
      intro α f hf
      rw [← hf k', hk', hf]
    exact ⟨rfl, (hfield Knot.lineStart fun _ => rfl).trans hstanding.lineStart,
      (hfield Knot.lineEnd fun _ => rfl).trans hstanding.lineEnd,
      (hfield Knot.header fun _ => rfl).trans hstanding.header,
      halike.position.symm.trans hstanding.position, halike.items.symm.trans hstanding.items⟩
  · intro supply'
    obtain ⟨after, after', hafter₁, hafter₂, hahead, hbehind, hregion, hduplicate⟩ :=
      ScriptState.alike_knots_around supply' supply haround haround
    rw [← hlines] at hafter₁ hafter₂
    refine ⟨after, hafter₁, Knot.forall₂_alike_trans hahead
      (Knot.forall₂_alike_symm (Knot.forall₂_alike_of_map_unlabelled hks)), ?_, ?_⟩
    · have hstanding' : (ScriptState.standing supply' front k'.name header body).StandsAt
          (front.length + 1) k'.name header body := ScriptState.standsAt_standing supply'
      have hsame : (ScriptState.standing supply' front k'.name header body).Alike
          (ScriptState.standing supply front k'.name header body) :=
        ⟨rfl, hregion, hduplicate, hstanding'.position.trans hstanding.position.symm,
          hstanding'.items.trans hstanding.items.symm⟩
      exact hsame.trans halike
    · rw [hafter, List.append_cancel_left_eq, List.cons.injEq] at hafter₂
      rw [← hafter₂.2] at hbehind
      exact Knot.forall₂_alike_trans hbehind
        (Knot.forall₂_alike_symm (Knot.forall₂_alike_of_map_unlabelled hls))

/-! ### Other lines in the place of the body -/

/-- The lines around a body hold no line feed. -/
theorem Placed.line {front : List String} {header : String} {body behind : List String}
    {ks ls : List Knot} (hp : d.Placed k front header body behind ks ls) (hd : d.IsReading)
    {written : List String} (hwritten : ∀ l ∈ written, '\n' ∉ l.toList) :
    ∀ l ∈ front ++ header :: (written ++ behind), '\n' ∉ l.toList := by
  have hold := hd.line
  rw [hp.lines] at hold
  simp only [List.forall_mem_append, List.forall_mem_cons] at hold ⊢
  exact ⟨hold.1, hold.2.1, hwritten, hold.2.2.2⟩

variable {front : List String} {header : String} {body body' behind : List String} {ks ls : List Knot}

/-- What is read behind the header of a knot is that knot, whatever lines stand there. -/
theorem Placed.standing_alike (hp : d.Placed k front header body behind ks ls) (supply : Nat)
    (body' : List String) :
    (ScriptState.standing supply front k.name header body').Alike (k.withBody body') := by
  obtain ⟨-, -, -, hstanding, -⟩ := hp.read supply
  have hstands : (ScriptState.standing supply front k.name header body').StandsAt (front.length + 1) k.name
      header body' := ScriptState.standsAt_standing supply
  -- the region and the knots in front are those of the lines in front
  exact ⟨rfl, hstanding.region, hstanding.duplicate, hstands.position, hstands.items⟩

/-- The knots that are read when other lines stand in the place of a knot's body: all others are as they were,
and the knot is read from the new lines. -/
theorem Placed.exists_split {new : Document} {supply : Nat}
    (hp : d.Placed k front header body behind ks ls)
    (haround : Line.AroundKnot k.name front header body' behind)
    (hnew : List.Forall₂ Knot.Alike new.knots
      (ScriptState.ofLines supply (front ++ header :: (body' ++ behind))).knots.reverse) :
    ∃ (us : List Knot) (k' : Knot) (vs : List Knot), new.knots = us ++ k' :: vs ∧ k'.Alike (k.withBody body') ∧
      List.Forall₂ Knot.Alike us ks ∧ List.Forall₂ Knot.Alike vs ls := by
  obtain ⟨after, hafter, hahead, -, hbehind⟩ := hp.read supply
  obtain ⟨after₁, after', hafter₁, hafter', -, hbehind', -, -⟩ :=
    ScriptState.alike_knots_around supply supply hp.around haround
  rw [← hp.lines, hafter, List.append_cancel_left_eq, List.cons.injEq] at hafter₁
  obtain ⟨-, rfl⟩ := hafter₁
  rw [hafter'] at hnew
  -- the knots that were read anew fall into three parts as well
  have hus := List.forall₂_take_append _ _ _ hnew
  have hrest := List.forall₂_drop_append _ _ _ hnew
  have hsplit := (List.take_append_drop (ScriptState.ahead supply front).knots.reverse.length
    new.knots).symm
  generalize new.knots.take (ScriptState.ahead supply front).knots.reverse.length = us at hus hsplit
  obtain ⟨k', vs, hk', hvs, hdrop⟩ := List.forall₂_cons_right_iff.mp hrest
  rw [hdrop] at hsplit
  exact ⟨us, k', vs, hsplit, hk'.trans (hp.standing_alike supply body'), Knot.forall₂_alike_trans hus hahead,
    Knot.forall₂_alike_trans hvs (Knot.forall₂_alike_trans (Knot.forall₂_alike_symm hbehind') hbehind)⟩

/-- The document that is read when other lines stand in the place of a knot's body: every other knot
carries on as it was, and the knot is read from the new lines. -/
theorem Placed.exists_carry {new : Document} {supply : Nat} (items : List Item)
    (hp : d.Placed k front header body behind ks ls) (hd : d.IsReading)
    (haround : Line.AroundKnot k.name front header body' behind)
    (hnew : List.Forall₂ Knot.Alike new.knots
      (ScriptState.ofLines supply (front ++ header :: (body' ++ behind))).knots.reverse) :
    ∃ (ks' : List Knot) (k' : Knot) (ls' : List Knot),
      (new.carry d (some (k.name, items))).knots = ks' ++ k'.carry items :: ls' ∧
      k'.Alike (k.withBody body') ∧ List.Forall₂ Knot.Kept ks' ks ∧ List.Forall₂ Knot.Kept ls' ls := by
  obtain ⟨us, k', vs, hsplit, hk', hks, hls⟩ := hp.exists_split haround hnew
  obtain ⟨ks', ls', hcarried, hks', hls'⟩ := forall₂_carry items hsplit hp.knots
    hd.sameList_self hp.first hks hk'.name hls
  have hkept : ∀ u x : Knot, u.Alike x ∧ u.items = x.items → u.Kept x := fun u x h =>
    ⟨h.1.name, h.1.region, h.1.duplicate, h.2⟩
  exact ⟨ks', k', ls', hcarried, hk', hks'.imp hkept, hls'.imp hkept⟩

/-- The first knot of a document that has a given knot's name is that knot, if nothing in front of it has that
name. -/
theorem exists_findKnot?_of_alike {new : Document} {l : Knot} {ks' ls' : List Knot}
    (halike : List.Forall₂ Knot.Alike new.knots (ks' ++ l :: ls')) (hks : ∀ x ∈ ks', x.name ≠ l.name) :
    ∃ k', new.findKnot? l.name = some k' ∧ k'.Alike l := by
  have hfirst := List.forall₂_take_append _ _ _ halike
  have hrest := List.forall₂_drop_append _ _ _ halike
  obtain ⟨y, us, hyl, -, hdrop⟩ := List.forall₂_cons_right_iff.mp hrest
  have hsplit := (List.take_append_drop ks'.length new.knots).symm
  rw [hdrop] at hsplit
  have hfind := findKnot?_eq_some hsplit fun x hx hxy => by
    have hmem : x.name ∈ (new.knots.take ks'.length).map Knot.name := List.mem_map_of_mem hx
    rw [map_name_of_alike hfirst] at hmem
    obtain ⟨z, hz, hzx⟩ := List.mem_map.mp hmem
    exact hks z hz (hzx.trans (hxy.trans hyl.name))
  exact ⟨y, hyl.name ▸ hfind, hyl⟩

/-- Whatever lines stand behind the header of a knot, those up to the next header or region marker are read as
its body. -/
theorem Placed.exists_body (hp : d.Placed k front header body behind ks ls) {new : Document} {supply : Nat}
    (rest : List String) (hnew : List.Forall₂ Knot.Alike new.knots
      (ScriptState.ofLines supply (front ++ header :: rest)).knots.reverse) :
    ∃ body' behind' k', rest = body' ++ behind' ∧ Line.AroundKnot k.name front header body' behind' ∧
      new.findKnot? k.name = some k' ∧ k'.Alike (k.withBody body') := by
  obtain ⟨body', behind', hsplit, haround, hstanding⟩ :=
    ScriptState.exists_standing rest hp.around.clear hp.around.opens
  obtain ⟨after, hafter⟩ := hstanding supply
  rw [hafter] at hnew
  obtain ⟨k', hfind, hk'⟩ := exists_findKnot?_of_alike hnew fun x hx =>
    ScriptState.name_ne_of_mem_ahead supply hp.unnamed x (List.mem_reverse.mp hx)
  exact ⟨body', behind', k', hsplit, haround, hfind, hk'.trans (hp.standing_alike supply body')⟩

end Document

end StoryScript
