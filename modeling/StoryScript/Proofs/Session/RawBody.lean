import StoryScript.Proofs.Document.Inserted
import StoryScript.Proofs.Session.Names

/-!
# Knots from raw lines

A knot that is added or replaced brings in raw lines, which are checked for names alone. All other knots keep
their names, regions, trees and identities, and the knot is found where it was put, as long as the lines
leave what stands behind them as it was (`Session.kept_of_raw`). Three things can go wrong, and no check is
made for any of them.

* A comment is open where the lines are put, or they leave one open: then headers behind are lost in it.
* The lines hold markers of regions: then knots behind are in another region. In front of an end marker this
  does no harm, since there the region ends anyway.
* The region to which a knot is added lacks its end marker: then its last line is no marker, but may be one of
  the last knot, which loses it to the knot that is added (`Session.not_kept_of_unclosed_region`).
-/

namespace StoryScript

open Text

namespace Session

variable {s t : Session} {name body : String} {region : Option String} {position : Option Position}

/-- Where a knot can be added: behind all lines if these leave no comment open, and in front of the end marker
of a region. -/
def HasEnd (d : Document) : Option String → Prop
  | none => Line.opensBlock false d.lines = false
  | some name => ∀ r ∈ d.regions.find? (·.name = name),
      ∃ l ∈ (Line.ofTexts d.lines)[r.lineEnd - 1]?, l.form = .regionEnd

instance (d : Document) : (region : Option String) → Decidable (HasEnd d region)
  | none => inferInstanceAs (Decidable (_ = _))
  | some name => inferInstanceAs (Decidable (∀ r ∈ d.regions.find? (·.name = name),
      ∃ l ∈ (Line.ofTexts d.lines)[r.lineEnd - 1]?, l.form = .regionEnd))

/-- A raw body that leaves no comment open and neither opens nor closes a region. -/
structure SelfContained (body : List String) : Prop where
  closed : Line.opensBlock false body = false
  unmarked : ∀ l ∈ Line.ofTexts body, l.form.isRegionMarker = false

theorem HasEnd.canAdd {d : Document} (h : HasEnd d region) : CanAdd d region := by
  cases region with
  | none => exact h
  | some name =>
    intro r hr
    obtain ⟨l, hl, hform⟩ := h r hr
    exact ⟨l, hl, by rw [hform]; rfl⟩

/-- The knots of a document that was read have the names of its headers. -/
theorem headersIn_lines {d : Document} (h : d.IsReading) :
    Line.headersIn d.lines = (d.knots.map Knot.names).map Prod.fst := by
  rw [h.names, Line.headersIn]

theorem not_mem_headersIn_of_findKnot? {d : Document} (h : d.IsReading)
    (hfree : d.findKnot? name = none) : name ∉ Line.headersIn d.lines := by
  rw [headersIn_lines h]
  exact mem_names_of_findKnot?.mp hfree

/-- Raw lines that pass the check have no header of a knot that is there. -/
theorem not_mem_headersIn_of_checkBody {d : Document} (h : d.IsReading) {taken ls : List String}
    (hcheck : checkBody name taken ls = .ok ()) (htaken : ∀ x ∈ d.knotNames, x ∈ taken) :
    ∀ x ∈ Line.headersIn ls, x ∉ Line.headersIn d.lines := by
  intro x hx hmem
  rw [headersIn_lines h] at hmem
  exact Line.not_mem_of_checkLines hcheck x hx (htaken x (mem_knotNames.mpr hmem))

theorem mem_headersIn_of_mem {d : Document} (h : d.IsReading) {k : Knot} (hk : k ∈ d.knots) :
    k.name ∈ Line.headersIn d.lines := by
  rw [headersIn_lines h, List.map_map]
  exact List.mem_map_of_mem hk

/-- Lines that begin with a header are written among the others: if the knots behind are read from the same
lines as before, the knots around are kept and that of the header is found between them. -/
theorem exists_kept_of_written (hreads : s.Reads) {front rest behind : List String} {header : String}
    {ks ls after : List Knot} (ms : List Knot)
    (hline : ∀ l ∈ front ++ header :: (rest ++ behind), '\n' ∉ l.toList)
    (hclear : Line.opensBlock false front = false)
    (hopens : (Line.ofText header).form = .knotHeader name)
    (hknots : s.document.knots = ks ++ ms ++ ls) (hfirst : ∀ x ∈ ks, x.name ≠ name)
    (hks : List.Forall₂ Knot.Alike (ScriptState.ahead s.supply front).knots.reverse ks)
    (hread : (ScriptState.ofLines s.supply (front ++ header :: rest ++ behind)).knots.reverse =
      (ScriptState.ahead s.supply (front ++ header :: rest)).knots.reverse ++ after)
    (hls : List.Forall₂ Knot.Alike after ls)
    (hcount : ∀ x ∈ ls, (Line.headersIn (header :: rest)).count x.name =
      (ms.map Knot.name).count x.name) :
    ∃ k more, (s.commitLines (front ++ header :: (rest ++ behind)) none).document.KeptAround ks
        (k :: more) ls ∧
      (s.commitLines (front ++ header :: (rest ++ behind)) none).document.findKnot? name = some k ∧
      k.region = (ScriptState.ahead s.supply front).region.map OpenRegion.name := by
  have hd := hreads.document
  obtain ⟨k, more, hadded, hkname, hkregion, hnames⟩ :=
    ScriptState.exists_ahead_header s.supply rest hclear hopens
  have hsplit : front ++ header :: (rest ++ behind) = front ++ header :: rest ++ behind := by simp
  have halike := Document.alike_knots_read s.supply hline
  rw [hsplit, hread, hadded, ← hsplit] at halike
  obtain ⟨mid, hkept, hmid⟩ := Document.exists_keptAround hknots hd.sameList_self halike hks hls
    fun x hx => by rw [hnames, hcount x hx]
  obtain ⟨k', more', hk', -, rfl⟩ := List.forall₂_cons_right_iff.mp hmid
  refine ⟨k', more', hkept, ?_, hk'.2.trans hkregion⟩
  -- in front of it there are only knots that were there, and none of these has its name
  obtain ⟨us, vs, hnew, hus, -⟩ := hkept
  rw [List.append_assoc, List.cons_append] at hnew
  have hname : k'.name = name := hk'.1.trans hkname
  have hfind := Document.findKnot?_eq_some hnew fun x hx hxname => by
    obtain ⟨y, hy, hxy⟩ := exists_kept_of_mem hus hx
    exact hfirst y hy (hxy.name.symm.trans (hxname.trans hname))
  rwa [hname] at hfind

/-! ### Knots that are added -/

/-- The knots in front of a knot that is added and those behind it: its lines part the knots of the script, and
those behind are read from the same lines as before. -/
theorem Gap.exists_knots {d : Document} {front behind mid : List String} (hd : d.IsReading)
    (hg : Gap d region front behind) (hend : HasEnd d region) (supply : Nat)
    (hclosed : region ≠ none → Line.opensBlock false mid = false)
    (hfresh : ∀ name ∈ Line.headersIn mid, name ∉ Line.headersIn d.lines) :
    ∃ ks ls after, d.knots = ks ++ ls ∧
      List.Forall₂ Knot.Alike (ScriptState.ahead supply front).knots.reverse ks ∧
      (ScriptState.ofLines supply (front ++ mid ++ behind)).knots.reverse =
        (ScriptState.ahead supply (front ++ mid)).knots.reverse ++ after ∧
      List.Forall₂ Knot.Alike after ls ∧
      ∀ r ∈ region, (ScriptState.ahead supply front).region.map OpenRegion.name = some r := by
  obtain ⟨hclear, hends, -, -⟩ := hg.names hend.canAdd
  have hall := hd.alike_knots supply
  cases hg with
  | @region name r hr =>
    obtain ⟨l, hl, hform⟩ := hend r hr
    obtain ⟨-, hhead⟩ := outside_of_endsKnot hl (by rw [hform]; rfl)
    set front := d.lines.take (r.lineEnd - 1) with hfront
    set behind := d.lines.drop (r.lineEnd - 1) with hbehind
    have hlines : d.lines = front ++ behind := (List.take_append_drop _ _).symm
    have hclear' : Line.opensBlock false (front ++ mid) = false := by
      rw [Line.opensBlock_append, hclear, hclosed (by simp)]
    obtain ⟨after, after', hafter, hafter', hlike⟩ := ScriptState.alike_knots_behind supply supply
      (fun _ => hclear) (fun _ => hclear') hends (fun p hp => Or.inl (by rw [hhead p hp, hform]))
      fun l hl name hname => by
        -- no name behind is among those of the new lines
        have hbehind : name ∈ Line.headersIn d.lines := by
          rw [hlines, Line.headersIn_append hclear]
          exact List.mem_append_right _ (Line.mem_headersIn.mpr ⟨l, hl, hname⟩)
        rw [ScriptState.mem_map_name_ahead, ScriptState.mem_map_name_ahead,
          Line.headersIn_append hclear, List.mem_append]
        exact ⟨Or.inl, fun h => h.resolve_right fun hmid => hfresh name hmid hbehind⟩
    rw [hlines, hafter] at hall
    refine ⟨_, _, after', (List.take_append_drop _ d.knots).symm,
      Knot.forall₂_alike_symm (List.forall₂_take_append _ _ _ (Knot.forall₂_alike_symm hall)), hafter',
      Knot.forall₂_alike_trans (Knot.forall₂_alike_symm hlike)
        (Knot.forall₂_alike_symm (List.forall₂_drop_append _ _ _ (Knot.forall₂_alike_symm hall))), ?_⟩
    intro name' hname'
    obtain rfl : name = name' := by simpa using hname'
    obtain ⟨supply', hregions⟩ := hd.regions
    have hmem := List.mem_of_find?_eq_some hr
    rw [hregions, List.mem_reverse] at hmem
    have hrname : r.name = name := by simpa using List.find?_some hr
    rw [(ScriptState.similar_ahead supply supply' front).region,
      ScriptState.region_ahead_of_mem hmem hl hform, hrname]
  | last =>
    obtain ⟨kept, gap, blanks, hfront, hlines, hclearKept, hgap, hblanks⟩ := Gap.last.exists_kept hend
    have hgapBlank : ∀ l ∈ gap, (Line.ofText l).form.isBlank = true := fun l hl => by
      rw [hgap l hl]
      rfl
    -- the blank lines at the end may go, and another one may come
    rw [hlines, ScriptState.knots_ofLines] at hall
    have hkeptKnots := ScriptState.alike_knots_append_blank supply hclearKept
      fun l hl => silent_of_isBlankLine (hblanks l hl)
    have hgapKnots := ScriptState.alike_knots_append_blank supply hclearKept hgapBlank
    rw [hfront]
    refine ⟨d.knots, [], [], (List.append_nil _).symm, ?_, ?_, .nil, by simp⟩
    · exact Knot.forall₂_alike_trans (List.rel_reverse (Knot.forall₂_alike_trans hgapKnots
        (Knot.forall₂_alike_symm hkeptKnots))) hall
    · rw [List.append_nil, List.append_nil, ScriptState.knots_ofLines]

/-- Adding a knot keeps all others, and the knot is found in its region. -/
theorem kept_of_addKnot (hreads : s.Reads) (hs : s.addKnot name body region position = .ok t)
    (hname : '\n' ∉ name.toList) (hend : HasEnd s.document region)
    (hclosed : region ≠ none → Line.opensBlock false (bodyLines body) = false) :
    ∃ ks k ls more, s.document.knots = ks ++ ls ∧ t.document.KeptAround ks (k :: more) ls ∧
      t.document.findKnot? name = some k ∧ ∀ r ∈ region, k.region = some r := by
  have hd := hreads.document
  obtain ⟨hcheckName, hfree, hcheck, front, behind, hgap, rfl⟩ := exists_of_addKnot hs
  obtain ⟨hclear, -, -, -⟩ := hgap.names hend.canAdd
  have hopens := Line.form_renderKnotHeader (isName_of_checkKnotName hcheckName hname)
  set rest := (position.map Position.comment).toList ++ bodyLines body ++ [""] with hrest
  have hsplit : front ++ (renderKnotHeader name :: (position.map Position.comment).toList ++
      bodyLines body) ++ "" :: behind = front ++ renderKnotHeader name :: (rest ++ behind) := by
    rw [hrest]
    simp
  have hheaders : Line.headersIn (renderKnotHeader name :: rest) =
      name :: Line.headersIn (bodyLines body) := by
    rw [Line.headersIn_cons hopens, Line.headersIn_raw (Line.silent_position position) (by simp)]
  -- no header of what is written names a knot that is there
  have hfresh : ∀ x ∈ Line.headersIn (renderKnotHeader name :: rest),
      x ∉ Line.headersIn s.document.lines := by
    rw [hheaders, List.forall_mem_cons]
    exact ⟨not_mem_headersIn_of_findKnot? hd hfree,
      not_mem_headersIn_of_checkBody hd hcheck fun x hx => List.mem_cons_of_mem _ hx⟩
  obtain ⟨ks, ls, after, hknots, hks, hread, hls, hregion⟩ := hgap.exists_knots hd hend s.supply
    (fun hne => Line.opensBlock_raw hopens (Line.silent_position position) (by simp) (hclosed hne)) hfresh
  -- the other knots are told by their names, of which none is written a second time
  obtain ⟨k, more, hkept, hfind, hkregion⟩ := exists_kept_of_written hreads []
    (hgap.line hend.canAdd hd hname position) hclear hopens (by simpa using hknots)
    (fun x hx => by
      have hmem := mem_headersIn_of_mem hd (k := x) (by simp [hknots, hx])
      rintro rfl
      exact not_mem_headersIn_of_findKnot? hd hfree hmem)
    hks hread hls fun x hx => by
      have hmem := mem_headersIn_of_mem hd (k := x) (by simp [hknots, hx])
      rw [List.count_eq_zero_of_not_mem fun h => hfresh _ h hmem, List.map_nil, List.count_nil]
  rw [hsplit]
  exact ⟨ks, k, ls, more, hknots, hkept, hfind, fun r hr => hkregion.trans (hregion r hr)⟩

/-! ### Knots that are written anew -/

/-- Behind a knot that is written anew the knots are read as before, if its lines leave no comment open, have
no marker of a region and bring in no name of a knot that is there. -/
theorem exists_knots_behind {d : Document} {k : Knot} {front old behind rest : List String}
    {header : String} {ks ls : List Knot} (hp : d.Placed k front header old behind ks ls) (supply : Nat)
    (hclosed : behind ≠ [] → Line.opensBlock false (header :: rest) = false)
    (hunmarked : behind ≠ [] → ∀ l ∈ Line.ofTexts (header :: rest), l.form.isRegionMarker = false)
    (hheaders : ∀ x ∈ Line.headersIn d.lines, (x ∈ Line.headersIn (header :: rest) ↔ x = k.name)) :
    ∃ after, (ScriptState.ofLines supply (front ++ header :: rest ++ behind)).knots.reverse =
        (ScriptState.ahead supply (front ++ header :: rest)).knots.reverse ++ after ∧
      List.Forall₂ Knot.Alike after ls := by
  obtain ⟨hclear, hopens, hinside, hclosedOld, hends⟩ := hp.around
  have holdHeaders : Line.headersIn (header :: old) = [k.name] := by
    rw [Line.headersIn_cons hopens, List.cons.injEq, List.eq_nil_iff_forall_not_mem]
    refine ⟨rfl, fun x hx => ?_⟩
    obtain ⟨l, hl, hform⟩ := Line.mem_headersIn.mp hx
    have hnone := hinside l hl
    simp [hform, LineForm.endsKnot] at hnone
  have hopen : ∀ {ls : List String}, Line.opensBlock false (header :: ls) = false →
      Line.opensBlock false (front ++ header :: ls) = false := fun h => by
    rw [Line.opensBlock_append, hclear, h]
  have hhead : ∀ p ∈ (header :: rest).head?, (Line.ofText p).form.endsKnot = true := by
    intro p hp
    obtain rfl : header = p := by simpa using hp
    rw [hopens]
    rfl
  -- behind the knot the same region is open as before, and no name behind is among the new ones
  have hclearOld : behind ≠ [] → Line.opensBlock false (front ++ header :: old) = false :=
    fun hne => hopen (by
      rw [Line.opensBlock_false_cons, decide_eq_false (by rw [hopens]; simp), hclosedOld hne])
  have hregion : ∀ p ∈ behind.head?, (Line.ofText p).form = .regionEnd ∨
      (ScriptState.ahead supply (front ++ header :: old)).region.map OpenRegion.name =
        (ScriptState.ahead supply (front ++ header :: rest)).region.map OpenRegion.name := by
    intro p hmem
    have hne : behind ≠ [] := by
      rintro rfl
      simp at hmem
    exact Or.inr ((ScriptState.region_ahead_around supply hp.around).trans
      (ScriptState.region_ahead_append supply hclear hhead (hunmarked hne)).symm)
  have hnames : ∀ l ∈ Line.ofTexts behind, ∀ x, l.form = .knotHeader x →
      (x ∈ (ScriptState.ahead supply (front ++ header :: old)).knots.map Knot.name ↔
        x ∈ (ScriptState.ahead supply (front ++ header :: rest)).knots.map Knot.name) := by
    intro l hl x hx
    have hbehind : x ∈ Line.headersIn d.lines := by
      rw [Line.mem_headersIn, hp.lines, hp.around.readFrom_eq]
      exact ⟨l, by simp [hl], hx⟩
    rw [ScriptState.mem_map_name_ahead, ScriptState.mem_map_name_ahead,
      Line.headersIn_append hclear, Line.headersIn_append hclear, holdHeaders, List.mem_append,
      List.mem_append, List.mem_singleton, hheaders x hbehind]
  obtain ⟨after, after', hafter, hafter', hlike⟩ := ScriptState.alike_knots_behind supply supply
    hclearOld (fun hne => hopen (hclosed hne)) hends hregion hnames
  -- the knots of the document are those that were read behind the old lines
  obtain ⟨after₀, hread, -, -, hls⟩ := hp.read supply
  have hsplit : front ++ header :: (old ++ behind) = front ++ header :: old ++ behind := by simp
  rw [hp.lines, hsplit, hafter, ScriptState.knots_ahead_around supply hp.around, List.reverse_cons,
    List.append_assoc, List.append_cancel_left_eq, List.singleton_append, List.cons.injEq] at hread
  obtain ⟨-, rfl⟩ := hread
  exact ⟨after', hafter', Knot.forall₂_alike_trans (Knot.forall₂_alike_symm hlike) hls⟩

/-- Writing a knot anew keeps all others, and the knot is found where it was. -/
theorem kept_of_replaceKnot (hreads : s.Reads) (hs : s.replaceKnot name body = .ok t)
    (hbody : ∀ k ∈ s.document.findKnot? name, k.lineEnd < s.document.lines.length →
      SelfContained (rawLines body)) :
    ∃ ks k ls k' more, s.document.knots = ks ++ k :: ls ∧ s.document.findKnot? name = some k ∧
      t.document.KeptAround ks (k' :: more) ls ∧ t.document.findKnot? name = some k' := by
  have hd := hreads.document
  obtain ⟨k, hk, hcheck, rfl⟩ := exists_of_replaceKnot hs
  have hfind := findKnot?_of_knot hk
  obtain rfl := Document.name_of_findKnot? hfind
  obtain ⟨front, header, old, behind, ks, ls, hp⟩ := hd.exists_placed hfind
  obtain ⟨blanks, hblanks, hsplice⟩ := hp.exists_spliceKnot
  have hopens := hp.around.opens
  have hposition := Line.silent_position k.position
  set rest := (k.position.map Position.comment).toList ++ rawLines body ++ blanks with hrest
  -- where nothing follows the knot, it does not matter how its body ends
  have hraw : behind ≠ [] → SelfContained (rawLines body) := by
    intro hne
    refine hbody k hfind ?_
    rw [hp.stands.lineEnd, hp.lines]
    have hlength := List.length_pos_iff.mpr hne
    simp only [List.length_append, List.length_cons]
    omega
  have hheaders : Line.headersIn (header :: rest) = k.name :: Line.headersIn (rawLines body) := by
    rw [Line.headersIn_cons hopens, Line.headersIn_raw hposition hblanks]
  have hfresh : ∀ x ∈ Line.headersIn s.document.lines, x ∉ Line.headersIn (rawLines body) :=
    fun x hx h => not_mem_headersIn_of_checkBody hd hcheck (fun _ hx => hx) x h hx
  obtain ⟨after, hread, hls⟩ := exists_knots_behind hp s.supply
    (fun hne => Line.opensBlock_raw hopens hposition hblanks (hraw hne).closed)
    (fun hne => Line.unmarked_raw hopens hposition hblanks (hraw hne).unmarked)
    fun x hx => by rw [hheaders, List.mem_cons, or_iff_left (hfresh x hx)]
  obtain ⟨-, -, hks, -, -⟩ := hp.read s.supply
  have hline : ∀ l ∈ front ++ header :: (rest ++ behind), '\n' ∉ l.toList := by
    refine hp.line hd ?_
    simp only [hrest, List.forall_mem_append]
    exact ⟨⟨newline_not_mem_position _, newline_not_mem_rawLines body⟩,
      fun l hl => by simp [hblanks l hl]⟩
  obtain ⟨k', more, hkept, hfound, -⟩ := exists_kept_of_written hreads [k] hline hp.around.clear hopens
    (by simpa using hp.knots) hp.first hks hread hls fun x hx => by
      have hmem := mem_headersIn_of_mem hd (k := x) (by simp [hp.knots, hx])
      rw [hheaders, List.count_cons, List.count_eq_zero_of_not_mem (hfresh _ hmem),
        List.map_singleton, List.count_singleton, Nat.zero_add]
  rw [List.cons_append, hsplice]
  exact ⟨ks, k, ls, k', more, hp.knots, hfind, hkept, hfound⟩

/-! ### Both -/

/-- **Raw bodies.** Adding a knot and writing one anew keep the name, region, tree and identities of every
other knot, and the knot is found where it was put, in the region that was named. A knot is added to a region
that ends with its end marker, or behind lines that leave no comment open; and if lines follow its own, a raw
body leaves no comment open and has no marker of a region. -/
theorem kept_of_raw (h : s.Reachable) :
    (∀ {name body : String} {region : Option String} {position : Option Position} {t : Session},
      s.addKnot name body region position = .ok t → '\n' ∉ name.toList → HasEnd s.document region →
      (region ≠ none → Line.opensBlock false (bodyLines body) = false) →
      ∃ ks k ls more, s.document.knots = ks ++ ls ∧ t.document.KeptAround ks (k :: more) ls ∧
        t.document.findKnot? name = some k ∧ ∀ r ∈ region, k.region = some r) ∧
    (∀ {name body : String} {t : Session}, s.replaceKnot name body = .ok t →
      (∀ k ∈ s.document.findKnot? name, k.lineEnd < s.document.lines.length →
        SelfContained (rawLines body)) →
      ∃ ks k ls k' more, s.document.knots = ks ++ k :: ls ∧ s.document.findKnot? name = some k ∧
        t.document.KeptAround ks (k' :: more) ls ∧ t.document.findKnot? name = some k') :=
  ⟨kept_of_addKnot h.reads, kept_of_replaceKnot h.reads⟩

/-- A knot is added to a region between two knots, and the first of these is written anew. -/
theorem kept_of_raw_village :
    let s := start 0
      "// <# StartRegion: village #>\n=== inn ===\nx\n// <# EndRegion #>\n=== road ===\n-> inn\n" none 4 200
    ∃ t u, s.addKnot "well" "deep" (some "village") none = .ok t ∧ s.replaceKnot "inn" "-> well" = .ok u ∧
      (∃ ks k ls more, s.document.knots = ks ++ ls ∧ t.document.KeptAround ks (k :: more) ls ∧
        t.document.findKnot? "well" = some k ∧ ∀ r ∈ some "village", k.region = some r) ∧
      ∃ ks k ls k' more, s.document.knots = ks ++ k :: ls ∧ s.document.findKnot? "inn" = some k ∧
        u.document.KeptAround ks (k' :: more) ls ∧ u.document.findKnot? "inn" = some k' := by
  intro s
  have hadds : (s.addKnot "well" "deep" (some "village") none).toOption.isSome = true := by
    decide +kernel
  have hwrites : (s.replaceKnot "inn" "-> well").toOption.isSome = true := by decide +kernel
  obtain ⟨t, ht⟩ := Option.isSome_iff_exists.mp hadds
  obtain ⟨u, hu⟩ := Option.isSome_iff_exists.mp hwrites
  have hbody : SelfContained (rawLines "-> well") := ⟨by decide +kernel, by decide +kernel⟩
  obtain ⟨hadd, hreplace⟩ := kept_of_raw (reachable_start 0 _ none 4 200 : s.Reachable)
  exact ⟨t, u, eq_ok_of_toOption ht, eq_ok_of_toOption hu,
    hadd (eq_ok_of_toOption ht) (by decide) (by decide +kernel) (fun _ => by decide +kernel),
    hreplace (eq_ok_of_toOption hu) fun _ _ _ => hbody⟩

/-- In a region without an end marker a knot is added in front of the last line, which here belongs to the
knot before and is lost to it. -/
theorem not_kept_of_unclosed_region :
    let s := start 0 "// <# StartRegion: r #>\n=== a ===\nx\ny" none 4 200
    s.Reachable ∧ ∃ t, s.addKnot "b" "z" (some "r") none = .ok t ∧
      ∃ k ∈ s.document.findKnot? "a", ∀ l ∈ t.document.findKnot? "a", l.items ≠ k.items := by
  intro s
  have hadds : (s.addKnot "b" "z" (some "r") none).toOption.any (fun t =>
      (s.document.findKnot? "a").map (·.items.length) = some 2 ∧
        (t.document.findKnot? "a").map (·.items.length) = some 1) = true := by decide +kernel
  obtain ⟨t, ht, hlengths⟩ := (Option.any_eq_true _ _).mp hadds
  obtain ⟨hbefore, hafter⟩ := of_decide_eq_true hlengths
  obtain ⟨k, hk, hlength⟩ := Option.map_eq_some_iff.mp hbefore
  refine ⟨reachable_start 0 _ none 4 200, t, eq_ok_of_toOption ht, k, hk, fun l hl hitems => ?_⟩
  rw [Option.mem_def.mp hl, Option.map_some, hitems, hlength] at hafter
  simp at hafter

end Session

end StoryScript
