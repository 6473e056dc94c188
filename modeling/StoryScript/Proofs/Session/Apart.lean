import StoryScript.Proofs.Document.Apart
import StoryScript.Proofs.Session.Names
import StoryScript.Proofs.Session.Snapshot

/-!
# Identities across the knots of a session

Throughout a session no two nodes of the script share an identity, whichever knots they stand in
(`Session.nodup_ids_of_reachableBy`). What a command brings in from outside must be apart from all that is
there (`Session.Command.Apart`).

The tree that an edit makes takes the place of the tree it was made from (`Session.Command.Yields.exists_split`),
so the trees that the new knots are aligned with have together no identity twice, and none of them serves two
knots. A renamed knot is aligned with its own tree under its new name. That tree would serve a second knot if
one of the former name were left, which then counts as the first of that name: so only a knot whose name no
other knot bears may be renamed. Where another does, both get the same identities
(`Session.not_nodup_ids_of_duplicate`).
-/

namespace StoryScript

open Text

/-- No two nodes of a list of knots share an identity, and every identity that was drawn was handed out before
the supply came to `supply`. -/
def Knot.Apart (supply : Nat) (ks : List Knot) : Prop :=
  ∀ i, (Knot.idsIn ks).count i ≤ Id.known supply i

namespace Knot

variable {supply supply' : Nat} {ks : List Knot}

theorem Apart.nodup (h : Knot.Apart supply ks) : (idsIn ks).Nodup :=
  List.nodup_iff_count_le_one.mpr fun i => Nat.le_trans (h i) (Id.known_le_one supply i)

theorem Apart.mono (h : Knot.Apart supply ks) (hle : supply ≤ supply') : Knot.Apart supply' ks :=
  fun i => Nat.le_trans (h i) (Id.known_mono hle i)

theorem Apart.numbered (h : Knot.Apart supply ks) {k : Knot} (hk : k ∈ ks) :
    Item.Numbered supply k.items :=
  fun i => Nat.le_trans (count_idsIn_le hk i) (h i)

end Knot

/-! ### Names of documents that were read -/

namespace Document

theorem map_name_carry (new old : Document) (c : Counterpart) :
    (new.carry old c).knots.map Knot.name = new.knots.map Knot.name := by
  have hnames := congrArg (List.map Knot.name) (map_unlabelled_carry new old c)
  rw [List.map_map, List.map_map] at hnames
  exact hnames

theorem IsReading.isName {d : Document} (h : d.IsReading) {k : Knot} (hk : k ∈ d.knots) :
    IsName k.name.toList := by
  have hfound : (d.findKnot? k.name).isSome = true :=
    List.find?_isSome.mpr ⟨k, hk, by simp⟩
  obtain ⟨first, hfirst⟩ := Option.isSome_iff_exists.mp hfound
  obtain ⟨front, header, body, behind, ks, ls, hp⟩ := h.exists_placed hfirst
  have hheader : '\n' ∉ header.toList := h.line header (by simp [hp.lines])
  rw [← name_of_findKnot? hfirst]
  exact Line.isName_of_header hheader hp.around.opens

theorem exists_split_of_findKnot? {d : Document} {name : String} {k : Knot}
    (h : d.findKnot? name = some k) :
    ∃ ks ls, d.knots = ks ++ k :: ls ∧ ∀ x ∈ ks, x.name ≠ k.name := by
  obtain ⟨-, ks, ls, hknots, hfirst⟩ := List.find?_eq_some_iff_append.mp h
  refine ⟨ks, ls, hknots, fun x hx => ?_⟩
  rw [name_of_findKnot? h]
  simpa using hfirst x hx

end Document

theorem exists_of_mem_occurrences {ks : List Knot} {o : String × Nat} (h : o ∈ occurrences ks) :
    ∃ k ∈ ks, k.name = o.1 := by
  obtain ⟨x, hx, rfl⟩ := List.mem_map.mp h
  exact ⟨x.1, Document.mem_of_mem_withOccurrence hx, rfl⟩

namespace Session

variable {s t : Session} {c : Command}

/-! ### Commands -/

/-- What a command brings in is apart from all that is there: no two nodes of a given item share an identity,
those that were drawn were handed out, and none stands in the script already, unless in the item that is
replaced. A knot that is renamed has its name alone. -/
def Command.Apart (s : Session) : Command → Prop
  | .insert _ item _ => Item.Numbered s.supply [item] ∧ ∀ i ∈ Item.idsIn [item], i ∉ s.document.ids
  | .replace name id item => Item.Numbered s.supply [item.withId id] ∧
      ∀ k ∈ s.document.findKnot? name, ∀ found, Item.locate? k.items id = some found →
        ∀ i ∈ Item.idsIn [item.withId id], i ∈ s.document.ids → i ∈ Item.idsIn [found.item]
  | .renameKnot old _ => (s.document.knots.map Knot.name).count old ≤ 1
  | _ => True

/-- No two nodes of a snapshot share an identity. -/
def Apart (s : Session) : Prop := s.Snapshots fun d => Knot.Apart s.supply d.knots

/-- What a command brings in is told from all identities of the script. -/
theorem Command.Apart.brings (hapart : c.Apart s) (hs : Knot.Apart s.supply s.document.knots)
    {name : String} {k : Knot} (hk : s.document.findKnot? name = some k)
    (hfound : ∀ n id item, c = .replace n id item →
      n = name ∧ ∃ found, Item.locate? k.items id = some found) : c.Brings s k s.document.ids := by
  cases c with
  | insert _ item caret =>
    obtain ⟨hitem, hunused⟩ := hapart
    exact ⟨hitem, fun i hi hiold => absurd hiold (hunused i hi)⟩
  | replace n id item =>
    obtain ⟨hitem, hunused⟩ := hapart
    obtain ⟨rfl, found, hfound⟩ := hfound n id item rfl
    refine ⟨hitem, fun i hi hiold => ?_⟩
    rw [Command.lost, hfound]
    exact hunused k hk found hfound i hi hiold
  | addStitch _ stitch caret =>
    refine ⟨count_fresh_le s, fun i hi hiold => ?_⟩
    obtain rfl : i = .fresh s.supply := List.mem_singleton.mp hi
    exact absurd hiold (fresh_not_mem hs)
  | _ => exact ⟨fun _ => Nat.zero_le _, by simp [Command.won]⟩

/-- The tree that a command aligns a knot with takes the place of the one it comes from, and no identity is
then there twice. -/
theorem Command.Yields.exists_split {x : String × List Item} (h : c.Yields s x) (hc : c.Apart s)
    (hs : Knot.Apart s.supply s.document.knots) : ∃ ks k ls, s.document.knots = ks ++ k :: ls ∧
      (∀ y ∈ ks, y.name ≠ k.name) ∧
      (x.1 = k.name ∨ c = .renameKnot k.name x.1 ∧ s.document.findKnot? x.1 = none) ∧
      Knot.Apart (s.supply + c.draws) (ks ++ { k with name := x.1, items := x.2 } :: ls) := by
  obtain ⟨name, k, hk, hname, hfound, hcount⟩ := h.exists_knot fun k hk => hs.numbered hk
  obtain rfl := Document.name_of_findKnot? hk
  obtain ⟨ks, ls, hknots, hfirst⟩ := Document.exists_split_of_findKnot? hk
  refine ⟨ks, k, ls, hknots, hfirst, hname, fun i => ?_⟩
  -- the script is cut into the knot and all beside it
  have hwhole : ∀ i, s.document.ids.count i =
      (Item.idsIn k.items).count i + (Knot.idsIn (ks ++ ls)).count i := by
    intro i
    rw [Document.ids, hknots]
    simp only [Knot.idsIn_append, Knot.idsIn_cons, List.count_append]
    omega
  have hle := (hc.brings hs hk hfound).count_le _ hcount hwhole hs i
  rw [Knot.idsIn_append, List.count_append] at hle
  rw [Knot.idsIn_append, Knot.idsIn_cons, List.count_append, List.count_append]
  change _ + ((Item.idsIn x.2).count i + _) ≤ _
  omega

/-! ### Knots that are renamed -/

/-- A knot whose name no other bears leaves no knot of that name when it is renamed, or else none has got the
new one: a name that ends in a line feed is never read. -/
theorem not_mem_names_of_renameKnot (hreads : s.Reads) {old new : String}
    (h : s.renameKnot old new = .ok (some t)) (hone : (s.document.knots.map Knot.name).count old ≤ 1) :
    (∀ k ∈ t.document.knots, k.name ≠ old) ∨ ∀ k ∈ t.document.knots, k.name ≠ new := by
  obtain ⟨k, hk, -, hfree, ht⟩ := exists_of_renameKnot h
  have hreading : t.document.IsReading := by
    rw [ht]
    exact isReading_read s _ _
  -- a new name with a line feed is no name any more when the script is read again
  by_cases hline : '\n' ∈ new.toList
  · refine Or.inr fun l hl hname => ?_
    have hisName := hreading.isName hl
    rw [hname] at hisName
    exact hisName.not_mem (by decide) hline
  · obtain ⟨xs, stitches, ys, hbefore, hafter⟩ := names_renameKnot hreads h hline
    have hfst : ∀ d : Document, d.knots.map Knot.name = (d.knots.map Knot.names).map Prod.fst := by
      intro d
      rw [List.map_map]
      rfl
    have hne : old ≠ new := by
      rintro rfl
      rw [findKnot?_of_knot hk] at hfree
      exact Option.some_ne_none k hfree
    rw [hfst, hbefore, List.map_append, List.map_cons, List.count_append, List.count_cons_self] at hone
    have hnone : (t.document.knots.map Knot.name).count old = 0 := by
      rw [hfst, hafter, List.map_append, List.map_cons, List.count_append,
        List.count_cons_of_ne hne.symm]
      omega
    refine Or.inl fun l hl hname => ?_
    exact List.count_eq_zero.mp hnone (hname ▸ List.mem_map_of_mem hl)

/-- No other knot has the name of such a knot, nor a name that is free. -/
theorem names_ne_of_count_le {d : Document} {ks ls : List Knot} {k : Knot} {new : String}
    (hknots : d.knots = ks ++ k :: ls) (hone : (d.knots.map Knot.name).count k.name ≤ 1)
    (hfree : d.findKnot? new = none) : ∀ y ∈ ks ++ ls, y.name ≠ k.name ∧ y.name ≠ new := by
  intro y hy
  have hmem : y ∈ d.knots := by
    rw [hknots]
    rcases List.mem_append.mp hy with hy | hy
    · exact List.mem_append_left _ hy
    · exact List.mem_append_right _ (List.mem_cons_of_mem _ hy)
  refine ⟨fun hname => ?_, fun hname => ?_⟩
  · have hpos : 0 < ((ks ++ ls).map Knot.name).count k.name :=
      List.count_pos_iff.mpr (hname ▸ List.mem_map_of_mem hy)
    rw [hknots, List.map_append, List.map_cons, List.count_append, List.count_cons_self] at hone
    rw [List.map_append, List.count_append] at hpos
    omega
  · have hnone := List.find?_eq_none.mp hfree y hmem
    simp [hname] at hnone

/-! ### Runs -/

/-- What is read and aligned with knots that are apart is apart again. -/
theorem Apart.reread (hs : s.Apart) {text : String} {r : Document.Counterpart} (es : List Knot)
    (hes : Knot.Apart s.supply es) (hreference : ∀ o ∈ occurrences (s.read text r).1.knots,
      s.document.reference? r o.1 o.2 = (atOccurrence? es o).map fun x => x.1.items) :
    (s.reread text r).Apart := by
  have hle := Document.le_supply_read s.supply text
  have hnames : occurrences (s.read text r).1.knots =
      occurrences (Document.read s.supply text).1.knots :=
    occurrences_congr (Document.map_name_carry _ _ _)
  rw [hnames] at hreference
  have hnew : Knot.Apart (Document.read s.supply text).2 (s.read text r).1.knots := by
    intro i
    have hcount := Document.count_ids_carry_le es hreference i
    have hold := hes i
    have hdrawn := Document.count_ids_read_le s.supply text i
    have hsum := Id.known_add_drawn hle i
    change (Knot.idsIn (s.read text r).1.knots).count i ≤ _ at hcount
    omega
  have hold : s.Snapshots fun d => Knot.Apart (Document.read s.supply text).2 d.knots :=
    hs.imp fun d hd => hd.mono hle
  exact hold.reread hnew

/-- A command that brings in nothing that is there keeps the identities of the whole script apart. -/
theorem Apart.perform (hreads : s.Reads) (hs : s.Apart) (hc : c.Apart s) (h : c.perform? s = some t) :
    t.Apart := by
  cases outcome_of_perform? h with
  | rereads text r hr =>
    have hdrawn : ({ s with supply := s.supply + c.draws } : Session).Apart := by
      have hmono : s.Snapshots fun d => Knot.Apart (s.supply + c.draws) d.knots :=
        hs.imp fun d hd => hd.mono (Nat.le_add_right _ _)
      exact ⟨hmono.document, hmono.past, hmono.future⟩
    cases r with
    | none =>
      exact hdrawn.reread s.document.knots hdrawn.document fun o _ => s.document.reference?_none o
    | some x =>
      obtain ⟨ks, k, ls, hknots, hfirst, hname, hes⟩ := (hr x rfl).exists_split hc hs.document
      rcases hname with hname | ⟨rfl, hnew⟩
      -- the knot keeps its name, so its new items take the place of the old ones
      · refine hdrawn.reread _ hes fun o _ => ?_
        exact Document.reference?_exchange { k with name := x.1, items := x.2 } hknots
          (fun y hy => ⟨hfirst y hy, fun h => hfirst y hy (h.trans hname)⟩)
          (fun hne => absurd hname.symm hne) fun hne => absurd hname.symm hne
      -- a knot that is renamed is compared with the one of its old name or with none
      · have hrename := eq_ok_of_toOption (Option.join_eq_some_iff.mp h)
        rcases not_mem_names_of_renameKnot hreads hrename hc with hold | hfree
        · refine hdrawn.reread _ hes fun o ho => ?_
          have hothers := names_ne_of_count_le hknots hc hnew
          obtain ⟨l, hl, hlo⟩ := exists_of_mem_occurrences ho
          exact Document.reference?_exchange { k with name := x.1, items := x.2 } hknots
            (fun y hy => hothers y (List.mem_append_left _ hy))
            (fun _ y hy => hothers y (List.mem_append_right _ hy)) fun _ hko => hold l hl (hlo.trans hko)
        · refine hdrawn.reread s.document.knots hdrawn.document fun o ho => ?_
          obtain ⟨l, hl, hlo⟩ := exists_of_mem_occurrences ho
          exact s.document.reference?_of_ne fun hxo => hfree l hl (hlo.trans hxo.symm)
  | undoes h =>
    rw [Apart, supply_of_undo? h]
    exact Snapshots.undo hs h
  | redoes h =>
    rw [Apart, supply_of_redo? h]
    exact Snapshots.redo hs h
  | saves _ path savedText => exact ⟨hs.document, hs.past, hs.future⟩

theorem apart_start (supply : Nat) (text : String) (path : Option Path) (indent historyLimit : Nat) :
    (start supply text path indent historyLimit).Apart :=
  Snapshots.start (P := fun d => Knot.Apart (Document.read supply text).2 d.knots)
    (fun i => Nat.le_trans (Document.count_ids_read_le supply text i) (Id.drawn_le_known _ _ i))
    path indent historyLimit

/-- **Unique identities.** Whatever commands have been given since a text was opened, no two items or branches
of the script share an identity, provided that items are brought in with identities of their own and that a
knot is renamed only while it has its name alone. -/
theorem nodup_ids_of_reachableBy {supply : Nat} {text : String} {path : Option Path}
    {indent historyLimit : Nat}
    (h : ReachableBy (fun s c => c.Apart s) (start supply text path indent historyLimit) s) :
    s.document.ids.Nodup := by
  have hall := h.induction (I := fun t => t.Reads ∧ t.Apart)
    ⟨Snapshots.start (Document.isReading_read supply text) path indent historyLimit, apart_start ..⟩
    fun hinv hc hs => ⟨hinv.1.perform hs, hinv.2.perform hinv.1 hc hs⟩
  exact hall.2.document.nodup

/-- An item is put into the first of two knots of one name, and the third knot is renamed. -/
theorem nodup_ids_of_reachableBy_fair :
    let s := start 0 "=== b ===\nbye\n=== b ===\n* buy\n    -> market\n=== market ===\nx\n" none 4 200
    ∃ t u, (Command.insert "b" (.leaf ⟨.named "price", none⟩ (.text "too dear")) ⟨none, 0⟩).perform? s =
        some t ∧ (Command.renameKnot "market" "fair").perform? t = some u ∧
      ReachableBy (fun s c => c.Apart s) s u ∧ u.document.ids.Nodup := by
  intro s
  have hok : (((Command.insert "b" (.leaf ⟨.named "price", none⟩ (.text "too dear"))
      ⟨none, 0⟩).perform? s).bind fun t => ((Command.renameKnot "market" "fair").perform? t).filter
        fun _ => (t.document.knots.map Knot.name).count "market" ≤ 1).isSome = true := by
    decide +kernel
  obtain ⟨u, hbind⟩ := Option.isSome_iff_exists.mp hok
  obtain ⟨t, ht, hu⟩ := Option.bind_eq_some_iff.mp hbind
  obtain ⟨hu, hone⟩ := Option.filter_eq_some_iff.mp hu
  have hprice : s.document.ids.contains (.named "price") = false := by decide +kernel
  have hinserted : Command.Apart s (.insert "b" (.leaf ⟨.named "price", none⟩ (.text "too dear"))
      ⟨none, 0⟩) := by
    refine ⟨Item.numbered_iff.mpr ⟨by simp, by simp⟩, fun i hi => ?_⟩
    obtain rfl : i = .named "price" := by simpa using hi
    simpa using hprice
  have hrenamed : Command.Apart t (.renameKnot "market" "fair") :=
    show (t.document.knots.map Knot.name).count "market" ≤ 1 from of_decide_eq_true hone
  have hreach : ReachableBy (fun s c => c.Apart s) s u := .step (.step .refl hinserted ht) hrenamed hu
  exact ⟨t, u, ht, hu, hreach, nodup_ids_of_reachableBy hreach⟩

/-- When the first of two knots of one name is renamed, the second is aligned with the tree of the first: both
have its identities afterwards, although nothing was brought in. -/
theorem not_nodup_ids_of_duplicate :
    let s := start 0 "=== a ===\nx\n=== a ===\nx\n" none 4 200
    s.document.ids.Nodup ∧ ∃ t, (Command.renameKnot "a" "b").perform? s = some t ∧
      ¬ t.document.ids.Nodup := by
  intro s
  have hstart : s.document.ids.Nodup := by decide +kernel
  have hperformed : ((Command.renameKnot "a" "b").perform? s).any
      (fun t => ¬ t.document.ids.Nodup) = true := by decide +kernel
  obtain ⟨t, ht, hnodup⟩ := (Option.any_eq_true _ _).mp hperformed
  exact ⟨hstart, t, ht, of_decide_eq_true hnodup⟩

end Session

end StoryScript
