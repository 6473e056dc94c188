import StoryScript.Proofs.Session.Reachable
import StoryScript.Proofs.Document.Identities

/-!
# A snapshot is the reading of its own text

A snapshot that an editor holds tells the same as its text read afresh (`Session.agrees_read_text`): the
same knots on the same lines, the same trees, and every node of them on the same lines. Nothing of an edit
stays in a snapshot that is not in its text.

That the trees agree follows from every snapshot being read (`Session.Reads`). That the lines of the nodes
agree as well needs a second invariant, since the lines of a node are looked up by its identity: in no knot
of a snapshot do two nodes share one (`Session.Numbered`). Commands keep it for as long as the identities
that are brought in from outside are fresh (`Session.Command.Fresh`).
-/

namespace StoryScript

open Text

/-! ### Agreement -/

/-- Knots that agree in all but the identities of their nodes and the spelling of their lines. -/
structure Knot.Agrees (k l : Knot) : Prop where
  name : k.name = l.name
  lineStart : k.lineStart = l.lineStart
  lineEnd : k.lineEnd = l.lineEnd
  position : k.position = l.position
  region : k.region = l.region
  duplicate : k.duplicate = l.duplicate
  items : Item.unlabelledIn k.items = Item.unlabelledIn l.items
  /-- The nodes, in document order, are found on the same lines. -/
  lines : (Item.idsIn k.items).map k.lineRange = (Item.idsIn l.items).map l.lineRange

/-- Documents that agree in all but identities and the spelling of their lines. -/
structure Document.Agrees (d e : Document) : Prop where
  preamble : d.preamble = e.preamble
  externals : d.externals = e.externals
  inclusions : d.inclusions = e.inclusions
  initialDivert : d.initialDivert = e.initialDivert
  startPosition : d.startPosition = e.startPosition
  endPosition : d.endPosition = e.endPosition
  regions : d.regions = e.regions
  issues : d.issues = e.issues
  knots : List.Forall₂ Knot.Agrees d.knots e.knots

theorem Knot.agrees_of_plain {k l : Knot} (h : k.plain = l.plain) (hk : (Item.idsIn k.items).Nodup)
    (hl : (Item.idsIn l.items).Nodup) : k.Agrees l := by
  have hstart : k.lineStart = l.lineStart := (congrArg Knot.lineStart h :)
  have hitems : Item.unlabelledIn k.items = Item.unlabelledIn l.items := (congrArg Knot.items h :)
  refine ⟨(congrArg Knot.name h :), hstart, (congrArg Knot.lineEnd h :),
    (congrArg Knot.position h :), (congrArg Knot.region h :), (congrArg Knot.duplicate h :), hitems, ?_⟩
  rw [map_lineRange_idsIn hk, map_lineRange_idsIn hl, map_linesFrom_congr hstart hitems]

theorem Document.agrees_of_plain {d e : Document} {supply supply' : Nat} (h : d.plain = e.plain)
    (hd : d.Numbered supply) (he : e.Numbered supply') : d.Agrees e := by
  have hknots : d.knots.map Knot.plain = e.knots.map Knot.plain := (congrArg Document.knots h :)
  -- the knots correspond one by one, and identities are unique in each of them
  have hforall : ∀ {ks ls : List Knot}, ks.map Knot.plain = ls.map Knot.plain →
      (∀ k ∈ ks, Item.Numbered supply k.items) → (∀ l ∈ ls, Item.Numbered supply' l.items) →
      List.Forall₂ Knot.Agrees ks ls := by
    intro ks
    induction ks with
    | nil =>
      intro ls hmap _ _
      obtain rfl := List.map_eq_nil_iff.mp hmap.symm
      exact .nil
    | cons k ks ih =>
      intro ls hmap hks hls
      cases ls with
      | nil => simp at hmap
      | cons l ls =>
        rw [List.map_cons, List.map_cons, List.cons.injEq] at hmap
        rw [List.forall_mem_cons] at hks hls
        exact .cons (Knot.agrees_of_plain hmap.1 hks.1.nodup hls.1.nodup)
          (ih hmap.2 hks.2 hls.2)
  exact ⟨(congrArg Document.preamble h :), (congrArg Document.externals h :),
    (congrArg Document.inclusions h :), (congrArg Document.initialDivert h :),
    (congrArg Document.startPosition h :), (congrArg Document.endPosition h :),
    (congrArg Document.regions h :), (congrArg Document.issues h :), hforall hknots hd he⟩

namespace Session

variable {s t : Session} {c : Command}

/-! ### Fresh identities -/

/-- The identities that a command brings in are fresh: no two nodes of the given item share one, those
that were drawn were handed out, and none stands in a knot already, unless in the item that is replaced. -/
def Command.Fresh (s : Session) : Command → Prop
  | .insert _ item _ => Item.Numbered s.supply [item] ∧
      ∀ k ∈ s.document.knots, ∀ i ∈ Item.idsIn [item], i ∉ Item.idsIn k.items
  | .replace _ id item => Item.Numbered s.supply [item.withId id] ∧
      ∀ k ∈ s.document.knots, ∀ found, Item.locate? k.items id = some found →
        ∀ i ∈ Item.idsIn [item.withId id], i ∈ Item.idsIn k.items → i ∈ Item.idsIn [found.item]
  | _ => True

/-- In no knot of a snapshot do two nodes share an identity. -/
def Numbered (s : Session) : Prop := s.Snapshots (Document.Numbered s.supply)

/-- The identities that a command brings into a tree. -/
def Command.won (s : Session) : Command → List Id
  | .insert _ item _ => Item.idsIn [item]
  | .replace _ id item => Item.idsIn [item.withId id]
  | .addStitch .. => [.fresh s.supply]
  | _ => []

/-- The identities that a command takes out of a tree. -/
def Command.lost (items : List Item) : Command → List Id
  | .replace _ id _ | .delete _ id => ((Item.locate? items id).map fun loc => Item.idsIn [loc.item]).getD []
  | _ => []

/-- A command makes a tree out of that of a knot, for the knot itself or under a new name. It has the same
identities but for those that are won and lost. -/
theorem Command.Yields.exists_knot {x : String × List Item} (h : c.Yields s x)
    (hs : s.document.Numbered s.supply) : ∃ name k, s.document.findKnot? name = some k ∧
      (x.1 = name ∨ c = .renameKnot name x.1 ∧ s.document.findKnot? x.1 = none) ∧
      (∀ n id item, c = .replace n id item →
        n = name ∧ ∃ found, Item.locate? k.items id = some found) ∧
      ∀ i, (Item.idsIn x.2).count i + (c.lost k.items).count i =
        (Item.idsIn k.items).count i + (c.won s).count i := by
  -- a node that is replaced or deleted is the only one of its identity, so what is lost with it can be counted
  have hnodup : ∀ {name : String} {k : Knot}, s.document.findKnot? name = some k →
      (Item.idsIn k.items).Nodup := fun hk => (hs _ (List.mem_of_find?_eq_some hk)).nodup
  cases h with
  | @insert name _ _ k items hk h =>
    exact ⟨name, k, hk, .inl rfl, by simp, fun i => Item.count_idsIn_insert h i⟩
  | @replace name id item k items hk h =>
    cases hfound : Item.locate? k.items id with
    | none => simp [Item.replace, hfound] at h
    | some found =>
      refine ⟨name, k, hk, .inl rfl, ?_, fun i => ?_⟩
      · rintro n id' item' heq
        obtain ⟨rfl, rfl, rfl⟩ : name = n ∧ id = id' ∧ item = item' := by simpa using heq
        exact ⟨rfl, found, hfound⟩
      · rw [Command.lost, hfound]
        exact Item.count_idsIn_replace (hnodup hk) hfound h i
  | @delete name id k items hk h =>
    cases hfound : Item.locate? k.items id with
    | none => simp [Item.delete, hfound] at h
    | some found =>
      refine ⟨name, k, hk, .inl rfl, by simp, fun i => ?_⟩
      rw [Command.lost, hfound]
      exact Item.count_idsIn_delete (hnodup hk) hfound h i
  | @move name _ _ k items hk h =>
    exact ⟨name, k, hk, .inl rfl, by simp, fun i => Item.count_idsIn_move (hnodup hk) h i⟩
  | @addStitch name _ _ _ k items hk h =>
    exact ⟨name, k, hk, .inl rfl, by simp, fun i => Item.count_idsIn_insert h i⟩
  | @renameKnot old _ k hk hnew => exact ⟨old, k, hk, .inr ⟨rfl, hnew⟩, by simp, fun i => rfl⟩

/-- What a command brings into a knot has no identity twice and none that was not handed out, and of the
identities that are there only such as are lost. -/
structure Command.Brings (s : Session) (c : Command) (k : Knot) (there : List Id) : Prop where
  won : ∀ i, (c.won s).count i ≤ Id.known (s.supply + c.draws) i
  lost : ∀ i ∈ c.won s, i ∈ there → i ∈ c.lost k.items

/-- The tree that a command makes, and all beside the one it comes from, have no identity twice. -/
theorem Command.Brings.count_le {x : String × List Item} {k : Knot} {there : List Id}
    (h : c.Brings s k there) (rest : List Id) (hcount : ∀ i, (Item.idsIn x.2).count i + (c.lost k.items).count i =
      (Item.idsIn k.items).count i + (c.won s).count i)
    (hthere : ∀ i, there.count i = (Item.idsIn k.items).count i + rest.count i)
    (hknown : ∀ i, there.count i ≤ Id.known s.supply i) (i : Id) :
    (Item.idsIn x.2).count i + rest.count i ≤ Id.known (s.supply + c.draws) i := by
  have htree := hcount i
  have hsum := hthere i
  have hold := hknown i
  have hwon := h.won i
  have hmono := Id.known_mono (Nat.le_add_right s.supply c.draws) i
  have hone := Id.known_le_one (s.supply + c.draws) i
  by_cases hi : i ∈ c.won s
  · by_cases hiold : i ∈ there
    · have hpos := List.count_pos_iff.mpr (h.lost i hi hiold)
      omega
    · have hnone := List.count_eq_zero_of_not_mem hiold
      omega
  · have hnone := List.count_eq_zero_of_not_mem hi
    omega

/-- An identity that is drawn next is not there yet. -/
theorem fresh_not_mem {there : List Id} (h : ∀ i, there.count i ≤ Id.known s.supply i) :
    Id.fresh s.supply ∉ there := by
  intro hmem
  have hpos := List.count_pos_iff.mpr hmem
  have hle := h (.fresh s.supply)
  rw [Id.known, if_neg (Nat.lt_irrefl _)] at hle
  omega

theorem count_fresh_le (s : Session) (i : Id) :
    [Id.fresh s.supply].count i ≤ Id.known (s.supply + 1) i := by
  have hdrawn := Id.known_add_drawn (Nat.le_add_right s.supply 1) i
  rw [Id.drawn_succ] at hdrawn
  omega

/-- Fresh identities are told from those of the knot. -/
theorem Command.Fresh.brings (hfresh : c.Fresh s) (hs : s.Numbered) {k : Knot}
    (hk : k ∈ s.document.knots)
    (hfound : ∀ n id item, c = .replace n id item → ∃ found, Item.locate? k.items id = some found) :
    c.Brings s k (Item.idsIn k.items) := by
  cases c with
  | insert name item caret =>
    obtain ⟨hitem, hunused⟩ := hfresh
    exact ⟨hitem, fun i hi hiold => absurd hiold (hunused k hk i hi)⟩
  | replace name id item =>
    obtain ⟨hitem, hunused⟩ := hfresh
    obtain ⟨found, hfound⟩ := hfound name id item rfl
    refine ⟨hitem, fun i hi hiold => ?_⟩
    rw [Command.lost, hfound]
    exact hunused k hk found hfound i hi hiold
  | addStitch name stitch caret =>
    refine ⟨count_fresh_le s, fun i hi hiold => ?_⟩
    obtain rfl : i = .fresh s.supply := List.mem_singleton.mp hi
    exact absurd hiold (fresh_not_mem (hs.document k hk))
  | _ => exact ⟨fun _ => Nat.zero_le _, by simp [Command.won]⟩

/-- What a command aligns a knot with has no identity twice. -/
theorem Command.Yields.numbered {x : String × List Item} (h : c.Yields s x) (hfresh : c.Fresh s)
    (hs : s.Numbered) : Item.Numbered (s.supply + c.draws) x.2 := by
  obtain ⟨name, k, hk, -, hfound, hcount⟩ := h.exists_knot hs.document
  have hmem := List.mem_of_find?_eq_some hk
  have hbrings := hfresh.brings hs hmem fun n id item hc => (hfound n id item hc).2
  exact fun i => hbrings.count_le [] hcount (fun _ => rfl) (hs.document k hmem) i

/-! ### Commands keep identities apart -/

/-- A command with fresh identities keeps the identities of every knot apart. -/
theorem Numbered.perform (hs : s.Numbered) (hfresh : c.Fresh s) (h : c.perform? s = some t) :
    t.Numbered := by
  cases outcome_of_perform? h with
  | rereads text r hr =>
    have hdrawn : s.Snapshots (Document.Numbered (s.supply + c.draws)) :=
      hs.imp fun d hd => hd.mono (Nat.le_add_right _ _)
    have hread : Document.Numbered (Document.read (s.supply + c.draws) text).2
        ((Document.read (s.supply + c.draws) text).1.carry s.document r) :=
      hdrawn.document.carry (fun x hx => (hr x hx).numbered hfresh hs) text
    have hold := hdrawn.imp fun d hd =>
      hd.mono (Document.le_supply_read (s.supply + c.draws) text)
    exact Snapshots.reread (s := { s with supply := s.supply + c.draws })
      ⟨hold.document, hold.past, hold.future⟩ hread
  | undoes h =>
    rw [Numbered, supply_of_undo? h]
    exact Snapshots.undo hs h
  | redoes h =>
    rw [Numbered, supply_of_redo? h]
    exact Snapshots.redo hs h
  | saves _ path savedText => exact ⟨hs.document, hs.past, hs.future⟩

theorem numbered_start (supply : Nat) (text : String) (path : Option Path)
    (indent historyLimit : Nat) : (start supply text path indent historyLimit).Numbered :=
  Snapshots.start (Document.numbered_read supply text) path indent historyLimit

/-! ### Reading a snapshot's text -/

/-- Whatever commands have been given since a text was opened, the snapshot agrees with its own text read
afresh, provided that items are brought in with fresh identities. -/
theorem agrees_read_text {supply : Nat} {text : String} {path : Option Path} {indent historyLimit : Nat}
    (h : ReachableBy (fun s c => c.Fresh s) (start supply text path indent historyLimit) s)
    (supply' : Nat) : (Document.read supply' s.document.text).1.Agrees s.document := by
  have hnumbered : s.Numbered :=
    h.induction (numbered_start ..) fun hs hfresh hstep => hs.perform hfresh hstep
  have hreachable : s.Reachable :=
    ⟨supply, text, path, indent, historyLimit, h.mono fun _ _ _ => trivial⟩
  obtain ⟨first, text', hread⟩ := hreachable.reads.document
  exact Document.agrees_of_plain (Document.plain_read_text hread supply')
    (Document.numbered_read supply' s.document.text) hnumbered.document

/-- A text is put into a choice that holds a divert. -/
theorem agrees_read_text_market :
    let s := start 0 "=== market ===\n* buy\n    -> b\n=== b ===\nbye\n" none 4 200
    let c := Command.insert "market" (.leaf ⟨.named "price", none⟩ (.text "too dear"))
      ⟨some (.fresh 0), -1⟩
    ∃ t, c.perform? s = some t ∧ c.Fresh s ∧
      (Document.read 7 t.document.text).1.Agrees t.document := by
  intro s c
  have hcheck : (c.perform? s).isSome = true ∧ s.document.knots.all (fun k =>
      !(Item.idsIn k.items).contains (.named "price")) = true := by decide +kernel
  obtain ⟨t, ht⟩ := Option.isSome_iff_exists.mp hcheck.1
  have hfresh : c.Fresh s := by
    refine ⟨Item.numbered_iff.mpr ⟨by simp, by simp⟩, fun k hk i hi => ?_⟩
    obtain rfl : i = .named "price" := by simpa using hi
    simpa using List.all_eq_true.mp hcheck.2 k hk
  exact ⟨t, ht, hfresh, agrees_read_text (.step .refl hfresh ht) 7⟩

end Session

end StoryScript
