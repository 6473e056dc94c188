import StoryScript.Document.Basic

/-!
# The divert graph

Which knots of a document lead to which. A link goes from the knot a divert stands in, or from the
start of the story, to the knot the divert resolves to; a jump to a stitch of the same knot is no
link. Each link is entered into three tables (`DivertGraph.record`), and what the graph is asked is
looked up in one of them:

* `Document.resolve?` — the knot and the stitch that a target means;
* `Document.graph` — the tables of a document, filled divert by divert;
* `Document.targetsOf` and `Document.sourcesOf` — the neighbours of a knot;
* `Document.incoming` — the diverts that lead to a knot;
* `Document.root?` — the knot in which the story starts.

The tables agree because they are those of one list of links (`Document.records_graph`).
-/

namespace StoryScript

/-- The source of the link that the initial divert makes. -/
def startNode : String := "START"

/-- A divert that leads to a knot. -/
structure Link where
  source : String
  target : String
  ref : DivertRef
  deriving DecidableEq

/-! ### Tables -/

/-- A table of lists under names. A name that was never entered has the empty list. -/
abbrev NameTable (α : Type) : Type := List (String × List α)

namespace NameTable

variable {α : Type}

/-- The list under a name. -/
def get (t : NameTable α) (name : String) : List α := (List.lookup name t).getD []

/-- Change the list under a name; the name is entered if it is not there. -/
def modify (name : String) (f : List α → List α) : NameTable α → NameTable α
  | [] => [(name, f [])]
  | (other, xs) :: t =>
    if name = other then (other, f xs) :: t else (other, xs) :: modify name f t

theorem get_nil (name : String) : get ([] : NameTable α) name = [] := rfl

theorem get_cons (name other : String) (xs : List α) (t : NameTable α) :
    get ((other, xs) :: t) name = if name = other then xs else t.get name := by
  rw [get, List.lookup_cons]
  by_cases h : name = other
  · rw [if_pos h, beq_iff_eq.mpr h]
    rfl
  · rw [if_neg h, beq_false_of_ne h]
    rfl

/-- A change is seen under its name and nowhere else. -/
theorem get_modify (t : NameTable α) (name : String) (f : List α → List α) (a : String) :
    (t.modify name f).get a = if a = name then f (t.get name) else t.get a := by
  induction t with
  | nil => rw [modify, get_cons, get_nil, get_nil]
  | cons entry t ih =>
    obtain ⟨other, xs⟩ := entry
    rw [modify]
    by_cases hname : name = other
    · subst hname
      rw [if_pos rfl, get_cons, get_cons, get_cons, if_pos rfl]
      split <;> rfl
    · rw [if_neg hname, get_cons, ih, get_cons, get_cons, if_neg hname]
      by_cases ha : a = other
      · rw [if_pos ha, if_neg fun h => hname (h.symm.trans ha), if_pos ha]
      · rw [if_neg ha, if_neg ha]

end NameTable

/-- The tables of a graph. -/
structure DivertGraph where
  /-- The names that links lead to from a name, each once. -/
  edges : NameTable String := []
  /-- The names that links lead to a name from, each once. -/
  reverseEdges : NameTable String := []
  /-- The diverts that lead to a name, each with its source. -/
  incomingRefs : NameTable (String × DivertRef) := []

namespace DivertGraph

/-- Enter a link into all three tables. -/
def record (g : DivertGraph) (l : Link) : DivertGraph where
  edges := g.edges.modify l.source (List.insert l.target)
  reverseEdges := g.reverseEdges.modify l.target (List.insert l.source)
  incomingRefs := g.incomingRefs.modify l.target (· ++ [(l.source, l.ref)])

/-- Enter what a divert makes, which may be no link. -/
def note (g : DivertGraph) : Option Link → DivertGraph
  | none => g
  | some l => g.record l

/-- The tables are those of a list of links. -/
structure Records (g : DivertGraph) (ls : List Link) : Prop where
  mem_edges : ∀ {a b}, b ∈ g.edges.get a ↔ ∃ r, ⟨a, b, r⟩ ∈ ls
  mem_reverseEdges : ∀ {a b}, a ∈ g.reverseEdges.get b ↔ ∃ r, ⟨a, b, r⟩ ∈ ls
  incomingRefs : ∀ b, g.incomingRefs.get b =
    (ls.filter (·.target = b)).map fun l => (l.source, l.ref)
  nodup_edges : ∀ a, (g.edges.get a).Nodup

theorem records_nil : Records {} [] where
  mem_edges := by simp [NameTable.get_nil]
  mem_reverseEdges := by simp [NameTable.get_nil]
  incomingRefs := fun _ => rfl
  nodup_edges := fun _ => List.nodup_nil

namespace Records

variable {g : DivertGraph} {ls : List Link}

/-- A link that is entered is one more behind the others, in every table. -/
theorem record (h : g.Records ls) (l : Link) : (g.record l).Records (ls ++ [l]) where
  mem_edges {a b} := by
    obtain ⟨source, target, ref⟩ := l
    rw [DivertGraph.record, NameTable.get_modify]
    by_cases ha : a = source
    · subst ha
      simp only [if_pos, List.mem_insert_iff, h.mem_edges, List.mem_append, List.mem_singleton,
        Link.mk.injEq, true_and, exists_or, exists_and_left, exists_eq, and_true]
      exact Or.comm
    · rw [if_neg ha, h.mem_edges]
      simp only [List.mem_append, List.mem_singleton, Link.mk.injEq, ha, false_and, or_false]
  mem_reverseEdges {a b} := by
    obtain ⟨source, target, ref⟩ := l
    rw [DivertGraph.record, NameTable.get_modify]
    by_cases hb : b = target
    · subst hb
      simp only [if_pos, List.mem_insert_iff, h.mem_reverseEdges, List.mem_append,
        List.mem_singleton, Link.mk.injEq, true_and, exists_or, exists_and_left, exists_eq, and_true]
      exact Or.comm
    · rw [if_neg hb, h.mem_reverseEdges]
      simp only [List.mem_append, List.mem_singleton, Link.mk.injEq, hb, false_and, and_false,
        or_false]
  incomingRefs b := by
    rw [DivertGraph.record, NameTable.get_modify, List.filter_append, List.map_append]
    by_cases hb : b = l.target
    · rw [if_pos hb, h.incomingRefs, hb, List.filter_cons_of_pos (by simp)]
      rfl
    · rw [if_neg hb, h.incomingRefs, List.filter_cons_of_neg (by simpa using Ne.symm hb)]
      simp
  nodup_edges a := by
    rw [DivertGraph.record, NameTable.get_modify]
    split
    · rw [List.insert]
      split
      · exact h.nodup_edges _
      · next hnew => exact List.nodup_cons.mpr ⟨by simpa using hnew, h.nodup_edges _⟩
    · exact h.nodup_edges a

theorem note (h : g.Records ls) : ∀ l?, (g.note l?).Records (ls ++ l?.toList)
  | none => by simpa [DivertGraph.note] using h
  | some l => h.record l

/-- Diverts that are gone through one by one leave the links that they make, in order. -/
theorem foldl_note {α : Type} (link? : α → Option Link) {g : DivertGraph} {ls : List Link}
    (h : g.Records ls) (xs : List α) :
    (xs.foldl (fun g x => g.note (link? x)) g).Records (ls ++ xs.filterMap link?) := by
  induction xs generalizing g ls with
  | nil => simpa using h
  | cons x xs ih =>
    have hrest := ih (h.note (link? x))
    cases hx : link? x with
    | none => simpa [hx] using hrest
    | some l => simpa [hx, List.append_assoc] using hrest

end Records

end DivertGraph

/-! ### What a target means -/

namespace Document

/-- The visible knot of a name. -/
def visibleKnot? (d : Document) (name : String) : Option Knot :=
  d.visibleKnots.find? (·.name = name)

/-- The knot and the stitch that a target means inside the knot `source`: a stitch of a named knot,
a knot, or a stitch of `source`. -/
def resolve? (d : Document) (source : Option String) (target : String) :
    Option (String × Option String) :=
  if isTerminal target then none
  else
    match stitchPart? target with
    | some stitch =>
      match d.visibleKnot? (knotPart target) with
      | some k => if k.stitches.contains stitch then some (knotPart target, some stitch) else none
      | none => none
    | none =>
      if (d.visibleKnot? target).isSome then some (target, none)
      else
        match source.bind d.visibleKnot? with
        | some k => if k.stitches.contains target then some (k.name, some target) else none
        | none => none

/-- Whether a target ends the story or exists. -/
def isValidTarget (d : Document) (source : Option String) (target : String) : Bool :=
  isTerminal target || (d.resolve? source target).isSome

/-- The link of a divert inside a knot. -/
def linkOf? (d : Document) (k : Knot) (ref : DivertRef) : Option Link :=
  match d.resolve? (some k.name) ref.target with
  | none => none
  | some (target, stitch) =>
    if target = k.name && stitch.isSome then none else some ⟨k.name, target, ref⟩

/-- The link of the initial divert. -/
def startLink? (d : Document) : Option Link :=
  d.initialDivert.bind fun target =>
    (d.resolve? none target).map fun (knot, _) =>
      ⟨startNode, knot, ⟨target, none, .standalone⟩⟩

/-- The tables of a document: the initial divert is entered, then the diverts of each visible knot. -/
def graph (d : Document) : DivertGraph :=
  d.visibleKnots.foldl (fun g k => k.divertRefs.foldl (fun g ref => g.note (d.linkOf? k ref)) g)
    (DivertGraph.note {} d.startLink?)

/-- The links that are entered, in order. -/
def links (d : Document) : List Link :=
  d.startLink?.toList ++ d.visibleKnots.flatMap fun k => k.divertRefs.filterMap (d.linkOf? k)

/-- The three tables are those of the same links. -/
theorem records_graph (d : Document) : d.graph.Records d.links := by
  have hknots : ∀ (ks : List Knot) {g : DivertGraph} {ls : List Link}, g.Records ls →
      (ks.foldl (fun g k => k.divertRefs.foldl (fun g ref => g.note (d.linkOf? k ref)) g) g).Records
        (ls ++ ks.flatMap fun k => k.divertRefs.filterMap (d.linkOf? k)) := by
    intro ks
    induction ks with
    | nil => intro g ls h; simpa using h
    | cons k ks ih =>
      intro g ls h
      rw [List.flatMap_cons, ← List.append_assoc]
      exact ih (h.foldl_note (d.linkOf? k) k.divertRefs)
  exact hknots d.visibleKnots (DivertGraph.records_nil.note d.startLink?)

/-! ### What the graph is asked -/

/-- Whether some link goes from one name to another. -/
def hasLink (d : Document) (source target : String) : Bool :=
  (d.graph.edges.get source).contains target

/-- The names of the visible knots in document order. -/
def visibleNames (d : Document) : List String := d.visibleKnots.map Knot.name

/-- The knots that a knot leads to, in document order. -/
def targetsOf (d : Document) (name : String) : List String :=
  let targets := d.graph.edges.get name
  d.visibleNames.filter (targets.contains ·)

/-- The knots that lead to a knot, in document order, behind the start of the story. -/
def sourcesOf (d : Document) (name : String) : List String :=
  let sources := d.graph.reverseEdges.get name
  (if sources.contains startNode then [startNode] else []) ++
    d.visibleNames.filter (sources.contains ·)

/-- The diverts that lead to a knot, each with its source. -/
def incoming (d : Document) (name : String) : List (String × DivertRef) :=
  d.graph.incomingRefs.get name

/-- The knot in which the story starts. -/
def root? (d : Document) : Option String :=
  match d.targetsOf startNode with
  | target :: _ => some target
  | [] => d.visibleNames.head?

end Document

end StoryScript
