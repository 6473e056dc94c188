import StoryScript.Proofs.Session.ItemEdit

/-!
# Text that has not changed

When the text of a session is read anew as it stands, every item and every branch keeps its identity. A knot
and the knot that is read from the same lines differ in identities alone, and they are paired with each
other, since both are the same occurrence of their name (`Document.IsReading.forall₂_recovers`). Within such
a pair the two trees are equal, so that all of their nodes are counterparts one by one and are aligned in one
block (`Item.idsIn_carry`), however often the same node occurs.
-/

namespace StoryScript

open Text

namespace Document

variable {d : Document}

/-- The text of a document that was read is read as knots that differ in identities alone. -/
theorem IsReading.alike_read_text (h : d.IsReading) (supply : Nat) :
    List.Forall₂ Knot.Alike (read supply d.text).1.knots d.knots :=
  Knot.forall₂_alike_trans (alike_knots_read supply h.line) (h.alike_knots supply)

/-- They get back the identities that they had, each from its own counterpart. -/
theorem IsReading.forall₂_recovers (h : d.IsReading) (supply : Nat) :
    List.Forall₂ Recovers ((read supply d.text).1.carry d none).knots d.knots :=
  Document.forall₂_recovers h.sameList_self (h.alike_read_text supply)

end Document

namespace Session

/-- A tree that is aligned with an equal one gets exactly the identities of that one, and nothing else in it
changes. So the text of a session that was reached by any commands, put in its own place, leaves all
identities of all knots as they are, also of those that share their name with another knot. -/
theorem ids_of_unchanged :
    (∀ items reference : List Item, Item.sameList items reference = true →
      Item.idsIn (Item.carry items reference).1 = Item.idsIn reference ∧
        Item.unlabelledIn (Item.carry items reference).1 = Item.unlabelledIn items) ∧
    ∀ s : Session, s.Reachable →
      List.Forall₂ (fun k l => k.Alike l ∧ Item.idsIn k.items = Item.idsIn l.items)
        (s.updateText s.document.text).document.knots s.document.knots := by
  refine ⟨fun items reference h => ?_, fun s hs => ?_⟩
  · exact ⟨Item.idsIn_carry h, Item.unlabelledIn_carry items reference⟩
  · have hrecovers := hs.reads.document.forall₂_recovers s.supply
    rw [updateText_eq]
    exact hrecovers.imp fun k l hkl => ⟨hkl.1, congrArg Item.idsIn hkl.2⟩

/-- Two knots of one name with the same line again and again, into which one more is put: the identity that
it was given stays at its place. -/
theorem ids_of_unchanged_echo :
    let s := start 0 "=== echo ===\n* hey\n    hey\nhey\n=== echo ===\nhey\n" none 4 200
    let c := Command.insert "echo" (.leaf ⟨.named "second", none⟩ (.text "hey")) ⟨some (.fresh 0), 0⟩
    let reference : List Item :=
      [.leaf ⟨.named "a", none⟩ (.text "hey"), .leaf ⟨.named "b", none⟩ (.text "hey")]
    let items : List Item := [.leaf ⟨.fresh 7, none⟩ (.text "hey"), .leaf ⟨.fresh 8, none⟩ (.text "hey")]
    (Item.sameList items reference = true ∧
      Item.idsIn (Item.carry items reference).1 = [.named "a", .named "b"]) ∧
    ∃ t, c.perform? s = some t ∧ t.Reachable ∧
      (t.document.knots.map fun k => Item.idsIn k.items) =
        [[.fresh 0, .fresh 1, .named "second", .fresh 2], [.fresh 3]] ∧
      List.Forall₂ (fun k l => k.Alike l ∧ Item.idsIn k.items = Item.idsIn l.items)
        (t.updateText t.document.text).document.knots t.document.knots := by
  intro s c reference items
  have hsame : Item.sameList items reference = true := by decide +kernel
  have hcheck : (c.perform? s).map (fun t => t.document.knots.map fun k => Item.idsIn k.items) =
      some [[.fresh 0, .fresh 1, .named "second", .fresh 2], [.fresh 3]] := by decide +kernel
  obtain ⟨t, ht, hids⟩ := Option.map_eq_some_iff.mp hcheck
  have hreachable : t.Reachable := ⟨0, _, none, 4, 200, .step .refl trivial ht⟩
  refine ⟨⟨hsame, ?_⟩, t, ht, hreachable, hids, ids_of_unchanged.2 t hreachable⟩
  rw [(ids_of_unchanged.1 items reference hsame).1]
  rfl

end Session

end StoryScript
