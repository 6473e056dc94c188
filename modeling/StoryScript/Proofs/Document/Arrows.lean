import StoryScript.Proofs.Body.Arrows
import StoryScript.Proofs.Document.Spans

/-!
# References to diverts point at their arrows

The references to the diverts of a knot come in the order in which the arrows are written in its body, and each
gives the line of its arrow (`Document.arrows_read`), wherever no arrow is moved (`Act.spares`): a divert on the
line of a choice has nothing in the choice behind it, and no closing brace follows a divert. Without this
condition it fails (`Document.not_arrows_of_content`).
-/

namespace StoryScript

/-! ### Arrows of lines -/

namespace Line

/-- The arrows that are written on lines, with their lines, the first of which is line `n`. Behind a branch
there may be several on one line. -/
def arrows (n : Nat) : List Line → List (Nat × String)
  | [] => []
  | l :: ls => (l.chain.filterMap fun l => l.form.divert?).map (n, ·) ++ arrows (n + 1) ls

theorem map_arrows (m n : Nat) (ls : List Line) :
    (arrows n ls).map (fun x => (m + x.1, x.2)) = arrows (m + n) ls := by
  induction ls generalizing n with
  | nil => rfl
  | cons l ls ih =>
    rw [arrows, arrows, List.map_append, ih, List.map_map]
    rfl

theorem arrows_drop_sublist (n k : Nat) (ls : List Line) :
    (arrows (n + k) (ls.drop k)).Sublist (arrows n ls) := by
  induction k generalizing n ls with
  | zero => exact List.Sublist.refl _
  | succ k ih =>
    cases ls with
    | nil => exact List.Sublist.refl _
    | cons l ls =>
      rw [List.drop_succ_cons, arrows, Nat.add_comm k 1, ← Nat.add_assoc]
      exact (ih (n + 1) ls).trans (List.sublist_append_right _ _)

end Line

namespace Act

theorem filterMap_divert?_cons (l : Line) (ls : List Line) :
    (l :: ls).filterMap (fun l => l.form.divert?) =
      l.form.divert?.toList ++ ls.filterMap fun l => l.form.divert? := by
  cases hdivert : l.form.divert? <;> simp [hdivert]

/-- The acts of a line bring in no divert but the one that is written on it. -/
theorem diverts_ofLine_sublist (st : List Open) (branchFollows : Bool) (l : Line) :
    ((ofLine st branchFollows l).flatMap diverts).Sublist l.form.divert?.toList := by
  have hacts := lineActs st branchFollows l
  generalize ofLine st branchFollows l = as at hacts
  cases hacts with
  | choice hform =>
    rw [hform]
    exact List.flatMap_singleton _ _ ▸ List.Sublist.refl _
  | leaves _ hchoice => exact BodyState.diverts_leaves hchoice ▸ List.Sublist.refl _
  | _ => exact List.nil_sublist _

theorem diverts_ofChain_sublist (st : List Open) (branchFollows : Bool) (ls : List Line) :
    ((ofChain st branchFollows ls).flatMap diverts).Sublist (ls.filterMap fun l => l.form.divert?) := by
  induction ls generalizing st with
  | nil => exact List.Sublist.refl _
  | cons l ls ih =>
    rw [ofChain, List.flatMap_append, filterMap_divert?_cons]
    exact (diverts_ofLine_sublist st branchFollows l).append (ih _)

theorem diverts_ofWholeLine_sublist (st : List Open) (branchFollows : Bool) (l : Line) :
    ((ofWholeLine st branchFollows l).flatMap diverts).Sublist
      (l.chain.filterMap fun l => l.form.divert?) := by
  unfold ofWholeLine
  split
  · obtain ⟨ls, hls⟩ := l.exists_chain
    rw [hls, filterMap_divert?_cons]
    exact (diverts_ofLine_sublist st branchFollows l).trans (List.sublist_append_left _ _)
  · exact diverts_ofChain_sublist st branchFollows _

/-- So every arrow of the acts of lines is written on its line. -/
theorem arrows_located_sublist (st : List Open) (n : Nat) (ls : List Line) :
    (arrows (located st n ls)).Sublist (Line.arrows n ls) := by
  induction ls generalizing st n with
  | nil => exact List.Sublist.refl _
  | cons l ls ih =>
    rw [located, Line.arrows]
    split
    · exact (ih st (n + 1)).trans (List.sublist_append_right _ _)
    · have hline := (diverts_ofWholeLine_sublist st (branchFirst ls) l).map (n, ·)
      rw [arrows, List.flatMap_append]
      refine List.Sublist.append ?_ (ih _ (n + 1))
      simpa [List.flatMap_map, List.map_flatMap] using hline

end Act

/-! ### Bodies and knots -/

namespace Body

/-- Whether no arrow on the lines of a body is moved. -/
def SparesArrows (ls : List Line) : Prop :=
  (Act.ofLines [] (content ls)).IsChain fun a b => a.spares b = true

instance (ls : List Line) : Decidable (SparesArrows ls) :=
  inferInstanceAs (Decidable (List.IsChain _ _))

/-- The references of a tree that was read point at the arrows of the acts of its lines. -/
theorem map_arrow_divertRefsIn_read (n supply : Nat) {texts : List String}
    (h : SparesArrows (Line.ofTexts texts)) :
    (Item.divertRefsIn n .standalone (read supply texts).1.items).map DivertRef.arrow =
      BodyState.placed n
        (Act.located [] (skipped (Line.ofTexts texts)) (content (Line.ofTexts texts))) := by
  have hsound := (BodyState.start_quiet supply).sound (branchFirst (content (Line.ofTexts texts)))
  -- as far as the acts have spared the arrows, the references point at them
  have hread := BodyState.readFrom_induction
    (I := fun _ as s => ((as.map Prod.snd).IsChain fun a b : Act => a.spares b = true) → s.Points n as)
    (fun _ _ _ hs => hs) (fun _ _ _ _ _ hs hchain => (hs hchain).report _ _)
    (fun line as s a ha hs hchain => by
      rw [List.map_append, List.isChain_append] at hchain
      refine (hs hchain.1).perform ha fun x hx => hchain.2.2 x.2 ?_ a rfl
      rw [List.getLast?_map, hx]
      rfl)
    (n := skipped (Line.ofTexts texts)) hsound (fun _ => .start n supply)
  rw [List.nil_append] at hread
  have hpoints := hread (by rw [Act.map_snd_located]; exact h)
  have hpending := pending_readFrom supply (Line.ofTexts texts)
  have hclosed := (hpoints.ready hpending).closeAll hpending ((Line.ofTexts texts).length - 1)
  have harrows := hclosed.arrows
  rw [BodyState.closeAll_frames _ hpending] at harrows
  rw [read_items, Item.map_arrow_divertRefsIn]
  exact harrows

end Body

/-- The lines of the body of a knot, as they are read in the script. -/
def Knot.linesIn (ls : List String) (k : Knot) : List Line :=
  ((Line.ofTexts ls).take k.lineEnd).drop k.lineStart

namespace Document

/-- Where no arrow is moved, the references to the diverts of a knot come in the order in which the arrows are
written in its body, and each gives the line of its arrow. There is one for each divert that was found on the
lines. -/
theorem arrows_read (supply : Nat) (text : String) {k : Knot} (hk : k ∈ (read supply text).1.knots)
    (h : Body.SparesArrows (k.linesIn (Text.lines text))) :
    (k.divertRefs.map fun r => (r.line, r.target)).Sublist
        ((Line.arrows (k.lineStart + 1) (k.linesIn (Text.lines text))).map fun x => (some x.1, x.2)) ∧
      ∀ supply, k.divertRefs.map DivertRef.target =
        Body.captures supply (((Text.lines text).take k.lineEnd).drop k.lineStart) := by
  have hspans := (ScriptState.spanned_ofLines supply (Text.lines text)).2 k (List.mem_reverse.mp hk)
  obtain ⟨first, hitems, -⟩ := hspans.body
  generalize hbody : ((Text.lines text).take k.lineEnd).drop k.lineStart = body at hitems
  have hlines : k.linesIn (Text.lines text) = Line.ofTexts body := by
    rw [Knot.linesIn, ← hbody, hspans.ofTexts_body]
  rw [hlines] at h ⊢
  have harrows := Body.map_arrow_divertRefsIn_read k.lineStart first h
  rw [← hitems] at harrows
  refine ⟨?_, fun supply => ?_⟩
  -- lines are counted from the top of the body on one side and from that of the script on the other
  · have hshift := Line.map_arrows (k.lineStart + 1) 0 (Line.ofTexts body)
    rw [Nat.add_zero] at hshift
    change (k.divertRefs.map DivertRef.arrow).Sublist _
    rw [Knot.divertRefs, harrows, BodyState.placed, ← hshift, List.map_map]
    have hdrop := Line.arrows_drop_sublist 0 (Body.skipped (Line.ofTexts body)) (Line.ofTexts body)
    rw [Nat.zero_add] at hdrop
    exact ((Act.arrows_located_sublist [] _ _).trans hdrop).map _
  · have htargets := congrArg (List.map Prod.snd) harrows
    rw [List.map_map, BodyState.placed, List.map_map] at htargets
    have hsound := (BodyState.start_quiet supply).sound
      (branchFirst (Body.content (Line.ofTexts body)))
    rw [Body.captures, ← BodyState.diverts_ofLines _ _ hsound]
    refine htargets.trans ?_
    rw [← Act.map_snd_located _ (Body.skipped (Line.ofTexts body)), Act.arrows]
    simp [List.map_flatMap, List.flatMap_map, Function.comp_def]
    rfl

/-- Where nothing in a choice comes behind the divert on its line, and no divert in front of a closing brace,
references point at arrows even in nested conditionals and choices. -/
theorem arrows_read_pier :
    let text := "=== pier ===\nThe bell rings. -> END\n* [Board] -> ferry\n* [Wait]\n\n-> pier\n" ++
      "\x7b\n- storm: -> END\n- else: // calm\nNothing.\n\x7d\n=== ferry ===\n"
    ∃ k ∈ (read 0 text).1.knots, Body.SparesArrows (k.linesIn (Text.lines text)) ∧
      k.divertRefs.length = 4 ∧ (k.divertRefs.map fun r => (r.line, r.target)).Sublist
        ((Line.arrows (k.lineStart + 1) (k.linesIn (Text.lines text))).map fun x => (some x.1, x.2)) := by
  intro text
  have hk : ∃ k ∈ (read 0 text).1.knots, Body.SparesArrows (k.linesIn (Text.lines text)) ∧
      k.divertRefs.length = 4 := by decide +kernel
  obtain ⟨k, hk, hspares, hlength⟩ := hk
  exact ⟨k, hk, hspares, hlength, (arrows_read 0 text hk hspares).1⟩

/-- Content of a choice behind the divert on its line moves this divert: the reference comes behind those of the
content, and on their line. -/
theorem not_arrows_of_content :
    let text := "=== a ===\n* [Go] -> b\n-> c\n"
    ∃ k ∈ (read 0 text).1.knots, ¬ (k.divertRefs.map fun r => (r.line, r.target)).Sublist
      ((Line.arrows (k.lineStart + 1) (k.linesIn (Text.lines text))).map fun x => (some x.1, x.2)) := by
  decide +kernel

end Document

end StoryScript
