import StoryScript.Line.Pattern

/-!
# Reading lines

* `Line.ofText` — a physical line without its surrounding blanks, and its form. It never fails.
* `Line.ofTexts` — the lines of a text in order. Behind a block comment that stays open every line
  is a comment, up to and including the first that closes it.

The remainder of a branch line is read as a line of its own; it is shorter than the line it came
from (`length_lt_of_branch`), so reading remainders ends.
-/

namespace StoryScript.Line

open Text

/-- The form of a line without surrounding blanks. -/
def formOf (cs : List Char) : LineForm :=
  if cs = [] then .blank
  else (patterns.findSome? fun pattern => pattern cs).getD (textForm cs)

/-- A physical line, without its surrounding blanks, and its form. -/
def ofText (line : String) : Line :=
  let cs := stripChars line.toList
  ⟨String.ofList cs, formOf cs⟩

/-- A line inside a block comment. -/
def insideComment (line : String) : Line := ⟨strip line, .comment⟩

/-- Whether a block comment ends on a line. -/
def closesComment (line : String) : Bool := occursIn ['*', '/'] (stripChars line.toList)

/-- The lines of a text; `inBlock` says whether a block comment is open at the first. -/
def readFrom (inBlock : Bool) : List String → List Line
  | [] => []
  | line :: rest =>
    if inBlock then insideComment line :: readFrom (!closesComment line) rest
    else
      let read := ofText line
      read :: readFrom (read.form = .blockComment true) rest

/-- The lines of a text. -/
def ofTexts (ls : List String) : List Line := readFrom false ls

theorem length_readFrom (inBlock : Bool) (ls : List String) :
    (readFrom inBlock ls).length = ls.length := by
  induction ls generalizing inBlock with
  | nil => rfl
  | cons line rest ih =>
    simp only [readFrom]
    split <;> simp [ih]

@[simp] theorem length_ofTexts (ls : List String) : (ofTexts ls).length = ls.length :=
  length_readFrom false ls

/-! ### Remainders of branch lines -/

theorem length_lt_of_branchParts? {cs condition rest : List Char}
    (h : branchParts? cs = some (condition, rest)) : rest.length < cs.length := by
  simp only [branchParts?, Option.bind_eq_bind, Option.bind_eq_some_iff] at h
  obtain ⟨r, hr, h⟩ := h
  obtain ⟨r', hl, h⟩ := exists_of_afterBlanks h
  obtain ⟨r'', rfl, -, h⟩ := exists_of_shortestSome h
  obtain ⟨s, hs, h⟩ := Option.bind_eq_some_iff.mp h
  obtain ⟨-, -, h⟩ := Option.bind_eq_some_iff.mp h
  have h1 := congrArg List.length (eq_append_of_lit? hr)
  have h2 := congrArg List.length (eq_append_of_lit? hs)
  have h3 := length_skipBlanks_le s
  have h4 := length_skipBlanks_le r''
  obtain rfl := Option.some.inj h
  simp at h1 h2 h3 h4 hl ⊢
  omega

/-- A condition in a recogniser decides whether it accepts, and not what it reads. -/
theorem eq_some_of_guard_bind {p : Prop} [Decidable p] {k : Unit → Option LineForm}
    {form : LineForm} (h : (guard p >>= k) = some form) : k () = some form :=
  (Option.bind_eq_some_iff.mp h).elim fun _ hk => hk.2

theorem branch?_of_mem_patterns {f : List Char → Option LineForm} (hf : f ∈ patterns)
    {cs : List Char} {g : Guard} {rest : String} (h : f cs = some (.branch g rest)) :
    branch? cs = some (.branch g rest) := by
  simp only [patterns, List.mem_cons, List.not_mem_nil, or_false] at hf
  rcases hf with rfl | rfl | rfl | rfl | rfl | rfl | rfl | rfl | rfl | rfl | rfl | rfl | rfl | rfl |
    rfl | rfl | rfl | rfl | rfl | rfl | rfl | rfl | rfl | rfl | rfl | rfl
  -- in the order of the patterns: all but the pattern of a branch yield other forms
  case _ =>
    obtain ⟨⟨_, _⟩, -, h⟩ := Option.bind_eq_some_iff.mp (eq_some_of_guard_bind h)
    have h := eq_some_of_guard_bind h
    simp [Option.bind_eq_some_iff] at h
  case _ => simp [stitchHeader?, Option.bind_eq_some_iff] at h
  case _ => simp [position?, Option.bind_eq_some_iff] at h
  case _ => simp at h
  case _ => simp at h
  case _ => simp [regionStart?, Option.bind_eq_some_iff] at h
  case _ => simp [regionEnd?, Option.bind_eq_some_iff] at h
  case _ => simp [lineComment?, Option.bind_eq_some_iff] at h
  case _ => simp [blockComment?, Option.bind_eq_some_iff] at h
  case _ =>
    obtain ⟨_, -, h⟩ := Option.bind_eq_some_iff.mp h
    have h := eq_some_of_guard_bind h
    dsimp only at h
    split at h <;> simp at h
  case _ => simp [divert?] at h
  case _ => simp [setFlag?, flagCall?, Option.bind_eq_some_iff] at h
  case _ => simp [removeFlag?, flagCall?, Option.bind_eq_some_iff] at h
  case _ => simp [transition?, Option.bind_eq_some_iff] at h
  case _ => simp [conditionalOpen?] at h
  case _ => simp [conditionalClose?] at h
  case _ => exact h
  case _ => simp [playerVideo?, mediaForm] at h
  case _ => simp [video?, mediaForm] at h
  case _ => simp [playerImage?, mediaForm] at h
  case _ => simp [fakeType?] at h
  case _ => simp [wait?] at h
  case _ => simp [sideStory?] at h
  case _ => simp [image?, mediaForm] at h
  case _ =>
    obtain ⟨_, -, h⟩ := Option.bind_eq_some_iff.mp h
    have h := eq_some_of_guard_bind h
    simp [Option.bind_eq_some_iff] at h
  case _ =>
    obtain ⟨_, -, h⟩ := Option.bind_eq_some_iff.mp h
    have h := eq_some_of_guard_bind h
    have h := eq_some_of_guard_bind h
    simp at h

theorem branch?_of_formOf {cs : List Char} {g : Guard} {rest : String}
    (h : formOf cs = .branch g rest) : branch? cs = some (.branch g rest) := by
  simp only [formOf] at h
  split at h
  · simp at h
  · cases hs : patterns.findSome? fun pattern => pattern cs with
    | none =>
      simp only [hs, Option.getD_none, textForm] at h
      split at h
      · simp at h
      · split at h <;> simp at h
    | some form =>
      simp only [hs, Option.getD_some] at h
      subst h
      obtain ⟨f, hf, h⟩ := List.exists_of_findSome?_eq_some hs
      exact branch?_of_mem_patterns hf h

/-- What is left of a branch line is shorter than the line. -/
theorem length_lt_of_branch {line : String} {g : Guard} {rest : String}
    (h : (ofText line).form = .branch g rest) : rest.length < line.length := by
  have hb := branch?_of_formOf h
  simp only [branch?, Option.map_eq_some_iff, LineForm.branch.injEq, Prod.exists] at hb
  obtain ⟨c, r, hp, -, rfl⟩ := hb
  have h1 := length_lt_of_branchParts? hp
  have h2 := length_stripChars_le r
  have h3 := length_stripChars_le line.toList
  simp only [String.length_ofList, String.length_toList] at *
  omega

end StoryScript.Line
