import StoryScript.Text.Lines

/-!
# The lint rules

The identifiers of the rules with what each one means, as a text in Markdown.
-/

namespace StoryScript.Lint

open Text

/-- A rule and its explanation, line by line. -/
structure Rule where
  id : String
  lines : List String

/-- The text of an explanation, with an empty line in front. -/
def Rule.explanation (r : Rule) : String := "\n" ++ join "\n" r.lines ++ "\n"

/-- All rules. -/
def rules : List Rule :=
  [{ id := "broken-divert"
     lines :=
       ["# broken-divert",
        "",
        "A divert (`-> target`) names a knot or stitch that does not exist.",
        "`END` and `DONE` are always valid. Stitches are addressed as `knot.stitch`,",
        "or by bare name from inside their own knot."] },
   { id := "dangling-choice"
     lines :=
       ["# dangling-choice",
        "",
        "A choice has no divert and nothing inside it diverts anywhere, so the story",
        "falls off the end of the knot when the player picks it."] },
   { id := "duplicate-knot"
     lines :=
       ["# duplicate-knot",
        "",
        "Two knots share a name. Only the first one is reachable; the rest are shown",
        "but ignored by divert resolution."] },
   { id := "duplicate-stitch"
     lines :=
       ["# duplicate-stitch",
        "",
        "Two stitches inside the same knot share a name."] },
   { id := "empty-knot"
     lines :=
       ["# empty-knot",
        "",
        "A knot has no content. Empty knots are legal but usually unfinished."] },
   { id := "unreachable-knot"
     lines :=
       ["# unreachable-knot",
        "",
        "No chain of diverts leads from the start of the story to this knot.",
        "The story starts at the initial divert, or at the first knot when there is none."] },
   { id := "unrecognized-syntax"
     lines :=
       ["# unrecognized-syntax",
        "",
        "A line looks like script syntax but is not one of the modelled forms. It is",
        "kept verbatim and round-trips unchanged."] },
   { id := "missing-media"
     lines :=
       ["# missing-media",
        "",
        "An image or video tag names a file that is not in the project's asset",
        "folders (`Images/` and `Videos/` by default, see `knotwork.toml`)."] },
   { id := "unclosed-conditional"
     lines :=
       ["# unclosed-conditional",
        "",
        "A `\x7b` conditional block is not closed by `\x7d` before the next stitch or the end",
        "of the knot."] },
   { id := "nesting-too-deep"
     lines :=
       ["# nesting-too-deep",
        "",
        "Choices and conditionals are nested deeper than the parser allows. The",
        "offending line is kept as raw text."] },
   { id := "content-outside-knot"
     lines :=
       ["# content-outside-knot",
        "",
        "A line sits between regions or after a region end, outside any knot. It is",
        "kept in the file but not part of the story."] },
   { id := "unclosed-region"
     lines :=
       ["# unclosed-region",
        "",
        "A `// <# StartRegion: name #>` marker has no matching `// <# EndRegion #>`."] },
   { id := "stray-region-end"
     lines :=
       ["# stray-region-end",
        "",
        "An `// <# EndRegion #>` marker appears without an open region."] }]

/-- The rules whose findings are recorded while a script is read. -/
def parseIssueRules : List String :=
  ["duplicate-knot",
   "duplicate-stitch",
   "unclosed-conditional",
   "nesting-too-deep",
   "content-outside-knot",
   "unclosed-region",
   "stray-region-end"]

/-- The identifiers of all rules, sorted. -/
def ruleIds : List String := (rules.map Rule.id).mergeSort fun a b => !decide (b < a)

/-- What a rule means. -/
def explanation? (id : String) : Option String :=
  (rules.find? (·.id = id)).map Rule.explanation

end StoryScript.Lint
