import StoryScript.Media.Resolution
import StoryScript.Report.Basic

/-!
# Reports on media

Which media tags of a script mean a file. Missing files are always listed, found ones on demand.
-/

namespace StoryScript

/-- The cell that says which file was found. -/
def Media.Resolution.cell (r : Media.Resolution) : String :=
  match r.path? with
  | some path => Style.green.mark (toString path)
  | none => Style.red.mark "missing"

/-- What became of the reference with an identity. Should several items share it, the last one
counts. -/
def Media.resolutionOf? (results : List (Id × Media.Resolution)) (id : Id) :
    Option Media.Resolution :=
  results.reverse.lookup id

/-- The media tags of a script and their files. -/
def Document.mediaReport (file : String) (lister : Media.Lister) (config : MediaConfig)
    (showAll : Bool) (d : Document) : Report :=
  match d.mediaRefs with
  | [] => Report.line 0 "No media references" .dim
  | refs =>
    let results := (Media.resolveDocument lister config d).1
    let resolved := refs.filterMap fun ref =>
      (Media.resolutionOf? results ref.id).map fun r => (ref, r)
    let missing := (resolved.filter fun (_, r) => !r.isValid).length
    let rows := (resolved.filter fun (_, r) => showAll || !r.isValid).map fun (ref, r) =>
      [ref.knot, lineText ref.line, ref.kind.name, ref.filename, r.cell]
    let count := toString refs.length ++ " reference(s), " ++ toString missing ++ " missing"
    { exit := if missing = 0 then 0 else 1
      shown :=
        (if rows.isEmpty then []
         else [.table ("Media in " ++ file) ["Knot", "Line", "Kind", "Reference", "File"] rows]) ++
        [.line count (if missing = 0 then Style.boldGreen else Style.boldRed)] }

end StoryScript
