/-!
# Command line options

Options start with a minus sign; everything else is an argument. A long option takes its value from
behind an equals sign or from the next word, a short one from the rest of its word or from the next
word, and short options without values may stand together in one word. Behind `--` everything is an
argument. Where arguments may not be mixed with options, the first argument ends the options.
-/

namespace StoryScript.Command

/-- An option: its spellings, the first of which is its name, and whether it takes a value. -/
structure OptionSpec where
  spellings : List String
  takesValue : Bool
  deriving DecidableEq, Repr

/-- The name of an option. -/
def OptionSpec.name (o : OptionSpec) : String := o.spellings.headD ""

/-- The options and the arguments on a command line, each in the order in which they stand there. -/
structure Parsed where
  options : List (String × String) := []
  arguments : List String := []
  deriving DecidableEq, Repr

namespace Parsed

/-- The value given last for an option. -/
def value? (p : Parsed) (name : String) : Option String := p.options.reverse.lookup name

/-- Whether an option is given. -/
def has (p : Parsed) (name : String) : Bool := (p.value? name).isSome

end Parsed

/-- The option with a spelling. -/
def optionOf? (specs : List OptionSpec) (spelling : String) : Option OptionSpec :=
  specs.find? (·.spellings.contains spelling)

/-- The options in a word that starts with one minus sign, given the characters behind it. The value
of the last one may be the next word. -/
def shortOptions? (specs : List OptionSpec) :
    List Char → List String → Option (List (String × String) × List String)
  | [], words => some ([], words)
  | c :: cs, words =>
    match optionOf? specs (String.ofList ['-', c]) with
    | none => none
    | some o =>
      if o.takesValue then
        match cs, words with
        | [], value :: words => some ([(o.name, value)], words)
        | [], [] => none
        | _ :: _, _ => some ([(o.name, String.ofList cs)], words)
      else
        (shortOptions? specs cs words).map fun (more, words) => ((o.name, "") :: more, words)

/-- The options in a word that starts with a minus sign, and the words left. -/
def optionsIn? (specs : List OptionSpec) (word : String) (words : List String) :
    Option (List (String × String) × List String) :=
  let spelling := String.ofList (word.toList.takeWhile (· ≠ '='))
  let attached : Option String :=
    if spelling.length < word.length then
      some (String.ofList (word.toList.drop (spelling.length + 1)))
    else none
  if word.startsWith "--" then
    match optionOf? specs spelling, attached, words with
    | some o, some value, _ => if o.takesValue then some ([(o.name, value)], words) else none
    | some o, none, next :: rest =>
      if o.takesValue then some ([(o.name, next)], rest) else some ([(o.name, "")], words)
    | some o, none, [] => if o.takesValue then none else some ([(o.name, "")], [])
    | none, _, _ => none
  else shortOptions? specs (word.toList.drop 1) words

/-- Whether a word is an option. -/
def isOption (word : String) : Bool := word.startsWith "-" && 1 < word.length

/-- Read words one after the other. Every round takes at least one word, so `fuel` words are read at
most. -/
def parseWords (specs : List OptionSpec) (mixed : Bool) : Nat → List String → Option Parsed
  | 0, words => some { arguments := words }
  | _ + 1, [] => some {}
  | fuel + 1, word :: words =>
    if word = "--" then some { arguments := words }
    else if isOption word then do
      let (options, words) ← optionsIn? specs word words
      let p ← parseWords specs mixed fuel words
      some { p with options := options ++ p.options }
    else if mixed then do
      let p ← parseWords specs mixed fuel words
      some { p with arguments := word :: p.arguments }
    else some { arguments := word :: words }

/-- The options and arguments of a command line; none if an option is unknown, lacks its value or
has one that it does not take. -/
def parse? (specs : List OptionSpec) (mixed : Bool) (words : List String) : Option Parsed :=
  parseWords specs mixed words.length words

end StoryScript.Command
