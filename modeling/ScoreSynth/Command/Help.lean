import ScoreSynth.Command.Arguments

/-!
# Help

What the program says about itself and about each of its commands: a sentence, the order of the
arguments, and a table of them with the explanations in one column.
-/

namespace ScoreSynth.Command

def program : String := "notaphone"

namespace Help

abbrev Row := String × String

/-- The rows with all explanations in one column, two places behind the longest left side. -/
def table (rows : List Row) : List String :=
  let width := (rows.map (·.1.length)).foldl max 0
  rows.map fun (left, text) =>
    left ++ String.ofList (List.replicate (width + 2 - left.length) ' ') ++ text

def about : Verb → String
  | .play => "Play notation through the default sound device"
  | .render => "Render notation to a WAV file"
  | .parse => "Print the compiled composition and any dropped fragments"
  | .fromText => "Turn prose into notation"

def aboutProgram : String := "Compile compact music notation into timed synthesis"

def aboutHelp : String := "Print this message or the help of the given subcommand(s)"

def input : Verb → Row
  | .play => ("  <INPUT>", "A file path, `-` for stdin, or inline notation")
  | .render | .parse => ("  <INPUT>", "")
  | .fromText => ("  <TEXT>", "")

def option : Flag → Row
  | .config => ("      --config <CONFIG>", "Settings file (default: ~/.notaphone/config.yaml)")
  | .volume => ("      --volume <VOLUME>", "Master volume, 0.0 to 1.0")
  | .seed => ("      --seed <SEED>", "Seed for noise sources")
  | .output => ("  -o, --output <OUTPUT>", "")
  | .rate => ("      --sample-rate <SAMPLE_RATE>", "")
  | .json => ("      --json", "")
  | .generated =>
    ("      --generated <GENERATED>", "Notation produced elsewhere, used when it looks valid")

def helpOption : Row := ("  -h, --help", "Print help")

def versionOption : Row := ("  -V, --version", "Print version")

def shown : Verb → List Flag
  | .play => [.config, .volume, .seed]
  | .render => [.config, .output, .rate, .volume, .seed]
  | .parse => [.config, .json, .volume, .seed]
  | .fromText => [.config, .generated, .volume, .seed]

def usage (v : Verb) : String :=
  let required := match v with
    | .render => "--output <OUTPUT> "
    | _ => ""
  v.name ++ " [OPTIONS] " ++ required ++ String.ofList ((input v).1.toList.drop 2)

def part (title : String) (rows : List Row) : List String := "" :: (title ++ ":") :: table rows

def page (about usage : String) (sections : List (List String)) : String :=
  String.join ((about :: "" :: ("Usage: " ++ program ++ " " ++ usage) :: sections.flatten).map
    (· ++ "\n"))

def write : Topic → String
  | .program =>
    page aboutProgram "[OPTIONS] <COMMAND>"
      [part "Commands" (Verb.all.map (fun v => ("  " ++ v.name, about v)) ++
          [("  help", aboutHelp)]),
        part "Options" ((shown .play).map option ++ [helpOption, versionOption])]
  | .verb v =>
    page (about v) (usage v)
      [part "Arguments" [input v], part "Options" ((shown v).map option ++ [helpOption])]
  | .help =>
    page aboutHelp "help [COMMAND]..."
      [part "Arguments" [("  [COMMAND]...", "Print help for the subcommand(s)")]]

end Help

end ScoreSynth.Command
