import ScoreSynth.Number.Layout
import ScoreSynth.Prose.Generated
import ScoreSynth.Session
import ScoreSynth.Text.Quoted

/-!
# The log

What a run notes on the way, as lines of text: a level, the part of the program that speaks, a
message and named values.
-/

namespace ScoreSynth.Command

inductive Level where
  | error
  | warn
  | info
  | debug
  deriving DecidableEq, Repr

namespace Level

/-- Right-aligned in five columns. -/
def label : Level → String
  | error => "ERROR"
  | warn => " WARN"
  | info => " INFO"
  | debug => "DEBUG"

def rank : Level → Nat
  | error => 0
  | warn => 1
  | info => 2
  | debug => 3

end Level

structure LogLine where
  level : Level
  origin : String
  message : String

namespace LogLine

def write (l : LogLine) : String := l.level.label ++ " " ++ l.origin ++ ": " ++ l.message

def value (name text : String) : String := " " ++ name ++ "=" ++ text

def count (name : String) (n : Nat) : String := value name (String.ofList (Number.decimalText n))

def quoted (name : String) (text : List Char) : String :=
  value name (String.ofList (Text.quote text))

def seconds (name : String) (x : Float) : String := value name (Number.Layout.logged.write x)

def ofRemark : Notation.Remark → LogLine
  | .dropped d =>
    ⟨.debug, "notaphone::dsl::parser", "dropping notation fragment" ++
      value "kind" d.defect.name ++ value "fragment" (String.ofList d.fragment)⟩
  | .blankChord pattern =>
    ⟨.debug, "notaphone::dsl::parser", "skipping empty chord segment" ++ quoted "pattern" pattern⟩
  | .assumedBeat token =>
    ⟨.debug, "notaphone::dsl::token", "drum token without readable duration, using one beat" ++
      quoted "token" token⟩

def ofReading (r : Notation.Reading Score) : List LogLine :=
  r.remarks.map ofRemark ++
    [⟨.debug, "notaphone::dsl", "compiled notation" ++ count "tracks" r.value.tracks.length ++
      count "notes" r.value.noteCount ++ count "dropped" r.diagnostics.length⟩]

/-- What is said about a generated text before it is used or passed over. -/
def ofGenerated (generated : String) : List LogLine :=
  match Prose.accept? generated with
  | some r => ofReading r
  | none =>
    [⟨.debug, "notaphone::text", "generated text rejected as notation" ++
        count "len" generated.utf8ByteSize⟩,
      ⟨.info, "notaphone::text",
        "generated notation unusable, falling back to text conversion"⟩]

def ofEvent : Event → LogLine
  | .noOutput f =>
    ⟨.warn, "notaphone::event", "audio unavailable, render is a no-op" ++ value "err" f.message⟩
  | .volumeRefused f =>
    ⟨.debug, "notaphone::event", "could not set master volume" ++ value "err" f.message⟩
  | .created session =>
    ⟨.info, "notaphone::event", "audio output created" ++ count "session" session⟩
  | .refused f =>
    ⟨.warn, "notaphone::event", "audio output refused tones" ++ value "err" f.message⟩
  | .scheduled tracks tones startsAt endsAt =>
    ⟨.info, "notaphone::event", "scheduled composition" ++ count "tracks" tracks ++
      count "tones" tones ++ seconds "starts_at" startsAt ++ seconds "ends_at" endsAt⟩
  | .stopped session requested =>
    ⟨.info, "notaphone::event", "stopped playback" ++ count "session" session ++
      count "requested" requested⟩

def filterKind : Sound.FilterKind → String
  | .lowPass => "LowPass"
  | .highPass => "HighPass"
  | .bandPass => "BandPass"
  | .allPass => "AllPass"

/-- A filter that lets everything pass because its cutoff is out of range. -/
def ofBypass (spec : Sound.FilterSpec Float) : LogLine :=
  let cutoff := Number.Layout.logged.write spec.cutoff
  let q := Number.Layout.logged.write spec.q
  let shown := "FilterSpec \x7b kind: " ++ filterKind spec.kind ++ ", cutoff_hz: " ++ cutoff ++
    ", q: " ++ q ++ " \x7d"
  ⟨.debug, "notaphone::instrument::filter", "filter coefficients rejected, bypassing" ++
    value "err" "OutsideNyquist" ++ value "spec" shown⟩

def ofTones (rate : Nat) (tones : List (Sound.Tone Float)) : List LogLine :=
  (tones.filterMap (·.filter)).filterMap fun spec =>
    if (Sound.Coefficients.ofSpec? spec rate).isNone then some (ofBypass spec) else none

def noSettingsFile (path : String) : LogLine :=
  ⟨.debug, "notaphone::config", "no config file, using defaults" ++ value "path" path⟩

def proseInput : LogLine :=
  ⟨.info, "notaphone", "input has no tracks, converting it as prose"⟩

def wroteWav (path : String) (frames : Nat) : LogLine :=
  ⟨.info, "notaphone::audio::offline", "wrote wav" ++ value "path" path ++ count "frames" frames⟩

end LogLine

end ScoreSynth.Command
