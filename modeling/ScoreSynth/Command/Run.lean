import ScoreSynth.Command.Files
import ScoreSynth.Command.Help
import ScoreSynth.Command.Log
import ScoreSynth.Json.Score
import ScoreSynth.Output.Wav
import ScoreSynth.Settings.Document

/-!
# Running a command

A run is a function of its request and of what it finds around it: files, standard input, the
settings of the user. It gives an exit code, what it printed and noted, and the file it wrote.
-/

namespace ScoreSynth.Command

open Output (Failure Offline)

structure Surroundings where
  file : String → FileState
  /-- What keeps a file from being written at a path, if anything does. -/
  obstacle : String → Option Obstacle
  stdin : ByteArray
  /-- Where the settings of the user are, if there is a home directory. -/
  settingsPath : Option String
  noDevice : Failure

inductive RunFailure where
  | input (reason : String)
  | settingsFile (reason : String)
  | settingsText (reason : String)
  | output (f : Failure)
  | unavailable (f : Failure)

def RunFailure.message : RunFailure → String
  | input reason => "cannot read input: " ++ reason
  | settingsFile reason => "config io error: " ++ reason
  | settingsText reason => "malformed config: " ++ reason
  | output f => f.message
  | unavailable f => "playback unavailable: " ++ f.message

inductive ErrorLine where
  | log (l : LogLine)
  | plain (text : String)

structure Transcript where
  stdout : String
  stderr : List ErrorLine
  written : Option (String × ByteArray)

abbrev Run (α : Type) := ExceptT RunFailure (StateM Transcript) α

def log (ls : List LogLine) : Run Unit :=
  modify fun t => { t with stderr := t.stderr ++ ls.map .log }

def print (line : String) : Run Unit :=
  modify fun t => { t with stdout := t.stdout ++ line ++ "\n" }

def complain (line : String) : Run Unit :=
  modify fun t => { t with stderr := t.stderr ++ [.plain line] }

/-! ### Input -/

def notText : String := "stream did not contain valid UTF-8"

def loadSettings (around : Surroundings) (path : String) : Run Settings :=
  match around.file path with
  | .absent => do
    log [.noSettingsFile path]
    return .defaults
  | .directory => throw (.settingsFile Obstacle.isDirectory.message)
  | .file bytes | .device bytes =>
    match String.fromUTF8? bytes with
    | none => throw (.settingsFile notText)
    | some text =>
      match Settings.load? text with
      | none => throw (.settingsText "not a mapping of settings")
      | some s => return s

def settings (around : Surroundings) (r : Request) : Run Settings := do
  let s ← match r.settingsPath.or around.settingsPath with
    | some path => loadSettings around path
    | none => pure Settings.defaults
  return { s with volume := r.volume.getD s.volume, seed := r.seed.getD s.seed }.sanitized

def readText (bytes : ByteArray) : Run String :=
  match String.fromUTF8? bytes with
  | some text => return text
  | none => throw (.input notText)

/-- A dash stands for standard input, the name of a file for its text, and all else for itself. -/
def readInput (around : Surroundings) (input : String) : Run String :=
  if input == "-" then readText around.stdin
  else match around.file input with
    | .file bytes => readText bytes
    | _ => return input

/-- The score of an input; a text without a colon holds no track and is taken as prose. -/
def loadScore (around : Surroundings) (input : String) : Run Score := do
  let text ← readInput around input
  if text.contains ':' then
    let r := Notation.read text
    log (LogLine.ofReading r)
    return r.value
  else
    log [.proseInput]
    let r := Notation.read (Prose.written none text)
    log (LogLine.ofReading r)
    return r.value

/-! ### Tasks -/

def play (around : Surroundings) (s : Settings) (score : Score) : Run Unit := do
  let backend := Backend.silent around.noDevice
  let (h, session) := (Session.start s ()).render backend score
  log (session.events.map .ofEvent)
  match h.status with
  | .unavailable f => throw (.unavailable f)
  | .scheduled .. => return ()

/-- Puts the rest of what a renderer holds into a file; the answer is the number of frames. -/
def renderToFile (around : Surroundings) (r : Offline) (path : String) : Run Nat := do
  let (samples, next) := r.render
  let voiced := r.mixer.leavingBefore next.mixer.frame
  log (LogLine.ofTones r.mixer.rate (voiced.map (·.tone)))
  match around.obstacle path with
  | some o => throw (.output (.wav o.message))
  | none =>
    let bytes := Output.Wav.encode r.mixer.channels r.mixer.rate samples
    modify fun t => { t with written := some (path, bytes) }
    let frames := samples.size / r.mixer.channels
    log [.wroteWav path frames]
    return frames

def render (around : Surroundings) (s : Settings) (score : Score) (path : String) : Run Unit := do
  let (h, session) :=
    (Session.start s (Offline.start s.offlineRate 2 s.seed)).render Backend.shared score
  log (session.events.map .ofEvent)
  match h.status with
  | .unavailable f => throw (.unavailable f)
  | .scheduled .. =>
    let frames ← renderToFile around session.world path
    let length := Float.ofNat frames / Float.ofNat session.world.mixer.rate
    print ("wrote " ++ path ++ " (" ++ Number.fixed 2 length ++ "s)")

def natText (n : Nat) : String := String.ofList (Number.decimalText n)

def diagnosticText (d : Notation.Diagnostic) : String :=
  d.defect.name ++ ": " ++ d.defect.message ++ " (" ++ String.ofList (Text.quote d.fragment) ++ ")"

def parse (text : String) (json : Bool) : Run Unit := do
  let r := Notation.read text
  log (LogLine.ofReading r)
  if json then print (Json.showScore r.value)
  else
    print (Notation.write r.value)
    print ("-- " ++ natText r.value.tracks.length ++ " tracks, " ++ natText r.value.noteCount ++
      " notes, " ++ Number.fixed 2 r.value.seconds ++ "s")
  r.diagnostics.forM fun d => complain ("dropped: " ++ diagnosticText d)

def fromText (text : String) (generated : Option String) : Run Unit := do
  match generated with
  | some g => log (LogLine.ofGenerated g)
  | none => pure ()
  print (Prose.written generated text)

def perform (around : Surroundings) (r : Request) : Run Unit := do
  let s ← settings around r
  match r.task with
  | .play input => play around s (← loadScore around input)
  | .render input path rate =>
    let score ← loadScore around input
    render around { s with rate := rate.or s.rate }.sanitized score path
  | .parse input json => parse (← readInput around input) json
  | .fromText text generated => fromText text generated

/-! ### Outcomes -/

structure Outcome where
  code : Nat
  transcript : Transcript

def version : String := "0.1.0"

def usage : String := "usage: notaphone [OPTIONS] <play|render|parse|from-text> ..."

def run (around : Surroundings) (args : List String) : Outcome :=
  let start : Transcript := ⟨"", [], none⟩
  match Arguments.read args with
  | .version => ⟨0, { start with stdout := program ++ " " ++ version ++ "\n" }⟩
  | .help topic => ⟨0, { start with stdout := Help.write topic }⟩
  | .misuse => ⟨2, { start with stderr := [.plain usage] }⟩
  | .run r =>
    match (perform around r).run start with
    | (.ok _, t) => ⟨0, t⟩
    | (.error e, t) =>
      ⟨1, { t with stderr := t.stderr ++ [.plain (program ++ ": " ++ e.message)] }⟩

/-- The lines on standard error, log lines only up to a rank; none at all without one. -/
def Transcript.errorText (t : Transcript) (rank : Option Nat) : String :=
  String.join (t.stderr.filterMap fun
    | .plain text => some (text ++ "\n")
    | .log l => if rank.any (l.level.rank ≤ ·) then some (l.write ++ "\n") else none)

end ScoreSynth.Command
