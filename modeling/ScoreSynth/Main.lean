import ScoreSynth.Command.Run
import Std.Time

/-!
# The program

Finds out what a request asks about its surroundings, runs it, and puts what it gives where it
belongs.
-/

namespace ScoreSynth.Program

open Command

/-- What stands at a path; what is there and cannot be read counts as a directory. -/
def fileState (path : String) : IO FileState := do
  try
    return .file (← IO.FS.readBinFile path)
  catch
    | .inappropriateType _ 21 _ | .permissionDenied .. => return .directory
    | _ => return .absent

partial def readAll (input : IO.FS.Stream) (bytes : ByteArray) : IO ByteArray := do
  let more ← input.read 65536
  if more.isEmpty then return bytes else readAll input (bytes ++ more)

def folder (path : String) : String :=
  match path.toList.reverse.dropWhile (· != '/') with
  | [] => "."
  | ['/'] => "/"
  | _ :: parent => String.ofList parent.reverse

def obstacle (path : String) : IO (Option Obstacle) := do
  match ← fileState (folder path), ← fileState path with
  | _, .directory => return some .isDirectory
  | .directory, _ => return none
  | .absent, _ => return some .absent
  | _, _ => return some .notDirectory

def inputOf : Task → Option String
  | .play input | .render input _ _ | .parse input _ => some input
  | .fromText .. => none

def outputOf : Task → Option String
  | .render _ path _ => some path
  | _ => none

/-- What the request may ask about, looked up in advance. -/
def surroundings (r : Request) : IO Surroundings := do
  let home ← IO.getEnv "HOME"
  let userSettings := home.map (· ++ "/.notaphone/config.yaml")
  let input := inputOf r.task
  let paths := (r.settingsPath.or userSettings).toList ++ input.toList
  let known ← paths.mapM fun path => return (path, ← fileState path)
  let outputs ← (outputOf r.task).toList.mapM fun path => return (path, ← obstacle path)
  let stdin ← if input == some "-" then readAll (← IO.getStdin) ByteArray.empty
    else pure ByteArray.empty
  return {
    file := fun path => (known.lookup path).getD .absent
    obstacle := fun path => (outputs.lookup path).join
    stdin := stdin
    settingsPath := userSettings
    noDevice := .deviceConfig "no sound device can be opened" }

def rankOf (level : String) : Option Nat :=
  match level.toLower with
  | "error" => some 0
  | "warn" => some 1
  | "info" => some 2
  | "debug" | "trace" => some 3
  | _ => none

/-- The rank of the log that the environment asks for, for this program or for all. -/
def logRank : IO (Option Nat) := do
  match ← IO.getEnv "RUST_LOG" with
  | none => return some 2
  | some wanted =>
    let ranks := (wanted.splitOn ",").filterMap fun part =>
      match part.splitOn "=" with
      | [level] => rankOf level
      | [name, level] => if name == program then rankOf level else none
      | _ => none
    return ranks.getLast?

def stamp : IO String := do
  let now ← Std.Time.Timestamp.now
  let time := Std.Time.DateTime.ofTimestamp now Std.Time.TimeZone.ZoneRules.UTC
  return time.format "uuuu-MM-dd'T'HH:mm:ss.SSSSSS'Z'"

def printError (rank : Option Nat) : ErrorLine → IO Unit
  | .plain text => IO.eprintln text
  | .log l => do
    if rank.any (l.level.rank ≤ ·) then IO.eprintln ((← stamp) ++ " " ++ l.write)

def nowhere : Surroundings :=
  ⟨fun _ => .absent, fun _ => none, ByteArray.empty, none, .noDevice⟩

end ScoreSynth.Program

open ScoreSynth Program in
def main (args : List String) : IO UInt32 := do
  let around ← match Command.Arguments.read args with
    | .run r => surroundings r
    | _ => pure nowhere
  let outcome := Command.run around args
  match outcome.transcript.written with
  | some (path, bytes) => IO.FS.writeBinFile path bytes
  | none => pure ()
  IO.print outcome.transcript.stdout
  let rank ← logRank
  outcome.transcript.stderr.forM (printError rank)
  return UInt32.ofNat outcome.code
