import ScoreSynth.Output.Offline
import ScoreSynth.Settings.Basic

/-!
# Sessions

A session plays scores on at most one output at a time. It creates the output when it first needs
one, hands it every tone of a score at once, and closes it when it is stopped or dropped; the next
score then gets a new output.
-/

namespace ScoreSynth

open Output (Failure Offline)

/-- What can be done with outputs of type `o` in a world of type `w`. -/
structure Backend (w o : Type) where
  create : w → Except Failure o × w
  /-- Seconds on the clock of an output. -/
  time : o → w → Float
  submit : o → List (Command Float) → w → Except Failure Unit × w
  setVolume : o → Float32 → w → Except Failure Unit × w
  close : o → w → w

inductive Status where
  | scheduled (tones : Nat) (startsAt endsAt : Float)
  /-- No output could be used; nothing will sound. -/
  | unavailable (f : Failure)

/-- The outcome of a render, and the number of the session whose output it went to. -/
structure Handle where
  session : Nat
  status : Status

def Handle.endsAt? (h : Handle) : Option Float :=
  match h.status with
  | .scheduled _ _ endsAt => some endsAt
  | .unavailable _ => none

inductive Event where
  | noOutput (f : Failure)
  | volumeRefused (f : Failure)
  | created (session : Nat)
  | refused (f : Failure)
  | scheduled (tracks tones : Nat) (startsAt endsAt : Float)
  | stopped (session requested : Nat)

structure Session (w o : Type) where
  settings : Settings
  output : Option o
  /-- How many outputs have been created. -/
  number : Nat
  world : w
  events : List Event

namespace Session

variable {w o : Type}

def start (settings : Settings) (world : w) : Session w o := ⟨settings, none, 0, world, []⟩

def isActive (s : Session w o) : Bool := s.output.isSome

def currentTime? (backend : Backend w o) (s : Session w o) : Option Float :=
  s.output.map fun out => backend.time out s.world

def note (s : Session w o) (e : Event) : Session w o := { s with events := s.events ++ [e] }

/-- Takes over a new output, whose volume is set first; a refusal of that is noted only. -/
def adopt (backend : Backend w o) (s : Session w o) (out : o) : Session w o :=
  let (result, world) := backend.setVolume out s.settings.volume s.world
  let s := { s with world := world, output := some out, number := s.number + 1 }
  let s := match result with
    | .ok _ => s
    | .error f => s.note (.volumeRefused f)
  s.note (.created s.number)

def acquire (backend : Backend w o) (s : Session w o) : Except Failure o × Session w o :=
  match s.output with
  | some out => (.ok out, s)
  | none =>
    match backend.create s.world with
    | (.ok out, world) => (.ok out, adopt backend { s with world := world } out)
    | (.error f, world) => (.error f, { s with world := world })

/-- The latest stop of a list of tones, or the given time if that is later. -/
def latestStop (time : Float) (cs : List (Command Float)) : Float :=
  (cs.map (·.stop)).foldl Scalar.larger time

def submit (backend : Backend w o) (s : Session w o) (out : o) (score : Score) :
    Handle × Session w o :=
  let startsAt := backend.time out s.world + s.settings.lookahead
  let tones := Plan.score score startsAt s.settings.releaseTail
  let endsAt := latestStop startsAt tones
  match backend.submit out tones s.world with
  | (.error f, world) => (⟨s.number, .unavailable f⟩, { s with world := world }.note (.refused f))
  | (.ok _, world) =>
    (⟨s.number, .scheduled tones.length startsAt endsAt⟩,
      { s with world := world }.note
        (.scheduled score.tracks.length tones.length startsAt endsAt))

/-- Never fails: where no output can be used, the handle says so. -/
def render (backend : Backend w o) (s : Session w o) (score : Score) : Handle × Session w o :=
  match acquire backend s with
  | (.error f, s) => (⟨s.number, .unavailable f⟩, s.note (.noOutput f))
  | (.ok out, s) => submit backend s out score

def release (backend : Backend w o) (s : Session w o) : Session w o :=
  match s.output with
  | none => s
  | some out => { s with output := none, world := backend.close out s.world }

/-- Cuts off all sound, whatever handle asks for it. -/
def stop (backend : Backend w o) (s : Session w o) (h : Handle) : Session w o :=
  if s.isActive then (release backend s).note (.stopped s.number h.session) else s

end Session

namespace Backend

/-- One renderer that the caller holds too; once closed it stays closed. -/
def shared : Backend Offline Unit where
  create r := (.ok (), r)
  time _ r := r.currentTime
  submit _ cs r := match r.submit cs with
    | .ok r => (.ok (), r)
    | .error f => (.error f, r)
  setVolume _ v r := match r.setVolume v with
    | .ok r => (.ok (), r)
    | .error f => (.error f, r)
  close _ r := r.close

/-- Renderers of the given kind, each created anew and known by its place in the list. -/
def offline (rate channels : Nat) (seed : UInt64) : Backend (List Offline) Nat where
  create rs := (.ok rs.length, rs ++ [Offline.start rate channels seed])
  time i rs := (rs[i]?.map Offline.currentTime).getD 0.0
  submit i cs rs := match rs[i]?.map fun (r : Offline) => r.submit cs with
    | some (.ok r) => (.ok (), rs.set i r)
    | some (.error f) => (.error f, rs)
    | none => (.error .closed, rs)
  setVolume i v rs := match rs[i]?.map fun (r : Offline) => r.setVolume v with
    | some (.ok r) => (.ok (), rs.set i r)
    | some (.error f) => (.error f, rs)
    | none => (.error .closed, rs)
  close i rs := rs.modify i Offline.close

/-- No output at all, for a machine without a sound device. -/
def silent (reason : Failure) : Backend Unit Empty where
  create _ := (.error reason, ())
  time out _ := out.elim
  submit out _ _ := out.elim
  setVolume out _ _ := out.elim
  close out _ := out.elim

end Backend

end ScoreSynth
