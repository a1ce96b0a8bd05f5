import ScoreSynth.Output.Failure
import ScoreSynth.Output.Mixer

/-!
# The offline renderer

An output whose clock moves only when samples are asked for. Once closed it stays silent and takes
no more tones.
-/

namespace ScoreSynth.Output

structure Offline where
  mixer : Mixer
  /-- Every tone submitted, in the order of submission. -/
  submitted : List (Command Float)
  closed : Bool

namespace Offline

def start (rate channels : Nat) (seed : UInt64) : Offline :=
  ⟨Mixer.start rate channels seed, [], false⟩

def seconds (o : Offline) (frame : Nat) : Float := Float.ofNat frame / Float.ofNat o.mixer.rate

def currentTime (o : Offline) : Float := o.seconds o.mixer.frame

def endTime (o : Offline) : Float := o.seconds o.mixer.endFrame

def submit (o : Offline) (cs : List (Command Float)) : Except Failure Offline :=
  if o.closed then .error .closed
  else .ok { o with submitted := o.submitted ++ cs, mixer := o.mixer.schedule cs }

def setVolume (o : Offline) (v : Float32) : Except Failure Offline :=
  if o.closed then .error .closed else .ok { o with mixer := o.mixer.setVolume v }

def close (o : Offline) : Offline := { o with mixer := o.mixer.clear, closed := true }

def renderFrames (o : Offline) (frames : Nat) : Array Float32 × Offline :=
  let (samples, m) := o.mixer.fill (frames * o.mixer.channels)
  (samples, { o with mixer := m })

def remaining (o : Offline) : Nat := o.mixer.endFrame - o.mixer.frame

def render (o : Offline) : Array Float32 × Offline := o.renderFrames o.remaining

end Offline

end ScoreSynth.Output
