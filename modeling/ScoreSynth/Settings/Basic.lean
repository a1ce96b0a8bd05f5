import ScoreSynth.Output.Mixer

/-!
# Settings

What a listener can choose, and the ranges in which a choice is usable. Values that are no finite
number fall back to their defaults, others move to the nearer end of their range.
-/

namespace ScoreSynth

structure Settings where
  /-- Seconds from now to the first tone. -/
  lookahead : Float
  /-- Seconds that a melodic tone rings past its written length. -/
  releaseTail : Float
  volume : Float32
  /-- The output's own rate, if none. -/
  rate : Option Nat
  seed : UInt64

namespace Settings

def defaults : Settings := ⟨0.1, 0.1, 0.8, none, 42⟩

def defaultOfflineRate : Nat := 44100

def offlineRate (s : Settings) : Nat := s.rate.getD defaultOfflineRate

def usable (fallback x : Float) : Float :=
  largerFloat (if x.isNaN || x.isInf then fallback else x) 0.0

def sanitized (s : Settings) : Settings :=
  { lookahead := usable defaults.lookahead s.lookahead
    releaseTail := usable defaults.releaseTail s.releaseTail
    volume := Output.clampSample 0.0 1.0
      (if s.volume.isNaN || s.volume.isInf then defaults.volume else s.volume)
    rate := s.rate.filter (0 < ·)
    seed := s.seed }

end Settings

end ScoreSynth
