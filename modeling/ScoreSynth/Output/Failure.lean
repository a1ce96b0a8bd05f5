/-!
# Failures of an output
-/

namespace ScoreSynth.Output

inductive Failure where
  | noDevice
  | deviceConfig (reason : String)
  | streamBuild (reason : String)
  | streamPlay (reason : String)
  | bufferFull
  | closed
  | wav (reason : String)
  deriving DecidableEq, Repr

def Failure.message : Failure → String
  | noDevice => "no audio output device found"
  | deviceConfig reason => "device config error: " ++ reason
  | streamBuild reason => "stream build error: " ++ reason
  | streamPlay reason => "stream play error: " ++ reason
  | bufferFull => "audio command ring buffer is full"
  | closed => "audio output is closed"
  | wav reason => "wav write error: " ++ reason

end ScoreSynth.Output
