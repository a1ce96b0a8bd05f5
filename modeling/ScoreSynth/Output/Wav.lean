/-!
# WAV files

Samples of 16 bits in a RIFF container. Up to two channels take the plain format; more take the
extended one, which also says which loudspeakers they are for.
-/

namespace ScoreSynth.Output.Wav

/-- The lowest bytes of a number, the lowest first. -/
def little : Nat → Nat → List UInt8
  | 0, _ => []
  | width + 1, n => UInt8.ofNat n :: little width (n / 256)

def tag (s : String) : List UInt8 := s.toList.map fun c => UInt8.ofNat c.toNat

/-- The name of uncompressed samples in the extended format. -/
def uncompressed : List UInt8 :=
  [0x01, 0, 0, 0, 0, 0, 0x10, 0, 0x80, 0, 0, 0xAA, 0, 0x38, 0x9B, 0x71]

/-- Bytes a second, in the 32 bits that the field has. -/
def byteRate (channels rate : Nat) : Nat := rate * channels * 2 % 0x100000000

/--
Code, channels, rate, bytes a second, bytes a frame and bits a sample. The bytes of a frame are
worked out from those of a second, so they are too few where a second has more than its field holds.
-/
def layout (code channels rate : Nat) : List UInt8 :=
  little 2 code ++ little 2 channels ++ little 4 rate ++ little 4 (byteRate channels rate) ++
    little 2 (byteRate channels rate / rate) ++ little 2 16

/-- There are names for eighteen loudspeakers; a channel beyond them has none. -/
def loudspeakers (channels : Nat) : Nat := (1 <<< min channels 18) - 1

def format (channels rate : Nat) : List UInt8 :=
  if channels ≤ 2 then little 4 16 ++ layout 1 channels rate
  else
    little 4 40 ++ layout 0xFFFE channels rate ++ little 2 22 ++ little 2 16 ++
      little 4 (loudspeakers channels) ++ uncompressed

def header (channels rate size : Nat) : List UInt8 :=
  let format := format channels rate
  tag "RIFF" ++ little 4 (4 + 4 + format.length + 8 + 2 * size) ++ tag "WAVE" ++ tag "fmt " ++
    format ++ tag "data" ++ little 4 (2 * size)

/-- Full scale is 32767; what lies beyond it is cut off. -/
def quantise (x : Float32) : Int16 :=
  let y := if x < -1.0 then -1.0 else if 1.0 < x then 1.0 else x
  (y * 32767.0).toInt16

def encode (channels rate : Nat) (samples : Array Float32) : ByteArray :=
  let start := (header channels rate samples.size).foldl ByteArray.push ByteArray.empty
  samples.foldl (fun bytes x =>
    let v := (quantise x).toUInt16
    (bytes.push v.toUInt8).push (v >>> 8).toUInt8) start

end ScoreSynth.Output.Wav
