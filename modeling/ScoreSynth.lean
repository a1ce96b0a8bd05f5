import ScoreSynth.Main
import ScoreSynth.Output.Callback
import ScoreSynth.Proofs.Beat.Grammar
import ScoreSynth.Proofs.Beat.RoundTrip
import ScoreSynth.Proofs.Encoding.Scores
import ScoreSynth.Proofs.Notation.Account
import ScoreSynth.Proofs.Notation.DrumTokens
import ScoreSynth.Proofs.Notation.FixedPoint
import ScoreSynth.Proofs.Notation.LaidOut
import ScoreSynth.Proofs.Notation.Layout
import ScoreSynth.Proofs.Notation.Melodic
import ScoreSynth.Proofs.Notation.Scanner
import ScoreSynth.Proofs.Notation.WellFormed
import ScoreSynth.Proofs.Output.Batches
import ScoreSynth.Proofs.Output.Departures
import ScoreSynth.Proofs.Output.Orders
import ScoreSynth.Proofs.Output.Remainder
import ScoreSynth.Proofs.Output.Rendering
import ScoreSynth.Proofs.Output.Upkeep
import ScoreSynth.Proofs.Output.Window
import ScoreSynth.Proofs.Plan.Length
import ScoreSynth.Proofs.Prose.Accepted
import ScoreSynth.Proofs.Prose.Playable
import ScoreSynth.Proofs.Prose.Sightings
import ScoreSynth.Proofs.Prose.Written
import ScoreSynth.Proofs.Score.Consistent
import ScoreSynth.Proofs.Score.Voices
import ScoreSynth.Proofs.Session.Lives
import ScoreSynth.Proofs.Session.Playback
import ScoreSynth.Proofs.Session.Silence
import ScoreSynth.Proofs.Sound.Envelopes
import ScoreSynth.Proofs.Text.Bytes
