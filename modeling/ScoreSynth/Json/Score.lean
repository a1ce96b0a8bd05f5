import ScoreSynth.Encoding
import ScoreSynth.Json.Reader
import ScoreSynth.Json.Writer
import ScoreSynth.Number.Layout

/-!
# Scores as JSON

JSON as an encoding, and what is stored and loaded with it.
-/

namespace ScoreSynth.Json

/-! ### Numbers and texts -/

/-- Doubles are positional from 0.00001 to below 10^16. -/
def doubles : Number.Layout := ⟨some (-4, 16), ".0", false, true, "null", "null", "null"⟩

/-- Singles are positional from 0.000001 to below 10^13. -/
def singles : Number.Layout := { doubles with positional := some (-5, 13) }

/-- Values that are no finite number are stored as null. -/
def ofFloat (x : Float) : Value :=
  if x.isNaN || x.isInf then .null else .number (doubles.write x).toList

def ofFloat32 (x : Float32) : Value :=
  if x.isNaN || x.isInf then .null else .number (singles.write32 x).toList

def ofInt (n : Int) : Value := .number (Number.Layout.writeInt n)

def ofString (s : String) : Value := .ofText s.toList

def string? (v : Value) : Option String := v.text?.map String.ofList

def array? : Value → Option (List Value)
  | .array elements => some elements
  | _ => none

/-! ### Records and variants -/

def record (fields : List (String × Value)) : Value :=
  .object (fields.map fun (name, v) => (escape name.toList, v))

/-- A variant that holds nothing, or null. -/
def unit? (v : Value) : Option String :=
  match v.variant? with
  | some (name, none) | some (name, some .null) => some (String.ofList name)
  | _ => none

def holder? (v : Value) : Option (String × Value) :=
  match v.variant? with
  | some (name, some held) => some (String.ofList name, held)
  | _ => none

/-! ### The encoding -/

def encoding : Encoding Value where
  ofDouble := ofFloat
  double? := Value.float?
  ofSingle := ofFloat32
  single? := Value.float32?
  ofInt := ofInt
  int? := Value.intWithin?
  ofText := ofString
  text? := string?
  ofList := .array
  list? := array?
  ofRecord := record
  fields? := Value.fields?
  ofUnit := ofString
  unit? := unit?
  ofVariant name held := record [(name, held)]
  variant? := holder?
  compact v := String.ofList (compact v)
  spread v := String.ofList (spread 0 v)
  read? s := read? s.toList

def beat? (v : Value) : Option Beat := encoding.beat? v

def loadScore? (s : String) : Option Score := encoding.loadScore? s

def storeScore (s : Score) : String := encoding.storeScore s

def showScore (s : Score) : String := encoding.showScore s

end ScoreSynth.Json
