import ScoreSynth.Number.Decimal
import ScoreSynth.Number.Layout
import ScoreSynth.Settings.Basic
import ScoreSynth.Yaml.Node

/-!
# The settings file

A YAML mapping from names to numbers. Other names do not count, whatever they hold. A name that
occurs twice, a value of another kind and a text that is no mapping are refused.
-/

namespace ScoreSynth.Settings

namespace Document

/-! ### Numbers -/

/-- Digits with a zero in front of others are no number. -/
def hasLeadingZero (s : List Char) : Bool :=
  match s with
  | '0' :: _ :: _ => s.all Char.isDigit
  | _ => false

/-- A whole number, with a plus sign or without, in base ten, sixteen, eight or two. -/
def unsigned? (limit : Nat) (word : List Char) : Option Nat :=
  let digits := match word with
    | '+' :: s => s
    | s => s
  let value := match digits with
    | '0' :: 'x' :: s => Number.radixValue? 16 s
    | '0' :: 'o' :: s => Number.radixValue? 8 s
    | '0' :: 'b' :: s => Number.radixValue? 2 s
    | s => if hasLeadingZero s then none else Number.radixValue? 10 s
  value.filter (· ≤ limit)

def isInfinityWord (s : List Char) : Bool :=
  [".inf", ".Inf", ".INF"].any fun w => w.toList == s

def isNanWord (s : List Char) : Bool :=
  [".nan", ".NaN", ".NAN"].any fun w => w.toList == s

/-- A finite number, or one of the words for the other values. -/
def float? (word : List Char) : Option Float :=
  let (negative, s) := Number.Decimal.signOf word
  if isInfinityWord s then some (if negative then -1.0 / 0.0 else 1.0 / 0.0)
  else if isNanWord word then some (0.0 / 0.0)
  else ((Number.Decimal.parse? word).map Number.Decimal.toFloat).filter fun x => !x.isInf

/-! ### Entries -/

def commonTag (name : String) : List Char := "tag:yaml.org,2002:".toList ++ name.toList

def isNullWord (word : List Char) : Bool :=
  ["~", "null", "Null", "NULL"].any fun w => w.toList == word

/-- The number that a scalar spells: a plain one, or a literal one with the tag of the numbers. -/
def number? {α : Type} (tag : String) (value? : List Char → Option α) (s : Yaml.Scalar) :
    Option α :=
  if s.style = .plain || (s.style = .literal && s.tag == some (commonTag tag)) then value? s.text
  else none

def float64? (s : Yaml.Scalar) : Option Float := number? "float" float? s

def natural? (limit : Nat) (s : Yaml.Scalar) : Option Nat := number? "int" (unsigned? limit) s

/-- A rate, or none. Only a plain scalar is no rate: one with the tag of null, or a bare word. -/
def rate? (s : Yaml.Scalar) : Option (Option Nat) :=
  let rate := (natural? Number.max32 s).map some
  if s.style != .plain then rate
  else match s.tag with
    | some tag =>
      if tag != commonTag "null" then rate
      else if isNullWord s.text then some none
      else none
    | none => if s.text.isEmpty || isNullWord s.text then some none else rate

/-- Names with their values; a value that is a list or a mapping is none. -/
abbrev Entries := List (List Char × Option Yaml.Scalar)

/-- The value of a name, if it occurs at most once. -/
def lookup? (es : Entries) (key : String) : Option (Option (Option Yaml.Scalar)) :=
  match es.filter fun e => e.1 == key.toList with
  | [] => some none
  | [e] => some (some e.2)
  | _ => none

/-- The default if the name does not occur, and nothing if its value cannot be read. -/
def read? {α : Type} (es : Entries) (key : String) (fallback : α)
    (value? : Yaml.Scalar → Option α) : Option α :=
  (lookup? es key).bind fun
    | none => some fallback
    | some value => value.bind value?

def ofEntries? (es : Entries) : Option Settings := do
  let lookahead ← read? es "lookahead_secs" defaults.lookahead float64?
  let releaseTail ← read? es "release_tail_secs" defaults.releaseTail float64?
  let volume ← read? es "master_volume" defaults.volume fun s =>
    (float64? s).map Float.toFloat32
  let rate ← read? es "sample_rate" none rate?
  let seed ← read? es "seed" defaults.seed fun s => (natural? Number.max64 s).map UInt64.ofNat
  return ⟨lookahead, releaseTail, volume, rate, seed⟩

/-- The entries of a mapping; every name is a scalar. -/
def entries? (d : Yaml.Document) (es : List (Yaml.Node × Yaml.Node)) : Option Entries :=
  es.mapM fun (name, value) => (d.scalar? name).map fun s => (s.text, d.scalar? value)

/-- A document without content leaves all settings at their defaults. -/
def settings? (d : Yaml.Document) : Option Settings :=
  match d.root with
  | .mapping es => (entries? d es).bind ofEntries?
  | .scalar s => if s.style = .plain && s.text.isEmpty then some defaults else none
  | _ => none

end Document

def parse? (text : String) : Option Settings :=
  (Yaml.read? text.toList).bind fun
    | none => some defaults
    | some d => Document.settings? d

def load? (text : String) : Option Settings := (parse? text).map sanitized

/-- Doubles are positional from 0.00001 to below 10^16. -/
def doubles : Number.Layout := ⟨some (-4, 16), ".0", false, false, ".nan", ".inf", "-.inf"⟩

/-- Singles are positional from 0.000001 to below 10^13. -/
def singles : Number.Layout := { doubles with positional := some (-5, 13) }

def write (s : Settings) : String :=
  let rate := match s.rate with
    | none => "null"
    | some n => String.ofList (Number.decimalText n)
  "lookahead_secs: " ++ doubles.write s.lookahead ++
    "\nrelease_tail_secs: " ++ doubles.write s.releaseTail ++
    "\nmaster_volume: " ++ singles.write32 s.volume ++
    "\nsample_rate: " ++ rate ++
    "\nseed: " ++ String.ofList (Number.decimalText s.seed.toNat) ++ "\n"

end ScoreSynth.Settings
