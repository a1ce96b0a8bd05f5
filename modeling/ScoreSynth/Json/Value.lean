import ScoreSynth.Number.Decimal
import ScoreSynth.Number.Radix

/-!
# JSON values

A value keeps its numbers and texts as they are spelled. A spelling is worked out only where its
meaning is asked for: a number may be too large for a float, and a text may hold half a surrogate
pair, without harm to a reader that passes it over.
-/

namespace ScoreSynth.Json

inductive Value where
  | null
  | bool (b : Bool)
  | number (literal : List Char)
  | text (body : List Char)
  | array (elements : List Value)
  | object (members : List (List Char × Value))

/-! ### Texts -/

def hexUnit? (a b c d : Char) : Option Nat := Number.radixValue? 16 [a, b, c, d]

def shortEscape? : Char → Option Char
  | '"' => some '"'
  | '\\' => some '\\'
  | '/' => some '/'
  | 'b' => some '\x08'
  | 'f' => some '\x0c'
  | 'n' => some '\n'
  | 'r' => some '\r'
  | 't' => some '\t'
  | _ => none

def isHighSurrogate (n : Nat) : Bool := 0xD800 ≤ n && n ≤ 0xDBFF

def isLowSurrogate (n : Nat) : Bool := 0xDC00 ≤ n && n ≤ 0xDFFF

/-- The text that a body spells; none if a surrogate lacks its partner. -/
def unescape? : List Char → Option (List Char)
  | '\\' :: 'u' :: a :: b :: c :: d :: s =>
    match hexUnit? a b c d with
    | none => none
    | some high =>
      if isHighSurrogate high then
        match s with
        | '\\' :: 'u' :: a :: b :: c :: d :: s =>
          match hexUnit? a b c d with
          | none => none
          | some low =>
            if isLowSurrogate low then
              (unescape? s).map
                (Char.ofNat (0x10000 + (high - 0xD800) * 0x400 + (low - 0xDC00)) :: ·)
            else none
        | _ => none
      else if isLowSurrogate high then none
      else (unescape? s).map (Char.ofNat high :: ·)
  | '\\' :: e :: s =>
    match shortEscape? e with
    | none => none
    | some c => (unescape? s).map (c :: ·)
  | c :: s => (unescape? s).map (c :: ·)
  | [] => some []

def hexChar (n : Nat) : Char := Nat.digitChar n

def escapeChar (c : Char) : List Char :=
  match c with
  | '"' => ['\\', '"']
  | '\\' => ['\\', '\\']
  | '\x08' => ['\\', 'b']
  | '\x0c' => ['\\', 'f']
  | '\n' => ['\\', 'n']
  | '\r' => ['\\', 'r']
  | '\t' => ['\\', 't']
  | _ =>
    if c.toNat < 0x20 then
      ['\\', 'u', '0', '0', hexChar (c.toNat / 16), hexChar (c.toNat % 16)]
    else [c]

def escape (s : List Char) : List Char := s.flatMap escapeChar

/-! ### Numbers -/

/-- A literal as the reader lets it pass, split into its parts. -/
def decimal (literal : List Char) : Number.Decimal :=
  let (negative, s) := match literal with
    | '-' :: r => (true, r)
    | s => (false, s)
  let whole := s.takeWhile Char.isDigit
  let s := s.dropWhile Char.isDigit
  let (fraction, s) := match s with
    | '.' :: r => (r.takeWhile Char.isDigit, r.dropWhile Char.isDigit)
    | s => ([], s)
  let exponent := match s with
    | _ :: r => (Number.Decimal.exponent? r).getD 0
    | [] => 0
  .ofParts negative whole fraction exponent (fraction.isEmpty && s.isEmpty)

namespace Value

def ofText (s : List Char) : Value := text (escape s)

def text? : Value → Option (List Char)
  | text body => unescape? body
  | _ => none

/-- A number below the end of the range of doubles. -/
def decimal? : Value → Option Number.Decimal
  | number literal =>
    let d := decimal literal
    if (d.magnitude .double).passesDouble then none else some d
  | _ => none

/-- A whole number; a zero with a sign is a fraction. -/
def int? (v : Value) : Option Int :=
  v.decimal?.bind fun d =>
    if d.whole && !(d.negative && d.significand == 0) then
      some (if d.negative then -(d.significand : Int) else d.significand)
    else none

def intWithin? (least greatest : Int) (v : Value) : Option Int :=
  v.int?.filter fun n => least ≤ n && n ≤ greatest

def float? (v : Value) : Option Float := v.decimal?.map (·.toFloat)

/--
A number below the end of the range of singles, rounded once. Only a whole number below the least
signed word of 64 bits is rounded to a double first, as long as its digits fit such a word.
-/
def float32? : Value → Option Float32
  | number literal =>
    let d := decimal literal
    if (d.magnitude .single).passesSingle then none
    else if d.whole && d.negative && 0x8000000000000000 < d.significand &&
        d.significand ≤ Number.max64 then
      some d.toFloat.toFloat32
    else some d.toFloat32
  | _ => none

/-! ### Records and variants -/

/-- The value of a member that occurs exactly once. -/
def single? (members : List (List Char × Value)) (name : String) : Option Value :=
  match members.filter fun m => m.1 = name.toList with
  | [m] => some m.2
  | _ => none

def named? (members : List (List Char × Value)) : Option (List (List Char × Value)) :=
  members.mapM fun m => (unescape? m.1).map fun name => (name, m.2)

/--
The fields of a record, in the order of their names. A record is an object in which each name occurs
once, among members of other names, or an array with one element a field.
-/
def fields? (names : List String) : Value → Option (List Value)
  | object members => (named? members).bind fun ms => names.mapM (single? ms)
  | array elements => if elements.length = names.length then some elements else none
  | _ => none

/-- The name of a variant and what it holds: a text, or an object with one member. -/
def variant? : Value → Option (List Char × Option Value)
  | text body => (unescape? body).map fun name => (name, none)
  | object [(key, v)] => (unescape? key).map fun name => (name, some v)
  | _ => none

end Value

end ScoreSynth.Json
