import ScoreSynth.Notation.Reader
import ScoreSynth.Notation.Writer
import ScoreSynth.Prose.Conversion

/-!
# Generated text

Text that a language model wrote in place of prose is used if it has the shape of a score: a label,
a melodic token and a semicolon somewhere. Blanks and a code fence around it are ignored.
-/

namespace ScoreSynth.Prose

def isWordChar (c : Char) : Bool := c.isAlphanum || c == '_'

def isAsciiBlank (c : Char) : Bool :=
  c == ' ' || c == '\t' || c == '\n' || c == '\x0c' || c == '\r'

/-- Some colon follows a word, with at most ASCII blanks between; `last` is the character before. -/
def hasLabelAfter (last : Option Char) : List Char → Bool
  | [] => false
  | c :: s =>
    (c == ':' && last.any isWordChar) || hasLabelAfter (if isAsciiBlank c then last else some c) s

def hasLabel (text : List Char) : Bool := hasLabelAfter none text

def isUpperLetter (c : Char) : Bool := 'A' ≤ c && c ≤ 'G'

/-- A capital note letter, an optional accidental, digits, a point and a digit stand in front. -/
def startsWithNote : List Char → Bool
  | [] => false
  | letter :: s =>
    let s := match s with
      | '#' :: r => r
      | 'b' :: r => r
      | r => r
    match s.dropWhile Char.isDigit with
    | '.' :: d :: _ => isUpperLetter letter && s.head?.any Char.isDigit && d.isDigit
    | _ => false

def hasNote : List Char → Bool
  | [] => false
  | c :: s => startsWithNote (c :: s) || hasNote s

def looksLikeScore (text : List Char) : Bool :=
  text.contains ';' && hasLabel text && hasNote text

def fence : List Char := [Char.ofNat 0x60, Char.ofNat 0x60, Char.ofNat 0x60]

/--
What a fence at the front encloses. The rest of the opening line is a name of the language and does
not count; the closing fence may lack, or have blanks after it.
-/
def withoutFence (text : List Char) : List Char :=
  if fence.isPrefixOf text then
    match Text.cut '\n' (text.drop fence.length) with
    | none => []
    | some (_, rest) =>
      let ended := Text.trimRight rest
      Text.trim (if fence.isSuffixOf ended then ended.take (ended.length - fence.length) else rest)
  else text

def enclosed (generated : String) : List Char := withoutFence (Text.trim generated.toList)

def isAcceptable (generated : String) : Bool := looksLikeScore (enclosed generated)

def accept? (generated : String) : Option (Notation.Reading Score) :=
  if isAcceptable generated then some (Notation.readChars (enclosed generated)) else none

/-- The generated text where it is acceptable, and otherwise the prose as written music. -/
def written (generated : Option String) (prose : String) : String :=
  match generated.bind fun g => (accept? g).map fun _ => String.ofList (enclosed g) with
  | some text => text
  | none => Notation.write (score prose)

end ScoreSynth.Prose
