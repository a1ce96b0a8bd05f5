/-!
# Places in a YAML text

Which characters a text may hold, which of them end a line, and a place in a text. A text is
prepared once: afterwards every line end is one character.
-/

namespace ScoreSynth.Yaml

/-! ### Characters -/

/-- A text holds no other characters, comments included. -/
def isAllowed (c : Char) : Bool :=
  let n := c.toNat
  n == 0x9 || n == 0xA || n == 0xD || (0x20 ≤ n && n ≤ 0x7E) || n == 0x85 ||
    (0xA0 ≤ n && n ≤ 0xD7FF) || (0xE000 ≤ n && n ≤ 0xFFFD) || 0x10000 ≤ n

/-- The line and the paragraph separator end a line and stay what they are. -/
def isSeparator (c : Char) : Bool := c.toNat == 0x2028 || c.toNat == 0x2029

/-- A character that ends a line in a prepared text. -/
def isBreak (c : Char) : Bool := c == '\n' || isSeparator c

def isBlank (c : Char) : Bool := c == ' ' || c == '\t'

def isGap (c : Char) : Bool := isBlank c || isBreak c

/-- The text begins with a blank or a line end, or is empty. -/
def atGap (s : List Char) : Bool := s.head?.all isGap

/-- A byte order mark, which may stand at the start of a line. -/
def isMark (c : Char) : Bool := c.toNat == 0xFEFF

/-- A carriage return, alone or before a line feed, and a next-line character are line feeds. -/
def unifyBreaks : List Char → List Char
  | [] => []
  | '\r' :: '\n' :: s => '\n' :: unifyBreaks s
  | '\r' :: s => '\n' :: unifyBreaks s
  | c :: s => (if c.toNat == 0x85 then '\n' else c) :: unifyBreaks s

/-- The text with one character a line end, if it holds no character that is not allowed. -/
def prepare? (s : List Char) : Option (List Char) :=
  if s.all isAllowed then some (unifyBreaks s) else none

/-- Three dashes or dots, with a gap behind them: at the start of a line, a document's bound. -/
def startsBound : List Char → Bool
  | '-' :: '-' :: '-' :: s => atGap s
  | '.' :: '.' :: '.' :: s => atGap s
  | _ => false

/-! ### Places -/

/-- What is left of a prepared text, and where in the text that is. -/
structure Cursor where
  rest : List Char
  line : Nat
  column : Nat

namespace Cursor

def start (text : List Char) : Cursor := ⟨text, 0, 0⟩

def next (c : Cursor) : Cursor :=
  match c.rest with
  | [] => c
  | x :: s => if isBreak x then ⟨s, c.line + 1, 0⟩ else ⟨s, c.line, c.column + 1⟩

def skip : Nat → Cursor → Cursor
  | 0, c => c
  | n + 1, c => skip n c.next

def upTo (c : Cursor) (rest : List Char) : Cursor := c.skip (c.rest.length - rest.length)

structure Landing where
  place : Cursor
  crossedBreak : Bool

/--
Goes on to the next token. A tab counts as a blank only where `tabs` says so, which line ends change
to `tabsAfterBreak`.
-/
def seek (tabs tabsAfterBreak inComment crossed : Bool) (line column : Nat) :
    List Char → Landing
  | [] => ⟨⟨[], line, column⟩, crossed⟩
  | c :: s =>
    if isBreak c then seek tabsAfterBreak tabsAfterBreak false true (line + 1) 0 s
    else if inComment || c == '#' then seek tabs tabsAfterBreak true crossed line (column + 1) s
    else if c == ' ' || (c == '\t' && tabs) || (isMark c && column == 0) then
      seek tabs tabsAfterBreak false crossed line (column + 1) s
    else ⟨⟨c :: s, line, column⟩, crossed⟩

def toToken (tabs tabsAfterBreak : Bool) (c : Cursor) : Landing :=
  seek tabs tabsAfterBreak false false c.line c.column c.rest

end Cursor

end ScoreSynth.Yaml
