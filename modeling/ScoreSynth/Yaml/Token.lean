import ScoreSynth.Yaml.Scalar

/-!
# YAML tokens

What a text is made of before its nesting is known. Indentation is told by the tokens that open and
close blocks. A key shows itself only at the colon behind it, so its token is put in later, in front
of what turns out to be the key.
-/

namespace ScoreSynth.Yaml

inductive Token where
  | documentStart
  | documentEnd
  | version (major minor : Nat)
  /-- A handle and the text that tags with this handle begin with. -/
  | handle (name stem : List Char)
  | blockListStart
  | blockMapStart
  | blockEnd
  | listStart
  | listEnd
  | mapStart
  | mapEnd
  | comma
  | item
  | key
  | value
  | alias (name : List Char)
  | anchor (name : List Char)
  | tag (handle suffix : List Char)
  | scalar (style : Style) (text : List Char)
  deriving DecidableEq

/-! ### Names, tags and directives -/

def isNameChar (c : Char) : Bool := c.isAlphanum || c == '_' || c == '-'

/-- What may follow a name without a gap. -/
def endsName (c : Char) : Bool := isGap c || "?:,]\x7d%@".toList.contains c || c.toNat == 0x60

def anchorName? (s : List Char) : Option (List Char × List Char) :=
  let name := s.takeWhile isNameChar
  let rest := s.dropWhile isNameChar
  if name.isEmpty || !rest.head?.all endsName then none else some (name, rest)

def isTagChar (verbatim : Bool) (c : Char) : Bool :=
  isNameChar c || ";/?:@&=+$.!~*'()".toList.contains c || (verbatim && ",[]".toList.contains c)

/-- How many octets a character has whose first octet this is, if it can be a first one. -/
def octets? (first : Nat) : Option Nat :=
  if first < 0x80 then some 1
  else if first / 0x20 = 6 then some 2
  else if first / 0x10 = 14 then some 3
  else if first / 8 = 30 then some 4
  else none

/--
The text of a tag from the front of a text. Escaped octets, of which `due` belong to a character
that has begun, stand as the characters of their numbers.
-/
def tagText? (verbatim : Bool) (due : Nat) : List Char → Option (List Char × List Char)
  | '%' :: a :: b :: s =>
    (Number.radixValue? 16 [a, b]).bind fun octet =>
      let due? :=
        if due = 0 then (octets? octet).map (· - 1)
        else if octet / 0x40 = 2 then some (due - 1)
        else none
      due?.bind fun due =>
        (tagText? verbatim due s).map fun (t, r) => (Char.ofNat octet :: t, r)
  | c :: s =>
    if due = 0 && isTagChar verbatim c then
      (tagText? verbatim 0 s).map fun (t, r) => (c :: t, r)
    else if due = 0 && c != '%' then some ([], c :: s)
    else none
  | [] => if due = 0 then some ([], []) else none

/-- A tag ends at a zero. -/
def cutAtZero (s : List Char) : List Char := s.takeWhile (· != '\x00')

/-- The text of a tag behind `front`, unless both are empty. -/
def tagRest? (verbatim : Bool) (front s : List Char) : Option (List Char × List Char) :=
  (tagText? verbatim 0 s).bind fun (t, r) =>
    if front.isEmpty && r.length = s.length then none else some (cutAtZero (front.drop 1 ++ t), r)

/-- An exclamation mark, name characters, and a second exclamation mark if there is one. -/
def handleText? (s : List Char) : Option (List Char × List Char) :=
  match s with
  | '!' :: s =>
    let name := s.takeWhile isNameChar
    match s.dropWhile isNameChar with
    | '!' :: r => some ('!' :: (name ++ ['!']), r)
    | r => some ('!' :: name, r)
  | _ => none

/-- A handle between two exclamation marks. -/
def isNamedHandle (h : List Char) : Bool := 1 < h.length && h.getLast? == some '!'

def tagParts? (s : List Char) : Option (List Char × List Char × List Char) :=
  match s with
  | '!' :: '<' :: s =>
    (tagRest? true [] s).bind fun (t, r) =>
      match r with
      | '>' :: r => some ([], t, r)
      | _ => none
  | s =>
    (handleText? s).bind fun (h, s) =>
      if isNamedHandle h then (tagRest? false [] s).map fun (t, r) => (h, t, r)
      else
        (tagRest? false h s).map fun (t, r) =>
          if t.isEmpty then ([], ['!'], r) else (['!'], t, r)

def tag? (inFlow : Bool) (s : List Char) : Option (Token × List Char) :=
  (tagParts? s).bind fun (h, t, r) =>
    if atGap r || (inFlow && r.head? == some ',') then some (.tag h t, r) else none

/-- A part of a version: nine digits at most. -/
def versionPart? (s : List Char) : Option (Nat × List Char) :=
  let digits := s.takeWhile Char.isDigit
  if 9 < digits.length then none
  else (Number.radixValue? 10 digits).map fun n => (n, s.dropWhile Char.isDigit)

def version? (s : List Char) : Option (Token × List Char) :=
  (versionPart? (s.dropWhile isBlank)).bind fun (major, s) =>
    match s with
    | '.' :: s => (versionPart? s).map fun (minor, s) => (.version major minor, s)
    | _ => none

def handle? (s : List Char) : Option (Token × List Char) :=
  (handleText? (s.dropWhile isBlank)).bind fun (h, s) =>
    if (isNamedHandle h || h == ['!']) && s.head?.any isBlank then
      (tagRest? true [] (s.dropWhile isBlank)).bind fun (t, s) =>
        if atGap s then some (.handle h t, s) else none
    else none

/-- A directive, from behind its percent sign, with the end of its line. -/
def directive? (s : List Char) : Option (Token × List Char) :=
  let name := s.takeWhile isNameChar
  let rest := s.dropWhile isNameChar
  let token? :=
    if !atGap rest then none
    else if name == "YAML".toList then version? rest
    else if name == "TAG".toList then handle? rest
    else none
  token?.bind fun (t, rest) => (lineEnd? rest).map fun rest => (t, rest)

/-! ### Scanning -/

/-- A place where a key may have begun, and how many tokens come before it. -/
structure KeyStart where
  /-- Nothing but a key can stand here. -/
  required : Bool
  tokens : Nat
  line : Nat
  column : Nat

/-- A key is over at the end of its line and after 1024 characters. -/
def KeyStart.isOver (k : KeyStart) (c : Cursor) : Bool :=
  k.line < c.line || k.column + 1024 < c.column

structure Scan where
  place : Cursor
  /-- The tokens so far, the last first. -/
  tokens : List Token
  /-- The columns of the open blocks, the innermost first. -/
  blocks : List Nat
  /-- Where a key may have begun in the current collection. -/
  keyStart : Option KeyStart
  /-- The same for the flow collections around it and the block around those. -/
  outer : List (Option KeyStart)
  /-- A key may begin here. -/
  keyAllowed : Bool

namespace Scan

def start (text : List Char) : Scan := ⟨.start text, [], [], none, [], true⟩

def inFlow (s : Scan) : Bool := !s.outer.isEmpty

def emit (t : Token) (s : Scan) : Scan := { s with tokens := t :: s.tokens }

def take (t : Token) (rest : List Char) (s : Scan) : Scan :=
  { s.emit t with place := s.place.upTo rest }

def dropOver? (c : Cursor) : Option KeyStart → Option (Option KeyStart)
  | none => some none
  | some k => if k.isOver c then if k.required then none else some none else some (some k)

def forgetOver? (s : Scan) : Option Scan :=
  (dropOver? s.place s.keyStart).bind fun k =>
    (s.outer.mapM (dropOver? s.place)).map fun ks => { s with keyStart := k, outer := ks }

def forgetKey? (s : Scan) : Option Scan :=
  if s.keyStart.any KeyStart.required then none else some { s with keyStart := none }

def saveKey? (s : Scan) : Option Scan :=
  if !s.keyAllowed then some s
  else
    let required := !s.inFlow && s.blocks.head? == some s.place.column
    s.forgetKey?.map fun s => { s with
      keyStart := some ⟨required, s.tokens.length, s.place.line, s.place.column⟩ }

/-- Closes the blocks at `least` and to the right of it. -/
def closeFrom (least : Nat) (s : Scan) : Scan :=
  if s.inFlow then s
  else
    let closed := s.blocks.takeWhile (least ≤ ·)
    { s with
      blocks := s.blocks.dropWhile (least ≤ ·)
      tokens := closed.map (fun _ => Token.blockEnd) ++ s.tokens }

/-- Opens a block at a column, unless one is open there, with its token after `count` others. -/
def openBlock (t : Token) (column count : Nat) (s : Scan) : Scan :=
  if s.inFlow || !s.blocks.head?.all (· < column) then s
  else
    let later := s.tokens.length - count
    { s with
      blocks := column :: s.blocks
      tokens := s.tokens.take later ++ t :: s.tokens.drop later }

def openHere (t : Token) (s : Scan) : Scan := s.openBlock t s.place.column s.tokens.length

def allowKey (allowed : Bool) (s : Scan) : Scan := { s with keyAllowed := allowed }

def mark (t : Token) (n : Nat) (s : Scan) : Scan := s.take t (s.place.rest.drop n)

/-- A mark that begins an entry of a block or, where the block has none yet, the block too. -/
def blockMark? (block t : Token) (keyNext : Bool) (s : Scan) : Option Scan :=
  if s.inFlow then s.forgetKey?.map fun s => (s.allowKey keyNext).mark t 1
  else if s.keyAllowed then
    (s.openHere block).forgetKey?.map fun s => (s.allowKey true).mark t 1
  else none

/-- A colon behind a key, or behind nothing. -/
def valueMark? (s : Scan) : Option Scan :=
  match s.keyStart with
  | some k =>
    let later := s.tokens.length - k.tokens
    let s := { s with
      tokens := s.tokens.take later ++ Token.key :: s.tokens.drop later
      keyStart := none }
    some (((s.openBlock .blockMapStart k.column k.tokens).allowKey false).mark .value 1)
  | none =>
    if s.inFlow then some ((s.allowKey false).mark .value 1)
    else if s.keyAllowed then some (((s.openHere .blockMapStart).allowKey true).mark .value 1)
    else none

def flowStart? (t : Token) (s : Scan) : Option Scan :=
  s.saveKey?.map fun s =>
    ({ s with keyStart := none, outer := s.keyStart :: s.outer }.allowKey true).mark t 1

def flowEnd? (t : Token) (s : Scan) : Option Scan :=
  s.forgetKey?.map fun s =>
    ({ s with keyStart := s.outer.head?.join, outer := s.outer.drop 1 }.allowKey false).mark t 1

/-- The bound of a document, or a directive, closes all blocks. -/
def bound? (s : Scan) : Option Scan := (s.closeFrom 0).forgetKey?.map (allowKey false)

/-- A token that may begin a key, and that no other key can follow. -/
def keyToken? (read? : List Char → Option (Token × List Char)) (s : Scan) : Option Scan :=
  s.saveKey?.bind fun s =>
    (read? s.place.rest).map fun (t, rest) => (s.allowKey false).take t rest

/-- A plain scalar; a line end behind it allows a key again. -/
def plain? (s : Scan) : Option Scan :=
  s.saveKey?.bind fun s =>
    let least := (s.blocks.head?.map (· + 1)).getD 0
    (plainSpan? s.inFlow least false false s.place.column s.place.rest).map fun span =>
      let gap := span.reverse.takeWhile isGap
      (s.allowKey (gap.any isBreak)).take (.scalar .plain (foldTrimmed span))
        (s.place.rest.drop span.length)

def blockScalar? (folded : Bool) (s : Scan) : Option Scan :=
  s.forgetKey?.bind fun s =>
    (block? folded s.blocks.head? (s.place.rest.drop 1)).map fun (t, rest) =>
      (s.allowKey true).take (.scalar (if folded then .folded else .literal) t) rest

def quotedToken? (s : List Char) : Option (Token × List Char) :=
  (quoted? (s.head? == some '"') (s.drop 1)).map fun (t, rest) => (.scalar .quoted t, rest)

def anchorToken? (t : List Char → Token) (s : List Char) : Option (Token × List Char) :=
  (anchorName? (s.drop 1)).map fun (name, rest) => (t name, rest)

/-- Characters that begin no plain scalar, whatever follows them. -/
def isIndicator (c : Char) : Bool :=
  ",[]\x7b\x7d#&*!|>'\"%@".toList.contains c || c.toNat == 0x60

/-- The token that begins with a character `c` in front of `next`. -/
def token? (c : Char) (next : List Char) (s : Scan) : Option Scan :=
  if s.place.column == 0 && c == '%' then
    s.bound?.bind fun s => (directive? next).map fun (t, rest) => s.take t rest
  else if s.place.column == 0 && startsBound (c :: next) then
    s.bound?.map (mark (if c == '-' then .documentStart else .documentEnd) 3)
  else if c == '[' then s.flowStart? .listStart
  else if c == '\x7b' then s.flowStart? .mapStart
  else if c == ']' then s.flowEnd? .listEnd
  else if c == '\x7d' then s.flowEnd? .mapEnd
  else if c == ',' then s.forgetKey?.map fun s => (s.allowKey true).mark .comma 1
  else if c == '-' && atGap next then s.blockMark? .blockListStart .item true
  else if c == '?' && (s.inFlow || atGap next) then s.blockMark? .blockMapStart .key false
  else if c == ':' && (s.inFlow || atGap next) then s.valueMark?
  else if c == '*' then s.keyToken? (anchorToken? .alias)
  else if c == '&' then s.keyToken? (anchorToken? .anchor)
  else if c == '!' then s.keyToken? (tag? s.inFlow)
  else if c == '|' && !s.inFlow then s.blockScalar? false
  else if c == '>' && !s.inFlow then s.blockScalar? true
  else if c == '\'' || c == '"' then s.keyToken? quotedToken?
  else if isGap c || isIndicator c then none
  else s.plain?

/-- Goes on to the next token, with the blocks closed that end before it. -/
def seek? (s : Scan) : Option Scan :=
  let landing := s.place.toToken (s.inFlow || !s.keyAllowed) s.inFlow
  let allowed := s.keyAllowed || (landing.crossedBreak && !s.inFlow)
  let s := { s with place := landing.place, keyAllowed := allowed }
  s.forgetOver?.map fun s => s.closeFrom (s.place.column + 1)

/-- All tokens from here on. Each takes a character at least, so the text's length is enough. -/
def run? : Nat → Scan → Option (List Token)
  | 0, _ => none
  | fuel + 1, s =>
    s.seek?.bind fun s =>
      match s.place.rest with
      | [] => (s.closeFrom 0).forgetKey?.map fun s => s.tokens.reverse
      | c :: next => (s.token? c next).bind (run? fuel)

end Scan

def tokens? (text : List Char) : Option (List Token) :=
  (Scan.start text).run? (text.length + 1)

end ScoreSynth.Yaml
