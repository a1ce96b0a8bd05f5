import ScoreSynth.Number.Radix
import ScoreSynth.Yaml.Cursor

/-!
# YAML scalars

The four ways in which a text is spelled: plain, between quotes, and in a block of lines that are
kept or folded. Each reader takes a spelling from the front of a prepared text and returns the text
that it stands for together with what follows.
-/

namespace ScoreSynth.Yaml

inductive Style where
  | plain
  | quoted
  | literal
  | folded
  deriving DecidableEq

/-- A text, how it is spelled, and its tag, if it has one. -/
structure Scalar where
  text : List Char
  style : Style
  tag : Option (List Char)

def Scalar.empty : Scalar := ⟨[], .plain, none⟩

/-! ### Folding -/

/-- What stands for line ends: of several the first is dropped, and one alone is a space. -/
def foldedBreaks : List Char → List Char
  | ['\n'] => [' ']
  | '\n' :: more => more
  | breaks => breaks

/-- What a run of blanks and line ends stands for. Blanks next to a line end do not count. -/
def foldedGap (gap : List Char) : List Char :=
  if gap.any isBreak then foldedBreaks (gap.filter isBreak) else gap

/-- Folds every gap before a word; `gap` holds the current one, the last character first. -/
def foldFrom (gap : List Char) : List Char → List Char × List Char
  | [] => ([], gap.reverse)
  | c :: s =>
    if isGap c then foldFrom (c :: gap) s
    else
      let (folded, last) := foldFrom [] s
      (foldedGap gap.reverse ++ c :: folded, last)

def foldTrimmed (s : List Char) : List Char := (foldFrom [] s).1

def fold (s : List Char) : List Char :=
  let (folded, last) := foldFrom [] s
  folded ++ foldedGap last

/-! ### Plain scalars -/

def isFlowIndicator (c : Char) : Bool := ",[]\x7b\x7d".toList.contains c

/--
The spelling of a plain scalar with the gap behind it, for a scalar in a block whose lines have an
indent of `least` or more. None if a tab stands in the indent, or if a colon in a flow collection
touches what cannot follow it.
-/
def plainSpan? (inFlow : Bool) (least : Nat) (afterGap afterBreak : Bool) (column : Nat) :
    List Char → Option (List Char)
  | [] => some []
  | c :: s =>
    if isBreak c then (plainSpan? inFlow least true true 0 s).map (c :: ·)
    else if isBlank c then
      if afterBreak && c == '\t' && column < least then none
      else (plainSpan? inFlow least true afterBreak (column + 1) s).map (c :: ·)
    else if afterGap && (c == '#' || (column == 0 && startsBound (c :: s)) ||
        (!inFlow && column < least)) then some []
    else if inFlow && c == ':' && s.head?.any (fun d => d == '?' || isFlowIndicator d) then none
    else if (c == ':' && atGap s) || (inFlow && isFlowIndicator c) then some []
    else (plainSpan? inFlow least false false (column + 1) s).map (c :: ·)

/-! ### Quoted scalars -/

/-- A line other than the first begins with a document's bound. -/
def holdsBound : List Char → Bool
  | [] => false
  | c :: s => (isBreak c && startsBound s) || holdsBound s

/-- What single quotes enclose, two of them standing for one, and what follows. -/
def singleQuoted? : List Char → Option (List Char × List Char)
  | [] => none
  | '\'' :: '\'' :: s => (singleQuoted? s).map fun (t, r) => ('\'' :: t, r)
  | '\'' :: s => some ([], s)
  | c :: s => (singleQuoted? s).map fun (t, r) => (c :: t, r)

/-- What double quotes enclose, escapes as they are spelled, and what follows. -/
def doubleQuoted? : List Char → Option (List Char × List Char)
  | [] => none
  | '"' :: s => some ([], s)
  | '\\' :: c :: s => (doubleQuoted? s).map fun (t, r) => ('\\' :: c :: t, r)
  | c :: s => (doubleQuoted? s).map fun (t, r) => (c :: t, r)

def shortEscape? : Char → Option Char
  | '0' => some '\x00'
  | 'a' => some '\x07'
  | 'b' => some '\x08'
  | 't' | '\t' => some '\t'
  | 'n' => some '\n'
  | 'v' => some '\x0b'
  | 'f' => some '\x0c'
  | 'r' => some '\r'
  | 'e' => some '\x1b'
  | ' ' => some ' '
  | '"' => some '"'
  | '/' => some '/'
  | '\\' => some '\\'
  | 'N' => some '\u0085'
  | '_' => some '\u00a0'
  | 'L' => some '\u2028'
  | 'P' => some '\u2029'
  | _ => none

/-- How many digits of a character's number follow an escape's letter. -/
def escapeDigits? : Char → Option Nat
  | 'x' => some 2
  | 'u' => some 4
  | 'U' => some 8
  | _ => none

/-- The character with a number; none for half a surrogate pair and past the last character. -/
def char? (n : Nat) : Option Char :=
  if n.isValidChar then some (Char.ofNat n) else none

/--
Works out the escapes and folds the gaps; `gap` holds the current gap, the last character first.
The line end of an escape at the end of a line does not count, nor do the blanks behind it.
-/
def unescape? (gap : List Char) (escapedBreak : Bool) (s : List Char) : Option (List Char) :=
  let before :=
    if escapedBreak then gap.reverse.filter isBreak else foldedGap gap.reverse
  match s with
  | [] => some before
  | '\\' :: c :: s =>
    if isBreak c then (unescape? [] true s).map (before ++ ·)
    else match escapeDigits? c with
      | some n =>
        if n ≤ s.length then
          ((Number.radixValue? 16 (s.take n)).bind char?).bind fun x =>
            (unescape? [] false (s.drop n)).map (before ++ x :: ·)
        else none
      | none =>
        (shortEscape? c).bind fun x => (unescape? [] false s).map (before ++ x :: ·)
  | c :: s =>
    if isGap c then unescape? (c :: gap) escapedBreak s
    else (unescape? [] false s).map (before ++ c :: ·)
termination_by s.length
decreasing_by
  all_goals simp only [List.length_cons, List.length_drop]
  all_goals omega

/-- A quoted scalar, from behind its first quote. -/
def quoted? (double : Bool) (s : List Char) : Option (List Char × List Char) :=
  (if double then doubleQuoted? s else singleQuoted? s).bind fun (body, rest) =>
    -- the bound of a document counts as one only with the text behind it
    if holdsBound (s.take (s.length - rest.length)) then none
    else if double then (unescape? [] false body).map fun t => (t, rest)
    else some (fold body, rest)

/-! ### Block scalars -/

/-- What happens to the line ends behind the last line. -/
inductive Chomp where
  | strip
  | clip
  | keep
  deriving DecidableEq

/-- The marks of a block scalar, in either order: its chomping and its indent in its block. -/
def blockMarks? (s : List Char) : Option (Chomp × Option Nat × List Char) :=
  let chomp? : Char → Option Chomp
    | '+' => some .keep
    | '-' => some .strip
    | _ => none
  match s with
  | [] => some (.clip, none, [])
  | c :: r =>
    match chomp? c with
    | some m =>
      match r with
      | [] => some (m, none, [])
      | d :: t =>
        if !d.isDigit then some (m, none, r)
        else if d == '0' then none
        else some (m, some (d.toNat - '0'.toNat), t)
    | none =>
      if !c.isDigit then some (.clip, none, s)
      else if c == '0' then none
      else
        let n := c.toNat - '0'.toNat
        match r with
        | [] => some (.clip, some n, [])
        | d :: t =>
          match chomp? d with
          | some m => some (m, some n, t)
          | none => some (.clip, some n, r)

/-- The text behind the rest of a line that holds blanks and a comment at most. -/
def lineEnd? (s : List Char) : Option (List Char) :=
  let r := match s.dropWhile isBlank with
    | '#' :: t => t.dropWhile (!isBreak ·)
    | t => t
  match r with
  | [] => some []
  | c :: t => if isBreak c then some t else none

structure Line where
  content : List Char
  ending : List Char

def linesFrom (line : List Char) : List Char → List Line
  | [] => [⟨line.reverse, []⟩]
  | c :: s => if isBreak c then ⟨line.reverse, [c]⟩ :: linesFrom [] s else linesFrom (c :: line) s

def lines (s : List Char) : List Line := linesFrom [] s

/--
The indent of a block, by its first line that holds more than spaces and by the longest line before
it. None if a tab stands in the indent.
-/
def blockIndent? (least : Nat) : List Line → Option Nat
  | [] => some least
  | l :: ls =>
    let spaces := (l.content.takeWhile (· == ' ')).length
    match l.content.drop spaces with
    | '\t' :: _ => none
    | [] => if l.ending.isEmpty then some (max least spaces) else blockIndent? (max least spaces) ls
    | _ => some (max least spaces)

structure Block where
  text : List Char
  /-- The line end behind the last line that is not empty. -/
  ending : List Char
  /-- The line ends behind that. -/
  empties : List Char
  /-- The last line begins with a blank. -/
  blankStart : Bool
  length : Nat

def Block.start : Block := ⟨[], [], [], false, 0⟩

/--
Adds a line. In a folded block the line end between two lines that do not begin with a blank
becomes a space, or goes if empty lines follow it.
-/
def Block.add (folded : Bool) (indent : Nat) (b : Block) (l : Line) : Block :=
  let content := l.content.drop indent
  let blankStart := content.head?.any isBlank
  let between :=
    if folded && b.ending == ['\n'] && !b.blankStart && !blankStart then
      if b.empties.isEmpty then [' '] else []
    else b.ending
  ⟨b.text ++ between ++ b.empties ++ content, l.ending, [], blankStart,
    b.length + l.content.length + l.ending.length⟩

/-- Adds lines up to the first with a smaller indent. None if a tab stands in the indent. -/
def Block.addLines? (folded : Bool) (indent : Nat) (b : Block) : List Line → Option Block
  | [] => some b
  | l :: ls =>
    let spaces := ((l.content.take indent).takeWhile (· == ' ')).length
    match l.content.drop spaces with
    | [] =>
      let b := { b with
        empties := b.empties ++ l.ending, length := b.length + spaces + l.ending.length }
      if l.ending.isEmpty then some b else Block.addLines? folded indent b ls
    | c :: _ =>
      if spaces < indent then
        if c == '\t' then none else some { b with length := b.length + spaces }
      else Block.addLines? folded indent (b.add folded indent l) ls

def Block.chomped (m : Chomp) (b : Block) : List Char :=
  match m with
  | .strip => b.text
  | .clip => b.text ++ b.ending
  | .keep => b.text ++ b.ending ++ b.empties

/--
A block scalar, from behind the character that opens it, inside a block at the column `parent` or
inside none.
-/
def block? (folded : Bool) (parent : Option Nat) (s : List Char) :
    Option (List Char × List Char) :=
  (blockMarks? s).bind fun (chomp, offset, s) =>
    (lineEnd? s).bind fun s =>
      let ls := lines s
      let indent? := match offset with
        | some n => some (parent.getD 0 + n)
        | none => blockIndent? (max 1 ((parent.map (· + 1)).getD 0)) ls
      indent?.bind fun indent =>
        (Block.start.addLines? folded indent ls).map fun b => (b.chomped chomp, s.drop b.length)

end ScoreSynth.Yaml
