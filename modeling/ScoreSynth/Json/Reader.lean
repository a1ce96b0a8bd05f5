import ScoreSynth.Json.Value

/-!
# Reading JSON

A reader takes a value from the front of a text and returns what follows it. Each step takes a
character or goes one rule down, so twice the length of the text bounds the depth.
-/

namespace ScoreSynth.Json

def isSpace (c : Char) : Bool := c == ' ' || c == '\n' || c == '\t' || c == '\r'

def skipSpace (s : List Char) : List Char := s.dropWhile isSpace

def word? : List Char → List Char → Option (List Char)
  | [], s => some s
  | w :: ws, c :: s => if w = c then word? ws s else none
  | _ :: _, [] => none

def body? : List Char → Option (List Char × List Char)
  | '"' :: s => some ([], s)
  | '\\' :: 'u' :: a :: b :: c :: d :: s =>
    match hexUnit? a b c d with
    | none => none
    | some _ => (body? s).map fun (t, r) => ('\\' :: 'u' :: a :: b :: c :: d :: t, r)
  | '\\' :: e :: s =>
    match shortEscape? e with
    | none => none
    | some _ => (body? s).map fun (t, r) => ('\\' :: e :: t, r)
  | c :: s =>
    if c.toNat < 0x20 || c == '\\' then none else (body? s).map fun (t, r) => (c :: t, r)
  | [] => none

def digits? (s : List Char) : Option (List Char × List Char) :=
  if (s.takeWhile Char.isDigit).isEmpty then none
  else some (s.takeWhile Char.isDigit, s.dropWhile Char.isDigit)

/-- The digits before the point: no zero in front of others. -/
def whole? : List Char → Option (List Char × List Char)
  | '0' :: s => some (['0'], s)
  | s => digits? s

def fraction? : List Char → Option (List Char × List Char)
  | '.' :: s => (digits? s).map fun (d, r) => ('.' :: d, r)
  | s => some ([], s)

def exponent? : List Char → Option (List Char × List Char)
  | [] => some ([], [])
  | e :: s =>
    if e == 'e' || e == 'E' then
      match s with
      | '+' :: r => (digits? r).map fun (d, r) => (e :: '+' :: d, r)
      | '-' :: r => (digits? r).map fun (d, r) => (e :: '-' :: d, r)
      | r => (digits? r).map fun (d, r) => (e :: d, r)
    else some ([], e :: s)

def magnitude? (s : List Char) : Option (List Char × List Char) :=
  (whole? s).bind fun (w, s) =>
    (fraction? s).bind fun (f, s) => (exponent? s).map fun (e, s) => (w ++ f ++ e, s)

def literal? : List Char → Option (List Char × List Char)
  | '-' :: s => (magnitude? s).map fun (d, r) => ('-' :: d, r)
  | s => magnitude? s

mutual

def value? : Nat → List Char → Option (Value × List Char)
  | 0, _ => none
  | fuel + 1, s =>
    match skipSpace s with
    | '{' :: r =>
      match skipSpace r with
      | '}' :: r => some (.object [], r)
      | r => (members? fuel r).map fun (ms, r) => (.object ms, r)
    | '[' :: r =>
      match skipSpace r with
      | ']' :: r => some (.array [], r)
      | r => (elements? fuel r).map fun (vs, r) => (.array vs, r)
    | '"' :: r => (body? r).map fun (t, r) => (.text t, r)
    | 'n' :: r => (word? ['u', 'l', 'l'] r).map fun r => (.null, r)
    | 't' :: r => (word? ['r', 'u', 'e'] r).map fun r => (.bool true, r)
    | 'f' :: r => (word? ['a', 'l', 's', 'e'] r).map fun r => (.bool false, r)
    | r => (literal? r).map fun (d, r) => (.number d, r)

def elements? : Nat → List Char → Option (List Value × List Char)
  | 0, _ => none
  | fuel + 1, s =>
    (value? fuel s).bind fun (v, r) =>
      match skipSpace r with
      | ',' :: r => (elements? fuel r).map fun (vs, r) => (v :: vs, r)
      | ']' :: r => some ([v], r)
      | _ => none

def members? : Nat → List Char → Option (List (List Char × Value) × List Char)
  | 0, _ => none
  | fuel + 1, s =>
    match skipSpace s with
    | '"' :: r =>
      (body? r).bind fun (key, r) =>
        match skipSpace r with
        | ':' :: r =>
          (value? fuel r).bind fun (v, r) =>
            match skipSpace r with
            | ',' :: r => (members? fuel r).map fun (ms, r) => ((key, v) :: ms, r)
            | '}' :: r => some ([(key, v)], r)
            | _ => none
        | _ => none
    | _ => none

end

def read? (s : List Char) : Option Value :=
  (value? (2 * s.length + 2) s).bind fun (v, r) => if (skipSpace r).isEmpty then some v else none

end ScoreSynth.Json
