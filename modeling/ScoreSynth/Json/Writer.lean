import ScoreSynth.Json.Value

/-!
# Writing JSON

Compact without any space, or spread over lines with two spaces a level and nothing between the
brackets of an empty list.
-/

namespace ScoreSynth.Json

def quoted (body : List Char) : List Char := '"' :: (body ++ ['"'])

mutual

def compact : Value → List Char
  | .null => "null".toList
  | .bool b => (if b then "true" else "false").toList
  | .number literal => literal
  | .text body => quoted body
  | .array elements => '[' :: (compactElements elements ++ [']'])
  | .object members => '{' :: (compactMembers members ++ ['}'])

def compactElements : List Value → List Char
  | [] => []
  | [v] => compact v
  | v :: vs => compact v ++ ',' :: compactElements vs

def compactMembers : List (List Char × Value) → List Char
  | [] => []
  | [(k, v)] => quoted k ++ ':' :: compact v
  | (k, v) :: ms => quoted k ++ ':' :: (compact v ++ ',' :: compactMembers ms)

end

def lineStart (depth : Nat) : List Char := '\n' :: List.replicate (2 * depth) ' '

mutual

def spread (depth : Nat) : Value → List Char
  | .null => "null".toList
  | .bool b => (if b then "true" else "false").toList
  | .number literal => literal
  | .text body => quoted body
  | .array [] => ['[', ']']
  | .array (v :: vs) =>
    '[' :: (spreadElements (depth + 1) (v :: vs) ++ lineStart depth ++ [']'])
  | .object [] => ['{', '}']
  | .object (m :: ms) =>
    '{' :: (spreadMembers (depth + 1) (m :: ms) ++ lineStart depth ++ ['}'])

def spreadElements (depth : Nat) : List Value → List Char
  | [] => []
  | [v] => lineStart depth ++ spread depth v
  | v :: vs => lineStart depth ++ spread depth v ++ ',' :: spreadElements depth vs

def spreadMembers (depth : Nat) : List (List Char × Value) → List Char
  | [] => []
  | [(k, v)] => lineStart depth ++ quoted k ++ ':' :: ' ' :: spread depth v
  | (k, v) :: ms =>
    lineStart depth ++ quoted k ++ ':' :: ' ' :: (spread depth v ++ ',' :: spreadMembers depth ms)

end

end ScoreSynth.Json
