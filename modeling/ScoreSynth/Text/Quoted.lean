import ScoreSynth.Text.Visible

/-!
# Quoted text

Text between double quotes, in which a quote, a backslash and the common controls have short escapes
and every other character that does not show by itself is written as its number.
-/

namespace ScoreSynth.Text

def numberEscape (c : Char) : List Char :=
  '\\' :: 'u' :: '\x7b' :: (Nat.toDigits 16 c.toNat ++ ['\x7d'])

def quoteChar (c : Char) : List Char :=
  match c with
  | '"' => ['\\', '"']
  | '\\' => ['\\', '\\']
  | '\n' => ['\\', 'n']
  | '\r' => ['\\', 'r']
  | '\t' => ['\\', 't']
  | '\x00' => ['\\', '0']
  | _ => if isVisible c then [c] else numberEscape c

def quote (s : List Char) : List Char := '"' :: (s.flatMap quoteChar ++ ['"'])

end ScoreSynth.Text
