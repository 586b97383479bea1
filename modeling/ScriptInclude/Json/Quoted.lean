/-!
# Quoted JSON strings

A quote, a backslash and the control characters below U+0020 are escaped, all else stands for itself.
Five control characters have short escapes; the others take four hexadecimal digits.
-/

namespace ScriptInclude.Json

def hexDigit (n : Nat) : Char := Char.ofNat (if n < 10 then n + 48 else n + 87)

def shortEscape? : Char → Option Char
  | '"' => some '"'
  | '\\' => some '\\'
  | '\n' => some 'n'
  | '\r' => some 'r'
  | '\t' => some 't'
  | c => if c.toNat = 8 then some 'b' else if c.toNat = 12 then some 'f' else none

def escapeChar (c : Char) : List Char :=
  match shortEscape? c with
  | some e => ['\\', e]
  | none =>
    if c.toNat < 32 then ['\\', 'u', '0', '0', hexDigit (c.toNat / 16), hexDigit (c.toNat % 16)] else [c]

def escape (cs : List Char) : List Char := cs.flatMap escapeChar

def quote (s : String) : String := String.ofList ('"' :: escape s.toList ++ ['"'])

end ScriptInclude.Json
