import PrimalDual.Json.Number

/-!
# Writing JSON text

Texts carry no blanks, the fields of a record stand in a fixed order, and a string escapes the
quote, the backslash and the control characters.
-/
namespace PrimalDual.Json

def hexDigit (n : Nat) : Char := Nat.digitChar (n % 16)

def escapeChar (c : Char) : List Char :=
  match c with
  | '"' => ['\\', '"']
  | '\\' => ['\\', '\\']
  | '\x08' => ['\\', 'b']
  | '\x0c' => ['\\', 'f']
  | '\n' => ['\\', 'n']
  | '\r' => ['\\', 'r']
  | '\t' => ['\\', 't']
  | c =>
    if c.toNat < 0x20 then ['\\', 'u', '0', '0', hexDigit (c.toNat / 16), hexDigit c.toNat] else [c]

def stringText (s : String) : List Char :=
  '"' :: s.toList.flatMap escapeChar ++ ['"']

def boolText (b : Bool) : List Char := (if b then "true" else "false").toList

def natText (n : Nat) : List Char := Decimal.digits n

def optionText {α : Type} (text : α → List Char) : Option α → List Char
  | some a => text a
  | none => "null".toList

def separated (texts : List (List Char)) : List Char := [','].intercalate texts

def listText {α : Type} (text : α → List Char) (xs : List α) : List Char :=
  '[' :: separated (xs.map text) ++ [']']

def recordText (fields : List (String × List Char)) : List Char :=
  '\x7b' :: separated (fields.map fun (name, text) => stringText name ++ ':' :: text) ++ ['\x7d']

end PrimalDual.Json
