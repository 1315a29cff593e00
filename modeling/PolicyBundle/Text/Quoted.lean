import PolicyBundle.Text.Hidden

/-!
# Quoted text

The form in which messages and log lines show a text whose ends must be visible: between double
quotes, with a backslash before quotes and backslashes, letters for the common controls, and a
hexadecimal code point for every other character without a shape of its own.
-/

namespace PolicyBundle.Text

/-- A code point in hexadecimal digits, without leading zeros. -/
def hexadecimal (n : Nat) : List Char :=
  Nat.toDigits 16 n

/-- The form of one character between double quotes. -/
def quotedChar (c : Char) : List Char :=
  if c = '"' then ['\\', '"']
  else if c = '\\' then ['\\', '\\']
  else if c = '\n' then ['\\', 'n']
  else if c = '\r' then ['\\', 'r']
  else if c = '\t' then ['\\', 't']
  else if c.toNat = 0 then ['\\', '0']
  else if isHidden c then ['\\', 'u', '\x7b'] ++ hexadecimal c.toNat ++ ['\x7d']
  else [c]

/-- A text between double quotes. -/
def quoted (text : String) : String :=
  String.ofList ('"' :: text.toList.flatMap quotedChar ++ ['"'])

/-- A file path between double quotes. Unlike other texts it has a backslash before an apostrophe
also. -/
def quotedPath (path : String) : String :=
  let char (c : Char) := if c = '\'' then ['\\', '\''] else quotedChar c
  String.ofList ('"' :: path.toList.flatMap char ++ ['"'])

/-- A list of texts between square brackets. -/
def quotedList (texts : List String) : String :=
  let parts := texts.map fun text => (quoted text).toList
  String.ofList ('[' :: [',', ' '].intercalate parts ++ [']'])

end PolicyBundle.Text
