import VersionedKeys.Text.Unprintable

/-!
# Quoted text

Texts that come from outside are shown in messages between double quotes,
with escapes for quotes, backslashes and whatever cannot be printed.
-/

namespace VersionedKeys.Text

/-- How a character stands between double quotes. -/
def quotedChar (char : Char) : String :=
  if char = '\x00' then "\\0"
  else if char = '\t' then "\\t"
  else if char = '\n' then "\\n"
  else if char = '\r' then "\\r"
  else if char = '"' then "\\\""
  else if char = '\\' then "\\\\"
  else if isUnprintable char then
    "\\u\x7b" ++ String.ofList (Nat.toDigits 16 char.toNat) ++ "\x7d"
  else char.toString

def quoted (text : String) : String :=
  "\"" ++ String.join (text.toList.map quotedChar) ++ "\""

end VersionedKeys.Text
