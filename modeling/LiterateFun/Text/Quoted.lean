import LiterateFun.Text.Digits
import LiterateFun.Text.Visible

/-!
This module contains quoted text, the form of a string literal in a printed tree. A string stands
between double quotes, and every character without a visible form of its own is escaped.
-/

namespace LiterateFun.Text

def quoteChar (c : Char) : String :=
  if c = '\x00' then "\\0"
  else if c = '\t' then "\\t"
  else if c = '\r' then "\\r"
  else if c = '\n' then "\\n"
  else if c = '\\' then "\\\\"
  else if c = '"' then "\\\""
  else if isVisible c then String.singleton c
  else "\\u\x7b" ++ hex c.toNat ++ "\x7d"

def quote (s : String) : String :=
  "\"" ++ String.join (s.toList.map quoteChar) ++ "\""

end LiterateFun.Text
