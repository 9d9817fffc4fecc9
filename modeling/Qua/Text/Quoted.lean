/-!
# Quoted strings

String literals stand on one line between two equal quotes. Writing escapes the backslash, the line
break, the tab and the quote; reading resolves these and keeps the backslash of any other escape.
-/

namespace Qua.Text

/-- What is written for one character between quotes `q`. -/
def escape (q c : Char) : List Char :=
  if c = '\\' then ['\\', '\\']
  else if c = '\n' then ['\\', 'n']
  else if c = '\t' then ['\\', 't']
  else if c = q then ['\\', q]
  else [c]

/-- The string as a literal between quotes `q`. -/
def quoteWith (q : Char) (s : String) : String :=
  String.ofList (q :: s.toList.flatMap (escape q) ++ [q])

/-- The string as a literal in double quotes. -/
def quote (s : String) : String := quoteWith '"' s

/-- What an escaped character stands for. -/
def unescape (c : Char) : List Char :=
  if c = 'n' then ['\n']
  else if c = 't' then ['\t']
  else if c = '\\' ∨ c = '"' ∨ c = '\'' then [c]
  else ['\\', c]

/-- Reads a literal whose opening quote `q` has been read: its characters, and what follows the
closing quote. A line break or the end of the text leaves it unterminated. -/
def unquote (q : Char) : List Char → Option (List Char × List Char)
  | [] => none
  | ['\\'] => none
  | '\\' :: c :: rest => (unquote q rest).map fun (s, rest) => (unescape c ++ s, rest)
  | c :: rest =>
    if c = q then some ([], rest)
    else if c = '\n' then none
    else (unquote q rest).map fun (s, rest) => (c :: s, rest)

end Qua.Text
