/-!
# Lines of a text

Lines end in a line break, before which one carriage return is dropped. A last line may lack its line
break.
-/

namespace Qua.Text

/-- Splits at the first line break, which belongs to neither part. -/
def splitLine : List Char → List Char × Option (List Char)
  | [] => ([], none)
  | c :: rest =>
    if c = '\n' then ([], some rest)
    else
      let (line, after) := splitLine rest
      (c :: line, after)

/-- Without one carriage return at its end. -/
def dropReturn (line : List Char) : List Char :=
  if line.getLast? = some '\r' then line.dropLast else line

/-- The first line of a text that is not empty. -/
def firstLine (text : List Char) : List Char :=
  match splitLine text with
  | (line, none) => line
  | (line, some _) => dropReturn line

/-- The lines of a text, the characters of the current one being `line`, in reverse. -/
def linesFrom : List Char → List Char → List (List Char)
  | [], [] => []
  | line@(_ :: _), [] => [line.reverse]
  | line, c :: rest =>
    if c = '\n' then dropReturn line.reverse :: linesFrom [] rest else linesFrom (c :: line) rest

def lines (text : String) : List String := (linesFrom [] text.toList).map String.ofList

end Qua.Text
