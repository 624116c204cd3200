import PatternAutomata.Text.Printable

/-! # Quoting a text on one line

A text is shown between quotation marks on one line. Single marks are used
unless the text holds a single mark and no double one. A backslash and the mark
in use are escaped, the common blanks have short names, and any other character
that is not printable is shown by its number in hexadecimal digits, in the shortest
of three widths. All other characters stand for themselves.
-/

namespace PatternAutomata.Text

/-- The number in lowercase hexadecimal digits, filled up with zeros. -/
def hexadecimal (width number : Nat) : List Char :=
  (Nat.toDigits 16 number).leftpad width '0'

/-- The escape of a character by its number: two, four or eight digits. -/
def numbered (character : Char) : List Char :=
  let number := character.toNat
  if number < 0x100 then '\\' :: 'x' :: hexadecimal 2 number
  else if number < 0x10000 then '\\' :: 'u' :: hexadecimal 4 number
  else '\\' :: 'U' :: hexadecimal 8 number

/-- How a character is written between the given quotation marks. -/
def written (mark character : Char) : List Char :=
  if character = mark || character = '\\' then ['\\', character]
  else if character = '\n' then ['\\', 'n']
  else if character = '\r' then ['\\', 'r']
  else if character = '\t' then ['\\', 't']
  else if isPrintable character then [character]
  else numbered character

/-- The single quotation mark. -/
def singleMark : Char := '\x27'

/-- The double quotation mark. -/
def doubleMark : Char := '\x22'

/-- The quotation marks for a text: double ones for a text that holds a single
mark and no double one, single ones for any other. -/
def markFor (text : List Char) : Char :=
  if singleMark ∈ text ∧ doubleMark ∉ text then doubleMark else singleMark

/-- The text between its quotation marks, on one line. -/
def quoted (text : String) : String :=
  let characters := text.toList
  let mark := markFor characters
  String.ofList (mark :: characters.flatMap (written mark) ++ [mark])

end PatternAutomata.Text
