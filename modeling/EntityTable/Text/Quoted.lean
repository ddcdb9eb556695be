import EntityTable.Text.Property

/-!
Text as shown in a message: quoted, with everything that would not print escaped.
-/

namespace EntityTable.Text

/-- An escape has two, four or eight hexadecimal digits, whichever is the first to suffice. -/
def numericEscape (c : CodePoint) : Text :=
  if c.val ≤ 0xFF then concat ["\\x", hex 2 c.val]
  else if c.val ≤ 0xFFFF then concat ["\\u", hex 4 c.val]
  else concat ["\\U", hex 8 c.val]

def quoteCodePoint (mark c : CodePoint) : Text :=
  if c = mark ∨ c = CodePoint.backslash then [CodePoint.backslash, c]
  else if c = '\n' then "\\n"
  else if c = '\r' then "\\r"
  else if c = '\t' then "\\t"
  else if c.isPrintable then [c]
  else numericEscape c

/-- Double quotes are used only where the text has a single quote and no double one. -/
def quoteMark (t : Text) : CodePoint :=
  if t.contains CodePoint.singleQuote && !t.contains CodePoint.doubleQuote then
    CodePoint.doubleQuote
  else CodePoint.singleQuote

def quoted (t : Text) : Text :=
  let mark := quoteMark t
  mark :: t.flatMap (quoteCodePoint mark) ++ [mark]

end EntityTable.Text
