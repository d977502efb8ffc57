import ChatMarkup.Json.Basic

/-!
# Quoted texts

The two ways in which the markup writes a text as a string literal, both between backticks: plain
text keeps everything but backslashes and backticks as it is, code is escaped as in JSON, so that
it stands on one line.
-/

namespace ChatMarkup.Source

/-- A character of a plain text inside its literal. -/
def quoteChar (c : Char) : List Char :=
  if c = '\\' then ['\\', '\\'] else if c = '`' then ['\\', '`'] else [c]

/-- A plain text as a string literal. -/
def quote (text : String) : String :=
  "`" ++ String.ofList (text.toList.flatMap quoteChar) ++ "`"

/-- A character of a code text inside its literal. -/
def quoteCodeChar (c : Char) : List Char :=
  if c = '`' then ['\\', '`'] else Json.escapeChar c

/-- A code text as a string literal. -/
def quoteCode (text : String) : String :=
  "`" ++ String.ofList (text.toList.flatMap quoteCodeChar) ++ "`"

end ChatMarkup.Source
