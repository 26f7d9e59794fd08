/-
  AccountSync.Json.Writer
  ───────────────────────
  **WRITING JSON.**

      Json.compact   — no spaces at all
      Json.pretty    — one entry a line, indented by two spaces; empty arrays and
                       objects stay on one line

  Strings escape the quote, the backslash and control characters below U+0020;
  every other character is written as it is.
-/
import AccountSync.Json.Basic
import AccountSync.Text.Split

namespace AccountSync.Json

/-- The low four bits of a number as a hexadecimal digit. -/
def hexDigit (n : Nat) : Char :=
  Nat.digitChar (n % 16)

/-- A character as it stands inside a string. -/
def escapeChar (c : Char) : List Char :=
  if c = '"' then ['\\', '"']
  else if c = '\\' then ['\\', '\\']
  else if c = '\x08' then ['\\', 'b']
  else if c = '\t' then ['\\', 't']
  else if c = '\n' then ['\\', 'n']
  else if c = '\x0c' then ['\\', 'f']
  else if c = '\r' then ['\\', 'r']
  else if c.toNat < 0x20 then ['\\', 'u', '0', '0', hexDigit (c.toNat / 16), hexDigit c.toNat]
  else [c]

/-- A string in quotes. -/
def quoted (s : String) : String :=
  "\"" ++ String.ofList (s.toList.flatMap escapeChar) ++ "\""

mutual

/-- Data without any spaces. -/
def compact : Json → String
  | .null => "null"
  | .bool true => "true"
  | .bool false => "false"
  | .number n => n.text
  | .string s => quoted s
  | .array items => "[" ++ compactItems items ++ "]"
  | .object entries => Text.braced (compactEntries entries)

/-- The items of an array, separated by commas. -/
def compactItems : List Json → String
  | [] => ""
  | [j] => compact j
  | j :: rest => compact j ++ "," ++ compactItems rest

/-- The entries of an object, separated by commas. -/
def compactEntries : List (String × Json) → String
  | [] => ""
  | [(k, j)] => quoted k ++ ":" ++ compact j
  | (k, j) :: rest => quoted k ++ ":" ++ compact j ++ "," ++ compactEntries rest

end

/-- A line break followed by the indentation of the given depth. -/
def newline (depth : Nat) : String :=
  "\n" ++ String.ofList (List.replicate (2 * depth) ' ')

mutual

/-- Data over several lines, starting at the given depth. -/
def prettyAt (depth : Nat) : Json → String
  | .null => "null"
  | .bool true => "true"
  | .bool false => "false"
  | .number n => n.text
  | .string s => quoted s
  | .array [] => "[]"
  | .array items => "[" ++ prettyItems (depth + 1) items ++ newline depth ++ "]"
  | .object [] => Text.braced ""
  | .object entries => Text.braced (prettyEntries (depth + 1) entries ++ newline depth)

/-- The items of an array, each on lines of its own. -/
def prettyItems (depth : Nat) : List Json → String
  | [] => ""
  | [j] => newline depth ++ prettyAt depth j
  | j :: rest => newline depth ++ prettyAt depth j ++ "," ++ prettyItems depth rest

/-- The entries of an object, each on lines of its own. -/
def prettyEntries (depth : Nat) : List (String × Json) → String
  | [] => ""
  | [(k, j)] => newline depth ++ quoted k ++ ": " ++ prettyAt depth j
  | (k, j) :: rest =>
    newline depth ++ quoted k ++ ": " ++ prettyAt depth j ++ "," ++ prettyEntries depth rest

end

/-- Data over several lines. -/
def pretty (j : Json) : String :=
  prettyAt 0 j

end AccountSync.Json
