/-
  AccountSync.Yaml.Tag
  ────────────────────
  **NAMES, TAGS AND DIRECTIVES.**

  A tag is a handle and a suffix; directives say what handles stand for.  Bytes of a
  tag may be written as `%` and two digits, so that they need not be a text; a zero
  byte ends it.

      anchorName?   — the name behind the sign of an anchor or an alias
      uri?          — the bytes of a part of a tag
      tag?          — a tag
      directive?    — a directive
-/
import AccountSync.Json.Reader
import AccountSync.Text.Utf8
import AccountSync.Yaml.Cursor

namespace AccountSync.Yaml

/-- The name behind the sign of an anchor or an alias, and what follows it: a blank or a
character that cannot be part of a name but may stand there. -/
def anchorName? (cs : List Char) : Option (String × List Char) :=
  let name := cs.takeWhile isNameChar
  let rest := cs.drop name.length
  let mayFollow := ['?', ':', ',', ']', Text.rightBrace, '%', '@', '\x60']
  if name ≠ [] && (startsBlank rest || rest.head?.any mayFollow.contains) then
    some (String.ofList name, rest)
  else none

/-! ## Characters of tags -/

/-- A byte that is written as `%` and two digits. -/
def octet? : List Char → Option (Nat × List Char)
  | '%' :: a :: b :: rest => do pure (16 * (← Json.hexValue? a) + (← Json.hexValue? b), rest)
  | _ => none

/-- The bytes behind the first one of a character. -/
def octets? : Nat → List Char → Option (List Nat × List Char)
  | 0, cs => some ([], cs)
  | count + 1, cs => do
    let (byte, rest) ← octet? cs
    if 0x80 ≤ byte && byte < 0xc0 then
      let (bytes, rest) ← octets? count rest
      pure (byte :: bytes, rest)
    else none

/-- How many bytes follow the first one of a character. -/
def following? (lead : Nat) : Option Nat :=
  if lead < 0x80 then some 0
  else if lead < 0xc0 then none
  else if lead < 0xe0 then some 1
  else if lead < 0xf0 then some 2
  else if lead < 0xf8 then some 3
  else none

/-- The bytes of a character that is written byte by byte, and what follows it. -/
def escaped? (cs : List Char) : Option (List Nat × List Char) := do
  let (lead, rest) ← octet? cs
  let (bytes, rest) ← octets? (← following? lead) rest
  pure (lead :: bytes, rest)

/-- Whether a character may stand in a tag; commas and brackets may only where the tag is
written out in full. -/
def isUriChar (full : Bool) (c : Char) : Bool :=
  isNameChar c || ";/?:@&=+$.!~*'()".toList.contains c || (full && ",[]".toList.contains c)

/-- The bytes of the characters of a tag, and what follows them. -/
def uriBytes? (full : Bool) : Nat → List Char → Option (List Nat × List Char)
  | 0, cs => some ([], cs)
  | _ + 1, [] => some ([], [])
  | fuel + 1, c :: rest =>
    if c = '%' then do
      let (bytes, rest) ← escaped? (c :: rest)
      let (more, rest) ← uriBytes? full fuel rest
      pure (bytes ++ more, rest)
    else if isUriChar full c then do
      let (more, rest) ← uriBytes? full fuel rest
      pure (c.toNat :: more, rest)
    else some ([], c :: rest)

/-- The bytes that count: those in front of a zero. -/
def beforeZero (bytes : List Nat) : List Nat :=
  bytes.takeWhile (· ≠ 0)

/-- The bytes of a part of a tag that count, and what follows it.  At least one has to be
written. -/
def uri? (full : Bool) (cs : List Char) : Option (List Nat × List Char) := do
  let (bytes, rest) ← uriBytes? full cs.length cs
  if bytes = [] then none else pure (beforeZero bytes, rest)

/-! ## Tags -/

/-- The handle and the suffix of a tag behind its sign.  A tag in angle brackets is written out
in full and has no handle, and neither has the sign alone. -/
def tagParts? : List Char → Option ((String × List Nat) × List Char)
  | '<' :: cs => do
    let (uri, rest) ← uri? true cs
    match rest with
    | '>' :: rest => pure (("", uri), rest)
    | _ => none
  | cs => do
    let name := cs.takeWhile isNameChar
    match cs.drop name.length with
    | '!' :: rest =>
      let (suffix, rest) ← uri? false rest
      pure (("!" ++ String.ofList name ++ "!", suffix), rest)
    | rest =>
      let (more, rest) ← uriBytes? false rest.length rest
      let suffix := beforeZero (name.map Char.toNat ++ more)
      pure (if suffix = [] then ("", Utf8.encode "!") else ("!", suffix), rest)

/-- The handle and the suffix of a tag behind its sign, and what follows: a blank, or a comma
in brackets. -/
def tag? (inBrackets : Bool) (cs : List Char) :
    Option ((String × List Nat) × List Char) := do
  let (parts, rest) ← tagParts? cs
  if startsBlank rest || (inBrackets && rest.head? = some ',') then pure (parts, rest) else none

/-! ## Directives -/

/-- A directive. -/
inductive Directive where
  /-- The version of the language that a text is written in. -/
  | version (major minor : Nat)
  /-- What a handle stands for. -/
  | handle (name : String) (stem : List Nat)

/-- A number of at most nine digits. -/
def versionNumber? (cs : List Char) : Option (Nat × List Char) :=
  let digits := cs.takeWhile Char.isDigit
  if digits = [] || 9 < digits.length then none
  else some (Number.digitsValue digits, cs.drop digits.length)

/-- The version behind the name of its directive. -/
def version? (cs : List Char) : Option (Directive × List Char) := do
  let (major, rest) ← versionNumber? (cs.dropWhile isBlank)
  match rest with
  | '.' :: rest =>
    let (minor, rest) ← versionNumber? rest
    pure (.version major minor, rest)
  | _ => none

/-- A handle and what it stands for, behind the name of the directive. -/
def handle? (cs : List Char) : Option (Directive × List Char) := do
  match cs.dropWhile isBlank with
  | '!' :: rest =>
    let name := rest.takeWhile isNameChar
    let (handle, rest) ← match rest.drop name.length with
      | '!' :: rest => pure ("!" ++ String.ofList name ++ "!", rest)
      | rest => if name = [] then pure ("!", rest) else none
    if rest.head?.any isBlank then
      let (stem, rest) ← uri? true (rest.dropWhile isBlank)
      if startsBlank rest then pure (.handle handle stem, rest) else none
    else none
  | _ => none

/-- A directive behind its sign, and the text behind its line. -/
def directive? (cs : List Char) : Option (Directive × List Char) := do
  let name := cs.takeWhile isNameChar
  let rest := cs.drop name.length
  if !startsBlank rest then none
  else
    let (directive, rest) ←
      if name = "YAML".toList then version? rest
      else if name = "TAG".toList then handle? rest
      else none
    pure (directive, (← lineEnd? rest).drop 1)

end AccountSync.Yaml
