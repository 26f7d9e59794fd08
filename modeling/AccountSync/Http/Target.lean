/-
  AccountSync.Http.Target
  ───────────────────────
  **WHAT OF A URL IS SENT TO THE SERVER.**

  A server is sent the path and the query of a url.  Characters that may not stand
  there are written as the bytes of their text in hexadecimal digits after a percent
  sign, and segments of the path that are points lead nowhere or back.

      Target.leadsTo   — whether a url is one of a server
      Target.ofUrl     — path and query of a url
-/
import AccountSync.Text.Split
import AccountSync.Text.Utf8

namespace AccountSync.Target

/-- A hexadecimal digit. -/
def hexDigit (n : Nat) : Char :=
  (Nat.digitChar (n % 16)).toUpper

/-- A byte in hexadecimal digits after a percent sign. -/
def percent (b : Nat) : List Char :=
  ['%', hexDigit (b / 16), hexDigit b]

/-- A text with the characters of a set written as bytes. -/
def escape (set : Char → Bool) (cs : List Char) : List Char :=
  cs.flatMap (fun c =>
    if set c then (Utf8.encode (String.ofList [c])).flatMap percent else [c])

/-- Characters that may stand nowhere in a url. -/
def isForeign (c : Char) : Bool :=
  c.toNat ≤ 0x20 || 0x7E < c.toNat || ['"', '#', '<', '>'].contains c

/-- Characters that may not stand in a query. -/
def notInQuery (c : Char) : Bool :=
  isForeign c || c = '\''

/-- Characters that may not stand in a path. -/
def notInPath (c : Char) : Bool :=
  isForeign c || ['?', '^', '\x60', Text.leftBrace, Text.rightBrace].contains c

/-- A segment with its escaped points written as points. -/
def plainPoints : List Char → List Char
  | '%' :: '2' :: c :: rest =>
    if c = 'e' ∨ c = 'E' then '.' :: plainPoints rest else '%' :: '2' :: c :: plainPoints rest
  | c :: rest => c :: plainPoints rest
  | [] => []

/-- The segments of a path from the last one back, with a further one added. -/
def addSegment (segments : List (List Char)) (isLast : Bool) (segment : List Char) :
    List (List Char) :=
  if plainPoints segment = ['.', '.'] then
    (if isLast then [[]] else []) ++ segments.tail
  else if plainPoints segment = ['.'] then
    (if isLast then [[]] else []) ++ segments
  else escape notInPath segment :: segments

/-- The segments of a path from the last one back. -/
def normalSegments : List (List Char) → List (List Char) → List (List Char)
  | segments, [] => segments
  | segments, [last] => addSegment segments true last
  | segments, segment :: rest => normalSegments (addSegment segments false segment) rest

/-- A path as it is sent; it starts with a slash. -/
def normalPath (path : List Char) : List Char :=
  let slashed := path.map (fun c => if c = '\\' then '/' else c)
  let segments := Text.splitAt '/' (match slashed with
    | '/' :: rest => rest
    | rest => rest)
  '/' :: Text.joinWith '/' (normalSegments [] segments).reverse

/-- The url without blanks around it and without breaks and tabs in it. -/
def cleaned (cs : List Char) : List Char :=
  let isBlank (c : Char) : Bool := c.toNat ≤ 0x20
  ((cs.dropWhile isBlank).reverse.dropWhile isBlank).reverse.filter
    (fun c => c ≠ '\t' && c ≠ '\n' && c ≠ '\r')

/-- What follows the server's name in a url. -/
def afterServer (cs : List Char) : List Char :=
  let afterScheme := ((cs.dropWhile (· ≠ ':')).drop 1).dropWhile (fun c => c = '/' || c = '\\')
  afterScheme.dropWhile (fun c => c ≠ '/' && c ≠ '\\' && c ≠ '?' && c ≠ '#')

/-- Whether a url leads to a server, which is given by all that stands in front of a path. -/
def leadsTo (server url : String) : Bool :=
  match Text.afterStem? server.toList url.toList with
  | some [] => true
  | some (c :: _) => ['/', '\\', '?', '#'].contains c
  | none => false

/-- Path and query of a url as they are sent. -/
def ofUrl (url : String) : String :=
  let rest := (afterServer (cleaned url.toList)).takeWhile (· ≠ '#')
  let path := normalPath (rest.takeWhile (· ≠ '?'))
  String.ofList (match rest.dropWhile (· ≠ '?') with
    | [] => path
    | _ :: query => path ++ '?' :: escape notInQuery query)

end AccountSync.Target
