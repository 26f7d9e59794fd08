/-
  AccountSync.Document.Content
  ────────────────────────────
  **DOCUMENTS THAT SPEAK FOR THEMSELVES.**

  Where it is not known yet what will be asked for, a document is kept as what it is
  on its own account: a word is then nothing, a number or a text, whichever it looks
  like.  All of the document is read, so nothing in it may be unreadable.

      Document.content    — what a document is on its own account
      Content.record?     — the named fields of a record
      Content.text?, Content.optionalText? — what is asked for in the end
-/
import AccountSync.Document.Basic

namespace AccountSync

/-- What a document is on its own account. -/
inductive Content where
  | nothing
  | text (s : String)
  | natural (n : Nat)
  /-- A truth value, a number with a minus sign or one with a point. -/
  | other
  | list (items : List Content)
  | table (entries : List (Content × Content))
deriving Inhabited

namespace Content

/-- The integer `i` that is written as `s`: only one of 64 bits can be kept, and with a minus
sign it is no natural number. -/
def ofInteger? (s : String) (i : Int) : Option Content :=
  if i < Number.minSigned ∨ Number.maxUnsigned < i then none
  else some ((Word.natural? s).elim .other .natural)

/-- The integer that a word stands for, if it has no more than 128 bits. -/
def wideInteger? (s : String) : Option Int :=
  (Word.integer? s).bind (fun i =>
    if -twoTo 127 ≤ i ∧ i < twoTo 128 then some i else none)

/-- What a word is on its own account. -/
def ofWord? (s : String) : Option Content :=
  if Word.isNothing s then some .nothing
  else if (Word.bool? s).isSome then some .other
  else match wideInteger? s with
    | some i => ofInteger? s i
    | none => if !Word.isPaddedDigits s && Word.isDecimal s then some .other else some (.text s)

/-- What a tagged scalar is: its tag decides, and a tag of the text's own decides nothing. -/
def ofTagged? (tag : Tag) (s : String) : Option Content :=
  if (Tag.localName? (some tag)).isSome then none
  else if tag = Tag.bool then (Word.bool? s).map (fun _ => .other)
  else if tag = Tag.int then (wideInteger? s).bind (ofInteger? s)
  else if tag = Tag.float then if Word.isDecimal s then some .other else none
  else if tag = Tag.null then if Word.namesNothing s then some .nothing else none
  else some (.text s)

/-- What a scalar is on its own account; an own tag that cannot be read says nothing. -/
def ofScalar? (s : Scalar) : Option Content :=
  match s.tag with
  | none | some (.unreadable true) =>
    if s.style = .plain then ofWord? s.text else some (.text s.text)
  | some tag => ofTagged? tag s.text

/-- A number of data. -/
def ofNumber (n : Number) : Content :=
  match n.unsigned? with
  | some n => .natural n
  | none => .other

end Content

/-- What a document is on its own account, where lists and tables may be nested so deep. -/
def Document.content : Nat → Document → Reading Content
  | depth, d => do
    match ← d.resolve, depth with
    | .null, _ => pure .nothing
    | .bool _, _ => pure .other
    | .number n, _ => pure (.ofNumber n)
    | .text s, _ => pure (.text s)
    | .scalar s, _ => Reading.ofOption (Content.ofScalar? s)
    | .array items, depth + 1 => .list <$> items.mapM (content depth)
    | .list tag items, depth + 1 =>
      if (Tag.localName? tag).isSome then failure else .list <$> items.mapM (content depth)
    | .table tag entries, depth + 1 =>
      if (Tag.localName? tag).isSome then failure
      else .table <$> entries.mapM (fun e => do return (← content depth e.1, ← content depth e.2))
    | _, _ => failure

namespace Content

/-- The field that a key names, by its name or by its number; `none` for one that is left
out.  What is neither text nor number names nothing. -/
def fieldOf? (names : List String) : Content → Option (Option String)
  | .text s => some (if names.contains s then some s else none)
  | .natural n => some names[n]?
  | _ => none

/-- The named fields of a record.  No named field may be given twice; others are left out.
A list gives all fields in order. -/
def record? (names : List String) : Content → Option (List (String × Content))
  | .table entries => do
    let fields ← entries.mapM (fun e => (fieldOf? names e.1).map (·.map (·, e.2)))
    let known := fields.filterMap id
    if (known.map (·.1)).eraseDups.length = known.length then some known else none
  | .list items => if items.length = names.length then some (names.zip items) else none
  | _ => none

/-- The text, if the content is one. -/
def text? : Content → Option String
  | .text s => some s
  | _ => none

/-- The text, or `none` for nothing. -/
def optionalText? : Content → Option (Option String)
  | .nothing => some none
  | c => c.text?.map some

/-- Whether the content may stand for a case that has no fields: any table, or no items. -/
def isFieldless : Content → Bool
  | .table _ => true
  | .list items => items.isEmpty
  | _ => false

end Content

end AccountSync
