/-
  AccountSync.Document.Basic
  ──────────────────────────
  **DOCUMENTS THAT RECORDS ARE READ FROM.**

  A document is what a configuration says before anyone asks what it means: data, or
  the nodes of a text.  The words of a text stay open: whether `5` is a number or a
  text is decided by what is asked for.  An empty word also stands for an empty list
  or record.  A node may be an alias, which stands for another node; how often
  aliases are followed is bounded.

      Document.ofJson      — data as a document
      Reading              — reading with known aliases
      Document.record?     — the named fields of a record
      Record.need, Record.orElse, Record.optional — one field of it
      Document.readWith?   — what is read from a document
-/
import AccountSync.Document.Word
import AccountSync.Json.Basic
import AccountSync.Text.Utf8

namespace AccountSync

/-! ## Tags -/

/-- A tag of a node. -/
inductive Tag where
  | named (name : String)
  /-- Its bytes are no text; all that is known is whether it is a tag of the text's own. -/
  | unreadable (isOwn : Bool)
deriving DecidableEq, Repr

namespace Tag

/-- The tag with the given bytes; one of the text's own starts with its sign. -/
def ofBytes (bytes : List Nat) : Tag :=
  match Utf8.decode? bytes with
  | some name => .named name
  | none => .unreadable (bytes.head? = some '!'.toNat)

/-- The tag of truth values. -/
def bool : Tag := .named "tag:yaml.org,2002:bool"

/-- The tag of integers. -/
def int : Tag := .named "tag:yaml.org,2002:int"

/-- The tag of decimal numbers. -/
def float : Tag := .named "tag:yaml.org,2002:float"

/-- The tag of nothing. -/
def null : Tag := .named "tag:yaml.org,2002:null"

/-- The name that a tag gives, if it is a tag of the text's own; the sign alone is a name as
well. -/
def localName? : Option Tag → Option String
  | some (.named name) =>
    match name.toList with
    | '!' :: c :: rest => some (String.ofList (c :: rest))
    | '!' :: [] => some name
    | _ => none
  | _ => none

end Tag

/-! ## Documents -/

/-- How a scalar of a text is written. -/
inductive ScalarStyle where
  | plain
  | quoted
  /-- A block that keeps its line breaks. -/
  | literal
  /-- A block whose line breaks are folded. -/
  | folded
deriving DecidableEq, Repr

/-- A scalar of a text. -/
structure Scalar where
  tag : Option Tag := none
  style : ScalarStyle := .plain
  text : String := ""
deriving DecidableEq, Repr, Inhabited

/-- What a configuration says. -/
inductive Document where
  | null
  | bool (b : Bool)
  | number (n : Number)
  | text (s : String)
  /-- A list of data; it may also stand for a record. -/
  | array (items : List Document)
  /-- A scalar of a text. -/
  | scalar (s : Scalar)
  /-- A list of a text. -/
  | list (tag : Option Tag) (items : List Document)
  /-- Entries in the order in which they are written. -/
  | table (tag : Option Tag) (entries : List (Document × Document))
  /-- Stands for the node with that anchor. -/
  | aliasOf (anchor : Nat)
deriving Inhabited

namespace Document

mutual

/-- Data as a document. -/
def ofJson : Json → Document
  | .null => .null
  | .bool b => .bool b
  | .number n => .number n
  | .string s => .text s
  | .array items => .array (itemsOfJson items)
  | .object entries => .table none (entriesOfJson entries)

/-- The items of an array as documents. -/
def itemsOfJson : List Json → List Document
  | [] => []
  | j :: rest => ofJson j :: itemsOfJson rest

/-- The entries of an object as documents. -/
def entriesOfJson : List (String × Json) → List (Document × Document)
  | [] => []
  | (k, j) :: rest => (.text k, ofJson j) :: entriesOfJson rest

end

mutual

/-- How much there is to a document: scalars and aliases count once, lists and tables twice
and with all that is in them. -/
def size : Document → Nat
  | .array items => 2 + sizeOfItems items
  | .list _ items => 2 + sizeOfItems items
  | .table _ entries => 2 + sizeOfEntries entries
  | _ => 1

/-- How much there is to a list of documents. -/
def sizeOfItems : List Document → Nat
  | [] => 0
  | d :: rest => size d + sizeOfItems rest

/-- How much there is to the entries of a table. -/
def sizeOfEntries : List (Document × Document) → Nat
  | [] => 0
  | (k, d) :: rest => size k + size d + sizeOfEntries rest

end

/-- How deep documents may be nested where all of a document is read. -/
def maxDepth : Nat := 128

end Document

namespace Scalar

/-- Whether a scalar stands for a list or a record with nothing in it. -/
def isEmpty (s : Scalar) : Bool :=
  s.style = .plain && s.text = ""

/-- Whether a scalar may be a value of the kind with the given tag: it is a word, or a literal
block with that tag. -/
def mayBe (tag : Tag) (s : Scalar) : Bool :=
  s.style = .plain || (s.style = .literal && s.tag = some tag)

/-- Whether a scalar says that there is nothing.  A word that is tagged as nothing has to name
it; any other tag makes it something. -/
def saysNothing? (s : Scalar) : Option Bool :=
  if s.style ≠ .plain then some false
  else match s.tag with
    | none => some (Word.isNothing s.text)
    | some tag =>
      if tag ≠ Tag.null then some false
      else if Word.namesNothing s.text then some true else none

/-- The name of a case without content: its tag in front of nothing, or the text. -/
def variant? (s : Scalar) : Option String :=
  match Tag.localName? s.tag with
  | some name => if s.style = .plain && Word.isNothing s.text then some name else none
  | none => some s.text

end Scalar

/-! ## Reading -/

/-- What aliases stand for. -/
abbrev Anchors := List (Nat × Document)

/-- Reading with known aliases; the state says how many of them may still be followed. -/
abbrev Reading := ReaderT Anchors (StateT Nat Option)

/-- What is there, or no reading. -/
def Reading.ofOption {α : Type} : Option α → Reading α
  | some a => pure a
  | none => failure

namespace Document

/-- The document itself, or the one that an alias stands for. -/
def resolve (d : Document) : Reading Document := do
  match d with
  | .aliasOf anchor =>
    match ← get with
    | 0 => failure
    | left + 1 =>
      set left
      Reading.ofOption ((← read).lookup anchor)
  | d => pure d

/-- The text that is asked for; any scalar of a text is one. -/
def text? (d : Document) : Reading String := do
  match ← d.resolve with
  | .text s => pure s
  | .scalar s => pure s.text
  | _ => failure

/-- The truth value that is asked for. -/
def bool? (d : Document) : Reading Bool := do
  match ← d.resolve with
  | .bool b => pure b
  | .scalar s => if s.mayBe Tag.bool then Reading.ofOption (Word.bool? s.text) else failure
  | _ => failure

/-- The unsigned 64-bit number that is asked for. -/
def natural? (d : Document) : Reading Nat := do
  match ← d.resolve with
  | .number n => Reading.ofOption n.unsigned?
  | .scalar s =>
    if s.mayBe Tag.int then do
      let n ← Reading.ofOption (Word.natural? s.text)
      if n < twoTo 64 then pure n else failure
    else failure
  | _ => failure

/-- What is asked for, or `none` where the document says that there is nothing. -/
def optional? {α : Type} (f : Document → Reading α) (d : Document) : Reading (Option α) := do
  let d ← d.resolve
  let nothing ← match d with
    | .null => pure true
    | .scalar s => Reading.ofOption s.saysNothing?
    | _ => pure false
  if nothing then pure none else some <$> f d

/-- The name of a case without content. -/
def variant? (d : Document) : Reading String := do
  match ← d.resolve with
  | .text name => pure name
  | .table _ [(.text name, .null)] => pure name
  | .scalar s => Reading.ofOption s.variant?
  | _ => failure

/-- The items that are asked for, each read with `f`. -/
def items? {α : Type} (f : Document → Reading α) (d : Document) : Reading (List α) := do
  match ← d.resolve with
  | .array items => items.mapM f
  | .list _ items => items.mapM f
  | .scalar s => if s.isEmpty then pure [] else failure
  | _ => failure

/-- The entries that are asked for, each read with `f`; of two with one key the later one
stays. -/
def dict? {α : Type} (f : Document → Reading α) (d : Document) : Reading (Dict α) := do
  match ← d.resolve with
  | .table _ entries =>
    Dict.ofList <$> entries.mapM (fun e => do return (← e.1.text?, ← f e.2))
  | .scalar s => if s.isEmpty then pure [] else failure
  | _ => failure

end Document

/-! ## Records -/

/-- The fields of a record that are there. -/
abbrev Record := List (String × Document)

/-- The named fields of a record.  No named field may be given twice; others are left out.
An array gives the fields in order and may stop early. -/
def Document.record? (names : List String) (d : Document) : Reading Record := do
  match ← d.resolve with
  | .table _ entries =>
    let fields ← entries.mapM (fun e => do return (← e.1.text?, e.2))
    let known := fields.filter (fun f => names.contains f.1)
    if (known.map (·.1)).eraseDups.length = known.length then pure known else failure
  | .array items => if items.length ≤ names.length then pure (names.zip items) else failure
  | .scalar s => if s.isEmpty then pure [] else failure
  | _ => failure

namespace Record

/-- A field that has to be there. -/
def need {α : Type} (r : Record) (name : String) (f : Document → Reading α) : Reading α :=
  match r.lookup name with
  | some d => f d
  | none => failure

/-- A field with a default. -/
def orElse {α : Type} (r : Record) (name : String) (default : α) (f : Document → Reading α) :
    Reading α :=
  match r.lookup name with
  | some d => f d
  | none => pure default

/-- A field that may be absent or say that there is nothing. -/
def optional {α : Type} (r : Record) (name : String) (f : Document → Reading α) :
    Reading (Option α) :=
  match r.lookup name with
  | some d => d.optional? f
  | none => pure none

end Record

/-! ## Results -/

/-- What is read from a document whose aliases stand for the given nodes.  Aliases may be
followed a hundred times as often as there are nodes. -/
def Document.readWith? {α : Type} (anchors : Anchors) (f : Document → Reading α) (d : Document) :
    Option α :=
  ((f d).run anchors).run' (100 * d.size)

/-- What is read from data. -/
def Json.readWith? {α : Type} (f : Document → Reading α) (j : Json) : Option α :=
  (Document.ofJson j).readWith? [] f

end AccountSync
