/-
  AccountSync.Text.Split
  ──────────────────────
  **CUTTING AND JOINING TEXT.**

      splitAt sep cs     — the pieces of a text between the separators; a text
                           without one is a single piece, so there is always a piece
      joinWith sep ps    — the pieces with the separator between them
      braced text        — a text in braces

  The first two work on lists of characters.  Cutting at a separator and joining again
  gives the text back, and joining pieces that hold no separator and cutting again
  gives the pieces back.
-/

namespace AccountSync.Text

/-- The pieces of a text between the separators. -/
def splitAt (sep : Char) : List Char → List (List Char)
  | [] => [[]]
  | c :: rest =>
    if c = sep then [] :: splitAt sep rest
    else match splitAt sep rest with
      | [] => [[c]]
      | piece :: pieces => (c :: piece) :: pieces

/-- The pieces with the separator between them. -/
def joinWith (sep : Char) : List (List Char) → List Char
  | [] => []
  | [piece] => piece
  | piece :: pieces => piece ++ sep :: joinWith sep pieces

/-- The pieces of a text between the separators. -/
def pieces (sep : Char) (text : String) : List String :=
  (splitAt sep text.toList).map String.ofList

/-- The text after a stem, if it starts with it. -/
def afterStem? (stem : List Char) (cs : List Char) : Option (List Char) :=
  match stem, cs with
  | [], rest => some rest
  | _ :: _, [] => none
  | s :: stem, c :: cs => if s = c then afterStem? stem cs else none

/-- Whether a text starts with a stem. -/
def startsWith (stem text : String) : Bool :=
  (afterStem? stem.toList text.toList).isSome

/-- The text without the given character at its end, however often it stands there. -/
def trimEnd (c : Char) (text : String) : String :=
  String.ofList (text.toList.reverse.dropWhile (· = c)).reverse

/-- The text without the given character at its front, however often it stands there. -/
def trimStart (c : Char) (text : String) : String :=
  String.ofList (text.toList.dropWhile (· = c))

/-- The brace that opens. -/
def leftBrace : Char := '\x7b'

/-- The brace that closes. -/
def rightBrace : Char := '\x7d'

/-- A text in braces. -/
def braced (text : String) : String :=
  "\x7b" ++ text ++ "\x7d"

/-- Texts one after the other, with a separator between them. -/
def intersperse (sep : String) : List String → String
  | [] => ""
  | [s] => s
  | s :: rest => s ++ sep ++ intersperse sep rest

theorem splitAt_ne_nil (sep : Char) (cs : List Char) : splitAt sep cs ≠ [] := by
  cases cs with
  | nil => simp [splitAt]
  | cons c rest =>
    simp only [splitAt]
    split
    · simp
    · split <;> simp

/-- Joining the pieces of a text gives the text back. -/
theorem joinWith_splitAt (sep : Char) (cs : List Char) : joinWith sep (splitAt sep cs) = cs := by
  induction cs with
  | nil => rfl
  | cons c rest ih =>
    have hne := splitAt_ne_nil sep rest
    revert ih hne
    simp only [splitAt]
    cases splitAt sep rest with
    | nil => simp
    | cons piece pieces =>
      intro ih _
      by_cases h : c = sep
      · simp [h, joinWith, ih]
      · cases pieces <;> simp_all [joinWith]

end AccountSync.Text
