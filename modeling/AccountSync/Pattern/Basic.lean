/-
  AccountSync.Pattern.Basic
  ─────────────────────────
  **PATTERNS IN TEXT.**

  A pattern says which stretches of a text are of interest.  Where several
  stretches are possible, repetitions take as much as they can and the first of two
  alternatives goes before the second.

      Pattern.rests      — what may be left after a stretch at the front of a text,
                           in order of preference
      Pattern.first?     — what is left after the preferred stretch
      Pattern.spans      — where the stretches in a text are
-/
import AccountSync.Pattern.DecimalDigit
import AccountSync.Text.Span
import AccountSync.Text.Split

namespace AccountSync

/-- A set of characters. -/
inductive CharSet where
  | any
  | one (c : Char)
  | range (low high : Char)
  | decimalDigit
  | union (a b : CharSet)
  | complement (a : CharSet)
deriving DecidableEq, Repr

/-- Whether a character belongs to the set. -/
def CharSet.contains : CharSet → Char → Bool
  | .any, _ => true
  | .one a, c => a = c
  | .range low high, c => low ≤ c && c ≤ high
  | .decimalDigit, c => Pattern.isDecimalDigit c
  | .union a b, c => a.contains c || b.contains c
  | .complement a, c => !a.contains c

/-- A pattern. -/
inductive Pattern where
  | empty
  | char (set : CharSet)
  | seq (first second : Pattern)
  | either (first second : Pattern)
  | many (body : Pattern)
deriving DecidableEq, Repr

namespace Pattern

/-- What may be left after any number of steps, longer runs first, and then the given rests.
Only steps that take something count. -/
def manyRests (step : List Char → List (List Char)) :
    Nat → List Char → List (List Char) → List (List Char)
  | 0, cs, others => cs :: others
  | fuel + 1, cs, others =>
    ((step cs).filter (fun rest => rest.length < cs.length)).foldr
      (fun rest found => manyRests step fuel rest found) (cs :: others)

/-- What may be left after a stretch of the pattern at the front of a text, in order of
preference. -/
def rests : Pattern → List Char → List (List Char)
  | .empty, cs => [cs]
  | .char _, [] => []
  | .char set, c :: cs => if set.contains c then [cs] else []
  | .seq first second, cs => (first.rests cs).flatMap second.rests
  | .either first second, cs => first.rests cs ++ second.rests cs
  | .many body, cs => manyRests body.rests cs.length cs []

/-- What is left after the preferred stretch at the front of a text. -/
def first? (p : Pattern) (cs : List Char) : Option (List Char) :=
  (p.rests cs).head?

/-- The stretches of the pattern in the rest of a text that has `done` characters in front of it.
An empty stretch counts too, but not right behind another stretch, which is when `free` is
false. -/
def spansFrom (p : Pattern) (free : Bool) (done : Nat) : List Char → List Span
  | [] => if free && (p.first? []).isSome then [⟨done, done⟩] else []
  | c :: cs =>
    match p.first? (c :: cs) with
    | none => spansFrom p true (done + 1) cs
    | some rest =>
      if _h : rest.length < (c :: cs).length then
        let stop := done + ((c :: cs).length - rest.length)
        ⟨done, stop⟩ :: spansFrom p false stop rest
      else if free then ⟨done, done⟩ :: spansFrom p true (done + 1) cs
      else spansFrom p true (done + 1) cs
termination_by cs => cs.length
decreasing_by
  all_goals simp only [List.length_cons] at *
  all_goals omega

/-- The stretches of the pattern in a text. -/
def spans (p : Pattern) : Finder :=
  spansFrom p true 0

/-! ## Building patterns -/

/-- A text that stands for itself. -/
def literal (text : List Char) : Pattern :=
  text.foldr (fun c p => .seq (.char (.one c)) p) .empty

/-- Any number of decimal digits. -/
def digits : Pattern :=
  .many (.char .decimalDigit)

/-- One or more of something. -/
def oneOrMore (p : Pattern) : Pattern :=
  .seq p (.many p)

/-- Something or nothing, something first. -/
def optional (p : Pattern) : Pattern :=
  .either p .empty

end Pattern

end AccountSync
