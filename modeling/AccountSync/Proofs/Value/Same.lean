/-
  AccountSync.Proofs.Value.Same
  ─────────────────────────────
  **EQUALITY OF VALUE TREES.**

  Equality looks past the copies that references carry, and both zeros among the doubles
  are equal.  It is reflexive and symmetric all the same.

      Value.same_refl   — every tree is equal to itself
      Value.same_comm   — which tree comes first makes no difference
-/
import AccountSync.Value.Basic

namespace AccountSync.Value

/-! ## §1. Every tree is equal to itself. -/

mutual

/-- Every tree is equal to itself. -/
theorem same_refl : ∀ v : Value, v.same v = true
  | .null => rfl
  | .bool b => beq_self_eq_true b
  | .number n => by
    cases n with
    | int i => exact decide_eq_true rfl
    | float d =>
      show ((d.significand = 0 && d.significand = 0) || d = d : Bool) = true
      rw [decide_eq_true (rfl : d = d), Bool.or_true]
  | .string s => beq_self_eq_true s
  | .list items => sameItems_refl items
  | .map entries => sameEntries_refl entries
  | .reference (.to id _) => decide_eq_true rfl
  | .template parts => sameParts_refl parts

theorem sameItems_refl : ∀ items : List Value, sameItems items items = true
  | [] => rfl
  | v :: rest => by rw [sameItems, same_refl v, sameItems_refl rest, Bool.and_true]

theorem sameEntries_refl : ∀ entries : List (String × Value), sameEntries entries entries = true
  | [] => rfl
  | (k, v) :: rest => by
    rw [sameEntries, same_refl v, sameEntries_refl rest, beq_self_eq_true, Bool.and_true,
      Bool.and_true]

theorem sameParts_refl : ∀ parts : List Part, sameParts parts parts = true
  | [] => rfl
  | .literal text :: rest => by
    rw [sameParts, sameParts_refl rest, beq_self_eq_true, Bool.and_true]
  | .reference (.to id target) :: rest => by
    rw [sameParts, sameParts_refl rest, decide_eq_true rfl, Bool.and_true]

end

/-! ## §2. Which tree comes first. -/

-- Trees of different kinds are unequal either way, so each case is one kind against all others.

theorem sameParts_comm (ps qs : List Part) : sameParts ps qs = sameParts qs ps := by
  induction ps generalizing qs with
  | nil =>
    cases qs with
    | nil => rfl
    | cons q qs => rcases q with t | ⟨j, u⟩ <;> rfl
  | cons p ps ih =>
    cases qs with
    | nil => rcases p with s | ⟨i, t⟩ <;> rfl
    | cons q qs =>
      rcases p with s | ⟨i, t⟩ <;> rcases q with s' | ⟨j, u⟩
      · simp only [sameParts, ih qs, Bool.beq_comm]
      · rfl
      · rfl
      · simp only [sameParts, ih qs, eq_comm]

theorem double_same_comm (a b : Double) : a.same b = b.same a := by
  unfold Double.same
  rw [Bool.and_comm]
  simp only [eq_comm]

theorem number_same_comm (a b : Number) : a.same b = b.same a := by
  cases a <;> cases b <;> simp only [Number.same, eq_comm, double_same_comm]

mutual

/-- Equality of trees is symmetric. -/
theorem same_comm : ∀ v w : Value, v.same w = w.same v
  | .null, w => by rcases w with _ | _ | _ | _ | _ | _ | ⟨_, _⟩ | _ <;> rfl
  | .bool a, w => by
    rcases w with _ | _ | _ | _ | _ | _ | ⟨_, _⟩ | _ <;> first | rfl | exact Bool.beq_comm
  | .number a, w => by
    rcases w with _ | _ | _ | _ | _ | _ | ⟨_, _⟩ | _ <;> first | rfl | exact number_same_comm a _
  | .string a, w => by
    rcases w with _ | _ | _ | _ | _ | _ | ⟨_, _⟩ | _ <;> first | rfl | exact Bool.beq_comm
  | .list items, w => by
    rcases w with _ | _ | _ | _ | _ | _ | ⟨_, _⟩ | _ <;> first | rfl | exact sameItems_comm items _
  | .map entries, w => by
    rcases w with _ | _ | _ | _ | _ | _ | ⟨_, _⟩ | _ <;>
      first | rfl | exact sameEntries_comm entries _
  | .reference (.to a _), w => by
    rcases w with _ | _ | _ | _ | _ | _ | ⟨_, _⟩ | _ <;>
      first | rfl | exact decide_eq_decide.mpr eq_comm
  | .template parts, w => by
    rcases w with _ | _ | _ | _ | _ | _ | ⟨_, _⟩ | _ <;> first | rfl | exact sameParts_comm parts _

theorem sameItems_comm : ∀ as bs : List Value, sameItems as bs = sameItems bs as
  | [], bs => by cases bs <;> rfl
  | a :: as, bs => by
    cases bs with
    | nil => rfl
    | cons b bs => simp only [sameItems, same_comm a, sameItems_comm as]

theorem sameEntries_comm :
    ∀ as bs : List (String × Value), sameEntries as bs = sameEntries bs as
  | [], bs => by cases bs <;> rfl
  | (j, a) :: as, bs => by
    cases bs with
    | nil => rfl
    | cons e bs =>
      obtain ⟨k, b⟩ := e
      simp only [sameEntries, same_comm a, sameEntries_comm as, Bool.beq_comm]

end

end AccountSync.Value
