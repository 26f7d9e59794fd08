/-
  AccountSync.Proofs.World
  ────────────────────────
  **WHAT HOLDS IN EVERY WORLD.**

  Nothing is known of the world in which requests are answered.  A statement about a
  computation is therefore one about its results in all worlds, and it composes along
  the steps of the computation.

      Ensures x P   — every result of `x` satisfies `P`
      Yields x r    — some world makes `x` result in `r`
-/

namespace AccountSync

variable {ω α β : Type}

/-- Every result of the computation satisfies the predicate. -/
def Ensures (x : StateM ω α) (P : α → Prop) : Prop :=
  ∀ w, P (x w).1

/-- Some world makes the computation have this result. -/
def Yields (x : StateM ω α) (r : α) : Prop :=
  ∃ w, (x w).1 = r

/-- Two computations in a row are run in the world that the first leaves behind. -/
theorem bind_apply (x : StateM ω α) (f : α → StateM ω β) (w : ω) :
    (x >>= f) w = f (x w).1 (x w).2 := rfl

/-- The same where the first one may fail; what it left behind stays. -/
theorem run_bind {ε : Type} (x : ExceptT ε (StateM ω) α) (f : α → ExceptT ε (StateM ω) β) (w : ω) :
    (x >>= f).run w = match (x.run w).1 with
      | .ok a => (f a).run (x.run w).2
      | .error e => (.error e, (x.run w).2) := by
  show (ExceptT.bindCont f (x.run w).1 : StateM ω (Except ε β)) (x.run w).2 = _
  cases (x.run w).1 <;> rfl

namespace Ensures

theorem pure {P : α → Prop} {a : α} (h : P a) :
    Ensures (Pure.pure a : StateM ω α) P :=
  fun _ => h

theorem bind {x : StateM ω α} {f : α → StateM ω β} {P : α → Prop} {Q : β → Prop}
    (hx : Ensures x P) (hf : ∀ a, P a → Ensures (f a) Q) : Ensures (x >>= f) Q := by
  intro w
  rw [bind_apply]
  exact hf _ (hx w) _

theorem mono {x : StateM ω α} {P Q : α → Prop} (hx : Ensures x P) (h : ∀ a, P a → Q a) :
    Ensures x Q :=
  fun w => h _ (hx w)

/-- A computation ensures exactly what all its results satisfy. -/
theorem yields (x : StateM ω α) : Ensures x (Yields x) :=
  fun w => ⟨w, rfl⟩

theorem of_yields {x : StateM ω α} {P : α → Prop} (hx : Ensures x P) {r : α}
    (h : Yields x r) : P r := by
  obtain ⟨w, rfl⟩ := h
  exact hx w

end Ensures

end AccountSync
