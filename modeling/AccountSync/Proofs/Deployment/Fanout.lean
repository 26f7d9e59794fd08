/-
  AccountSync.Proofs.Deployment.Fanout
  ────────────────────────────────────
  **EVERY ITEM GETS ITS OUTCOME, IN ORDER.**

  Whatever the scheduler decides, the items stay spread in order over the outcomes that
  were delivered, the calls under way and what waits; and every move brings the fan-out
  one call closer to its end.

      Fanout.Spread       — the invariant
      Fanout.remaining    — the measure: calls to begin and calls to end
      Job.fanOut_forall₂  — each outcome is one of the call on its own item
-/
import AccountSync.Deployment.Fanout
import AccountSync.Proofs.World
import Mathlib.Data.List.Forall2

namespace AccountSync

open List (Forall₂)

variable {ω α β : Type}

/-! ## §1. The invariant. -/

/-- The slot is that of the item: the call on it runs, or has an outcome that fits. -/
def Slot.Fits (R : α → β → Prop) (a : α) : Slot α β → Prop
  | .running item => item = a
  | .ended outcome => R a outcome

namespace Fanout

/-- The items are those whose outcomes were delivered, those in the slots and those that
wait, in this order. -/
def Spread (R : α → β → Prop) (items : List α) (s : Fanout α β) : Prop :=
  ∃ done called, items = done ++ called ++ s.waiting
    ∧ Forall₂ R done s.delivered ∧ Forall₂ (Slot.Fits R) called s.slots

/-- No outcome at the front waits to be delivered. -/
def Delivered (s : Fanout α β) : Prop :=
  unready s.slots = s.slots

/-- The calls that have to begin and the calls that have to end. -/
def remaining (s : Fanout α β) : Nat :=
  2 * s.waiting.length + s.running

/-! ## §2. Slots. -/

@[simp] theorem runningIn_append (slots slots' : List (Slot α β)) :
    runningIn (slots ++ slots') = runningIn slots + runningIn slots' := by
  induction slots with
  | nil => simp [runningIn]
  | cons slot rest ih => cases slot <;> simp [runningIn, ih]; omega

@[simp] theorem runningIn_unready (slots : List (Slot α β)) :
    runningIn (unready slots) = runningIn slots := by
  induction slots with
  | nil => rfl
  | cons slot rest ih =>
    cases slot with
    | running item => rfl
    | ended outcome => exact ih

@[simp] theorem unready_unready (slots : List (Slot α β)) :
    unready (unready slots) = unready slots := by
  induction slots with
  | nil => rfl
  | cons slot rest ih =>
    cases slot with
    | running item => rfl
    | ended outcome => exact ih

/-- When no call runs, every outcome can be delivered. -/
theorem unready_eq_nil {slots : List (Slot α β)} (h : runningIn slots = 0) :
    unready slots = [] := by
  induction slots with
  | nil => rfl
  | cons slot rest ih =>
    cases slot with
    | running item => simp [runningIn] at h
    | ended outcome => exact ih h

/-- One more call at the end makes no outcome at the front deliverable. -/
theorem unready_append_running {slots : List (Slot α β)} (h : unready slots = slots)
    (item : α) : unready (slots ++ [.running item]) = slots ++ [.running item] := by
  cases slots with
  | nil => rfl
  | cons slot rest =>
    cases slot with
    | running first => rfl
    | ended outcome =>
      -- an outcome at the front would have been delivered, which makes the list shorter
      have hlen := congrArg List.length h
      have hle : (unready rest).length ≤ rest.length := by
        clear h hlen
        induction rest with
        | nil => exact Nat.le_refl _
        | cons slot rest ih =>
          cases slot with
          | running _ => exact Nat.le_refl _
          | ended _ => exact Nat.le_succ_of_le ih
      simp only [unready, List.length_cons] at hlen
      omega

/-- Ending a call leaves every slot with its item. -/
theorem finishAt_fits {R : α → β → Prop} {finish : α → StateM ω β}
    (hR : ∀ a, Ensures (finish a) (R a)) {called : List α} {slots : List (Slot α β)}
    (h : Forall₂ (Slot.Fits R) called slots) (n : Nat) :
    Ensures (finishAt finish n slots) (Forall₂ (Slot.Fits R) called) := by
  induction h generalizing n with
  | nil => exact .pure .nil
  | @cons a slot called slots hslot _ ih =>
    cases slot with
    | ended outcome => exact (ih n).bind fun _ hrest => .pure (.cons hslot hrest)
    | running item =>
      -- a call on `item` ends here, or one further on does
      obtain rfl : item = a := hslot
      cases n with
      | zero => exact (hR item).bind fun _ hout => .pure (.cons hout ‹_›)
      | succ n => exact (ih n).bind fun _ hrest => .pure (.cons rfl hrest)

/-- Ending a call that runs leaves one running call less. -/
theorem finishAt_running (finish : α → StateM ω β) {n : Nat} {slots : List (Slot α β)}
    (h : n < runningIn slots) :
    Ensures (finishAt finish n slots) (fun after => runningIn after + 1 = runningIn slots) := by
  induction slots generalizing n with
  | nil => exact absurd h (Nat.not_lt_zero n)
  | cons slot rest ih =>
    cases slot with
    | ended outcome => exact (ih h).bind fun _ hrest => .pure hrest
    | running item =>
      cases n with
      | zero => exact (Ensures.yields _).bind fun _ _ => .pure rfl
      | succ n =>
        have hn : n < runningIn rest := Nat.lt_of_succ_lt_succ h
        refine (ih hn).bind fun after hrest => .pure ?_
        show runningIn after + 1 + 1 = runningIn rest + 1
        rw [hrest]

/-! ## §3. One move. -/

theorem spread_deliver {R : α → β → Prop} {items : List α} {s : Fanout α β}
    (h : Spread R items s) : Spread R items s.deliver := by
  obtain ⟨done, called, hitems, hdone, hcalled⟩ := h
  obtain ⟨waiting, slots, delivered⟩ := s
  simp only at hitems hdone hcalled
  induction slots generalizing done called delivered with
  | nil => exact ⟨done, called, hitems, by simpa [deliver, ready] using hdone, hcalled⟩
  | cons slot rest ih =>
    cases slot with
    | running item =>
      exact ⟨done, called, hitems, by simpa [deliver, ready] using hdone, hcalled⟩
    | ended outcome =>
      -- the first outcome moves from the slots to what is delivered, and so does its item
      cases hcalled with
      | @cons a _ called _ hout hrest =>
        have hdone' : Forall₂ R (done ++ [a]) (delivered ++ [outcome]) :=
          List.rel_append hdone (.cons hout .nil)
        have hitems' : items = (done ++ [a]) ++ called ++ waiting := by simpa using hitems
        have := ih (done ++ [a]) called (delivered ++ [outcome]) hitems' hdone' hrest
        simpa [Spread, deliver, ready, unready] using this

/-- A move keeps the items spread in order. -/
theorem spread_step {R : α → β → Prop} {job : Job ω α β} (hR : ∀ a, Ensures (job.finish a) (R a))
    {items : List α} {s : Fanout α β} (h : Spread R items s) (move : Move) :
    Ensures (step job s move) (Spread R items) := by
  obtain ⟨waiting, slots, delivered⟩ := s
  obtain ⟨done, called, hitems, hdone, hcalled⟩ := h
  cases move with
  | start =>
    cases waiting with
    | nil => exact .pure ⟨done, called, hitems, hdone, hcalled⟩
    | cons item waiting =>
      refine (Ensures.yields (job.start item)).bind fun _ _ => .pure ?_
      -- the first item that waits is now the last one with a slot
      refine ⟨done, called ++ [item], ?_, hdone, List.rel_append hcalled (.cons rfl .nil)⟩
      rw [hitems]
      simp
  | finish position =>
    refine (finishAt_fits hR hcalled position).bind fun slots hslots => .pure ?_
    exact spread_deliver ⟨done, called, hitems, hdone, hslots⟩

/-- A move leaves no outcome at the front undelivered. -/
theorem delivered_step (job : Job ω α β) {s : Fanout α β} (h : s.Delivered) (move : Move) :
    Ensures (step job s move) Delivered := by
  obtain ⟨waiting, slots, delivered⟩ := s
  cases move with
  | start =>
    cases waiting with
    | nil => exact .pure h
    | cons item waiting =>
      exact (Ensures.yields (job.start item)).bind fun _ _ =>
        .pure (unready_append_running h item)
  | finish position =>
    exact (Ensures.yields _).bind fun _ _ => .pure (unready_unready _)

theorem remaining_start (job : Job ω α β) {s : Fanout α β} (h : s.waiting ≠ []) :
    Ensures (step job s .start) (fun after => after.remaining + 1 = s.remaining) := by
  obtain ⟨waiting, slots, delivered⟩ := s
  cases waiting with
  | nil => exact absurd rfl h
  | cons item waiting =>
    refine (Ensures.yields (job.start item)).bind fun _ _ => .pure ?_
    -- a call that begins counts once where the item counted twice
    show 2 * waiting.length + runningIn (slots ++ [.running item]) + 1
      = 2 * (waiting.length + 1) + runningIn slots
    rw [runningIn_append]
    simp only [runningIn]
    omega

theorem remaining_finish (job : Job ω α β) {s : Fanout α β} {position : Nat}
    (h : position < s.running) :
    Ensures (step job s (.finish position)) (fun after => after.remaining + 1 = s.remaining) := by
  refine (finishAt_running job.finish h).bind fun slots hslots => .pure ?_
  -- delivering outcomes changes nothing about the calls that run
  show 2 * s.waiting.length + runningIn (unready slots) + 1
    = 2 * s.waiting.length + runningIn s.slots
  rw [runningIn_unready]
  omega

/-- When no call runs, the slots are free and what waits can begin. -/
theorem canStart_of_idle {s : Fanout α β} (hs : s.Delivered) (hrun : s.running = 0)
    (hwait : s.waiting ≠ []) (limit : Nat) : s.canStart limit = true := by
  have hslots : s.slots = [] := by
    rw [← hs]
    exact unready_eq_nil hrun
  have hlimit : 0 < max 1 limit := Nat.lt_of_lt_of_le Nat.one_pos (Nat.le_max_left 1 limit)
  simp [canStart, hslots, hwait, hlimit]

/-- The scheduler cannot hold the fan-out up: as long as anything remains, the move that is
made begins a call or ends one. -/
theorem remaining_settle (job : Job ω α β) {s : Fanout α β} (hs : s.Delivered) (limit : Nat)
    (hrem : 0 < s.remaining) (move : Move) :
    Ensures (step job s (s.settle limit move))
      (fun after => after.remaining + 1 = s.remaining) := by
  -- something remains, so if no call runs then an item waits
  have hwait : s.running = 0 → s.waiting ≠ [] := by
    intro hrun hnil
    simp [remaining, hrun, hnil] at hrem
  cases move with
  | start =>
    by_cases hcan : s.canStart limit = true
    · rw [show s.settle limit .start = .start from if_pos hcan]
      have : s.waiting ≠ [] := by
        intro hnil
        simp [canStart, hnil] at hcan
      exact remaining_start job this
    · rw [show s.settle limit .start = .finish 0 from if_neg hcan]
      -- a call that may not begin is held up by one that runs
      have hrun : s.running ≠ 0 := fun h =>
        hcan (canStart_of_idle hs h (hwait h) limit)
      exact remaining_finish job (Nat.pos_of_ne_zero hrun)
  | finish position =>
    by_cases hpos : position < s.running
    · rw [show s.settle limit (.finish position) = .finish position from if_pos hpos]
      exact remaining_finish job hpos
    · rcases Nat.eq_zero_or_pos s.running with hrun | hrun
      · rw [show s.settle limit (.finish position) = .start by simp [settle, hrun]]
        exact remaining_start job (hwait hrun)
      · rw [show s.settle limit (.finish position) = .finish 0 by simp [settle, hpos, hrun]]
        exact remaining_finish job hrun

/-! ## §4. The whole run. -/

/-- What holds between two moves. -/
structure Inv (R : α → β → Prop) (items : List α) (s : Fanout α β) : Prop where
  spread : Spread R items s
  delivered : s.Delivered

theorem inv_step {R : α → β → Prop} {job : Job ω α β} (hR : ∀ a, Ensures (job.finish a) (R a))
    {items : List α} {s : Fanout α β} (h : Inv R items s) (move : Move) :
    Ensures (step job s move) (Inv R items) :=
  fun w => ⟨spread_step hR h.spread move w, delivered_step job h.delivered move w⟩

/-- As many moves as there are calls to begin and to end bring the fan-out to its end. -/
theorem run_ensures {R : α → β → Prop} {job : Job ω α β} (hR : ∀ a, Ensures (job.finish a) (R a))
    {items : List α} (limit : Nat) (next : Scheduler ω) (moves : Nat) {s : Fanout α β}
    (h : Inv R items s) (hmoves : s.remaining = moves) :
    Ensures (run job limit next moves s)
      (fun after => Inv R items after ∧ after.remaining = 0) := by
  -- on the number of moves, which is what remains: each move lowers it by one
  induction moves generalizing s with
  | zero => exact .pure ⟨h, hmoves⟩
  | succ moves ih =>
    refine (Ensures.yields (next s.waiting.length s.running)).bind fun move _ => ?_
    have hrem : 0 < s.remaining := hmoves ▸ Nat.succ_pos moves
    have hstep : Ensures (step job s (s.settle limit move))
        (fun after => Inv R items after ∧ after.remaining = moves) := fun w =>
      ⟨inv_step hR h _ w, by
        have := remaining_settle job h.delivered limit hrem move w
        omega⟩
    exact hstep.bind fun after hafter => ih hafter.1 hafter.2

/-- At the end all items have their outcomes. -/
theorem forall₂_of_remaining {R : α → β → Prop} {items : List α} {s : Fanout α β}
    (h : Inv R items s) (hrem : s.remaining = 0) : Forall₂ R items s.delivered := by
  obtain ⟨done, called, hitems, hdone, hcalled⟩ := h.spread
  have hwait : s.waiting = [] := by
    apply List.eq_nil_of_length_eq_zero
    unfold remaining at hrem
    omega
  have hslots : s.slots = [] := by
    rw [← h.delivered]
    apply unready_eq_nil
    show s.running = 0
    unfold remaining at hrem
    omega
  rw [hslots, List.forall₂_nil_right_iff] at hcalled
  rw [hitems, hwait, hcalled]
  simpa using hdone

end Fanout

/-- Each outcome is one that the call on its own item can have, and no item is left out or
called twice. -/
theorem Job.fanOut_forall₂ {R : α → β → Prop} {job : Job ω α β}
    (hR : ∀ a, Ensures (job.finish a) (R a)) (limit : Nat) (next : Scheduler ω) (items : List α) :
    Ensures (job.fanOut limit next items) (Forall₂ R items) := by
  have hinv : Fanout.Inv R items { waiting := items } :=
    ⟨⟨[], [], by simp, .nil, .nil⟩, rfl⟩
  refine (Fanout.run_ensures hR limit next (2 * items.length) hinv rfl).bind fun s hs => ?_
  exact .pure (Fanout.forall₂_of_remaining hs.1 hs.2)

end AccountSync
