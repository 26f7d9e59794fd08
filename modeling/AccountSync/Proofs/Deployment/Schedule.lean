/-
  AccountSync.Proofs.Deployment.Schedule
  ──────────────────────────────────────
  **WHEN CALLS BEGIN AND END MAKES NO DIFFERENCE.**

  What goes on during a fan-out cannot be seen from its outcomes.  So the calls are put on
  record: the world is given a log, every call writes down when it begins and when it ends,
  and the scheduler does not get to see the log.  With the log forgotten, everything is as
  it was.

      CallLog.Serves          — each item is called once, in order, under a limit
      Logs                    — what a computation adds to a log
      Erases                  — a computation on record, and the same one without
      Job.fanOut_logs         — the log of a fan-out serves its items
      deploy_any_schedule     — what a batch comes to, whatever the schedule
-/
import AccountSync.Proofs.Deployment.Batch
import Mathlib.Data.List.Perm.Subperm

namespace AccountSync

open List (Forall₂)
open scoped List

variable {ω α β γ δ : Type}

/-! ## §1. Logs of calls. -/

/-- What happens to the call on an item. -/
inductive CallEvent (α : Type) where
  | began (item : α)
  | ended (item : α)

/-- What happened to calls, in the order in which it happened. -/
abbrev CallLog (α : Type) := List (CallEvent α)

namespace CallLog

/-- The items whose calls began, in the order in which they did. -/
def begun : CallLog α → List α
  | [] => []
  | .began item :: rest => item :: begun rest
  | .ended _ :: rest => begun rest

/-- The items whose calls ended, in the order in which they did. -/
def ended : CallLog α → List α
  | [] => []
  | .began _ :: rest => ended rest
  | .ended item :: rest => item :: ended rest

/-- How many calls are under way: they began and did not end. -/
def inFlight (log : CallLog α) : Nat :=
  log.begun.length - log.ended.length

@[simp] theorem begun_append (a b : CallLog α) : begun (a ++ b) = begun a ++ begun b := by
  induction a with
  | nil => rfl
  | cons e rest ih => cases e <;> simp [begun, ih]

@[simp] theorem ended_append (a b : CallLog α) : ended (a ++ b) = ended a ++ ended b := by
  induction a with
  | nil => rfl
  | cons e rest ih => cases e <;> simp [ended, ih]

/-- No call ends that did not begin, and no more calls are under way than the limit allows, but
one is always allowed. -/
def Sound (limit : Nat) (log : CallLog α) : Prop :=
  log.ended <+~ log.begun ∧ log.inFlight ≤ max 1 limit

/-- The calls on items are made as they should be. -/
structure Serves (limit : Nat) (items : List α) (log : CallLog α) : Prop where
  /-- Calls begin in the order of the items. -/
  inOrder : log.begun = items
  /-- Each item is called, and called once. -/
  once : log.ended ~ items
  /-- At every moment the log was sound. -/
  sound : ∀ earlier : CallLog α, earlier <+: log → earlier.Sound limit

end CallLog

/-! ## §2. Computations on record. -/

/-- Computations in a world with a log. -/
abbrev LoggedM (ω α : Type) := StateM (ω × CallLog α)

/-- A computation that does not know of the log. -/
def unaware (x : StateM ω γ) : LoggedM ω α γ :=
  fun p => let r := x p.1; (r.1, (r.2, p.2))

/-- A computation, and then an entry in the log. -/
def noting (x : StateM ω γ) (e : CallEvent α) : LoggedM ω α γ :=
  fun p => let r := x p.1; (r.1, (r.2, p.2 ++ [e]))

/-- The scheduler that does not know of the log. -/
def Scheduler.recorded (next : Scheduler ω) : Scheduler (ω × CallLog α) :=
  fun waiting running => unaware (next waiting running)

/-- The job with its calls on record. -/
def Job.recorded (job : Job ω α β) : Job (ω × CallLog α) α β where
  start item := noting (job.start item) (.began item)
  finish item := noting (job.finish item) (.ended item)

/-- From the given log the computation comes to results and logs that satisfy the predicate. -/
def Logs (x : LoggedM ω α γ) (log : CallLog α) (P : γ → CallLog α → Prop) : Prop :=
  ∀ w, P (x (w, log)).1 (x (w, log)).2.2

namespace Logs

variable {log : CallLog α}

theorem pure {P : γ → CallLog α → Prop} {c : γ} (h : P c log) :
    Logs (Pure.pure c : LoggedM ω α γ) log P :=
  fun _ => h

theorem bind {x : LoggedM ω α γ} {f : γ → LoggedM ω α δ} {P : γ → CallLog α → Prop}
    {Q : δ → CallLog α → Prop} (hx : Logs x log P)
    (hf : ∀ c log', P c log' → Logs (f c) log' Q) : Logs (x >>= f) log Q := by
  intro w
  rw [bind_apply]
  exact hf _ _ (hx w) _

theorem mono {x : LoggedM ω α γ} {P Q : γ → CallLog α → Prop} (hx : Logs x log P)
    (h : ∀ c log', P c log' → Q c log') : Logs x log Q :=
  fun w => h _ _ (hx w)

theorem unaware (x : StateM ω γ) : Logs (unaware x) log (fun _ log' => log' = log) :=
  fun _ => rfl

theorem noting (x : StateM ω γ) (e : CallEvent α) :
    Logs (noting x e) log (fun _ log' => log' = log ++ [e]) :=
  fun _ => rfl

end Logs

/-- With the log forgotten, the first computation is the second one. -/
def Erases (x' : LoggedM ω α γ) (x : StateM ω γ) : Prop :=
  ∀ w log, (x' (w, log)).1 = (x w).1 ∧ (x' (w, log)).2.1 = (x w).2

namespace Erases

theorem pure (c : γ) : Erases (Pure.pure c : LoggedM ω α γ) (Pure.pure c) :=
  fun _ _ => ⟨rfl, rfl⟩

theorem bind {x' : LoggedM ω α γ} {x : StateM ω γ} {f' : γ → LoggedM ω α δ} {f : γ → StateM ω δ}
    (hx : Erases x' x) (hf : ∀ c, Erases (f' c) (f c)) : Erases (x' >>= f') (x >>= f) := by
  intro w log
  obtain ⟨hresult, hworld⟩ := hx w log
  have hrest := hf (x' (w, log)).1 (x' (w, log)).2.1 (x' (w, log)).2.2
  rw [bind_apply, bind_apply, ← hresult, ← hworld]
  exact hrest

theorem unaware (x : StateM ω γ) : Erases (AccountSync.unaware x : LoggedM ω α γ) x :=
  fun _ _ => ⟨rfl, rfl⟩

theorem noting (x : StateM ω γ) (e : CallEvent α) : Erases (AccountSync.noting x e) x :=
  fun _ _ => ⟨rfl, rfl⟩

end Erases

/-! ## §3. The record takes no part in a fan-out. -/

namespace Fanout

theorem finishAt_erases (job : Job ω α β) (n : Nat) (slots : List (Slot α β)) :
    Erases (finishAt job.recorded.finish n slots) (finishAt job.finish n slots) := by
  induction slots generalizing n with
  | nil => exact .pure _
  | cons slot rest ih =>
    cases slot with
    | ended outcome => exact (ih n).bind fun _ => .pure _
    | running item =>
      cases n with
      | zero => exact (Erases.noting _ _).bind fun _ => .pure _
      | succ n => exact (ih n).bind fun _ => .pure _

theorem step_erases (job : Job ω α β) (s : Fanout α β) (move : Move) :
    Erases (step job.recorded s move) (step job s move) := by
  obtain ⟨waiting, slots, delivered⟩ := s
  cases move with
  | start =>
    cases waiting with
    | nil => exact .pure _
    | cons item waiting => exact (Erases.noting _ _).bind fun _ => .pure _
  | finish position => exact (finishAt_erases job position slots).bind fun _ => .pure _

theorem run_erases (job : Job ω α β) (limit : Nat) (next : Scheduler ω) (moves : Nat)
    (s : Fanout α β) :
    Erases (run job.recorded limit next.recorded moves s) (run job limit next moves s) := by
  induction moves generalizing s with
  | zero => exact .pure s
  | succ moves ih =>
    refine (Erases.unaware (next s.waiting.length s.running)).bind fun move => ?_
    exact (step_erases job s _).bind fun after => ih after

end Fanout

theorem Job.fanOut_erases (job : Job ω α β) (limit : Nat) (next : Scheduler ω) (items : List α) :
    Erases (job.recorded.fanOut limit next.recorded items) (job.fanOut limit next items) :=
  (Fanout.run_erases job limit next _ _).bind fun _ => .pure _

/-! ## §4. What a fan-out puts on record. -/

/-- The items in slots whose calls run. -/
def Slot.underWay : List (Slot α β) → List α
  | [] => []
  | .running item :: rest => item :: underWay rest
  | .ended _ :: rest => underWay rest

theorem Slot.underWay_append (slots slots' : List (Slot α β)) :
    underWay (slots ++ slots') = underWay slots ++ underWay slots' := by
  induction slots with
  | nil => rfl
  | cons slot rest ih => cases slot <;> simp [underWay, ih]

theorem Slot.underWay_unready (slots : List (Slot α β)) :
    underWay (Fanout.unready slots) = underWay slots := by
  induction slots with
  | nil => rfl
  | cons slot rest ih =>
    cases slot with
    | running item => rfl
    | ended outcome => exact ih

theorem Slot.underWay_length_le (slots : List (Slot α β)) :
    (underWay slots).length ≤ slots.length := by
  induction slots with
  | nil => exact Nat.le_refl 0
  | cons slot rest ih =>
    cases slot with
    | running item => exact Nat.succ_le_succ ih
    | ended outcome => exact Nat.le_succ_of_le ih

theorem Slot.underWay_eq_nil {slots : List (Slot α β)} (h : Fanout.runningIn slots = 0) :
    underWay slots = [] := by
  induction slots with
  | nil => rfl
  | cons slot rest ih =>
    cases slot with
    | running item => simp [Fanout.runningIn] at h
    | ended outcome => exact ih h

namespace Fanout

theorem unready_length_le (slots : List (Slot α β)) : (unready slots).length ≤ slots.length := by
  induction slots with
  | nil => exact Nat.le_refl 0
  | cons slot rest ih =>
    cases slot with
    | running item => exact Nat.le_refl _
    | ended outcome => exact Nat.le_succ_of_le ih

/-- The log so far fits where the calls are. -/
structure Logged (limit : Nat) (items : List α) (s : Fanout α β) (log : CallLog α) : Prop where
  /-- What began and what waits are the items, in order. -/
  begun : log.begun ++ s.waiting = items
  /-- What began has ended or runs. -/
  calls : log.begun ~ log.ended ++ Slot.underWay s.slots
  slots : s.slots.length ≤ max 1 limit
  sound : ∀ earlier : CallLog α, earlier <+: log → earlier.Sound limit

/-- Where calls that began have ended or run in so many slots, the log is sound. -/
theorem sound_of_calls {limit : Nat} {log : CallLog α} {slots : List (Slot α β)}
    (hcalls : log.begun ~ log.ended ++ Slot.underWay slots) (hslots : slots.length ≤ max 1 limit) :
    log.Sound limit := by
  refine ⟨(List.sublist_append_left _ _).subperm.trans hcalls.symm.subperm, ?_⟩
  have hlen := hcalls.length_eq
  have hrun := Slot.underWay_length_le slots
  rw [List.length_append] at hlen
  unfold CallLog.inFlight
  omega

/-- A log is sound at every moment if it was before the last entry and is now. -/
theorem sound_concat {limit : Nat} {log : CallLog α} {e : CallEvent α}
    (h : ∀ earlier : CallLog α, earlier <+: log → earlier.Sound limit)
    (hnow : (log ++ [e]).Sound limit) :
    ∀ earlier : CallLog α, earlier <+: log ++ [e] → earlier.Sound limit := by
  intro earlier hearlier
  rcases List.prefix_concat_iff.mp hearlier with rfl | hbefore
  · exact hnow
  · exact h earlier hbefore

variable {limit : Nat} {items : List α} {s : Fanout α β} {before log : CallLog α}

/-- A call that may begin is put on record. -/
theorem logged_start (job : Job ω α β) (h : Logged limit items s log)
    (hroom : s.waiting ≠ [] → s.slots.length < max 1 limit) :
    Logs (step job.recorded s .start) (before ++ log)
      (fun after log' => ∃ new, log' = before ++ new ∧ Logged limit items after new) := by
  obtain ⟨waiting, slots, delivered⟩ := s
  cases waiting with
  | nil => exact .pure ⟨log, rfl, h⟩
  | cons item waiting =>
    refine (Logs.noting (job.start item) (.began item)).bind fun _ log' hlog => .pure ?_
    have hslots : (slots ++ [.running item] : List (Slot α β)).length ≤ max 1 limit := by
      rw [List.length_append]
      exact hroom (List.cons_ne_nil item waiting)
    have hcalls : CallLog.begun (log ++ [.began item])
        ~ CallLog.ended (log ++ [.began item])
          ++ Slot.underWay (slots ++ [.running item] : List (Slot α β)) := by
      rw [CallLog.begun_append, CallLog.ended_append, Slot.underWay_append]
      show log.begun ++ [item] ~ log.ended ++ [] ++ (Slot.underWay slots ++ [item])
      rw [List.append_nil, ← List.append_assoc]
      exact h.calls.append_right [item]
    refine ⟨log ++ [.began item], by rw [hlog, List.append_assoc], ?_, hcalls, hslots, ?_⟩
    · rw [CallLog.begun_append, List.append_assoc]
      exact h.begun
    · exact sound_concat h.sound (sound_of_calls hcalls hslots)

/-- Ending a call at a position among those that run: the call is put on record, and the others
run on; or no call runs there, and nothing happens. -/
theorem finishAt_logs (job : Job ω α β) (n : Nat) (slots : List (Slot α β)) (log : CallLog α) :
    Logs (finishAt job.recorded.finish n slots) log (fun after log' =>
      after.length = slots.length
      ∧ ((log' = log ∧ Slot.underWay after = Slot.underWay slots)
        ∨ ∃ item, log' = log ++ [.ended item]
          ∧ Slot.underWay slots ~ item :: Slot.underWay after)) := by
  induction slots generalizing n with
  | nil => exact .pure ⟨rfl, .inl ⟨rfl, rfl⟩⟩
  | cons slot rest ih =>
    cases slot with
    | ended outcome =>
      refine (ih n).bind fun after log' hafter => .pure ⟨congrArg (· + 1) hafter.1, ?_⟩
      exact hafter.2
    | running item =>
      cases n with
      | zero =>
        refine (Logs.noting (job.finish item) (.ended item)).bind fun outcome log' hlog => .pure ?_
        exact ⟨rfl, .inr ⟨item, hlog, .refl _⟩⟩
      | succ n =>
        refine (ih n).bind fun after log' hafter => .pure ⟨congrArg (· + 1) hafter.1, ?_⟩
        rcases hafter.2 with ⟨hlog, hrun⟩ | ⟨other, hlog, hrun⟩
        · exact .inl ⟨hlog, congrArg (item :: ·) hrun⟩
        · -- the call on `item` runs on beside the one that ended
          exact .inr ⟨other, hlog, (hrun.cons item).trans (.swap other item _)⟩

/-- A call that ends is put on record. -/
theorem logged_finish (job : Job ω α β) (h : Logged limit items s log) (position : Nat) :
    Logs (step job.recorded s (.finish position)) (before ++ log)
      (fun after log' => ∃ new, log' = before ++ new ∧ Logged limit items after new) := by
  refine (finishAt_logs job position s.slots (before ++ log)).bind fun slots log' hafter => .pure ?_
  obtain ⟨hlen, hafter⟩ := hafter
  have hslots : (unready slots).length ≤ max 1 limit :=
    Nat.le_trans (unready_length_le slots) (hlen ▸ h.slots)
  rcases hafter with ⟨rfl, hrun⟩ | ⟨item, rfl, hrun⟩
  · refine ⟨log, rfl, h.begun, ?_, hslots, h.sound⟩
    show log.begun ~ log.ended ++ Slot.underWay (unready slots)
    rw [Slot.underWay_unready, hrun]
    exact h.calls
  · have hcalls : CallLog.begun (log ++ [.ended item])
        ~ CallLog.ended (log ++ [.ended item]) ++ Slot.underWay (unready slots) := by
      rw [CallLog.begun_append, CallLog.ended_append, Slot.underWay_unready]
      show log.begun ++ [] ~ log.ended ++ [item] ++ Slot.underWay slots
      rw [List.append_nil, List.append_assoc]
      exact h.calls.trans (hrun.append_left log.ended)
    refine ⟨log ++ [.ended item], List.append_assoc _ _ _, ?_, hcalls, hslots, ?_⟩
    · rw [CallLog.begun_append]
      show log.begun ++ [] ++ s.waiting = items
      rw [List.append_nil]
      exact h.begun
    · exact sound_concat h.sound (sound_of_calls hcalls hslots)

/-- Whatever the scheduler asks for, the move that is made keeps the log fitting. -/
theorem logged_settle (job : Job ω α β) (h : Logged limit items s log) (hs : s.Delivered)
    (move : Move) :
    Logs (step job.recorded s (s.settle limit move)) (before ++ log)
      (fun after log' => ∃ new, log' = before ++ new ∧ Logged limit items after new) := by
  have hroom : s.canStart limit = true → s.slots.length < max 1 limit := by
    intro hcan
    simp only [canStart, Bool.and_eq_true, decide_eq_true_eq] at hcan
    exact hcan.2
  cases move with
  | start =>
    by_cases hcan : s.canStart limit = true
    · rw [show s.settle limit .start = .start from if_pos hcan]
      exact logged_start job h fun _ => hroom hcan
    · rw [show s.settle limit .start = .finish 0 from if_neg hcan]
      exact logged_finish job h 0
  | finish position =>
    by_cases hpos : position < s.running
    · rw [show s.settle limit (.finish position) = .finish position from if_pos hpos]
      exact logged_finish job h position
    · rcases Nat.eq_zero_or_pos s.running with hrun | hrun
      · -- no call runs, so all slots are free
        rw [show s.settle limit (.finish position) = .start by simp [settle, hrun]]
        exact logged_start job h fun hwait => hroom (canStart_of_idle hs hrun hwait limit)
      · rw [show s.settle limit (.finish position) = .finish 0 by simp [settle, hpos, hrun]]
        exact logged_finish job h 0

/-- What is on record when a run ends fits where the calls are then. -/
theorem run_logs (job : Job ω α β) (next : Scheduler ω) (moves : Nat)
    (h : Logged limit items s log) (hs : s.Delivered) :
    Logs (run job.recorded limit next.recorded moves s) (before ++ log)
      (fun after log' => ∃ new, log' = before ++ new ∧ Logged limit items after new) := by
  -- on the number of moves; each keeps the log fitting and leaves nothing undelivered
  induction moves generalizing s log with
  | zero => exact .pure ⟨log, rfl, h⟩
  | succ moves ih =>
    refine (Logs.unaware (next s.waiting.length s.running)).bind fun move log' hlog => ?_
    subst hlog
    have hstep : Logs (step job.recorded s (s.settle limit move)) (before ++ log)
        (fun after log' => (∃ new, log' = before ++ new ∧ Logged limit items after new)
          ∧ after.Delivered) := fun w =>
      ⟨logged_settle job h hs move w, delivered_step job.recorded hs _ (w, before ++ log)⟩
    refine hstep.bind fun after log' hafter => ?_
    obtain ⟨⟨new, rfl, hnew⟩, hdelivered⟩ := hafter
    exact ih hnew hdelivered

/-- When no call is left to begin or to end, the log serves the items. -/
theorem Logged.serves (h : Logged limit items s log) (hrem : s.remaining = 0) :
    log.Serves limit items := by
  unfold remaining at hrem
  have hwait : s.waiting = [] := List.eq_nil_of_length_eq_zero (by omega)
  have hrun : Slot.underWay s.slots = [] :=
    Slot.underWay_eq_nil (show s.running = 0 by omega)
  have hbegun := h.begun
  have hcalls := h.calls
  rw [hwait, List.append_nil] at hbegun
  rw [hrun, List.append_nil, hbegun] at hcalls
  exact ⟨hbegun, hcalls.symm, h.sound⟩

end Fanout

/-- **Calls begin in the order of the items, each item is called once, and never are more calls
under way than the limit allows**, whatever the scheduler decides. -/
theorem Job.fanOut_logs (job : Job ω α β) (limit : Nat) (next : Scheduler ω) (items : List α)
    (before : CallLog α) :
    Logs (job.recorded.fanOut limit next.recorded items) before
      (fun _ log => ∃ new, log = before ++ new ∧ new.Serves limit items) := by
  have hstart : Fanout.Logged limit items ({ waiting := items } : Fanout α β) [] := by
    refine ⟨rfl, .nil, Nat.zero_le _, fun earlier hearlier => ?_⟩
    obtain rfl := List.prefix_nil.mp hearlier
    exact ⟨.refl _, Nat.zero_le _⟩
  have hinv : Fanout.Inv (fun _ _ => True) items ({ waiting := items } : Fanout α β) :=
    ⟨⟨[], [], by simp, .nil, .nil⟩, rfl⟩
  have hrun : Logs (Fanout.run job.recorded limit next.recorded (2 * items.length)
      { waiting := items }) (before ++ []) (fun after log' =>
        (∃ new, log' = before ++ new ∧ Fanout.Logged limit items after new)
        ∧ after.remaining = 0) := fun w =>
    ⟨Fanout.run_logs job next _ hstart rfl w,
      (Fanout.run_ensures (fun _ _ => trivial) limit next.recorded _ hinv rfl (w, _)).2⟩
  rw [List.append_nil] at hrun
  refine hrun.bind fun after log hafter => .pure ?_
  obtain ⟨⟨new, rfl, hnew⟩, hrem⟩ := hafter
  exact ⟨new, rfl, hnew.serves hrem⟩

/-! ## §5. Batches. -/

/-- What becomes of a change, and whether it could be deployed, depends on the change alone. -/
def Job.Answers (handler : ChangeHandler ω) (effect : InstanceChange → InstanceChange)
    (verdict : InstanceChange → Except Failure Unit) : Prop :=
  ∀ c, Ensures (handler.finish c) (fun o => o = ⟨effect c, verdict c⟩)

/-- The pool with its calls on record. -/
def Pool.recorded (pool : Pool ω) : Pool (ω × CallLog InstanceChange) :=
  ⟨pool.limit, pool.next.recorded⟩

namespace Pool

variable (pool : Pool ω) (handler : ChangeHandler ω) (changes : List InstanceChange)

theorem deploy_erases :
    Erases (pool.recorded.deploy handler.recorded changes) (pool.deploy handler changes) :=
  (handler.fanOut_erases pool.limit pool.next changes).bind fun _ => .pure _

theorem deploy_logs (before : CallLog InstanceChange) :
    Logs (pool.recorded.deploy handler.recorded changes) before
      (fun _ log => ∃ new, log = before ++ new ∧ new.Serves pool.limit changes) :=
  (handler.fanOut_logs pool.limit pool.next changes before).bind fun _ _ hlog => .pure hlog

end Pool

/-- Applied are the changes that could be deployed, with what became of them. -/
theorem DeployResult.applied_ofVerdicts (effect : InstanceChange → InstanceChange)
    (verdict : InstanceChange → Except Failure Unit) (changes : List InstanceChange) :
    (DeployResult.ofOutcomes (changes.map fun c => ⟨effect c, verdict c⟩)).applied
      = (changes.filter fun c => (verdict c).isOk).map effect := by
  show (changes.map _).filterMap Outcome.applied? = _
  rw [List.filterMap_map]
  induction changes with
  | nil => rfl
  | cons c rest ih =>
    rw [List.filterMap_cons, List.filter_cons, ih]
    cases hc : verdict c <;> simp [Outcome.applied?, hc, Except.isOk, Except.toBool]

/-- Each of the others is reported, with the reason why it could not be deployed. -/
theorem DeployResult.errors_ofVerdicts (effect : InstanceChange → InstanceChange)
    (verdict : InstanceChange → Except Failure Unit) (changes : List InstanceChange) :
    Forall₂ (fun c d => ∃ e, verdict c = .error e
        ∧ d = .error (effect c).id (e.report (effect c).id))
      (changes.filter fun c => !(verdict c).isOk)
      (DeployResult.ofOutcomes (changes.map fun c => ⟨effect c, verdict c⟩)).errors := by
  show Forall₂ _ _ ((changes.map _).filterMap Outcome.error?)
  rw [List.filterMap_map]
  induction changes with
  | nil => exact .nil
  | cons c rest ih =>
    rw [List.filterMap_cons, List.filter_cons]
    cases hc : verdict c with
    | ok done => simpa [Outcome.error?, hc, Except.isOk, Except.toBool] using ih
    | error e => simpa [Outcome.error?, hc, Except.isOk, Except.toBool] using ih

namespace Job.Answers

variable {handler : ChangeHandler ω} {effect : InstanceChange → InstanceChange}
  {verdict : InstanceChange → Except Failure Unit}

/-- Every schedule leads to the outcomes of the changes, in their order. -/
theorem fanOut (h : handler.Answers effect verdict) (limit : Nat) (next : Scheduler ω)
    (changes : List InstanceChange) :
    Ensures (handler.fanOut limit next changes)
      (fun outcomes => outcomes = changes.map fun c => ⟨effect c, verdict c⟩) := by
  refine (handler.fanOut_forall₂ h limit next changes).mono fun outcomes hout => ?_
  induction hout with
  | nil => rfl
  | cons hfirst _ ih => rw [hfirst, ih, List.map_cons]

/-- Handling one change after the other leads to the same outcomes. -/
theorem inTurn (h : handler.Answers effect verdict) (changes : List InstanceChange) :
    Ensures (changes.mapM handler.call)
      (fun outcomes => outcomes = changes.map fun c => ⟨effect c, verdict c⟩) := by
  induction changes with
  | nil => exact .pure rfl
  | cons c rest ih =>
    rw [List.mapM_cons]
    have hcall : Ensures (handler.call c) (fun o => o = ⟨effect c, verdict c⟩) :=
      (Ensures.yields (handler.start c)).bind fun _ _ => h c
    refine hcall.bind fun o ho => ih.bind fun outcomes hout => .pure ?_
    rw [ho, hout, List.map_cons]

/-- The errors are about the elements of the changes that failed, unless the handler turns a change
into one of another element. -/
theorem reported (h : handler.Answers effect verdict) (hids : handler.KeepsIds) (w : ω)
    {failed : List InstanceChange} {errors : List Diagnostic}
    (herrors : Forall₂ (fun c d => ∃ e, verdict c = .error e
      ∧ d = .error (effect c).id (e.report (effect c).id)) failed errors) :
    reportedIds errors = changedIds failed := by
  have hid : ∀ c, (effect c).id = c.id := by
    intro c
    have hc := hids c w
    rw [h c w] at hc
    exact hc
  induction herrors with
  | nil => rfl
  | @cons c d failed errors hfirst _ ih =>
    obtain ⟨e, -, rfl⟩ := hfirst
    rw [reportedIds_error_cons, ih, hid, changedIds_cons]

end Job.Answers

/-- **The schedule makes no difference for a batch** if what becomes of a change depends on the
change alone.  Calls begin in the order of the changes, each change is handled once, and never
are more calls under way than the limit allows.  Applied are the changes that could be deployed,
as their handler left them, and each of the others is reported by one error about its element,
both in the order of the batch.  This is what comes of handling one change after the other. -/
theorem deploy_any_schedule (pool : Pool ω) {handler : ChangeHandler ω}
    {effect : InstanceChange → InstanceChange} {verdict : InstanceChange → Except Failure Unit}
    (h : handler.Answers effect verdict) (changes : List InstanceChange) (w : ω) :
    let r := (pool.deploy handler changes w).1
    let failed := changes.filter fun c => !(verdict c).isOk
    let recorded := pool.recorded.deploy handler.recorded changes (w, [])
    (recorded.1 = r ∧ recorded.2.1 = (pool.deploy handler changes w).2)
      ∧ recorded.2.2.Serves pool.limit changes
      ∧ r.applied = (changes.filter fun c => (verdict c).isOk).map effect
      ∧ Forall₂ (fun c d => ∃ e, verdict c = .error e
          ∧ d = .error (effect c).id (e.report (effect c).id)) failed r.errors
      ∧ (handler.KeepsIds → reportedIds r.errors = changedIds failed)
      ∧ ∀ w', r = .ofOutcomes (changes.mapM handler.call w').1 := by
  intro r failed recorded
  have hr : r = .ofOutcomes (changes.map fun c => ⟨effect c, verdict c⟩) :=
    congrArg DeployResult.ofOutcomes (h.fanOut pool.limit pool.next changes w)
  have herase : Erases (pool.recorded.deploy handler.recorded changes)
      (pool.deploy handler changes) :=
    (handler.fanOut_erases pool.limit pool.next changes).bind fun _ => .pure _
  have hlogs : Logs (pool.recorded.deploy handler.recorded changes) []
      (fun _ log => log.Serves pool.limit changes) := by
    refine (handler.fanOut_logs pool.limit pool.next changes []).bind fun _ log hlog => .pure ?_
    obtain ⟨new, rfl, hnew⟩ := hlog
    exact hnew
  have herrors := DeployResult.errors_ofVerdicts effect verdict changes
  rw [← hr] at herrors
  refine ⟨herase w [], hlogs w, ?_, herrors, fun hids => h.reported hids w herrors, fun w' => ?_⟩
  · rw [hr]
    exact DeployResult.applied_ofVerdicts effect verdict changes
  · rw [hr, h.inTurn changes w']

/-! ## §6. Two calls that end the other way round. -/

/-- Asks for the moves of a script. -/
def Scheduler.scripted : Scheduler (List Move) :=
  fun _ _ script => (script.headD .start, script.tail)

/-- The addition of an instance without fields. -/
def InstanceChange.adding (name : String) : InstanceChange :=
  .addition (.named name (.ofType "z" "t") [])

/-- A change whose instance is marked as done. -/
def InstanceChange.marked (c : InstanceChange) : InstanceChange :=
  c.setData (c.data.set "done" (.bool true))

/-- The second of three changes ends first, and it fails; the third one has to wait until the first
one has ended as well. -/
theorem deploy_any_schedule_for_overtaking :
    let verdict (c : InstanceChange) : Except Failure Unit :=
      if c.data.id.name = "b" then .error .malformedJson else .ok ()
    let handler : ChangeHandler (List Move) :=
      .ofFinish fun c => pure ⟨.marked c, verdict c⟩
    let pool : Pool (List Move) := ⟨2, .scripted⟩
    let changes : List InstanceChange := [.adding "a", .adding "b", .adding "c"]
    let script := [Move.start, .start, .finish 1, .start, .finish 0]
    let r := (pool.deploy handler changes script).1
    let log := (pool.recorded.deploy handler.recorded changes (script, [])).2.2
    handler.Answers .marked verdict
      ∧ log.Serves 2 changes
      ∧ changedIds log.ended = changedIds [.adding "b", .adding "a", .adding "c"]
      ∧ r.applied = [.marked (.adding "a"), .marked (.adding "c")]
      ∧ reportedIds r.errors = changedIds [.adding "b"] := by
  intro verdict handler pool changes script r log
  have hanswers : handler.Answers .marked verdict := fun _ => .pure rfl
  have hids : handler.KeepsIds := fun c => .pure (by cases c <;> rfl)
  obtain ⟨-, hlog, happlied, -, hreported, -⟩ :=
    deploy_any_schedule pool hanswers changes script
  exact ⟨hanswers, hlog, rfl, happlied, hreported hids⟩

end AccountSync
