/-
  AccountSync.Deployment.Fanout
  ─────────────────────────────
  **MANY CALLS UNDER WAY AT ONCE.**

  A job is done for every item of a list, several at a time.  Calls begin in the
  order of the items; a scheduler of which nothing is assumed decides which call ends
  next.  Outcomes are delivered in the order of the items, and a call keeps its slot
  until its outcome is delivered, so that there are never more slots in use than the
  limit allows.

      Job            — how a call begins, and how it ends
      Scheduler      — decides what happens next
      Fanout.step    — one move: a call begins, or a call ends
      Job.fanOut     — all calls, outcomes in the order of the items

  Every item takes two moves, and as long as an outcome is missing one of the two
  kinds of move is possible; so twice as many moves as there are items are enough.
-/

namespace AccountSync

/-- How a call on an item begins and how it ends, in a world `ω`. -/
structure Job (ω α β : Type) where
  start : α → StateM ω Unit
  finish : α → StateM ω β

/-- What happens next: the call on the next item begins, or one of the running calls
ends. -/
inductive Move where
  | start
  | finish (position : Nat)
deriving DecidableEq, Repr

/-- Decides what happens next, given the number of items that wait and of calls that
run. -/
abbrev Scheduler (ω : Type) := Nat → Nat → StateM ω Move

namespace Scheduler

variable {ω : Type}

/-- Ends each call before the next one begins. -/
def inTurn : Scheduler ω :=
  fun _ running => pure (if running = 0 then .start else .finish 0)

/-- Begins calls as long as the limit allows, and then ends the oldest. -/
def eager : Scheduler ω :=
  fun _ _ => pure .start

end Scheduler

/-- A call under way: it runs, or it has ended and its outcome waits to be delivered. -/
inductive Slot (α β : Type) where
  | running (item : α)
  | ended (outcome : β)

/-- Items whose calls have not begun, slots of the calls under way, oldest first, and the
outcomes delivered so far. -/
structure Fanout (α β : Type) where
  waiting : List α
  slots : List (Slot α β) := []
  delivered : List β := []

namespace Fanout

variable {ω α β : Type}

/-- How many of the slots hold running calls. -/
def runningIn : List (Slot α β) → Nat
  | [] => 0
  | .running _ :: rest => runningIn rest + 1
  | .ended _ :: rest => runningIn rest

/-- How many calls run. -/
def running (s : Fanout α β) : Nat :=
  runningIn s.slots

/-- Whether the next call may begin; one call may always be under way. -/
def canStart (limit : Nat) (s : Fanout α β) : Bool :=
  !s.waiting.isEmpty && decide (s.slots.length < max 1 limit)

/-- The move that is made when one is asked for; an impossible one gives way to one that is
possible. -/
def settle (limit : Nat) (s : Fanout α β) : Move → Move
  | .start => if s.canStart limit then .start else .finish 0
  | .finish position =>
    if position < s.running then .finish position
    else if 0 < s.running then .finish 0
    else .start

/-- Ends the call at a position among the running ones. -/
def finishAt (finish : α → StateM ω β) : Nat → List (Slot α β) → StateM ω (List (Slot α β))
  | _, [] => pure []
  | n, .ended outcome :: rest => do
    let rest ← finishAt finish n rest
    pure (.ended outcome :: rest)
  | 0, .running item :: rest => do
    let outcome ← finish item
    pure (.ended outcome :: rest)
  | n + 1, .running item :: rest => do
    let rest ← finishAt finish n rest
    pure (.running item :: rest)

/-- The outcomes at the front that can be delivered. -/
def ready : List (Slot α β) → List β
  | .ended outcome :: rest => outcome :: ready rest
  | _ => []

/-- The slots that stay when the outcomes at the front are delivered. -/
def unready : List (Slot α β) → List (Slot α β)
  | .ended _ :: rest => unready rest
  | slots => slots

/-- Delivers the outcomes that no running call is in front of. -/
def deliver (s : Fanout α β) : Fanout α β :=
  { s with slots := unready s.slots, delivered := s.delivered ++ ready s.slots }

/-- Makes a move. -/
def step (job : Job ω α β) (s : Fanout α β) : Move → StateM ω (Fanout α β)
  | .start =>
    match s.waiting with
    | [] => pure s
    | item :: waiting => do
      job.start item
      pure { s with waiting, slots := s.slots ++ [.running item] }
  | .finish position => do
    let slots ← finishAt job.finish position s.slots
    pure { s with slots }.deliver

/-- Makes a number of moves, as the scheduler decides. -/
def run (job : Job ω α β) (limit : Nat) (next : Scheduler ω) :
    Nat → Fanout α β → StateM ω (Fanout α β)
  | 0, s => pure s
  | moves + 1, s => do
    let move ← next s.waiting.length s.running
    let s ← step job s (s.settle limit move)
    run job limit next moves s

end Fanout

namespace Job

variable {ω α β : Type}

/-- One call by itself. -/
def call (job : Job ω α β) (item : α) : StateM ω β := do
  job.start item
  job.finish item

/-- The job that does all its work when it ends. -/
def ofFinish (finish : α → StateM ω β) : Job ω α β :=
  ⟨fun _ => pure (), finish⟩

/-- Does the job for every item, with at most `limit` calls under way, but at least one.
The outcomes are in the order of the items. -/
def fanOut (job : Job ω α β) (limit : Nat) (next : Scheduler ω) (items : List α) :
    StateM ω (List β) := do
  let s ← Fanout.run job limit next (2 * items.length) { waiting := items }
  pure s.delivered

end Job

end AccountSync
