import Lockstep.Barrier

/-!
# Calls of the barrier

An actor meets the others in two calls.  With `Call.start k` it arrives for phase `k` and waits
until it opens; with `Call.finish k wait` it hands its token back and may wait until the phase has
closed.  A call goes through several steps, and other actors may come between any two of them.

* `Call` lists the points at which a call may be;
* `Call.step` carries a call on: it is blocked, moves to the next point, or ends.

A call that is blocked stays so until the signal changes: `Call.isReady` only looks at the signal.
-/

namespace Lockstep

/-- Where a barrier call is. -/
inductive Call where
  /-- Waits until phase `k` is the next one. -/
  | starting (k : Nat)
  /-- Has seen that phase `k` is next, and is about to arrive. -/
  | arriving (k : Nat)
  /-- Has arrived, and waits until phase `k` opens. -/
  | opening (k : Nat)
  /-- Is about to hand back the token of phase `k`, and may want to see it closed. -/
  | returning (k : Nat) (wait : Bool)
  /-- Has handed the token back, and waits until phase `k` has closed. -/
  | closing (k : Nat)
  deriving DecidableEq, Repr

namespace Call

/-- The call that arrives for a phase. -/
def start (k : Nat) : Call := .starting k

/-- The call that leaves a phase. -/
def finish (k : Nat) (wait : Bool) : Call := .returning k wait

/-- What a step of a call comes to. -/
inductive Progress where
  /-- The signal has to change first. -/
  | blocked
  | moved (c : Call)
  /-- The call ends, with a truth value: for `start` that the phase is open, for `finish` that
  another phase follows. -/
  | done (r : Except SyncError Bool)
  /-- The number of the next phase does not fit a word. -/
  | overflow

/-- The call can take a step while this is the signal. -/
def isReady (s : Signal) : Call → Bool
  | starting k => s.halt ≠ .running || (s.phase = k && !s.isOpen)
  | arriving _ => true
  | opening k => s.halt ≠ .running || (s.phase = k && s.isOpen)
  | returning _ _ => true
  | closing k => s.halt ≠ .running || k < s.phase

/-- What a leaving actor is told on a halt: that no phase follows, or why the run was aborted. -/
def leftHalted (b : Barrier) : Except SyncError Bool := (b.answer b.signal.halt).map fun _ => false

/-- One step of a call. -/
def step (b : Barrier) : Call → Barrier × Progress
  | starting k =>
    if b.signal.halt ≠ .running then (b, .done (b.answer b.signal.halt))
    else if b.signal.phase = k ∧ b.signal.isOpen = false then (b, .moved (.arriving k))
    else (b, .blocked)
  | arriving k =>
    if b.signal.halt ≠ .running then (b, .done (b.answer b.signal.halt))
    -- the last to arrive need not wait for what it has just made known
    else if b.opensNow then (b.arrive, .done (.ok true))
    else (b.arrive, .moved (.opening k))
  | opening k =>
    if b.signal.halt ≠ .running then (b, .done (b.answer b.signal.halt))
    else if b.signal.phase = k ∧ b.signal.isOpen = true then (b, .done (.ok true))
    else (b, .blocked)
  | returning k wait =>
    if b.signal.halt ≠ .running then (b, .done (leftHalted b))
    else if b.closesNow then
      -- the number of the phase that would come next has to fit a word
      if k + 1 < wordLimit then (b.handBack k, .done (.ok (b.hasAfter k)))
      else ({ b with outstanding := 0 }, .overflow)
    else
      (b.handBack k, if wait then .moved (.closing k) else .done (.ok (b.hasAfter k)))
  | closing k =>
    if b.signal.halt ≠ .running then (b, .done (leftHalted b))
    else if k < b.signal.phase then (b, .done (.ok (b.hasAfter k)))
    else (b, .blocked)

/-- What a step of a call logs. -/
def stepNotes (b : Barrier) : Call → List Note
  | arriving k =>
    if b.signal.halt = .running ∧ b.opensNow then
      [⟨.info, "Phase " ++ toString k ++ " started"⟩]
    else []
  | returning k _ =>
    if b.signal.halt = .running ∧ b.closesNow ∧ k + 1 < wordLimit then
      [⟨.info, "Phase " ++ toString k ++ " ended"⟩]
    else []
  | _ => []

/-- A call that is not ready is blocked, and nothing changes. -/
theorem step_of_not_ready {b : Barrier} {c : Call} (h : c.isReady b.signal = false) :
    c.step b = (b, .blocked) := by
  cases c with
  | starting k => simp_all [isReady, step]
  | arriving k => cases h
  | opening k => simp_all [isReady, step]
  | returning k wait => cases h
  | closing k =>
    have hk : b.signal.halt = .running ∧ ¬ k < b.signal.phase := by simpa [isReady] using h
    simp [step, hk]

/-- A call is blocked exactly while it is not ready. -/
theorem step_eq_blocked_iff {b : Barrier} {c : Call} :
    (c.step b).2 = .blocked ↔ c.isReady b.signal = false := by
  refine ⟨fun h => ?_, fun h => by rw [step_of_not_ready h]⟩
  cases c with
  | starting k =>
    simp only [step] at h
    split at h
    · cases h
    · split at h <;> simp_all [isReady]
  | arriving k =>
    simp only [step] at h
    split at h
    · cases h
    · split at h <;> cases h
  | opening k =>
    simp only [step] at h
    split at h
    · cases h
    · split at h <;> simp_all [isReady]
  | returning k wait =>
    simp only [step] at h
    repeat' split at h
    all_goals cases h
  | closing k =>
    simp only [step] at h
    split at h
    · cases h
    · split at h <;> simp_all [isReady]

end Call

end Lockstep
