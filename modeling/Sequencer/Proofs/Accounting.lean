import Sequencer.Proofs.Outcome

/-! Every step of a queue meets one fate. A run that completed has applied all that was appended
before it found nothing left; a run that fell has applied, refused, told or skipped all that was
appended before its failure took the rest out. What is appended later waits on the queue. -/
namespace Sequencer
open Standing

namespace Fall

def refused (fall : Fall κ ν) : List (Entry κ) :=
  if fall.attempt.isSome then [] else [fall.entry]

theorem appliedOrRefused (fall : Fall κ ν) : [fall.entry] = fall.applied ++ fall.refused := by
  unfold applied refused
  split <;> rfl

theorem droppedSteps (fall : Fall κ ν) :
    fall.dropped =
      (fall.refused ++ fall.remaining.filter fun entry => !entry.isObserver).length := by
  rw [List.length_append, dropped, refused, skipped, List.countP_eq_length_filter, Nat.add_comm]
  split <;> rfl

end Fall

theorem Fell.refusal {queue : QueueId} {name : String} {error : RunError} {agenda : Agenda κ}
    {log before after : Log κ ν ε} {trunk : Trunk κ ν} {fall : Fall κ ν}
    (fell : Fell queue name error agenda log trunk fall before after) :
    (fall.refused = [] ∧ ∃ info spliced, .settled queue info spliced (.error error) ∈ log) ∨
      ∃ entry info, fall.refused = [entry] ∧ .refused queue info error ∈ log := by
  have blown := fell.blown
  rw [fell.cause]
  cases tried : fall.attempt with
  | none =>
    simp only [Fall.blow, tried] at blown
    exact .inr ⟨fall.entry, _, by simp [Fall.refused, tried], blown⟩
  | some attempt =>
    simp only [Fall.blow, tried] at blown
    exact .inl ⟨by simp [Fall.refused, tried], _, _, blown⟩

namespace Ensemble

variable {behaviour : Behaviour κ ν ε} {queue : QueueId} {result : Except RunError ν}
  {s r t : Ensemble κ ν ε}

structure LeftOver (agenda : Agenda κ) (after : Log κ ν ε) : Prop where
  pipeline : agenda.pipeline = after.arrivals
  depth : ∀ entry ∈ agenda.pipeline, entry.depth = 0
  buffer : agenda.buffer = []
  idle : agenda.active = none

theorem Returns.leftOver (returns : Returns behaviour queue result s r)
    (reached : Reachable behaviour s) (later : Reaches behaviour r t) {before after : Log κ ν ε}
    {mark : Event κ ν ε}
    (closed : Closed queue (t.world.agenda queue) (t.world.log queue) before mark after) :
    LeftOver (t.world.agenda queue) after := by
  have marked := returns.holds reached later (keptMarked queue _)
  exact ⟨closed.left, closed.depth, marked.idle marked.mark, marked.mark⟩

theorem Returns.beforeDistinct (returns : Returns behaviour queue result s r)
    (reached : Reachable behaviour s) (later : Reaches behaviour r t) {before after : Log κ ν ε}
    {mark : Event κ ν ε}
    (closed : Closed queue (t.world.agenda queue) (t.world.log queue) before mark after) :
    (before.arrivals.map Entry.ticket).Nodup := by
  have distinct := ((reached.next returns.next).later later).ticketsDistinct queue
  rw [closed.split, Log.arrivals, List.filterMap_append, List.map_append] at distinct
  exact distinct.of_append_left

/-- The account of a run that was admitted and has given its result. -/
theorem stepsAccounted (reached : Reachable behaviour s)
    (returns : Returns behaviour queue result s r)
    (admitted : ∃ run queued, .started queue run queued ∈ s.world.log queue)
    (later : Reaches behaviour r t) :
    ∃ (before : Log κ ν ε) (mark : Event κ ν ε) (after : Log κ ν ε) (run : Int),
      t.world.log queue = before ++ mark :: after ∧
      LeftOver (t.world.agenda queue) after ∧ (before.arrivals.map Entry.ticket).Nodup ∧
      ((∃ value, result = .ok value ∧
          mark = .asked queue
            (.completeRun run (.completed (UInt32.ofNat before.arrivals.length))) ∧
          before.arrivals.Perm (t.world.log queue).applied) ∨
        ∃ error remaining refused dropped, result = .error error ∧
          mark = .withdrawn queue remaining ∧
          (t.world.log queue).calls.getLast? =
            some (.completeRun run (.failed error.text dropped)) ∧
          before.arrivals.length = (t.world.log queue).applied.length +
            (t.world.log queue).notified.length + dropped ∧
          dropped = remaining.countP (fun entry => !entry.isObserver) + refused.length ∧
          ((refused = [] ∧ ∃ info spliced,
              .settled queue info spliced (.error error) ∈ t.world.log queue) ∨
            ∃ entry info, refused = [entry] ∧ .refused queue info error ∈ t.world.log queue) ∧
          (t.world.log queue).activated = (t.world.log queue).applied ++ refused ∧
          (t.world.log queue).notified = remaining.filter (fun entry => entry.isObserver) ∧
          before.arrivals.Perm ((t.world.log queue).applied ++ refused ++
            ((t.world.log queue).notified ++
              remaining.filter fun entry => !entry.isObserver))) := by
  cases result with
  | ok value =>
    obtain ⟨trunk, before, after, completed⟩ := returns.completed reached later
    have closed := completed.closed
    obtain ⟨activated, applied, -, withdrawn, -⟩ := completed.read
    have order := closed.order
    rw [activated, withdrawn, List.append_nil] at order
    have fates : before.arrivals.Perm (t.world.log queue).applied := by
      rw [applied, order]
      exact closed.arrivals.symm
    refine ⟨before, _, after, trunk.run, closed.split, returns.leftOver reached later closed,
      returns.beforeDistinct reached later closed, .inl ⟨value, rfl, ?_, fates⟩⟩
    rw [fates.length_eq, applied, Trunk.entries, List.length_map]
    rfl
  | error error =>
    obtain ⟨trunk, fall, before, after, fell⟩ := returns.failedAdmitted reached admitted later
    have closed := fell.closed
    obtain ⟨activated, applied, notified, -, calls⟩ := fell.read
    have order := closed.order
    -- what was appended was activated or taken out, and what was activated was applied or refused
    rw [activated, closed.taken, fall.appliedOrRefused, ← List.append_assoc] at order
    have fates : before.arrivals.Perm ((t.world.log queue).applied ++ fall.refused ++
        ((t.world.log queue).notified ++
          fall.remaining.filter fun entry => !entry.isObserver)) := by
      rw [applied, notified]
      refine closed.arrivals.symm.trans (order ▸ ?_)
      exact (List.filter_append_perm _ fall.remaining).symm.append_left _
    refine ⟨before, _, after, trunk.run, closed.split, returns.leftOver reached later closed,
      returns.beforeDistinct reached later closed, .inr ⟨error, fall.remaining, fall.refused,
        fall.dropped, rfl, rfl, ?_, ?_, ?_, fell.refusal, ?_, notified, fates⟩⟩
    · rw [calls, List.getLast?_concat]
    · rw [fates.length_eq, fall.droppedSteps]
      simp only [List.length_append]
      omega
    · rw [fall.droppedSteps, List.length_append, List.countP_eq_length_filter, Nat.add_comm]
    · rw [activated, applied, List.append_assoc, ← fall.appliedOrRefused]

theorem stepsAccountedCounting :
    Reachable spending spent ∧
    ∃ r, Returns spending 0 (.error (.stepFailed "last" (.message "spent"))) spent r ∧
      .started 0 0 3 ∈ spent.world.log 0 ∧
      ∃ (before : Log Nat Nat Unit) (mark : Event Nat Nat Unit) (after : Log Nat Nat Unit)
        (dropped : Nat), r.world.log 0 = before ++ mark :: after ∧
        LeftOver (r.world.agenda 0) after ∧
        before.arrivals.length =
          (r.world.log 0).applied.length + (r.world.log 0).notified.length + dropped := by
  obtain ⟨r, returns⟩ := spentReturns
  obtain ⟨before, mark, after, run, split, left, -, ⟨value, well, -⟩ |
      ⟨error, remaining, refused, dropped, -, -, -, count, -⟩⟩ :=
    stepsAccounted spentReachable returns ⟨0, 3, spentAdmitted⟩ .refl
  · cases well
  · exact ⟨spentReachable, r, returns, spentAdmitted, before, mark, after, dropped, split, left,
      count⟩

end Ensemble

end Sequencer
