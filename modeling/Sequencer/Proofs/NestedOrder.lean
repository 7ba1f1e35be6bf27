import Sequencer.Proofs.Outcome

/-! Steps run in the order of their discovery. Whatever the code of the steps, of the recorder and
of anyone else does, and whenever it does so: up to a failure, the activated steps and then those
that wait are the preorder of the forest that the history shows. -/
namespace Sequencer
open Standing

theorem World.unbrokenLog {world : World κ ν ε} {queue : QueueId}
    (unbroken : ∀ remaining, Event.withdrawn queue remaining ∉ world.history) :
    (world.log queue).Unbroken := by
  intro id remaining present
  simp only [World.log, List.mem_filter, List.mem_reverse, decide_eq_true_eq] at present
  cases Option.some.inj present.2
  exact unbroken remaining present.1

def Event.withdraws : Event κ ν ε → Bool
  | .withdrawn _ _ => true
  | _ => false

theorem World.unbrokenCheck {world : World κ ν ε}
    (check : world.history.any Event.withdraws = false)
    (queue : QueueId) (remaining : List (Entry κ)) :
    Event.withdrawn queue remaining ∉ world.history := by
  intro present
  rw [List.any_eq_false] at check
  exact check _ present rfl

namespace Ensemble

variable {behaviour : Behaviour κ ν ε} {s : Ensemble κ ν ε}

/-- Nested first: discoveries run right behind the step that found them, in any run. -/
theorem nestedFirst (reached : Reachable behaviour s) (queue : QueueId) :
    ((∀ remaining, Event.withdrawn queue remaining ∉ s.world.history) →
      activations queue s.world.history ++ (s.world.agenda queue).pending =
        Forest.preorder (Discovery.ofHistory queue s.world.history).forest) ∧
    ∀ (value : ν) (r t : Ensemble κ ν ε),
      Returns behaviour queue (.ok value) s r → Reaches behaviour r t →
      ∃ before run applied after,
        t.world.log queue =
          before ++ .asked queue (.completeRun run (.completed applied)) :: after ∧
        (t.world.log queue).applied = Forest.preorder (Log.discovery queue before).forest ∧
        (t.world.log queue).applied.Perm (Log.arrivals before) ∧
        ((t.world.log queue).applied.map Entry.ticket).Nodup := by
  refine ⟨fun unbroken => ?_, fun value r t returns later => ?_⟩
  · obtain ⟨point, -, holds⟩ := reached.holds (keptOrdered queue _)
    rw [World.activationsOfHistory, World.discoveryOfHistory]
    exact (holds.order (World.unbrokenLog unbroken)).preorder
  · obtain ⟨trunk, before, after, completed⟩ := returns.completed reached later
    have closed := completed.closed
    have order : (t.world.log queue).applied = (before.discovery queue).forest.preorder := by
      obtain ⟨activated, applied, -⟩ := completed.read
      rw [applied, ← closed.order, closed.taken, activated]
      exact (List.append_nil _).symm
    refine ⟨before, trunk.run, trunk.index, after, closed.split, order, ?_, ?_⟩
    · rw [order]
      exact closed.arrivals
    · rw [order, ((closed.arrivals.map Entry.ticket).nodup_iff)]
      have distinct := ((reached.next returns.next).later later).ticketsDistinct queue
      rw [closed.split, Log.arrivals, List.filterMap_append, List.map_append] at distinct
      exact distinct.of_append_left

def finding : Behaviour Nat Nat Unit := .countdown (.done 7) .silent

def found : Ensemble Nat Nat Unit :=
  lone finding "counting" [{ kind := .value, code := 1 }, { kind := .observer, code := 0 }] 11

theorem nestedFirstCounting :
    Reachable finding found ∧
    activations 0 found.world.history ++ (found.world.agenda 0).pending =
      Forest.preorder (Discovery.ofHistory 0 found.world.history).forest ∧
    ∃ r, Returns finding 0 (.ok 7) found r ∧ ∃ before run applied after,
      r.world.log 0 = before ++ .asked 0 (.completeRun run (.completed applied)) :: after ∧
      (r.world.log 0).applied = Forest.preorder (Log.discovery 0 before).forest ∧
      (r.world.log 0).applied.Perm (Log.arrivals before) ∧
      ((r.world.log 0).applied.map Entry.ticket).Nodup := by
  have reached : Reachable finding found := loneReachable finding _ _ _
  have returns := Returns.alone (a := found) finding
    (.completingRun ⟨0, 0, 3⟩ (.completed 7)) (.returned ()) rfl rfl rfl
  obtain ⟨order, ending⟩ := nestedFirst reached 0
  exact ⟨reached, order (World.unbrokenCheck rfl 0), _, returns, ending 7 _ _ returns .refl⟩

end Ensemble

end Sequencer
