import Sequencer.Proofs.Depths
import Sequencer.Proofs.Outcome

/-! The window of a step: from the call that starts it to the moment its own code is over, across
every suspension and every run in between. Whoever looks at the queue then sees that step as the
active one and adds to its discoveries. At any other time nothing is active: before the run, in the
other callbacks of the recorder, in an observer that is told of a failure and after the run. -/
namespace Sequencer
open Standing

def Stage.window : Stage κ ν → Option (Run × StepInfo)
  | .startingStep run _ _ info | .applying run _ info | .calling run _ info | .awaiting run _ info
  | .observing run _ info _ => some (run, info)
  | .outside | .startingRun _ _ | .delivering _ _ _ _ _ _ | .completingStep _ _ _
  | .completingRun _ _ => none

def StepInfo.mark (info : StepInfo) : Active := ⟨info.index, info.label, info.depth⟩

theorem Stage.markOfWindow (stage : Stage κ ν) :
    stage.mark = stage.window.map fun window => window.2.mark := by
  cases stage <;> rfl

structure Queue.Shows (queue : Queue κ) (info : Option StepInfo) : Prop where
  isActive : queue.status.isActive = info.isSome
  activeStep : queue.status.activeStep = info.map StepInfo.label
  active : queue.snapshot.activeStep = info.map StepInfo.label
  activeIndex : queue.snapshot.activeIndex = info.map StepInfo.index

theorem Queue.shows {queue : Queue κ} {info : Option StepInfo}
    (marked : queue.agenda.active = info.map StepInfo.mark) : queue.Shows info := by
  constructor <;> simp only [status, snapshot, Agenda.status, Agenda.snapshot, Status.isActive,
    Status.activeStep, Snapshot.activeStep, Snapshot.activeIndex, marked] <;> cases info <;> rfl

def World.Lands (world : World κ ν ε) (queue : QueueId) (info : Option StepInfo) (step : Step κ)
    (entry : Entry κ) : Prop :=
  let before := world.agenda queue
  let after := (world.append queue step).agenda queue
  entry.toStep = step ∧ match info with
    | some info => after.buffer = before.buffer ++ [entry] ∧ after.pipeline = before.pipeline ∧
      entry.depth = info.depth + 1 ∧
      ((world.log queue).arrivals.length < UInt32.size → entry.depth.toNat = info.depth.toNat + 1)
    | none => after.pipeline = before.pipeline ++ [entry] ∧ after.buffer = before.buffer ∧
      entry.depth = 0

namespace Standing

variable {queue : QueueId} {name : String}

theorem windowDeeds {deeds : Log κ ν ε} {stage : Stage κ ν} {run : Run} {info : StepInfo}
    (within : stage.window = some (run, info))
    (told : (Point.inside stage).Tells queue name deeds) :
    ∃ (trunk : Trunk κ ν) (entry : Entry κ) (rest : Log κ ν ε), run = trunk.asRun queue ∧
      info = entry.info trunk.index ∧ rest.filterMap Event.activation? = [] ∧
      deeds = trunk.events queue name ++ opening queue trunk.run entry trunk.index ++ rest := by
  cases stage with
  | startingStep run value entry info =>
    cases within
    obtain ⟨trunk, same, named, deeds⟩ := told
    exact ⟨trunk, entry, [], same, named, rfl, by rw [deeds, List.append_nil]⟩
  | observing run step info value =>
    cases within
    obtain ⟨trunk, entry, same, named, deeds⟩ := told
    exact ⟨trunk, entry, _, same, named, rfl, deeds⟩
  | applying run step info | calling run step info | awaiting run step info =>
    cases within
    obtain ⟨trunk, entry, input, same, named, deeds⟩ := told
    exact ⟨trunk, entry, _, same, named, rfl, deeds⟩
  | _ => cases within

theorem windowTold {log : Log κ ν ε} {stage : Stage κ ν} {run : Run} {info : StepInfo}
    (within : stage.window = some (run, info))
    (told : (Point.inside stage).Tells queue name log.deeds) :
    ∃ earlier entry, log.activated = earlier ++ [entry] ∧ info = entry.info run.index ∧
      run.index = UInt32.ofNat earlier.length := by
  obtain ⟨trunk, entry, rest, rfl, named, none, deeds⟩ := windowDeeds within told
  have rounds : (trunk.events queue name : Log κ ν ε).filterMap Event.activation? = trunk.entries :=
    congrArg Reading.activated (trunk.read queue name)
  refine ⟨trunk.entries, entry, ?_, named, ?_⟩
  · rw [Log.activated, ← log.readDeeds _ fun _ _ _ => rfl, deeds, List.filterMap_append,
      List.filterMap_append, rounds, none, List.append_nil]
    rfl
  · rw [Trunk.entries, List.length_map]
    rfl

end Standing

namespace World

variable {world : World κ ν ε} {queue : QueueId} {info : Option StepInfo}

theorem lands (marked : (world.agenda queue).active = info.map StepInfo.mark)
    (graded : (world.agenda queue).arrivals < UInt32.size → (world.agenda queue).Graded)
    (arrived : (world.agenda queue).arrivals = (world.log queue).arrivals.length)
    (step : Step κ) : world.Lands queue info step ((world.agenda queue).entry step) := by
  refine ⟨rfl, ?_⟩
  rw [(world.appendOwn queue step).1]
  cases info with
  | none =>
    obtain ⟨pipeline, buffer⟩ := Agenda.appendIdle marked step
    exact ⟨pipeline, buffer, by simp [Agenda.entry, Agenda.depth, marked]⟩
  | some info =>
    obtain ⟨pipeline, buffer⟩ := Agenda.appendActive marked step
    have deeper : ((world.agenda queue).entry step).depth = info.depth + 1 := by
      simp [Agenda.entry, Agenda.depth, marked, StepInfo.mark]
    refine ⟨buffer, pipeline, deeper, fun few => ?_⟩
    rw [← arrived] at few
    have within : info.depth.toNat < _ := (graded few).active _ marked
    rw [deeper, UInt32.toNat_add, UInt32.toNat_one]
    exact Nat.mod_eq_of_lt (Nat.lt_of_le_of_lt within few)

structure Within (world : World κ ν ε) (queue : QueueId) (info : Option StepInfo) : Prop where
  shown : (world.queue queue).Shows info
  appends : ∀ step, ∃ entry, world.Lands queue info step entry

end World

namespace Ensemble

variable {behaviour : Behaviour κ ν ε} {queue : QueueId} {s : Ensemble κ ν ε}

theorem within {point : Point κ ν} {info : Option StepInfo}
    (holds : (s.standing queue point).Depths) (ticketed : (s.standing queue point).Ticketed)
    (marked : (s.world.agenda queue).active = info.map StepInfo.mark) :
    s.world.Within queue info := by
  have arrived := congrArg List.length ticketed
  rw [List.length_map, List.length_range] at arrived
  exact ⟨Queue.shows marked, fun step => ⟨_, World.lands marked holds.graded arrived.symm step⟩⟩

/-- The mark of a queue is there throughout the window of a step, and at no other time. -/
theorem markSpansWindow (reached : Reachable behaviour s) (queue : QueueId) :
    (∀ stage ∈ s.stages, stage.queue? = some queue →
      s.world.Within queue (stage.window.map Prod.snd) ∧
      ∀ run info, stage.window = some (run, info) →
        ∃ earlier entry, (s.world.log queue).activated = earlier ++ [entry] ∧
          info = entry.info run.index ∧ run.index = UInt32.ofNat earlier.length) ∧
    ((s.world.queue queue).taken = false → s.world.Within queue none) ∧
    ∀ (result : Except RunError ν) (r t : Ensemble κ ν ε),
      Returns behaviour queue result s r → Reaches behaviour r t → t.world.Within queue none := by
  obtain ⟨point, here, ⟨depths, ticketed⟩, told⟩ :=
    reached.holds (((keptDepths queue _).and (keptTicketed queue _)).and (keptTold queue _))
  have mark := depths.marked.mark
  refine ⟨fun stage present own => ?_, fun untaken => ?_, fun result r t returns later => ?_⟩
  · cases atStage here present own
    refine ⟨within depths ticketed ?_, fun run info within => windowTold within told⟩
    rw [Option.map_map]
    exact Eq.trans mark stage.markOfWindow
  · change point.Fits _ _ at here
    rw [untaken] at here
    cases (Point.freeOfUntaken here).1
    exact within depths ticketed mark
  · obtain ⟨depths, ticketed⟩ :=
      returns.holds reached later ((keptDepths queue _).and (keptTicketed queue _))
    exact within depths ticketed depths.marked.mark

theorem markSpansWindowNested :
    Reachable (.countdown (.done 7) .silent) nested ∧
    (∃ stage ∈ nested.stages, stage.queue? = some 0 ∧
      stage.window = some (⟨0, 0, 1⟩, ⟨"value step #1", "value", 1, 1⟩)) ∧
    nested.world.Within 0 (some ⟨"value step #1", "value", 1, 1⟩) ∧
    (nested.world.queue 1).taken = false ∧ nested.world.Within 1 none ∧
    ∃ r, Returns spending 0 (.error (.stepFailed "last" (.message "spent"))) spent r ∧
      r.world.Within 0 none := by
  have reached : Reachable (.countdown (.done 7) .silent) nested := loneReachable _ _ _ _
  have stages : nested.stages =
      [.applying ⟨0, 0, 1⟩ 0 ⟨"value step #1", "value", 1, 1⟩] := rfl
  obtain ⟨r, returns⟩ := spentReturns
  have inside := (markSpansWindow reached 0).1 _ (stages ▸ List.mem_singleton_self _) rfl
  exact ⟨reached, ⟨_, stages ▸ List.mem_singleton_self _, rfl, rfl⟩, inside.1, rfl,
    (markSpansWindow reached 1).2.1 rfl, r, returns,
    (markSpansWindow spentReachable 0).2.2 _ r r returns .refl⟩

end Ensemble

end Sequencer
