import Sequencer.Proofs.Concert

/-! What the library does between two pieces of code, in two executions that go on together. An
observer that is more is passed by the second execution alone: it is applied or told, its recorder
is asked, and the run stands again where it stood. -/
namespace Sequencer

variable {κ κ' ν ε : Type} {concord : Concord κ κ' ε} {old : List (Event κ ν ε)}
  {past : List (Event κ' ν ε)} {bottom : Leeway} {first : Behaviour κ ν ε}
  {second : Behaviour κ' ν ε} {world : World κ ν ε} {other : World κ' ν ε}
  {callers : List (Caller κ ν ε)} {mates : List (Caller κ' ν ε)}

theorem Progress.worldOfJoined (progress : Progress κ ν ε) :
    progress.joined.world = progress.world := by
  cases progress <;> rfl

theorem Agenda.activateFront {agenda : Agenda κ} {entry : Entry κ} {rest : List (Entry κ)}
    (front : agenda.pipeline = entry :: rest) (index : UInt32) :
    ∃ next, agenda.activate index = some (entry, next) ∧ next.pipeline = rest := by
  cases activation : agenda.activate index with
  | none => cases (activateNone activation).symm.trans front
  | some taken =>
    obtain ⟨picked, next⟩ := taken
    obtain ⟨rfl, rfl⟩ := List.cons.inj (front.symm.trans (activateSome activation).1)
    exact ⟨next, rfl, rfl⟩

namespace Scheduler

variable {run also : Run}

theorem completeRunFollows (behaviours : first.UpToLeeway concord second)
    (worlds : World.UpToLeeway concord old past world other)
    (runs : Run.UpToLeeway concord run also)
    {verdict mate : Verdict ν}
    (verdicts : Verdict.UpToLeeway concord (concord.leeway run.queue) verdict mate)
    (stacked : concord.Stack bottom (concord.leeway run.queue) callers mates) :
    Progress.Follows concord old past bottom second
      (Machine.resume callers (completeRun first world run verdict))
      (Machine.resume mates (completeRun second other also mate)) := by
  cases shifts : (concord.leeway run.queue).shifts with
  | false =>
    obtain rfl := runs.exact shifts
    have statuses : RunStatus.UpToLeeway concord (concord.leeway also.queue)
        (verdict.status also.index) (mate.status also.index) := by
      cases verdicts with
      | completed value => exact .completed _
      | failed error also dropped errors => exact .failed _ _ _ errors
    have told := worlds.record
      (.completeRun also.queue also.id also.id _ _ fun _ => ⟨rfl, statuses⟩)
    exact Turn.UpToLeeway.follows (.enter _ _ (.intro _ _ _ _ _
      (.completingRun also verdict mate shifts verdicts)
      ((behaviours.recorder _ shifts).completeRun _ statuses)) rfl) told stacked
  | true =>
    obtain ⟨_, id, index⟩ := also
    obtain rfl := runs.queue
    obtain ⟨rfl, rfl, rfl⟩ := stacked.alone shifts
    obtain ⟨mute, also⟩ := behaviours.mute _ shifts
    exact ⟨_, .refl, .recording _ _ _ _
      (worlds.record (.completeRun _ _ _ _ _ (Leeway.notTight shifts)))
      (.completingRun run _ verdict mate _ _ shifts runs verdicts (mute.completeRun _ _)
        (also.completeRun _ _)) rfl⟩

theorem completeStepFollows (behaviours : first.UpToLeeway concord second)
    (worlds : World.UpToLeeway concord old past world other)
    (runs : Run.UpToLeeway concord run also)
    {step id : Int} (steps : (concord.leeway run.queue).shifts = false → id = step)
    {info news : StepInfo}
    (infos : StepInfo.UpToLeeway concord (concord.leeway run.queue) info news)
    {status twin : StepStatus}
    (statuses : (concord.leeway run.queue).shifts = false →
      StepStatus.UpToLeeway concord (concord.leeway run.queue) status twin)
    {verdict mate : Verdict ν}
    (verdicts : Verdict.UpToLeeway concord (concord.leeway run.queue) verdict mate)
    (rests : ∀ value, verdict = .completed value → (other.agenda run.queue).Rests)
    (stacked : concord.Stack bottom (concord.leeway run.queue) callers mates) :
    Progress.Follows concord old past bottom second
      (Machine.resume callers (completeStep first world run step info status verdict))
      (Machine.resume mates (completeStep second other also id news twin mate)) := by
  cases shifts : (concord.leeway run.queue).shifts with
  | false =>
    obtain rfl := runs.exact shifts
    obtain rfl := steps shifts
    have told := worlds.record
      (.completeStep also.queue id id _ _ fun tight => ⟨rfl, statuses tight⟩)
    exact Turn.UpToLeeway.follows (.enter _ _ (.intro _ _ _ _ _
      (.completingStep also info news verdict mate shifts infos verdicts)
      ((behaviours.recorder _ shifts).completeStep id infos (statuses shifts))) rfl) told stacked
  | true =>
    obtain ⟨_, _, index⟩ := also
    obtain rfl := runs.queue
    obtain ⟨rfl, rfl, rfl⟩ := stacked.alone shifts
    obtain ⟨mute, also⟩ := behaviours.mute _ shifts
    exact ⟨_, .refl, .recording _ _ _ _
      (worlds.record (.completeStep _ _ _ _ _ (Leeway.notTight shifts)))
      (.completingStep run _ info news verdict mate _ _ shifts runs verdicts rests
        (mute.completeStep _ _ _) (also.completeStep _ _ _)) rfl⟩

theorem applyObserver (behaviour : Behaviour κ ν ε) (world : World κ ν ε) (run : Run) (step : Int)
    (value : ν) {entry : Entry κ} (info : StepInfo) (observer : entry.isObserver = true) :
    apply behaviour world run step value entry info =
      (world.record (.applied run.queue step entry info value),
        .enter ⟨.observing run step info value,
          behaviour.watch entry.code run.queue (.ok value)⟩) := by
  have kind : entry.kind = .observer := by simpa [Step.isObserver] using observer
  simp only [apply, kind]

theorem applyWork (behaviour : Behaviour κ ν ε) (world : World κ ν ε) (run : Run) (step : Int)
    (value : ν) {entry : Entry κ} (info : StepInfo) (other : entry.isObserver = false) :
    ∃ frame, apply behaviour world run step value entry info =
        (world.record (.applied run.queue step entry info value), .enter frame) ∧
      frame.joined = ⟨.awaiting run step info, behaviour.work entry.toStep run.queue value⟩ := by
  unfold apply Behaviour.work
  cases kind : entry.kind with
  | observer => simp [Step.isObserver, kind] at other
  | value | async => exact ⟨_, rfl, rfl⟩

theorem applyFollows (behaviours : first.UpToLeeway concord second)
    (worlds : World.UpToLeeway concord old past world other)
    (runs : Run.UpToLeeway concord run also)
    {step id : Int} (steps : (concord.leeway run.queue).shifts = false → id = step) (value : ν)
    {entry : Entry κ} {twin : Entry κ'}
    (entries : Entry.UpToLeeway concord (concord.leeway run.queue) entry twin)
    {info news : StepInfo}
    (infos : StepInfo.UpToLeeway concord (concord.leeway run.queue) info news)
    (stacked : concord.Stack bottom (concord.leeway run.queue) callers mates) :
    Progress.Follows concord old past bottom second
      (Machine.resume callers (apply first world run step value entry info))
      (Machine.resume mates (apply second other also id value twin news)) := by
  have queue := runs.queue
  have observes := concord.observes entries.twins
  have told := worlds.record
    (.applied run.queue step id entry twin info news value steps entries infos)
  cases observer : entry.isObserver with
  | true =>
    rw [applyObserver first world run step value info observer,
      applyObserver second other also id value news (observes.trans observer), queue]
    exact Turn.UpToLeeway.follows (.enter _ _ (.intro _ _ _ _ _
      (.observing run also step id info news value runs steps infos)
      (behaviours.watch entries.twins observer _ _)) rfl) told stacked
  | false =>
    obtain ⟨frame, applied, joined⟩ := applyWork first world run step value info observer
    obtain ⟨mate, likewise, same⟩ :=
      applyWork second other also id value news (observes.trans observer)
    rw [applied, likewise, queue]
    rw [queue] at same
    refine Turn.UpToLeeway.follows (.enter _ _ ?_ ?_) told stacked
    · rw [joined, same]
      exact .intro _ _ _ _ _ (.awaiting run also step id info news runs steps infos)
        (behaviours.work entries.twins observer _ _)
    · rw [joined]
      rfl

theorem observed (behaviour : Behaviour κ ν ε) (world : World κ ν ε) (run : Run) (step : Int)
    (info : StepInfo) (value : ν) (ending : Ending Unit) :
    ∃ outcry : Option (Event κ ν ε), (∀ heard, ∀ event ∈ outcry, event.Aside heard) ∧
      conclude behaviour world (.observing run step info value) ending =
        settle behaviour (world.noting outcry) run step info (.ok value) := by
  cases ending with
  | returned | failed => exact ⟨none, fun _ _ among => (nomatch among), rfl⟩
  | panicked payload =>
    refine ⟨some (.observerPanicked info.label payload), fun heard event among => ?_, rfl⟩
    cases among
    exact .observerPanicked info.label payload

theorem complained (heard : ε → Bool) (queue : QueueId) (info : StepInfo) (ending : Ending Unit) :
    ∀ event ∈ ending.complaint?.map (Event.stepUnrecorded (κ := κ) (ν := ν) queue info),
      event.Aside heard := by
  intro event among
  obtain ⟨failure, -, rfl⟩ := Option.map_eq_some_iff.mp among
  exact .stepUnrecorded queue info failure

theorem proceedActivates (behaviour : Behaviour κ ν ε) {world : World κ ν ε} (run : Run) (value : ν)
    {entry : Entry κ} {agenda : Agenda κ}
    (taken : (world.agenda run.queue).activate run.index = some (entry, agenda)) :
    proceed behaviour world run value =
      (((world.setAgenda run.queue agenda).record
          (.activated run.queue entry (entry.info run.index))).record
            (.asked run.queue (.startStep run.id (entry.info run.index))),
        .enter ⟨.startingStep run value entry (entry.info run.index),
          (behaviour.recorder run.queue).startStep run.id (entry.info run.index)⟩) := by
  simp only [proceed, taken]

theorem runComplained (heard : ε → Bool) (queue : QueueId) (ending : Ending Unit) :
    ∀ event ∈ ending.complaint?.map (Event.runUnrecorded (κ := κ) (ν := ν) queue),
      event.Aside heard := by
  intro event among
  obtain ⟨failure, -, rfl⟩ := Option.map_eq_some_iff.mp among
  exact .runUnrecorded queue failure

theorem extraPassed (run : Run) (mates : List (Caller κ' ν ε))
    (behaviours : first.UpToLeeway concord second)
    (worlds : World.UpToLeeway concord old past world other)
    (shifts : (concord.leeway run.queue).shifts = true)
    (rests : (other.agenda run.queue).Rests) {entry : Entry κ'} {rest : List (Entry κ')}
    (pipeline : (other.agenda run.queue).pipeline = entry :: rest)
    (extra : concord.extra entry.toStep)
    (lines : concord.Lines (concord.leeway run.queue) (world.agenda run.queue).pipeline rest)
    (value : ν) :
    ∃ next index, Progress.Goes second (Machine.resume mates (proceed second other run value))
        (Machine.resume mates (proceed second next { run with index } value)) ∧
      World.UpToLeeway concord old past world next ∧ (next.agenda run.queue).Rests ∧
      (next.agenda run.queue).pipeline = rest := by
  have mute := (behaviours.mute _ shifts).2
  obtain ⟨agenda, activation, rfl⟩ := Agenda.activateFront pipeline run.index
  obtain ⟨front, buffer, -, -⟩ := Agenda.activateSome activation
  have started : World.Trails concord old past world other run.queue agenda
      (((other.setAgenda run.queue agenda).record
        (.activated run.queue entry (entry.info run.index))).record
          (.asked run.queue (.startStep run.id (entry.info run.index)))) :=
    ⟨fun _ => rfl, .extra _ _ _ _ shifts (.startStep _ entry _ extra)
      (.extra _ _ _ _ shifts (.activated entry _ extra) worlds.history)⟩
  obtain ⟨_, admitted, ⟨id, rfl⟩, unmoved, start⟩ :=
    (mute.startStep run.id (entry.info run.index)).concludes second _ mates
      (.startingStep run value entry (entry.info run.index))
  have applied := (started.unmoved unmoved).extra shifts (.applied id entry run.index value extra)
  have observer : entry.isObserver = true := concord.passive extra
  obtain ⟨ending, seen, -, still, watch⟩ :=
    (behaviours.extra extra run.queue (.ok value) shifts).concludes second _ mates
      (.observing run id (entry.info run.index) value)
  obtain ⟨outcry, aside, settling⟩ :=
    observed second seen run id (entry.info run.index) value ending
  have settled := ((applied.unmoved still).noting (aside concord.heard)).settle
  generalize spliced : ((seen.noting outcry).agenda run.queue).found.size = count
  have recorded := (settled.extra shifts (.settled entry run.index count value extra)).extra shifts
    (.completeStep id count)
  obtain ⟨completion, told, well, quiet, finish⟩ :=
    (mute.completeStep (entry.info run.index) id (.completed count)).concludes second _ mates
      (.completingStep { run with index := run.index + 1 } (entry.info run.index)
        (.completed value))
  have later := (recorded.unmoved quiet).noting
    (complained concord.heard run.queue (entry.info run.index) completion)
  have left : agenda.settle.pipeline = agenda.pipeline ∧ agenda.settle.buffer = [] := by
    rw [agenda.settled.1, agenda.settled.2, Agenda.pending, buffer, rests.2]
    exact ⟨rfl, rfl⟩
  have resting := worlds.agenda run.queue
  refine ⟨_, run.index + 1, ?_, later.alike worlds ⟨?_, ?_, ?_, ?_⟩, ?_, ?_⟩
  · rw [stepHeard _ _ _ _ _ well] at finish
    have applying := applyObserver second admitted run id value (entry.info run.index) observer
    rw [proceedActivates second run value activation]
    refine start.trans ?_
    rw [show conclude second admitted _ _ = apply second admitted run id value entry _ from rfl,
      applying]
    refine watch.trans ?_
    rw [settling]
    subst spliced
    exact finish
  · rw [left.1]
    exact lines
  · rw [left.2, ← rests.2]
    exact resting.buffer
  · have active := resting.active
    rw [rests.1] at active
    exact active
  · exact Leeway.notTight shifts
  · rw [later.agenda]
    exact ⟨rfl, left.2⟩
  · rw [later.agenda]
    exact left.1

theorem proceedEnds (behaviour : Behaviour κ ν ε) {world : World κ ν ε} (run : Run) (value : ν)
    (ended : (world.agenda run.queue).pipeline = []) :
    proceed behaviour world run value = completeRun behaviour world run (.completed value) := by
  cases activation : (world.agenda run.queue).activate run.index with
  | none => simp only [proceed, activation]
  | some taken => cases ended.symm.trans (Agenda.activateSome activation).1

theorem proceedFollows (behaviours : first.UpToLeeway concord second)
    (worlds : World.UpToLeeway concord old past world other)
    (runs : Run.UpToLeeway concord run also) (value : ν)
    (rests : (concord.leeway run.queue).shifts = true → (other.agenda run.queue).Rests)
    (stacked : concord.Stack bottom (concord.leeway run.queue) callers mates) :
    Progress.Follows concord old past bottom second
      (Machine.resume callers (proceed first world run value))
      (Machine.resume mates (proceed second other also value)) := by
  have agendas := worlds.agenda run.queue
  have lines := agendas.pipeline
  generalize here : (world.agenda run.queue).pipeline = rest at lines
  generalize there : (other.agenda run.queue).pipeline = others at lines
  obtain ⟨_, id, index⟩ := also
  obtain rfl := runs.queue
  induction lines generalizing other index with
  | nil =>
    rw [proceedEnds first run value here, proceedEnds second ⟨run.queue, id, index⟩ value there]
    exact completeRunFollows behaviours worlds runs (.completed value) stacked
  | twins entry twin rest others entries lines ih =>
    obtain ⟨next, taken, rfl⟩ := Agenda.activateFront here run.index
    obtain ⟨left, picked, rfl⟩ := Agenda.activateFront there index
    have indexes (tight : (concord.leeway run.queue).shifts = false) : index = run.index :=
      congrArg Run.index (runs.exact tight)
    have infos : StepInfo.UpToLeeway concord (concord.leeway run.queue) (entry.info run.index)
        (twin.info index) :=
      .intro entry twin _ _ entries indexes
    have agendas := agendas.activated taken picked entries lines indexes
    have activated := (worlds.setAgenda agendas).record
      (.activated run.queue entry twin _ _ entries infos)
    have asked := activated.record (.startStep run.queue run.id id _ _
      (fun tight => congrArg Run.id (runs.exact tight)) infos)
    rw [proceedActivates first run value taken,
      proceedActivates second ⟨run.queue, id, index⟩ value picked]
    cases shifts : (concord.leeway run.queue).shifts with
    | false =>
      obtain rfl : index = run.index := indexes shifts
      obtain rfl : id = run.id := congrArg Run.id (runs.exact shifts)
      exact Turn.UpToLeeway.follows (.enter _ _ (.intro _ _ _ _ _
        (.startingStep run value entry twin _ _ shifts entries infos)
        ((behaviours.recorder _ shifts).startStep run.id infos)) rfl) asked stacked
    | true =>
      obtain ⟨rfl, rfl, rfl⟩ := stacked.alone shifts
      obtain ⟨mute, also⟩ := behaviours.mute _ shifts
      exact ⟨_, .refl, .recording _ _ _ _ asked
        (.startingStep run _ value entry twin _ _ _ _ shifts runs entries infos
          (mute.startStep _ _) (also.startStep _ _)) rfl⟩
  | extra twin rest others shifts extra lines ih =>
    subst here
    obtain ⟨next, later, path, alike, resting, front⟩ := extraPassed ⟨run.queue, id, index⟩
      mates behaviours worlds shifts (rests shifts) there extra (lines) value
    obtain ⟨last, onward, concert⟩ := ih alike (fun _ => resting) (alike.agenda _) rfl front later
      ⟨rfl, Leeway.notTight shifts⟩
    exact ⟨last, path.trans onward, concert⟩

theorem Delivery.UpToLeeway.errors {leeway : Leeway} {delivery news : Delivery}
    (deliveries : Delivery.UpToLeeway concord leeway delivery news) :
    RunError.UpToLeeway concord leeway delivery.error news.error := by
  cases deliveries with
  | refused failure tight => exact .recorder failure tight
  | failed error mate step other info also exact infos errors => exact errors

theorem deliveredFollows (behaviours : first.UpToLeeway concord second)
    (worlds : World.UpToLeeway concord old past world other)
    (runs : Run.UpToLeeway concord run also)
    {delivery news : Delivery}
    (deliveries : Delivery.UpToLeeway concord (concord.leeway run.queue) delivery news)
    (dropped : Nat)
    (stacked : concord.Stack bottom (concord.leeway run.queue) callers mates) :
    Progress.Follows concord old past bottom second
      (Machine.resume callers (delivered first world run delivery dropped))
      (Machine.resume mates (delivered second other also news dropped)) := by
  have told := worlds.record (.dropped run.queue dropped)
  unfold delivered
  rw [runs.queue]
  cases deliveries with
  | refused failure tight =>
    exact completeRunFollows behaviours told runs (.failed _ _ _ (.recorder failure tight)) stacked
  | failed error mate step id info also exact infos errors =>
    exact completeStepFollows behaviours told runs exact infos
      (fun _ => .failed _ _ errors) (.failed _ _ _ errors)
      (fun _ completed => nomatch completed) stacked

theorem notified (behaviour : Behaviour κ ν ε) (world : World κ ν ε) (run : Run)
    (delivery : Delivery)
    (label : String) (rest : List (Entry κ)) (index : UInt32) (dropped : Nat)
    (ending : Ending Unit) :
    ∃ outcry : Option (Event κ ν ε), (∀ heard, ∀ event ∈ outcry, event.Aside heard) ∧
      conclude behaviour world (.delivering run delivery label rest index dropped) ending =
        deliver behaviour (world.noting outcry) run delivery rest index dropped := by
  cases ending with
  | returned | failed => exact ⟨none, fun _ _ among => (nomatch among), rfl⟩
  | panicked payload =>
    refine ⟨some (.observerPanicked label payload), fun heard event among => ?_, rfl⟩
    cases among
    exact .observerPanicked label payload

theorem deliverFollows (behaviours : first.UpToLeeway concord second)
    (worlds : World.UpToLeeway concord old past world other)
    (runs : Run.UpToLeeway concord run also)
    {delivery news : Delivery}
    (deliveries : Delivery.UpToLeeway concord (concord.leeway run.queue) delivery news)
    {rest : List (Entry κ)} {others : List (Entry κ')}
    (lines : concord.Lines (concord.leeway run.queue) rest others) {index start : UInt32}
    (indexes : (concord.leeway run.queue).shifts = false → start = index) (dropped : Nat)
    (steady : (concord.leeway run.queue).shifts = true → concord.steady = true)
    (stacked : concord.Stack bottom (concord.leeway run.queue) callers mates) :
    Progress.Follows concord old past bottom second
      (Machine.resume callers (deliver first world run delivery rest index dropped))
      (Machine.resume mates (deliver second other also news others start dropped)) := by
  have queue := runs.queue
  have errors := Delivery.UpToLeeway.errors deliveries
  induction lines generalizing other index start dropped with
  | nil => exact deliveredFollows behaviours worlds runs deliveries dropped stacked
  | twins entry twin rest others entries lines ih =>
    have observes := concord.observes entries.twins
    have next (tight : (concord.leeway run.queue).shifts = false) : start + 1 = index + 1 :=
      congrArg (· + 1) (indexes tight)
    unfold deliver
    rw [observes]
    split
    · next observer =>
      have infos : StepInfo.UpToLeeway concord (concord.leeway run.queue) (entry.info index)
          (twin.info start) :=
        .intro entry twin _ _ entries indexes
      rw [queue]
      exact Turn.UpToLeeway.follows (.enter _ _ (.intro _ _ _ _ _
        (.delivering run also delivery news _ _ rest others _ _ dropped runs deliveries lines next
          steady)
        (behaviours.told entries.twins observer _ steady errors)) rfl)
        (worlds.record (.notified run.queue entry twin _ _ _ _ entries infos errors)) stacked
    · exact ih worlds next (dropped + 1)
  | extra twin rest others shifts extra lines ih =>
    have unfolded : deliver second other also news (twin :: others) start dropped =
        (other.record (.notified also.queue twin (twin.label start) news.error),
          .enter ⟨.delivering also news (twin.label start) others (start + 1) dropped,
            second.watch twin.code also.queue (.error news.error)⟩) := by
      rw [deliver, if_pos (concord.passive extra)]
    rw [unfolded, queue]
    have told := worlds.recordExtra shifts (.notified twin (twin.label start) news.error extra)
    obtain ⟨ending, seen, -, unmoved, path⟩ :=
      (behaviours.extra extra run.queue (.error news.error) shifts).concludes second
        (other.record (.notified run.queue twin (twin.label start) news.error)) mates
        (.delivering also news (twin.label start) others (start + 1) dropped)
    obtain ⟨outcry, aside, delivering⟩ := notified second seen also news (twin.label start) others
      (start + 1) dropped ending
    rw [delivering] at path
    have quiet : World.UpToLeeway concord old past world (seen.noting outcry) :=
      (told.unmovedAlso unmoved).notingSecond (aside concord.heard)
    obtain ⟨last, onward, concert⟩ := ih quiet (Leeway.notTight shifts) dropped
    exact ⟨last, path.trans onward, concert⟩

theorem withdrawnSince (behaviour : Behaviour κ ν ε) (world : World κ ν ε) (run : Run)
    (delivery : Delivery) (index : UInt32) :
    ((world.setAgenda run.queue (world.agenda run.queue).takeRemaining.2).record
      (.withdrawn run.queue (world.agenda run.queue).settle.pipeline)).Since
        (withdraw behaviour world run delivery index).1 :=
  (deliverUniform _ run delivery _ index 0).since behaviour

theorem withdrawFollows (behaviours : first.UpToLeeway concord second)
    (worlds : World.UpToLeeway concord old past world other)
    (runs : Run.UpToLeeway concord run also)
    {delivery news : Delivery}
    (deliveries : Delivery.UpToLeeway concord (concord.leeway run.queue) delivery news)
    {index start : UInt32}
    (indexes : (concord.leeway run.queue).shifts = false → start = index)
    (stacked : concord.Stack bottom (concord.leeway run.queue) callers mates) :
    Progress.Follows concord old past bottom second
      (Machine.resume callers (withdraw first world run delivery index))
      (Machine.resume mates (withdraw second other also news start)) := by
  have agendas := worlds.agenda run.queue
  have lines := agendas.settle.pipeline
  have told := (worlds.setAgenda agendas.emptied).record (.withdrawn run.queue _ _ lines)
  obtain ⟨_, id, place⟩ := also
  obtain rfl := runs.queue
  by_cases steady : (concord.leeway run.queue).shifts = true → concord.steady = true
  · exact deliverFollows behaviours told runs deliveries lines indexes 0 steady stacked
  · rw [Classical.not_imp, Bool.not_eq_true] at steady
    refine ⟨_, .refl, .parted _ _ run.queue _ _ _ _ steady.1 steady.2 told.history ?_ ?_⟩
    · rw [Progress.worldOfJoined]
      exact (Machine.resumeSince (withdrawnSince first world run delivery index) callers _).history
    · rw [Progress.worldOfJoined]
      have since := withdrawnSince second other ⟨run.queue, id, place⟩ news start
      exact (Machine.resumeSince since mates _).history

theorem settleFollows (behaviours : first.UpToLeeway concord second)
    (worlds : World.UpToLeeway concord old past world other)
    (runs : Run.UpToLeeway concord run also)
    {step id : Int} (steps : (concord.leeway run.queue).shifts = false → id = step)
    {info news : StepInfo}
    (infos : StepInfo.UpToLeeway concord (concord.leeway run.queue) info news)
    {result answer : Except RunError ν}
    (results : concord.Results (concord.leeway run.queue) result answer)
    (stacked : concord.Stack bottom (concord.leeway run.queue) callers mates) :
    Progress.Follows concord old past bottom second
      (Machine.resume callers (settle first world run step info result))
      (Machine.resume mates (settle second other also id news answer)) := by
  obtain ⟨_, turn, index⟩ := also
  obtain rfl := runs.queue
  have spliced (tight : (concord.leeway run.queue).shifts = false) :
      (other.agenda run.queue).found.size = (world.agenda run.queue).found.size := by
    have lines := (worlds.agenda run.queue).buffer
    have lengths := lines.length tight
    rwa [Agenda.buffer, Agenda.buffer, Lane.lengthOfList, Lane.lengthOfList] at lengths
  have settled := (worlds.settle run.queue).record
    (.settled run.queue info news _ _ result answer spliced infos results)
  have indexes (tight : (concord.leeway run.queue).shifts = false) : index + 1 = run.index + 1 :=
    congrArg (Run.index · + 1) (runs.exact tight)
  have on : Run.UpToLeeway concord { run with index := run.index + 1 }
      ⟨run.queue, turn, index + 1⟩ :=
    ⟨rfl, fun tight => by rw [indexes tight, ← runs.exact tight]⟩
  have rests : ((other.settle run.queue).agenda run.queue).Rests := by
    rw [World.settle, World.agendaAfterSet, if_pos rfl]
    exact ⟨rfl, (other.agenda run.queue).settled.2⟩
  cases results with
  | ok value =>
    exact completeStepFollows behaviours settled on steps infos
      (fun tight => spliced tight ▸ .completed _) (.completed value) (fun _ _ => rests) stacked
  | error error mate errors =>
    exact withdrawFollows behaviours settled on
      (.failed error mate step id info news steps infos errors) indexes stacked

theorem refuseFollows (behaviours : first.UpToLeeway concord second)
    (worlds : World.UpToLeeway concord old past world other)
    (tight : (concord.leeway run.queue).shifts = false) {info news : StepInfo}
    (infos : StepInfo.UpToLeeway concord (concord.leeway run.queue) info news) (failure : Failure)
    (stacked : concord.Stack bottom (concord.leeway run.queue) callers mates) :
    Progress.Follows concord old past bottom second
      (Machine.resume callers (refuse first world run info (.recorder failure)))
      (Machine.resume mates (refuse second other run news (.recorder failure))) :=
  have told := (worlds.settle run.queue).record
    (.refused run.queue info news (.recorder failure) tight infos)
  withdrawFollows behaviours told ⟨rfl, fun _ => rfl⟩ (.refused failure tight) (fun _ => rfl)
    stacked

theorem stepCompletedFollows (behaviours : first.UpToLeeway concord second)
    (worlds : World.UpToLeeway concord old past world other)
    (runs : Run.UpToLeeway concord run also)
    {verdict mate : Verdict ν}
    (verdicts : Verdict.UpToLeeway concord (concord.leeway run.queue) verdict mate)
    (rests : ∀ value, verdict = .completed value → (concord.leeway run.queue).shifts = true →
      (other.agenda run.queue).Rests)
    (stacked : concord.Stack bottom (concord.leeway run.queue) callers mates) :
    Progress.Follows concord old past bottom second
      (Machine.resume callers (stepCompleted first world run verdict))
      (Machine.resume mates (stepCompleted second other also mate)) := by
  cases verdicts with
  | completed value => exact proceedFollows behaviours worlds runs value (rests value rfl) stacked
  | failed error also dropped errors =>
    exact completeRunFollows behaviours worlds runs (.failed error also dropped errors) stacked

theorem runCompletedFollows (worlds : World.UpToLeeway concord old past world other)
    (runs : Run.UpToLeeway concord run also) {verdict mate : Verdict ν}
    (verdicts : Verdict.UpToLeeway concord (concord.leeway run.queue) verdict mate)
    (stacked : concord.Stack bottom (concord.leeway run.queue) callers mates) :
    Progress.Follows concord old past bottom second
      (Machine.resume callers (runCompleted world run verdict))
      (Machine.resume mates (runCompleted other also mate)) := by
  unfold runCompleted
  rw [runs.queue]
  cases verdicts with
  | completed value =>
    exact Turn.UpToLeeway.follows (.returned _ _ (.ok value))
      (worlds.record (.completed run.queue _ _ value fun tight => by rw [runs.exact tight])) stacked
  | failed error mate dropped errors =>
    exact Turn.UpToLeeway.follows (.returned _ _ (.error error mate errors))
      (worlds.record (.failed run.queue error mate dropped errors)) stacked

theorem heeded {early late : Ending Unit} (meet : early.Heeded true late) :
    (early.Heard ∧ late.Heard) ∨
      ∃ payload, early = .panicked payload ∧ late = .panicked payload := by
  cases meet with
  | either _ _ well also => exact .inl ⟨well, also⟩
  | same =>
    cases early with
    | panicked payload => exact .inr ⟨payload, rfl, rfl⟩
    | _ => exact .inl ⟨trivial, trivial⟩

theorem concludeFollows (behaviours : first.UpToLeeway concord second)
    (worlds : World.UpToLeeway concord old past world other) {stage : Stage κ ν} {mate : Stage κ' ν}
    {meets : Ending (stage.Answer ε) → Ending (mate.Answer ε) → Prop}
    (stages : Stage.UpToLeeway concord stage mate meets) {early : Ending (stage.Answer ε)}
    {late : Ending (mate.Answer ε)} (meet : meets early late)
    (stacked : concord.Stack bottom (concord.leewayAt stage) callers mates) :
    Progress.Follows concord old past bottom second
      (Machine.resume callers (conclude first world stage early))
      (Machine.resume mates (conclude second other mate late)) := by
  cases stages with
  | startingRun queue value tight =>
    cases meet
    cases early with
    | returned id =>
      have queued : (other.agenda queue).len = (world.agenda queue).len := by
        have lines := (worlds.agenda queue).pending
        rw [← Agenda.lengthOfPending, ← Agenda.lengthOfPending, lines.length tight]
      have worlds := worlds.record (.started queue id id _ _ fun _ => ⟨rfl, queued⟩)
      exact proceedFollows behaviours worlds ⟨rfl, fun _ => rfl⟩ value
        (fun shifts => nomatch shifts.symm.trans tight) stacked
    | failed failure =>
      exact Turn.UpToLeeway.follows
        (.returned _ _ (.error _ _ (.recorder failure tight))) worlds stacked
    | panicked payload => exact Turn.UpToLeeway.follows (.unwound payload) worlds stacked
  | startingStep run value entry twin info news tight entries infos =>
    cases meet
    cases early with
    | returned step =>
      exact applyFollows behaviours worlds ⟨rfl, fun _ => rfl⟩ (fun _ => rfl) value
        (entries) (infos) stacked
    | failed failure => exact refuseFollows behaviours worlds tight infos failure stacked
    | panicked payload => exact Turn.UpToLeeway.follows (.unwound payload) worlds stacked
  | awaiting run also step id info news runs steps infos =>
    exact settleFollows behaviours worlds runs steps infos
      (Ending.UpToFailing.results infos meet) stacked
  | observing run also step id info news value runs steps infos =>
    obtain ⟨outcry, aside, settling⟩ := observed first world run step info value early
    obtain ⟨clamour, likewise, mating⟩ := observed second other also id news value late
    rw [settling, mating]
    have worlds := worlds.noting (aside concord.heard) (likewise concord.heard)
    exact settleFollows behaviours worlds runs steps infos (.ok value) stacked
  | delivering run also delivery news label name rest others index start dropped runs deliveries
      lines indexes steady =>
    obtain ⟨outcry, aside, delivering⟩ := notified first world run delivery label rest index dropped
      early
    obtain ⟨clamour, likewise, mating⟩ := notified second other also news name others start dropped
      late
    rw [delivering, mating]
    have worlds := worlds.noting (aside concord.heard) (likewise concord.heard)
    exact deliverFollows behaviours worlds runs deliveries lines indexes dropped steady stacked
  | completingStep run info news verdict twin tight infos verdicts =>
    rcases heeded meet with ⟨well, also⟩ | ⟨payload, rfl, rfl⟩
    · rw [stepHeard _ _ _ _ _ well, stepHeard _ _ _ _ _ also]
      exact stepCompletedFollows behaviours
        (worlds.noting (complained _ run.queue info early) (complained _ run.queue news late))
        ⟨rfl, fun _ => rfl⟩ (verdicts)
        (fun _ _ shifts => nomatch shifts.symm.trans tight) stacked
    · exact Turn.UpToLeeway.follows (.unwound payload) worlds stacked
  | completingRun run verdict twin tight verdicts =>
    rcases heeded meet with ⟨well, also⟩ | ⟨payload, rfl, rfl⟩
    · rw [runHeard _ _ _ _ well, runHeard _ _ _ _ also]
      exact runCompletedFollows
        (worlds.noting (runComplained _ run.queue early) (runComplained _ run.queue late))
        ⟨rfl, fun _ => rfl⟩ (verdicts) stacked
    · exact Turn.UpToLeeway.follows (.unwound payload) worlds stacked

end Scheduler

end Sequencer
