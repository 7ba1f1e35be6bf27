import Sequencer.Proofs.Course

/-! The scheduler replies to code that has ended by one act of the course of its queue, and goes on
by the acts that follow from it until it calls code again or the run is over. Each function of the
scheduler takes part in this from the point at which it is called. -/
namespace Sequencer
open Standing

@[simp] def Turn.point : Turn κ ν ε → Point κ ν
  | .enter frame => .inside frame.stage
  | .returned result => .finished (some result)
  | .unwound _ | .left => .finished none

def Turn.Within (queue : QueueId) : Turn κ ν ε → Prop
  | .enter frame => frame.stage.queue? = some queue
  | _ => True

structure World.Apart (queue : QueueId) (before after : World κ ν ε) : Prop where
  taken : ∀ id, (after.queue id).taken = (before.queue id).taken
  name : ∀ id, (after.queue id).name = (before.queue id).name
  agenda : ∀ id, id ≠ queue → after.agenda id = before.agenda id
  log : ∀ id, id ≠ queue → after.log id = before.log id

namespace World

variable {queue : QueueId} {world : World κ ν ε}

theorem apartSame : world.Apart queue world :=
  ⟨fun _ => rfl, fun _ => rfl, fun _ _ => rfl, fun _ _ => rfl⟩

theorem Apart.trans {next last : World κ ν ε} (first : world.Apart queue next)
    (second : next.Apart queue last) : world.Apart queue last where
  taken id := (second.taken id).trans (first.taken id)
  name id := (second.name id).trans (first.name id)
  agenda id other := (second.agenda id other).trans (first.agenda id other)
  log id other := (second.log id other).trans (first.log id other)

theorem apartRecord {event : Event κ ν ε} (own : ∀ id, event.queue? = some id → id = queue) :
    world.Apart queue (world.record event) where
  taken _ := rfl
  name _ := rfl
  agenda _ _ := rfl
  log id other := by
    rw [logAfterRecord, if_neg fun same => other (own id same)]

theorem apartSet (agenda : Agenda κ) : world.Apart queue (world.setAgenda queue agenda) where
  taken id := (queueAfterSet world queue id agenda).2
  name id := (queueAfterSet world queue id agenda).1
  agenda id other := by rw [agendaAfterSet, if_neg other]
  log _ _ := rfl

theorem apartOwn {event : Event κ ν ε} (own : event.queue? = some queue) :
    world.Apart queue (world.record event) :=
  apartRecord fun _ same => Option.some.inj (same.symm.trans own)

end World

theorem Agenda.remainingSettled (agenda : Agenda κ) :
    agenda.settle.takeRemaining.1 = agenda.pending := by
  change agenda.settle.settle.pipeline = _
  rw [(settled agenda.settle).1, pending, (settled agenda).1, (settled agenda).2, List.nil_append]

structure Leads (queue : QueueId) (world : World κ ν ε) (point : Point κ ν)
    (result : World κ ν ε × Turn κ ν ε) : Prop where
  apart : world.Apart queue result.1
  within : result.2.Within queue
  path : Follows queue ⟨world.agenda queue, world.log queue, point⟩
    ⟨result.1.agenda queue, result.1.log queue, result.2.point⟩

structure Replies (queue : QueueId) (world : World κ ν ε) (stage : Stage κ ν)
    (ending : Ending (stage.Answer ε)) (result : World κ ν ε × Turn κ ν ε) : Prop where
  apart : world.Apart queue result.1
  within : result.2.Within queue
  acts : ∃ middle,
    Response queue stage ending ⟨world.agenda queue, world.log queue, .inside stage⟩ middle ∧
    Follows queue middle ⟨result.1.agenda queue, result.1.log queue, result.2.point⟩

variable {queue : QueueId} {world : World κ ν ε} {result : World κ ν ε × Turn κ ν ε}

theorem Leads.stop (turn : Turn κ ν ε) (within : turn.Within queue) :
    Leads queue world turn.point (world, turn) :=
  ⟨World.apartSame, within, .refl⟩

theorem Leads.first {w : World κ ν ε} {here there : Point κ ν} (apart : world.Apart queue w)
    (act : Follow queue ⟨world.agenda queue, world.log queue, here⟩
      ⟨w.agenda queue, w.log queue, there⟩)
    (leads : Leads queue w there result) : Leads queue world here result :=
  ⟨apart.trans leads.apart, leads.within, .head act leads.path⟩

theorem Replies.reply {w : World κ ν ε} {stage : Stage κ ν} {ending : Ending (stage.Answer ε)}
    {there : Point κ ν} (apart : world.Apart queue w)
    (act : Response queue stage ending ⟨world.agenda queue, world.log queue, .inside stage⟩
      ⟨w.agenda queue, w.log queue, there⟩)
    (leads : Leads queue w there result) : Replies queue world stage ending result :=
  ⟨apart.trans leads.apart, leads.within, _, act, leads.path⟩

theorem Replies.unseen {next : World κ ν ε} {stage : Stage κ ν} {ending : Ending (stage.Answer ε)}
    (apart : world.Apart queue next) (agenda : next.agenda queue = world.agenda queue)
    (log : next.log queue = world.log queue) (replies : Replies queue next stage ending result) :
    Replies queue world stage ending result :=
  ⟨apart.trans replies.apart, replies.within, by simpa only [agenda, log] using replies.acts⟩

namespace Scheduler

variable (behaviour : Behaviour κ ν ε) (world : World κ ν ε) (run : Run)

theorem proceedLeads (value : ν) :
    Leads run.queue world (.proceeding run value) (proceed behaviour world run value) := by
  unfold proceed
  cases activation : (world.agenda run.queue).activate run.index with
  | none =>
    refine .first (w := world.record _) (World.apartOwn rfl) ?_ (.stop (.enter _) rfl)
    simpa [Event.queue?, Verdict.status] using
      Follow.drained _ (world.log run.queue) run value activation
  | some taken =>
    obtain ⟨entry, agenda⟩ := taken
    refine .first (w := (((world.setAgenda run.queue agenda).record _).record _))
      (((World.apartSet agenda).trans (World.apartOwn rfl)).trans (World.apartOwn rfl)) ?_
      (.stop (.enter _) rfl)
    simpa [Event.queue?, Verdict.status] using
      Follow.activate _ (world.log run.queue) run value entry agenda activation

theorem deliverLeads (delivery : Delivery) (rest : List (Entry κ)) (index : UInt32)
    (dropped : Nat) :
    Leads run.queue world (.delivering run delivery rest index dropped)
      (deliver behaviour world run delivery rest index dropped) := by
  induction rest generalizing index dropped with
  | nil =>
    obtain ⟨error, culprit⟩ := delivery
    cases culprit with
    | none =>
      refine .first (w := ((world.record _).record _))
        ((World.apartOwn rfl).trans (World.apartOwn rfl)) ?_ (.stop (.enter _) rfl)
      simpa [Event.queue?, Verdict.status] using
        Follow.deliveredStart _ (world.log run.queue) run error index dropped
    | some culprit =>
      obtain ⟨step, info⟩ := culprit
      refine .first (w := ((world.record _).record _))
        ((World.apartOwn rfl).trans (World.apartOwn rfl)) ?_ (.stop (.enter _) rfl)
      simpa [Event.queue?, Verdict.status] using
        Follow.deliveredStep _ (world.log run.queue) run error step info index dropped
  | cons entry rest ih =>
    unfold deliver
    split
    · next observer =>
      refine .first (w := world.record _) (World.apartOwn rfl) ?_ (.stop (.enter _) rfl)
      simpa [Event.queue?, Verdict.status] using
        Follow.notify _ (world.log run.queue) run delivery entry rest index dropped observer
    · next other =>
      exact .first World.apartSame
        (.pass _ _ run delivery entry rest index dropped (Bool.eq_false_iff.mpr other))
        (ih (index + 1) (dropped + 1))

theorem withdrawDelivers (delivery : Delivery) (index : UInt32) :
    withdraw behaviour world run delivery index =
      deliver behaviour
        ((world.setAgenda run.queue (world.agenda run.queue).takeRemaining.2).record
          (.withdrawn run.queue (world.agenda run.queue).takeRemaining.1))
        run delivery (world.agenda run.queue).takeRemaining.1 index 0 := rfl

/- A step that failed is settled and what waits is taken out, before anyone is told. -/
theorem settleDelivers (step : Int) (info : StepInfo) (error : RunError) :
    ∃ next : World κ ν ε, world.Apart run.queue next ∧
      next.agenda run.queue = (world.agenda run.queue).settle.takeRemaining.2 ∧
      next.log run.queue = world.log run.queue ++
        [.settled run.queue info (world.agenda run.queue).found.size (.error error),
          .withdrawn run.queue (world.agenda run.queue).pending] ∧
      Leads run.queue next (.delivering { run with index := run.index + 1 }
          ⟨error, some (step, info)⟩ (world.agenda run.queue).pending (run.index + 1) 0)
        (settle behaviour world run step info (.error error)) := by
  have remaining : (((world.settle run.queue).record (.settled run.queue info
      (world.agenda run.queue).found.size (.error error))).agenda run.queue).takeRemaining.1 =
      (world.agenda run.queue).pending := by
    simp [World.settle, Agenda.remainingSettled]
  dsimp only [settle]
  rw [withdrawDelivers]
  dsimp only
  rw [remaining]
  refine ⟨_, ?_, ?_, ?_, deliverLeads behaviour _ { run with index := run.index + 1 } _ _ _ _⟩
  · exact (((World.apartSet _).trans (World.apartOwn rfl)).trans (World.apartSet _)).trans
      (World.apartOwn rfl)
  · simp [World.settle]
  · simp [Event.queue?, World.settle]

variable {world run}

theorem settleReplies {stage : Stage κ ν} {ending : Ending (stage.Answer ε)} {step : Int}
    {info : StepInfo} {result : Except RunError ν}
    (settles : Settles stage ending run step info result) :
    Replies run.queue world stage ending (settle behaviour world run step info result) := by
  cases result with
  | ok value =>
    refine .reply (w := ((world.settle run.queue).record _).record _)
      (((World.apartSet _).trans (World.apartOwn rfl)).trans (World.apartOwn rfl)) ?_
      (.stop (.enter _) rfl)
    simpa [Event.queue?, World.settle] using
      Response.settle _ (world.log run.queue) stage ending run step info value settles
  | error error =>
    obtain ⟨next, apart, agenda, log, leads⟩ :=
      settleDelivers behaviour world run step info error
    refine .reply apart ?_ leads
    rw [agenda, log]
    exact .fail _ _ stage ending run step info error settles

theorem refuseReplies (value : ν) (entry : Entry κ) (info : StepInfo) (failure : Failure) :
    Replies run.queue world (.startingStep run value entry info) (.failed failure)
      (refuse behaviour world run info (.recorder failure)) := by
  unfold refuse
  rw [withdrawDelivers]
  refine .reply
    ((((World.apartSet _).trans (World.apartOwn rfl)).trans (World.apartSet _)).trans
      (World.apartOwn rfl)) ?_ (deliverLeads behaviour _ run _ _ _ _)
  simpa [Event.queue?, World.settle, Agenda.remainingSettled] using
    Response.refuse _ (world.log run.queue) run value entry info failure

theorem applyReplies (value : ν) (entry : Entry κ) (info : StepInfo) (step : Int) :
    Replies run.queue world (.startingStep run value entry info) (.returned step)
      (apply behaviour world run step value entry info) := by
  have act : Response run.queue _ _ _ _ :=
    .apply (world.agenda run.queue) (world.log run.queue) run value entry info step
  unfold apply
  refine .reply (w := world.record _) (World.apartOwn rfl) ?_ (.stop (.enter _) ?_)
  · simp only [Turn.point, Event.queue?, World.logAfterRecord, if_pos]
    cases kind : entry.kind <;> simpa [Entry.stage, kind] using act
  · simp only [Turn.Within]
    cases entry.kind <;> rfl

theorem stepCompletedReplies (info : StepInfo) (verdict : Verdict ν) (ending : Ending Unit)
    (heard : ending.Heard) (next : World κ ν ε) (apart : world.Apart run.queue next)
    (same : next.agenda run.queue = world.agenda run.queue)
    (log : next.log run.queue =
      world.log run.queue ++ ending.complaint?.toList.map (.stepUnrecorded run.queue info)) :
    Replies run.queue world (.completingStep run info verdict) ending
      (stepCompleted behaviour next run verdict) := by
  cases verdict with
  | completed value =>
    refine .reply apart ?_ (proceedLeads behaviour next run value)
    rw [same, log]
    exact .goOn _ _ run info value ending heard
  | failed error dropped =>
    refine .reply (w := next.record _) (apart.trans (World.apartOwn rfl)) ?_ (.stop (.enter _) rfl)
    simpa [Event.queue?, Verdict.status, same, log] using
      Response.giveUp _ (world.log run.queue) run info error dropped ending heard

theorem runCompletedReplies (verdict : Verdict ν) (ending : Ending Unit) (heard : ending.Heard)
    (next : World κ ν ε) (apart : world.Apart run.queue next)
    (same : next.agenda run.queue = world.agenda run.queue)
    (log : next.log run.queue =
      world.log run.queue ++ ending.complaint?.toList.map (.runUnrecorded run.queue)) :
    Replies run.queue world (.completingRun run verdict) ending
      (runCompleted next run verdict) := by
  have act : Response run.queue _ _ _ _ :=
    .finish (world.agenda run.queue) (world.log run.queue) run verdict ending heard
  refine .reply (w := next.record _) (apart.trans (World.apartRecord ?_)) ?_
    (.stop (.returned _) trivial)
  · cases verdict <;> simp [Event.queue?]
  · cases verdict <;> simpa [Event.queue?, same, log, Verdict.event] using act

theorem concludeReplies {queue : QueueId} (stage : Stage κ ν) (ending : Ending (stage.Answer ε))
    (own : stage.queue? = some queue) :
    Replies queue world stage ending (conclude behaviour world stage ending) ∨
      ∃ payload, conclude behaviour world stage ending = (world, .unwound payload) := by
  cases stage with
  | outside => simp [Stage.queue?] at own
  | startingRun id value =>
    cases Option.some.inj own
    cases ending with
    | returned answer =>
      refine .inl (.reply (w := world.record _) (World.apartOwn rfl) ?_
        (proceedLeads behaviour _ ⟨queue, answer, 0⟩ value))
      simpa [Event.queue?] using Response.accept _ (world.log queue) value answer
    | failed failure =>
      exact .inl (.reply World.apartSame (.reject _ _ value failure) (.stop (.returned _) trivial))
    | panicked payload => exact .inr ⟨payload, rfl⟩
  | startingStep run value entry info =>
    cases Option.some.inj own
    cases ending with
    | returned step => exact .inl (applyReplies behaviour value entry info step)
    | failed failure => exact .inl (refuseReplies behaviour value entry info failure)
    | panicked payload => exact .inr ⟨payload, rfl⟩
  | applying run step info =>
    cases Option.some.inj own
    exact .inl (settleReplies behaviour (.body run step info ending))
  | calling run step info =>
    cases Option.some.inj own
    cases ending with
    | returned program =>
      exact .inl (.reply World.apartSame (.call _ _ run step info program)
        (.stop (.enter ⟨.awaiting run step info, program⟩) rfl))
    | failed failure => exact .inl (settleReplies behaviour (.callFailed run step info failure))
    | panicked payload => exact .inl (settleReplies behaviour (.callPanicked run step info payload))
  | awaiting run step info =>
    cases Option.some.inj own
    exact .inl (settleReplies behaviour (.future run step info ending))
  | observing run step info value =>
    cases Option.some.inj own
    have settles := Settles.observer run step info value ending
    cases ending with
    | returned answer => exact .inl (settleReplies behaviour settles)
    | failed failure => exact .inl (settleReplies behaviour settles)
    | panicked payload =>
      exact .inl (.unseen (World.apartRecord (by simp [Event.queue?])) rfl
        (World.logAfterRecord _ _ _) (settleReplies behaviour settles))
  | delivering run delivery label rest index dropped =>
    cases Option.some.inj own
    have told (world : World κ ν ε) : Replies run.queue world
        (.delivering run delivery label rest index dropped) ending
        (deliver behaviour world run delivery rest index dropped) :=
      .reply World.apartSame (.told _ _ run delivery label rest index dropped ending)
        (deliverLeads behaviour world run delivery rest index dropped)
    cases ending with
    | returned answer => exact .inl (told world)
    | failed failure => exact .inl (told world)
    | panicked payload =>
      exact .inl (.unseen (World.apartRecord (by simp [Event.queue?])) rfl
        (World.logAfterRecord _ _ _) (told _))
  | completingStep run info verdict =>
    cases Option.some.inj own
    cases ending with
    | returned answer =>
      exact .inl (stepCompletedReplies behaviour info verdict (.returned answer) trivial world
        World.apartSame rfl (List.append_nil _).symm)
    | failed failure =>
      exact .inl (stepCompletedReplies behaviour info verdict (.failed failure) trivial
        (world.record _) (World.apartOwn rfl) rfl (World.logAfterOwn world rfl))
    | panicked payload => exact .inr ⟨payload, rfl⟩
  | completingRun run verdict =>
    cases Option.some.inj own
    cases ending with
    | returned answer =>
      exact .inl (runCompletedReplies verdict (.returned answer) trivial world World.apartSame rfl
        (List.append_nil _).symm)
    | failed failure =>
      exact .inl (runCompletedReplies verdict (.failed failure) trivial (world.record _)
        (World.apartOwn rfl) rfl (World.logAfterOwn world rfl))
    | panicked payload => exact .inr ⟨payload, rfl⟩

end Scheduler

end Sequencer
