import Sequencer.Proofs.Balance
import Sequencer.Proofs.Growth

/-! Where an append goes, and what that makes of a queue. The mark of the queue decides, whoever
appends and whatever goes on at other queues. So the steps that were activated, those that a failure
took out and those that wait are the preorder of the forest of the queue at any moment: after a
failure nothing is active any more, and whatever comes is a new root. -/
namespace Sequencer

def Agenda.Places (agenda : Agenda κ) (entry : Entry κ) (after : Agenda κ) : Prop :=
  match agenda.active with
  | some active => after.buffer = agenda.buffer ++ [entry] ∧ after.pipeline = agenda.pipeline ∧
    entry.depth = active.depth + 1
  | none => after.pipeline = agenda.pipeline ++ [entry] ∧ after.buffer = agenda.buffer ∧
    entry.depth = 0

theorem Agenda.places (agenda : Agenda κ) (step : Step κ) :
    agenda.Places (agenda.entry step) (agenda.append step) := by
  unfold Places
  split
  · next active busy =>
    obtain ⟨pipeline, buffer⟩ := Agenda.appendActive busy step
    exact ⟨buffer, pipeline, by simp [entry, depth, busy]⟩
  · next idle =>
    obtain ⟨pipeline, buffer⟩ := Agenda.appendIdle idle step
    exact ⟨pipeline, buffer, by simp [entry, depth, idle]⟩

def Point.Spent : Point κ ν → Prop
  | .delivering _ _ _ _ _ | .finished _ | .inside (.delivering _ _ _ _ _ _)
  | .inside (.completingStep _ _ (.failed _ _)) | .inside (.completingRun _ (.failed _ _)) => True
  | _ => False

theorem Settles.unspent {stage : Stage κ ν} {ending : Ending (stage.Answer ε)} {run : Run}
    {step : Int} {info : StepInfo} {result : Except RunError ν}
    (settles : Settles stage ending run step info result) : ¬ (Point.inside stage).Spent := by
  cases settles <;> exact id

namespace Standing

variable {queue : QueueId} {name : String} {agenda : Agenda κ} {log : Log κ ν ε}
  {point next : Point κ ν}

structure Fallen (queue : QueueId) (a : Standing κ ν ε) : Prop where
  spent : a.point.Spent
  idle : a.agenda.active = none
  rootless : (a.log.discovery queue).active = none
  whole : a.log.activated ++ a.log.withdrawn ++ a.agenda.pending =
    (a.log.discovery queue).forest.preorder

def Sound (queue : QueueId) (a : Standing κ ν ε) : Prop := a.log.Unbroken ∨ a.Fallen queue

structure Whole (queue : QueueId) (a : Standing κ ν ε) : Prop where
  ordered : a.Ordered queue
  sound : a.Sound queue

theorem Whole.preorder {a : Standing κ ν ε} (whole : a.Whole queue) :
    a.log.activated ++ a.log.withdrawn ++ a.agenda.pending =
      (a.log.discovery queue).forest.preorder := by
  rcases whole.sound with unbroken | fallen
  · rw [unbroken.withdrawn, List.append_nil]
    exact (whole.ordered.order unbroken).preorder
  · exact fallen.whole

theorem Sound.unbroken (sound : Sound queue ⟨agenda, log, point⟩) (going : ¬ point.Spent) :
    log.Unbroken :=
  sound.resolve_right fun fallen => going fallen.spent

theorem Sound.unseen (sound : Sound queue ⟨agenda, log, point⟩) (events : Log κ ν ε)
    (idle : ∀ event ∈ events, event.places = false) (none : events.Unbroken)
    (further : point.Spent → next.Spent) : Sound queue ⟨agenda, log ++ events, next⟩ := by
  rcases sound with unbroken | fallen
  · exact .inl (unbroken.more events none)
  · obtain ⟨same, activated, -⟩ := Log.readUnseen queue log events idle
    have withdrawn : Log.withdrawn (log ++ events) = log.withdrawn := by
      rw [Log.withdrawn, List.flatMap_append]
      exact (congrArg _ none.withdrawn).trans (List.append_nil _)
    refine .inr ⟨further fallen.spent, fallen.idle, ?_, ?_⟩
    · rw [same]
      exact fallen.rootless
    · rw [same, activated, withdrawn]
      exact fallen.whole

theorem Sound.append (sound : Sound queue ⟨agenda, log, point⟩) (step : Step κ) (nested : Bool) :
    Sound queue
      ⟨agenda.append step, log ++ [.appended queue (agenda.entry step) nested], point⟩ := by
  rcases sound with unbroken | fallen
  · exact .inl (unbroken.more _ (by simp [Log.Unbroken]))
  · have found := Log.discoveryOfRoot fallen.rootless (agenda.entry step) nested
    refine .inr ⟨fallen.spent, (agenda.activeAfterAppend step).trans fallen.idle, ?_, ?_⟩
    · rw [found]
    · have waiting := Agenda.pendingIdle fallen.idle step
      have before := fallen.whole
      rw [found, Forest.preorderAppend, Forest.preorderOfSingle, ← before, waiting]
      simp [Log.activated, Log.withdrawn, Event.activation?, Event.withdrawal]

theorem fallenByFailure (ordered : Ordered queue ⟨agenda, log, point⟩) (unbroken : log.Unbroken)
    (event : Event κ ν ε)
    (seen : Log.discovery queue (log ++ [event]) = ⟨(log.discovery queue).forest, none⟩)
    (activation : event.activation? = none) (withdrawal : event.withdrawal = [])
    (spent : next.Spent) : Sound queue ⟨agenda.settle.takeRemaining.2,
      log ++ [event, .withdrawn queue agenda.pending], next⟩ := by
  have order := ordered.order unbroken
  have last : Log.discovery queue (log ++ [event, .withdrawn queue agenda.pending]) =
      ⟨(log.discovery queue).forest, none⟩ := by
    rw [List.append_cons, Log.discoveryAppend, seen]
    rfl
  have out : Log.withdrawn (log ++ [event, .withdrawn queue agenda.pending]) = agenda.pending := by
    have before : log.flatMap Event.withdrawal = [] := unbroken.withdrawn
    have taken : (Event.withdrawn queue agenda.pending : Event κ ν ε).withdrawal =
      agenda.pending := rfl
    simp [before, withdrawal, taken]
  refine .inr ⟨spent, rfl, by rw [last], ?_⟩
  have left : agenda.settle.takeRemaining.2.pending = [] := by
    simp [Agenda.pending, agenda.withdrawn]
  have none : (Event.withdrawn queue agenda.pending : Event κ ν ε).activation? = .none := rfl
  rw [last, out, left, ← order.preorder, List.append_nil]
  simp [Log.activated, activation, none]

variable (queue name) in
theorem keptWhole : Kept queue name (Whole (κ := κ) (ν := ν) (ε := ε) queue) where
  start := ⟨(keptOrdered queue name).start, .inl fun _ _ => List.not_mem_nil⟩
  given act holds := by
    refine ⟨(keptOrdered queue name).given act holds.ordered, ?_⟩
    have sound := holds.sound
    cases act with
    | append agenda log point step => exact sound.append step _
    | discard agenda log => exact .inl (sound.unbroken id)
    | leave agenda log stage => exact sound.imp id fun fallen => { fallen with spent := trivial }
    | begin agenda log value =>
      exact sound.unseen _ (by simp [Event.places]) (by simp [Log.Unbroken]) False.elim
  reply act holds := by
    refine ⟨(keptOrdered queue name).reply act holds.ordered, ?_⟩
    have sound := holds.sound
    cases act with
    | accept agenda log value id =>
      exact sound.unseen _ (by simp [Event.places]) (by simp [Log.Unbroken]) False.elim
    | reject agenda log value failure => exact .inl (sound.unbroken id)
    | apply agenda log run value entry info step =>
      exact sound.unseen _ (by simp [Event.places]) (by simp [Log.Unbroken]) False.elim
    | refuse agenda log run value entry info failure =>
      exact fallenByFailure holds.ordered (sound.unbroken id) _
        (by simp [Log.discoveryAppend, Discovery.observe]) rfl rfl trivial
    | call agenda log run step info program => exact .inl (sound.unbroken id)
    | settle agenda log stage ending run step info value settles =>
      have unbroken : log.Unbroken := sound.unbroken settles.unspent
      exact .inl (unbroken.more _ (by simp [Log.Unbroken]))
    | fail agenda log stage ending run step info error settles =>
      have unbroken : log.Unbroken := sound.unbroken settles.unspent
      exact fallenByFailure holds.ordered unbroken _
        (by simp [Log.discoveryAppend, Discovery.observe]) rfl rfl trivial
    | told agenda log run delivery label rest index dropped ending =>
      exact sound.imp id fun fallen => { fallen with spent := trivial }
    | goOn agenda log run info value ending heard =>
      exact sound.unseen _ (by cases ending <;> simp [Ending.complaint?, Event.places])
        (by simp [Log.Unbroken]) False.elim
    | giveUp agenda log run info error dropped ending heard =>
      rw [Sound, List.append_assoc]
      exact sound.unseen _ (by cases ending <;> simp [Ending.complaint?, Event.places])
        (by simp [Log.Unbroken]) fun _ => trivial
    | finish agenda log run verdict ending heard =>
      rw [Sound, List.append_assoc]
      exact sound.unseen _
        (by cases ending <;> cases verdict <;>
          simp [Ending.complaint?, Verdict.event, Event.places])
        (by cases verdict <;> simp [Log.Unbroken, Verdict.event]) fun _ => trivial
  follow act holds := by
    refine ⟨(keptOrdered queue name).follow act holds.ordered, ?_⟩
    have sound := holds.sound
    cases act with
    | drained agenda log run value ended =>
      exact sound.unseen _ (by simp [Event.places]) (by simp [Log.Unbroken]) False.elim
    | activate agenda log run value entry next taken =>
      exact .inl ((sound.unbroken id).more _ (by simp [Log.Unbroken]))
    | pass agenda log run delivery entry rest index dropped other =>
      exact sound.imp id fun fallen => { fallen with spent := trivial }
    | _ =>
      exact sound.unseen _ (by simp [Event.places]) (by simp [Log.Unbroken]) fun _ => trivial

end Standing

end Sequencer
