import Sequencer.Proofs.Order

/-! The moment a run closes: it finds nothing that waits, or a failure takes out what waits. What
was appended before is activated or taken out, in the order of the forest; what is appended later
stays on the queue. -/
namespace Sequencer

structure Closed (queue : QueueId) (agenda : Agenda κ) (log before : Log κ ν ε) (mark : Event κ ν ε)
    (after : Log κ ν ε) : Prop where
  split : log = before ++ mark :: after
  order : log.activated ++ log.withdrawn = (before.discovery queue).forest.preorder
  taken : log.withdrawn = mark.withdrawal
  arrivals : (before.discovery queue).forest.preorder.Perm before.arrivals
  left : agenda.pipeline = after.arrivals
  depth : ∀ entry ∈ agenda.pipeline, entry.depth = 0

namespace Closed

variable {queue : QueueId} {agenda : Agenda κ} {log before after : Log κ ν ε} {mark : Event κ ν ε}

theorem append (closed : Closed queue agenda log before mark after) (idle : agenda.active = none)
    (step : Step κ) (nested : Bool) : Closed queue (agenda.append step)
      (log ++ [.appended queue (agenda.entry step) nested]) before mark
      (after ++ [.appended queue (agenda.entry step) nested]) := by
  have pipeline := (Agenda.appendIdle idle step).1
  have withdrawn : Log.withdrawn (log ++ [.appended queue (agenda.entry step) nested]) =
      log.withdrawn := log.withdrawnQuiet rfl
  refine ⟨by simp [closed.split], ?_, withdrawn.trans closed.taken, closed.arrivals, ?_, ?_⟩
  · rw [← closed.order, withdrawn]
    simp [Log.activated, Event.activation?]
  · rw [pipeline, closed.left]
    simp [Log.arrivals, Event.arrival?]
  · intro entry present
    rw [pipeline, List.mem_append, List.mem_singleton] at present
    rcases present with old | rfl
    · exact closed.depth entry old
    · simp [Agenda.entry, Agenda.depth, idle]

theorem more (closed : Closed queue agenda log before mark after) (events : Log κ ν ε)
    (arrivals : events.arrivals = []) (activated : events.activated = [])
    (withdrawn : events.withdrawn = []) :
    Closed queue agenda (log ++ events) before mark (after ++ events) := by
  have same : Log.withdrawn (log ++ events) = log.withdrawn := log.withdrawnQuiet withdrawn
  refine ⟨by simp [closed.split], ?_, same.trans closed.taken, closed.arrivals, ?_, closed.depth⟩
  · rw [← closed.order, same, Log.activated, log.readQuiet activated]
  · rw [closed.left, Log.arrivals, Log.arrivals, after.readQuiet arrivals]

end Closed

def Closes (queue : QueueId) (agenda : Agenda κ) (log : Log κ ν ε) (marks : Event κ ν ε → Prop) :
    Prop :=
  ∃ before mark after, marks mark ∧ Closed queue agenda log before mark after

def Point.Accounts (queue : QueueId) (agenda : Agenda κ) (log : Log κ ν ε) : Point κ ν → Prop
  | .finished none => True
  | .delivering _ _ _ _ _ | .inside (.delivering _ _ _ _ _ _)
  | .inside (.completingStep _ _ (.failed _ _)) | .inside (.completingRun _ (.failed _ _)) =>
    Closes queue agenda log fun mark => ∃ remaining, mark = .withdrawn queue remaining
  | .inside (.completingRun run (.completed _)) =>
    Closes queue agenda log (· = .asked queue (.completeRun run.id (.completed run.index)))
  | .finished (some (.ok _)) => Closes queue agenda log fun mark =>
    ∃ run applied, mark = .asked queue (.completeRun run (.completed applied))
  | .finished (some (.error _)) => log.Unbroken ∨
    Closes queue agenda log fun mark => ∃ remaining, mark = .withdrawn queue remaining
  | _ => log.Unbroken

namespace Closes

variable {queue : QueueId} {agenda : Agenda κ} {log : Log κ ν ε} {marks : Event κ ν ε → Prop}

theorem append (closes : Closes queue agenda log marks) (idle : agenda.active = none)
    (step : Step κ) (nested : Bool) : Closes queue (agenda.append step)
      (log ++ [.appended queue (agenda.entry step) nested]) marks := by
  obtain ⟨before, mark, after, marked, closed⟩ := closes
  exact ⟨before, mark, _, marked, closed.append idle step nested⟩

theorem more (closes : Closes queue agenda log marks) (events : Log κ ν ε)
    (arrivals : events.arrivals = []) (activated : events.activated = [])
    (withdrawn : events.withdrawn = []) : Closes queue agenda (log ++ events) marks := by
  obtain ⟨before, mark, after, marked, closed⟩ := closes
  exact ⟨before, mark, _, marked, closed.more events arrivals activated withdrawn⟩

end Closes

namespace Standing

variable {queue : QueueId} {name : String}

structure Balanced (queue : QueueId) (a : Standing κ ν ε) : Prop where
  ordered : a.Ordered queue
  accounts : a.point.Accounts queue a.agenda a.log

theorem closesByFailure {agenda : Agenda κ} {log : Log κ ν ε} {point : Point κ ν}
    (ordered : Ordered queue ⟨agenda, log, point⟩) (unbroken : log.Unbroken) (event : Event κ ν ε)
    (same : (Log.discovery queue (log ++ [event])).forest = (log.discovery queue).forest)
    (arrival : event.arrival? = none) (activation : event.activation? = none)
    (withdrawal : event.withdrawal = []) :
    Closes queue agenda.settle.takeRemaining.2 (log ++ [event, .withdrawn queue agenda.pending])
      fun mark => ∃ remaining, mark = .withdrawn queue remaining := by
  have order := ordered.order unbroken
  have out : Log.withdrawn (log ++ [event, .withdrawn queue agenda.pending]) = agenda.pending := by
    have none : log.flatMap Event.withdrawal = [] := unbroken.withdrawn
    have last : (Event.withdrawn queue agenda.pending : Event κ ν ε).withdrawal =
      agenda.pending := rfl
    simp [none, withdrawal, last]
  refine ⟨log ++ [event], _, [], ⟨agenda.pending, rfl⟩, by simp, ?_, out, ?_, rfl,
    by simp [agenda.withdrawn]⟩
  · have last : (Event.withdrawn queue agenda.pending : Event κ ν ε).activation? = .none := rfl
    rw [same, ← order.preorder, out]
    simp [activation, last]
  · rw [same]
    refine order.arrivals.trans ?_
    simp [Log.arrivals, arrival]

theorem closesByEnd {agenda : Agenda κ} {log : Log κ ν ε} {run : Run} {value : ν}
    (ordered : Ordered queue ⟨agenda, log, .proceeding run value⟩) (unbroken : log.Unbroken)
    (ended : agenda.activate run.index = none) :
    Closes queue agenda (log ++ [.asked queue (.completeRun run.id (.completed run.index))])
      (· = .asked queue (.completeRun run.id (.completed run.index))) := by
  have order := ordered.order unbroken
  have pipeline := Agenda.activateNone ended
  have pending : agenda.pending = [] := by
    rw [Agenda.pending, pipeline, ordered.marked.idle ordered.marked.mark, List.nil_append]
  have none : Log.withdrawn (log ++ [.asked queue (.completeRun run.id (.completed run.index))]) =
      [] := by
    have before : log.flatMap Event.withdrawal = [] := unbroken.withdrawn
    simp [before, Event.withdrawal]
  have whole : log.activated = _ := (List.append_nil _).symm.trans (pending ▸ order.preorder)
  refine ⟨log, _, [], rfl, rfl, ?_, none, order.arrivals, pipeline, by simp [pipeline]⟩
  rw [← whole, none]
  simp [Log.activated, Event.activation?]

theorem accountsAppend {agenda : Agenda κ} {log : Log κ ν ε} {point : Point κ ν} (step : Step κ)
    (nested : Bool) (marked : point.Marks agenda.active)
    (accounts : point.Accounts queue agenda log) :
    point.Accounts queue (agenda.append step)
      (log ++ [.appended queue (agenda.entry step) nested]) := by
  have still (unbroken : log.Unbroken) :
      Log.Unbroken (log ++ [.appended queue (agenda.entry step) nested]) :=
    unbroken.more _ (by simp [Log.Unbroken])
  cases point with
  | free => exact still accounts
  | proceeding run value => exact still accounts
  | delivering run delivery rest index dropped => exact accounts.append marked step nested
  | finished result =>
    rcases result with _ | error | value
    · trivial
    · exact accounts.imp still fun closes => closes.append marked step nested
    · exact accounts.append marked step nested
  | inside stage =>
    cases stage with
    | delivering run delivery label rest index dropped => exact accounts.append marked step nested
    | completingStep run info verdict =>
      cases verdict with
      | completed value => exact still accounts
      | failed error dropped => exact accounts.append marked step nested
    | completingRun run verdict =>
      cases verdict with
      | completed value => exact accounts.append marked step nested
      | failed error dropped => exact accounts.append marked step nested
    | _ => exact still accounts

theorem accountsSettles {agenda : Agenda κ} {log : Log κ ν ε} {stage : Stage κ ν}
    {ending : Ending (stage.Answer ε)} {run : Run} {step : Int} {info : StepInfo}
    {result : Except RunError ν} (settles : Settles stage ending run step info result)
    (accounts : (Point.inside stage).Accounts queue agenda log) : log.Unbroken := by
  cases settles <;> exact accounts

variable (queue name) in
theorem keptBalanced : Kept queue name (Balanced (κ := κ) (ν := ν) (ε := ε) queue) where
  start := ⟨(keptOrdered queue name).start, fun _ _ => List.not_mem_nil⟩
  given act holds := by
    refine ⟨(keptOrdered queue name).given act holds.ordered, ?_⟩
    have accounts := holds.accounts
    cases act with
    | append agenda log point step =>
      exact accountsAppend step _ holds.ordered.marked.mark accounts
    | discard agenda log => trivial
    | leave agenda log stage => trivial
    | begin agenda log value => exact Log.Unbroken.more accounts _ (by simp [Log.Unbroken])
  reply act holds := by
    refine ⟨(keptOrdered queue name).reply act holds.ordered, ?_⟩
    have accounts := holds.accounts
    cases act with
    | accept agenda log value id => exact Log.Unbroken.more accounts _ (by simp [Log.Unbroken])
    | reject agenda log value failure => exact .inl accounts
    | apply agenda log run value entry info step =>
      have still := Log.Unbroken.more accounts [.applied queue step entry info value]
        (by simp [Log.Unbroken])
      unfold Entry.stage
      cases entry.kind <;> exact still
    | refuse agenda log run value entry info failure =>
      exact closesByFailure holds.ordered accounts _
        (by simp [Log.discoveryAppend, Discovery.observe]) rfl rfl rfl
    | call agenda log run step info program => exact accounts
    | settle agenda log stage ending run step info value settles =>
      exact (accountsSettles settles accounts).more _ (by simp [Log.Unbroken])
    | fail agenda log stage ending run step info error settles =>
      exact closesByFailure holds.ordered (accountsSettles settles accounts) _
        (by simp [Log.discoveryAppend, Discovery.observe]) rfl rfl rfl
    | told agenda log run delivery label rest index dropped ending => exact accounts
    | goOn agenda log run info value ending heard =>
      exact Log.Unbroken.more accounts _ (by simp [Log.Unbroken])
    | giveUp agenda log run info error dropped ending heard =>
      dsimp only
      rw [List.append_assoc]
      exact Closes.more accounts _ (by cases ending <;> rfl) (by cases ending <;> rfl)
        (by cases ending <;> rfl)
    | finish agenda log run verdict ending heard =>
      dsimp only
      rw [List.append_assoc]
      have more {marks : Event κ ν ε → Prop} (closes : Closes queue agenda log marks) :=
        closes.more (ending.complaint?.toList.map (.runUnrecorded queue) ++
            [verdict.event queue run.index])
          (by cases ending <;> cases verdict <;> rfl) (by cases ending <;> cases verdict <;> rfl)
          (by cases ending <;> cases verdict <;> rfl)
      cases verdict with
      | completed value =>
        obtain ⟨before, mark, after, rfl, closed⟩ := more accounts
        exact ⟨before, _, after, ⟨run.id, run.index, rfl⟩, closed⟩
      | failed error dropped => exact .inr (more accounts)
  follow act holds := by
    refine ⟨(keptOrdered queue name).follow act holds.ordered, ?_⟩
    have accounts := holds.accounts
    cases act with
    | drained agenda log run value ended =>
      exact closesByEnd holds.ordered accounts ended
    | activate agenda log run value entry next taken =>
      exact Log.Unbroken.more accounts _ (by simp [Log.Unbroken])
    | pass agenda log run delivery entry rest index dropped other => exact accounts
    | _ => exact Closes.more accounts _ rfl rfl rfl

end Standing

end Sequencer
