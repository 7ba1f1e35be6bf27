import Sequencer.Proofs.Course

/-! The active mark of an agenda and the tickets of its steps. While nothing is active nothing waits
in the buffer; the mark is there just while code of an activated step may run. The tickets of the
appended steps count up from zero, so no step is met twice. -/
namespace Sequencer

def Stage.mark : Stage κ ν → Option Active
  | .startingStep _ _ _ info | .applying _ _ info | .calling _ _ info | .awaiting _ _ info
  | .observing _ _ info _ => some ⟨info.index, info.label, info.depth⟩
  | _ => none

def Point.Marks (active : Option Active) : Point κ ν → Prop
  | .inside stage => active = stage.mark
  | .finished none => True
  | _ => active = none

theorem Entry.markOfStage (entry : Entry κ) (run : Run) (step : Int) (info : StepInfo) (value : ν) :
    (entry.stage run step info value).mark = some ⟨info.index, info.label, info.depth⟩ := by
  unfold Entry.stage
  cases entry.kind <;> rfl

theorem Settles.mark {stage : Stage κ ν} {ending : Ending (stage.Answer ε)} {run : Run} {step : Int}
    {info : StepInfo} {result : Except RunError ν}
    (settles : Settles stage ending run step info result) :
    stage.mark = some ⟨info.index, info.label, info.depth⟩ := by
  cases settles <;> rfl

namespace Agenda

theorem withdrawn (agenda : Agenda κ) :
    agenda.settle.takeRemaining.2.pipeline = [] ∧ agenda.settle.takeRemaining.2.buffer = [] ∧
      agenda.settle.takeRemaining.2.active = none ∧
      agenda.settle.takeRemaining.2.arrivals = agenda.arrivals :=
  ⟨rfl, rfl, rfl, rfl⟩

theorem arrivalsAfterAppend (agenda : Agenda κ) (step : Step κ) :
    (agenda.append step).arrivals = agenda.arrivals + 1 := by
  unfold append
  split <;> rfl

theorem appendTogether {agenda : Agenda κ} {mate : Agenda κ'}
    (busy : mate.active.isSome = agenda.active.isSome) (step : Step κ) (other : Step κ') :
    ((agenda.append step).pipeline = agenda.pipeline ++ [agenda.entry step] ∧
      (agenda.append step).buffer = agenda.buffer ∧
      (mate.append other).pipeline = mate.pipeline ++ [mate.entry other] ∧
      (mate.append other).buffer = mate.buffer) ∨
    ((agenda.append step).pipeline = agenda.pipeline ∧
      (agenda.append step).buffer = agenda.buffer ++ [agenda.entry step] ∧
      (mate.append other).pipeline = mate.pipeline ∧
      (mate.append other).buffer = mate.buffer ++ [mate.entry other]) := by
  cases here : agenda.active with
  | none =>
    rw [here, Option.isSome_none, Option.isSome_eq_false_iff, Option.isNone_iff_eq_none] at busy
    obtain ⟨pipeline, buffer⟩ := appendIdle here step
    exact .inl ⟨pipeline, buffer, appendIdle busy other⟩
  | some mark =>
    rw [here, Option.isSome_some] at busy
    obtain ⟨also, there⟩ := Option.isSome_iff_exists.mp busy
    obtain ⟨pipeline, buffer⟩ := appendActive here step
    exact .inr ⟨pipeline, buffer, appendActive there other⟩

theorem pendingIdle {agenda : Agenda κ} (idle : agenda.active = none) (step : Step κ) :
    (agenda.append step).pending = agenda.pending ++ [agenda.entry step] := by
  simp only [pending, appendIdle idle step, List.append_assoc]

theorem pendingAfterAppend (agenda : Agenda κ) (step : Step κ) :
    (agenda.append step).pending.Perm (agenda.pending ++ [agenda.entry step]) := by
  cases active : agenda.active with
  | none => rw [pendingIdle active step]
  | some mark =>
    simp only [pending, appendActive active step, List.append_assoc]
    exact (List.perm_append_comm).append_left agenda.buffer

theorem pendingAfterSettle (agenda : Agenda κ) : agenda.settle.pending = agenda.pending := by
  rw [pending, agenda.settled.1, agenda.settled.2, List.nil_append]

end Agenda

namespace Standing

structure Marked (a : Standing κ ν ε) : Prop where
  mark : a.point.Marks a.agenda.active
  idle : a.agenda.active = none → a.agenda.buffer = []

variable {queue : QueueId} {name : String}

theorem bufferAfterAppend (agenda : Agenda κ) (step : Step κ)
    (idle : agenda.active = none → agenda.buffer = []) :
    (agenda.append step).active = none → (agenda.append step).buffer = [] := by
  intro same
  rw [agenda.activeAfterAppend] at same
  rw [(Agenda.appendIdle same step).2, idle same]

variable (queue name) in
theorem keptMarked : Kept queue name (@Marked κ ν ε) where
  start := ⟨rfl, fun _ => rfl⟩
  given act holds := by
    cases act with
    | append agenda log point step =>
      refine ⟨?_, bufferAfterAppend agenda step holds.idle⟩
      dsimp only
      rw [agenda.activeAfterAppend]
      exact holds.mark
    | discard agenda log => exact ⟨trivial, holds.idle⟩
    | begin agenda log value => exact ⟨holds.mark, holds.idle⟩
    | leave agenda log stage => exact ⟨trivial, holds.idle⟩
  reply act holds := by
    cases act with
    | apply agenda log run value entry info step =>
      exact ⟨holds.mark.trans (entry.markOfStage run step info value).symm, holds.idle⟩
    | settle agenda log stage ending run step info value settles => exact ⟨rfl, fun _ => rfl⟩
    | fail agenda log stage ending run step info error settles => exact ⟨rfl, fun _ => rfl⟩
    | refuse agenda log run value entry info failure => exact ⟨rfl, fun _ => rfl⟩
    | _ => exact ⟨holds.mark, holds.idle⟩
  follow act holds := by
    cases act with
    | activate agenda log run value entry next taken =>
      have marked := (Agenda.activateSome taken).2.2.1
      refine ⟨marked, fun idle => ?_⟩
      dsimp only at idle
      rw [marked] at idle
      contradiction
    | _ => exact ⟨holds.mark, holds.idle⟩

theorem Response.arrivals {stage : Stage κ ν} {ending : Ending (stage.Answer ε)}
    {a b : Standing κ ν ε} (act : Response queue stage ending a b) :
    b.log.arrivals = a.log.arrivals ∧ b.agenda.arrivals = a.agenda.arrivals := by
  cases act with
  | goOn agenda log run info value ending heard =>
    cases ending <;> simp [Log.arrivals, List.filterMap_cons, Event.arrival?, Ending.complaint?]
  | giveUp agenda log run info error dropped ending heard =>
    cases ending <;> simp [Log.arrivals, List.filterMap_cons, Event.arrival?, Ending.complaint?]
  | finish agenda log run verdict ending heard =>
    cases ending <;> cases verdict <;>
      simp [Log.arrivals, List.filterMap_cons, Event.arrival?, Ending.complaint?, Verdict.event]
  | _ =>
    simp [Log.arrivals, List.filterMap_cons, Event.arrival?, Agenda.settle, Agenda.takeRemaining]

theorem Follow.arrivals {a b : Standing κ ν ε} (act : Follow queue a b) :
    b.log.arrivals = a.log.arrivals ∧ b.agenda.arrivals = a.agenda.arrivals := by
  cases act with
  | activate agenda log run value entry next taken =>
    simp [Log.arrivals, List.filterMap_cons, Event.arrival?, (Agenda.activateSome taken).2.2.2]
  | _ => simp [Log.arrivals, List.filterMap_cons, Event.arrival?]

def Ticketed (a : Standing κ ν ε) : Prop :=
  a.log.arrivals.map Entry.ticket = List.range a.agenda.arrivals

variable (queue name) in
theorem keptTicketed : Kept queue name (@Ticketed κ ν ε) where
  start := rfl
  given act holds := by
    cases act with
    | append agenda log point step =>
      have tickets : log.arrivals.map Entry.ticket = List.range agenda.arrivals := holds
      unfold Ticketed
      rw [agenda.arrivalsAfterAppend, List.range_succ, ← tickets]
      simp [Log.arrivals, Event.arrival?, Agenda.entry]
    | begin agenda log value => simpa [Ticketed, List.filterMap_cons, Event.arrival?] using holds
    | discard agenda log => exact holds
    | leave agenda log stage => exact holds
  reply act holds := by
    unfold Ticketed
    rw [act.arrivals.1, act.arrivals.2]
    exact holds
  follow act holds := by
    unfold Ticketed
    rw [act.arrivals.1, act.arrivals.2]
    exact holds

end Standing

end Sequencer
