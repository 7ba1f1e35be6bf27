import Sequencer.Proofs.Reached
import Sequencer.Proofs.Reading

/-! What made an event. A run is started, a step applied, refused or settled only as the library's
reply to code that has just ended, and the log is then what it was when that code ended. -/
namespace Sequencer
open Standing

variable {queue : QueueId} {name : String}

theorem placeOfPassed {log before new : Log κ ν ε} {event : Event κ ν ε} (ahead : log <+: before)
    (passed : before ++ [event] <+: log ++ new) :
    ∃ left right, new = left ++ event :: right ∧ before = log ++ left := by
  obtain ⟨left, rfl⟩ := ahead
  obtain ⟨right, whole⟩ := passed
  rw [List.append_assoc, List.append_assoc] at whole
  exact ⟨left, right, (List.append_cancel_left whole).symm.trans (by simp), rfl⟩

def Event.answers : Event κ ν ε → Bool
  | .started _ _ _ | .applied _ _ _ _ _ | .settled _ _ _ _ | .refused _ _ _ => true
  | _ => false

namespace Standing

theorem Given.unanswered {a b : Standing κ ν ε} (act : Given queue name a b) :
    ∃ new, b.log = a.log ++ new ∧ ∀ event ∈ new, event.answers = false := by
  cases act with
  | append agenda log point step => exact ⟨_, rfl, by simp [Event.answers]⟩
  | begin agenda log value => exact ⟨_, rfl, by simp [Event.answers]⟩
  | _ => exact ⟨[], (List.append_nil _).symm, by simp⟩

theorem Follow.unanswered {a b : Standing κ ν ε} (act : Follow queue a b) :
    ∃ new, b.log = a.log ++ new ∧ ∀ event ∈ new, event.answers = false := by
  cases act with
  | pass agenda log run delivery entry rest index dropped other =>
    exact ⟨[], (List.append_nil _).symm, by simp⟩
  | _ => exact ⟨_, rfl, by simp [Event.answers]⟩

inductive Answer (queue : QueueId) : (stage : Stage κ ν) → Ending (stage.Answer ε) →
    Agenda κ → Event κ ν ε → Log κ ν ε → Prop where
  | started (agenda value id) : Answer queue (.startingRun queue value) (.returned id) agenda
      (.started queue id agenda.len) []
  | applied (agenda run value entry info step) :
      Answer queue (.startingStep run value entry info) (.returned step) agenda
        (.applied queue step entry info value) []
  | refused (agenda run value entry info failure) :
      Answer queue (.startingStep run value entry info) (.failed failure) agenda
        (.refused queue info (.recorder failure)) [.withdrawn queue agenda.pending]
  | settled (agenda stage ending run step info value)
      (settles : Settles stage ending run step info (.ok value)) :
      Answer queue stage ending agenda (.settled queue info agenda.found.size (.ok value))
        [.asked queue (.completeStep step (.completed agenda.found.size))]
  | failed (agenda stage ending run step info error)
      (settles : Settles stage ending run step info (.error error)) :
      Answer queue stage ending agenda
        (.settled queue info agenda.found.size (.error error)) [.withdrawn queue agenda.pending]

theorem Answer.ofFailed {stage : Stage κ ν} {ending : Ending (stage.Answer ε)} {agenda : Agenda κ}
    {rest : Log κ ν ε} {id : QueueId} {info : StepInfo} {spliced : Nat} {error : RunError}
    (answer : Answer queue stage ending agenda (.settled id info spliced (.error error)) rest) :
    ∃ run step, Settles stage ending run step info (.error error) ∧
      rest = [.withdrawn queue agenda.pending] := by
  cases answer with
  | failed agenda stage ending run step info error settles => exact ⟨run, step, settles, rfl⟩

section Replies

variable {stage : Stage κ ν} {ending : Ending (stage.Answer ε)} {a b : Standing κ ν ε}

theorem Response.answer (act : Response queue stage ending a b) : a.point = .inside stage ∧
    ((∃ event rest, Answer queue stage ending a.agenda event rest ∧ b.log = a.log ++ event :: rest ∧
        ∀ event ∈ rest, event.answers = false) ∨
      ∃ new, b.log = a.log ++ new ∧ ∀ event ∈ new, event.answers = false) := by
  cases act with
  | accept agenda log value id =>
    exact ⟨rfl, .inl ⟨_, _, .started agenda value id, rfl, by simp⟩⟩
  | apply agenda log run value entry info step =>
    exact ⟨rfl, .inl ⟨_, _, .applied agenda run value entry info step, rfl, by simp⟩⟩
  | refuse agenda log run value entry info failure =>
    exact ⟨rfl, .inl ⟨_, _, .refused agenda run value entry info failure, rfl,
      by simp [Event.answers]⟩⟩
  | settle agenda log stage ending run step info value settles =>
    exact ⟨rfl, .inl ⟨_, _, .settled agenda stage ending run step info value settles, rfl,
      by simp [Event.answers]⟩⟩
  | fail agenda log stage ending run step info error settles =>
    exact ⟨rfl, .inl ⟨_, _, .failed agenda stage ending run step info error settles, rfl,
      by simp [Event.answers]⟩⟩
  | reject | call | told => exact ⟨rfl, .inr ⟨[], (List.append_nil _).symm, by simp⟩⟩
  | goOn agenda log run info value ending heard =>
    exact ⟨rfl, .inr ⟨_, rfl, by cases ending <;> simp [Ending.complaint?, Event.answers]⟩⟩
  | giveUp agenda log run info error dropped ending heard =>
    exact ⟨rfl, .inr ⟨_, List.append_assoc _ _ _, by
      cases ending <;> simp [Ending.complaint?, Event.answers]⟩⟩
  | finish agenda log run verdict ending heard =>
    exact ⟨rfl, .inr ⟨_, List.append_assoc _ _ _, by
      cases ending <;> cases verdict <;> simp [Ending.complaint?, Verdict.event, Event.answers]⟩⟩

theorem Response.rejection (act : Response queue stage ending a b) {error : RunError}
    (finished : b.point = .finished (some (.error error)))
    (untold : ∀ dropped, Event.failed queue error dropped ∉ b.log) :
    ∃ value failure, Frame.mk stage ending.code =
        ⟨.startingRun queue value, (Ending.failed failure).code⟩ ∧
      b.agenda = a.agenda ∧ b.log = a.log ∧ error = .recorder failure := by
  cases act with
  | reject agenda log value failure =>
    cases finished
    exact ⟨value, failure, rfl, rfl, rfl, rfl⟩
  | finish agenda log run verdict ending heard =>
    cases verdict with
    | completed value => cases finished
    | failed thrown dropped =>
      cases finished
      exact absurd (by simp [Verdict.event]) (untold dropped)
  | _ => cases finished

end Replies

end Standing

namespace Ensemble

variable {behaviour : Behaviour κ ν ε} {last : Ensemble κ ν ε}

theorem Act.answered {x y : Standing κ ν ε} {before : Log κ ν ε} {event : Event κ ν ε}
    (act : Act behaviour queue name last x y) (answers : event.answers = true)
    (ahead : x.log <+: before) (passed : before ++ [event] <+: y.log) :
    ∃ stage ending rest, Ended behaviour queue last stage ending x ∧ x.point = .inside stage ∧
      x.log = before ∧ Answer queue stage ending x.agenda event rest ∧
      y.log = before ++ event :: rest := by
  cases act with
  | given act =>
    obtain ⟨new, log, silent⟩ := act.unanswered
    obtain ⟨left, right, rfl, -⟩ := placeOfPassed ahead (log ▸ passed)
    simp [silent event (by simp)] at answers
  | follow act =>
    obtain ⟨new, log, silent⟩ := act.unanswered
    obtain ⟨left, right, rfl, -⟩ := placeOfPassed ahead (log ▸ passed)
    simp [silent event (by simp)] at answers
  | reply ended act =>
    obtain ⟨inside, ⟨first, rest, answer, log, silent⟩ | ⟨new, log, silent⟩⟩ := act.answer
    · obtain ⟨left, right, new, rfl⟩ := placeOfPassed ahead (log ▸ passed)
      cases left with
      | nil =>
        cases new
        rw [List.append_nil]
        exact ⟨_, _, rest, ended, inside, rfl, answer, log⟩
      | cons other left =>
        cases new
        simp [silent event (by simp)] at answers
    · obtain ⟨left, right, rfl, -⟩ := placeOfPassed ahead (log ▸ passed)
      simp [silent event (by simp)] at answers

/- An answer in the log was given to code that had ended just then, and the log was then the part
before the answer. -/
theorem Reachable.answered {fact : Standing κ ν ε → Prop} (reached : Reachable behaviour last)
    (kept : Kept queue (last.world.nameOf queue) fact) {before after : Log κ ν ε}
    {event : Event κ ν ε} (answers : event.answers = true)
    (log : last.world.log queue = before ++ event :: after) :
    ∃ (a : Ensemble κ ν ε) (stage : Stage κ ν) (ending : Ending (stage.Answer ε))
      (rest : Log κ ν ε), Reachable behaviour a ∧ Reaches behaviour a last ∧ a.Ends stage ending ∧
      a.world.log queue = before ∧ fact (a.standing queue (.inside stage)) ∧
      Answer queue stage ending (a.world.agenda queue) event rest ∧ rest <+: after := by
  obtain ⟨x, y, act, holds, ahead, passed, within⟩ := reached.recorded kept log
  obtain ⟨stage, ending, rest, ended, inside, same, answer, grown⟩ :=
    act.answered answers ahead passed
  obtain ⟨a, arrived, onTheWay, ends, point, rfl⟩ := ended
  cases inside
  rw [grown, log, List.prefix_append_right_inj, List.cons_prefix_cons] at within
  exact ⟨a, stage, ending, rest, arrived, onTheWay, ends, same, holds, answer, within.2⟩

end Ensemble

end Sequencer
