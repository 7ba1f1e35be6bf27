import Sequencer.Proofs.Interleaving
import Sequencer.Proofs.Summons

/-! What is left of code. Each request that is answered leaves the rest of the code, and a step of
the machine does one of three things: code that is at its end is replied to, a run begins above the
code that has asked for it, or the code goes on with what an answer has left of it. -/
namespace Sequencer

namespace Program

def ended : Program κ ν ε β → Bool
  | .done _ | .fail _ | .panic _ => true
  | _ => false

/- What the code goes on with once its first request is answered. A run that panics takes the code
that has called it with it. -/
inductive Onward : Program κ ν ε β → Program κ ν ε β → Prop where
  | append (queue step next) : Onward (.append queue step next) next
  | ask (queue next status) : Onward (.ask queue next) (next status)
  | look (queue next snapshot) : Onward (.look queue next) (next snapshot)
  | note (remark next) : Onward (.note remark next) next
  | suspend (next) : Onward (.suspend next) next
  | discard (queue next taken) : Onward (.discard queue next) (next taken)
  | run (queue initial next result) : Onward (.run queue initial next) (next result)
  | unwound (queue initial next payload) : Onward (.run queue initial next) (.panic payload)

abbrev Comes : Program κ ν ε β → Program κ ν ε β → Prop :=
  Relation.ReflTransGen Onward

theorem Onward.ofEnding {ending : Ending β} {rest : Program κ ν ε β}
    (onward : ending.code.Onward rest) : False := by
  cases ending <;> cases onward

theorem comesOfEnding (ending : Ending β) {rest : Program κ ν ε β}
    (comes : ending.code.Comes rest) : rest = ending.code := by
  cases comes.cases_head with
  | inl same => exact same.symm
  | inr more =>
    obtain ⟨next, onward, -⟩ := more
    exact onward.ofEnding.elim

theorem Onward.ofBind {program : Program κ ν ε β} {f : β → Program κ ν ε γ}
    {rest : Program κ ν ε γ} (onward : (program.bind f).Onward rest) :
    (∃ left, program.Onward left ∧ rest = left.bind f) ∨
      ∃ answer, program = .done answer ∧ (f answer).Onward rest := by
  cases program with
  | done answer => exact .inr ⟨answer, rfl, onward⟩
  | fail failure => cases onward
  | panic payload => cases onward
  | append queue step next => cases onward; exact .inl ⟨_, .append queue step next, rfl⟩
  | ask queue next => cases onward with
    | ask _ _ status => exact .inl ⟨_, .ask queue next status, rfl⟩
  | look queue next => cases onward with
    | look _ _ snapshot => exact .inl ⟨_, .look queue next snapshot, rfl⟩
  | note remark next => cases onward; exact .inl ⟨_, .note remark next, rfl⟩
  | suspend next => cases onward; exact .inl ⟨_, .suspend next, rfl⟩
  | discard queue next => cases onward with
    | discard _ _ taken => exact .inl ⟨_, .discard queue next taken, rfl⟩
  | run queue initial next => cases onward with
    | run _ _ _ result => exact .inl ⟨_, .run queue initial next result, rfl⟩
    | unwound _ _ _ payload => exact .inl ⟨_, .unwound queue initial next payload, rfl⟩

theorem comesThrough {program : Program κ ν ε β} {f : β → Program κ ν ε γ} {answer : γ}
    (comes : (program.bind f).Comes (.done answer)) :
    ∃ first, program.Comes (.done first) ∧ (f first).Comes (.done answer) := by
  generalize whole : program.bind f = start at comes
  induction comes using Relation.ReflTransGen.head_induction_on generalizing program with
  | refl =>
    cases program with
    | done first => exact ⟨first, .refl, whole ▸ .refl⟩
    | _ => cases whole
  | head onward later ih =>
    rcases (whole ▸ onward).ofBind with ⟨left, step, rfl⟩ | ⟨first, rfl, step⟩
    · obtain ⟨first, comes, rest⟩ := ih rfl
      exact ⟨first, .head step comes, rest⟩
    · exact ⟨first, .refl, .head step later⟩

end Program

inductive Frame.Comes : Frame κ ν ε → Frame κ ν ε → Prop where
  | intro (stage begun code) (comes : Program.Comes begun code) : Comes ⟨stage, begun⟩ ⟨stage, code⟩

/- Something holds of all the code of a task. A caller stands at the call it waits for. -/
structure Task.Each (holds : Frame κ ν ε → Prop) (task : Task κ ν ε) : Prop where
  frame : holds task.frame
  callers : ∀ caller ∈ task.callers,
    ∃ queue initial, holds ⟨caller.stage, .run queue initial caller.resume⟩

def Turn.entered? : Turn κ ν ε → Option (Frame κ ν ε)
  | .enter frame => some frame
  | _ => none

namespace Machine

def underWay (machine : Machine κ ν ε) : Nat :=
  machine.callers.length + if machine.frame.code.ended then 0 else 1

/-- The code that the next step enters, if any: one more piece of code is under way after it. -/
def entered? (behaviour : Behaviour κ ν ε) (machine : Machine κ ν ε) : Option (Frame κ ν ε) :=
  match machine.advance behaviour with
  | .running next => if machine.underWay < next.callers.length + 1 then some next.frame else none
  | .suspended _ | .ended _ _ => none

inductive Steps (behaviour : Behaviour κ ν ε) :
    Machine κ ν ε → Option (Frame κ ν ε) → Progress κ ν ε → Prop where
  | replied (world stage) (ending : Ending (Stage.Answer ε stage)) (callers) :
      Steps behaviour ⟨world, ⟨stage, ending.code⟩, callers⟩
        (Scheduler.conclude behaviour world stage ending).2.entered?
        (resume callers (Scheduler.conclude behaviour world stage ending))
  | begun (world stage queue initial next callers) (untaken : (world.queue queue).taken = false) :
      Steps behaviour ⟨world, ⟨stage, .run queue initial next⟩, callers⟩
        (some (start behaviour (world.take queue) (⟨stage, next⟩ :: callers) queue initial).frame)
        (.running (start behaviour (world.take queue) (⟨stage, next⟩ :: callers) queue initial))
  | goneOn (world stage code next callers progress) (onward : Program.Onward code next)
      (quiet : world.Quiet progress.world) (tasks : progress.tasks = [⟨⟨stage, next⟩, callers⟩]) :
      Steps behaviour ⟨world, ⟨stage, code⟩, callers⟩ none progress

variable (behaviour : Behaviour κ ν ε)

theorem enteredReply (world : World κ ν ε) (stage : Stage κ ν) (ending : Ending (stage.Answer ε))
    (callers : List (Caller κ ν ε)) :
    (Machine.mk world ⟨stage, ending.code⟩ callers).entered? behaviour =
      (Scheduler.conclude behaviour world stage ending).2.entered? := by
  have ended : (ending.code : Program κ ν ε _).ended = true := by cases ending <;> rfl
  rw [entered?, advanceEnding]
  cases Scheduler.conclude behaviour world stage ending with
  | mk left turn =>
    cases turn with
    | enter frame => simp [resume, underWay, ended, Turn.entered?]
    | left => rfl
    | returned result | unwound payload =>
      cases callers with
      | nil => rfl
      | cons caller rest => simp [resume, underWay, ended, Turn.entered?]

theorem steps (machine : Machine κ ν ε) :
    Steps behaviour machine (machine.entered? behaviour) (machine.advance behaviour) := by
  obtain ⟨world, ⟨stage, code⟩, callers⟩ := machine
  have replied (ending : Ending (stage.Answer ε)) :
      let machine : Machine κ ν ε := ⟨world, ⟨stage, ending.code⟩, callers⟩
      Steps behaviour machine (machine.entered? behaviour) (machine.advance behaviour) := by
    intro machine
    rw [enteredReply, advanceEnding]
    exact .replied world stage ending callers
  have goneOn {code next : Program κ ν ε (stage.Answer ε)} {left : World κ ν ε}
      (onward : code.Onward next) (quiet : world.Quiet left)
      (going : (Machine.mk world ⟨stage, code⟩ callers).advance behaviour =
        .running ⟨left, ⟨stage, next⟩, callers⟩) :
      let machine : Machine κ ν ε := ⟨world, ⟨stage, code⟩, callers⟩
      Steps behaviour machine (machine.entered? behaviour) (machine.advance behaviour) := by
    intro machine
    have unended : code.ended = false := by cases onward <;> rfl
    have none : machine.entered? behaviour = none := by
      rw [entered?, going]
      simp [machine, underWay, unended]
    rw [none, going]
    exact .goneOn world stage code next callers _ onward quiet rfl
  cases code with
  | done answer => exact replied (.returned answer)
  | fail failure => exact replied (.failed failure)
  | panic payload => exact replied (.panicked payload)
  | append queue step next =>
    exact goneOn (.append queue step next)
      ((World.quietSet queue _).trans (World.quietRecord _ rfl)) rfl
  | ask queue next => exact goneOn (.ask queue next _) World.quietSame rfl
  | look queue next => exact goneOn (.look queue next _) World.quietSame rfl
  | note remark next => exact goneOn (.note remark next) (World.quietRecord _ rfl) rfl
  | suspend next =>
    by_cases real : (Machine.mk world ⟨stage, .suspend next⟩ callers).awaits = true
    · have going : (Machine.mk world ⟨stage, .suspend next⟩ callers).advance behaviour =
          .suspended ⟨world, ⟨stage, next⟩, callers⟩ := if_pos real
      have none : (Machine.mk world ⟨stage, .suspend next⟩ callers).entered? behaviour = none := by
        rw [entered?, going]
      rw [none, going]
      exact .goneOn world stage _ next callers _ (.suspend next) World.quietSame rfl
    · exact goneOn (.suspend next) World.quietSame (if_neg real)
  | discard queue next =>
    by_cases taken : (world.queue queue).taken = true
    · exact goneOn (.discard queue next false) World.quietSame (if_pos taken)
    · exact goneOn (.discard queue next true) (World.quietTake queue) (if_neg taken)
  | run queue initial next =>
    by_cases taken : (world.queue queue).taken = true
    · exact goneOn (.run queue initial next none) World.quietSame (if_pos taken)
    · have going : (Machine.mk world ⟨stage, .run queue initial next⟩ callers).advance behaviour =
          .running (start behaviour (world.take queue) (⟨stage, next⟩ :: callers) queue initial) :=
        if_neg taken
      have entered :
          (Machine.mk world ⟨stage, .run queue initial next⟩ callers).entered? behaviour =
            some (start behaviour (world.take queue) (⟨stage, next⟩ :: callers) queue
              initial).frame := by
        rw [entered?, going]
        exact if_pos (Nat.lt_succ_self _)
      rw [entered, going]
      exact .begun world stage queue initial next callers (Bool.eq_false_iff.mpr taken)

end Machine

end Sequencer
