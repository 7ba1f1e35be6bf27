import Sequencer.Proofs.Execution

/-! Polls and steps. A machine that is polled again after every suspension takes the same steps as
one that is advanced without a pause; a poll ends wherever the code is about to suspend and all its
callers can wait. So the polls are counted by the machines passed on the way. -/
namespace Sequencer

variable {κ ν ε : Type}

def Program.suspends : Program κ ν ε β → Bool
  | .suspend _ => true
  | _ => false

def Progress.idle : Progress κ ν ε → Bool
  | .suspended _ => true
  | _ => false

namespace Machine

def pauses (machine : Machine κ ν ε) : Bool :=
  machine.awaits && machine.frame.code.suspends

inductive Polled (behaviour : Behaviour κ ν ε) :
    Machine κ ν ε → Nat → World κ ν ε → Outcome ν → Prop where
  | ended (machine fuel world outcome) (poll : machine.poll behaviour fuel = .ended world outcome) :
      Polled behaviour machine 1 world outcome
  | again (machine fuel next polls world outcome)
      (poll : machine.poll behaviour fuel = .suspended next)
      (on : Polled behaviour next polls world outcome) :
      Polled behaviour machine (polls + 1) world outcome

inductive Passes (behaviour : Behaviour κ ν ε) :
    Machine κ ν ε → List (Machine κ ν ε) → World κ ν ε → Outcome ν → Prop where
  | last (machine world outcome) (ended : machine.advance behaviour = .ended world outcome) :
      Passes behaviour machine [machine] world outcome
  | step (machine next passed world outcome)
      (going : (machine.advance behaviour).machine? = some next)
      (on : Passes behaviour next passed world outcome) :
      Passes behaviour machine (machine :: passed) world outcome

variable {behaviour : Behaviour κ ν ε}

theorem resumeUnsuspended (callers : List (Caller κ ν ε)) (after : World κ ν ε × Turn κ ν ε) :
    (resume callers after).idle = false := by
  obtain ⟨world, turn⟩ := after
  cases turn <;> cases callers <;> rfl

theorem advancePauses {machine : Machine κ ν ε} {progress : Progress κ ν ε}
    (turn : machine.advance behaviour = progress) : machine.pauses = progress.idle := by
  subst turn
  obtain ⟨world, ⟨stage, code⟩, callers⟩ := machine
  cases code with
  | suspend next =>
    dsimp only [pauses, advance, Program.suspends]
    split
    · next waits => rw [waits]; rfl
    · next busy => rw [Bool.eq_false_iff.mpr busy]; rfl
  | append _ _ _ | ask _ _ | look _ _ | note _ _ => exact Bool.and_false _
  | done _ | fail _ | panic _ =>
    exact (Bool.and_false _).trans (resumeUnsuspended callers _).symm
  | discard _ _ | run _ _ _ =>
    refine (Bool.and_false _).trans ?_
    dsimp only [advance]
    split <;> rfl

theorem pollPassesEnd {fuel : Nat} {machine : Machine κ ν ε} {world : World κ ν ε}
    {outcome : Outcome ν} (poll : machine.poll behaviour fuel = .ended world outcome) :
    ∃ passed, Passes behaviour machine passed world outcome ∧ passed.countP pauses = 0 := by
  induction fuel generalizing machine with
  | zero => cases poll
  | succ fuel ih =>
    rw [Machine.poll] at poll
    split at poll
    · next next going =>
      obtain ⟨passed, on, none⟩ := ih poll
      refine ⟨_, .step machine next passed world outcome (by rw [going]; rfl) on, ?_⟩
      simp [none, advancePauses going, Progress.idle]
    · exact ⟨_, .last machine world outcome poll, by simp [advancePauses poll, Progress.idle]⟩

theorem pollPasses {fuel : Nat} {machine next : Machine κ ν ε}
    (poll : machine.poll behaviour fuel = .suspended next) {passed : List (Machine κ ν ε)}
    {world : World κ ν ε} {outcome : Outcome ν} (on : Passes behaviour next passed world outcome) :
    ∃ all, Passes behaviour machine all world outcome ∧
      all.countP pauses = passed.countP pauses + 1 := by
  induction fuel generalizing machine with
  | zero => cases poll
  | succ fuel ih =>
    rw [Machine.poll] at poll
    split at poll
    · next between going =>
      obtain ⟨all, onward, counted⟩ := ih poll
      refine ⟨_, .step machine between all world outcome (by rw [going]; rfl) onward, ?_⟩
      simp [counted, advancePauses going, Progress.idle]
    · have pausing : machine.pauses = true := advancePauses poll
      exact ⟨_, .step machine next passed world outcome (by rw [poll]; rfl) on, by simp [pausing]⟩

theorem Polled.passes {machine : Machine κ ν ε} {polls : Nat} {world : World κ ν ε}
    {outcome : Outcome ν} (polled : machine.Polled behaviour polls world outcome) :
    ∃ passed, machine.Passes behaviour passed world outcome ∧
      polls = passed.countP pauses + 1 := by
  induction polled with
  | ended machine fuel world outcome poll =>
    obtain ⟨passed, on, none⟩ := pollPassesEnd poll
    exact ⟨passed, on, by rw [none]⟩
  | again machine fuel next polls world outcome poll _ ih =>
    obtain ⟨passed, on, counted⟩ := ih
    obtain ⟨all, onward, more⟩ := pollPasses poll on
    exact ⟨all, onward, by omega⟩

theorem Polled.sooner {machine next : Machine κ ν ε} {polls : Nat} {world : World κ ν ε}
    {outcome : Outcome ν} (going : machine.advance behaviour = .running next)
    (polled : next.Polled behaviour polls world outcome) :
    machine.Polled behaviour polls world outcome := by
  have onward (fuel : Nat) : machine.poll behaviour (fuel + 1) = next.poll behaviour fuel := by
    rw [Machine.poll, going]
  cases polled with
  | ended _ fuel _ _ poll =>
    exact .ended machine (fuel + 1) world outcome ((onward fuel).trans poll)
  | again _ fuel after polls _ _ poll on =>
    exact .again machine (fuel + 1) after polls world outcome ((onward fuel).trans poll) on

theorem Passes.polled {machine : Machine κ ν ε} {passed : List (Machine κ ν ε)}
    {world : World κ ν ε} {outcome : Outcome ν}
    (passes : machine.Passes behaviour passed world outcome) :
    machine.Polled behaviour (passed.countP pauses + 1) world outcome := by
  induction passes with
  | last machine world outcome ended =>
    have poll : machine.poll behaviour 1 = .ended world outcome := by rw [Machine.poll, ended]
    simpa [advancePauses ended, Progress.idle] using Polled.ended machine 1 world outcome poll
  | step machine next passed world outcome going _ ih =>
    cases advanced : machine.advance behaviour with
    | ended left result => cases advanced ▸ going
    | running on =>
      rw [advanced] at going
      cases going
      simpa [advancePauses advanced, Progress.idle] using ih.sooner advanced
    | suspended on =>
      rw [advanced] at going
      cases going
      have poll : machine.poll behaviour 1 = .suspended next := by rw [Machine.poll, advanced]
      have pausing : machine.pauses = true := advancePauses advanced
      simpa [pausing] using Polled.again machine 1 next _ world outcome poll ih

/-- Polled to its end, a machine comes to what its steps come to, and the polls are one more than
the pauses it passes. -/
theorem polledPasses {machine : Machine κ ν ε} {polls : Nat} {world : World κ ν ε}
    {outcome : Outcome ν} : machine.Polled behaviour polls world outcome ↔
      ∃ passed, machine.Passes behaviour passed world outcome ∧
        polls = passed.countP pauses + 1 :=
  ⟨Polled.passes, fun ⟨_, passes, counted⟩ => counted ▸ passes.polled⟩

theorem Passes.unique {machine : Machine κ ν ε} {passed others : List (Machine κ ν ε)}
    {world also : World κ ν ε} {outcome result : Outcome ν}
    (first : machine.Passes behaviour passed world outcome)
    (second : machine.Passes behaviour others also result) :
    passed = others ∧ world = also ∧ outcome = result := by
  induction first generalizing others with
  | last machine world outcome ended =>
    cases second with
    | last _ _ _ past =>
      cases ended.symm.trans past
      exact ⟨rfl, rfl, rfl⟩
    | step _ next _ _ _ going _ => rw [ended] at going; cases going
  | step machine next passed world outcome going _ ih =>
    cases second with
    | last _ _ _ past => rw [past] at going; cases going
    | step _ other _ _ _ onward rest =>
      obtain rfl := Option.some.inj (going.symm.trans onward)
      obtain ⟨same, worlds, results⟩ := ih rest
      exact ⟨congrArg _ same, worlds, results⟩

theorem Polled.unique {machine : Machine κ ν ε} {polls others : Nat} {world also : World κ ν ε}
    {outcome result : Outcome ν} (first : machine.Polled behaviour polls world outcome)
    (second : machine.Polled behaviour others also result) :
    polls = others ∧ world = also ∧ outcome = result := by
  obtain ⟨passed, passes, counted⟩ := first.passes
  obtain ⟨more, onward, also⟩ := second.passes
  obtain ⟨rfl, worlds, results⟩ := passes.unique onward
  exact ⟨counted.trans also.symm, worlds, results⟩

theorem Passes.runs {machine : Machine κ ν ε} {passed : List (Machine κ ν ε)}
    {world : World κ ν ε} {outcome : Outcome ν}
    (passes : machine.Passes behaviour passed world outcome) {progress : Progress κ ν ε}
    (here : progress.machine? = some machine) :
    Progress.Goes behaviour progress (.ended world outcome) := by
  induction passes generalizing progress with
  | last machine world outcome ended => exact ended ▸ .single (.advance progress machine here)
  | step machine next passed world outcome going _ ih =>
    exact .head (.advance progress machine here) (ih going)

theorem runsPasses {world : World κ ν ε} {outcome : Outcome ν} {progress : Progress κ ν ε}
    (path : Progress.Goes behaviour progress (.ended world outcome)) {machine : Machine κ ν ε}
    (here : progress.machine? = some machine) :
    ∃ passed, machine.Passes behaviour passed world outcome := by
  induction path using Relation.ReflTransGen.head_induction_on generalizing machine with
  | refl => cases here
  | @head before after turn rest ih =>
    obtain rfl := turn.only here
    cases advanced : machine.advance behaviour with
    | ended left result =>
      rw [advanced] at rest
      cases rest.cases_head with
      | inl same => cases same; exact ⟨_, .last machine world outcome advanced⟩
      | inr more =>
        obtain ⟨_, ⟨_, stuck⟩, _⟩ := more
        cases stuck
    | running next | suspended next =>
      have going : (machine.advance behaviour).machine? = some next := by rw [advanced]; rfl
      obtain ⟨passed, on⟩ := ih going
      exact ⟨_, .step machine next passed world outcome going on⟩

end Machine

namespace Session
open Script

variable (setup : Setup) (fuel : Nat) (queue : QueueId)

theorem interjectNothing (session : Session) : interject setup fuel queue [] session = session := by
  cases fuel <;> rfl

theorem drivePolled {rounds polls total : Nat} {machine : Machine Spec Datum Note} {left : Session}
    {outcome : Outcome Datum}
    (driven : drive setup fuel queue {} rounds polls machine = (left, .ended outcome, total)) :
    ∃ more, total = polls + more ∧ machine.Polled setup.behaviour more left outcome := by
  induction rounds generalizing polls machine with
  | zero => cases driven
  | succ rounds ih =>
    unfold drive at driven
    split at driven
    · cases driven
    · next session result poll =>
      cases driven
      exact ⟨1, rfl, .ended machine fuel left outcome poll⟩
    · next next poll =>
      dsimp only [List.lookup, Option.getD_none] at driven
      rw [interjectNothing, if_neg nofun] at driven
      obtain ⟨more, counted, polled⟩ := ih driven
      exact ⟨more + 1, by omega, .again machine fuel next more left outcome poll polled⟩

theorem runPolled {session left : Session} {initial : Option Datum} {outcome : Outcome Datum}
    {polls : Nat}
    (ran : run setup fuel session queue initial {} = (left, .ran (.ended outcome) polls)) :
    (Machine.start setup.behaviour session [] queue initial).Polled setup.behaviour polls left
      outcome := by
  unfold run at ran
  rw [if_neg nofun] at ran
  dsimp only at ran
  generalize Machine.start setup.behaviour session [] queue initial = start at ran ⊢
  generalize driven : drive setup fuel queue {} fuel 0 start = result at ran
  obtain ⟨world, closing, total⟩ := result
  cases ran
  obtain ⟨more, counted, polled⟩ := drivePolled setup fuel queue driven
  rwa [counted, Nat.zero_add]

end Session

end Sequencer
