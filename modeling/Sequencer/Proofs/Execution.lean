import Sequencer.Proofs.Interleaving

/-! A machine that is left to itself: it is advanced, and after a suspension polled again, until it
ends. Two executions are compared step by step, where one step of the first may take the second any
number of steps, none included. Code that only waits, looks around or makes remarks no one heeds is
idle: it changes no queue. -/
namespace Sequencer

variable {κ κ' ν ε : Type}

namespace Progress

def machine? : Progress κ ν ε → Option (Machine κ ν ε)
  | .running machine | .suspended machine => some machine
  | .ended _ _ => none

inductive Turns (behaviour : Behaviour κ ν ε) : Progress κ ν ε → Progress κ ν ε → Prop where
  | advance (progress machine) (going : progress.machine? = some machine) :
      Turns behaviour progress (machine.advance behaviour)

theorem Turns.only {behaviour : Behaviour κ ν ε} {a b : Progress κ ν ε} {machine : Machine κ ν ε}
    (turn : Turns behaviour a b) (here : a.machine? = some machine) :
    b = machine.advance behaviour := by
  obtain ⟨current, going⟩ := turn
  rw [Option.some.inj (here.symm.trans going)]

abbrev Goes (behaviour : Behaviour κ ν ε) : Progress κ ν ε → Progress κ ν ε → Prop :=
  Relation.ReflTransGen (Turns behaviour)

theorem simulated {behaviour : Behaviour κ ν ε} {other : Behaviour κ' ν ε}
    {related : Progress κ ν ε → Progress κ' ν ε → Prop} {last : Progress κ ν ε}
    (kept : ∀ {a b c}, related a b → Turns behaviour a c → Goes behaviour c last →
      ∃ d, Goes other b d ∧ related c d)
    {a : Progress κ ν ε} {b : Progress κ' ν ε} (start : related a b)
    (path : Goes behaviour a last) : ∃ d, Goes other b d ∧ related last d := by
  induction path using Relation.ReflTransGen.head_induction_on generalizing b with
  | refl => exact ⟨b, .refl, start⟩
  | head step rest ih =>
    obtain ⟨between, reached, here⟩ := kept start step rest
    obtain ⟨final, onward, there⟩ := ih here
    exact ⟨final, reached.trans onward, there⟩

end Progress

/-- What the execution of a machine comes to, at any point of it. -/
def Machine.Runs (behaviour : Behaviour κ ν ε) (machine : Machine κ ν ε)
    (progress : Progress κ ν ε) : Prop :=
  Progress.Goes behaviour (.running machine) progress

theorem Machine.Runs.next {behaviour : Behaviour κ ν ε} {first : Machine κ ν ε}
    {a b : Progress κ ν ε} (runs : first.Runs behaviour a) (step : Progress.Turns behaviour a b) :
    first.Runs behaviour b :=
  Relation.ReflTransGen.tail runs step

theorem Progress.goesReaches {behaviour : Behaviour κ ν ε} {a b : Progress κ ν ε}
    (path : Goes behaviour a b) :
    Ensemble.Reaches behaviour ⟨a.world, a.tasks⟩ ⟨b.world, b.tasks⟩ := by
  induction path with
  | refl => exact .refl
  | tail _ turn ih =>
    obtain ⟨machine, going⟩ := turn
    have step : Ensemble.Next behaviour _ _ := .advance machine.world [] machine.task []
    rw [List.nil_append, List.append_nil] at step
    refine ih.tail ?_
    cases ‹Progress κ ν ε› with
    | ended world outcome => cases going
    | running _ | suspended _ =>
      cases going
      exact step

theorem Machine.pollRuns (behaviour : Behaviour κ ν ε) (fuel : Nat) (machine : Machine κ ν ε) :
    machine.Runs behaviour (machine.poll behaviour fuel) := by
  induction fuel generalizing machine with
  | zero => exact .refl
  | succ fuel ih =>
    have step : Progress.Turns behaviour (.running machine) _ := .advance _ machine rfl
    rw [Machine.poll]
    split
    · next next same => exact .head (same ▸ step) (ih next)
    · exact .single step

namespace Program

inductive Idles (heard : ε → Bool) :
    Program κ ν ε β → (World κ ν ε → Program κ ν ε β) → Prop where
  | note (remark next) (unheard : heard remark = false) :
    Idles heard (.note remark next) fun _ => next
  | suspend (next) : Idles heard (.suspend next) fun _ => next
  | ask (queue next) : Idles heard (.ask queue next) fun world => next (world.queue queue).status
  | look (queue next) :
      Idles heard (.look queue next) fun world => next (world.queue queue).snapshot

inductive Mute (heard : ε → Bool) (ends : Ending β → Prop) : Program κ ν ε β → Prop where
  | ended (ending) (due : ends ending) : Mute heard ends ending.code
  | idle (program rest) (idles : Idles heard program rest)
      (on : ∀ world, Mute heard ends (rest world)) : Mute heard ends program

end Program

inductive World.Unmoved (heard : ε → Bool) (world : World κ ν ε) : World κ ν ε → Prop where
  | same : Unmoved heard world world
  | remark (next remark) (before : Unmoved heard world next) (unheard : heard remark = false) :
      Unmoved heard world (next.record (.noted remark))

theorem World.Unmoved.trans {heard : ε → Bool} {world next last : World κ ν ε}
    (first : world.Unmoved heard next) (second : next.Unmoved heard last) :
    world.Unmoved heard last := by
  induction second with
  | same => exact first
  | remark next remark _ unheard ih => exact .remark next remark ih unheard

variable {behaviour : Behaviour κ ν ε} {heard : ε → Bool} {world : World κ ν ε} {stage : Stage κ ν}
  {callers : List (Caller κ ν ε)} {program : Program κ ν ε (stage.Answer ε)}

variable (behaviour world callers) in
theorem Machine.advanceSuspend (next : Program κ ν ε (stage.Answer ε)) :
    ((Machine.mk world ⟨stage, .suspend next⟩ callers).advance behaviour).machine? =
      some ⟨world, ⟨stage, next⟩, callers⟩ := by
  dsimp only [Machine.advance]
  split <;> rfl

variable (behaviour world callers) in
theorem Program.Idles.advance {rest : World κ ν ε → Program κ ν ε (stage.Answer ε)}
    (idles : program.Idles heard rest) :
    ∃ next, world.Unmoved heard next ∧
      ((Machine.mk world ⟨stage, program⟩ callers).advance behaviour).machine? =
        some ⟨next, ⟨stage, rest world⟩, callers⟩ := by
  cases idles with
  | note remark next unheard => exact ⟨_, .remark world remark .same unheard, rfl⟩
  | ask queue next => exact ⟨world, .same, rfl⟩
  | look queue next => exact ⟨world, .same, rfl⟩
  | suspend next => exact ⟨world, .same, Machine.advanceSuspend behaviour world callers next⟩

theorem Program.Mute.ends {due : Ending (stage.Answer ε) → Prop} (mute : program.Mute heard due)
    {progress : Progress κ ν ε}
    (here : progress.machine? = some ⟨world, ⟨stage, program⟩, callers⟩) :
    ∃ ending next last, due ending ∧ world.Unmoved heard next ∧
      Progress.Goes behaviour progress last ∧
      last.machine? = some ⟨next, ⟨stage, ending.code⟩, callers⟩ := by
  induction mute generalizing world progress with
  | ended ending holds => exact ⟨ending, world, progress, holds, .same, .refl, here⟩
  | idle program rest idles on ih =>
    obtain ⟨next, unmoved, going⟩ := idles.advance behaviour world callers
    obtain ⟨ending, last, final, holds, still, path, there⟩ := ih world going
    exact ⟨ending, last, final, holds, unmoved.trans still, .head (.advance _ _ here) path, there⟩

end Sequencer
