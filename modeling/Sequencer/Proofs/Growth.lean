import Sequencer.Proofs.Depths
import Sequencer.Proofs.Summons

/-! The history of the world only ever grows. A queue that is not taken yet keeps everything but for
the appends that reach it, wherever they come from. -/
namespace Sequencer
open Standing

theorem Machine.resumeSince {world left : World κ ν ε} (since : world.Since left)
    (callers : List (Caller κ ν ε)) (turn : Turn κ ν ε) :
    world.Since (Machine.resume callers (left, turn)).world := by
  rw [Machine.worldOfResume]
  exact since

theorem Machine.advanceSince (behaviour : Behaviour κ ν ε) (machine : Machine κ ν ε) :
    machine.world.Since (machine.advance behaviour).world := by
  obtain ⟨world, ⟨stage, code⟩, callers⟩ := machine
  have ended (ending : Ending (stage.Answer ε)) : world.Since
      (Machine.resume callers (Scheduler.conclude behaviour world stage ending)).world :=
    Machine.resumeSince (Scheduler.concludeSince world behaviour stage ending) callers _
  cases code with
  | done answer => exact ended (.returned answer)
  | fail failure => exact ended (.failed failure)
  | panic payload => exact ended (.panicked payload)
  | append queue step next => exact (World.sinceSet queue _).trans (World.sinceRecord _)
  | note remark next => exact World.sinceRecord _
  | ask queue next | look queue next => exact World.sinceSame
  | suspend next =>
    dsimp only [Machine.advance]
    split <;> exact World.sinceSame
  | discard queue next =>
    dsimp only [Machine.advance]
    split
    · exact World.sinceSame
    · exact ⟨List.suffix_rfl⟩
  | run queue initial next =>
    dsimp only [Machine.advance]
    split
    · exact World.sinceSame
    · exact ⟨List.suffix_cons _ _⟩

namespace Ensemble

variable {behaviour : Behaviour κ ν ε} {queue : QueueId} {name : String} {a b : Ensemble κ ν ε}

theorem nextSince (step : Next behaviour a b) : a.world.Since b.world := by
  cases step with
  | outside world tasks code => exact World.sinceSame
  | run world tasks queue initial untaken => exact ⟨List.suffix_cons _ _⟩
  | advance world first task rest => exact Machine.advanceSince behaviour (task.on world)
  | drop world first task rest => exact World.sinceSame

theorem reachesSince (path : Reaches behaviour a b) : a.world.Since b.world := by
  induction path with
  | refl => exact World.sinceSame
  | tail _ step ih => exact ih.trans (nextSince step)

theorem followsFree {x y : Standing κ ν ε} (path : Follows queue x y) (free : y.point = .free) :
    x = y := by
  cases path with
  | refl => rfl
  | tail _ act => cases act <;> cases free

theorem Move.unbegun {e : Ensemble κ ν ε} {x y : Standing κ ν ε} (move : Move queue name e x y)
    (free : y.point = .free) :
    x.point = .free ∧ Extends queue x.agenda x.log y.agenda y.log := by
  cases move with
  | still => exact ⟨free, .same⟩
  | given act =>
    cases act with
    | append agenda log point step => exact ⟨free, .append agenda log step .same⟩
    | _ => cases free
  | reply ends act path =>
    cases followsFree path free
    cases act with
    | apply | settle | accept => cases free
    | _ => cases free

theorem untakenGrows (path : Reaches behaviour a b) {point : Point κ ν} (here : a.At queue point)
    (untaken : (b.world.queue queue).taken = false) : a.world.Grows queue b.world := by
  induction path with
  | refl => exact .same
  | tail before step ih =>
    obtain ⟨-, between, near, -⟩ := reachesHold before (keptTrue queue _) rfl here trivial
    obtain ⟨-, next, there, move⟩ := nextMoves step near rfl
    change next.Fits _ _ at there
    rw [untaken] at there
    obtain ⟨rfl, extended⟩ := move.unbegun (Point.freeOfUntaken there).1
    exact (ih near.2).trans extended

end Ensemble

end Sequencer
