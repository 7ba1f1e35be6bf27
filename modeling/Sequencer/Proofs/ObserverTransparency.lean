import Sequencer.Proofs.Blame
import Sequencer.Proofs.Bottom
import Sequencer.Proofs.RecorderSilence

/-! Observer transparency. Observers that append nothing and run no queue may be put anywhere among
the steps of a queue: the run applies the same other steps to the same inputs, with the same outputs
and at the same depths, completes with the same value, or fails at the same step in the same way and
drops as many. -/
namespace Sequencer
open Ensemble Standing

variable {κ δ ν ε : Type}

theorem Event.UpToLeeway.skips {queue : QueueId} {steady : Bool} {event : Event κ ν ε}
    {other : Event (κ ⊕ δ) ν ε} (alike : event.UpToLeeway (.bystanding queue steady) other) :
    other.skips? = event.skips? := by
  cases alike with
  | withdrawn id remaining others lines => exact congrArg some (Concord.linesSkipped lines)
  | _ => rfl

section Twins

variable {queue : QueueId} {last : World κ ν ε} {final : World (κ ⊕ δ) ν ε}

theorem World.Bystood.failed (bystood : last.Bystood queue final) {error also : RunError}
    {before : List (Entry κ)} {others : List (Entry (κ ⊕ δ))} {entry : Entry κ}
    {mate : Entry (κ ⊕ δ)} {dropped : Nat}
    (blame : Blame queue error (last.log queue) before entry dropped)
    (again : Blame queue also (final.log queue) others mate dropped) :
    Outcome.Bystood queue last final (.returned (.error error) : Outcome ν)
      (.returned (.error also)) := by
  obtain ⟨front, input, doings⟩ := blame.doings
  obtain ⟨rest, value, done⟩ := again.doings
  have same := bystood.doings
  unfold World.doings at same
  rw [doings, done, List.map_append] at same
  have pair := (List.append_inj' same rfl).2
  simp only [List.map_cons, Doing.recode, List.map_nil, List.cons.injEq, Doing.applied.injEq,
    Doing.settled.injEq, Except.error.injEq, and_true] at pair
  obtain ⟨⟨twins, -, -⟩, cause⟩ := pair
  have label : also.step? = some (entry.label (UInt32.ofNat others.length)) := by
    rw [again.label, twins]
    rfl
  obtain rfl : also = error.under (entry.label (UInt32.ofNat others.length)) := by
    rw [← RunError.underOwn label, ← RunError.underTwice also _ "", cause, RunError.underTwice]
  refine .failed error entry mate before others dropped blame.applied again.applied twins ?_
    blame.label blame.told again.told
  have own : mate.code.isLeft = true := congrArg (fun step => step.code.isLeft) twins
  have count := congrArg List.length bystood.applied
  simp only [again.applied, blame.applied, List.length_map, List.length_append,
    List.length_singleton, ← List.countP_eq_length_filter, List.countP_append,
    List.countP_singleton, own, if_true] at count
  have split := others.length_eq_countP_add_countP fun other => other.code.isLeft
  simp only [Bool.not_eq_true, Sum.isLeft_eq_false, Bool.decide_eq_true] at split
  omega

end Twins

section Ends

variable {queue : QueueId} {steady : Bool} {first : Behaviour κ ν ε}
  {second : Behaviour (κ ⊕ δ) ν ε} {world : World κ ν ε} {other : World (κ ⊕ δ) ν ε}

theorem World.UpToLeeway.skips {last : World κ ν ε} {final : World (κ ⊕ δ) ν ε}
    (alike : last.UpToLeeway (.bystanding queue steady) world.history other.history final)
    (reached : Reachable first ⟨world, []⟩) (also : Reachable second ⟨other, []⟩)
    (untaken : (world.queue queue).taken = false) (free : (other.queue queue).taken = false) :
    (final.log queue).filterMap Event.skips? = (last.log queue).filterMap Event.skips? := by
  have none {κ : Type} {event : Event κ ν ε} (aside : event.Aside fun _ => false) :
      event.skips? = none := by
    cases aside <;> rfl
  have early := reached.untakenRead untaken Event.skips? fun _ _ _ => rfl
  have late := also.untakenRead free Event.skips? fun _ _ _ => rfl
  rw [World.readLog, List.reverse_eq_nil_iff] at early late
  rw [World.readLog, World.readLog, alike.history.readsAt queue none none Event.UpToLeeway.skips
    (fun extra => by cases extra <;> rfl) (late.trans early.symm)]

theorem Concord.Recounts.withdrawal {κ' : Type} {concord : Concord κ κ' ε}
    {old early : List (Event κ ν ε)} {past late : List (Event κ' ν ε)} {queue : QueueId}
    {remaining : List (Entry κ)} {others : List (Entry κ')}
    (told : concord.Recounts old past (.withdrawn queue remaining :: early)
      (.withdrawn queue others :: late)) :
    old = .withdrawn queue remaining :: early ∨
      concord.Lines (concord.leeway queue) remaining others := by
  generalize newest : Event.withdrawn queue remaining :: early = events,
    last : Event.withdrawn queue others :: late = again at told
  cases told with
  | start => exact .inl rfl
  | both event other early late alike _ =>
    cases newest
    cases last
    cases alike with
    | withdrawn _ _ _ lines => exact .inr lines
  | first event early late aside _ => cases newest; cases aside
  | second event early late aside _ => cases last; cases aside
  | extra queue event early late _ extra _ => cases last; cases extra

theorem Progress.Concert.bystood {last : World κ ν ε} {final : World (κ ⊕ δ) ν ε}
    {result answer : Except RunError ν} {s : Ensemble κ ν ε} {t : Ensemble (κ ⊕ δ) ν ε}
    {bottom : Leeway} (lenient : bottom.lenient = false) (shifts : bottom.shifts = true)
    (concert : (Progress.ended last (.returned result)).Concert (.bystanding queue steady)
      world.history other.history bottom (.ended final (.returned answer)))
    (reached : Reachable first ⟨world, []⟩) (also : Reachable second ⟨other, []⟩)
    (untaken : (world.queue queue).taken = false) (free : (other.queue queue).taken = false)
    (ran : Reachable first s) (reran : Reachable second t)
    (returns : Returns first queue result s ⟨last, []⟩)
    (again : Returns second queue answer t ⟨final, []⟩) :
    last.Bystood queue final ∧ Outcome.Bystood queue last final (.returned result)
      (.returned answer) := by
  have recalls : last.Recalls queue _ _ _ final := Progress.Concert.recalls (a := .ended last _)
    (b := .ended final _) concert (ran.next returns.next) (reran.next again.next)
  have bystood := recalls.bystood reached also untaken free
  obtain ⟨granted, allowed⟩ := recalls.granted reached also untaken free
  refine ⟨bystood, ?_⟩
  have named {error mate : RunError}
      (errors : RunError.UpToLeeway
        (.bystanding queue steady : Concord κ (κ ⊕ δ) ε) bottom error mate) :
      error.step? ≠ none ∧ mate.step? ≠ none := by
    cases errors with
    | recorder failure tight => cases shifts.symm.trans tight
    | failed | panicked => exact ⟨nofun, nofun⟩
    | either _ _ _ _ _ exempt => cases lenient.symm.trans exempt
  cases concert with
  | ended _ _ _ _ worlds outcomes =>
    obtain ⟨_, _, results⟩ | _ := outcomes
    cases results with
    | ok value => exact .completed value
    | error error mate errors =>
      obtain ⟨before, entry, dropped, blame⟩ := returns.blame ran granted (.inl (named errors).1)
      obtain ⟨others, twin, count, blamed⟩ := again.blame reran allowed (.inl (named errors).2)
      have same := worlds.skips reached also untaken free
      rw [blame.skips, blamed.skips] at same
      cases same
      exact bystood.failed blame blamed
  | parted _ _ id remaining others early late strays unsteady told grown more =>
    obtain rfl : id = queue := of_decide_eq_true strays
    obtain ⟨error, before, entry, rfl, blame⟩ :=
      returns.blameOfTaken ran granted (grown.subset List.mem_cons_self)
    obtain ⟨mate, mine, twin, rfl, blamed⟩ :=
      again.blameOfTaken reran allowed (more.subset List.mem_cons_self)
    rcases told.withdrawal with before | lines
    · have skips := world.skipsOfTaken (before ▸ List.mem_cons_self)
      rw [reached.untakenRead untaken Event.skips? fun _ _ _ => rfl] at skips
      cases skips
    · rw [Concord.linesSkipped lines] at blamed
      exact bystood.failed blame blamed

end Ends

namespace Behaviour

end Behaviour

inductive Program.Spares (due : Ending β → Prop) : Program κ ν ε β → Prop where
  | ended (ending) (holds : due ending) : Spares due ending.code
  | ask (queue next) (on : ∀ status, Spares due (next status)) : Spares due (.ask queue next)
  | look (queue next) (on : ∀ snapshot, Spares due (next snapshot)) : Spares due (.look queue next)
  | note (remark next) (on : Spares due next) : Spares due (.note remark next)
  | suspend (next) (on : Spares due next) : Spares due (.suspend next)
  | discard (queue next) (on : ∀ taken, Spares due (next taken)) : Spares due (.discard queue next)
  | run (queue initial next) (on : ∀ result, Spares due (next result)) :
      Spares due (.run queue initial next)

structure Recorder.Spares (recorder : Recorder κ ν ε) : Prop where
  startRun : ∀ name, (recorder.startRun name).Spares Ending.Granted
  startStep : ∀ run info, (recorder.startStep run info).Spares Ending.Granted
  completeStep : ∀ info step status, (recorder.completeStep info step status).Spares fun _ => True
  completeRun : ∀ run status, (recorder.completeRun run status).Spares fun _ => True

namespace Behaviour

end Behaviour

end Sequencer
