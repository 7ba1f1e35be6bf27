import Mathlib.Data.List.Induction
import Sequencer.Proofs.Marks

/-! The story a log tells. Apart from the appends, the log of a queue is its admission, a round for
each step that was applied and settled well, and either the end of the run or one fall: the step
that failed, the steps taken out, those of them that were told, and the completions. How much of
the story is there is read off the point. -/
namespace Sequencer

/- A round is a step that was applied and settled well; an attempt is how far a failing step has
come if it was applied. A fall is the step that made the run fail, with the steps taken out. A
trunk is an admitted run up to its last round. -/
structure Round (κ ν : Type) where
  entry : Entry κ
  step : Int
  input : ν
  spliced : Nat
  output : ν
  complaint : Option Failure := none

structure Attempt (ν : Type) where
  step : Int
  input : ν
  spliced : Nat
  complaint : Option Failure := none

structure Fall (κ ν : Type) where
  entry : Entry κ
  attempt : Option (Attempt ν)
  error : RunError
  remaining : List (Entry κ)

structure Trunk (κ ν : Type) where
  run : Int
  queued : Nat
  rounds : List (Round κ ν)

def opening (queue : QueueId) (run : Int) (entry : Entry κ) (index : UInt32) : Log κ ν ε :=
  [.activated queue entry (entry.info index), .asked queue (.startStep run (entry.info index))]

def Round.events (queue : QueueId) (run : Int) (round : Round κ ν) (place : Nat) : Log κ ν ε :=
  let info := round.entry.info (UInt32.ofNat place)
  opening queue run round.entry (UInt32.ofNat place) ++
    [.applied queue round.step round.entry info round.input,
      .settled queue info round.spliced (.ok round.output),
      .asked queue (.completeStep round.step (.completed round.spliced))] ++
    round.complaint.toList.map (.stepUnrecorded queue info)

theorem Round.eventsOpen (queue : QueueId) (run : Int) (round : Round κ ν) (place : Nat) :
    opening queue run round.entry (UInt32.ofNat place) ++
      [.applied queue round.step round.entry (round.entry.info (UInt32.ofNat place))
        round.input] <+: (round.events queue run place : Log κ ν ε) := by
  simp [events, opening]

namespace Trunk

def index (trunk : Trunk κ ν) : UInt32 := UInt32.ofNat trunk.rounds.length

def asRun (trunk : Trunk κ ν) (queue : QueueId) : Run := ⟨queue, trunk.run, trunk.index⟩

def grow (trunk : Trunk κ ν) (round : Round κ ν) : Trunk κ ν :=
  { trunk with rounds := trunk.rounds ++ [round] }

def events (queue : QueueId) (name : String) (trunk : Trunk κ ν) : Log κ ν ε :=
  [.asked queue (.startRun name), .started queue trunk.run trunk.queued] ++
    trunk.rounds.zipIdx.flatMap fun (round, place) => round.events queue trunk.run place

theorem indexOfGrow (trunk : Trunk κ ν) (round : Round κ ν) :
    (trunk.grow round).index = trunk.index + 1 := by
  simp [index, grow, UInt32.ofNat_add]

theorem runOfGrow (trunk : Trunk κ ν) (round : Round κ ν) (queue : QueueId) :
    (trunk.grow round).asRun queue = { trunk.asRun queue with index := trunk.index + 1 } := by
  rw [asRun, indexOfGrow]
  rfl

theorem eventsOfGrow (queue : QueueId) (name : String) (trunk : Trunk κ ν) (round : Round κ ν) :
    (trunk.grow round).events queue name (ε := ε) =
      trunk.events queue name ++ round.events queue trunk.run trunk.rounds.length := by
  simp [events, grow, List.zipIdx_append]

inductive Unfailed : Event κ ν ε → Prop where
  | asked (queue call) : Unfailed (.asked queue call)
  | started (queue run queued) : Unfailed (.started queue run queued)
  | activated (queue entry info) : Unfailed (.activated queue entry info)
  | applied (queue step entry info input) : Unfailed (.applied queue step entry info input)
  | settled (queue info spliced output) : Unfailed (.settled queue info spliced (.ok output))
  | unrecorded (queue info failure) : Unfailed (.stepUnrecorded queue info failure)

theorem unfailed {queue : QueueId} {name : String} {trunk : Trunk κ ν} {event : Event κ ν ε}
    (present : event ∈ trunk.events queue name) : Unfailed event := by
  simp only [events, Round.events, opening, List.mem_append, List.mem_cons, List.mem_flatMap,
    List.mem_map, List.not_mem_nil, or_false] at present
  rcases present with (rfl | rfl) | ⟨round, -, ((rfl | rfl) | rfl | rfl | rfl) | ⟨_, -, rfl⟩⟩ <;>
    constructor

@[elab_as_elim]
theorem byRounds {motive : Trunk κ ν → Prop} (admitted : ∀ run queued, motive ⟨run, queued, []⟩)
    (grown : ∀ trunk round, motive trunk → motive (grow trunk round)) (trunk : Trunk κ ν) :
    motive trunk := by
  obtain ⟨run, queued, rounds⟩ := trunk
  induction rounds using List.reverseRecOn with
  | nil => exact admitted run queued
  | append_singleton rounds round ih => exact grown ⟨run, queued, rounds⟩ round ih

end Trunk

def skipped (entries : List (Entry κ)) : Nat :=
  entries.countP fun entry => !entry.isObserver

def notices (queue : QueueId) (error : RunError) (start : UInt32) (told : List (Entry κ)) :
    Log κ ν ε :=
  told.zipIdx.flatMap fun (entry, place) =>
    if entry.isObserver then
      [.notified queue entry (entry.label (start + UInt32.ofNat place)) error]
    else []

theorem noticesOfSnoc (queue : QueueId) (error : RunError) (start : UInt32) (told : List (Entry κ))
    (entry : Entry κ) : (notices queue error start (told ++ [entry]) : Log κ ν ε) =
      notices queue error start told ++ if entry.isObserver then
        [.notified queue entry (entry.label (start + UInt32.ofNat told.length)) error] else [] := by
  simp [notices, List.zipIdx_append]

theorem noticesTell {queue : QueueId} {error : RunError} {start : UInt32} {told : List (Entry κ)}
    {event : Event κ ν ε} (present : event ∈ notices queue error start told) :
    ∃ entry label, event = .notified queue entry label error := by
  obtain ⟨⟨entry, place⟩, -, notice⟩ := List.mem_flatMap.mp present
  dsimp only at notice
  split at notice
  · exact ⟨entry, _, List.mem_singleton.mp notice⟩
  · cases notice

theorem noticesSilent {f : Event κ ν ε → Option β}
    (blind : ∀ queue entry label error, f (.notified queue entry label error) = none)
    (queue : QueueId) (error : RunError) (start : UInt32) (told : List (Entry κ)) :
    (notices queue error start told).filterMap f = [] := by
  refine List.filterMap_eq_nil_iff.mpr fun event present => ?_
  obtain ⟨entry, label, rfl⟩ := noticesTell present
  exact blind queue entry label error

/- The log of a fall: the failing step as far as it came, the event of its failure, the steps taken
out and, after the deliveries, the completions. -/
namespace Fall

def delivery (fall : Fall κ ν) (index : UInt32) : Delivery :=
  ⟨fall.error, fall.attempt.map fun attempt => (attempt.step, fall.entry.info index)⟩

def dropped (fall : Fall κ ν) : Nat :=
  skipped fall.remaining + if fall.attempt.isSome then 0 else 1

def lead (queue : QueueId) (run : Int) (index : UInt32) (fall : Fall κ ν) : Log κ ν ε :=
  opening queue run fall.entry index ++ fall.attempt.toList.map fun attempt =>
    .applied queue attempt.step fall.entry (fall.entry.info index) attempt.input

def blow (queue : QueueId) (index : UInt32) (fall : Fall κ ν) : Event κ ν ε :=
  match fall.attempt with
  | none => .refused queue (fall.entry.info index) fall.error
  | some attempt =>
    .settled queue (fall.entry.info index) attempt.spliced (.error fall.error)

def events (queue : QueueId) (run : Int) (index : UInt32) (fall : Fall κ ν) : Log κ ν ε :=
  fall.lead queue run index ++ [fall.blow queue index, .withdrawn queue fall.remaining]

def closing (queue : QueueId) (run : Int) (index : UInt32) (fall : Fall κ ν) : Log κ ν ε :=
  .dropped queue (skipped fall.remaining) :: (match fall.attempt with
    | none => []
    | some attempt => .asked queue (.completeStep attempt.step (.failed fall.error.text)) ::
        attempt.complaint.toList.map (.stepUnrecorded queue (fall.entry.info index))) ++
    [.asked queue (.completeRun run (.failed fall.error.text fall.dropped))]

end Fall

def fallen (queue : QueueId) (name : String) (trunk : Trunk κ ν) (fall : Fall κ ν)
    (told : List (Entry κ)) : Log κ ν ε :=
  trunk.events queue name ++ fall.events queue trunk.run trunk.index ++
    notices queue fall.error (trunk.index + 1) told

structure Delivers (queue : QueueId) (name : String) (deeds : Log κ ν ε) (run : Run)
    (delivery : Delivery) (rest : List (Entry κ)) (index : UInt32) (dropped : Nat)
    (trunk : Trunk κ ν) (fall : Fall κ ν) (told : List (Entry κ)) : Prop where
  run : run.id = trunk.run
  delivery : delivery = fall.delivery trunk.index
  split : fall.remaining = told ++ rest
  index : index = trunk.index + 1 + UInt32.ofNat told.length
  dropped : dropped = skipped told
  deeds : deeds = fallen queue name trunk fall told

namespace Delivers

variable {queue : QueueId} {name : String} {deeds : Log κ ν ε} {run : Run} {delivery : Delivery}
  {rest : List (Entry κ)} {index : UInt32} {dropped : Nat} {trunk : Trunk κ ν} {fall : Fall κ ν}
  {told : List (Entry κ)}

variable (fall) in
theorem begin (same : run.id = trunk.run) (lead : deeds =
    trunk.events queue name ++ fall.lead queue trunk.run trunk.index) :
    Delivers queue name
      (deeds ++ [fall.blow queue trunk.index, .withdrawn queue fall.remaining]) run
      (fall.delivery trunk.index) fall.remaining (trunk.index + 1) 0 trunk fall [] := by
  refine ⟨same, rfl, rfl, by simp, rfl, ?_⟩
  rw [lead]
  simp [fallen, Fall.events, notices]

theorem next {entry : Entry κ} (delivers : Delivers queue name deeds run delivery (entry :: rest)
    index dropped trunk fall told) :
    Delivers queue name
      (deeds ++ if entry.isObserver then
        [.notified queue entry (entry.label index) delivery.error] else [])
      run delivery rest (index + 1) (dropped + if entry.isObserver then 0 else 1) trunk fall
      (told ++ [entry]) := by
  obtain ⟨same, rfl, split, rfl, rfl, rfl⟩ := delivers
  refine ⟨same, rfl, by simp [split], ?_, ?_, ?_⟩
  · simp [UInt32.ofNat_add, UInt32.add_assoc]
  · cases observer : entry.isObserver <;> simp [skipped, observer]
  · rw [fallen, fallen, noticesOfSnoc, List.append_assoc]
    rfl

theorem ended (delivers : Delivers queue name deeds run delivery [] index dropped trunk fall told) :
    dropped = skipped fall.remaining ∧ deeds = fallen queue name trunk fall fall.remaining := by
  obtain ⟨-, -, split, -, rfl, rfl⟩ := delivers
  rw [split, List.append_nil]
  exact ⟨rfl, rfl⟩

end Delivers

namespace Point

def Tells (queue : QueueId) (name : String) (deeds : Log κ ν ε) : Point κ ν → Prop
  | .free => deeds = []
  | .proceeding run _ => ∃ trunk : Trunk κ ν, run = trunk.asRun queue ∧
    deeds = trunk.events queue name
  | .delivering run delivery rest index dropped =>
    ∃ trunk fall told, Delivers queue name deeds run delivery rest index dropped trunk fall told
  | .inside (.outside) => False
  | .inside (.startingRun _ _) => deeds = [.asked queue (.startRun name)]
  | .inside (.startingStep run _ entry info) => ∃ trunk : Trunk κ ν, run = trunk.asRun queue ∧
    info = entry.info trunk.index ∧
    deeds = trunk.events queue name ++ opening queue trunk.run entry trunk.index
  | .inside (.applying run step info) | .inside (.calling run step info)
  | .inside (.awaiting run step info) =>
    ∃ (trunk : Trunk κ ν) (entry : Entry κ) (input : ν), run = trunk.asRun queue ∧
      info = entry.info trunk.index ∧
      deeds = trunk.events queue name ++ opening queue trunk.run entry trunk.index ++
        [.applied queue step entry info input]
  | .inside (.observing run step info value) =>
    ∃ (trunk : Trunk κ ν) (entry : Entry κ), run = trunk.asRun queue ∧
      info = entry.info trunk.index ∧
      deeds = trunk.events queue name ++ opening queue trunk.run entry trunk.index ++
        [.applied queue step entry info value]
  | .inside (.delivering run delivery _ rest index dropped) =>
    ∃ trunk fall told, Delivers queue name deeds run delivery rest index dropped trunk fall told
  | .inside (.completingStep run info (.completed value)) =>
    ∃ (trunk : Trunk κ ν) (round : Round κ ν), run = (trunk.grow round).asRun queue ∧
      info = round.entry.info trunk.index ∧ round.output = value ∧ round.complaint = none ∧
      deeds = (trunk.grow round).events queue name
  | .inside (.completingStep run info (.failed error dropped)) =>
    ∃ (trunk : Trunk κ ν) (fall : Fall κ ν) (attempt : Attempt ν), run.id = trunk.run ∧
      info = fall.entry.info trunk.index ∧ fall.attempt = some attempt ∧ error = fall.error ∧
      dropped = fall.dropped ∧ deeds = fallen queue name trunk fall fall.remaining ++
        [.dropped queue dropped, .asked queue (.completeStep attempt.step (.failed error.text))]
  | .inside (.completingRun run (.completed _)) => ∃ trunk : Trunk κ ν, run = trunk.asRun queue ∧
    deeds = trunk.events queue name ++
      [.asked queue (.completeRun trunk.run (.completed trunk.index))]
  | .inside (.completingRun run (.failed error dropped)) => ∃ (trunk : Trunk κ ν) (fall : Fall κ ν),
    run.id = trunk.run ∧ error = fall.error ∧ dropped = fall.dropped ∧
      deeds = fallen queue name trunk fall fall.remaining ++
        fall.closing queue trunk.run trunk.index
  | .finished none => True
  | .finished (some (.ok value)) => ∃ (trunk : Trunk κ ν) (complaint : Option Failure),
    deeds = trunk.events queue name ++
      [.asked queue (.completeRun trunk.run (.completed trunk.index))] ++
      complaint.toList.map (.runUnrecorded queue) ++ [.completed queue trunk.index value]
  | .finished (some (.error error)) =>
    (∃ failure, error = .recorder failure ∧ deeds = [.asked queue (.startRun name)]) ∨
    ∃ (trunk : Trunk κ ν) (fall : Fall κ ν) (complaint : Option Failure), error = fall.error ∧
      deeds = fallen queue name trunk fall fall.remaining ++
        fall.closing queue trunk.run trunk.index ++
        complaint.toList.map (.runUnrecorded queue) ++ [.failed queue error fall.dropped]

end Point

namespace Log

theorem deedsAfterAppend (log : Log κ ν ε) (queue : QueueId) (entry : Entry κ) (nested : Bool) :
    Log.deeds (log ++ [.appended queue entry nested]) = log.deeds := by
  simp [deeds, Event.arrival?]

theorem deedsAfter (log events : Log κ ν ε) (none : events.arrivals = []) :
    Log.deeds (log ++ events) = log.deeds ++ events := by
  rw [arrivals, List.filterMap_eq_nil_iff] at none
  have all : events.deeds = events := List.filter_eq_self.mpr fun event present => by
    rw [none event present, Option.isNone_none]
  simp only [deeds, List.filter_append] at all ⊢
  rw [all]

end Log

namespace Standing

variable {queue : QueueId} {name : String}

def Told (queue : QueueId) (name : String) (a : Standing κ ν ε) : Prop :=
  a.point.Tells queue name a.log.deeds

theorem toldSettles {deeds : Log κ ν ε} {stage : Stage κ ν} {ending : Ending (stage.Answer ε)}
    {run : Run} {step : Int} {info : StepInfo} {result : Except RunError ν}
    (settles : Settles stage ending run step info result)
    (told : (Point.inside stage).Tells queue name deeds) :
    ∃ (trunk : Trunk κ ν) (entry : Entry κ) (input : ν), run = trunk.asRun queue ∧
      info = entry.info trunk.index ∧
      deeds = trunk.events queue name ++ opening queue trunk.run entry trunk.index ++
        [.applied queue step entry info input] := by
  cases settles with
  | observer run step info value ending =>
    obtain ⟨trunk, entry, rest⟩ := told
    exact ⟨trunk, entry, value, rest⟩
  | _ => exact told

theorem Told.given {a b : Standing κ ν ε} (act : Given queue name a b) (told : a.Told queue name) :
    b.Told queue name := by
  unfold Told at told ⊢
  cases act with
  | append agenda log point step =>
    rw [Log.deedsAfterAppend]
    exact told
  | discard agenda log => trivial
  | leave agenda log stage => trivial
  | begin agenda log value =>
    rw [Log.deedsAfter _ _ rfl, show log.deeds = [] from told]
    rfl

theorem Told.reply {stage : Stage κ ν} {ending : Ending (stage.Answer ε)} {a b : Standing κ ν ε}
    (act : Response queue stage ending a b) (told : a.Told queue name) : b.Told queue name := by
  unfold Told at told ⊢
  cases act with
  | accept agenda log value id =>
    rw [Log.deedsAfter _ _ rfl, show log.deeds = _ from told]
    exact ⟨⟨id, agenda.len, []⟩, rfl, rfl⟩
  | reject agenda log value failure => exact .inl ⟨failure, rfl, told⟩
  | apply agenda log run value entry info step =>
    rw [Log.deedsAfter _ _ rfl]
    obtain ⟨trunk, rfl, rfl, deeds⟩ := told
    rw [deeds]
    unfold Entry.stage
    cases entry.kind with
    | observer => exact ⟨trunk, entry, rfl, rfl, rfl⟩
    | _ => exact ⟨trunk, entry, value, rfl, rfl, rfl⟩
  | refuse agenda log run value entry info failure =>
    rw [Log.deedsAfter _ _ rfl]
    obtain ⟨trunk, rfl, rfl, deeds⟩ := told
    have lead : log.deeds = trunk.events queue name ++
        (opening queue trunk.run entry trunk.index ++ []) := by rw [deeds, List.append_nil]
    exact ⟨trunk, _, [],
      Delivers.begin ⟨entry, none, .recorder failure, agenda.pending⟩ rfl lead⟩
  | call agenda log run step info program => exact told
  | settle agenda log stage ending run step info value settles =>
    rw [Log.deedsAfter _ _ rfl]
    obtain ⟨trunk, entry, input, rfl, rfl, deeds⟩ := toldSettles settles told
    refine ⟨trunk, ⟨entry, step, input, agenda.found.size, value, none⟩, ?_, rfl, rfl, rfl, ?_⟩
    · rw [Trunk.runOfGrow]
      rfl
    · rw [deeds, Trunk.eventsOfGrow]
      simp [Round.events, Trunk.index]
  | fail agenda log stage ending run step info error settles =>
    rw [Log.deedsAfter _ _ rfl]
    obtain ⟨trunk, entry, input, rfl, rfl, deeds⟩ := toldSettles settles told
    rw [List.append_assoc] at deeds
    exact ⟨trunk, _, [], Delivers.begin
      ⟨entry, some ⟨step, input, agenda.found.size, none⟩, error, agenda.pending⟩ rfl deeds⟩
  | told agenda log run delivery label rest index dropped ending => exact told
  | goOn agenda log run info value ending heard =>
    rw [Log.deedsAfter _ _ (by cases ending <;> rfl)]
    obtain ⟨trunk, round, rfl, rfl, rfl, plain, deeds⟩ := told
    refine ⟨trunk.grow { round with complaint := ending.complaint? }, ?_, ?_⟩
    · rw [Trunk.runOfGrow, Trunk.runOfGrow]
    · rw [deeds, Trunk.eventsOfGrow, Trunk.eventsOfGrow]
      simp [Round.events, plain, Trunk.index]
  | giveUp agenda log run info error dropped ending heard =>
    rw [List.append_assoc, Log.deedsAfter _ _ (by cases ending <;> rfl)]
    obtain ⟨trunk, fall, attempt, same, rfl, tried, rfl, rfl, deeds⟩ := told
    refine ⟨trunk, { fall with attempt := some { attempt with complaint := ending.complaint? } },
      same, rfl, ?_, ?_⟩
    · simp [Fall.dropped, tried]
    · rw [deeds]
      simp [fallen, Fall.events, Fall.lead, Fall.blow, Fall.closing, tried, Fall.dropped, same]
  | finish agenda log run verdict ending heard =>
    rw [List.append_assoc, Log.deedsAfter _ _ (by cases ending <;> cases verdict <;> rfl)]
    cases verdict with
    | completed value =>
      obtain ⟨trunk, rfl, deeds⟩ := told
      refine ⟨trunk, ending.complaint?, ?_⟩
      rw [deeds]
      simp [Verdict.event, Trunk.asRun]
    | failed error dropped =>
      obtain ⟨trunk, fall, same, rfl, rfl, deeds⟩ := told
      refine .inr ⟨trunk, fall, ending.complaint?, rfl, ?_⟩
      rw [deeds]
      simp [Verdict.event]

theorem Told.follow {a b : Standing κ ν ε} (act : Follow queue a b) (told : a.Told queue name) :
    b.Told queue name := by
  unfold Told at told ⊢
  cases act with
  | drained agenda log run value ended =>
    rw [Log.deedsAfter _ _ rfl]
    obtain ⟨trunk, rfl, deeds⟩ := told
    exact ⟨trunk, rfl, by rw [deeds]; rfl⟩
  | activate agenda log run value entry next taken =>
    rw [Log.deedsAfter _ _ rfl]
    obtain ⟨trunk, rfl, deeds⟩ := told
    exact ⟨trunk, rfl, rfl, by rw [deeds]; rfl⟩
  | pass agenda log run delivery entry rest index dropped other =>
    obtain ⟨trunk, fall, met, delivers⟩ := told
    refine ⟨trunk, fall, met ++ [entry], ?_⟩
    simpa [other] using delivers.next
  | notify agenda log run delivery entry rest index dropped observer =>
    rw [Log.deedsAfter _ _ rfl]
    obtain ⟨trunk, fall, met, delivers⟩ := told
    refine ⟨trunk, fall, met ++ [entry], ?_⟩
    simpa [observer] using delivers.next
  | deliveredStep agenda log run error step info index dropped =>
    rw [Log.deedsAfter _ _ rfl]
    obtain ⟨trunk, fall, met, delivers⟩ := told
    obtain ⟨rfl, deeds⟩ := delivers.ended
    have delivery := delivers.delivery
    cases tried : fall.attempt with
    | none => simp [Fall.delivery, tried] at delivery
    | some attempt =>
      simp only [Fall.delivery, tried, Option.map_some, Delivery.mk.injEq, Option.some.injEq,
        Prod.mk.injEq] at delivery
      obtain ⟨rfl, rfl, rfl⟩ := delivery
      refine ⟨trunk, fall, attempt, delivers.run, rfl, tried, rfl, ?_, ?_⟩
      · simp [Fall.dropped, tried]
      · rw [deeds]
  | deliveredStart agenda log run error index dropped =>
    rw [Log.deedsAfter _ _ rfl]
    obtain ⟨trunk, fall, met, delivers⟩ := told
    obtain ⟨rfl, deeds⟩ := delivers.ended
    have delivery := delivers.delivery
    cases tried : fall.attempt with
    | some attempt => simp [Fall.delivery, tried] at delivery
    | none =>
      obtain rfl : error = fall.error := congrArg Delivery.error delivery
      refine ⟨trunk, fall, delivers.run, rfl, ?_, ?_⟩
      · simp [Fall.dropped, tried]
      · rw [deeds]
        simp [Fall.closing, tried, Fall.dropped, delivers.run]

variable (queue name) in
theorem keptTold : Kept queue name (Told (κ := κ) (ν := ν) (ε := ε) queue name) where
  start := rfl
  given := Told.given
  reply := Told.reply
  follow := Told.follow

end Standing

end Sequencer
