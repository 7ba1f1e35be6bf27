import Sequencer.Proofs.Placement
import Sequencer.Proofs.Subruns

/-! Queues do not interfere. Any number of schedulers may be at work on one stack and beside it,
with code that appends and runs across them; each queue goes by its own mark, and only its own run
does more to it than append. A queue is run once: whoever asks for it later finds it taken. -/
namespace Sequencer
open Standing

def Call.begins : Call → Bool
  | .startRun _ => true
  | _ => false

def Log.beginnings (log : Log κ ν ε) : List Call := log.calls.filter Call.begins

namespace World

variable {queue : QueueId} {before after : World κ ν ε}

theorem Apart.others (apart : before.Apart queue after) {id : QueueId} (other : id ≠ queue) :
    after.queue id = before.queue id := by
  have name := apart.name id
  have taken := apart.taken id
  have agenda : (after.queue id).agenda = (before.queue id).agenda := apart.agenda id other
  cases left : after.queue id
  cases right : before.queue id
  simp_all

end World

namespace Standing

variable {queue : QueueId} {name : String}

theorem followsArrivals {x y : Standing κ ν ε} (path : Follows queue x y) :
    y.log.arrivals = x.log.arrivals := by
  induction path with
  | refl => rfl
  | tail _ act ih => exact act.arrivals.1.trans ih

structure Once (a : Standing κ ν ε) : Prop where
  few : a.log.beginnings.length ≤ 1
  fresh : a.point = .free → a.log.beginnings = []

theorem Once.further {agenda next : Agenda κ} {log : Log κ ν ε} {point after : Point κ ν}
    (once : Once ⟨agenda, log, point⟩) (events : Log κ ν ε) (none : events.beginnings = [])
    (free : after = .free → point = .free) : Once ⟨next, log ++ events, after⟩ := by
  have same : Log.beginnings (log ++ events) = log.beginnings := by
    simp only [Log.beginnings, Log.calls, List.filterMap_append, List.filter_append] at none ⊢
    rw [none, List.append_nil]
  exact ⟨same ▸ once.few, fun here => same.trans (once.fresh (free here))⟩

theorem Once.onward {agenda next : Agenda κ} {log : Log κ ν ε} {point after : Point κ ν}
    (once : Once ⟨agenda, log, point⟩) (free : after = .free → point = .free) :
    Once ⟨next, log, after⟩ :=
  ⟨once.few, fun here => once.fresh (free here)⟩

variable (queue name) in
theorem keptOnce : Kept queue name (@Once κ ν ε) where
  start := ⟨Nat.zero_le 1, fun _ => rfl⟩
  given act once := by
    cases act with
    | append agenda log point step => exact once.further _ rfl id
    | discard agenda log | leave agenda log stage => exact once.onward nofun
    | begin agenda log value =>
      have none : log.beginnings = [] := once.fresh rfl
      refine ⟨?_, nofun⟩
      simp only [Log.beginnings, Log.calls, List.filterMap_append, List.filter_append] at none ⊢
      rw [none]
      exact Nat.le_refl 1
  reply act once := by
    cases act with
    | reject | call | told => exact once.onward nofun
    | goOn agenda log run info value ending heard =>
      exact once.further _ (by cases ending <;> rfl) nofun
    | giveUp agenda log run info error dropped ending heard =>
      rw [List.append_assoc]
      exact once.further _ (by cases ending <;> rfl) nofun
    | finish agenda log run verdict ending heard =>
      rw [List.append_assoc]
      exact once.further _ (by cases ending <;> cases verdict <;> rfl) nofun
    | _ => exact once.further _ rfl nofun
  follow act once := by
    cases act with
    | pass => exact once.onward nofun
    | _ => exact once.further _ rfl nofun

end Standing

theorem Stage.queueOfBody {stage : Stage κ ν} {run : Run} {step : Int} {info : StepInfo}
    (body : stage.body? = some (run, step, info)) : stage.queue? = some run.queue := by
  cases stage <;> cases body <;> rfl

namespace Ensemble

variable {behaviour : Behaviour κ ν ε} {queue : QueueId} {name : String} {s : Ensemble κ ν ε}

theorem Move.places {x y : Standing κ ν ε} (move : Move queue name s x y) {new : Log κ ν ε}
    (log : y.log = x.log ++ new) {entry : Entry κ} {nested : Bool}
    (present : .appended queue entry nested ∈ new) :
    new = [.appended queue entry nested] ∧ x.agenda.Places entry y.agenda ∧
      nested = x.agenda.active.isSome := by
  have arrives (none : y.log.arrivals = x.log.arrivals) : False := by
    rw [log, Log.arrivals, List.filterMap_append] at none
    have none := List.filterMap_eq_nil_iff.mp (List.append_right_eq_self.mp none)
    cases none _ present
  cases move with
  | still => exact (arrives rfl).elim
  | reply ends act path => exact (arrives ((followsArrivals path).trans act.arrivals.1)).elim
  | given act =>
    cases act with
    | append agenda log point step =>
      rw [List.append_cancel_left_eq] at log
      subst log
      cases List.mem_singleton.mp present
      exact ⟨rfl, agenda.places step, rfl⟩
    | begin agenda log value =>
      rw [List.append_cancel_left_eq] at log
      subst log
      cases List.mem_singleton.mp present
    | discard agenda log | leave agenda log stage => exact (arrives rfl).elim

theorem Move.apart {x y : Standing κ ν ε} (move : Move queue name s x y) :
    Extends queue x.agenda x.log y.agenda y.log ∨
    (∃ stage ending, s.Ends stage ending ∧ x.point = .inside stage) ∨
    x.point = .free ∧ ∃ value, y.point = .inside (.startingRun queue value) := by
  cases move with
  | still => exact .inl .same
  | reply ends act path => exact .inr (.inl ⟨_, _, ends, by cases act <;> rfl⟩)
  | given act =>
    cases act with
    | append agenda log point step => exact .inl (.append agenda log step .same)
    | begin agenda log value => exact .inr (.inr ⟨rfl, value, rfl⟩)
    | discard agenda log | leave agenda log stage => exact .inl .same

structure Independent (behaviour : Behaviour κ ν ε) (s : Ensemble κ ν ε) (queue : QueueId) :
    Prop where
  -- Its own mark places whatever is appended.
  placed : ∀ (r : Ensemble κ ν ε) (new : Log κ ν ε) (entry : Entry κ) (nested : Bool),
    Next behaviour s r → r.world.log queue = s.world.log queue ++ new →
    .appended queue entry nested ∈ new → new = [.appended queue entry nested] ∧
      (s.world.agenda queue).Places entry (r.world.agenda queue) ∧
      nested = (s.world.agenda queue).active.isSome
  -- Its steps stand in the order of its own forest, those that a failure took out included.
  ordered : (s.world.log queue).Unbroken →
    (s.world.log queue).activated ++ (s.world.agenda queue).pending =
      Forest.preorder (Discovery.ofHistory queue s.world.history).forest
  whole : (s.world.log queue).activated ++ (s.world.log queue).withdrawn ++
      (s.world.agenda queue).pending =
    Forest.preorder (Discovery.ofHistory queue s.world.history).forest
  -- Anything but an append is done by its own run, or begins it.
  apart : ∀ r, Next behaviour s r → s.world.Grows queue r.world ∨
    (∃ stage ending, s.Ends stage ending ∧ stage.queue? = some queue) ∨
    (s.world.queue queue).taken = false ∧ ∃ value, .startingRun queue value ∈ r.stages
  -- Another queue that is run, alone or on top of callers, only appends to this one.
  runs : ∀ (other : QueueId) (initial : Option ν) (callers : List (Caller κ ν ε))
    (left : World κ ν ε) (outcome : Outcome ν), other ≠ queue →
    (Machine.start behaviour (s.world.take other) [] other initial).Runs behaviour
      (.ended left outcome) →
    (left.queue queue).taken = (s.world.queue queue).taken →
    s.world.Grows queue left ∧
      (Machine.start behaviour (s.world.take other) callers other initial).Runs behaviour
        (Machine.resume callers (left, outcome.turn))
  -- A panic of the recorder of a queue that a step of this one runs fails that step.
  panics : ∀ (first rest : List (Task κ ν ε)) (stage : Stage κ ν) (payload : Payload)
    (caller : Caller κ ν ε) (callers : List (Caller κ ν ε)) (other : QueueId) (run : Run)
    (step : Int) (info : StepInfo),
    s.tasks = first ++ ⟨⟨stage, .panic payload⟩, caller :: callers⟩ :: rest →
    stage.recorder = true → stage.queue? = some other →
    caller.stage.body? = some (run, step, info) → run.queue = queue →
    let error := RunError.stepPanicked info.label payload.message
    let between : Ensemble κ ν ε :=
      ⟨s.world, first ++ ⟨⟨caller.stage, .panic payload⟩, callers⟩ :: rest⟩
    ∃ after : Ensemble κ ν ε, Next behaviour s between ∧ Next behaviour between after ∧
      after.world.queue other = s.world.queue other ∧
      after.world.log other = s.world.log other ∧
      s.world.log queue ++ [.settled queue info (s.world.agenda queue).found.size (.error error),
        .withdrawn queue (s.world.agenda queue).pending] <+: after.world.log queue ∧
      ∀ result u v, Reaches behaviour after u → Returns behaviour queue result u v →
        result = .error error
  -- It is run once, whoever tries to run it again.
  once : (s.world.log queue).beginnings.length ≤ 1
  taken : ∀ stage ∈ s.stages, stage.queue? = some queue → (s.world.queue queue).taken = true
  spent : (s.world.queue queue).taken = true → ∀ t, Reaches behaviour s t →
    (t.world.queue queue).taken = true ∧
    ∀ (stage : Stage κ ν) (initial : Option ν)
      (next : Option (Except RunError ν) → Program κ ν ε (stage.Answer ε))
      (callers : List (Caller κ ν ε)),
      (Machine.mk t.world ⟨stage, .run queue initial next⟩ callers).advance behaviour =
        .running ⟨t.world, ⟨stage, next none⟩, callers⟩

theorem takenStays {t : Ensemble κ ν ε} (path : Reaches behaviour s t) {point : Point κ ν}
    (here : s.At queue point) (taken : (s.world.queue queue).taken = true) :
    (t.world.queue queue).taken = true := by
  induction path with
  | refl => exact taken
  | tail before step ih =>
    obtain ⟨-, between, near, -⟩ := reachesHold before (keptTrue queue _) rfl here trivial
    obtain ⟨-, next, there, move⟩ := nextMoves step near rfl
    by_contra untaken
    change next.Fits _ _ at there
    rw [Bool.eq_false_iff.mpr untaken] at there
    have free : between = .free := (move.unbegun (Point.freeOfUntaken there).1).1
    subst free
    exact nomatch ih.symm.trans near.2

theorem stepPanics (reached : Reachable behaviour s) {first rest : List (Task κ ν ε)}
    {stage : Stage κ ν} {payload : Payload} {caller : Caller κ ν ε}
    {callers : List (Caller κ ν ε)} {other : QueueId} {run : Run} {step : Int} {info : StepInfo}
    (tasks : s.tasks = first ++ ⟨⟨stage, .panic payload⟩, caller :: callers⟩ :: rest)
    (recorder : stage.recorder = true) (own : stage.queue? = some other)
    (body : caller.stage.body? = some (run, step, info)) :
    let error := RunError.stepPanicked info.label payload.message
    let between : Ensemble κ ν ε :=
      ⟨s.world, first ++ ⟨⟨caller.stage, .panic payload⟩, callers⟩ :: rest⟩
    ∃ after : Ensemble κ ν ε, Next behaviour s between ∧ Next behaviour between after ∧
      after.world.queue other = s.world.queue other ∧
      after.world.log other = s.world.log other ∧
      s.world.log run.queue ++ [.settled run.queue info (s.world.agenda run.queue).found.size
        (.error error), .withdrawn run.queue (s.world.agenda run.queue).pending] <+:
          after.world.log run.queue ∧
      ∀ result u v, Reaches behaviour after u → Returns behaviour run.queue result u v →
        result = .error error := by
  intro error between
  obtain ⟨world, tasks⟩ := s
  subst tasks
  obtain ⟨point, here⟩ := reached.somewhere other
  have apart : other ≠ run.queue := by
    rintro rfl
    obtain ⟨-, -, -, among, -⟩ := atOwn here own
    have mine : caller.stage ∈ ownStages run.queue
        ((caller :: callers).map Caller.stage) := by
      simp [ownStages, Stage.queueOfBody body]
    rw [among] at mine
    cases mine
  have unwound : Next behaviour _ _ :=
    .advance world first ⟨⟨stage, .panic payload⟩, caller :: callers⟩ rest
  rw [Task.on, recorderPanics world payload _ recorder, List.append_assoc] at unwound
  have caught : Next behaviour between _ :=
    .advance world first ⟨⟨caller.stage, .panic payload⟩, callers⟩ rest
  have settled : (Machine.mk world ⟨caller.stage, .panic payload⟩ callers).advance behaviour =
      Machine.resume callers (Scheduler.settle behaviour world run step info (.error error)) :=
    (Machine.advanceEnding behaviour world caller.stage (.panicked payload) callers).trans
      (congrArg _ (Scheduler.bodyPanics behaviour world body payload))
  rw [Task.on, settled, Machine.worldOfResume] at caught
  obtain ⟨elsewhere, log⟩ := Scheduler.settleFails behaviour world run step info error
  refine ⟨_, unwound, caught, elsewhere.others apart, elsewhere.log other apart, log, ?_⟩
  intro result u v later returns
  have arrived := (reached.next unwound).next caught
  have present : .settled run.queue info (world.agenda run.queue).found.size (.error error) ∈
      v.world.log run.queue :=
    (log.trans (arrived.grows (later.tail returns.next) run.queue)).subset (by simp)
  exact returns.holds (arrived.later later) .refl (keptDoomed _ _) _ _ _ present

/-- Queues do not interfere, whoever appends to them and runs them, from wherever. -/
theorem queuesIndependent (reached : Reachable behaviour s) (queue : QueueId) :
    Independent behaviour s queue := by
  obtain ⟨point, here, whole, once⟩ := reached.holds ((keptWhole queue _).and (keptOnce queue _))
  refine
    { placed := fun r new entry nested step log present => ?_
      ordered := fun unbroken => ?_
      whole := ?_
      apart := fun r step => ?_
      runs := fun other initial callers left outcome apart runs untouched =>
        ⟨Machine.runGrows apart runs untouched, Machine.runsAtop runs callers⟩
      panics := ?_
      once := once.few
      taken := fun stage present own => ?_
      spent := fun taken t path => ?_ }
  · obtain ⟨-, next, -, move⟩ := nextMoves step here rfl
    exact move.places log present
  · rw [World.discoveryOfHistory]
    exact (whole.ordered.order unbroken).preorder
  · rw [World.discoveryOfHistory]
    exact whole.preorder
  · obtain ⟨-, next, there, move⟩ := nextMoves step here rfl
    rcases move.apart with grown | ⟨stage, ending, ends, inside⟩ | ⟨free, value, begun⟩
    · exact .inl grown
    · cases show point = _ from inside
      exact .inr (.inl ⟨stage, ending, ends, (ownFew here).2 stage rfl⟩)
    · cases show point = _ from free
      cases show next = _ from begun
      have mine : .startingRun queue value ∈ ownStages queue r.stages := by simp [there.1]
      exact .inr (.inr ⟨here.2, value, List.mem_of_mem_filter mine⟩)
  · rintro first rest stage payload caller callers other run step info tasks recorder own body rfl
    obtain ⟨after, unwound, caught, same⟩ := stepPanics reached tasks recorder own body
    exact ⟨after, unwound, caught, same⟩
  · cases atStage here present own
    exact here.2
  · have stays := takenStays path here taken
    exact ⟨stays, fun stage initial next callers => if_pos stays⟩

def entangled : Behaviour Nat Nat Unit where
  neutral := 0
  body code queue value :=
    .append queue { kind := .value, code } (.run (queue + 1) none fun _ => .done value)
  call _ _ value := .done (.done value)
  watch _ _ _ := .done ()
  recorder queue :=
    { Recorder.silent with
      startRun := fun _ => if queue = 1 then .panic (.text "full") else .done 0 }

def entangling : Ensemble Nat Nat Unit :=
  lone entangled "outer" [{ kind := .value, code := 0 }, { kind := .observer, code := 0 }] 4

theorem queuesIndependentEntangled :
    Reachable entangled entangling ∧ Independent entangled entangling 0 ∧
    Independent entangled entangling 1 ∧
    ∃ after, (∃ between, Next entangled entangling between ∧ Next entangled between after) ∧
      after.world.queue 1 = entangling.world.queue 1 ∧
      .settled 0 ⟨"value step #0", "value", 0, 0⟩ 1
        (.error (.stepPanicked "value step #0" "full")) ∈ after.world.log 0 := by
  have reached : Reachable entangled entangling := loneReachable _ _ _ _
  have outer := queuesIndependent reached 0
  refine ⟨reached, outer, queuesIndependent reached 1, ?_⟩
  obtain ⟨after, unwound, caught, same, -, log, -⟩ :=
    outer.panics [] [] (.startingRun 1 0) (.text "full") _ [] 1 ⟨0, 0, 0⟩ 0
      ⟨"value step #0", "value", 0, 0⟩ rfl rfl rfl rfl rfl
  exact ⟨after, ⟨_, unwound, caught⟩, same, log.subset (by simp [Payload.message]; exact .inr rfl)⟩

end Ensemble

end Sequencer
