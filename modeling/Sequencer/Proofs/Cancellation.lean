import Sequencer.Proofs.Growth
import Sequencer.Proofs.Polling
import Sequencer.Proofs.Window

/-! Runs that are broken off. A task that is dropped takes every run on its stack with it, and a
recorder that panics takes its own. Nothing is done for such a run any more: every queue stays as it
was at that moment, with its mark, and appends go where that mark sends them. A run that is given up
after some polls has come as far as the same run at that suspension, and no further. -/
namespace Sequencer
open Standing

namespace Ensemble

/- A run is broken off at a stage: its code is dropped, with all that waits for it, or it is a
callback of the recorder and panics. -/
inductive Breaks (behaviour : Behaviour κ ν ε) (stage : Stage κ ν) :
    Ensemble κ ν ε → Ensemble κ ν ε → Prop where
  | dropped (world first task rest) (within : stage ∈ task.stages) :
      Breaks behaviour stage ⟨world, first ++ task :: rest⟩ ⟨world, first ++ rest⟩
  | panicked (world first payload callers rest) (recorder : stage.recorder = true) :
      Breaks behaviour stage ⟨world, first ++ ⟨⟨stage, .panic payload⟩, callers⟩ :: rest⟩
        ⟨((Machine.mk world ⟨stage, .panic payload⟩ callers).advance behaviour).world,
          first ++ ((Machine.mk world ⟨stage, .panic payload⟩ callers).advance behaviour).tasks ++
            rest⟩

variable {behaviour : Behaviour κ ν ε} {queue : QueueId} {stage : Stage κ ν}
  {s r t : Ensemble κ ν ε}

theorem Breaks.next (breaks : Breaks behaviour stage s r) : Next behaviour s r := by
  cases breaks with
  | dropped world first task rest within => exact .drop world first task rest
  | panicked world first payload callers rest recorder =>
    exact .advance world first ⟨⟨stage, .panic payload⟩, callers⟩ rest

theorem recorderPanics (world : World κ ν ε) (payload : Payload) (callers : List (Caller κ ν ε))
    (recorder : stage.recorder = true) :
    (Machine.mk world ⟨stage, .panic payload⟩ callers).advance behaviour =
      Machine.resume callers (world, .unwound payload) := by
  cases stage <;> first | rfl | cases recorder

theorem Breaks.world (breaks : Breaks behaviour stage s r) : r.world = s.world := by
  cases breaks with
  | dropped world first task rest within => rfl
  | panicked world first payload callers rest recorder =>
    dsimp only
    rw [recorderPanics world payload callers recorder, Machine.worldOfResume]

theorem Breaks.within (breaks : Breaks behaviour stage s r) : stage ∈ s.stages := by
  cases breaks with
  | dropped world first task rest within =>
    simp only [stages, List.mem_flatMap]
    exact ⟨task, by simp, within⟩
  | panicked world first payload callers rest recorder => simp [stages, Task.stages]

theorem Breaks.left (breaks : Breaks behaviour stage s r) (own : stage.queue? = some queue)
    (here : s.At queue (.inside stage)) : ownStages queue r.stages = [] := by
  cases breaks with
  | dropped world first task rest within =>
    have mine : stage ∈ ownStages queue task.stages := by simp [ownStages, within, own]
    have only := here.1
    simp only [stages, List.flatMap_append, List.flatMap_cons, ownAppend] at only ⊢
    rw [List.append_eq_singleton_iff] at only
    rcases only with ⟨before, both⟩ | ⟨-, both⟩
    · rw [List.append_eq_singleton_iff] at both
      rcases both with ⟨none, -⟩ | ⟨-, behind⟩
      · rw [none] at mine
        cases mine
      · rw [before, behind, List.append_nil]
    · rw [(List.append_eq_nil_iff.mp both).1] at mine
      cases mine
  | panicked world first payload callers rest recorder =>
    obtain ⟨-, -, before, among, behind⟩ := atOwn here own
    have stages := stagesAfter queue world first rest callers (.unwound payload)
    dsimp only at among
    rw [before, among, behind] at stages
    rw [recorderPanics world payload callers recorder]
    exact List.sublist_nil.mp stages

theorem Breaks.past (breaks : Breaks behaviour stage s r) (own : stage.queue? = some queue)
    (here : s.At queue (.inside stage)) : r.At queue (.finished none) :=
  ⟨breaks.left own here, breaks.world ▸ here.2⟩

/- What breaking off leaves behind: everything as it was, what the run would have come to only later
on, and the queue with its mark for those who append. -/
structure Frozen (behaviour : Behaviour κ ν ε) (queue : QueueId) (stage : Stage κ ν)
    (s r : Ensemble κ ν ε) : Prop where
  world : r.world = s.world
  earlier : ∀ u, Reaches behaviour s u → r.world.Since u.world
  vacant : ∀ t, Reaches behaviour r t → ownStages queue t.stages = []
  grows : ∀ t, Reaches behaviour r t → s.world.Grows queue t.world
  deeds : ∀ t, Reaches behaviour r t → (t.world.log queue).deeds = (s.world.log queue).deeds
  within : ∀ t, Reaches behaviour r t → t.world.Within queue (stage.window.map Prod.snd)

theorem Breaks.freezes (breaks : Breaks behaviour stage s r) (reached : Reachable behaviour s)
    (own : stage.queue? = some queue) : Frozen behaviour queue stage s r := by
  obtain ⟨point, here, depths, ticketed⟩ :=
    reached.holds ((keptDepths queue _).and (keptTicketed queue _))
  cases atStage here breaks.within own
  have grown (t : Ensemble κ ν ε) (later : Reaches behaviour r t) : s.world.Grows queue t.world :=
    breaks.world ▸ (overStays later (breaks.past own here) rfl).2.1
  refine ⟨breaks.world, fun u later => breaks.world ▸ reachesSince later,
    fun t later => (overStays later (breaks.past own here) rfl).1.1, grown,
    fun t later => (grown t later).deeds, fun t later => ?_⟩
  obtain ⟨-, last, -, still, counted⟩ := reachesHold (.head breaks.next later)
    ((keptDepths queue _).and (keptTicketed queue _)) rfl here ⟨depths, ticketed⟩
  refine Ensemble.within still counted ?_
  rw [(grown t later).active, Option.map_map]
  exact Eq.trans depths.marked.mark stage.markOfWindow

end Ensemble

theorem Machine.pollAwaits (behaviour : Behaviour κ ν ε) {fuel : Nat} {machine next : Machine κ ν ε}
    (poll : machine.poll behaviour fuel = .suspended next) : next.awaits = true := by
  induction fuel generalizing machine with
  | zero => cases poll
  | succ fuel ih =>
    rw [Machine.poll] at poll
    split at poll
    · exact ih poll
    · obtain ⟨world, ⟨stage, code⟩, callers⟩ := machine
      have pausing : Machine.pauses _ = true := Machine.advancePauses poll
      rw [Machine.pauses, Bool.and_eq_true] at pausing
      cases code with
      | suspend after =>
        dsimp only [Machine.advance] at poll
        rw [if_pos pausing.1] at poll
        cases poll
        exact pausing.1
      | _ => cases pausing.2

namespace Session
open Ensemble Script

variable (setup : Setup) (fuel : Nat) (queue : QueueId) (between : List (Nat × List Action))

inductive Held (start : Machine Spec Datum Note) : Nat → Machine Spec Datum Note → Prop where
  | start : Held start 0 start
  | again (polls machine next) (before : Held start polls machine)
      (poll : machine.poll setup.behaviour fuel = .suspended next) :
      Held start (polls + 1) { next with
        world := interject setup fuel queue ((between.lookup (polls + 1)).getD []) next.world }

section Held

variable {setup fuel queue between} {start machine : Machine Spec Datum Note} {polls : Nat}

theorem Held.reaches (held : Held setup fuel queue between start polls machine) :
    Reaches setup.behaviour ⟨start.world, [start.task]⟩ ⟨machine.world, [machine.task]⟩ := by
  induction held with
  | start => exact .refl
  | again polls machine next before poll ih =>
    have polled : Reaches setup.behaviour _ _ := pollReaches fuel machine []
    rw [poll] at polled
    exact ih.trans (polled.trans (interjectReaches setup fuel queue _ next.world [next.task]))

theorem Held.awaits (held : Held setup fuel queue between start polls machine)
    (begun : 0 < polls) : machine.awaits = true := by
  cases held with
  | start => cases begun
  | again polls machine next before poll =>
    have waits : next.awaits = true := Machine.pollAwaits setup.behaviour poll
    exact waits

theorem Held.drive (held : Held setup fuel queue between start polls machine) {limit : Option Nat}
    (later : ∀ last ∈ limit, polls < last) (rounds : Nat) :
    drive setup fuel queue ⟨limit, between⟩ (polls + rounds) 0 start =
      drive setup fuel queue ⟨limit, between⟩ rounds polls machine := by
  induction held generalizing rounds with
  | start => rw [Nat.zero_add]
  | again polls machine next before poll ih =>
    have further := ih (fun last given => Nat.lt_of_succ_lt (later last given)) (rounds + 1)
    rw [Nat.add_right_comm, Nat.add_assoc]
    refine further.trans ?_
    rw [Session.drive, poll]
    refine if_neg fun same => ?_
    exact Nat.lt_irrefl _ (later _ (Option.mem_def.mpr same))

theorem Held.cancelled (held : Held setup fuel queue between start polls machine) {n total : Nat}
    {rounds : Nat} {left : Session}
    (driven : Session.drive setup fuel queue ⟨some n, between⟩ rounds polls machine =
      (left, .cancelled, total)) :
    total = n ∧ ∃ last, Held setup fuel queue between start n last ∧ last.world = left ∧
      polls < n ∧ n ≤ polls + rounds := by
  induction rounds generalizing polls machine with
  | zero => cases driven
  | succ rounds ih =>
    rw [Session.drive] at driven
    split at driven
    · cases driven
    · cases driven
    · next next poll =>
      have again := held.again polls machine next poll
      dsimp only at driven
      split at driven
      · next same =>
        cases Option.some.inj same
        cases driven
        exact ⟨rfl, _, again, rfl, Nat.lt_succ_self _, by omega⟩
      · obtain ⟨counted, last, there, world, after, few⟩ := ih again driven
        exact ⟨counted, last, there, world, by omega, by omega⟩

end Held

theorem performRan {session left : Session} {initial : Option Datum} {polling : Polling}
    {closing : Closing} {polls : Nat}
    (ran : perform setup fuel session (.run queue initial polling) = (left, .ran closing polls)) :
    (session.queue queue).taken = false ∧ ∀ other : Polling,
      perform setup fuel session (.run queue initial other) =
        run setup fuel (session.take queue) queue initial other := by
  unfold perform at ran ⊢
  dsimp only at ran ⊢
  split at ran
  · cases ran
  · next untaken =>
    refine ⟨Bool.eq_false_iff.mpr untaken, fun other => ?_⟩
    rw [if_neg untaken]
    split at ran
    · cases ran
    · rfl

theorem runDriven {session : Session} {initial : Option Datum} {polling : Polling}
    (polled : polling.limit ≠ some 0) :
    let driven := drive setup fuel queue polling fuel 0
      (Machine.start setup.behaviour session [] queue initial)
    run setup fuel session queue initial polling = (driven.1, .ran driven.2.1 driven.2.2) :=
  if_neg polled

theorem cancelledHeld {session left : Session} {initial : Option Datum} {n polls : Nat}
    (cancelled : perform setup fuel session (.run queue initial ⟨some n, between⟩) =
      (left, .ran .cancelled polls)) :
    polls = n ∧ (n = 0 → left = session.take queue) ∧
    (0 < n → ∃ held : Machine Spec Datum Note, held.world = left ∧ held.awaits = true ∧
      Reaches setup.behaviour ⟨session, []⟩ ⟨left, [held.task]⟩ ∧
      ∀ limit : Option Nat, (∀ last ∈ limit, n < last) → ∃ rounds,
        let driven := drive setup fuel queue ⟨limit, between⟩ rounds n held
        left.Since driven.1 ∧
        perform setup fuel session (.run queue initial ⟨limit, between⟩) =
          (driven.1, .ran driven.2.1 driven.2.2)) := by
  obtain ⟨untaken, performs⟩ := performRan setup fuel queue cancelled
  rw [performs] at cancelled
  cases n with
  | zero =>
    cases cancelled
    exact ⟨rfl, fun _ => rfl, nofun⟩
  | succ n =>
    rw [runDriven setup fuel queue (by simp)] at cancelled
    have driven : drive setup fuel queue ⟨some (n + 1), between⟩ fuel 0
        (Machine.start setup.behaviour (session.take queue) [] queue initial) =
        (left, .cancelled, polls) := by
      simp only [Prod.mk.injEq, Reply.ran.injEq] at cancelled
      exact Prod.ext cancelled.1 (Prod.ext cancelled.2.1 cancelled.2.2)
    obtain ⟨counted, held, there, world, -, few⟩ := Held.start.cancelled driven
    refine ⟨counted, nofun, fun _ =>
      ⟨held, world, there.awaits n.succ_pos, ?_, fun limit later => ⟨fuel - (n + 1), ?_⟩⟩⟩
    · have begun : Next setup.behaviour _ _ := .run session [] queue initial untaken
      exact world ▸ .head begun there.reaches
    · have goesOn := there.drive later (fuel - (n + 1))
      rw [Nat.add_sub_cancel' (Nat.zero_add fuel ▸ few)] at goesOn
      have polled : limit ≠ some 0 := fun none => Nat.not_lt_zero _ (later 0 none)
      rw [performs, runDriven setup fuel queue polled, goesOn]
      exact ⟨world ▸ reachesSince (driveReaches setup fuel queue _ _ _ held), rfl⟩

end Session

namespace Ensemble
open Session Script

/-- A run that is broken off, by cancellation or by its recorder, is frozen where it stands. A run
that is cancelled after some polls stands where it would be at that suspension. -/
theorem brokenOffFreezes :
    (∀ {κ ν ε : Type} (behaviour : Behaviour κ ν ε) (s r : Ensemble κ ν ε) (queue : QueueId)
      (stage : Stage κ ν), Reachable behaviour s → stage.queue? = some queue →
      Breaks behaviour stage s r → Frozen behaviour queue stage s r) ∧
    ∀ (setup : Setup) (fuel : Nat) (session left : Session) (queue : QueueId)
      (initial : Option Datum) (between : List (Nat × List Action)) (n polls : Nat),
      Reachable setup.behaviour ⟨session, []⟩ →
      perform setup fuel session (.run queue initial ⟨some n, between⟩) =
        (left, .ran .cancelled polls) →
      polls = n ∧ (n = 0 → left = session.take queue) ∧
      (0 < n → ∃ held : Machine Spec Datum Note, held.world = left ∧ held.awaits = true ∧
        (∀ stage ∈ held.task.stages, ∀ id, stage.queue? = some id →
          Frozen setup.behaviour id stage ⟨left, [held.task]⟩ ⟨left, []⟩) ∧
        ∀ limit : Option Nat, (∀ last ∈ limit, n < last) → ∃ rounds,
          let driven := drive setup fuel queue ⟨limit, between⟩ rounds n held
          left.Since driven.1 ∧
          perform setup fuel session (.run queue initial ⟨limit, between⟩) =
            (driven.1, .ran driven.2.1 driven.2.2)) := by
  refine ⟨fun behaviour s r queue stage reached own breaks => breaks.freezes reached own,
    fun setup fuel session left queue initial between n polls reached cancelled => ?_⟩
  obtain ⟨counted, unpolled, polled⟩ := cancelledHeld setup fuel queue between cancelled
  refine ⟨counted, unpolled, fun begun => ?_⟩
  obtain ⟨held, world, awaits, path, goesOn⟩ := polled begun
  refine ⟨held, world, awaits, fun stage within id own => ?_, goesOn⟩
  exact (Breaks.dropped left [] held.task [] within).freezes (reached.later path) own

def bursting : Behaviour Nat Nat Unit :=
  .countdown (.done 7) { Recorder.silent with completeStep := fun _ _ _ => .panic (.text "full") }

def burst : Ensemble Nat Nat Unit :=
  lone bursting "counting" [{ kind := .value, code := 1 }, { kind := .observer, code := 0 }] 4

theorem burstBreaks : ∃ stage r, stage.queue? = some 0 ∧ stage.window = none ∧
    Breaks bursting stage burst r :=
  ⟨.completingStep ⟨0, 0, 1⟩ ⟨"value step #0", "value", 0, 0⟩ (.completed 1), _, rfl, rfl,
    .panicked burst.world [] (.text "full") [] [] rfl⟩

def pausing : Setup := { shape := .int, queues := [("q", none)] }

def paused : Session :=
  (perform pausing 10 pausing.start
    (.push 0 [.mk .future (.number 1) true 1 [] none none [.yield 2] []] false)).1

theorem brokenOffFreezesEach :
    Reachable bursting burst ∧
    (∃ stage r, stage.queue? = some 0 ∧ stage.window = none ∧ Breaks bursting stage burst r ∧
      Frozen bursting 0 stage burst r) ∧
    Reachable (.countdown (.done 7) .silent) nested ∧
    (∃ stage r, stage.queue? = some 0 ∧
      stage.window = some (⟨0, 0, 1⟩, ⟨"value step #1", "value", 1, 1⟩) ∧
      Breaks (.countdown (.done 7) .silent) stage nested r ∧
      Frozen (.countdown (.done 7) .silent) 0 stage nested r) ∧
    Reachable pausing.behaviour ⟨paused, []⟩ ∧
    ∃ left, perform pausing 10 paused (.run 0 none ⟨some 1, []⟩) = (left, .ran .cancelled 1) ∧
      ∃ held : Machine Spec Datum Note, held.world = left ∧ held.awaits = true ∧
        ∀ stage ∈ held.task.stages, ∀ id, stage.queue? = some id →
          Frozen pausing.behaviour id stage ⟨left, [held.task]⟩ ⟨left, []⟩ := by
  have freezes := brokenOffFreezes
  have burstReached : Reachable bursting burst := loneReachable _ _ _ _
  have nestedReached : Reachable (.countdown (.done 7) .silent) nested := loneReachable _ _ _ _
  have reached : Reachable pausing.behaviour ⟨paused, []⟩ := sessionReachable pausing 10 [_]
  refine ⟨burstReached, ?_, nestedReached, ?_, reached, _, rfl, ?_⟩
  · obtain ⟨stage, r, own, window, breaks⟩ := burstBreaks
    exact ⟨stage, r, own, window, breaks, freezes.1 _ burst r 0 stage burstReached own breaks⟩
  · have dropped : Breaks (.countdown (.done 7) .silent) _ nested _ :=
      .dropped nested.world [] _ [] (.head _)
    exact ⟨_, _, rfl, rfl, dropped, freezes.1 _ nested _ 0 _ nestedReached rfl dropped⟩
  · obtain ⟨-, -, polled⟩ := freezes.2 pausing 10 paused _ 0 none [] 1 1 reached rfl
    obtain ⟨held, world, awaits, frozen, -⟩ := polled Nat.one_pos
    exact ⟨held, world, awaits, frozen⟩

end Ensemble

end Sequencer
