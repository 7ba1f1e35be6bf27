import Sequencer.Proofs.Reached
import Sequencer.Proofs.Order

/-! How deep the waiting steps are. A discovery is one deeper than the step that found it and moves
to the head when that step settles, so the depths of the pipeline never rise from its head to its
tail. No depth reaches the number of steps that were appended, so none wraps around before there
are UInt32.size of them. The next step is looked for only while none is active. -/
namespace Sequencer
open Standing

namespace Agenda

structure Graded (agenda : Agenda κ) : Prop where
  shallow : ∀ entry ∈ agenda.pending, entry.depth.toNat < agenda.arrivals
  active : ∀ active, agenda.active = some active → active.depth.toNat < agenda.arrivals
  deeper : ∀ active, agenda.active = some active → ∀ entry ∈ agenda.buffer,
    entry.depth.toNat = active.depth.toNat + 1
  bounded : ∀ active, agenda.active = some active → ∀ entry ∈ agenda.pipeline,
    entry.depth.toNat ≤ active.depth.toNat
  descending : agenda.pipeline.Pairwise fun first later => later.depth.toNat ≤ first.depth.toNat

namespace Graded

variable {agenda : Agenda κ}

theorem pending (graded : agenda.Graded) (idle : agenda.active = none → agenda.buffer = []) :
    agenda.pending.Pairwise fun first later => later.depth.toNat ≤ first.depth.toNat := by
  rw [Agenda.pending, List.pairwise_append]
  cases mark : agenda.active with
  | none =>
    rw [idle mark]
    exact ⟨.nil, graded.descending, fun _ absent => by cases absent⟩
  | some active =>
    have deeper := graded.deeper active mark
    have bounded := graded.bounded active mark
    refine ⟨?_, graded.descending, fun first buffered later waiting => ?_⟩
    · refine List.pairwise_iff_forall_sublist.mpr fun {first later} both => ?_
      exact Nat.le_of_eq <| (deeper later (both.subset (by simp))).trans
        (deeper first (both.subset (by simp))).symm
    · rw [deeper first buffered]
      exact Nat.le_succ_of_le (bounded later waiting)

theorem appendIdle (graded : agenda.Graded) (idle : agenda.active = none) (step : Step κ) :
    (agenda.append step).Graded := by
  obtain ⟨pipeline, buffer⟩ := Agenda.appendIdle idle step
  have still := (agenda.activeAfterAppend step).trans idle
  have more : (agenda.append step).arrivals = agenda.arrivals + 1 := agenda.arrivalsAfterAppend step
  have root : (agenda.entry step).depth.toNat = 0 := by simp [entry, depth, idle]
  refine ⟨fun entry waits => ?_, fun _ busy => ?_, fun _ busy => ?_, fun _ busy => ?_, ?_⟩
  · rw [Agenda.pending, pipeline, buffer, ← List.append_assoc, List.mem_append,
      List.mem_singleton] at waits
    rw [more]
    rcases waits with old | rfl
    · exact Nat.lt_succ_of_lt (graded.shallow entry old)
    · rw [root]
      exact Nat.succ_pos _
  · cases still.symm.trans busy
  · cases still.symm.trans busy
  · cases still.symm.trans busy
  · rw [pipeline, List.pairwise_append]
    refine ⟨graded.descending, List.pairwise_singleton _ _, fun first _ later last => ?_⟩
    rw [List.mem_singleton.mp last, root]
    exact Nat.zero_le _

theorem appendActive (graded : agenda.Graded) {active : Active}
    (busy : agenda.active = some active) (few : agenda.arrivals < UInt32.size) (step : Step κ) :
    (agenda.append step).Graded := by
  obtain ⟨pipeline, buffer⟩ := Agenda.appendActive busy step
  have still := (agenda.activeAfterAppend step).trans busy
  have more : (agenda.append step).arrivals = agenda.arrivals + 1 := agenda.arrivalsAfterAppend step
  have within := graded.active active busy
  have found : (agenda.entry step).depth.toNat = active.depth.toNat + 1 := by
    simp only [entry, depth, busy, UInt32.toNat_add, UInt32.toNat_one]
    exact Nat.mod_eq_of_lt (Nat.lt_of_le_of_lt within few)
  refine ⟨fun entry waits => ?_, fun mark same => ?_, fun mark same entry waits => ?_,
    fun mark same entry waits => ?_, ?_⟩
  · rw [Agenda.pending, pipeline, buffer, List.mem_append, List.mem_append,
      List.mem_singleton] at waits
    rw [more]
    rcases waits with (old | rfl) | old
    · exact Nat.lt_succ_of_lt (graded.shallow entry (List.mem_append_left _ old))
    · omega
    · exact Nat.lt_succ_of_lt (graded.shallow entry (List.mem_append_right _ old))
  · cases still.symm.trans same
    omega
  · cases still.symm.trans same
    rw [buffer, List.mem_append, List.mem_singleton] at waits
    rcases waits with old | rfl
    · exact graded.deeper active busy entry old
    · exact found
  · cases still.symm.trans same
    rw [pipeline] at waits
    exact graded.bounded active busy entry waits
  · rw [pipeline]
    exact graded.descending

theorem append (graded : agenda.Graded) (few : agenda.arrivals < UInt32.size) (step : Step κ) :
    (agenda.append step).Graded := by
  cases mark : agenda.active with
  | none => exact graded.appendIdle mark step
  | some active => exact graded.appendActive mark few step

theorem activate (graded : agenda.Graded) (idle : agenda.buffer = []) {index : UInt32}
    {entry : Entry κ} {next : Agenda κ} (taken : agenda.activate index = some (entry, next)) :
    next.Graded := by
  obtain ⟨pipeline, buffer, marked, arrivals⟩ := Agenda.activateSome taken
  have none : next.buffer = [] := buffer.trans idle
  have whole : agenda.pending = entry :: next.pending := by
    rw [Agenda.pending, Agenda.pending, idle, none, pipeline, List.nil_append, List.nil_append]
  have sorted := graded.descending
  rw [pipeline, List.pairwise_cons] at sorted
  refine ⟨fun other waits => ?_, fun mark same => ?_, fun _ _ other found => ?_,
    fun mark same other waits => ?_, sorted.2⟩
  · rw [arrivals]
    exact graded.shallow other (whole ▸ List.mem_cons_of_mem _ waits)
  · cases marked.symm.trans same
    rw [arrivals]
    exact graded.shallow entry (whole ▸ List.mem_cons_self)
  · rw [none] at found
    cases found
  · cases marked.symm.trans same
    exact sorted.1 other waits

theorem settle (graded : agenda.Graded) (idle : agenda.active = none → agenda.buffer = []) :
    agenda.settle.Graded := by
  obtain ⟨pipeline, buffer⟩ := agenda.settled
  have same : agenda.settle.pending = agenda.pending := by
    rw [Agenda.pending, pipeline, buffer, List.nil_append]
  refine ⟨?_, fun _ busy => ?_, fun _ busy => ?_, fun _ busy => ?_, ?_⟩
  · rw [same]
    exact graded.shallow
  · cases busy
  · cases busy
  · cases busy
  · rw [pipeline]
    exact graded.pending idle

end Graded

theorem depthsOfSnapshot (agenda : Agenda κ) (name : String) :
    (agenda.snapshot name).pending.map PendingStep.depth = agenda.pending.map Entry.depth := by
  rw [snapshot, List.map_map]
  change agenda.pending.zipIdx.map (Entry.depth ∘ Prod.fst) = _
  rw [← List.map_map, List.zipIdx_map_fst]

theorem gradedEmpty {agenda : Agenda κ} (pipeline : agenda.pipeline = [])
    (buffer : agenda.buffer = []) (idle : agenda.active = none) : agenda.Graded := by
  refine ⟨?_, ?_, ?_, ?_, ?_⟩ <;> simp [pending, pipeline, buffer, idle]

end Agenda

def Event.seeks : Event κ ν ε → Bool
  | .activated _ _ _ | .asked _ (.completeRun _ (.completed _)) => true
  | _ => false

inductive Scheduler.Proceeds (world : World κ ν ε) : (stage : Stage κ ν) →
    Ending (stage.Answer ε) → World κ ν ε → Run → ν → Prop where
  | admitted (queue value id) : Proceeds world (.startingRun queue value) (.returned id)
      (world.record (.started queue id (world.agenda queue).len)) ⟨queue, id, 0⟩ value
  | completed (run info value) : Proceeds world (.completingStep run info (.completed value))
      (.returned ()) world run value
  | unrecorded (run info value failure) :
      Proceeds world (.completingStep run info (.completed value)) (.failed failure)
        (world.record (.stepUnrecorded run.queue info failure)) run value

theorem Scheduler.Proceeds.concludes (behaviour : Behaviour κ ν ε) {world next : World κ ν ε}
    {stage : Stage κ ν} {ending : Ending (stage.Answer ε)} {run : Run} {value : ν}
    (proceeds : Proceeds world stage ending next run value) :
    conclude behaviour world stage ending = proceed behaviour next run value := by
  cases proceeds <;> rfl

theorem Scheduler.Proceeds.agenda {world next : World κ ν ε} {stage : Stage κ ν}
    {ending : Ending (stage.Answer ε)} {run : Run} {value : ν}
    (proceeds : Proceeds world stage ending next run value) (queue : QueueId) :
    next.agenda queue = world.agenda queue := by
  cases proceeds <;> rfl

namespace Standing

variable {queue : QueueId} {name : String}

structure Depths (a : Standing κ ν ε) : Prop where
  marked : a.Marked
  graded : a.agenda.arrivals < UInt32.size → a.agenda.Graded

variable (queue name) in
theorem keptDepths : Kept queue name (@Depths κ ν ε) where
  start := ⟨(keptMarked queue name).start, fun _ => Agenda.gradedEmpty rfl rfl rfl⟩
  given act holds := by
    refine ⟨(keptMarked queue name).given act holds.marked, fun few => ?_⟩
    cases act with
    | append agenda log point step =>
      have fewer : agenda.arrivals + 1 < UInt32.size := (agenda.arrivalsAfterAppend step).symm ▸ few
      have few := Nat.lt_of_succ_lt fewer
      exact (holds.graded few).append few step
    | _ => exact holds.graded few
  reply act holds := by
    refine ⟨(keptMarked queue name).reply act holds.marked, fun few => ?_⟩
    rw [act.arrivals.2] at few
    cases act with
    | settle agenda log stage ending run step info value settles =>
      exact (holds.graded few).settle holds.marked.idle
    | fail agenda log stage ending run step info error settles =>
      exact Agenda.gradedEmpty rfl rfl rfl
    | refuse agenda log run value entry info failure => exact Agenda.gradedEmpty rfl rfl rfl
    | _ => exact holds.graded few
  follow act holds := by
    refine ⟨(keptMarked queue name).follow act holds.marked, fun few => ?_⟩
    rw [act.arrivals.2] at few
    cases act with
    | activate agenda log run value entry next taken =>
      exact (holds.graded few).activate (holds.marked.idle holds.marked.mark) taken
    | _ => exact holds.graded few

theorem Given.unseeking {a b : Standing κ ν ε} (act : Given queue name a b) :
    ∃ new, b.log = a.log ++ new ∧ ∀ event ∈ new, event.seeks = false := by
  cases act with
  | append agenda log point step => exact ⟨_, rfl, by simp [Event.seeks]⟩
  | begin agenda log value => exact ⟨_, rfl, by simp [Event.seeks]⟩
  | _ => exact ⟨[], (List.append_nil _).symm, by simp⟩

theorem Response.unseeking {stage : Stage κ ν} {ending : Ending (stage.Answer ε)}
    {a b : Standing κ ν ε} (act : Response queue stage ending a b) :
    ∃ new, b.log = a.log ++ new ∧ ∀ event ∈ new, event.seeks = false := by
  cases act with
  | goOn agenda log run info value ending heard =>
    exact ⟨_, rfl, by cases ending <;> simp [Ending.complaint?, Event.seeks]⟩
  | giveUp agenda log run info error dropped ending heard =>
    exact ⟨_, List.append_assoc _ _ _, by
      cases ending <;> simp [Ending.complaint?, Event.seeks]⟩
  | finish agenda log run verdict ending heard =>
    exact ⟨_, List.append_assoc _ _ _, by
      cases ending <;> cases verdict <;> simp [Ending.complaint?, Verdict.event, Event.seeks]⟩
  | reject | call | told => exact ⟨[], (List.append_nil _).symm, by simp⟩
  | _ => exact ⟨_, rfl, by simp [Event.seeks]⟩

theorem Follow.unseeking {a b : Standing κ ν ε} (act : Follow queue a b)
    (settled : ∀ run value, a.point ≠ .proceeding run value) :
    (∀ run value, b.point ≠ .proceeding run value) ∧
      ∃ new, b.log = a.log ++ new ∧ ∀ event ∈ new, event.seeks = false := by
  cases act with
  | drained agenda log run value ended => exact absurd rfl (settled run value)
  | activate agenda log run value entry next taken => exact absurd rfl (settled run value)
  | pass agenda log run delivery entry rest index dropped other =>
    exact ⟨by simp, [], (List.append_nil _).symm, by simp⟩
  | _ => exact ⟨by simp, _, rfl, by simp [Event.seeks]⟩

theorem followsUnseeking {a b : Standing κ ν ε} (path : Follows queue a b)
    (settled : ∀ run value, a.point ≠ .proceeding run value) :
    (∀ run value, b.point ≠ .proceeding run value) ∧
      ∃ new, b.log = a.log ++ new ∧ ∀ event ∈ new, event.seeks = false := by
  induction path with
  | refl => exact ⟨settled, [], (List.append_nil _).symm, by simp⟩
  | tail _ act ih =>
    obtain ⟨settled, new, log, silent⟩ := ih
    obtain ⟨still, more, grown, quiet⟩ := act.unseeking settled
    refine ⟨still, new ++ more, by rw [grown, log, List.append_assoc], fun event present => ?_⟩
    exact (List.mem_append.mp present).elim (silent event) (quiet event)

end Standing

namespace Ensemble

variable {behaviour : Behaviour κ ν ε} {queue : QueueId} {name : String} {s : Ensemble κ ν ε}

theorem Move.seeks {a b : Standing κ ν ε} (move : Move queue name s a b)
    {new : Log κ ν ε} (log : b.log = a.log ++ new) {event : Event κ ν ε} (present : event ∈ new)
    (seeks : event.seeks = true) :
    ∃ stage ending next run value, s.Ends stage ending ∧ a.point = .inside stage ∧
      Scheduler.Proceeds s.world stage ending next run value := by
  have quiet (more : Log κ ν ε) (grown : b.log = a.log ++ more)
      (silent : ∀ event ∈ more, event.seeks = false) : False := by
    rw [log, List.append_cancel_left_eq] at grown
    rw [silent event (grown ▸ present)] at seeks
    contradiction
  cases move with
  | still => exact (quiet [] (List.append_nil _).symm (by simp)).elim
  | given act =>
    obtain ⟨more, grown, silent⟩ := act.unseeking
    exact (quiet more grown silent).elim
  | @reply stage ending _ middle _ ends act path =>
    have settled (none : ∀ run value, middle.point ≠ .proceeding run value) : False := by
      obtain ⟨first, answered, mute⟩ := act.unseeking
      obtain ⟨-, more, grown, silent⟩ := followsUnseeking path none
      refine quiet (first ++ more) (by rw [grown, answered, List.append_assoc])
        fun event present => ?_
      exact (List.mem_append.mp present).elim (mute event) (silent event)
    cases act with
    | accept agenda log value id =>
      exact ⟨_, _, _, _, _, ends, rfl, .admitted queue value id⟩
    | goOn agenda log run info value ending heard =>
      cases ending with
      | returned answer => exact ⟨_, _, _, _, _, ends, rfl, .completed run info value⟩
      | failed failure => exact ⟨_, _, _, _, _, ends, rfl, .unrecorded run info value failure⟩
      | panicked payload => exact heard.elim
    | _ => exact (settled (by simp)).elim

theorem ownFew {point : Point κ ν} (here : s.At queue point) :
    (ownStages queue s.stages).length ≤ 1 ∧
      ∀ stage, point = .inside stage → stage.queue? = some queue := by
  cases point with
  | free => exact ⟨by rw [here.1]; simp, by simp⟩
  | finished result => exact ⟨by rw [here.1]; simp, by simp⟩
  | inside stage =>
    refine ⟨by rw [here.1]; simp, ?_⟩
    rintro _ ⟨⟩
    have own : stage ∈ ownStages queue s.stages := by simp [here.1]
    simpa [ownStages] using (List.mem_filter.mp own).2
  | proceeding run value => exact here.elim
  | delivering run delivery rest index dropped => exact here.elim

/-- The depths of the waiting steps never rise, and a step is activated only while none is. -/
theorem depthsDescend (reached : Reachable behaviour s) (queue : QueueId) :
    let agenda := s.world.agenda queue
    (agenda.active = none → agenda.buffer = []) ∧
    ((s.world.log queue).arrivals.length < UInt32.size →
      (∀ active, agenda.active = some active →
        (∀ entry ∈ agenda.buffer, entry.depth.toNat = active.depth.toNat + 1) ∧
        ∀ entry ∈ agenda.pipeline, entry.depth ≤ active.depth) ∧
      agenda.pipeline.Pairwise (fun first later => later.depth ≤ first.depth) ∧
      (s.world.queue queue).snapshot.pending.Pairwise fun first later =>
        later.depth ≤ first.depth) ∧
    (∀ (next : Ensemble κ ν ε) (new : Log κ ν ε), Next behaviour s next →
      next.world.log queue = s.world.log queue ++ new → (∃ event ∈ new, event.seeks = true) →
      ∃ stage ending before run value, s.Ends stage ending ∧ run.queue = queue ∧
        Scheduler.Proceeds s.world stage ending before run value ∧
        (before.agenda queue).active = none) ∧
    (ownStages queue s.stages).length ≤ 1 := by
  intro agenda
  obtain ⟨point, here, ⟨marked, graded⟩, ticketed⟩ :=
    reached.holds ((keptDepths queue _).and (keptTicketed queue _))
  refine ⟨marked.idle, fun few => ?_, fun next new step log ⟨event, present, seeks⟩ => ?_,
    (ownFew here).1⟩
  · have arrived := congrArg List.length ticketed
    rw [List.length_map, List.length_range] at arrived
    have graded : agenda.Graded := graded (arrived ▸ few)
    refine ⟨fun active busy => ⟨graded.deeper active busy, graded.bounded active busy⟩,
      graded.descending, ?_⟩
    rw [← List.pairwise_map (f := PendingStep.depth) (R := fun first later => later ≤ first)]
    rw [Queue.snapshot, Agenda.depthsOfSnapshot, List.pairwise_map]
    exact graded.pending marked.idle
  · obtain ⟨-, there, -, move⟩ := nextMoves step here rfl
    obtain ⟨stage, ending, before, run, value, ends, rfl, proceeds⟩ := move.seeks log present seeks
    have own := (ownFew here).2 stage rfl
    refine ⟨stage, ending, before, run, value, ends, ?_, proceeds, ?_⟩
    · cases proceeds <;> exact Option.some.inj own
    · rw [proceeds.agenda queue]
      have mark := marked.mark
      cases proceeds <;> exact mark

def nested : Ensemble Nat Nat Unit :=
  lone (.countdown (.done 7) .silent) "counting"
    [{ kind := .value, code := 2 }, { kind := .observer, code := 0 }] 7

theorem depthsDescendNested :
    Reachable (.countdown (.done 7) .silent) nested ∧
    (nested.world.log 0).arrivals.length < UInt32.size ∧
    (nested.world.agenda 0).active = some ⟨1, "value step #1", 1⟩ ∧
    (nested.world.agenda 0).pending.map Entry.depth = [2, 0] ∧
    (nested.world.queue 0).snapshot.pending.Pairwise fun first later =>
      later.depth ≤ first.depth := by
  have reached : Reachable (.countdown (.done 7) .silent) nested := loneReachable _ _ _ _
  have few : (nested.world.log 0).arrivals.length < UInt32.size := by decide
  obtain ⟨-, sorted, -⟩ := depthsDescend reached 0
  exact ⟨reached, few, rfl, rfl, (sorted few).2.2⟩

end Ensemble

end Sequencer
