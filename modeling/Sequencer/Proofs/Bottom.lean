import Sequencer.Proofs.ConcertTurns
import Sequencer.Proofs.Subruns

/-! The run at the bottom of a stack. Runs that its code makes come and go above it; only when they
are over does its own stage change. If its recorder is mute, it is never broken off, and it ends
only with a result. -/
namespace Sequencer

variable {κ ν ε β : Type}

inductive Based (base : Stage κ ν → Prop) : List (Stage κ ν) → Prop where
  | last (stage) (lowest : base stage) : Based base [stage]
  | above (stage rest) (inside : stage.queue? ≠ none) (below : Based base rest) :
      Based base (stage :: rest)

namespace Scheduler

variable (behaviour : Behaviour κ ν ε) (world : World κ ν ε) {stage : Stage κ ν}

theorem concludeStays {queue : QueueId} (own : stage.queue? = some queue)
    (ending : Ending (stage.Answer ε)) :
    (conclude behaviour world stage ending).2 ≠ .left ∧
      ∀ frame, (conclude behaviour world stage ending).2 = .enter frame →
        frame.stage.queue? = some queue := by
  have replied : Replies queue world stage ending (conclude behaviour world stage ending) ∨ _ :=
    concludeReplies behaviour stage ending own
  rcases replied with replies | ⟨payload, unwound⟩
  · obtain ⟨middle, act, path⟩ := replies.acts
    have within := replies.within
    refine ⟨fun left => ?_, fun frame entered => ?_⟩
    · rw [left] at path
      have point := congrArg Standing.point (Ensemble.followsOver path rfl)
      cases act <;> cases point
    · rw [entered] at within
      exact within
  · rw [unwound]
    exact ⟨fun left => (nomatch left), fun frame entered => (nomatch entered)⟩

end Scheduler

namespace Machine

variable {behaviour : Behaviour κ ν ε} {base : Stage κ ν → Prop} {callers : List (Caller κ ν ε)}

theorem resumeBased (below : Based base (callers.map Caller.stage))
    (reply : World κ ν ε × Turn κ ν ε) (stays : reply.2 ≠ .left)
    (within : ∀ frame, reply.2 = .enter frame → frame.stage.queue? ≠ none) :
    ∃ next, (resume callers reply).machine? = some next ∧ Based base next.task.stages := by
  obtain ⟨world, turn⟩ := reply
  cases turn with
  | enter frame => exact ⟨_, rfl, .above _ _ (within frame rfl) below⟩
  | left => exact absurd rfl stays
  | returned | unwound =>
    cases callers with
    | nil => cases below
    | cons caller rest => exact ⟨_, rfl, below⟩

theorem concludeBased (world : World κ ν ε) {stage : Stage κ ν}
    (based : Based base (stage :: callers.map Caller.stage)) (ending : Ending (stage.Answer ε)) :
    (∃ next, (resume callers (Scheduler.conclude behaviour world stage ending)).machine? =
        some next ∧ Based base next.task.stages) ∨ callers = [] ∧ base stage := by
  generalize below : callers.map Caller.stage = rest at based
  cases based with
  | last _ lowest => exact .inr ⟨List.map_eq_nil_iff.mp below, lowest⟩
  | above _ _ inside based =>
    obtain ⟨queue, own⟩ := Option.ne_none_iff_exists'.mp inside
    obtain ⟨stays, within⟩ := Scheduler.concludeStays behaviour world own ending
    refine .inl (resumeBased (below ▸ based) _ stays fun frame entered => ?_)
    rw [within frame entered]
    exact Option.some_ne_none queue

variable (behaviour) in
theorem advanceBased (world : World κ ν ε) {stage : Stage κ ν}
    (based : Based base (stage :: callers.map Caller.stage))
    (code : Program κ ν ε (stage.Answer ε)) :
    (∃ next, ((mk world ⟨stage, code⟩ callers).advance behaviour).machine? = some next ∧
        Based base next.task.stages) ∨
      callers = [] ∧ base stage ∧ ∃ ending : Ending (stage.Answer ε), code = ending.code := by
  have concluded (ending : Ending (stage.Answer ε)) (same : code = ending.code) :
      (∃ next, ((mk world ⟨stage, code⟩ callers).advance behaviour).machine? = some next ∧
          Based base next.task.stages) ∨
        callers = [] ∧ base stage ∧ ∃ ending : Ending (stage.Answer ε), code = ending.code := by
    rw [same, advanceEnding]
    exact (concludeBased world based ending).imp_right (And.imp_right (⟨·, ending, rfl⟩))
  cases code with
  | done answer => exact concluded (.returned answer) rfl
  | fail failure => exact concluded (.failed failure) rfl
  | panic payload => exact concluded (.panicked payload) rfl
  | append | ask | look | note => exact .inl ⟨_, rfl, based⟩
  | suspend next => exact .inl ⟨_, advanceSuspend behaviour world callers next, based⟩
  | discard queue next =>
    dsimp only [advance]
    split <;> exact .inl ⟨_, rfl, based⟩
  | run queue initial next =>
    dsimp only [advance]
    split
    · exact .inl ⟨_, rfl, based⟩
    · exact .inl ⟨_, rfl, .above _ _ (Option.some_ne_none queue) based⟩

end Machine

namespace Progress

variable {behaviour : Behaviour κ ν ε} {a b : Progress κ ν ε} {world last : World κ ν ε}
  {outcome result : Outcome ν}

/- There is one way on, so whatever is met on the way to the end still has that end ahead. -/
theorem goesOn (path : Goes behaviour a b) (ended : Goes behaviour a (.ended last outcome)) :
    Goes behaviour b (.ended last outcome) := by
  induction path with
  | refl => exact ended
  | tail _ turn ih =>
    obtain ⟨machine, here⟩ := turn
    rcases ih.cases_head with rfl | ⟨_, ⟨current, going⟩, rest⟩
    · cases here
    · obtain rfl := Option.some.inj (here.symm.trans going)
      exact rest

end Progress

theorem Program.Mute.weaken {heard : ε → Bool} {due owed : Ending β → Prop}
    {program : Program κ ν ε β} (mute : program.Mute heard due)
    (weaker : ∀ ending, due ending → owed ending) : program.Mute heard owed := by
  induction mute with
  | ended ending holds => exact .ended ending (weaker ending holds)
  | idle program rest idles _ ih => exact .idle program rest idles ih

theorem Ending.Granted.heard {ending : Ending β} (granted : ending.Granted) : ending.Heard := by
  obtain ⟨answer, rfl⟩ := granted
  trivial

def Frame.Calm (heard : ε → Bool) (frame : Frame κ ν ε) : Prop :=
  frame.stage.recorder = true → frame.code.Mute heard Ending.Heard

namespace Scheduler

variable {behaviour : Behaviour κ ν ε} {heard : ε → Bool} {queue : QueueId} {world : World κ ν ε}
  {stage : Stage κ ν}

theorem summonsCalm (mute : (behaviour.recorder queue).Mute heard) {summons : Summons κ ν}
    (own : (summons.frame behaviour).stage.queue? = some queue) :
    (summons.frame behaviour).Calm heard := by
  intro recorder
  cases summons with
  | startRun id value name =>
    cases own
    exact (mute.startRun name).weaken fun _ => Ending.Granted.heard
  | startStep run value entry info =>
    cases own
    exact (mute.startStep run.id info).weaken fun _ => Ending.Granted.heard
  | body | call | watch | notify => cases recorder
  | completeStep run step info status verdict =>
    cases own
    exact mute.completeStep info step status
  | completeRun run verdict =>
    cases own
    exact mute.completeRun run.id _

variable (world) in
theorem concludeCalm (mute : (behaviour.recorder queue).Mute heard)
    (own : stage.queue? = some queue) (ending : Ending (stage.Answer ε)) {frame : Frame κ ν ε}
    (entered : (conclude behaviour world stage ending).2 = .enter frame) : frame.Calm heard := by
  have home := (concludeStays behaviour world own ending).2 frame entered
  by_cases handsOver : stage.HandsOver ending
  · cases handsOver
    cases entered
    exact fun recorder => nomatch recorder
  · obtain ⟨summons, rfl⟩ := (concludeUniform world stage ending handsOver).summoned entered
    exact summonsCalm mute home

end Scheduler

namespace Scheduler

variable {behaviour : Behaviour κ ν ε} {world : World κ ν ε} {stage : Stage κ ν}

theorem deliverEnters (run : Run) (delivery : Delivery) (rest : List (Entry κ)) (index : UInt32)
    (dropped : Nat) : ∃ next frame, deliver behaviour world run delivery rest index dropped =
      (next, .enter frame) := by
  induction rest generalizing index dropped with
  | nil =>
    unfold deliver delivered
    split <;> exact ⟨_, _, rfl⟩
  | cons entry rest ih =>
    unfold deliver
    split
    · exact ⟨_, _, rfl⟩
    · exact ih _ _

theorem settleEnters (run : Run) (step : Int) (info : StepInfo) (result : Except RunError ν) :
    ∃ next frame, settle behaviour world run step info result = (next, .enter frame) := by
  cases result with
  | ok value => exact ⟨_, _, rfl⟩
  | error error => exact deliverEnters _ _ _ _ _

theorem proceedEnters (run : Run) (value : ν) :
    ∃ next frame, proceed behaviour world run value = (next, .enter frame) := by
  unfold proceed
  split <;> exact ⟨_, _, rfl⟩

theorem applyEnters (run : Run) (step : Int) (value : ν) (entry : Entry κ) (info : StepInfo) :
    ∃ next frame, apply behaviour world run step value entry info = (next, .enter frame) := by
  unfold apply
  cases entry.kind <;> exact ⟨_, _, rfl⟩

theorem stepCompletedEnters (run : Run) (verdict : Verdict ν) :
    ∃ next frame, stepCompleted behaviour world run verdict = (next, .enter frame) := by
  cases verdict with
  | completed value => exact proceedEnters run value
  | failed error dropped => exact ⟨_, _, rfl⟩

variable (behaviour world) in
theorem unwoundByRecorder {queue : QueueId} (own : stage.queue? = some queue)
    (ending : Ending (stage.Answer ε)) {payload : Payload}
    (unwound : (conclude behaviour world stage ending).2 = .unwound payload) :
    stage.recorder = true ∧ ¬ ending.Heard := by
  have enters {reply : World κ ν ε × Turn κ ν ε}
      (entered : ∃ next frame, reply = (next, Turn.enter frame))
      (unwound : reply.2 = .unwound payload) : False := by
    obtain ⟨next, frame, rfl⟩ := entered
    cases unwound
  cases stage with
  | outside => cases own
  | startingRun queue value =>
    cases ending with
    | returned run => exact (enters (proceedEnters _ value) unwound).elim
    | failed failure => cases unwound
    | panicked payload => exact ⟨rfl, id⟩
  | startingStep run value entry info =>
    cases ending with
    | returned step => exact (enters (applyEnters run step value entry info) unwound).elim
    | failed failure => exact (enters (deliverEnters _ _ _ _ _) unwound).elim
    | panicked payload => exact ⟨rfl, id⟩
  | applying run step info | awaiting run step info =>
    exact (enters (settleEnters run step info _) unwound).elim
  | calling run step info =>
    cases ending with
    | returned program => cases unwound
    | failed | panicked => exact (enters (settleEnters run step info _) unwound).elim
  | observing run step info value =>
    obtain ⟨outcry, -, settling⟩ := observed behaviour world run step info value ending
    rw [settling] at unwound
    exact (enters (settleEnters run step info _) unwound).elim
  | delivering run delivery label rest index dropped =>
    obtain ⟨outcry, -, delivering⟩ :=
      notified behaviour world run delivery label rest index dropped ending
    rw [delivering] at unwound
    exact (enters (deliverEnters _ _ _ _ _) unwound).elim
  | completingStep run info verdict =>
    cases ending with
    | panicked payload => exact ⟨rfl, id⟩
    | _ => exact (enters (stepCompletedEnters run verdict) unwound).elim
  | completingRun run verdict =>
    cases ending with
    | panicked payload => exact ⟨rfl, id⟩
    | _ => cases unwound

end Scheduler

inductive Machine.Sound (heard : ε → Bool) (queue : QueueId) : Machine κ ν ε → Prop where
  | recording (world stage code) (own : stage.queue? = some queue)
      (mute : code.Mute heard Ending.Heard) : Sound heard queue ⟨world, ⟨stage, code⟩, []⟩
  | working (machine) (based : Based (fun stage => stage.queue? = some queue ∧
      stage.recorder = false) machine.task.stages) : Sound heard queue machine

namespace Machine

variable {behaviour : Behaviour κ ν ε} {heard : ε → Bool} {queue : QueueId}
  {machine : Machine κ ν ε}

theorem enteredSound (world : World κ ν ε) {frame : Frame κ ν ε}
    (own : frame.stage.queue? = some queue) (calm : frame.Calm heard) :
    Sound heard queue ⟨world, frame, []⟩ := by
  cases recorder : frame.stage.recorder with
  | true => exact .recording world frame.stage frame.code own (calm recorder)
  | false => exact .working _ (.last _ ⟨own, recorder⟩)

theorem Sound.advance (mute : (behaviour.recorder queue).Mute heard)
    (sound : machine.Sound heard queue) :
    (∃ next, (machine.advance behaviour).machine? = some next ∧ next.Sound heard queue) ∨
      ∃ result last, machine.advance behaviour = .ended last (.returned result) ∧
        Ensemble.Returns behaviour queue result ⟨machine.world, [machine.task]⟩ ⟨last, []⟩ := by
  have concludes (world : World κ ν ε) {stage : Stage κ ν} (own : stage.queue? = some queue)
      {ending : Ending (stage.Answer ε)} (heeded : stage.recorder = true → ending.Heard) :
      (∃ next, ((mk world ⟨stage, ending.code⟩ []).advance behaviour).machine? = some next ∧
          next.Sound heard queue) ∨
        ∃ result last, (mk world ⟨stage, ending.code⟩ []).advance behaviour =
            .ended last (.returned result) ∧
          Ensemble.Returns behaviour queue result ⟨world, [⟨⟨stage, ending.code⟩, []⟩]⟩
            ⟨last, []⟩ := by
    rw [advanceEnding]
    obtain ⟨stays, within⟩ := Scheduler.concludeStays behaviour world own ending
    have calm {frame : Frame κ ν ε} (entered : _ = Turn.enter frame) :=
      Scheduler.concludeCalm world mute own ending entered
    have unwound {payload : Payload} (unwound : _ = Turn.unwound payload) :=
      Scheduler.unwoundByRecorder behaviour world own ending unwound
    generalize reply : Scheduler.conclude behaviour world stage ending = after at *
    obtain ⟨last, turn⟩ := after
    cases turn with
    | enter frame => exact .inl ⟨_, rfl, enteredSound last (within frame rfl) (calm rfl)⟩
    | left => exact absurd rfl stays
    | unwound payload => exact absurd (heeded (unwound rfl).1) (unwound rfl).2
    | returned result =>
      exact .inr ⟨result, last, rfl, .intro world last [] stage ending [] [] own reply⟩
  cases sound with
  | recording world stage code own mute =>
    cases mute with
    | ended ending holds => exact concludes world own fun _ => holds
    | idle _ rest idles later =>
      obtain ⟨next, -, going⟩ := idles.advance behaviour world []
      exact .inl ⟨_, going, .recording next stage _ own (later world)⟩
  | working _ based =>
    obtain ⟨world, ⟨stage, code⟩, callers⟩ := machine
    have based : Based (fun stage => stage.queue? = some queue ∧ stage.recorder = false)
        (stage :: callers.map Caller.stage) := based
    rcases advanceBased behaviour world based code with
      ⟨next, going, based⟩ | ⟨rfl, ⟨own, quiet⟩, ending, rfl⟩
    · exact .inl ⟨next, going, .working next based⟩
    · exact concludes world own fun recorder => nomatch quiet.symm.trans recorder

end Machine

end Sequencer
