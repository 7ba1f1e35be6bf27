import Sequencer.Proofs.Bottom
import Sequencer.Proofs.Refailing

/-! One failure channel. A step may return an error or panic, in its own code or in the program that
it gave; whichever it is, the run makes of it an error with the step's label and tells its observers
and its recorder. So a run in which a step fails comes out the same, up to the text of the error, if
the step fails in another way. -/
namespace Sequencer

variable {κ κ' ν ε β γ : Type}

inductive Machine.Fails : Machine κ ν ε → StepInfo → (panics : Bool) → Prop where
  | failed (world stage run step info failure) (body : stage.body? = some (run, step, info)) :
      Fails ⟨world, ⟨stage, .fail failure⟩, []⟩ info false
  | panicked (world stage run step info payload) (body : stage.body? = some (run, step, info)) :
      Fails ⟨world, ⟨stage, .panic payload⟩, []⟩ info true

def Ending.panics? : Ending β → Option Bool
  | .returned _ => none
  | .failed _ => some false
  | .panicked _ => some true

namespace Machine

variable {machine : Machine κ ν ε} {info : StepInfo} {panics : Bool}

theorem Fails.joined (fails : machine.Fails info panics) :
    ∃ run step, ∃ ending : Ending ν, ending.panics? = some panics ∧
      machine.joined = ⟨machine.world, ⟨.awaiting run step info, ending.code⟩, []⟩ := by
  cases fails with
  | failed world stage run step info failure body =>
    refine ⟨run, step, .failed failure, rfl, ?_⟩
    cases stage <;> cases body <;> rfl
  | panicked world stage run step info payload body =>
    refine ⟨run, step, .panicked payload, rfl, ?_⟩
    cases stage <;> cases body <;> rfl

end Machine

inductive Stage.Fallen (error : RunError) : Stage κ ν → Prop where
  | delivering (run culprit label rest index dropped) :
      Fallen error (.delivering run ⟨error, culprit⟩ label rest index dropped)
  | completingStep (run info dropped) :
      Fallen error (.completingStep run info (.failed error dropped))
  | completingRun (run dropped) : Fallen error (.completingRun run (.failed error dropped))

namespace Scheduler

variable (behaviour : Behaviour κ ν ε) (world : World κ ν ε) {error : RunError}

theorem deliverFalls (run : Run) (culprit : Option (Int × StepInfo)) (rest : List (Entry κ))
    (index : UInt32) (dropped : Nat) :
    ∃ next frame, deliver behaviour world run ⟨error, culprit⟩ rest index dropped =
      (next, .enter frame) ∧ frame.stage.Fallen error := by
  induction rest generalizing index dropped with
  | nil =>
    cases culprit with
    | none => exact ⟨_, _, rfl, .completingRun run _⟩
    | some culprit => exact ⟨_, _, rfl, .completingStep run culprit.2 dropped⟩
  | cons entry rest ih =>
    unfold deliver
    split
    · exact ⟨_, _, rfl, .delivering run culprit _ rest _ dropped⟩
    · exact ih _ _

theorem settleFalls (error : RunError) (run : Run) (step : Int) (info : StepInfo) :
    ∃ next frame, settle behaviour world run step info (.error error) = (next, .enter frame) ∧
      frame.stage.Fallen error :=
  deliverFalls behaviour _ _ _ _ _ _

end Scheduler

theorem Scheduler.bodyFails (behaviour : Behaviour κ ν ε) (world : World κ ν ε)
    {stage : Stage κ ν} {run : Run} {step : Int} {info : StepInfo}
    (body : stage.body? = some (run, step, info)) (failure : Failure) :
    conclude behaviour world stage (.failed failure) =
      settle behaviour world run step info (.error (.stepFailed info.label failure)) := by
  cases stage <;> cases body <;> rfl

theorem Machine.Fails.falls (behaviour : Behaviour κ ν ε) {machine : Machine κ ν ε}
    {info : StepInfo} {panics : Bool} (fails : machine.Fails info panics) :
    ∃ error next, (machine.advance behaviour).machine? = some next ∧
      Based (Stage.Fallen error) next.task.stages ∧ error.step? = some info.label ∧
      error.isPanic = panics := by
  cases fails with
  | failed world stage run step info failure body =>
    obtain ⟨next, frame, settled, fallen⟩ :=
      Scheduler.settleFalls behaviour world (.stepFailed info.label failure) run step info
    refine ⟨_, ⟨next, frame, []⟩, ?_, .last _ fallen, rfl, rfl⟩
    dsimp only [advance]
    rw [Scheduler.bodyFails behaviour world body, settled]
    rfl
  | panicked world stage run step info payload body =>
    obtain ⟨next, frame, settled, fallen⟩ :=
      Scheduler.settleFalls behaviour world (.stepPanicked info.label payload.message) run step info
    refine ⟨_, ⟨next, frame, []⟩, ?_, .last _ fallen, rfl, rfl⟩
    dsimp only [advance]
    rw [Scheduler.bodyPanics behaviour world body, settled]
    rfl

/- How a run may be over in which a step has failed: it gives an error that names the step and says
whether it panicked, unless a callback of its own recorder panics. -/
inductive Progress.Over (behaviour : Behaviour κ ν ε) (a : Progress κ ν ε) (info : StepInfo)
    (panics : Bool) : Outcome ν → Prop where
  | failed (error : RunError) (label : error.step? = some info.label)
      (kind : error.isPanic = panics) : Over behaviour a info panics (.returned (.error error))
  | broken (payload b world stage) (path : Goes behaviour a b)
      (here : b.machine? = some ⟨world, ⟨stage, .panic payload⟩, []⟩)
      (recorder : stage.recorder = true) : Over behaviour a info panics (.panicked payload)

namespace Progress

variable {behaviour : Behaviour κ ν ε} {a b : Progress κ ν ε} {info : StepInfo} {panics : Bool}
  {outcome : Outcome ν} {last : World κ ν ε} {machine : Machine κ ν ε}

theorem Over.earlier (ends : b.Over behaviour info panics outcome) (path : Goes behaviour a b) :
    a.Over behaviour info panics outcome := by
  cases ends with
  | failed error label kind => exact .failed error label kind
  | broken payload final world stage onward here recorder =>
    exact .broken payload final world stage (path.trans onward) here recorder

end Progress

theorem Program.UpToLeeway.ofEnding {concord : Concord κ κ' ε}
    (tight : ∀ queue, (concord.leeway queue).shifts = false)
    {meets : Ending β → Ending γ → Prop} {ending : Ending β} {program : Program κ ν ε β}
    {other : Program κ' ν ε γ} (alike : program.UpToLeeway concord meets other)
    (same : program = ending.code) : other.Mute concord.heard (meets ending) := by
  induction alike with
  | ended first second meet =>
    obtain rfl : first = ending := by
      cases first <;> cases ending <;> cases same <;> rfl
    exact .ended second meet
  | extra queue step first second shifts => exact Leeway.notTight shifts (tight queue)
  | left first rest second idles => cases idles <;> cases ending <;> cases same
  | right first second rest idles _ ih => exact .idle second rest idles fun world => ih world same
  | _ => cases ending <;> cases same

namespace Behaviour

variable {first second : Behaviour κ ν ε} {queue : QueueId} {info : StepInfo} {panics : Bool}
  {old : List (Event κ ν ε)} {bottom : Leeway}

end Behaviour

end Sequencer
