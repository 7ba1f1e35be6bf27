import Sequencer.Proofs.Execution

/-! An async step as one piece of code. The program that it gives follows its own code with nothing
in between, and both are settled as the body of any other step is. So a frame inside a body, inside
such code or inside such a program can be read as one that awaits the joined code. With its frames
read so, a machine makes the same steps, but for the moment at which the program is handed over. -/
namespace Sequencer

variable {κ ν ε : Type}

def Behaviour.work (behaviour : Behaviour κ ν ε) (step : Step κ) (queue : QueueId) (value : ν) :
    Program κ ν ε ν :=
  match step.kind with
  | .async => (behaviour.call step.code queue value).bind id
  | _ => behaviour.body step.code queue value

def Frame.joined : Frame κ ν ε → Frame κ ν ε
  | ⟨.applying run step info, code⟩ => ⟨.awaiting run step info, code⟩
  | ⟨.calling run step info, code⟩ => ⟨.awaiting run step info, code.bind id⟩
  | frame => frame

def Caller.joined : Caller κ ν ε → Caller κ ν ε
  | ⟨.applying run step info, resume⟩ => ⟨.awaiting run step info, resume⟩
  | ⟨.calling run step info, resume⟩ =>
    ⟨.awaiting run step info, fun result => (resume result).bind id⟩
  | caller => caller

def Machine.joined (machine : Machine κ ν ε) : Machine κ ν ε :=
  ⟨machine.world, machine.frame.joined, machine.callers.map Caller.joined⟩

def Progress.joined : Progress κ ν ε → Progress κ ν ε
  | .running machine | .suspended machine => .running machine.joined
  | .ended world outcome => .ended world outcome

theorem Frame.joinedTwice (frame : Frame κ ν ε) : frame.joined.joined = frame.joined := by
  obtain ⟨stage, code⟩ := frame
  cases stage <;> rfl

theorem Caller.joinedTwice (caller : Caller κ ν ε) : caller.joined.joined = caller.joined := by
  obtain ⟨stage, resume⟩ := caller
  cases stage <;> rfl

theorem Caller.joinedAllTwice (callers : List (Caller κ ν ε)) :
    (callers.map joined).map joined = callers.map joined := by
  simp only [List.map_map, Function.comp_def, joinedTwice]

theorem Machine.joinedTwice (machine : Machine κ ν ε) : machine.joined.joined = machine.joined := by
  simp only [joined, Frame.joinedTwice, Caller.joinedAllTwice]

theorem Progress.joinedOf {progress : Progress κ ν ε} {machine : Machine κ ν ε}
    (here : progress.machine? = some machine) : progress.joined = .running machine.joined := by
  cases progress with
  | running _ | suspended _ => cases here; rfl
  | ended _ _ => cases here

theorem Progress.ofJoined {progress : Progress κ ν ε} {machine : Machine κ ν ε}
    (joined : progress.joined = .running machine) :
    ∃ current, progress.machine? = some current ∧ current.joined = machine := by
  cases progress with
  | running current | suspended current =>
    cases joined
    exact ⟨current, rfl, rfl⟩
  | ended _ _ => cases joined

namespace Machine

variable {behaviour : Behaviour κ ν ε}

inductive Hands : Machine κ ν ε → Machine κ ν ε → Prop where
  | intro (world run step info program callers) :
      Hands ⟨world, ⟨.calling run step info, .done program⟩, callers⟩
        ⟨world, ⟨.awaiting run step info, program⟩, callers⟩

theorem Hands.advance {machine next : Machine κ ν ε} (hands : machine.Hands next) :
    machine.advance behaviour = .running next := by
  cases hands
  rfl

theorem Hands.joined {machine next : Machine κ ν ε} (hands : machine.Hands next) :
    next.joined = machine.joined := by
  cases hands
  rfl

theorem Hands.once {machine next last : Machine κ ν ε} (hands : machine.Hands next) :
    ¬ next.Hands last := by
  cases hands
  exact fun again => nomatch again

theorem resumeJoined (callers : List (Caller κ ν ε)) (reply : World κ ν ε × Turn κ ν ε) :
    (resume callers reply).joined = (resume (callers.map Caller.joined) reply).joined := by
  obtain ⟨world, turn⟩ := reply
  cases turn with
  | enter frame => simp only [resume, Progress.joined, joined, Caller.joinedAllTwice]
  | left => rfl
  | returned | unwound =>
    cases callers with
    | nil => rfl
    | cons caller rest =>
      obtain ⟨stage, code⟩ := caller
      simp only [List.map_cons, resume, Progress.joined, joined, Caller.joinedAllTwice]
      cases stage <;> rfl

theorem suspendJoined (world : World κ ν ε) {stage : Stage κ ν}
    (next : Program κ ν ε (stage.Answer ε)) (callers : List (Caller κ ν ε)) :
    ((mk world ⟨stage, .suspend next⟩ callers).advance behaviour).joined =
      .running (mk world ⟨stage, next⟩ callers).joined := by
  dsimp only [advance]
  split <;> rfl

theorem advanceCallers (world : World κ ν ε) (frame : Frame κ ν ε) (callers : List (Caller κ ν ε)) :
    ((mk world frame callers).advance behaviour).joined =
      ((mk world frame (callers.map Caller.joined)).advance behaviour).joined := by
  obtain ⟨stage, code⟩ := frame
  have again := Caller.joinedAllTwice callers
  cases code with
  | done | fail | panic => exact resumeJoined callers _
  | append | ask | look | note => simp only [advance, Progress.joined, joined, again]
  | suspend next => rw [suspendJoined, suspendJoined, joined, joined, again]
  | discard queue next =>
    dsimp only [advance]
    split <;> simp only [Progress.joined, joined, again]
  | run queue initial next =>
    dsimp only [advance]
    split <;> simp only [Progress.joined, joined, start, List.map_cons, again]

theorem advanceFrame (world : World κ ν ε) (frame : Frame κ ν ε) (callers : List (Caller κ ν ε)) :
    (∃ next, (mk world frame callers).Hands next) ∨
      ((mk world frame callers).advance behaviour).joined =
        ((mk world frame.joined callers).advance behaviour).joined := by
  obtain ⟨stage, code⟩ := frame
  cases stage with
  | calling run step info =>
    cases code with
    | done program => exact .inl ⟨_, .intro world run step info program callers⟩
    | suspend next =>
      right
      dsimp only [Frame.joined, Program.bind]
      rw [suspendJoined, suspendJoined]
      rfl
    | discard queue next =>
      right
      dsimp only [advance, Frame.joined, Program.bind]
      split <;> rfl
    | run queue initial next =>
      right
      dsimp only [advance, Frame.joined, Program.bind]
      split <;> rfl
    | _ => exact .inr rfl
  | applying run step info =>
    right
    cases code with
    | suspend next =>
      dsimp only [Frame.joined]
      rw [suspendJoined, suspendJoined]
      rfl
    | discard queue next =>
      dsimp only [advance, Frame.joined]
      split <;> rfl
    | run queue initial next =>
      dsimp only [advance, Frame.joined]
      split <;> rfl
    | _ => rfl
  | _ => exact .inr rfl

theorem advanceJoined (behaviour : Behaviour κ ν ε) (machine : Machine κ ν ε) :
    (∃ next, machine.Hands next) ∨
      (machine.advance behaviour).joined = (machine.joined.advance behaviour).joined := by
  obtain ⟨world, frame, callers⟩ := machine
  exact (advanceFrame world frame callers).imp_right
    fun same => same.trans (advanceCallers world frame.joined callers)

end Machine

namespace Progress

variable {behaviour : Behaviour κ ν ε}

theorem turnJoined {a b : Progress κ ν ε} (turn : Turns behaviour a b) :
    b.joined = a.joined ∨
      ∃ machine, a.joined = .running machine ∧ b.joined = (machine.advance behaviour).joined := by
  obtain ⟨machine, here⟩ := turn
  rcases machine.advanceJoined behaviour with ⟨next, hands⟩ | same
  · left
    rw [hands.advance, joinedOf here]
    exact congrArg Progress.running hands.joined
  · exact .inr ⟨machine.joined, joinedOf here, same⟩

variable (behaviour) in
theorem turnOfJoined {a : Progress κ ν ε} {machine : Machine κ ν ε}
    (here : a.joined = .running machine) :
    ∃ b, Goes behaviour a b ∧ b.joined = (machine.advance behaviour).joined := by
  obtain ⟨current, going, rfl⟩ := ofJoined here
  rcases current.advanceJoined behaviour with ⟨next, hands⟩ | same
  · have first : Turns behaviour a (.running next) := hands.advance ▸ .advance a current going
    rcases next.advanceJoined behaviour with ⟨last, again⟩ | same
    · exact absurd again hands.once
    · refine ⟨_, .head first (.single (.advance _ next rfl)), ?_⟩
      rw [same, hands.joined]
  · exact ⟨_, .single (.advance a current going), same⟩

theorem goesJoined {a b last : Progress κ ν ε} (path : Goes behaviour a last)
    (same : b.joined = a.joined) :
    ∃ final, Goes behaviour b final ∧ final.joined = last.joined := by
  induction path using Relation.ReflTransGen.head_induction_on generalizing b with
  | refl => exact ⟨b, .refl, same⟩
  | head turn rest ih =>
    rcases turnJoined turn with still | ⟨machine, here, moved⟩
    · exact ih (same.trans still.symm)
    · obtain ⟨next, first, there⟩ := turnOfJoined behaviour (same.trans here)
      obtain ⟨final, onward, reached⟩ := ih (there.trans moved.symm)
      exact ⟨final, first.trans onward, reached⟩

end Progress

end Sequencer
