import Sequencer.Proofs.OutsideAppends
import Sequencer.Proofs.Weights

/-! The nodes of a script. Each step of a script counts as one node together with the nodes of the
steps it pushes, as often as they are repeated, cascades written out. A scripted step never appends
more nodes than it has below it. -/
namespace Sequencer

namespace Program

variable {weight : κ → Nat} {due : Nat → β → Prop} {left : Nat}

theorem Within.bind {program : Program κ ν ε β} {f : β → Program κ ν ε γ}
    {after : Nat → γ → Prop} (within : program.Within weight due left)
    (onward : ∀ left answer, due left answer → (f answer).Within weight after left) :
    (program.bind f).Within weight after left := by
  induction program generalizing left with
  | done answer => exact onward left answer within
  | fail failure => exact trivial
  | panic payload => exact trivial
  | append queue step next ih => exact ⟨within.1, ih within.2⟩
  | ask queue next ih => exact fun status => ih status (within status)
  | look queue next ih => exact fun snapshot => ih snapshot (within snapshot)
  | note remark next ih => exact ih within
  | suspend next ih => exact ih within
  | discard queue next ih => exact fun taken => ih taken (within taken)
  | run queue initial next ih => exact fun result => ih result (within result)

theorem Within.free {program : Program κ ν ε β} (within : program.Within weight due left) :
    program.Within weight (fun _ _ => True) left := by
  rw [← program.bindDone]
  exact within.bind fun _ _ _ => trivial

theorem Within.appendAll {next : Program κ ν ε β} (within : next.Within weight due left)
    (queue : QueueId) (steps : List (Step κ)) :
    (Program.appendAll queue steps next).Within weight due
      ((steps.map fun step => weight step.code).sum + left) := by
  induction steps with
  | nil =>
    rw [List.map_nil, List.sum_nil, Nat.zero_add]
    exact within
  | cons step rest ih =>
    refine ⟨?_, ?_⟩
    · simp only [List.map_cons, List.sum_cons]
      omega
    · simp only [List.map_cons, List.sum_cons, Nat.add_assoc, Nat.add_sub_cancel_left]
      exact ih

end Program

namespace Script

/- Each step of a cascade has one cascade less high below it for each that it is wide, and what it
does itself. At height 0 the leaf is played in place. -/
def cascadeNodes (each leaf width : Nat) : Nat → Nat
  | 0 => leaf
  | height + 1 => 1 + each + width * cascadeNodes each leaf width height

mutual
def Action.nodes : Action → Nat
  | .push _ specs => specNodes specs
  | .recurse _ height width _ _ _ each leaf =>
    cascadeNodes (actionNodes each) (actionNodes leaf) width height
  | .state _ | .snapshot _ | .note _ | .yield _ | .fail _ _ | .panic _ | .subrun _ _ | .edit _ => 0

def actionNodes : List Action → Nat
  | [] => 0
  | action :: rest => action.nodes + actionNodes rest

def preNodes : Option (List Action) → Nat
  | none => 0
  | some actions => actionNodes actions

def Spec.nodes : Spec → Nat
  | .mk _ _ _ _ _ _ pre body onError =>
    1 + preNodes pre + actionNodes body + actionNodes onError

def specNodes : List Spec → Nat
  | [] => 0
  | spec :: rest => spec.times * spec.nodes + specNodes rest
end

namespace Spec

theorem weighSteps (specs : List Spec) :
    ((Spec.steps specs).map fun step => step.code.nodes).sum = specNodes specs := by
  induction specs with
  | nil => rfl
  | cons spec rest ih =>
    unfold steps at ih ⊢
    rw [List.flatMap_cons, List.map_append, List.sum_append, ih, specNodes, List.map_replicate,
      spec.stepKept.2, List.sum_replicate_nat]

end Spec

theorem doneWithin (left : Nat) (value : β) :
    (Program.done value : Play β).Within Spec.nodes (fun spare _ => spare = left) left := rfl

theorem subrunWithin (shape : Shape) (queue : QueueId) (initial : Option Datum) (left : Nat) :
    (subrun shape queue initial).Within Spec.nodes (fun spare _ => spare = left) left := by
  unfold subrun
  split
  · exact fun _ => trivial
  all_goals
    intro result
    rcases result with _ | _ | _
    · exact trivial
    · exact trivial
    · exact rfl

theorem pauseWithin {due : Nat → β → Prop} {left : Nat} {next : Play β}
    (within : next.Within Spec.nodes due left) (times : Nat) :
    (pause times next).Within Spec.nodes due left := by
  induction times with
  | zero => exact within
  | succ times ih => exact ih

theorem nodesOfReplicate (action : Action) (n : Nat) :
    actionNodes (List.replicate n action) = n * action.nodes := by
  induction n with
  | zero => simp [actionNodes]
  | succ n ih => rw [List.replicate_succ, actionNodes, ih, Nat.succ_mul, Nat.add_comm]

theorem nodesOfAppend (first second : List Action) :
    actionNodes (first ++ second) = actionNodes first + actionNodes second := by
  induction first with
  | nil => simp [actionNodes]
  | cons action rest ih => rw [List.cons_append, actionNodes, actionNodes, ih, Nat.add_assoc]

theorem nodesOfCascade (queue : Option QueueId) (height width : Nat) (form : Form)
    (label : Option String) (quiet : Bool) (each leaf : List Action) :
    (cascade queue height width form label quiet each leaf).nodes =
      (Action.recurse queue (height + 1) width form label quiet each leaf).nodes := by
  simp only [cascade, Spec.nodes, Action.nodes, cascadeNodes, preNodes, actionNodes,
    nodesOfAppend, nodesOfReplicate]
  omega

mutual
theorem Action.playWithin (shape : Shape) (home : QueueId) (value : Option Datum) (left : Nat) :
    (action : Action) → (action.play shape home value).Within Spec.nodes
      (fun spare _ => spare = left) (action.nodes + left)
  | .push queue specs => by
    rw [Action.play, Action.nodes, ← Spec.weighSteps]
    exact Program.Within.appendAll (doneWithin left value) _ _
  | .state _ | .snapshot _ => by
    rw [Action.play, Action.nodes, Nat.zero_add]
    exact fun _ => rfl
  | .note _ => by
    rw [Action.play, Action.nodes, Nat.zero_add]
    exact rfl
  | .yield times => by
    rw [Action.play, Action.nodes, Nat.zero_add]
    exact pauseWithin (doneWithin left value) times
  | .fail _ _ | .panic _ => by
    rw [Action.play]
    exact trivial
  | .subrun queue initial => by
    rw [Action.play, Action.nodes, Nat.zero_add]
    exact (subrunWithin shape queue initial left).bind fun _ _ same => same
  | .recurse queue 0 width form label quiet each leaf => by
    rw [Action.play, Action.nodes]
    exact playAllWithin shape _ value left leaf
  | .recurse queue (height + 1) width form label quiet each leaf => by
    rw [Action.play, ← nodesOfCascade]
    refine ⟨?_, ?_⟩
    · rw [Spec.stepKept _ |>.2]
      exact Nat.le_add_right _ _
    · rw [Spec.stepKept _ |>.2, Nat.add_sub_cancel_left]
      exact rfl
  | .edit edit => by
    rw [Action.nodes, Nat.zero_add]
    unfold Action.play
    split
    · exact rfl
    · split
      · exact rfl
      · exact trivial

theorem playAllWithin (shape : Shape) (home : QueueId) (value : Option Datum) (left : Nat) :
    (actions : List Action) → (playAll shape home actions value).Within Spec.nodes
      (fun spare _ => spare = left) (actionNodes actions + left)
  | [] => by
    rw [playAll, actionNodes, Nat.zero_add]
    exact rfl
  | action :: rest => by
    rw [playAll, actionNodes, Nat.add_assoc]
    refine (action.playWithin shape home value _).bind fun spare value same => ?_
    subst same
    exact playAllWithin shape home value left rest
end

section Weighed

variable (spec : Spec) (shape : Shape) (home : QueueId) {left : Nat}

theorem noteWithin {due : Nat → β → Prop} {next : Play β} (quiet : Bool) (note : Note)
    (within : next.Within Spec.nodes due left) :
    (Spec.noteUnless quiet note next).Within Spec.nodes due left := by
  unfold Spec.noteUnless
  split <;> exact within

theorem transformWithin (actions : List Action) (value : Datum) (left : Nat) :
    (Spec.transform shape home actions value).Within Spec.nodes (fun spare _ => spare = left)
      (actionNodes actions + left) :=
  (playAllWithin shape home _ left actions).bind fun _ _ same => same

theorem enterWithin (value : Datum) (left : Nat) :
    (spec.enter shape home value).Within Spec.nodes (fun spare _ => spare = left)
      (actionNodes spec.body + left) :=
  noteWithin _ _ (transformWithin shape home spec.body value left)

theorem nodesOfSpec : spec.nodes =
    1 + preNodes spec.pre + actionNodes spec.body + actionNodes spec.onError := by
  cases spec
  rfl

/-- Scripted steps weigh as much as they have nodes, whatever the recorders do. -/
theorem scriptsWeighed (recorders : QueueId → Option RecorderScript) :
    (behaviour shape recorders).Weighed Spec.nodes where
  positive spec := by
    rw [nodesOfSpec]
    omega
  body spec home value := by
    have entered := enterWithin spec shape home value (preNodes spec.pre + actionNodes spec.onError)
    rw [show actionNodes spec.body + _ = spec.nodes - 1 by rw [nodesOfSpec]; omega] at entered
    change (spec.run shape home value).Within _ _ _
    unfold Spec.run
    split
    · exact trivial
    · exact entered.bind fun _ _ _ => trivial
    · exact entered.free
  call spec home value := by
    have entered (value : Datum) (left : Nat) := (enterWithin spec shape home value left).free
    change (spec.call shape home value).Within _ _ _
    unfold Spec.call
    split
    · next none =>
      rw [nodesOfSpec, none, show 1 + preNodes .none + actionNodes spec.body +
        actionNodes spec.onError - 1 = actionNodes spec.body + actionNodes spec.onError by
          rw [preNodes]; omega]
      exact entered value _
    · next actions called =>
      rw [nodesOfSpec, called, show 1 + preNodes (some actions) + actionNodes spec.body +
        actionNodes spec.onError - 1 = actionNodes actions + (actionNodes spec.body +
          actionNodes spec.onError) by rw [preNodes]; omega]
      refine noteWithin _ _ ((transformWithin shape home actions value _).bind ?_)
      rintro _ value rfl
      exact entered value _
  watch spec home sight := by
    change (spec.watch shape home sight).Within _ _ _
    unfold Spec.watch
    refine noteWithin _ _ ?_
    cases sight with
    | ok value =>
      have played := playAllWithin shape home none
        (preNodes spec.pre + actionNodes spec.onError) spec.body
      rw [show actionNodes spec.body + _ = spec.nodes - 1 by rw [nodesOfSpec]; omega] at played
      exact played.bind fun _ _ _ => trivial
    | error error =>
      have played := playAllWithin shape home none
        (preNodes spec.pre + actionNodes spec.body) spec.onError
      rw [show actionNodes spec.onError + _ = spec.nodes - 1 by rw [nodesOfSpec]; omega] at played
      exact played.bind fun _ _ _ => trivial

end Weighed

end Script

end Sequencer
