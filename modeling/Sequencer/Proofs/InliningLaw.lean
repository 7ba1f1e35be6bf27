import Sequencer.Proofs.InlinedRun

/-! The inlining law. A step may find others, or they may be queued right behind it from the start:
the run is the same. The run that finds them is followed step by step by the other one. -/
namespace Sequencer

variable {κ ν ε : Type} {heard : ε → Bool}

namespace Inlining

variable {plan : Inlining κ}

section Step

variable {behaviour : Behaviour κ ν ε} (mute : (behaviour.recorder plan.queue).Mute heard)
  {fact : Fact κ ν ε} {world : World κ ν ε} {other : World (κ × Place) ν ε} {place : Place}

theorem codingAppend {stage : Stage κ ν} {mate : Stage (κ × Place) ν}
    {finish : Nat → stage.Answer ε → mate.Answer ε} {fact : Nat → Fact κ ν ε}
    (stages : plan.Coding stage mate place finish fact) {n : Nat}
    (worlds : world.UpToNames (plan.bond heard (fact n)) other)
    (works : stage.works plan.queue = true)
    (order : Order plan.queue (world.agenda plan.queue) (world.log plan.queue))
    (ticketed : (world.log plan.queue).arrivals.map Entry.ticket =
      List.range (world.agenda plan.queue).arrivals) (step : Step κ) :
    (world.append plan.queue step).UpToNames (plan.bond heard (fact (n + 1)))
      ((plan.put (some place) plan.queue n step).foldl
        (fun world step => world.append plan.queue step) other) := by
  obtain rfl := stages.working works
  obtain ⟨here, count⟩ := ownFact worlds
  obtain ⟨agenda, log⟩ := world.appendOwn plan.queue step
  obtain ⟨mark, active⟩ := Option.ne_none_iff_exists'.mp here.busy
  have more := here.append order ticketed step (world.agenda plan.queue).active.isSome
  refine appendOwn worlds step _ ⟨?_, ?_⟩
  · rw [agenda, log, ← count]
    exact more
  · rw [agenda, (Agenda.appendActive active step).2, List.length_append, count]
    rfl

include mute

theorem codingStep {last : Log κ ν ε} (fits : plan.Fits last) {stage : Stage κ ν}
    {mate : Stage (κ × Place) ν} {finish : Nat → stage.Answer ε → mate.Answer ε}
    {fact : Nat → Fact κ ν ε} (stages : plan.Coding stage mate place finish fact) {n : Nat}
    (worlds : world.UpToNames (plan.bond heard (fact n)) other)
    (order : stage.works plan.queue = true →
      Order plan.queue (world.agenda plan.queue) (world.log plan.queue))
    (ticketed : (world.log plan.queue).arrivals.map Entry.ticket =
      List.range (world.agenda plan.queue).arrivals)
    {program : Program κ ν ε (stage.Answer ε)}
    (calm : (Machine.mk world ⟨stage, program⟩ []).Calm plan.queue)
    (within : ((Machine.mk world ⟨stage, program⟩ []).advance behaviour).world.log plan.queue <+:
      last) {progress : Progress (κ × Place) ν ε}
    (late : progress.machine? =
      some ⟨other, ⟨mate, program.inline plan (some place) finish n⟩, []⟩) :
    ∃ final, Progress.Goes (behaviour.inlined plan) progress final ∧
      plan.Paired heard ((Machine.mk world ⟨stage, program⟩ []).advance behaviour) final := by
  have ends (ending : Ending (stage.Answer ε)) (same : program = ending.code) :
      ∃ final, Progress.Goes (behaviour.inlined plan) progress final ∧
        plan.Paired heard ((Machine.mk world ⟨stage, program⟩ []).advance behaviour) final := by
    subst same
    rw [Machine.advanceEnding, Machine.worldOfResume] at within
    rw [Program.inlineEnding] at late
    refine ⟨_, .single (.advance _ _ late), ?_⟩
    rw [Machine.advanceEnding, Machine.advanceEnding]
    exact codingPaired mute fits stages worlds order ending within
  have on {next : World κ ν ε} {also : World (κ × Place) ν ε}
      {rest : Program κ ν ε (stage.Answer ε)} {m : Nat} {first : Progress κ ν ε}
      {second : Progress (κ × Place) ν ε}
      (here : first.machine? = some ⟨next, ⟨stage, rest⟩, []⟩)
      (there : second.machine? =
        some ⟨also, ⟨mate, rest.inline plan (some place) finish m⟩, []⟩)
      (alike : next.UpToNames (plan.bond heard (fact m)) also) : plan.Paired heard first second :=
    .going _ _ _ _ here there (.coding _ _ _ _ _ _ _ rest m stages alike)
  have elsewhere (queue : QueueId)
      (records : queue = plan.queue → stage.records plan.queue = true) : queue ≠ plan.queue :=
    fun same => by simpa [stages.foreign] using records same
  cases program with
  | done answer => exact ends (.returned answer) rfl
  | fail failure => exact ends (.failed failure) rfl
  | panic payload => exact ends (.panicked payload) rfl
  | append queue step next =>
    by_cases mine : queue = plan.queue
    · subst mine
      have works : stage.works plan.queue = true := calm rfl
      obtain ⟨final, path, there⟩ := appendAllGoes (behaviour.inlined plan) late
      rw [if_pos rfl] at there
      exact ⟨final, path,
        on rfl there (codingAppend stages worlds works (order works) ticketed step)⟩
    · simp only [Program.inline, put, if_neg mine] at late
      exact ⟨_, .single (.advance _ _ late), on rfl rfl (worlds.append (bondShared mine) step)⟩
  | ask queue next =>
    refine ⟨_, .single (.advance _ _ late), ?_⟩
    dsimp only [Machine.advance, Program.inline]
    rw [worlds.shared (bondShared (elsewhere queue calm))]
    exact on rfl rfl worlds
  | look queue next =>
    refine ⟨_, .single (.advance _ _ late), ?_⟩
    dsimp only [Machine.advance, Program.inline]
    rw [worlds.shared (bondShared (elsewhere queue calm)), Queue.recodeSnapshot]
    exact on rfl rfl worlds
  | note remark next =>
    exact ⟨_, .single (.advance _ _ late), on rfl rfl (worlds.recordFree (.noted remark) rfl)⟩
  | suspend next =>
    exact ⟨_, .single (.advance _ _ late), on (Machine.advanceSuspend _ _ _ next)
      (Machine.advanceSuspend _ _ _ _) worlds⟩
  | discard queue next =>
    refine ⟨_, .single (.advance _ _ late), ?_⟩
    dsimp only [Machine.advance, Program.inline]
    rw [worlds.taken]
    split
    · exact on rfl rfl worlds
    · next untaken => exact on rfl rfl (worlds.take (worlds.sharedUntaken untaken))
  | run queue initial next =>
    refine ⟨_, .single (.advance _ _ late), ?_⟩
    dsimp only [Machine.advance, Program.inline]
    rw [worlds.taken]
    split
    · exact on rfl rfl worlds
    · next untaken =>
      have own := worlds.sharedUntaken untaken
      exact .going _ _ _ _ rfl rfl <| .nested _ _ _ _ _ _ _ next n stages <|
        Machine.startUpToNames (inlinedUpToNames behaviour) (worlds.take own)
          (.base _ _ ⟨rfl, rfl⟩) own initial

theorem recordingStep {stage : Stage κ ν} {mate : Stage (κ × Place) ν}
    {due : Ending (stage.Answer ε) → Prop} {duly : Ending (mate.Answer ε) → Prop}
    (stages : plan.Recording stage mate due duly fact)
    (worlds : world.UpToNames (plan.bond heard fact) other) {code : Program κ ν ε (stage.Answer ε)}
    {silent : Program (κ × Place) ν ε (mate.Answer ε)} (quiet : code.Mute heard due)
    (still : silent.Mute heard duly) {progress : Progress (κ × Place) ν ε}
    (late : progress.machine? = some ⟨other, ⟨mate, silent⟩, []⟩) :
    ∃ final, Progress.Goes (behaviour.inlined plan) progress final ∧
      plan.Paired heard ((Machine.mk world ⟨stage, code⟩ []).advance behaviour) final := by
  cases quiet with
  | ended ending holds =>
    obtain ⟨also, next, final, good, unmoved, path, there⟩ := still.ends late
    refine ⟨_, path.tail (.advance _ _ there), ?_⟩
    rw [Machine.advanceEnding, Machine.advanceEnding]
    exact recordingPaired mute stages (worlds.unmovedAlso unmoved) holds good
  | idle _ rest idles on =>
    obtain ⟨next, unmoved, going⟩ := idles.advance behaviour world []
    exact ⟨progress, .refl, .going _ _ _ _ going late <|
      .recording _ _ _ _ _ _ _ _ _ stages (on world) still (worlds.unmoved unmoved)⟩

end Step

section Nested

variable {fact : Nat → Fact κ ν ε} {n : Nat}

theorem nestedElsewhere {fact : Fact κ ν ε} {first : Stage κ ν} {second : Stage (κ × Place) ν}
    {meets : Ending (first.Answer ε) → Ending (second.Answer ε) → Prop}
    (stages : Stage.UpToNames (plan.bond heard fact) first second meets) :
    first.works plan.queue = false ∧ first.records plan.queue = false := by
  cases stages with
  | outside => exact ⟨rfl, rfl⟩
  | startingRun queue value own => exact ⟨rfl, decide_eq_false (sharedBond own)⟩
  | startingStep _ _ _ _ _ tied | completingStep _ _ _ _ tied | completingRun _ _ _ tied =>
    exact ⟨rfl, decide_eq_false (sharedBond tied.shared)⟩
  | applying _ _ _ _ _ tied | calling _ _ _ _ _ tied | awaiting _ _ _ _ _ tied
  | observing _ _ _ _ _ _ tied => exact ⟨decide_eq_false (sharedBond tied.shared), rfl⟩
  | delivering => exact ⟨rfl, rfl⟩

theorem nestedPaired {stage : Stage κ ν} {mate : Stage (κ × Place) ν} {place : Place}
    {finish : Nat → stage.Answer ε → mate.Answer ε}
    (stages : plan.Coding stage mate place finish fact)
    {resume : Option (Except RunError ν) → Program κ ν ε (stage.Answer ε)}
    {first : Progress κ ν ε} {second : Progress (κ × Place) ν ε}
    (matched : first.Match (plan.bond heard (fact n)) (fun callers mates =>
      callers = [⟨stage, resume⟩] ∧
        mates = [⟨mate, fun result => (resume result).inline plan (some place) finish n⟩]) second) :
    plan.Paired heard first second := by
  cases matched with
  | going _ _ machine other early late machines =>
    exact .going _ _ _ _ early late (.nested _ _ _ _ _ _ _ _ _ stages machines)
  | left world other worlds => exact .ended world other .left (refact worlds trivial)
  | based world other _ _ _ _ worlds ended based =>
    obtain ⟨rfl, rfl⟩ := based
    cases ended with
    | returned result =>
      exact .going _ _ _ _ rfl rfl (.coding _ _ _ _ _ _ _ (resume (some result)) n stages worlds)
    | unwound payload =>
      exact .going _ _ _ _ rfl rfl (.coding _ _ _ _ _ _ _ (.panic payload) n stages worlds)

theorem nestedStep (behaviour : Behaviour κ ν ε) {stage : Stage κ ν} {mate : Stage (κ × Place) ν}
    {place : Place} {finish : Nat → stage.Answer ε → mate.Answer ε}
    (stages : plan.Coding stage mate place finish fact)
    {resume : Option (Except RunError ν) → Program κ ν ε (stage.Answer ε)}
    {machine : Machine κ ν ε} {other : Machine (κ × Place) ν ε}
    (machines : machine.UpToNames (plan.bond heard (fact n)) (fun callers mates =>
      callers = [⟨stage, resume⟩] ∧
        mates = [⟨mate, fun result => (resume result).inline plan (some place) finish n⟩]) other)
    (calm : machine.Calm plan.queue) {progress : Progress (κ × Place) ν ε}
    (late : progress.machine? = some other) :
    ∃ final, Progress.Goes (behaviour.inlined plan) progress final ∧
      plan.Paired heard (machine.advance behaviour) final := by
  obtain ⟨world, ⟨inner, code⟩, callers⟩ := machine
  obtain ⟨also, ⟨twin, silent⟩, mates⟩ := other
  obtain ⟨worlds, ⟨_, _, _, _, meets, alike, codes⟩, stacked⟩ := machines
  obtain ⟨idle, unseen⟩ := nestedElsewhere alike
  have away (queue : QueueId) (touched : code.touched? = some queue) :
      (plan.bond heard (fact n)).apart queue = none := by
    refine bondShared fun same => ?_
    cases code with
    | append id step next =>
      cases touched
      exact Bool.false_ne_true (idle.symm.trans (calm same))
    | ask id next | look id next =>
      cases touched
      exact Bool.false_ne_true (unseen.symm.trans (calm same))
    | _ => cases touched
  obtain ⟨final, path, matched⟩ :=
    Machine.lockstep (inlinedUpToNames behaviour) alike codes away stacked worlds late
  exact ⟨final, path, nestedPaired stages matched⟩

end Nested

theorem workOrder {agenda : Agenda κ} {log : Log κ ν ε} {stage : Stage κ ν}
    (balanced : Standing.Balanced plan.queue ⟨agenda, log, .inside stage⟩)
    (works : stage.works plan.queue = true) : Order plan.queue agenda log := by
  refine balanced.ordered.order ?_
  have accounts := balanced.accounts
  cases stage with
  | applying | calling | awaiting | observing => exact accounts
  | _ => cases works

theorem Paired.simulates {behaviour : Behaviour κ ν ε}
    (mute : (behaviour.recorder plan.queue).Mute heard) {a c last : Progress κ ν ε}
    {b : Progress (κ × Place) ν ε} (fits : plan.Fits (last.world.log plan.queue))
    (paired : plan.Paired heard a b) (reached : Ensemble.Reachable behaviour ⟨a.world, a.tasks⟩)
    (calm : ∀ machine, a.machine? = some machine → machine.Calm plan.queue)
    (turn : Progress.Turns behaviour a c) (onward : Progress.Goes behaviour c last) :
    ∃ d, Progress.Goes (behaviour.inlined plan) b d ∧ plan.Paired heard c d := by
  have within := (reached.later (Progress.goesReaches (.single turn))).grows
    (Progress.goesReaches onward) plan.queue
  obtain ⟨current, here⟩ := turn
  cases paired with
  | ended => cases here
  | going _ _ machine other early late pairs =>
    obtain rfl := Option.some.inj (early.symm.trans here)
    have calm := calm _ early
    cases pairs with
    | recording world other stage mate due also fact code silent stages quiet still worlds =>
      exact recordingStep mute stages worlds quiet still late
    | nested machine other stage mate place finish fact resume n stages machines =>
      exact nestedStep behaviour stages machines calm late
    | coding world other stage mate place finish fact program n stages worlds =>
      have same : a.world = world ∧ stage ∈ (Ensemble.mk a.world a.tasks).stages := by
        cases a with
        | ended => cases early
        | running _ | suspended _ =>
          cases early
          exact ⟨rfl, .head _⟩
      obtain ⟨rfl, present⟩ := same
      obtain ⟨point, standing, balanced, ticketed⟩ := reached.holds
        ((Standing.keptBalanced plan.queue _).and (Standing.keptTicketed plan.queue _))
      obtain rfl := Ensemble.atStage standing present stages.own
      exact codingStep mute fits stages worlds (workOrder balanced) ticketed calm within late

theorem Lays.root {forest : Forest κ} {entries : List (Entry κ)} {steps : List (Step (κ × Place))}
    (laid : plan.Lays forest entries steps) (entry : Entry κ) :
    plan.Lays (forest ++ [.node entry []]) entries steps := by
  induction laid with
  | nil => exact .nil
  | cons other place rest steps here behind ih =>
    exact .cons other place rest steps (Forest.locateAfterRoot entry here) ih

end Inlining

instance (queue : QueueId) : (machine : Machine κ ν ε) → Decidable (machine.Calm queue)
  | ⟨_, ⟨_, .append _ _ _⟩, _⟩ | ⟨_, ⟨_, .ask _ _⟩, _⟩ | ⟨_, ⟨_, .look _ _⟩, _⟩ =>
    inferInstanceAs (Decidable (_ → _))
  | ⟨_, ⟨_, .done _⟩, _⟩ | ⟨_, ⟨_, .fail _⟩, _⟩ | ⟨_, ⟨_, .panic _⟩, _⟩ | ⟨_, ⟨_, .note _ _⟩, _⟩
  | ⟨_, ⟨_, .suspend _⟩, _⟩ | ⟨_, ⟨_, .discard _ _⟩, _⟩ | ⟨_, ⟨_, .run _ _ _⟩, _⟩ =>
    inferInstanceAs (Decidable True)

namespace Machine

end Machine

end Sequencer
