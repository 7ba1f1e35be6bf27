import Sequencer.Proofs.ConcertTurns

/-! What one step of the first execution becomes in the second one, and from it whole runs. Inside
mute code the first execution goes on alone, and at the end of it the second one catches up. -/
namespace Sequencer

variable {κ κ' ν ε : Type} {concord : Concord κ κ' ε} {old : List (Event κ ν ε)}
  {past : List (Event κ' ν ε)} {bottom : Leeway} {first : Behaviour κ ν ε}
  {second : Behaviour κ' ν ε} {world : World κ ν ε} {other : World κ' ν ε}
  {callers : List (Caller κ ν ε)} {mates : List (Caller κ' ν ε)}

theorem World.Unmoved.agenda {heard : ε → Bool} {next : World κ ν ε}
    (unmoved : world.Unmoved heard next) (queue : QueueId) :
    next.agenda queue = world.agenda queue := by
  induction unmoved with
  | same => rfl
  | remark next remark _ _ ih => exact ih

namespace Machine

theorem startFollows (behaviours : first.UpToLeeway concord second)
    (worlds : World.UpToLeeway concord old past world other) (queue : QueueId) (initial : Option ν)
    (rests : (concord.leeway queue).shifts = true → (other.agenda queue).Rests)
    (stacked : concord.Stack bottom (concord.leeway queue) callers mates) :
    Progress.Follows concord old past bottom second
      (.running (start first world callers queue initial))
      (.running (start second other mates queue initial)) := by
  have named : other.nameOf queue = world.nameOf queue := (worlds.queues queue).name
  have asked := worlds.record (.startRun queue (world.nameOf queue))
  unfold start Scheduler.startRun
  rw [behaviours.neutral, named]
  cases shifts : (concord.leeway queue).shifts with
  | false =>
    exact Turn.UpToLeeway.follows (.enter _ _ (.intro _ _ _ _ _ (.startingRun queue _ shifts)
      ((behaviours.recorder queue shifts).startRun _)) rfl) asked stacked
  | true =>
    obtain ⟨rfl, rfl, rfl⟩ := stacked.alone shifts
    obtain ⟨mute, also⟩ := behaviours.mute queue shifts
    exact ⟨_, .refl, .recording _ _ _ _ asked
      (.startingRun queue _ _ _ shifts (rests shifts) (mute.startRun _) (also.startRun _)) rfl⟩

theorem muteFollows {stage : Stage κ ν} {mate : Stage κ' ν}
    {due : Ending (stage.Answer ε) → Prop} {owed : Ending (mate.Answer ε) → Prop}
    {code : Program κ ν ε (stage.Answer ε)} {also : Program κ' ν ε (mate.Answer ε)}
    (mute : code.Mute concord.heard due) (silent : also.Mute concord.heard owed)
    (worlds : World.UpToLeeway concord old past world other)
    (plain : ∀ code : Program κ ν ε (stage.Answer ε), Frame.joined ⟨stage, code⟩ = ⟨stage, code⟩)
    (on : ∀ {next rest}, Program.Mute concord.heard due rest →
      World.UpToLeeway concord old past next other → Progress.Concert concord old past bottom
        (.running ⟨next, ⟨stage, rest⟩, []⟩)
        (Progress.running ⟨other, ⟨mate, also⟩, []⟩).joined)
    (ends : ∀ {early late last}, due early → owed late → other.Unmoved concord.heard last →
      World.UpToLeeway concord old past world last →
      Progress.Follows concord old past bottom second
        (resume [] (Scheduler.conclude first world stage early))
        (resume [] (Scheduler.conclude second last mate late))) :
    Progress.Follows concord old past bottom second ((mk world ⟨stage, code⟩ []).advance first)
      (.running ⟨other, ⟨mate, also⟩, []⟩) := by
  cases mute with
  | ended early holds =>
    obtain ⟨late, last, owes, unmoved, path⟩ := silent.concludes second other [] mate
    obtain ⟨final, onward, concert⟩ := ends holds owes unmoved (worlds.unmovedAlso unmoved)
    rw [advanceEnding]
    exact ⟨final, path.trans onward, concert⟩
  | idle _ rest idles later =>
    obtain ⟨next, unmoved, going⟩ := idles.advance first world []
    refine ⟨_, .refl, ?_⟩
    rw [Progress.joinedOf going, joined, plain]
    exact on (later world) (worlds.unmoved unmoved)

theorem recordingFollows (behaviours : first.UpToLeeway concord second)
    (worlds : World.UpToLeeway concord old past world other) {frame : Frame κ ν ε}
    {mate : Frame κ' ν ε}
    (records : Records concord other frame mate) (own : bottom = concord.leewayAt frame.stage) :
    Progress.Follows concord old past bottom second ((mk world frame []).advance first)
      (.running ⟨other, mate, []⟩) := by
  subst own
  cases records with
  | startingRun queue value code also shifts rests mute silent =>
    refine muteFollows mute silent worlds (fun _ => rfl) (fun rest alike =>
      .recording _ _ _ _ alike (.startingRun queue value _ _ shifts rests rest silent) rfl) ?_
    rintro _ _ last ⟨id, rfl⟩ ⟨index, rfl⟩ unmoved alike
    have runs : Run.UpToLeeway concord ⟨queue, id, 0⟩ ⟨queue, index, 0⟩ :=
      ⟨rfl, Leeway.notTight shifts⟩
    have resting : (last.agenda queue).Rests := unmoved.agenda queue ▸ rests
    exact Scheduler.proceedFollows behaviours
      (alike.record (.started queue id index _ _ (Leeway.notTight shifts)))
      runs value (fun _ => resting) .nil
  | startingStep run id value entry twin info news code also shifts runs entries infos mute
      silent =>
    refine muteFollows mute silent worlds (fun _ => rfl) (fun rest alike => .recording _ _ _ _ alike
      (.startingStep run id value entry twin info news _ _ shifts runs entries infos rest silent)
      rfl) ?_
    rintro _ _ last ⟨step, rfl⟩ ⟨other, rfl⟩ unmoved alike
    exact Scheduler.applyFollows behaviours alike runs (Leeway.notTight shifts)
      value (entries) (infos) .nil
  | completingStep run id info news verdict twin code also shifts runs verdicts rests mute silent =>
    refine muteFollows mute silent worlds (fun _ => rfl) (fun rest alike => .recording _ _ _ _ alike
      (.completingStep run id info news verdict twin _ _ shifts runs verdicts rests rest silent)
      rfl) ?_
    intro early late last well heard unmoved alike
    rw [Scheduler.stepHeard _ _ _ _ _ well, Scheduler.stepHeard _ _ _ _ _ heard]
    have noted := alike.noting (Scheduler.complained concord.heard run.queue info early)
      (Scheduler.complained concord.heard id.queue news late)
    refine Scheduler.stepCompletedFollows behaviours noted runs (verdicts)
      (fun value completed _ => ?_) .nil
    have same : (last.noting (late.complaint?.map (.stepUnrecorded id.queue news))).agenda
        run.queue = other.agenda run.queue := by
      cases late <;> exact unmoved.agenda run.queue
    exact same ▸ rests value completed
  | completingRun run id verdict twin code also shifts runs verdicts mute silent =>
    refine muteFollows mute silent worlds (fun _ => rfl) (fun rest alike => .recording _ _ _ _ alike
      (.completingRun run id verdict twin _ _ shifts runs verdicts rest silent) rfl) ?_
    intro early late last well heard unmoved alike
    rw [Scheduler.runHeard _ _ _ _ well, Scheduler.runHeard _ _ _ _ heard]
    exact Scheduler.runCompletedFollows (alike.noting
      (Scheduler.runComplained concord.heard run.queue early)
      (Scheduler.runComplained concord.heard id.queue late)) runs (verdicts)
      .nil

/- One step inside corresponding code. The induction is on how the codes agree: idle stretches
and the appends of more observers are not matched. -/
theorem actingFollows (behaviours : first.UpToLeeway concord second) {stage : Stage κ ν}
    {mate : Stage κ' ν}
    {meets : Ending (stage.Answer ε) → Ending (mate.Answer ε) → Prop}
    (stages : Stage.UpToLeeway concord stage mate meets) {code : Program κ ν ε (stage.Answer ε)}
    {also : Program κ' ν ε (mate.Answer ε)} (codes : code.UpToLeeway concord meets also)
    (worlds : World.UpToLeeway concord old past world other)
    (stacked : concord.Stack bottom (concord.leewayAt stage) callers mates) :
    Progress.Follows concord old past bottom second
      ((mk world ⟨stage, code⟩ callers).advance first)
      (.running ⟨other, ⟨mate, also⟩, mates⟩) := by
  have acts {world : World κ ν ε} {other : World κ' ν ε}
      (worlds : World.UpToLeeway concord old past world other)
      {code : Program κ ν ε (stage.Answer ε)} {also : Program κ' ν ε (mate.Answer ε)}
      (codes : code.UpToLeeway concord meets also) {a : Progress κ ν ε} {b : Progress κ' ν ε}
      (early : a.machine? = some ⟨world, ⟨stage, code⟩, callers⟩)
      (late : b.machine? = some ⟨other, ⟨mate, also⟩, mates⟩) :
      a.joined.Concert concord old past bottom b.joined := by
    rw [Progress.joinedOf early, Progress.joinedOf late]
    simp only [joined, stages.plain.1, stages.plain.2, stacked.joined.1, stacked.joined.2]
    exact .acting _ _ _ _ _ _ worlds (.intro _ _ _ _ _ stages codes) stacked
  induction codes generalizing other with
  | ended early late meet =>
    have step : Progress.Turns second (.running ⟨other, ⟨mate, late.code⟩, mates⟩) _ :=
      .advance _ _ rfl
    rw [advanceEnding] at step ⊢
    obtain ⟨last, path, concert⟩ := Scheduler.concludeFollows behaviours worlds stages meet stacked
    exact ⟨last, .head step path, concert⟩
  | append queue step twin code also twins codes =>
    exact ⟨_, .single (.advance _ _ rfl), acts (worlds.append queue twins) codes rfl rfl⟩
  | extra queue step code also shifts extra codes ih =>
    obtain ⟨last, path, concert⟩ := ih (worlds.appendExtra shifts extra)
    exact ⟨last, .head (.advance _ _ rfl) path, concert⟩
  | ask queue code also codes | look queue code also codes =>
    exact ⟨_, .single (.advance _ _ rfl), acts worlds (codes (worlds.queues queue)) rfl rfl⟩
  | note remark code also codes =>
    exact ⟨_, .single (.advance _ _ rfl), acts (worlds.record (.noted remark)) codes rfl rfl⟩
  | discard queue code also codes =>
    refine ⟨_, .single (.advance _ _ rfl), ?_⟩
    dsimp only [advance]
    rw [(worlds.queues queue).taken]
    split
    · exact acts worlds (codes false) rfl rfl
    · exact acts (worlds.take queue) (codes true) rfl rfl
  | run queue initial code also none codes =>
    have step : Progress.Turns second
        (.running ⟨other, ⟨mate, .run queue initial also⟩, mates⟩) _ :=
      .advance _ _ rfl
    dsimp only [advance] at step ⊢
    rw [(worlds.queues queue).taken] at step
    split
    · next taken =>
      rw [if_pos taken] at step
      exact ⟨_, .single step, acts worlds none rfl rfl⟩
    · next untaken =>
      rw [if_neg untaken] at step
      have exact : concord.leeway queue = {} :=
        Classical.not_not.mp fun special => untaken (worlds.taken queue special)
      have deeper : concord.Stack bottom (concord.leeway queue) (⟨stage, code⟩ :: callers)
          (⟨mate, also⟩ :: mates) := by
        rw [exact]
        exact .cons _ _ _ _ (.intro _ _ _ _ _ stages none codes) stacked
      have tight : (concord.leeway queue).shifts ≠ true := by
        rw [exact]
        exact Bool.false_ne_true
      obtain ⟨last, path, concert⟩ := startFollows behaviours (worlds.take queue) queue initial
        (fun shifts => absurd shifts tight) deeper
      exact ⟨last, .head step path, concert⟩
  | left code rest also idles codes =>
    obtain ⟨next, unmoved, going⟩ := idles.advance first world callers
    exact ⟨_, .refl, acts (worlds.unmoved unmoved) (codes world) going rfl⟩
  | right code also rest idles codes ih =>
    obtain ⟨next, unmoved, going⟩ := idles.advance second other mates
    obtain ⟨last, path, concert⟩ := ih other (worlds.unmovedAlso unmoved)
    obtain ⟨final, onward, same⟩ := Progress.goesJoined path (Progress.joinedOf going)
    exact ⟨final, .head (.advance _ _ rfl) onward, same ▸ concert⟩

end Machine

theorem Progress.joinedTwice (progress : Progress κ ν ε) :
    progress.joined.joined = progress.joined := by
  cases progress <;> simp only [joined, Machine.joinedTwice]

theorem Progress.Turns.since {a c : Progress κ ν ε} (turn : Progress.Turns first a c) :
    a.world.Since c.world := by
  obtain ⟨machine, here⟩ := turn
  cases a with
  | running _ | suspended _ =>
    cases here
    exact machine.advanceSince first
  | ended _ _ => cases here

theorem Progress.Concert.simulates (behaviours : first.UpToLeeway concord second)
    {a c : Progress κ ν ε}
    {b : Progress κ' ν ε} (concert : a.joined.Concert concord old past bottom b.joined)
    (turn : Progress.Turns first a c) : Progress.Follows concord old past bottom second c b := by
  have moves {machine : Machine κ ν ε} {mate : Machine κ' ν ε} (here : b.joined = .running mate)
      (moved : c.joined = (machine.advance first).joined)
      (follows : Progress.Follows concord old past bottom second (machine.advance first)
        (.running mate)) : Progress.Follows concord old past bottom second c b := by
    obtain ⟨last, path, concert⟩ := follows
    have same : b.joined = (Progress.running mate).joined := by
      rw [← here, Progress.joinedTwice]
    obtain ⟨final, onward, joined⟩ := Progress.goesJoined path same
    exact ⟨final, onward, by rw [moved, joined]; exact concert⟩
  rcases Progress.turnJoined turn with still | ⟨machine, here, moved⟩
  · exact ⟨b, .refl, still ▸ concert⟩
  · generalize early : a.joined = start, late : b.joined = also at concert
    cases concert with
    | acting world other frame mate callers mates worlds frames stacked =>
      obtain rfl := Progress.running.inj (early.symm.trans here)
      obtain ⟨stage, mate, code, also, meets, stages, codes⟩ := frames
      exact moves late moved (Machine.actingFollows behaviours stages codes worlds stacked)
    | recording world other frame mate worlds records own =>
      obtain rfl := Progress.running.inj (early.symm.trans here)
      exact moves late moved (Machine.recordingFollows behaviours worlds records own)
    | ended => cases early.symm.trans here
    | parted _ _ queue remaining others older past shifts unsteady told before also =>
      refine ⟨b, .refl, late ▸ .parted _ _ queue remaining others _ _ shifts unsteady told ?_ also⟩
      rw [← early, Progress.worldOfJoined] at before
      rw [Progress.worldOfJoined]
      exact before.trans turn.since.history

namespace Progress.Concert

variable {a c : Progress κ ν ε} {b : Progress κ' ν ε}

theorem along (behaviours : first.UpToLeeway concord second)
    (concert : a.joined.Concert concord old past bottom b.joined) (path : Progress.Goes first a c) :
    Progress.Follows concord old past bottom second c b := by
  have kept {x z : Progress κ ν ε} {y : Progress κ' ν ε}
      (concert : x.joined.Concert concord old past bottom y.joined)
      (turn : Progress.Turns first x z) (_ : Progress.Goes first z c) :
      Progress.Follows concord old past bottom second z y :=
    concert.simulates behaviours turn
  exact Progress.simulated kept concert path

theorem worlds (concert : a.joined.Concert concord old past bottom b.joined)
    (steady : concord.steady = true) : World.UpToLeeway concord old past a.world b.world := by
  rw [← Progress.worldOfJoined a, ← Progress.worldOfJoined b]
  generalize a.joined = first, b.joined = second at concert ⊢
  cases concert with
  | acting _ _ _ _ _ _ worlds | recording _ _ _ _ worlds | ended _ _ _ _ worlds => exact worlds
  | parted _ _ queue remaining others early late shifts unsteady =>
    cases unsteady.symm.trans steady

theorem ends {last : World κ ν ε} {outcome : Outcome ν}
    (concert : (Progress.ended last outcome).joined.Concert concord old past bottom b.joined)
    (steady : concord.steady = true) :
    ∃ other result, b = .ended other result ∧ Outcome.UpToLeeway concord bottom outcome result := by
  generalize early : (Progress.ended last outcome).joined = first,
    late : b.joined = second at concert
  cases concert with
  | acting | recording => cases early
  | parted _ _ queue remaining others early late shifts unsteady =>
    cases unsteady.symm.trans steady
  | ended _ other _ result _ outcomes =>
    cases early
    cases b with
    | running | suspended => cases late
    | ended => cases late; exact ⟨other, result, rfl, outcomes⟩

end Progress.Concert

theorem Behaviour.UpToLeeway.follows (behaviours : first.UpToLeeway concord second)
    (worlds : World.UpToLeeway concord old past world other) (queue : QueueId) (initial : Option ν)
    (rests : (concord.leeway queue).shifts = true → (other.agenda queue).Rests)
    {progress : Progress κ ν ε}
    (runs : (Machine.start first world [] queue initial).Runs first progress) :
    ∃ mate, (Machine.start second other [] queue initial).Runs second mate ∧
      progress.joined.Concert concord old past (concord.leeway queue) mate.joined := by
  obtain ⟨begun, path, concert⟩ :=
    Machine.startFollows behaviours worlds queue initial rests .nil
  obtain ⟨mate, onward, concert⟩ := Progress.Concert.along behaviours concert runs
  exact ⟨mate, path.trans onward, concert⟩

end Sequencer
