import Sequencer.Proofs.Lockstep

/-! What a recorder cannot do. It takes part in a run by what it appends, by refusing a start and
by a panic. The ids it gives are handed back to it and to no one else, and whether it could record
a completion is only noted. So recorders that are the same up to names give runs that are, and one
that takes no part might as well be absent. -/
namespace Sequencer

variable {κ ν ε : Type} {heard : ε → Bool}

def Behaviour.recordedBy (behaviour : Behaviour κ ν ε) (recorder : QueueId → Recorder κ ν ε) :
    Behaviour κ ν ε :=
  { behaviour with recorder }

def Call.bare : Call → Call
  | .startRun name => .startRun name
  | .startStep _ info => .startStep 0 info
  | .completeStep _ status => .completeStep 0 status
  | .completeRun _ status => .completeRun 0 status

/- An event without the ids of loose queues, if it is to be told of at all: not told are completions
that a loose queue could not record, and remarks no one heeds. -/
def Event.outline (heard : ε → Bool) (loose : QueueId → Bool) :
    Event κ ν ε → Option (Event κ ν ε)
  | .asked queue call => some (.asked queue (if loose queue then call.bare else call))
  | .started queue run queued => some (.started queue (if loose queue then 0 else run) queued)
  | .applied queue step entry info input =>
    some (.applied queue (if loose queue then 0 else step) entry info input)
  | .stepUnrecorded queue info failure =>
    if loose queue then none else some (.stepUnrecorded queue info failure)
  | .runUnrecorded queue failure =>
    if loose queue then none else some (.runUnrecorded queue failure)
  | .noted remark => if heard remark then some (.noted remark) else none
  | event => some event

structure World.Similar (heard : ε → Bool) (loose : QueueId → Bool) (first second : World κ ν ε) :
    Prop where
  queues : ∀ id, first.queue id = second.queue id
  outline : first.history.filterMap (Event.outline heard loose) =
    second.history.filterMap (Event.outline heard loose)

inductive Progress.Similar (heard : ε → Bool) (loose : QueueId → Bool) :
    Progress κ ν ε → Progress κ ν ε → Prop where
  | going (first second machine other) (early : first.machine? = some machine)
      (late : second.machine? = some other)
      (worlds : machine.world.Similar heard loose other.world) :
      Similar heard loose first second
  | ended (first second outcome) (worlds : first.Similar heard loose second) :
      Similar heard loose (.ended first outcome) (.ended second outcome)

theorem Event.outlineUpToNames {ties : Ties} {shared : QueueId → Prop} {event other : Event κ ν ε}
    (alike : Event.UpToNames id ties shared event other) :
    event.outline heard ties.loose = other.outline heard ties.loose := by
  cases alike with
  | same event own => rw [event.recodeSame]
  | started queue _ _ _ _ ids | startStep queue _ _ _ _ ids | applied queue _ _ _ _ _ _ ids
  | completeStep queue _ _ _ _ ids | completeRun queue _ _ _ _ ids =>
    cases tie : ties queue with
    | none =>
      simp only [Ties.tie, tie] at ids
      cases ids
      rfl
    | some _ => simp only [outline, Ties.loose, tie, Option.isSome_some, if_true, Call.bare] <;> rfl

theorem Event.outlineUntold {ties : Ties} {event : Event κ ν ε} (untold : event.Untold heard ties) :
    event.outline heard ties.loose = none := by
  cases untold with
  | stepUnrecorded _ _ _ loose | runUnrecorded _ _ loose => simp only [outline, loose, if_true]
  | noted _ unheard => simp [outline, unheard]

variable (κ ν) in
def Ties.bond (heard : ε → Bool) (ties : Ties) : Bond κ κ ν ε (Event κ ν ε) where
  recode := id
  heard := heard
  ties := ties
  apart _ := none
  left := Event.outline heard ties.loose
  right := Event.outline heard ties.loose
  told := Event.outlineUpToNames
  untold := Event.outlineUntold
  untoldAlso := Event.outlineUntold

theorem World.UpToNames.similar {ties : Ties} {first second : World κ ν ε}
    (alike : first.UpToNames (ties.bond κ ν heard) second) :
    first.Similar heard ties.loose second where
  queues id := by rw [alike.shared rfl]; exact (first.queue id).recodeSame.symm
  outline := alike.history

theorem Behaviour.recordedUpToNames (behaviour : Behaviour κ ν ε) {ties : Ties}
    {first second : QueueId → Recorder κ ν ε}
    (alike : ∀ queue, (first queue).UpToNames heard id (ties queue) (second queue)) :
    (behaviour.recordedBy first).UpToNames (ties.bond κ ν heard) (behaviour.recordedBy second) where
  neutral := rfl
  body _ _ _ _ := Program.sameUpToIdling (fun _ => rfl) _
  call _ _ _ _ := Program.sameUpToIdling Ending.calledSame _
  watch _ _ _ _ := Program.sameUpToIdling (fun _ => rfl) _
  recorder {queue} _ := alike queue

/- The machine that runs a queue has no callers, so its result is the outcome. -/
def Alone (callers mates : List (Caller κ ν ε)) : Prop := callers = [] ∧ mates = []

theorem Progress.Match.similar {ties : Ties} {first second : Progress κ ν ε}
    (paired : first.Match (ties.bond κ ν heard) Alone second) :
    first.Similar heard ties.loose second := by
  cases paired with
  | going _ _ machine other early late machines =>
    exact .going _ _ machine other early late machines.worlds.similar
  | left world other worlds => exact .ended world other .left worlds.similar
  | based world other _ _ _ _ worlds ended based =>
    obtain ⟨rfl, rfl⟩ := based
    cases ended with
    | returned result => exact .ended world other (.returned result) worlds.similar
    | unwound payload => exact .ended world other (.panicked payload) worlds.similar

theorem Progress.Match.simulates {ties : Ties} {first second : Behaviour κ ν ε}
    (behaviours : first.UpToNames (ties.bond κ ν heard) second) {a b c : Progress κ ν ε}
    (paired : a.Match (ties.bond κ ν heard) Alone b)
    (step : Progress.Turns first a c) :
    ∃ d, Progress.Goes second b d ∧
      c.Match (ties.bond κ ν heard) Alone d := by
  obtain ⟨current, going⟩ := step
  cases paired with
  | left => exact nomatch going
  | based world other _ _ _ _ worlds ended based =>
    obtain ⟨rfl, rfl⟩ := based
    cases ended <;> exact nomatch going
  | going _ _ machine other early late machines =>
    obtain rfl := Option.some.inj (early.symm.trans going)
    obtain ⟨world, ⟨stage, code⟩, callers⟩ := machine
    obtain ⟨other, ⟨mate, also⟩, mates⟩ := other
    obtain ⟨worlds, ⟨_, _, _, _, meets, stages, codes⟩, stacked⟩ := machines
    exact Machine.lockstep behaviours stages codes (fun _ _ => rfl) stacked worlds late

theorem Recorder.Mute.upToNames {first second : Recorder κ ν ε} (mute : first.Mute heard)
    (also : second.Mute heard) : first.UpToNames heard id (some .any) second := by
  have granted (early late : Ending Int) (well : early.Granted) (other : late.Granted) :
      early.Answered (fun _ _ => True) late := by
    obtain ⟨id, rfl⟩ := well
    obtain ⟨mate, rfl⟩ := other
    exact .returned id mate trivial
  have heeded (early late : Ending Unit) (well : early.Heard) (other : late.Heard) :
      early.Heeded true late := .either early late rfl well other
  exact {
    startRun := fun name => (mute.startRun name).upToIdling (also.startRun name) granted
    startStep := fun _ info => (mute.startStep _ info).upToIdling (also.startStep _ info) granted
    completeStep := fun _ info status =>
      (mute.completeStep info _ status).upToIdling (also.completeStep info _ status) heeded
    completeRun := fun _ status =>
      (mute.completeRun _ status).upToIdling (also.completeRun _ status) heeded }

def Behaviour.Covers (heard : ε → Bool) (loose : QueueId → Bool) (first second : Behaviour κ ν ε) :
    Prop :=
  ∀ (world : World κ ν ε) (queue : QueueId) (initial : Option ν) (progress : Progress κ ν ε),
    (Machine.start first (world.take queue) [] queue initial).Runs first progress →
    ∃ last, (Machine.start second (world.take queue) [] queue initial).Runs second last ∧
      progress.Similar heard loose last

theorem Behaviour.UpToNames.covers {ties : Ties} {first second : Behaviour κ ν ε}
    (behaviours : first.UpToNames (ties.bond κ ν heard) second) :
    first.Covers heard ties.loose second := by
  intro world queue initial progress path
  have worlds : (world.take queue).UpToNames (ties.bond κ ν heard) (world.take queue) :=
    ⟨fun _ => (Queue.recodeSame _).symm, nofun, rfl⟩
  have alone : Stack (ties.bond κ ν heard) Alone [] [] := .base [] [] ⟨rfl, rfl⟩
  have own : (ties.bond κ ν heard).apart queue = none := rfl
  have started := Machine.startUpToNames behaviours worlds alone own initial
  obtain ⟨last, onward, paired⟩ := Progress.simulated
    (fun paired step _ => Progress.Match.simulates behaviours paired step)
    (.going _ (.running _) _ _ rfl rfl started) path
  exact ⟨last, onward, paired.similar⟩

theorem Behaviour.recordedCovers (behaviour : Behaviour κ ν ε) {ties : Ties}
    {first second : QueueId → Recorder κ ν ε}
    (alike : ∀ queue, (first queue).UpToNames heard id (ties queue) (second queue)) :
    (behaviour.recordedBy first).Covers heard ties.loose (behaviour.recordedBy second) :=
  (behaviour.recordedUpToNames alike).covers

/-- Recorders that ask the same of the queues and admit the same starts give runs that are alike,
and mute recorders give the run there is without them. -/
theorem Behaviour.recorderUnheard (behaviour : Behaviour κ ν ε) (heard : ε → Bool) :
    (∀ (ties : Ties) (first second : QueueId → Recorder κ ν ε),
      (∀ queue, (first queue).UpToNames heard id (ties queue) (second queue)) →
      (behaviour.recordedBy first).Covers heard ties.loose (behaviour.recordedBy second) ∧
      (behaviour.recordedBy second).Covers heard ties.loose (behaviour.recordedBy first)) ∧
    ∀ (loose : QueueId → Bool) (recorder : QueueId → Recorder κ ν ε),
      (∀ queue, loose queue = true → (recorder queue).Mute heard) →
      ∀ silenced, (∀ queue, silenced queue = if loose queue then .silent else recorder queue) →
      (behaviour.recordedBy recorder).Covers heard loose (behaviour.recordedBy silenced) ∧
      (behaviour.recordedBy silenced).Covers heard loose (behaviour.recordedBy recorder) := by
  have paired (ties : Ties) (first second : QueueId → Recorder κ ν ε)
      (alike : ∀ queue, (first queue).UpToNames heard id (ties queue) (second queue)) :
      (behaviour.recordedBy first).Covers heard ties.loose (behaviour.recordedBy second) ∧
      (behaviour.recordedBy second).Covers heard ties.loose (behaviour.recordedBy first) := by
    have turned (queue : QueueId) :
        (second queue).UpToNames heard id (ties.swap queue) (first queue) :=
      (alike queue).swap fun _ => rfl
    exact ⟨behaviour.recordedCovers alike, ties.looseOfSwap ▸ behaviour.recordedCovers turned⟩
  refine ⟨paired, fun loose recorder mute silenced same => ?_⟩
  let ties : Ties := fun queue => if loose queue then some .any else none
  have known : ties.loose = loose := by
    funext queue
    cases here : loose queue <;> simp [ties, Ties.loose, here]
  rw [← known]
  refine paired ties recorder silenced fun queue => ?_
  rw [same]
  cases here : loose queue with
  | false => simpa [ties, here] using (recorder queue).sameUpToNames
  | true => simpa [ties, here] using (mute queue here).upToNames Recorder.silentMute

def Recorder.grudging : Recorder κ ν ε where
  startRun _ := .done 5
  startStep _ info := .done (7 + info.index.toNat)
  completeStep _ _ _ := .fail (.message "full")
  completeRun _ _ := .fail (.message "full")

theorem Recorder.grudgingMute : (Recorder.grudging : Recorder κ ν ε).Mute heard where
  startRun _ := .ended (.returned 5) ⟨5, rfl⟩
  startStep _ info := .ended (.returned (7 + info.index.toNat : Int)) ⟨7 + info.index.toNat, rfl⟩
  completeStep _ _ _ := .ended (.failed (.message "full")) trivial
  completeRun _ _ := .ended (.failed (.message "full")) trivial

theorem Behaviour.recorderUnheardGrudging :
    let behaviour := Behaviour.countdown (.done 7) .silent
    let world : World Nat Nat Unit :=
      World.append ⟨[{ name := "q" }], []⟩ 0 { kind := .value, code := 1 }
    let grudging : QueueId → Recorder Nat Nat Unit := fun _ => .grudging
    let silent : QueueId → Recorder Nat Nat Unit := fun _ => .silent
    (∀ queue, (grudging queue).UpToNames (fun _ => true) id (some .any) (silent queue)) ∧
    (∀ queue, true = true → (grudging queue).Mute (fun _ => true)) ∧
    (∀ queue, silent queue = if true then .silent else grudging queue) ∧
    ∃ first second,
      (Machine.start (behaviour.recordedBy grudging) (world.take 0) [] 0 none).Runs
        (behaviour.recordedBy grudging) (.ended first (.returned (.ok 7))) ∧
      (Machine.start (behaviour.recordedBy silent) (world.take 0) [] 0 none).Runs
        (behaviour.recordedBy silent) (.ended second (.returned (.ok 7))) ∧
      first.Similar (fun _ => true) (fun _ => true) second ∧
      .runUnrecorded 0 (.message "full") ∈ first.history ∧
      ∃ again, (Machine.start (behaviour.recordedBy grudging) (world.take 0) [] 0 none).Runs
        (behaviour.recordedBy grudging) again ∧
        (Progress.ended second (.returned (.ok 7))).Similar
          (fun _ => true) (fun _ => true) again := by
  intro behaviour world grudging silent
  have alike (queue : QueueId) :
      (grudging queue).UpToNames (fun _ => true) id (some .any) (silent queue) :=
    Recorder.grudgingMute.upToNames Recorder.silentMute
  have mute (queue : QueueId) (_ : true = true) : (grudging queue).Mute fun _ => true :=
    Recorder.grudgingMute
  have same (queue : QueueId) : silent queue = if true then .silent else grudging queue := rfl
  have unheard := behaviour.recorderUnheard fun _ => true
  have path := Machine.pollRuns (behaviour.recordedBy grudging) 20
    (Machine.start (behaviour.recordedBy grudging) (world.take 0) [] 0 none)
  obtain ⟨last, onward, paired⟩ :=
    (unheard.1 (fun _ => some .any) grudging silent alike).1 world 0 none _ path
  cases paired with
  | ended first second outcome worlds =>
    have back := (unheard.2 (fun _ => true) grudging mute silent same).2 world 0 none _ onward
    exact ⟨alike, mute, same, _, second, path, onward, worlds, .tail _ (.head _), back⟩
  | going _ _ machine other early late worlds => cases early

end Sequencer
