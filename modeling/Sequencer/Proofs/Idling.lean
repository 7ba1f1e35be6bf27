import Sequencer.Proofs.Execution
import Sequencer.Proofs.Course
import Sequencer.Proofs.Recoding

/-! Code that is the same up to idling: it asks the same of the queues, and so on with every
answer, while idle stretches of either piece count for nothing. The steps may go by other codes,
and how the endings have to meet is left open. Up to names, two executions also differ in the ids
that recorders give. A bond says how two executions go together: what the codes are called in the
other one, which ids correspond, which queues are kept apart, and what is told of the events of
each. -/
namespace Sequencer

variable {κ κ' ν ε β γ : Type} {heard : ε → Bool} {f : κ → κ'}

namespace Program

inductive UpToIdling (heard : ε → Bool) (f : κ → κ') (meets : Ending β → Ending γ → Prop) :
    Program κ ν ε β → Program κ' ν ε γ → Prop where
  | ended (first second) (meet : meets first second) :
      UpToIdling heard f meets first.code second.code
  | append (queue step first second) (on : UpToIdling heard f meets first second) :
      UpToIdling heard f meets (.append queue step first) (.append queue (step.recode f) second)
  | ask (queue first second)
      (on : ∀ status, UpToIdling heard f meets (first status) (second status)) :
      UpToIdling heard f meets (.ask queue first) (.ask queue second)
  | look (queue first second)
      (on : ∀ snapshot, UpToIdling heard f meets (first snapshot) (second snapshot)) :
      UpToIdling heard f meets (.look queue first) (.look queue second)
  | note (remark first second) (on : UpToIdling heard f meets first second) :
      UpToIdling heard f meets (.note remark first) (.note remark second)
  | discard (queue first second)
      (on : ∀ taken, UpToIdling heard f meets (first taken) (second taken)) :
      UpToIdling heard f meets (.discard queue first) (.discard queue second)
  | run (queue initial first second)
      (on : ∀ result, UpToIdling heard f meets (first result) (second result)) :
      UpToIdling heard f meets (.run queue initial first) (.run queue initial second)
  | left (first rest second) (idles : first.Idles heard rest)
      (on : ∀ world, UpToIdling heard f meets (rest world) second) :
      UpToIdling heard f meets first second
  | right (first second rest) (idles : second.Idles heard rest)
      (on : ∀ world, UpToIdling heard f meets first (rest world)) :
      UpToIdling heard f meets first second

theorem recodeUpToIdling {meets : Ending β → Ending β → Prop} (same : ∀ ending, meets ending ending)
    (program : Program κ ν ε β) : program.UpToIdling heard f meets (program.recode f) := by
  induction program with
  | done answer => exact .ended (.returned answer) (.returned answer) (same _)
  | fail failure => exact .ended (.failed failure) (.failed failure) (same _)
  | panic payload => exact .ended (.panicked payload) (.panicked payload) (same _)
  | append queue step next ih => exact .append queue step next _ ih
  | ask queue next ih => exact .ask queue next _ ih
  | look queue next ih => exact .look queue next _ ih
  | note remark next ih => exact .note remark next _ ih
  | suspend next ih =>
    exact .left _ _ _ (.suspend next) fun _ => .right _ _ _ (.suspend _) fun _ => ih
  | discard queue next ih => exact .discard queue next _ ih
  | run queue initial next ih => exact .run queue initial next _ ih

theorem recodeSame (program : Program κ ν ε β) : program.recode id = program := by
  induction program with
  | append queue step next ih =>
    simp only [recode, ih]
    rfl
  | _ => simp only [recode, *]

theorem sameUpToIdling {meets : Ending β → Ending β → Prop} (same : ∀ ending, meets ending ending)
    (program : Program κ ν ε β) : program.UpToIdling heard id meets program := by
  have alike : program.UpToIdling heard id meets (program.recode id) :=
    recodeUpToIdling same program
  rwa [recodeSame] at alike

theorem UpToIdling.swap {g : κ' → κ} (back : ∀ code, g (f code) = code)
    {meets : Ending β → Ending γ → Prop} {first : Program κ ν ε β} {second : Program κ' ν ε γ}
    (alike : first.UpToIdling heard f meets second) :
    second.UpToIdling heard g (fun late early => meets early late) first := by
  induction alike with
  | ended first second meet => exact .ended second first meet
  | append queue step first second on ih =>
    have again := UpToIdling.append queue (step.recode f) second first ih
    have same : (step.recode f).recode g = step := by simp only [Step.recode, back]
    rwa [same] at again
  | ask queue first second on ih => exact .ask queue second first ih
  | look queue first second on ih => exact .look queue second first ih
  | note remark first second on ih => exact .note remark second first ih
  | discard queue first second on ih => exact .discard queue second first ih
  | run queue initial first second on ih => exact .run queue initial second first ih
  | left first rest second idles on ih => exact .right second first rest idles ih
  | right first second rest idles on ih => exact .left second rest first idles ih

theorem UpToIdling.weaken {meets meets' : Ending β → Ending γ → Prop}
    (weaker : ∀ early late, meets early late → meets' early late) {first : Program κ ν ε β}
    {second : Program κ' ν ε γ} (alike : first.UpToIdling heard f meets second) :
    first.UpToIdling heard f meets' second := by
  induction alike with
  | ended first second meet => exact .ended first second (weaker _ _ meet)
  | append queue step first second on ih => exact .append queue step first second ih
  | ask queue first second on ih => exact .ask queue first second ih
  | look queue first second on ih => exact .look queue first second ih
  | note remark first second on ih => exact .note remark first second ih
  | discard queue first second on ih => exact .discard queue first second ih
  | run queue initial first second on ih => exact .run queue initial first second ih
  | left first rest second idles on ih => exact .left first rest second idles ih
  | right first second rest idles on ih => exact .right first second rest idles ih

theorem Mute.upToIdling {meets : Ending β → Ending γ → Prop} {due : Ending β → Prop}
    {also : Ending γ → Prop} {first : Program κ ν ε β} {second : Program κ' ν ε γ}
    (mute : first.Mute heard due) (silent : second.Mute heard also)
    (meet : ∀ early late, due early → also late → meets early late) :
    first.UpToIdling heard f meets second := by
  induction mute with
  | idle first rest idles on ih => exact .left first rest second idles ih
  | ended early holds =>
    induction silent with
    | ended late also => exact .ended early late (meet early late holds also)
    | idle second rest idles on ih => exact .right _ second rest idles ih

theorem Mute.recode (g : κ' → κ) {due : Ending β → Prop} {program : Program κ ν ε β}
    (mute : program.Mute heard due) : (program.recode f).Mute heard due := by
  induction mute with
  | ended ending holds =>
    have same : (ending.code : Program κ ν ε β).recode f = ending.code := by cases ending <;> rfl
    exact same ▸ .ended ending holds
  | idle program rest idles on ih =>
    cases idles with
    | note remark next unheard =>
      exact .idle _ _ (.note remark _ unheard) fun world => ih (world.recode g)
    | suspend next => exact .idle _ _ (.suspend _) fun world => ih (world.recode g)
    | ask queue next =>
      refine .idle _ _ (.ask queue _) fun world => ?_
      have found : Mute heard due (Program.recode f (next ((world.recode g).queue queue).status)) :=
        ih (world.recode g)
      rw [World.queueOfRecode] at found
      exact found
    | look queue next =>
      refine .idle _ _ (.look queue _) fun world => ?_
      have found :
          Mute heard due (Program.recode f (next ((world.recode g).queue queue).snapshot)) :=
        ih (world.recode g)
      rwa [World.queueOfRecode, Queue.recodeSnapshot] at found

def touched? : Program κ ν ε β → Option QueueId
  | append queue _ _ | ask queue _ | look queue _ => some queue
  | _ => none

end Program

structure Tie where
  runs : Int → Int → Prop
  steps : Int → Int → Prop

/- The queues whose recorders may give other ids, and fail to record a completion that the other
recorder records. On every other queue ids and answers are the same. -/
abbrev Ties := QueueId → Option Tie

def Tie.identical : Tie := ⟨Eq, Eq⟩

def Tie.any : Tie := ⟨fun _ _ => True, fun _ _ => True⟩

def Tie.swap (tie : Tie) : Tie := ⟨fun a b => tie.runs b a, fun a b => tie.steps b a⟩

theorem Tie.runsOfSwap (tie : Option Tie) (a b : Int) :
    ((tie.map Tie.swap).getD .identical).runs b a ↔ (tie.getD .identical).runs a b := by
  cases tie with
  | none => exact eq_comm
  | some tie => exact .rfl

theorem Tie.stepsOfSwap (tie : Option Tie) (a b : Int) :
    ((tie.map Tie.swap).getD .identical).steps b a ↔ (tie.getD .identical).steps a b := by
  cases tie with
  | none => exact eq_comm
  | some tie => exact .rfl

namespace Ties

def loose (ties : Ties) (queue : QueueId) : Bool :=
  (ties queue).isSome

def tie (ties : Ties) (queue : QueueId) : Tie :=
  (ties queue).getD .identical

def swap (ties : Ties) : Ties :=
  fun queue => (ties queue).map .swap

theorem looseOfSwap (ties : Ties) : ties.swap.loose = ties.loose :=
  funext fun _ => Option.isSome_map

end Ties

namespace Ending

inductive Answered (tied : Int → Int → Prop) : Ending Int → Ending Int → Prop where
  | returned (first second) (ids : tied first second) :
      Answered tied (.returned first) (.returned second)
  | failed (failure) : Answered tied (.failed failure) (.failed failure)
  | panicked (payload) : Answered tied (.panicked payload) (.panicked payload)

inductive Heeded (loose : Bool) : Ending Unit → Ending Unit → Prop where
  | same (ending) : Heeded loose ending ending
  | either (first second) (exempt : loose = true) (well : first.Heard) (also : second.Heard) :
      Heeded loose first second

inductive Called (heard : ε → Bool) (f : κ → κ') :
    Ending (Program κ ν ε ν) → Ending (Program κ' ν ε ν) → Prop where
  | returned (first second) (alike : first.UpToIdling heard f Eq second) :
      Called heard f (.returned first) (.returned second)
  | failed (failure) : Called heard f (.failed failure) (.failed failure)
  | panicked (payload) : Called heard f (.panicked payload) (.panicked payload)

theorem answeredSame (ending : Ending Int) : ending.Answered Eq ending := by
  cases ending with
  | returned id => exact .returned id id rfl
  | failed failure => exact .failed failure
  | panicked payload => exact .panicked payload

theorem calledSame (ending : Ending (Program κ ν ε ν)) : ending.Called heard id ending := by
  cases ending with
  | returned program =>
    exact .returned program program (Program.sameUpToIdling (fun _ => rfl) program)
  | failed failure => exact .failed failure
  | panicked payload => exact .panicked payload

theorem Answered.swap {tied other : Int → Int → Prop} (turned : ∀ a b, tied a b → other b a)
    {first second : Ending Int} (answered : first.Answered tied second) :
    second.Answered other first := by
  cases answered with
  | returned first second ids => exact .returned second first (turned first second ids)
  | failed failure => exact .failed failure
  | panicked payload => exact .panicked payload

theorem Heeded.swap {loose : Bool} {first second : Ending Unit}
    (heeded : first.Heeded loose second) : second.Heeded loose first := by
  cases heeded with
  | same => exact .same first
  | either _ exempt well also => exact .either second first exempt also well

end Ending

/- Two recorders of one queue: corresponding calls ask the same of the queues; the starts end in
one way, and so do the completions unless the queue is loose. -/
structure Recorder.UpToNames (heard : ε → Bool) (f : κ → κ') (tie : Option Tie)
    (first : Recorder κ ν ε) (second : Recorder κ' ν ε) : Prop where
  startRun : ∀ name, (first.startRun name).UpToIdling heard f
    (Ending.Answered (tie.getD .identical).runs) (second.startRun name)
  startStep : ∀ {run other}, (tie.getD .identical).runs run other → ∀ info,
    (first.startStep run info).UpToIdling heard f
      (Ending.Answered (tie.getD .identical).steps) (second.startStep other info)
  completeStep : ∀ {step other}, (tie.getD .identical).steps step other → ∀ info status,
    (first.completeStep info step status).UpToIdling heard f (Ending.Heeded tie.isSome)
      (second.completeStep info other status)
  completeRun : ∀ {run other}, (tie.getD .identical).runs run other → ∀ status,
    (first.completeRun run status).UpToIdling heard f (Ending.Heeded tie.isSome)
      (second.completeRun other status)

theorem Recorder.recodeUpToNames (recorder : Recorder κ ν ε) :
    recorder.UpToNames heard f none (recorder.recode f) where
  startRun _ := Program.recodeUpToIdling Ending.answeredSame _
  startStep tied _ := tied ▸ Program.recodeUpToIdling Ending.answeredSame _
  completeStep tied _ _ := tied ▸ Program.recodeUpToIdling .same _
  completeRun tied _ := tied ▸ Program.recodeUpToIdling .same _

theorem Recorder.sameUpToNames (recorder : Recorder κ ν ε) :
    recorder.UpToNames heard id none recorder where
  startRun _ := Program.sameUpToIdling Ending.answeredSame _
  startStep tied _ := tied ▸ Program.sameUpToIdling Ending.answeredSame _
  completeStep tied _ _ := tied ▸ Program.sameUpToIdling .same _
  completeRun tied _ := tied ▸ Program.sameUpToIdling .same _

theorem Recorder.UpToNames.swap {g : κ' → κ} (back : ∀ code, g (f code) = code) {tie : Option Tie}
    {first : Recorder κ ν ε} {second : Recorder κ' ν ε}
    (alike : first.UpToNames heard f tie second) :
    second.UpToNames heard g (tie.map .swap) first where
  startRun name := ((alike.startRun name).swap back).weaken fun _ _ =>
    .swap fun a b => (Tie.runsOfSwap tie a b).mpr
  startStep tied info :=
    ((alike.startStep ((Tie.runsOfSwap tie _ _).mp tied) info).swap back).weaken fun _ _ =>
      .swap fun a b => (Tie.stepsOfSwap tie a b).mpr
  completeStep tied info status :=
    ((alike.completeStep ((Tie.stepsOfSwap tie _ _).mp tied) info status).swap back).weaken
      fun _ _ meet => by rw [Option.isSome_map]; exact meet.swap
  completeRun tied status :=
    ((alike.completeRun ((Tie.runsOfSwap tie _ _).mp tied) status).swap back).weaken
      fun _ _ meet => by rw [Option.isSome_map]; exact meet.swap

def Ending.Granted (ending : Ending β) : Prop := ∃ answer, ending = .returned answer

structure Recorder.Mute (heard : ε → Bool) (recorder : Recorder κ ν ε) : Prop where
  startRun : ∀ name, (recorder.startRun name).Mute heard Ending.Granted
  startStep : ∀ run info, (recorder.startStep run info).Mute heard Ending.Granted
  completeStep : ∀ info step status,
    (recorder.completeStep info step status).Mute heard Ending.Heard
  completeRun : ∀ run status, (recorder.completeRun run status).Mute heard Ending.Heard

theorem Recorder.silentMute : (Recorder.silent : Recorder κ ν ε).Mute heard where
  startRun _ := .ended (.returned 0) ⟨0, rfl⟩
  startStep _ _ := .ended (.returned 0) ⟨0, rfl⟩
  completeStep _ _ _ := .ended (.returned ()) trivial
  completeRun _ _ := .ended (.returned ()) trivial

inductive Event.UpToNames (f : κ → κ') (ties : Ties) (shared : QueueId → Prop) :
    Event κ ν ε → Event κ' ν ε → Prop where
  | same (event) (own : ∀ queue, event.queue? = some queue → shared queue) :
      UpToNames f ties shared event (event.recode f)
  | started (queue run other queued) (own : shared queue) (ids : (ties.tie queue).runs run other) :
      UpToNames f ties shared (.started queue run queued) (.started queue other queued)
  | startStep (queue run other info) (own : shared queue) (ids : (ties.tie queue).runs run other) :
      UpToNames f ties shared (.asked queue (.startStep run info))
        (.asked queue (.startStep other info))
  | applied (queue step other entry info input) (own : shared queue)
      (ids : (ties.tie queue).steps step other) :
      UpToNames f ties shared (.applied queue step entry info input)
        (.applied queue other (entry.recode f) info input)
  | completeStep (queue step other status) (own : shared queue)
      (ids : (ties.tie queue).steps step other) :
      UpToNames f ties shared (.asked queue (.completeStep step status))
        (.asked queue (.completeStep other status))
  | completeRun (queue run other status) (own : shared queue)
      (ids : (ties.tie queue).runs run other) :
      UpToNames f ties shared (.asked queue (.completeRun run status))
        (.asked queue (.completeRun other status))

theorem Event.UpToNames.shared {ties : Ties} {shared : QueueId → Prop} {event : Event κ ν ε}
    {other : Event κ' ν ε} (alike : event.UpToNames f ties shared other) {queue : QueueId}
    (mine : event.queue? = some queue) : shared queue := by
  cases alike with
  | same event own => exact own queue mine
  | started _ _ _ _ own | startStep _ _ _ _ own | applied _ _ _ _ _ _ own
  | completeStep _ _ _ _ own | completeRun _ _ _ _ own =>
    cases mine
    exact own

inductive Event.Untold (heard : ε → Bool) (ties : Ties) : Event κ ν ε → Prop where
  | stepUnrecorded (queue info failure) (loose : ties.loose queue = true) :
      Untold heard ties (.stepUnrecorded queue info failure)
  | runUnrecorded (queue failure) (loose : ties.loose queue = true) :
      Untold heard ties (.runUnrecorded queue failure)
  | noted (remark) (unheard : heard remark = false) : Untold heard ties (.noted remark)

structure Bond (κ κ' ν ε τ : Type) where
  recode : κ → κ'
  heard : ε → Bool
  ties : Ties
  -- For a queue that is kept apart, a fact on what waits there, its log and what waits in the other
  -- execution, which stays as it is while no one touches the queue.
  apart : QueueId → Option (Agenda κ → Log κ ν ε → Agenda κ' → Prop)
  left : Event κ ν ε → Option τ
  right : Event κ' ν ε → Option τ
  told : ∀ {event other}, Event.UpToNames recode ties (apart · = none) event other →
    left event = right other
  untold : ∀ {event}, Event.Untold heard ties event → left event = none
  untoldAlso : ∀ {event}, Event.Untold heard ties event → right event = none

variable {τ : Type}

structure Behaviour.UpToNames (bond : Bond κ κ' ν ε τ) (first : Behaviour κ ν ε)
    (second : Behaviour κ' ν ε) : Prop where
  neutral : first.neutral = second.neutral
  body : ∀ code {queue}, bond.apart queue = none → ∀ value, (first.body code queue value).UpToIdling
    bond.heard bond.recode Eq (second.body (bond.recode code) queue value)
  call : ∀ code {queue}, bond.apart queue = none → ∀ value, (first.call code queue value).UpToIdling
    bond.heard bond.recode (Ending.Called bond.heard bond.recode)
      (second.call (bond.recode code) queue value)
  watch : ∀ code {queue}, bond.apart queue = none → ∀ result,
    (first.watch code queue result).UpToIdling bond.heard bond.recode Eq
      (second.watch (bond.recode code) queue result)
  recorder : ∀ {queue}, bond.apart queue = none →
    (first.recorder queue).UpToNames bond.heard bond.recode (bond.ties queue)
      (second.recorder queue)

structure World.UpToNames (bond : Bond κ κ' ν ε τ) (first : World κ ν ε) (second : World κ' ν ε) :
    Prop where
  shared : ∀ {id}, bond.apart id = none → second.queue id = (first.queue id).recode bond.recode
  apart : ∀ {id fact}, bond.apart id = some fact →
    fact (first.agenda id) (first.log id) (second.agenda id) ∧
      (first.queue id).taken = true ∧ (second.queue id).taken = true
  history : first.history.filterMap bond.left = second.history.filterMap bond.right

end Sequencer
