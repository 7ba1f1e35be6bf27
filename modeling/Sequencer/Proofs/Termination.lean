import Sequencer.Proofs.Nodes

/-! Runs end. While a run goes on, what is still to come grows only by what recorders and the
outside append, and each step that is called takes something off it. Without such appends a run can
neither call steps for ever nor take ever new queues, and between two steps each piece of code and
each run comes to its end. -/
namespace Sequencer

variable {κ ν ε : Type} {weight : κ → Nat}

namespace Machine

def gift (weight : κ → Nat) (machine : Machine κ ν ε) : Nat :=
  match machine.frame.code with
  | .append _ step _ => if machine.frame.stage.stepping then 0 else weight step.code
  | _ => 0

inductive Waiting (weight : κ → Nat) : List (Caller κ ν ε) → Nat → Prop where
  | nil : Waiting weight [] 0
  | cons (caller rest left below)
      (within : ∀ result, (Frame.mk caller.stage (caller.resume result)).Within weight left)
      (more : Waiting weight rest below) : Waiting weight (caller :: rest) (left + below)

def Laden (weight : κ → Nat) (machine : Machine κ ν ε) (total : Nat) : Prop :=
  ∃ left below, machine.frame.Within weight left ∧ Waiting weight machine.callers below ∧
    machine.world.load weight + left + below ≤ total

end Machine

def Progress.Bounded (weight : κ → Nat) (progress : Progress κ ν ε) (sum : Nat) : Prop :=
  match progress with
  | .running machine | .suspended machine =>
    ∃ total, machine.Laden weight total ∧ machine.world.performed + total ≤ sum
  | .ended world _ => world.performed ≤ sum

namespace Conduct

/-- How a run goes on when it is polled without limit, and what comes to it from recorders and from
outside. While the run is suspended, anyone may append to any queue. -/
inductive Moves (conduct : Conduct κ ν ε) (weight : κ → Nat) :
    Progress κ ν ε → Nat → Progress κ ν ε → Prop where
  | step (machine) : Moves conduct weight (.running machine) (machine.gift weight)
      (machine.advance (conduct machine.world))
  | append (machine queue step) : Moves conduct weight (.suspended machine) (weight step.code)
      (.suspended { machine with world := machine.world.append queue step })
  | again (machine) : Moves conduct weight (.suspended machine) 0 (.running machine)
  | rest (world outcome) : Moves conduct weight (.ended world outcome) 0 (.ended world outcome)

end Conduct

theorem Progress.Bounded.performed {progress : Progress κ ν ε} {sum : Nat}
    (bounded : progress.Bounded weight sum) : progress.world.performed ≤ sum := by
  cases progress with
  | ended world outcome => exact bounded
  | _ =>
    obtain ⟨total, -, bound⟩ := bounded
    exact Nat.le_trans (Nat.le_add_right _ _) bound

theorem Progress.Bounded.more {progress : Progress κ ν ε} {sum more : Nat}
    (bounded : progress.Bounded weight sum) (bound : sum ≤ more) :
    progress.Bounded weight more := by
  cases progress with
  | ended world outcome => exact Nat.le_trans bounded bound
  | _ =>
    obtain ⟨total, laden, within⟩ := bounded
    exact ⟨total, laden, Nat.le_trans within bound⟩

section Steps

variable {behaviour : Behaviour κ ν ε} {world : World κ ν ε} {stage : Stage κ ν}
  {code next : Program κ ν ε (stage.Answer ε)} {callers : List (Caller κ ν ε)} {total left : Nat}

theorem Frame.Within.goesOn (within : (Frame.mk stage code).Within weight left)
    (onward : ∀ spare, code.Within weight (stage.due weight) spare →
      next.Within weight (stage.due weight) spare) :
    (Frame.mk stage next).Within weight left := by
  obtain ⟨spare, bound, within⟩ := within
  exact ⟨spare, bound, fun stepping => onward spare (within stepping)⟩

theorem Machine.Laden.goesOn {after : World κ ν ε}
    (laden : (Machine.mk world ⟨stage, code⟩ callers).Laden weight total)
    (load : after.load weight = world.load weight)
    (onward : ∀ spare, code.Within weight (stage.due weight) spare →
      next.Within weight (stage.due weight) spare) :
    (Machine.mk after ⟨stage, next⟩ callers).Laden weight total := by
  obtain ⟨left, below, within, waiting, bound⟩ := laden
  exact ⟨left, below, within.goesOn onward, waiting, by dsimp only at bound ⊢; omega⟩

theorem Machine.Laden.append {id : QueueId} {step : Step κ}
    (laden : (Machine.mk world ⟨stage, .append id step next⟩ callers).Laden weight total) :
    (Machine.mk (world.append id step) ⟨stage, next⟩ callers).Laden weight
      (total + (Machine.mk world ⟨stage, .append id step next⟩ callers).gift weight) := by
  obtain ⟨left, below, ⟨spare, held, within⟩, waiting, bound⟩ := laden
  dsimp only at held within bound
  unfold gift
  dsimp only
  cases stepping : stage.stepping with
  | false =>
    refine ⟨left, below, ⟨spare, held, fun busy => ?_⟩, waiting, ?_⟩
    · exact absurd busy (by simp [stepping])
    · simp only [World.loadOfAppend, Bool.false_eq_true, if_false]
      omega
  | true =>
    obtain ⟨enough, onward⟩ := within stepping
    refine ⟨left - weight step.code, below, ⟨spare - weight step.code, ?_, fun _ => onward⟩,
      waiting, ?_⟩
    · dsimp only
      omega
    · simp only [World.loadOfAppend, if_true]
      omega

theorem Machine.startLaden (behaviour : Behaviour κ ν ε) {below : Nat}
    (waiting : Waiting weight callers below) (id : QueueId) (initial : Option ν) :
    (Machine.start behaviour world callers id initial).Laden weight (world.load weight + below) :=
  ⟨0, below, Frame.withinUnbound _ rfl, waiting, Nat.le_refl _⟩

theorem Machine.Laden.more (laden : (Machine.mk world ⟨stage, code⟩ callers).Laden weight left)
    (bound : left ≤ total) : (Machine.mk world ⟨stage, code⟩ callers).Laden weight total := by
  obtain ⟨spare, below, within, waiting, load⟩ := laden
  exact ⟨spare, below, within, waiting, Nat.le_trans load bound⟩

theorem Machine.Laden.called {id : QueueId} {initial : Option ν}
    {resume : Option (Except RunError ν) → Program κ ν ε (stage.Answer ε)}
    (laden : (Machine.mk world ⟨stage, .run id initial resume⟩ callers).Laden weight total) :
    (Machine.start behaviour (world.take id) (⟨stage, resume⟩ :: callers) id initial).Laden weight
      total := by
  obtain ⟨left, below, within, waiting, bound⟩ := laden
  have called : Waiting weight (⟨stage, resume⟩ :: callers) (left + below) :=
    .cons ⟨stage, resume⟩ callers left below
      (fun result => within.goesOn fun _ within => within result) waiting
  refine (startLaden behaviour called id initial).more ?_
  rw [World.loadOfTake]
  dsimp only at bound
  omega

theorem Machine.startPerformed (behaviour : Behaviour κ ν ε) (id : QueueId) (initial : Option ν) :
    (Machine.start behaviour world callers id initial).world.performed = world.performed := by
  change (World.record _ _).performed = _
  simp [Event.performs]

theorem Machine.Waiting.resumed {caller : Caller κ ν ε} {rest : List (Caller κ ν ε)}
    (waiting : Waiting weight (caller :: rest) total) (bound : world.load weight + total ≤ left)
    (code : Program κ ν ε (caller.stage.Answer ε))
    (onward : (∃ result, code = caller.resume result) ∨ ∃ payload, code = .panic payload) :
    (Machine.mk world ⟨caller.stage, code⟩ rest).Laden weight left := by
  cases waiting with
  | cons caller rest spare below within more =>
    refine ⟨spare, below, ?_, more, by dsimp only; omega⟩
    rcases onward with ⟨result, rfl⟩ | ⟨payload, rfl⟩
    · exact within result
    · exact (within none).goesOn fun _ _ => trivial

theorem resumeBounded {after : World κ ν ε × Turn κ ν ε} {rank sum below : Nat}
    (pays : Turn.Pays weight world left rank after)
    (waiting : Machine.Waiting weight callers below)
    (bound : world.performed + world.load weight + left + below ≤ sum) :
    (Machine.resume callers after).Bounded weight sum := by
  obtain ⟨world, turn⟩ := after
  obtain ⟨-, spare, paid, entered⟩ := pays
  dsimp only at paid entered
  have within : world.performed ≤ sum := by omega
  cases turn with
  | enter frame =>
    exact ⟨world.load weight + spare + below,
      ⟨spare, below, (entered frame rfl).1, waiting, Nat.le_refl _⟩, by dsimp only; omega⟩
  | left => exact within
  | returned result =>
    cases callers with
    | nil => exact within
    | cons caller rest =>
      exact ⟨world.load weight + below, waiting.resumed (Nat.le_refl _) _ (.inl ⟨_, rfl⟩),
        by dsimp only; omega⟩
  | unwound payload =>
    cases callers with
    | nil => exact within
    | cons caller rest =>
      exact ⟨world.load weight + below, waiting.resumed (Nat.le_refl _) _ (.inr ⟨_, rfl⟩),
        by dsimp only; omega⟩

/-- One step of the machine: what was called and what is still to come together grow by no more
than what did not come from the code of a step. -/
theorem Machine.Laden.advance {machine : Machine κ ν ε} (weighed : behaviour.Weighed weight)
    (laden : machine.Laden weight total) :
    (machine.advance behaviour).Bounded weight
      (machine.world.performed + total + machine.gift weight) := by
  obtain ⟨world, ⟨stage, code⟩, callers⟩ := machine
  have ended (ending : Ending (stage.Answer ε)) (same : code = ending.code) :
      (resume callers (Scheduler.conclude behaviour world stage ending)).Bounded weight
        (world.performed + total + 0) := by
    subst same
    obtain ⟨left, below, within, waiting, bound⟩ := laden
    exact resumeBounded (Scheduler.concludePays world weighed stage ending within) waiting
      (by dsimp only at bound; omega)
  cases code with
  | done answer => exact ended (.returned answer) rfl
  | fail failure => exact ended (.failed failure) rfl
  | panic payload => exact ended (.panicked payload) rfl
  | append id step next =>
    exact ⟨_, laden.append, by simp; omega⟩
  | ask id next => exact ⟨total, laden.goesOn rfl fun _ within => within _, Nat.le_refl _⟩
  | look id next => exact ⟨total, laden.goesOn rfl fun _ within => within _, Nat.le_refl _⟩
  | note remark next =>
    exact ⟨total, laden.goesOn rfl fun _ within => within, by simp [Event.performs]⟩
  | suspend next =>
    dsimp only [Machine.advance]
    split
    · exact ⟨total, laden.goesOn rfl fun _ within => within, Nat.le_refl _⟩
    · exact ⟨total, laden.goesOn rfl fun _ within => within, Nat.le_refl _⟩
  | discard id next =>
    dsimp only [Machine.advance]
    split
    · exact ⟨total, laden.goesOn rfl fun _ within => within _, Nat.le_refl _⟩
    · exact ⟨total, laden.goesOn (by simp) fun _ within => within _, Nat.le_refl _⟩
  | run id initial next =>
    dsimp only [Machine.advance]
    split
    · exact ⟨total, laden.goesOn rfl fun _ within => within _, Nat.le_refl _⟩
    · refine ⟨total, laden.called, ?_⟩
      rw [startPerformed, World.performedOfTake]
      exact Nat.le_refl _

end Steps

namespace Conduct

variable {conduct : Conduct κ ν ε} {a b : Progress κ ν ε} {gift sum : Nat}

theorem Moves.bounded (weighed : ∀ world, (conduct world).Weighed weight)
    (moves : conduct.Moves weight a gift b) (bounded : a.Bounded weight sum) :
    b.Bounded weight (sum + gift) := by
  cases moves with
  | step machine =>
    obtain ⟨total, laden, bound⟩ := bounded
    exact (laden.advance (weighed machine.world)).more (by omega)
  | append machine queue step =>
    obtain ⟨total, ⟨left, below, within, waiting, load⟩, bound⟩ := bounded
    refine ⟨total + weight step.code, ⟨left, below, within, waiting, ?_⟩, ?_⟩
    · simp only [World.loadOfAppend]
      omega
    · simp only [World.performedOfAppend]
      omega
  | again machine => exact bounded
  | rest world outcome => exact bounded

end Conduct

def World.free (count : Nat) (world : World κ ν ε) : Finset QueueId :=
  {queue ∈ Finset.range count | (world.queue queue).taken = false}

namespace World

variable {world left : World κ ν ε} {count : Nat}

theorem freeSame (same : ∀ queue, (left.queue queue).taken = (world.queue queue).taken) :
    left.free count = world.free count := by
  simp only [free, same]

theorem freeAfterTake (id : QueueId) : (world.take id).free count ⊆ world.free count := by
  intro queue
  simp only [free, Finset.mem_filter, (queueAfterTake world id queue).2, Bool.or_eq_false_iff]
  exact fun present => ⟨present.1, present.2.2⟩

theorem fewerFree {id : QueueId} (untaken : (world.queue id).taken = false)
    (known : id < count) : ((world.take id).free count).card < (world.free count).card := by
  refine Finset.card_lt_card (Finset.ssubset_iff_of_subset (freeAfterTake id) |>.mpr ⟨id, ?_, ?_⟩)
  · simp [free, untaken, known]
  · simp [free, (queueAfterTake world id id).2]

end World

theorem Scheduler.concludeFree (behaviour : Behaviour κ ν ε) (world : World κ ν ε) (count : Nat)
    (stage : Stage κ ν) (ending : Ending (stage.Answer ε)) :
    (Scheduler.conclude behaviour world stage ending).1.free count = world.free count := by
  cases home : stage.queue? with
  | none =>
    cases stage <;> simp only [Stage.queue?, reduceCtorEq] at home
    cases ending <;> rfl
  | some id =>
    rcases Scheduler.concludeReplies behaviour stage ending home with replies | ⟨_, unwound⟩
    · exact World.freeSame replies.apart.taken
    · rw [unwound]

/- The run is polled on and on, and comes to its end unless something is appended that is not a
step's own to append. -/
inductive Halts (conduct : Conduct κ ν ε) (weight : κ → Nat) : Progress κ ν ε → Prop where
  | ended (world outcome) : Halts conduct weight (.ended world outcome)
  | running (machine) (next : machine.gift weight = 0 →
      Halts conduct weight (machine.advance (conduct machine.world))) :
      Halts conduct weight (.running machine)
  | suspended (machine) (next : Halts conduct weight (.running machine)) :
      Halts conduct weight (.suspended machine)

namespace Halts

variable {conduct : Conduct κ ν ε} {count total free : Nat}

structure Within (weight : κ → Nat) (count total free : Nat) (machine : Machine κ ν ε) : Prop where
  laden : machine.Laden weight total
  free : (machine.world.free count).card ≤ free

structure Below (conduct : Conduct κ ν ε) (weight : κ → Nat) (count total free : Nat) : Prop where
  lighter : ∀ less machine, less < total → machine.Laden weight less →
    Halts conduct weight (.running machine)
  fewer : ∀ machine, machine.Laden weight total → (machine.world.free count).card < free →
    Halts conduct weight (.running machine)

section Frames

variable {stage : Stage κ ν} {callers : List (Caller κ ν ε)} {world : World κ ν ε}

def Back (conduct : Conduct κ ν ε) (weight : κ → Nat) (count total free : Nat)
    (callers : List (Caller κ ν ε)) : Prop :=
  ∀ caller rest, callers = caller :: rest → ∀ world code,
    ((∃ result, code = caller.resume result) ∨ ∃ payload, code = .panic payload) →
    Within weight count total free (Machine.mk world ⟨caller.stage, code⟩ rest) →
      Halts conduct weight (.running ⟨world, ⟨caller.stage, code⟩, rest⟩)

/- The library has answered code that has ended. What it calls then is a step, or closer to the end
of the run; otherwise the run is over, and its caller goes on. -/
theorem resumed (below : Below conduct weight count total free)
    (back : Back conduct weight count total free callers) {after : World κ ν ε × Turn κ ν ε}
    {left waiting rank : Nat} (pays : Turn.Pays weight world left rank after)
    (waits : Machine.Waiting weight callers waiting)
    (bound : world.load weight + left + waiting ≤ total)
    (few : (after.1.free count).card ≤ free)
    (nearer : ∀ frame, after.2 = .enter frame → frame.stage.rank < rank →
      Within weight count total free (Machine.mk after.1 frame callers) →
        Halts conduct weight (.running ⟨after.1, frame, callers⟩)) :
    Halts conduct weight (Machine.resume callers after) := by
  obtain ⟨next, turn⟩ := after
  obtain ⟨grown, spare, paid, entered⟩ := pays
  dsimp only at grown paid entered few nearer
  cases turn with
  | enter frame =>
    obtain ⟨within, called | closer⟩ := entered frame rfl
    · exact below.lighter (next.load weight + spare + waiting) _ (by omega)
        ⟨spare, waiting, within, waits, Nat.le_refl _⟩
    · exact nearer frame rfl closer ⟨⟨spare, waiting, within, waits, by dsimp only; omega⟩, few⟩
  | left => exact .ended next .left
  | returned result =>
    cases callers with
    | nil => exact .ended next (.returned result)
    | cons caller rest =>
      exact back caller rest rfl next _ (.inl ⟨_, rfl⟩)
        ⟨waits.resumed (by omega) _ (.inl ⟨_, rfl⟩), few⟩
  | unwound payload =>
    cases callers with
    | nil => exact .ended next (.panicked payload)
    | cons caller rest =>
      exact back caller rest rfl next _ (.inr ⟨_, rfl⟩)
        ⟨waits.resumed (by omega) _ (.inr ⟨_, rfl⟩), few⟩

variable (weighed : ∀ world, (conduct world).Weighed weight)

include weighed in
theorem atEnd (below : Below conduct weight count total free)
    (back : Back conduct weight count total free callers) (ending : Ending (stage.Answer ε))
    (within : Within weight count total free (Machine.mk world ⟨stage, ending.code⟩ callers))
    (nearer : ∀ next frame,
      Scheduler.conclude (conduct world) world stage ending = (next, .enter frame) →
      frame.stage.rank < stage.rank →
      Within weight count total free (Machine.mk next frame callers) →
        Halts conduct weight (.running ⟨next, frame, callers⟩)) :
    Halts conduct weight (.running ⟨world, ⟨stage, ending.code⟩, callers⟩) := by
  refine .running _ fun _ => ?_
  rw [Machine.advanceEnding]
  obtain ⟨⟨left, waiting, held, waits, bound⟩, few⟩ := within
  refine resumed below back (Scheduler.concludePays world (weighed world) stage ending held) waits
    bound ?_ fun frame entered => nearer _ frame (Prod.ext rfl entered)
  rw [Scheduler.concludeFree]
  exact few

include weighed in
theorem silentRun (below : Below conduct weight count total free)
    (back : Back conduct weight count total free callers) {queue : QueueId}
    (silent : ∀ world, (conduct world).recorder queue = .silent) (value : ν)
    (within : Within weight count total free
      (Machine.mk world ⟨.startingRun queue value, .done 0⟩ callers)) :
    Halts conduct weight (.running ⟨world, ⟨.startingRun queue value, .done 0⟩, callers⟩) := by
  refine atEnd weighed below back (.returned 0) within fun next frame entered _ within => ?_
  change Scheduler.proceed _ _ _ _ = _ at entered
  unfold Scheduler.proceed Scheduler.completeRun at entered
  dsimp only at entered
  rw [silent] at entered
  split at entered
  · cases entered
    change Halts conduct weight
      (.running ⟨_, ⟨.completingRun _ _, (Ending.returned ()).code⟩, callers⟩)
    exact atEnd weighed below back _ within fun next frame entered => nomatch entered
  · cases entered
    change Halts conduct weight
      (.running ⟨_, ⟨.startingStep _ _ _ _, (Ending.returned 0).code⟩, callers⟩)
    refine atEnd weighed below back _ within fun next frame entered closer _ => ?_
    change Scheduler.apply _ _ _ _ _ _ _ = _ at entered
    unfold Scheduler.apply at entered
    -- the step is called, and no stage of its code is closer to the end
    split at entered <;> cases entered <;> exact absurd closer (by simp [Stage.rank])

include weighed in
/- Code comes to its end: each request leaves it with a smaller part, and a run that it calls is
that of one queue fewer or is silent. -/
theorem atCode (known : ∀ world queue, count ≤ queue → (conduct world).recorder queue = .silent)
    (below : Below conduct weight count total free)
    (back : Back conduct weight count total free callers)
    (nearer : ∀ world frame, frame.stage.rank < stage.rank →
      Within weight count total free (Machine.mk world frame callers) →
        Halts conduct weight (.running ⟨world, frame, callers⟩))
    (code : Program κ ν ε (stage.Answer ε)) (world : World κ ν ε)
    (within : Within weight count total free (Machine.mk world ⟨stage, code⟩ callers)) :
    Halts conduct weight (.running ⟨world, ⟨stage, code⟩, callers⟩) := by
  induction code generalizing world with
  | done answer =>
    exact atEnd weighed below back (.returned answer) within fun next frame _ => nearer next frame
  | fail failure =>
    exact atEnd weighed below back (.failed failure) within fun next frame _ => nearer next frame
  | panic payload =>
    exact atEnd weighed below back (.panicked payload) within fun next frame _ => nearer next frame
  | append id step next ih =>
    refine .running _ fun none => ih _ ⟨?_, ?_⟩
    · have laden := within.laden.append
      rwa [none] at laden
    · have same : (world.append id step).free count = world.free count :=
        World.freeSame fun queue => (World.queueAfterSet world id queue _).2
      exact same ▸ within.free
  | ask id next ih =>
    exact .running _ fun _ => ih _ _ ⟨within.laden.goesOn rfl fun _ onward => onward _, within.free⟩
  | look id next ih =>
    exact .running _ fun _ => ih _ _ ⟨within.laden.goesOn rfl fun _ onward => onward _, within.free⟩
  | note remark next ih =>
    exact .running _ fun _ => ih _ ⟨within.laden.goesOn rfl fun _ onward => onward, within.free⟩
  | suspend next ih =>
    have onward := ih world ⟨within.laden.goesOn rfl fun _ onward => onward, within.free⟩
    refine .running _ fun _ => ?_
    dsimp only [Machine.advance]
    split
    · exact .suspended _ onward
    · exact onward
  | discard id next ih =>
    refine .running _ fun _ => ?_
    dsimp only [Machine.advance]
    split
    · exact ih _ _ ⟨within.laden.goesOn rfl fun _ onward => onward _, within.free⟩
    · exact ih _ _ ⟨within.laden.goesOn (by simp) fun _ onward => onward _,
        Nat.le_trans (Finset.card_le_card (World.freeAfterTake id)) within.free⟩
  | run id initial next ih =>
    refine .running _ fun _ => ?_
    dsimp only [Machine.advance]
    split
    · exact ih _ _ ⟨within.laden.goesOn rfl fun _ onward => onward _, within.free⟩
    · next untaken =>
      have called : Within weight count total free (Machine.start (conduct world) (world.take id)
          (⟨stage, next⟩ :: callers) id initial) :=
        ⟨within.laden.called,
          Nat.le_trans (Finset.card_le_card (World.freeAfterTake id)) within.free⟩
      by_cases few : id < count
      · refine below.fewer _ called.laden (Nat.lt_of_lt_of_le ?_ within.free)
        exact World.fewerFree (Bool.eq_false_iff.mpr untaken) few
      · have silent world := known world id (Nat.le_of_not_lt few)
        have again : Back conduct weight count total free (⟨stage, next⟩ :: callers) := by
          intro caller rest same world code onward within
          cases same
          rcases onward with ⟨result, rfl⟩ | ⟨payload, rfl⟩
          · exact ih result world within
          · exact atEnd weighed below back (.panicked payload) within
              fun next frame _ => nearer next frame
        unfold Machine.start Scheduler.startRun at called ⊢
        dsimp only at called ⊢
        rw [silent] at called ⊢
        exact silentRun weighed below again silent _ called

end Frames

variable (weighed : ∀ world, (conduct world).Weighed weight)
  (known : ∀ world queue, count ≤ queue → (conduct world).recorder queue = .silent)

include weighed known

theorem atFrame (below : Below conduct weight count total free) {callers : List (Caller κ ν ε)}
    (back : Back conduct weight count total free callers) (world : World κ ν ε)
    (frame : Frame κ ν ε)
    (within : Within weight count total free (Machine.mk world frame callers)) :
    Halts conduct weight (.running ⟨world, frame, callers⟩) := by
  induction rank : frame.stage.rank using Nat.strongRecOn generalizing world frame with
  | ind rank ih =>
    subst rank
    exact atCode weighed known below back (fun world frame closer within =>
      ih _ closer world frame within rfl) frame.code world within

theorem atCallers (below : Below conduct weight count total free) (callers : List (Caller κ ν ε))
    (world : World κ ν ε) (frame : Frame κ ν ε)
    (within : Within weight count total free (Machine.mk world frame callers)) :
    Halts conduct weight (.running ⟨world, frame, callers⟩) := by
  induction callers generalizing world frame with
  | nil =>
    refine atFrame weighed known below ?_ world frame within
    rintro caller rest ⟨⟩
  | cons caller rest ih =>
    refine atFrame weighed known below ?_ world frame within
    rintro _ _ ⟨⟩ world code -
    exact ih world ⟨caller.stage, code⟩

/-- A machine with anything at all to come comes to its end: the induction is on what is to come,
then on the queues that can still be taken. -/
theorem ofLaden (machine : Machine κ ν ε) (laden : machine.Laden weight total) :
    Halts conduct weight (.running machine) := by
  induction total using Nat.strongRecOn generalizing machine with
  | ind total lighter =>
    suffices atMost : ∀ free machine, Within weight count total free machine →
        Halts conduct weight (.running machine) from
      atMost _ machine ⟨laden, Nat.le_refl _⟩
    intro free
    induction free using Nat.strongRecOn with
    | ind free fewer =>
      intro machine within
      exact atCallers weighed known
        ⟨fun less machine lighter' laden => lighter less lighter' machine laden,
          fun machine laden less => fewer _ less machine ⟨laden, Nat.le_refl _⟩⟩
        machine.callers machine.world machine.frame within

end Halts

namespace Conduct

section Polled

variable (conduct : Conduct κ ν ε)

def polled (start : Progress κ ν ε) : Nat → Progress κ ν ε
  | 0 => start
  | n + 1 =>
    match polled start n with
    | .running machine => machine.advance (conduct machine.world)
    | .suspended machine => .running machine
    | .ended world outcome => .ended world outcome

def gift (weight : κ → Nat) : Progress κ ν ε → Nat
  | .running machine => machine.gift weight
  | .suspended _ | .ended _ _ => 0

theorem polledMoves (start : Progress κ ν ε) (n : Nat) :
    conduct.Moves weight (conduct.polled start n) (gift weight (conduct.polled start n))
      (conduct.polled start (n + 1)) := by
  rw [polled]
  cases conduct.polled start n with
  | running machine => exact .step machine
  | suspended machine => exact .again machine
  | ended world outcome => exact .rest world outcome

theorem polledGifts {start : Progress κ ν ε} {last : Nat}
    (ends : (conduct.polled start last).machine?.isNone = true) (n : Nat) (late : last ≤ n) :
    gift weight (conduct.polled start n) = 0 := by
  cases ended : conduct.polled start last with
  | ended world outcome =>
    have same : conduct.polled start n = .ended world outcome := by
      induction n, late using Nat.le_induction with
      | base => exact ended
      | succ n _ ih => rw [polled, ih]
    rw [same, gift]
  | _ =>
    rw [ended] at ends
    cases ends

end Polled

variable {conduct : Conduct κ ν ε} {path : Nat → Progress κ ν ε} {gifts : Nat → Nat}

theorem boundedPath (weighed : ∀ world, (conduct world).Weighed weight)
    (moves : ∀ n, conduct.Moves weight (path n) (gifts n) (path (n + 1))) {sum : Nat}
    (bounded : (path 0).Bounded weight sum) (n : Nat) :
    (path n).Bounded weight (sum + ((List.range n).map gifts).sum) := by
  induction n with
  | zero => exact bounded
  | succ n ih =>
    rw [List.range_succ, List.map_append, List.sum_append, ← Nat.add_assoc]
    exact (moves n).bounded weighed ih

theorem haltedPath (positive : ∀ code, 0 < weight code)
    (moves : ∀ n, conduct.Moves weight (path n) (gifts n) (path (n + 1))) {last : Nat}
    (nothing : ∀ n, last ≤ n → gifts n = 0) {n : Nat} (late : last ≤ n)
    (halts : Halts conduct weight (path n)) : ∃ m world outcome, path m = .ended world outcome := by
  generalize here : path n = progress at halts
  induction halts generalizing n with
  | ended world outcome => exact ⟨n, world, outcome, here⟩
  | running machine next ih =>
    have move := moves n
    generalize gift : gifts n = given at move
    rw [here] at move
    generalize there : path (n + 1) = onward at move
    cases move with
    | step machine =>
      have none : machine.gift weight = 0 := gift.symm.trans (nothing n late)
      exact ih none (Nat.le_succ_of_le late) there
  | suspended machine next ih =>
    have move := moves n
    generalize gift : gifts n = given at move
    rw [here] at move
    generalize there : path (n + 1) = onward at move
    cases move with
    | append machine queue step =>
      exact absurd (gift.symm.trans (nothing n late)) (Nat.ne_of_gt (positive step.code))
    | again machine => exact ih (Nat.le_succ_of_le late) there

theorem startBounded (world : World κ ν ε) (queue : QueueId) (initial : Option ν) :
    (Progress.running (Machine.start (conduct world) world [] queue initial)).Bounded weight
      (world.performed + world.load weight) := by
  refine ⟨_, Machine.startLaden (conduct world) .nil queue initial, ?_⟩
  rw [Machine.startPerformed, Nat.add_zero]

theorem runEnds {count : Nat} {world : World κ ν ε} {queue : QueueId} {initial : Option ν}
    (weighed : ∀ world, (conduct world).Weighed weight)
    (known : ∀ world queue, count ≤ queue → (conduct world).recorder queue = .silent)
    (begins : path 0 = .running (Machine.start (conduct world) world [] queue initial))
    (moves : ∀ n, conduct.Moves weight (path n) (gifts n) (path (n + 1)))
    (finitely : ∃ last, ∀ n, last ≤ n → gifts n = 0) :
    (∃ n left outcome, path n = .ended left outcome) ∧
      ∀ n, (path n).world.performed ≤
        world.performed + world.load weight + ((List.range n).map gifts).sum := by
  have bounded := boundedPath weighed moves (begins ▸ conduct.startBounded world queue initial)
  refine ⟨?_, fun n => (bounded n).performed⟩
  obtain ⟨last, nothing⟩ := finitely
  refine haltedPath (weighed world).positive moves nothing (Nat.le_refl last) ?_
  have laden := bounded last
  generalize path last = progress at laden
  cases progress with
  | ended left outcome => exact .ended left outcome
  | running machine =>
    obtain ⟨total, laden, -⟩ := laden
    exact Halts.ofLaden weighed known machine laden
  | suspended machine =>
    obtain ⟨total, laden, -⟩ := laden
    exact .suspended machine (Halts.ofLaden weighed known machine laden)

end Conduct

namespace Script

def Shape.conduct (shape : Shape)
    (recorder : World Spec Datum Note → QueueId → Recorder Spec Datum Note) :
    Conduct Spec Datum Note := fun world =>
  { behaviour shape fun _ => none with recorder := recorder world }

variable {shape : Shape} {recorder : World Spec Datum Note → QueueId → Recorder Spec Datum Note}

theorem conductWeighed (world : World Spec Datum Note) :
    (shape.conduct recorder world).Weighed Spec.nodes :=
  have weighed := scriptsWeighed shape fun _ => none
  ⟨weighed.positive, weighed.body, weighed.call, weighed.watch⟩

/-- A run of scripted steps that is polled on and on comes to its end, if the recorders and the
outside append only finitely often; only finitely many queues have a recorder at all. The steps
that are applied or told of a failure, on all queues together, are at most as many as the nodes of
the steps that waited on the queues at its start and of those that came from recorders and from
outside. -/
theorem runsEnd {count : Nat} {world : World Spec Datum Note} {queue : QueueId}
    {initial : Option Datum} {path : Nat → Progress Spec Datum Note} {gifts : Nat → Nat}
    (known : ∀ world queue, count ≤ queue → recorder world queue = .silent)
    (begins : path 0 =
      .running (Machine.start (shape.conduct recorder world) world [] queue initial))
    (moves : ∀ n, (shape.conduct recorder).Moves Spec.nodes (path n) (gifts n) (path (n + 1)))
    (finitely : ∃ last, ∀ n, last ≤ n → gifts n = 0) :
    (∃ n left outcome, path n = .ended left outcome) ∧
      ∀ n, (path n).world.performed ≤
        world.performed + world.load Spec.nodes + ((List.range n).map gifts).sum :=
  Conduct.runEnds conductWeighed known begins moves finitely

def Spec.leaf : Spec := .mk .value (.number 0) true 2 [] none none [] []

def Spec.forked : Spec := .mk .value (.number 1) true 1 [] none none [.push none [leaf]] []

def pushing (_ : World Spec Datum Note) (queue : QueueId) : Recorder Spec Datum Note :=
  if queue = 0 then { Recorder.silent with startRun := fun _ => .append 0 Spec.leaf.step (.done 0) }
  else .silent

theorem runsEndForked :
    let conduct := Shape.int.conduct pushing
    let world : World Spec Datum Note :=
      World.append ⟨[{ name := "q", taken := true }], []⟩ 0 Spec.forked.step
    let start := Machine.start (conduct world) world [] 0 none
    (∃ n left outcome, conduct.polled (.running start) n = .ended left outcome) ∧
      (conduct.polled (.running start) 17).world.performed ≤ 4 := by
  intro conduct world start
  have known (world : World Spec Datum Note) (queue : QueueId) (far : 1 ≤ queue) :
      pushing world queue = .silent := if_neg (Nat.ne_of_gt far)
  have halts : (conduct.polled (.running start) 17).machine?.isNone = true := by decide +kernel
  obtain ⟨ends, bound⟩ := runsEnd known rfl (conduct.polledMoves (.running start))
    ⟨17, conduct.polledGifts halts⟩
  exact ⟨ends, Nat.le_trans (bound 17) (by decide +kernel)⟩

end Script

end Sequencer
