import Sequencer.Proofs.Projection

/-! What a course keeps, read at the ensembles. A kept fact holds of every queue that is reached, an
event of a log was recorded by an act on the way there, and a run that has given its result stays
over while only appends still come. -/
namespace Sequencer
open Standing

variable {queue : QueueId} {name : String}

inductive Extends (queue : QueueId) (agenda : Agenda κ) (log : Log κ ν ε) :
    Agenda κ → Log κ ν ε → Prop where
  | same : Extends queue agenda log agenda log
  | append (grown more step) (before : Extends queue agenda log grown more) :
      Extends queue agenda log (grown.append step)
        (more ++ [.appended queue (grown.entry step) grown.active.isSome])

namespace Extends

variable {queue : QueueId} {agenda grown last : Agenda κ} {log more final : Log κ ν ε}

theorem trans (first : Extends queue agenda log grown more)
    (second : Extends queue grown more last final) : Extends queue agenda log last final := by
  induction second with
  | same => exact first
  | append grown more step _ ih => exact .append grown more step ih

theorem active (extended : Extends queue agenda log grown more) : grown.active = agenda.active := by
  induction extended with
  | same => rfl
  | append grown more step _ ih => exact (grown.activeAfterAppend step).trans ih

theorem split (extended : Extends queue agenda log grown more) :
    ∃ new, more = log ++ new ∧ Log.deeds new = [] := by
  induction extended with
  | same => exact ⟨[], (List.append_nil log).symm, rfl⟩
  | append grown more step _ ih =>
    obtain ⟨new, rfl, none⟩ := ih
    refine ⟨_, List.append_assoc _ _ _, ?_⟩
    rw [Log.deeds, List.filter_append, ← Log.deeds, none]
    rfl

theorem deeds (extended : Extends queue agenda log grown more) : more.deeds = log.deeds := by
  obtain ⟨new, rfl, none⟩ := extended.split
  rw [Log.deeds, List.filter_append, ← Log.deeds, ← Log.deeds, none, List.append_nil]

end Extends

def World.Grows (queue : QueueId) (before after : World κ ν ε) : Prop :=
  Extends queue (before.agenda queue) (before.log queue) (after.agenda queue) (after.log queue)

namespace Ensemble

variable {behaviour : Behaviour κ ν ε} {fact : Standing κ ν ε → Prop}

theorem Move.grows {e : Ensemble κ ν ε} {a b : Standing κ ν ε} (move : Move queue name e a b) :
    a.log <+: b.log := by
  cases move with
  | still => exact List.prefix_rfl
  | given act => exact act.grows
  | reply ends act path => exact act.grows.trans (followsGrow path)

theorem Move.keeps {e : Ensemble κ ν ε} {a b : Standing κ ν ε} (move : Move queue name e a b)
    (kept : Kept queue name fact) (holds : fact a) : fact b := by
  cases move with
  | still => exact holds
  | given act => exact kept.given act holds
  | reply ends act path => exact kept.follows path (kept.reply act holds)

theorem reachesHold {a b : Ensemble κ ν ε} (path : Reaches behaviour a b) {point : Point κ ν}
    (kept : Kept queue name fact) (named : (a.world.queue queue).name = name)
    (here : a.At queue point) (holds : fact (a.standing queue point)) :
    (b.world.queue queue).name = name ∧
      ∃ next, b.At queue next ∧ fact (b.standing queue next) := by
  induction path with
  | refl => exact ⟨named, point, here, holds⟩
  | tail _ step ih =>
    obtain ⟨named, point, here, holds⟩ := ih
    obtain ⟨named, next, there, move⟩ := nextMoves step here named
    exact ⟨named, next, there, move.keeps kept holds⟩

theorem blankAt {world : World κ ν ε} (blank : world.Blank) (queue : QueueId) :
    (Ensemble.mk world []).At queue .free ∧
      (Ensemble.mk world []).standing queue .free = ⟨{}, [], .free⟩ := by
  refine ⟨⟨rfl, blank.untaken queue⟩, ?_⟩
  rw [standing, World.logOfBlank _ blank.silent, blank.unused]

theorem Reachable.holds {a : Ensemble κ ν ε} (reached : Reachable behaviour a)
    (kept : Kept queue (a.world.nameOf queue) fact) :
    ∃ point, a.At queue point ∧ fact (a.standing queue point) := by
  obtain ⟨world, blank, path⟩ := reached
  obtain ⟨here, standing⟩ := blankAt blank queue
  have named := (reachesHold path (keptTrue _ _) rfl here trivial).1
  exact (reachesHold path kept named.symm here (standing ▸ kept.start)).2

theorem Reachable.somewhere {a : Ensemble κ ν ε} (reached : Reachable behaviour a)
    (queue : QueueId) : ∃ point, a.At queue point := by
  have kept : Kept queue (a.world.nameOf queue) fun _ : Standing κ ν ε => True := keptTrue _ _
  obtain ⟨point, here, -⟩ := reached.holds kept
  exact ⟨point, here⟩

theorem Reachable.named {a b : Ensemble κ ν ε} (reached : Reachable behaviour a)
    (path : Reaches behaviour a b) : b.world.nameOf queue = a.world.nameOf queue := by
  obtain ⟨point, here⟩ := reached.somewhere queue
  exact (reachesHold path (keptTrue _ _) rfl here trivial).1

theorem Reachable.grows {a b : Ensemble κ ν ε} (reached : Reachable behaviour a)
    (path : Reaches behaviour a b) (queue : QueueId) : a.world.log queue <+: b.world.log queue := by
  induction path with
  | refl => exact List.prefix_rfl
  | tail path step ih =>
    obtain ⟨point, here⟩ := (reached.later path).somewhere queue
    obtain ⟨-, next, -, move⟩ := nextMoves step here rfl
    exact ih.trans move.grows

def Ended (behaviour : Behaviour κ ν ε) (queue : QueueId) (last : Ensemble κ ν ε)
    (stage : Stage κ ν) (ending : Ending (stage.Answer ε)) (standing : Standing κ ν ε) : Prop :=
  ∃ a : Ensemble κ ν ε, Reachable behaviour a ∧ Reaches behaviour a last ∧ a.Ends stage ending ∧
    ∃ point, a.standing queue point = standing

inductive Act (behaviour : Behaviour κ ν ε) (queue : QueueId) (name : String)
    (last : Ensemble κ ν ε) : Standing κ ν ε → Standing κ ν ε → Prop where
  | given {a b} (act : Given queue name a b) : Act behaviour queue name last a b
  | reply {stage ending a b} (ended : Ended behaviour queue last stage ending a)
      (act : Response queue stage ending a b) : Act behaviour queue name last a b
  | follow {a b} (act : Follow queue a b) : Act behaviour queue name last a b

theorem Act.later {a b : Ensemble κ ν ε} {x y : Standing κ ν ε}
    (act : Act behaviour queue name a x y) (step : Next behaviour a b) :
    Act behaviour queue name b x y := by
  cases act with
  | given act => exact .given act
  | reply ended act =>
    obtain ⟨e, reached, path, ends, standing⟩ := ended
    exact .reply ⟨e, reached, path.tail step, ends, standing⟩ act
  | follow act => exact .follow act

theorem Move.passes {last e : Ensemble κ ν ε} {a b : Standing κ ν ε} (move : Move queue name e a b)
    (kept : Kept queue name fact) (holds : fact a) {before : Log κ ν ε} {event : Event κ ν ε}
    (ahead : a.log <+: before) (passed : before ++ [event] <+: b.log)
    (ended : ∀ {stage ending}, e.Ends stage ending → Ended behaviour queue last stage ending a) :
    ∃ x y, Act behaviour queue name last x y ∧ fact x ∧ x.log <+: before ∧
      before ++ [event] <+: y.log ∧ y.log <+: b.log := by
  cases move with
  | still => exact (notPassed ahead passed).elim
  | given act => exact ⟨_, _, .given act, holds, ahead, passed, List.prefix_rfl⟩
  | reply ends act path =>
    rcases logPassed (followsGrow path) passed with already | ahead
    · exact ⟨_, _, .reply (ended ends) act, holds, ahead, already, followsGrow path⟩
    · obtain ⟨x, y, turn, rest⟩ := followsPass kept path (kept.reply act holds) ahead passed
      exact ⟨x, y, .follow turn, rest⟩

/- Every event in the log of a queue was recorded by one act on the way, taken from a standing
that had every kept fact. -/
theorem Reachable.recorded {last : Ensemble κ ν ε} (reached : Reachable behaviour last)
    (kept : Kept queue (last.world.nameOf queue) fact) {before after : Log κ ν ε}
    {event : Event κ ν ε} (log : last.world.log queue = before ++ event :: after) :
    ∃ x y, Act behaviour queue (last.world.nameOf queue) last x y ∧ fact x ∧ x.log <+: before ∧
      before ++ [event] <+: y.log ∧ y.log <+: last.world.log queue := by
  have passed : before ++ [event] <+: last.world.log queue := ⟨after, by simp [log]⟩
  clear log
  obtain ⟨world, blank, path⟩ := reached
  obtain ⟨here, standing⟩ := blankAt blank queue
  have named : last.world.nameOf queue = world.nameOf queue :=
    (reachesHold path (keptTrue _ _) rfl here trivial).1
  rw [named] at kept ⊢
  induction path with
  | refl =>
    have silent : world.log queue = [] := congrArg Standing.log standing
    simp [silent] at passed
  | @tail a b earlier step ih =>
    obtain ⟨same, point, there, holds⟩ := reachesHold earlier kept rfl here (standing ▸ kept.start)
    obtain ⟨-, next, -, move⟩ := nextMoves step there same
    rcases logPassed move.grows passed with already | ahead
    · obtain ⟨x, y, act, factual, start, finished, within⟩ := ih already same
      exact ⟨x, y, act.later step, factual, start, finished, within.trans move.grows⟩
    · exact move.passes kept holds ahead passed fun ends =>
        ⟨a, ⟨world, blank, earlier⟩, .single step, ends, point, rfl⟩

theorem followsOver {a b : Standing κ ν ε} (path : Follows queue a b)
    {result : Option (Except RunError ν)} (finished : b.point = .finished result) : a = b := by
  cases path with
  | refl => rfl
  | tail _ act => cases act <;> cases finished

variable {result : Except RunError ν} {s r t : Ensemble κ ν ε}

theorem Returns.response (returns : Returns behaviour queue result s r) {point : Point κ ν}
    (here : s.At queue point) :
    r.At queue (.finished (some result)) ∧ ∃ stage ending, point = .inside stage ∧
      s.Ends stage ending ∧
      Response queue stage ending (s.standing queue point)
        (r.standing queue (.finished (some result))) := by
  obtain ⟨world, left, first, stage, ending, callers, rest, own, turn⟩ := returns
  -- the task at its end is the only one in which code runs for the queue
  obtain ⟨rfl, taken, before, among, behind⟩ := atOwn here own
  rcases Scheduler.concludeReplies behaviour stage ending own with replies | ⟨payload, unwound⟩
  · rw [turn] at replies
    have stages := stagesAfter queue left first rest callers (.returned result)
    dsimp only at among
    rw [before, among, behind] at stages
    obtain ⟨middle, act, path⟩ := replies.acts
    cases followsOver path rfl
    exact ⟨⟨List.sublist_nil.mp stages, (replies.apart.taken queue).trans taken⟩,
      stage, ending, rfl, ⟨callers, by simp⟩, act⟩
  · cases turn.symm.trans unwound

theorem Move.past {e : Ensemble κ ν ε} {x y : Standing κ ν ε} (move : Move queue name e x y)
    {result : Option (Except RunError ν)} (finished : x.point = .finished result) :
    y.point = .finished result ∧ Extends queue x.agenda x.log y.agenda y.log := by
  cases move with
  | still => exact ⟨finished, .same⟩
  | given act =>
    cases act with
    | append agenda log point step => exact ⟨finished, .append agenda log step .same⟩
    | _ => cases finished
  | reply ends act path => cases act <;> cases finished

theorem overStays {outcome : Option (Except RunError ν)} (path : Reaches behaviour r t)
    (here : r.At queue (.finished outcome)) (named : (r.world.queue queue).name = name) :
    t.At queue (.finished outcome) ∧ r.world.Grows queue t.world ∧
      (t.world.queue queue).name = name ∧
      ∀ {fact : Standing κ ν ε → Prop}, Kept queue name fact →
        fact (r.standing queue (.finished outcome)) →
        fact (t.standing queue (.finished outcome)) := by
  induction path with
  | refl => exact ⟨here, .same, named, fun _ holds => holds⟩
  | tail _ step ih =>
    obtain ⟨here, grown, named, keeps⟩ := ih
    obtain ⟨named, next, there, move⟩ := nextMoves step here named
    obtain ⟨finished, extended⟩ := move.past rfl
    cases show next = .finished outcome from finished
    exact ⟨there, grown.trans extended, named, fun kept holds => move.keeps kept (keeps kept holds)⟩

theorem Returns.holds (returns : Returns behaviour queue result s r)
    (reached : Reachable behaviour s) (later : Reaches behaviour r t)
    (kept : Kept queue (s.world.nameOf queue) fact) :
    fact (t.standing queue (.finished (some result))) := by
  obtain ⟨point, here, holds⟩ := reached.holds kept
  obtain ⟨finished, stage, ending, -, -, response⟩ := returns.response here
  have named := (nextMoves returns.next here rfl).1
  exact (overStays later finished named).2.2.2 kept (kept.reply response holds)

theorem Returns.appends (returns : Returns behaviour queue result s r)
    (reached : Reachable behaviour s) (later : Reaches behaviour r t) :
    ∃ more, t.world.log queue = r.world.log queue ++ more ∧ Log.deeds more = [] := by
  obtain ⟨point, here⟩ := reached.somewhere queue
  exact (overStays later (returns.response here).1 rfl).2.1.split

end Ensemble

end Sequencer
