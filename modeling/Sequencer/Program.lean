import Sequencer.Agenda
import Sequencer.Failure

/-! What user code asks of the library. A `Program` is a piece of user code cut at the points
where it reaches a queue: it asks, and goes on with the answer. Step bodies, observers, recorder
callbacks and outside code are all programs, so one machine runs them all. -/
namespace Sequencer

abbrev QueueId := Nat

/- `κ` is the code of a step, `ν` a value, `ε` a note and `β` what the program ends with. -/
inductive Program (κ ν ε β : Type) where
  | done (answer : β)
  | fail (failure : Failure)
  | panic (payload : Payload)
  | append (queue : QueueId) (step : Step κ) (next : Program κ ν ε β)
  | ask (queue : QueueId) (next : Status → Program κ ν ε β)
  | look (queue : QueueId) (next : Snapshot → Program κ ν ε β)
  | note (remark : ε) (next : Program κ ν ε β)
  -- Lets the poll end here, if every caller can wait.
  | suspend (next : Program κ ν ε β)
  -- Takes the queue and lets it go without running it. Answers whether it was there to take.
  | discard (queue : QueueId) (next : Bool → Program κ ν ε β)
  -- Takes the queue and runs it to its end, from the neutral value if none is given. Answers
  -- nothing if the queue was taken before.
  | run (queue : QueueId) (initial : Option ν)
      (next : Option (Except RunError ν) → Program κ ν ε β)

namespace Program

def bind (program : Program κ ν ε β) (f : β → Program κ ν ε γ) : Program κ ν ε γ :=
  match program with
  | done answer => f answer
  | fail failure => fail failure
  | panic payload => panic payload
  | append queue step next => append queue step (next.bind f)
  | ask queue next => ask queue fun status => (next status).bind f
  | look queue next => look queue fun snapshot => (next snapshot).bind f
  | note remark next => note remark (next.bind f)
  | suspend next => suspend (next.bind f)
  | discard queue next => discard queue fun taken => (next taken).bind f
  | run queue initial next => run queue initial fun result => (next result).bind f

instance : Monad (Program κ ν ε) where
  pure := done
  bind := bind

theorem bindDone (program : Program κ ν ε β) : program.bind done = program := by
  induction program <;> simp only [bind, *]

theorem bindAssoc (program : Program κ ν ε β) (f : β → Program κ ν ε γ)
    (g : γ → Program κ ν ε δ) : (program.bind f).bind g = program.bind fun b => (f b).bind g := by
  induction program <;> simp only [bind, *]

def appendAll (queue : QueueId) (steps : List (Step κ)) (next : Program κ ν ε β) :
    Program κ ν ε β :=
  steps.foldr (append queue) next

end Program

end Sequencer
