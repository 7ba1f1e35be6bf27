import Sequencer.World

/-! Who found whom. The steps of a queue form a forest: the roots were appended while nothing was
active, the children of a step while that step was active. The forest is read off the history
alone, not off the agenda. -/
namespace Sequencer

inductive Tree (κ : Type) where
  | node (entry : Entry κ) (found : List (Tree κ))

abbrev Forest (κ : Type) := List (Tree κ)

mutual
def Tree.preorder : Tree κ → List (Entry κ)
  | .node entry found => entry :: Forest.preorder found

def Forest.preorder : Forest κ → List (Entry κ)
  | [] => []
  | tree :: rest => tree.preorder ++ Forest.preorder rest
end

mutual
def Tree.adopt (parent : Nat) (child : Entry κ) : Tree κ → Tree κ
  | .node entry found =>
    .node entry <| Forest.adopt parent child found ++
      if entry.ticket = parent then [.node child []] else []

def Forest.adopt (parent : Nat) (child : Entry κ) : Forest κ → Forest κ
  | [] => []
  | tree :: rest => tree.adopt parent child :: Forest.adopt parent child rest
end

structure Discovery (κ : Type) where
  forest : Forest κ := []
  active : Option Nat := none

namespace Discovery

def observe (queue : QueueId) (event : Event κ ν ε) (discovery : Discovery κ) : Discovery κ :=
  match event with
  | .appended id entry _ =>
    if id = queue then
      match discovery.active with
      | none => { discovery with forest := discovery.forest ++ [.node entry []] }
      | some parent => { discovery with forest := Forest.adopt parent entry discovery.forest }
    else discovery
  | .activated id entry _ =>
    if id = queue then { discovery with active := some entry.ticket } else discovery
  | .settled id _ _ _ | .refused id _ _ =>
    if id = queue then { discovery with active := none } else discovery
  | _ => discovery

/- The discoveries of a queue in a history, which has its newest event first. -/
def ofHistory (queue : QueueId) (history : List (Event κ ν ε)) : Discovery κ :=
  history.foldr (observe queue) {}

end Discovery

def activations (queue : QueueId) (history : List (Event κ ν ε)) : List (Entry κ) :=
  history.reverse.filterMap fun
    | .activated id entry _ => if id = queue then some entry else none
    | _ => none

end Sequencer
