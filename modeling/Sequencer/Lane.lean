/-! A lane of things that wait. One more joins at the back, and a group is put in front one by one,
without a walk past those that stand there. The view of a lane is its list; the facts below say
what each operation does to it. -/
namespace Sequencer

structure Lane (α : Type) where
  front : List α
  -- Newest first.
  back : List α
  size : Nat
  counted : size = front.length + back.length
  deriving DecidableEq

namespace Lane

def empty : Lane α := ⟨[], [], 0, rfl⟩

def toList (lane : Lane α) : List α :=
  lane.front ++ lane.back.reverse

def push (lane : Lane α) (a : α) : Lane α where
  front := lane.front
  back := a :: lane.back
  size := lane.size + 1
  counted := by
    have counted := lane.counted
    simp only [List.length_cons]
    omega

def pushFront (lane : Lane α) (a : α) : Lane α where
  front := a :: lane.front
  back := lane.back
  size := lane.size + 1
  counted := by
    have counted := lane.counted
    simp only [List.length_cons]
    omega

/- Puts a group in front, from its last to its first, so it stands there in its own order. -/
def prepend (group : List α) (lane : Lane α) : Lane α :=
  group.reverse.foldl pushFront lane

def ofList (items : List α) : Lane α := ⟨items, [], items.length, rfl⟩

def pop? (lane : Lane α) : Option (α × Lane α) :=
  match lane.front, lane.counted with
  | a :: rest, counted => some (a, ⟨rest, lane.back, lane.size - 1, by
      simp only [List.length_cons] at counted
      omega⟩)
  | [], _ =>
    match lane.back.reverse with
    | [] => none
    | a :: rest => some (a, ofList rest)

theorem listOfEmpty : (empty : Lane α).toList = [] := rfl

theorem listOfPush (lane : Lane α) (a : α) : (lane.push a).toList = lane.toList ++ [a] := by
  simp [toList, push]

theorem listOfPushFront (lane : Lane α) (a : α) : (lane.pushFront a).toList = a :: lane.toList :=
  rfl

theorem prependCons (a : α) (group : List α) (lane : Lane α) :
    lane.prepend (a :: group) = (lane.prepend group).pushFront a := by
  simp [prepend]

theorem listOfPrepend (group : List α) (lane : Lane α) :
    (lane.prepend group).toList = group ++ lane.toList := by
  induction group with
  | nil => rfl
  | cons a group ih => rw [prependCons, listOfPushFront, ih, List.cons_append]

theorem listOfOfList (items : List α) : (ofList items).toList = items := by
  simp [toList, ofList]

theorem lengthOfList (lane : Lane α) : lane.toList.length = lane.size := by
  simp [toList, lane.counted]

theorem popped (lane : Lane α) :
    lane.pop?.map (fun taken => (taken.1, taken.2.toList)) =
      match lane.toList with
      | [] => none
      | a :: rest => some (a, rest) := by
  obtain ⟨front, back, size, counted⟩ := lane
  cases front with
  | cons a rest => simp [pop?, toList]
  | nil =>
    simp only [pop?, toList, List.nil_append]
    cases back.reverse with
    | nil => rfl
    | cons a rest => exact congrArg (fun items => some (a, items)) (listOfOfList rest)

theorem popNone {lane : Lane α} (ended : lane.pop? = none) : lane.toList = [] := by
  have view := popped lane
  rw [ended] at view
  cases list : lane.toList with
  | nil => rfl
  | cons a rest => simp [list] at view

theorem popSome {lane rest : Lane α} {a : α} (taken : lane.pop? = some (a, rest)) :
    lane.toList = a :: rest.toList := by
  have view := popped lane
  rw [taken] at view
  cases list : lane.toList with
  | nil => simp [list] at view
  | cons b others =>
    simp only [Option.map_some, list, Option.some.injEq, Prod.mk.injEq] at view
    rw [view.1, view.2]

end Lane

end Sequencer
