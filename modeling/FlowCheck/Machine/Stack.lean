/-!
# Stacks

Last-in first-out stacks that know their height, and return stacks that also know the greatest
height they ever had.
-/

namespace FlowCheck

/-- A stack, top first. -/
structure Stack (α : Type) where
  /-- The items from the top down. -/
  items : List α
  /-- The number of items. -/
  height : Nat
  /-- The height counts the items. -/
  height_eq : height = items.length

namespace Stack

/-- The stack without items. -/
def empty : Stack α :=
  ⟨[], 0, rfl⟩

/-- The stack with one more item on top. -/
def push (s : Stack α) (a : α) : Stack α :=
  ⟨a :: s.items, s.height + 1, by simp [s.height_eq]⟩

/-- The top item and the rest. -/
def pop? (s : Stack α) : Option (α × Stack α) :=
  match h : s.items with
  | [] => none
  | a :: rest => some (a, ⟨rest, s.height - 1, by simp [s.height_eq, h]⟩)

/-- The item below `depth` others. -/
def peek? (s : Stack α) (depth : Nat) : Option α :=
  s.items[depth]?

/-- The stack with the top item and the item at `depth` exchanged. -/
def swap (s : Stack α) (depth : Nat) : Stack α :=
  match s.items[0]?, s.items[depth]? with
  | some a, some b => ⟨(s.items.set 0 b).set depth a, s.height, by simp [s.height_eq]⟩
  | _, _ => s

/-- The items from the bottom up. -/
def toList (s : Stack α) : List α :=
  s.items.reverse

@[simp] theorem items_push (s : Stack α) (a : α) : (s.push a).items = a :: s.items := rfl

@[simp] theorem height_push (s : Stack α) (a : α) : (s.push a).height = s.height + 1 := rfl

@[simp] theorem toList_push (s : Stack α) (a : α) : (s.push a).toList = s.toList ++ [a] := by
  simp [toList]

end Stack

/-- A stack of resumption points with the greatest height it ever had. -/
structure ReturnStack (α : Type) where
  /-- The resumption points. -/
  stack : Stack α
  /-- The greatest height so far. -/
  peak : Nat

namespace ReturnStack

/-- The return stack of a fresh run. -/
def empty : ReturnStack α :=
  ⟨Stack.empty, 0⟩

/-- Adds a resumption point. -/
def push (s : ReturnStack α) (a : α) : ReturnStack α :=
  ⟨s.stack.push a, max s.peak (s.stack.height + 1)⟩

/-- The last resumption point and the rest. -/
def pop? (s : ReturnStack α) : Option (α × ReturnStack α) :=
  s.stack.pop?.map (fun (a, rest) => (a, ⟨rest, s.peak⟩))

/-- The last resumption point. -/
def peek? (s : ReturnStack α) : Option α :=
  s.stack.peek? 0

end ReturnStack

end FlowCheck
