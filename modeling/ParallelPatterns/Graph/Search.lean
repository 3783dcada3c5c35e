/-!
# Searching through a relation

Depth-first and breadth-first search over any "next" function, with a list of what has been visited.
A search visits each element at most once, so the number of elements bounds the number of turns: the
`fuel` of a search is the size of the space it runs through.
-/

namespace ParallelPatterns.Search

variable {α : Type} [BEq α]

/-- Depth-first search: visits the first element of the stack that is new and puts what follows it
on top. The visited elements stand in the order of their visits. -/
def depthFirst (next : α → List α) : Nat → List α → List α → List α
  | 0, _, visited => visited
  | fuel + 1, stack, visited =>
    match stack.dropWhile visited.contains with
    | [] => visited
    | x :: rest => depthFirst next fuel (next x ++ rest) (visited ++ [x])

/-- Breadth-first search: visits the first element of the queue that is new and appends what follows
it. The visited elements stand in the order of their visits. -/
def breadthFirst (next : α → List α) : Nat → List α → List α → List α
  | 0, _, visited => visited
  | fuel + 1, queue, visited =>
    match queue.dropWhile visited.contains with
    | [] => visited
    | x :: rest => breadthFirst next fuel (rest ++ next x) (visited ++ [x])

def reached (next : α → List α) (size : Nat) (start : α) : List α :=
  depthFirst next (size + 1) [start] []

def enqueue (visited queue xs : List α) : List α :=
  xs.foldl (fun q x => if visited.contains x || q.contains x then q else q ++ [x]) queue

end ParallelPatterns.Search
