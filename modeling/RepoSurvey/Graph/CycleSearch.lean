import RepoSurvey.Graph.Digraph

/-!
# Searching a graph for cycles

A depth-first search that keeps its path. A successor on the path closes a cycle: the part of
the path from that successor on. Of cycles with the same key only the first is kept.

* `CycleSearch.State`: the search between two steps;
* `CycleSearch.step`: one step; it fails only if the state is out of joint;
* `CycleSearch.remaining`: the number of steps that are left;
* `Digraph.cycles`: all cycles found from a list of starting points.
-/

namespace RepoSurvey

namespace CycleSearch

/-- The text by which cycles are told apart: the labels in order, with bars between them. -/
def key {ν : Type} (label : ν → String) (cycle : List ν) : String :=
  "|".intercalate ((cycle.map label).mergeSort fun a b => a ≤ b)

structure State (ν : Type) where
  visited : List ν
  onPath : List ν
  /-- The path, its end first. -/
  path : List ν
  /-- Where on the path a node stands, counted from its start. -/
  position : List (ν × Nat)
  /-- For each node of the path, its end first, the successors still to be looked at. -/
  pending : List (List ν)
  seen : List String
  found : List (List ν)

variable {ν : Type} [DecidableEq ν]

def State.initial : State ν := ⟨[], [], [], [], [], [], []⟩

/-- Extend the path by a node that was not visited before. -/
def State.enter (g : Digraph ν) (v : ν) (s : State ν) : State ν :=
  { s with
    visited := v :: s.visited
    onPath := v :: s.onPath
    path := v :: s.path
    position := (v, s.path.length) :: s.position
    pending := g.successors v :: s.pending }

def State.positionOf? (s : State ν) (v : ν) : Option Nat :=
  (s.position.find? fun e => e.1 = v).map (·.2)

/-- Leave the end of the path. -/
def State.leave? (s : State ν) (pending : List (List ν)) : Option (State ν) :=
  match s.path with
  | [] => none
  | v :: path =>
    match s.positionOf? v with
    | none => none
    | some _ =>
      some { s with
        path := path
        onPath := s.onPath.filter (· ≠ v)
        position := s.position.filter (·.1 ≠ v)
        pending := pending }

/-- Keep the cycle that a successor on the path closes, if its key is new. -/
def State.close? (label : ν → String) (s : State ν) (v : ν) (pending : List (List ν)) :
    Option (State ν) :=
  match s.positionOf? v with
  | none => none
  | some i =>
    let cycle := s.path.reverse.drop i
    let k := key label cycle
    if k ∈ s.seen then some { s with pending := pending }
    else some { s with pending := pending, seen := k :: s.seen, found := s.found ++ [cycle] }

def step (g : Digraph ν) (label : ν → String) (s : State ν) : Option (State ν) :=
  match s.pending with
  | [] => some s
  | [] :: rest => s.leave? rest
  | (v :: more) :: rest =>
    if v ∉ s.visited then some (State.enter g v { s with pending := more :: rest })
    else if v ∈ s.onPath then s.close? label v (more :: rest)
    else some { s with pending := more :: rest }

/-- The steps that are left: for each node not visited yet and each node of the path one, and one
for each successor to be looked at. -/
def remaining (g : Digraph ν) (s : State ν) : Nat :=
  ((g.nodes.filter (· ∉ s.visited)).map fun v => (g.successors v).length + 1).foldr (· + ·) 0
    + (s.pending.map fun more => more.length + 1).foldr (· + ·) 0

/-- At most `count` steps, up to the end of the path. -/
def run (g : Digraph ν) (label : ν → String) : Nat → State ν → Option (State ν)
  | 0, s => some s
  | count + 1, s =>
    if s.pending.isEmpty then some s else (step g label s).bind (run g label count)

/-- Search from one starting point. -/
def searchFrom (g : Digraph ν) (label : ν → String) (s : State ν) (root : ν) :
    Option (State ν) :=
  if root ∈ s.visited ∨ root ∉ g.nodes then some s
  else
    let s := s.enter g root
    run g label (remaining g s) s

def search (g : Digraph ν) (label : ν → String) (order : List ν) : Option (State ν) :=
  order.foldlM (searchFrom g label) State.initial

end CycleSearch

/-- The cycles found from the given starting points, or from all nodes in their order. -/
def Digraph.cycles {ν : Type} [DecidableEq ν] (g : Digraph ν) (label : ν → String)
    (order : Option (List ν)) : List (List ν) :=
  ((CycleSearch.search g label (order.getD g.nodes)).map CycleSearch.State.found).getD []

end RepoSurvey
