import QuantityCalculus.Number.Power
import QuantityCalculus.Sorting.Merge

/-!
# Sorting by runs

A list is sorted by finding the runs in it that are in order already, lengthening
short ones by insertion, and merging neighbours. When a run is merged depends on how
high the boundary between it and the next one stands in a binary tree over the whole
list, which keeps the merges balanced. Sorting is stable.
-/
namespace QuantityCalculus

open scoped NaturalPowers

namespace Sorting

variable {ε α : Type}

structure Run (α : Type) where
  /-- Where the run starts in the list. -/
  start : Nat
  items : List α
  /-- How high the boundary to the next run stands; the root has the least number. -/
  level : Nat := 0

/-- Runs in front of the rest of the list, the last one first, and the threshold for merges. -/
structure Pending (α : Type) where
  runs : List (Run α) := []
  threshold : Nat := standardThreshold

/-- The least length of a run: the size divided by the least power of two that brings it
below 64, rounded up. -/
def leastRun (size : Nat) : Nat :=
  let unit := 2 ^ (size.log2 - 5)
  (size + unit - 1) / unit

/-- The first binary place at which the quotients of `a` and `b` by `2 * size` differ. -/
def boundaryLevel (size : Nat) : (fuel a b : Nat) → Nat
  | 0, _, _ => 1
  | fuel + 1, a, b =>
    if size ≤ a then boundaryLevel size fuel (2 * (a - size)) (2 * (b - size)) + 1
    else if size ≤ b then 1
    else boundaryLevel size fuel (2 * a) (2 * b) + 1

variable (precedes : α → α → Except ε Bool)

/-- Split a list where first an item precedes its predecessor, or where first it does not. -/
def splitRun (descending : Bool) (last : α) : List α → Except ε (List α × List α)
  | [] => .ok ([], [])
  | v :: rest => do
    if (← precedes v last) = descending then
      let (run, tail) ← splitRun descending v rest
      .ok (v :: run, tail)
    else
      .ok ([], v :: rest)

/-- The items in order at the start, turned round if they descend, and the others. -/
def orderedStart : List α → Except ε (List α × List α)
  | v :: w :: rest => do
    let descending ← precedes w v
    let (run, tail) ← splitRun precedes descending w rest
    let run := v :: w :: run
    .ok (if descending then run.reverse else run, tail)
  | items => .ok (items, [])

/-- Put an item behind all items of a run that it does not precede. -/
def insertInto (run : List α) (v : α) : Except ε (List α) := do
  let ask (k : Nat) : Except ε Bool :=
    match run[k]? with
    | some w => isBefore precedes true v w
    | none => .ok false
  .ok (run.insertIdx (← bisect ask 0 run.length) v)

/-- Merge the last run with the one before it while the boundary between them stands lower
than the given level. -/
def mergeBelow (level : Nat) : (fuel : Nat) → Pending α → Except ε (Pending α)
  | 0, p => .ok p
  | fuel + 1, p => do
    match p.runs with
    | last :: previous :: others =>
      if level < previous.level then
        let (items, threshold) ← mergeNeighbours precedes previous.items last.items p.threshold
        mergeBelow level fuel ⟨{ previous with items } :: others, threshold⟩
      else
        .ok p
    | _ => .ok p

/-- Add a run at the end, after the merges that its boundary calls for. -/
def Pending.push (size : Nat) (p : Pending α) (items : List α) : Except ε (Pending α) := do
  match p.runs with
  | [] => .ok { p with runs := [{ start := 0, items }] }
  | last :: _ =>
    let count := last.items.length
    let a := 2 * last.start + count
    let level := boundaryLevel size (size.log2 + 2) a (a + count + items.length)
    let p ← mergeBelow precedes level p.runs.length p
    match p.runs with
    | [] => .ok { p with runs := [{ start := 0, items }] }
    | last :: others =>
      let run := { start := last.start + last.items.length, items }
      .ok { p with runs := run :: { last with level } :: others }

/-- Cut the rest of the list into runs; every step takes at least one item. -/
def cut (size least : Nat) : (fuel : Nat) → Pending α → List α → Except ε (Pending α)
  | 0, p, _ => .ok p
  | _, p, [] => .ok p
  | fuel + 1, p, rest => do
    let (run, tail) ← orderedStart precedes rest
    let missing := least - run.length
    let run ← (tail.take missing).foldlM (insertInto precedes) run
    cut size least fuel (← p.push precedes size run) (tail.drop missing)

/-- Merge all runs, a short one in third place with the second and else the last two. -/
def mergeAll : (fuel : Nat) → Pending α → Except ε (List α)
  | 0, p => .ok (p.runs.reverse.flatMap Run.items)
  | fuel + 1, p => do
    match p.runs with
    | [] => .ok []
    | [run] => .ok run.items
    | c :: b :: rest =>
      match rest with
      | a :: others =>
        if a.items.length < c.items.length then
          let (items, threshold) ← mergeNeighbours precedes a.items b.items p.threshold
          mergeAll fuel ⟨c :: { a with items } :: others, threshold⟩
        else
          let (items, threshold) ← mergeNeighbours precedes b.items c.items p.threshold
          mergeAll fuel ⟨{ b with items } :: rest, threshold⟩
      | [] =>
        let (items, threshold) ← mergeNeighbours precedes b.items c.items p.threshold
        mergeAll fuel ⟨[{ b with items }], threshold⟩

def ascending (items : List α) : Except ε (List α) := do
  let size := items.length
  let p ← cut precedes size (leastRun size) size {} items
  mergeAll precedes p.runs.length p

end Sorting

end QuantityCalculus
