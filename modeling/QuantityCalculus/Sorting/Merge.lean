import QuantityCalculus.Sorting.Search

/-!
# Merging neighbouring runs

Two neighbouring runs in order are merged from that end at which the shorter one
lies. Items are compared one by one until one run has won so often in a row that it
pays to look for all of its next winners at once. How often that must be, the
threshold, goes down while such searches pay and up when they do not. Of equal
items those of the left run come first.
-/
namespace QuantityCalculus

namespace Sorting

variable {ε α : Type}

inductive End where
  | front
  | back
  deriving DecidableEq, Repr

/-- Two runs that are being merged from an end; both are listed from that end on. At the
front the short run is the left one, at the back it is the right one. -/
structure Merger (α : Type) where
  /-- What has its place already, the latest first. -/
  placed : List α
  short : List α
  long : List α

namespace Merger

/-- Nothing is left to compare: the rest of the long run and then that of the short one follow. -/
def isDone (m : Merger α) : Bool := m.long.isEmpty || m.short.length ≤ 1

def takeShort (k : Nat) (m : Merger α) : Merger α :=
  { m with placed := (m.short.take k).reverse ++ m.placed, short := m.short.drop k }

def takeLong (k : Nat) (m : Merger α) : Merger α :=
  { m with placed := (m.long.take k).reverse ++ m.placed, long := m.long.drop k }

def stepShort (m : Merger α) : Merger α := if m.isDone then m else m.takeShort 1

def stepLong (m : Merger α) : Merger α := if m.isDone then m else m.takeLong 1

def result (e : End) (m : Merger α) : List α :=
  let listed := m.placed.reverse ++ m.long ++ m.short
  match e with
  | .front => listed
  | .back => listed.reverse

end Merger

variable (precedes : α → α → Except ε Bool)

def isBefore (inLeft : Bool) (key item : α) : Except ε Bool :=
  if inLeft then do .ok !(← precedes key item) else precedes item key

/-- How many items at the end of a run, which is listed from there on, have their place
before a key of the other run; the end is where they are sought first. -/
def reach (e : End) (inLeft : Bool) (key : α) (run : List α) : Except ε Nat := do
  let ask (k : Nat) : Except ε Bool :=
    match run[k]? with
    | some item => isBefore precedes inLeft key item
    | none => .ok false
  match e with
  | .front => gallop ask run.length 0
  | .back => .ok (run.length - (← gallop (fun k => ask (run.length - 1 - k)) run.length (run.length - 1)))

def longIsNext (e : End) (x y : α) : Except ε Bool :=
  match e with
  | .front => precedes y x
  | .back => precedes x y

/-- Take all winners of the short run, and tell how many there are. -/
def gallopShort (e : End) (m : Merger α) : Except ε (Merger α × Nat) := do
  if m.isDone then .ok (m, 0)
  else
    match m.long with
    | [] => .ok (m, 0)
    | y :: _ =>
      let k ← reach precedes e (e == .front) y m.short
      .ok (m.takeShort k, k)

def gallopLong (e : End) (m : Merger α) : Except ε (Merger α × Nat) := do
  if m.isDone then .ok (m, 0)
  else
    match m.short with
    | [] => .ok (m, 0)
    | x :: _ =>
      let k ← reach precedes e (e == .back) x m.long
      .ok (m.takeLong k, k)

/-- One search in the left run and one in the right, in this order at the front and at the
back alike, each followed by an item of the other run; and the larger number of winners. -/
def searchBoth (e : End) (m : Merger α) : Except ε (Merger α × Nat) := do
  match e with
  | .front =>
    let (m, k) ← gallopShort precedes e m
    let (m, l) ← gallopLong precedes e m.stepLong
    .ok (m.stepShort, max k l)
  | .back =>
    let (m, k) ← gallopLong precedes e m
    let (m, l) ← gallopShort precedes e m.stepShort
    .ok (m.stepLong, max k l)

/-- The least threshold from which searches start, and the least number of winners that
makes one pay. -/
def standardThreshold : Nat := 7

/-- Items are compared one by one, with how often each run has won in a row, or searched. -/
inductive Pace where
  | stepping (short long : Nat)
  | searching

/-- Merge to the end. Every step but the last places an item, so their number bounds the
steps. The threshold is returned for the merges to come. -/
def merge (e : End) : (fuel : Nat) → Pace → (threshold : Nat) → Merger α →
    Except ε (List α × Nat)
  | 0, _, threshold, m => .ok (m.result e, threshold)
  | fuel + 1, pace, threshold, m => do
    if m.isDone then .ok (m.result e, threshold)
    else
      match pace, m.short, m.long with
      | .stepping shortWins longWins, x :: _, y :: _ =>
        let won ← longIsNext precedes e x y
        let next := if won then m.takeLong 1 else m.takeShort 1
        let wins := if won then longWins + 1 else shortWins + 1
        if !next.isDone && threshold ≤ wins then
          merge e fuel .searching (threshold + 1) next
        else
          merge e fuel (if won then .stepping 0 wins else .stepping wins 0) threshold next
      | _, _, _ =>
        let threshold := max 1 (threshold - 1)
        let (next, winners) ← searchBoth precedes e m
        if next.isDone || standardThreshold ≤ winners then merge e fuel .searching threshold next
        else merge e fuel (.stepping 0 0) (threshold + 1) next

/-- Merge a run with its right neighbour. Items at the outer ends that are in place already
are left alone, and the first item to be placed needs no comparison. -/
def mergeNeighbours (left right : List α) (threshold : Nat) : Except ε (List α × Nat) := do
  match right, left.reverse with
  | first :: _, last :: _ =>
    let before ← reach precedes .front true first left
    let a := left.drop before
    if a.isEmpty then .ok (left ++ right, threshold)
    else
      let behind ← reach precedes .back false last right.reverse
      let b := right.take (right.length - behind)
      if b.isEmpty then .ok (left ++ right, threshold)
      else
        let (merged, threshold) ←
          if a.length ≤ b.length then
            merge precedes .front (a.length + b.length) (.stepping 0 0) threshold
              ⟨b.take 1, a, b.drop 1⟩
          else
            merge precedes .back (a.length + b.length) (.stepping 0 0) threshold
              ⟨a.reverse.take 1, b.reverse, a.reverse.drop 1⟩
        .ok (left.take before ++ merged ++ right.drop (right.length - behind), threshold)
  | _, _ => .ok (left ++ right, threshold)

end Sorting

end QuantityCalculus
