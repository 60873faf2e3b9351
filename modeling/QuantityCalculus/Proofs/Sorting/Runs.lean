import QuantityCalculus.Proofs.Sorting.Merge
import QuantityCalculus.Sorting.Runs

/-!
# Sorting keeps the items

If any two of the items can be compared, then sorting does not fail and returns the same
items in another order. The cut into runs takes every item, since each step takes at
least one and there are as many steps as items.
-/
namespace QuantityCalculus

namespace Sorting

variable {ε α : Type} {precedes : α → α → Except ε Bool} {p : α → Prop}

theorem splitRun_yields (hp : Compares precedes p) (descending : Bool) {last : α}
    {items : List α} (hlast : p last) (h : ∀ v ∈ items, p v) :
    Yields (splitRun precedes descending last items) fun r => r.1 ++ r.2 = items := by
  induction items generalizing last with
  | nil => exact .ok rfl
  | cons v rest ih =>
    have hv : p v := h v List.mem_cons_self
    have hrest : ∀ w ∈ rest, p w := fun w hw => h w (List.mem_cons_of_mem v hw)
    unfold splitRun
    refine (hp v last hv hlast).bind fun b _ => .ite (fun _ => ?_) fun _ => .ok rfl
    exact (ih hv hrest).bind fun r hr => .ok (congrArg (v :: ·) hr)

theorem orderedStart_yields (hp : Compares precedes p) {items : List α}
    (h : ∀ v ∈ items, p v) :
    Yields (orderedStart precedes items) fun r =>
      (r.1 ++ r.2).Perm items ∧ (items ≠ [] → r.1 ≠ []) := by
  unfold orderedStart
  split
  · rename_i v w rest
    have hv : p v := h v List.mem_cons_self
    have hw : p w := h w (List.mem_cons_of_mem v List.mem_cons_self)
    have hrest : ∀ x ∈ rest, p x := fun x hx =>
      h x (List.mem_cons_of_mem v (List.mem_cons_of_mem w hx))
    refine (hp w v hw hv).bind fun descending _ => ?_
    refine (splitRun_yields hp descending hw hrest).bind fun r hr => .ok ?_
    have hsame : (v :: w :: r.1) ++ r.2 = v :: w :: rest := by
      rw [List.cons_append, List.cons_append, hr]
    dsimp only
    constructor
    · -- a start that descends is turned round, which keeps its items
      rw [← hsame]
      apply List.Perm.append_right
      split
      · exact List.reverse_perm _
      · exact .refl _
    · intro _
      split <;> simp
  · refine .ok ⟨?_, id⟩
    rw [List.append_nil]

theorem insertInto_yields (hp : Compares precedes p) {run : List α} {v : α} (hv : p v)
    (h : ∀ w ∈ run, p w) :
    Yields (insertInto precedes run v) fun r => r.Perm (v :: run) := by
  unfold insertInto
  refine (bisect_yields (ask_yields hp true hv h) 0 run.length).bind fun k hk => .ok ?_
  rw [Nat.max_eq_right (Nat.zero_le _)] at hk
  exact List.perm_insertIdx v run hk

theorem insertAll_yields (hp : Compares precedes p) {run items : List α}
    (h : ∀ w ∈ run ++ items, p w) :
    Yields (items.foldlM (insertInto precedes) run) fun r => r.Perm (run ++ items) := by
  induction items generalizing run with
  | nil =>
    refine .ok ?_
    rw [List.append_nil]
  | cons v rest ih =>
    have hv : p v := h v (by simp)
    have hrun : ∀ w ∈ run, p w := fun w hw => h w (List.mem_append_left _ hw)
    rw [List.foldlM_cons]
    refine (insertInto_yields hp hv hrun).bind fun next hnext => ?_
    have hmoved : (next ++ rest).Perm (run ++ v :: rest) :=
      (hnext.append_right rest).trans List.perm_middle.symm
    exact (ih (all_of_perm hmoved h)).mono fun r hr => hr.trans hmoved

def itemsOf (runs : List (Run α)) : List α := runs.flatMap Run.items

@[simp] theorem itemsOf_nil : itemsOf ([] : List (Run α)) = [] := rfl

@[simp] theorem itemsOf_cons (run : Run α) (runs : List (Run α)) :
    itemsOf (run :: runs) = run.items ++ itemsOf runs := rfl

theorem merged_perm {previous last merged : List α} (others : List α)
    (h : merged.Perm (previous ++ last)) :
    (merged ++ others).Perm (last ++ (previous ++ others)) := by
  have hswap := List.perm_append_comm_assoc previous last others
  rw [← List.append_assoc] at hswap
  exact (h.append_right others).trans hswap

theorem all_neighbours {previous last others : List α}
    (h : ∀ v ∈ last ++ (previous ++ others), p v) : ∀ v ∈ previous ++ last, p v := by
  intro v hv
  apply h
  rcases List.mem_append.mp hv with hv | hv
  · simp [hv]
  · simp [hv]

theorem mergeBelow_yields (hp : Compares precedes p) (level fuel : Nat) {q : Pending α}
    (h : ∀ v ∈ itemsOf q.runs, p v) :
    Yields (mergeBelow precedes level fuel q) fun r => (itemsOf r.runs).Perm (itemsOf q.runs) := by
  induction fuel generalizing q with
  | zero => exact .ok (.refl _)
  | succ fuel ih =>
    unfold mergeBelow
    split
    · rename_i last previous others hruns
      rw [hruns] at h ⊢
      simp only [itemsOf_cons] at h ⊢
      refine .ite (fun _ => ?_) fun _ => .ok ?_
      · refine (mergeNeighbours_yields hp q.threshold (all_neighbours h)).bind fun r hr => ?_
        have hmerged := merged_perm (itemsOf others) hr
        rw [← itemsOf_cons { previous with items := r.1 }] at hmerged
        exact (ih (all_of_perm hmerged h)).mono fun q hq => hq.trans hmerged
      · rw [hruns]
        exact .refl _
    · exact .ok (.refl _)

theorem push_yields (hp : Compares precedes p) (size : Nat) {q : Pending α} (items : List α)
    (h : ∀ v ∈ itemsOf q.runs, p v) :
    Yields (q.push precedes size items) fun r =>
      (itemsOf r.runs).Perm (itemsOf q.runs ++ items) := by
  unfold Pending.push
  split
  · rename_i hruns
    refine .ok ?_
    simp [hruns]
  · refine (mergeBelow_yields hp _ _ h).bind fun r hr => ?_
    have hpushed : (items ++ itemsOf r.runs).Perm (itemsOf q.runs ++ items) :=
      List.perm_append_comm.trans (hr.append_right items)
    split
    · rename_i hruns
      rw [hruns] at hpushed
      exact .ok hpushed
    · rename_i last others hruns
      rw [hruns] at hpushed
      exact .ok hpushed

theorem cut_yields (hp : Compares precedes p) (size least fuel : Nat) {q : Pending α}
    {rest : List α} (hfuel : rest.length ≤ fuel) (h : ∀ v ∈ itemsOf q.runs ++ rest, p v) :
    Yields (cut precedes size least fuel q rest) fun r =>
      (itemsOf r.runs).Perm (itemsOf q.runs ++ rest) := by
  induction fuel generalizing q rest with
  | zero =>
    have hnone : rest = [] := List.length_eq_zero_iff.mp (Nat.le_zero.mp hfuel)
    rw [hnone, List.append_nil]
    exact .ok (.refl _)
  | succ fuel ih =>
    cases rest with
    | nil =>
      rw [List.append_nil]
      exact .ok (.refl _)
    | cons first others =>
      generalize hcons : first :: others = rest at h hfuel ⊢
      have hne : rest ≠ [] := hcons ▸ List.cons_ne_nil first others
      have hrest : ∀ v ∈ rest, p v := fun v hv => h v (List.mem_append_right _ hv)
      rw [← hcons, cut, hcons]
      · refine (orderedStart_yields hp hrest).bind fun r hr => ?_
        obtain ⟨run, tail⟩ := r
        obtain ⟨hperm, hrun⟩ := hr
        dsimp only at hperm hrun ⊢
        generalize least - run.length = missing
        have hparts : (run ++ tail.take missing ++ tail.drop missing).Perm rest := by
          rwa [List.append_assoc, List.take_append_drop]
        -- a run is never empty, so less is left than before
        have hlength : (tail.drop missing).length ≤ fuel := by
          have hpos := List.length_pos_iff.mpr (hrun hne)
          have hlen := hperm.length_eq
          rw [List.length_append] at hlen
          rw [List.length_drop]
          omega
        have hlonger : ∀ v ∈ run ++ tail.take missing, p v := fun v hv =>
          all_of_perm hparts hrest v (List.mem_append_left _ hv)
        refine (insertAll_yields hp hlonger).bind fun full hfull => ?_
        refine (push_yields hp size full fun v hv =>
          h v (List.mem_append_left _ hv)).bind fun next hnext => ?_
        have hall : (itemsOf next.runs ++ tail.drop missing).Perm (itemsOf q.runs ++ rest) := by
          have hrest := (hfull.append_right (tail.drop missing)).trans hparts
          have hpushed := hnext.append_right (tail.drop missing)
          rw [List.append_assoc] at hpushed
          exact hpushed.trans (hrest.append_left _)
        exact (ih hlength (all_of_perm hall h)).mono fun r hr => hr.trans hall
      · rw [hcons]
        exact hne

theorem mergeAll_yields (hp : Compares precedes p) (fuel : Nat) {q : Pending α}
    (h : ∀ v ∈ itemsOf q.runs, p v) :
    Yields (mergeAll precedes fuel q) fun r => r.Perm (itemsOf q.runs) := by
  induction fuel generalizing q with
  | zero => exact .ok ((List.reverse_perm q.runs).flatMap_right Run.items)
  | succ fuel ih =>
    -- Two neighbours are merged, and the runs before and behind them stay.
    have hmerge : ∀ (previous last : Run α) (next : List α → List (Run α)),
        (∀ v ∈ previous.items ++ last.items, p v) →
        (∀ merged : List α, merged.Perm (previous.items ++ last.items) →
          (itemsOf (next merged)).Perm (itemsOf q.runs)) →
        Yields
          (do
            let r ← mergeNeighbours precedes previous.items last.items q.threshold
            mergeAll precedes fuel ⟨next r.1, r.2⟩)
          fun r => r.Perm (itemsOf q.runs) := by
      intro previous last next hboth hnext
      refine (mergeNeighbours_yields hp q.threshold hboth).bind fun r hr => ?_
      have hperm := hnext r.1 hr
      exact (ih (all_of_perm hperm h)).mono fun r' hr' => hr'.trans hperm
    unfold mergeAll
    split
    · rename_i hruns
      rw [hruns]
      exact .ok (.refl _)
    · rename_i run hruns
      rw [hruns]
      exact .ok (by simp)
    · rename_i c b rest hruns
      rw [hruns] at h hmerge ⊢
      have hlast : ∀ v ∈ b.items ++ c.items, p v := all_neighbours h
      split
      · rename_i a others
        have hthird : ∀ v ∈ a.items ++ b.items, p v :=
          all_neighbours fun v hv => h v (List.mem_append_right c.items hv)
        refine .ite (fun _ => ?_) fun _ => ?_
        · exact hmerge a b (fun merged => c :: { a with items := merged } :: others) hthird
            fun merged hmerged => (merged_perm (itemsOf others) hmerged).append_left c.items
        · exact hmerge b c (fun merged => { b with items := merged } :: a :: others) hlast
            fun merged hmerged => merged_perm _ hmerged
      · exact hmerge b c (fun merged => [{ b with items := merged }]) hlast
          fun merged hmerged => merged_perm _ hmerged

/-- Items that can all be compared are sorted without fail, and none is lost or added. -/
theorem ascending_yields (hp : Compares precedes p) {items : List α} (h : ∀ v ∈ items, p v) :
    Yields (ascending precedes items) fun r => r.Perm items := by
  unfold ascending
  refine (cut_yields hp items.length (leastRun items.length) items.length (q := {})
    (Nat.le_refl _) h).bind fun q hq => ?_
  exact (mergeAll_yields hp q.runs.length (all_of_perm hq h)).mono fun r hr => hr.trans hq

end Sorting

end QuantityCalculus
