import QuantityCalculus.Proofs.Sorting.Order
import QuantityCalculus.Proofs.Sorting.Runs

/-!
# Sorting puts in order

If a comparison is that of keys, then sorting returns the items in order of their keys. Every run
that is cut off is in order, since it is turned round if it descends and lengthened by insertion,
and so are the runs that are merged from them, until one is left.
-/
namespace QuantityCalculus

namespace Sorting

variable {ε α κ : Type} [LinearOrder κ] {key : α → κ} {precedes : α → α → Except ε Bool}
  {p : α → Prop}

theorem splitRun_yields_le (hp : Decides precedes p key) (descending : Bool) {last : α}
    {items : List α} (hlast : p last) (h : ∀ v ∈ items, p v) :
    Yields (splitRun precedes descending last items) fun r =>
      (last :: r.1).Pairwise ((if descending then End.back else End.front).le key) := by
  induction items generalizing last with
  | nil => exact .ok (List.pairwise_singleton _ _)
  | cons v rest ih =>
    have hv : p v := h v List.mem_cons_self
    have hrest : ∀ w ∈ rest, p w := fun w hw => h w (List.mem_cons_of_mem v hw)
    unfold splitRun
    rw [hp v last hv hlast, ok_bind]
    refine .ite (fun hsame => ?_) fun _ => .ok (List.pairwise_singleton _ _)
    refine (ih hv hrest).bind fun r hr => .ok ?_
    have hnext : (if descending then End.back else End.front).le key last v := by
      cases descending with
      | true => exact le_of_lt (of_decide_eq_true hsame)
      | false => exact le_of_not_gt (of_decide_eq_false hsame)
    exact List.pairwise_cons.mpr ⟨Merger.le_of_cons hr hnext, hr⟩

theorem orderedStart_yields_le (hp : Decides precedes p key) {items : List α}
    (h : ∀ v ∈ items, p v) :
    Yields (orderedStart precedes items) fun r => r.1.Pairwise (End.front.le key) := by
  unfold orderedStart
  split
  · rename_i v w rest
    have hv : p v := h v List.mem_cons_self
    have hw : p w := h w (List.mem_cons_of_mem v List.mem_cons_self)
    have hrest : ∀ x ∈ rest, p x := fun x hx =>
      h x (List.mem_cons_of_mem v (List.mem_cons_of_mem w hx))
    rw [hp w v hw hv, ok_bind]
    refine (splitRun_yields_le hp _ hw hrest).bind fun r hr => .ok ?_
    by_cases hlt : key w < key v
    · rw [decide_eq_true hlt] at hr ⊢
      exact List.pairwise_reverse.mpr
        (List.pairwise_cons.mpr ⟨Merger.le_of_cons (e := .back) hr (le_of_lt hlt), hr⟩)
    · rw [decide_eq_false hlt] at hr ⊢
      exact List.pairwise_cons.mpr
        ⟨Merger.le_of_cons (e := .front) hr (le_of_not_gt hlt), hr⟩
  · rename_i hshort
    refine .ok ?_
    match items, hshort with
    | [], _ => exact .nil
    | [v], _ => exact List.pairwise_singleton _ _
    | v :: w :: rest, hshort => exact (hshort v w rest rfl).elim

theorem insertAll_yields_le (hp : Decides precedes p key) {run items : List α}
    (h : ∀ w ∈ run ++ items, p w) (hrun : run.Pairwise (End.front.le key)) :
    Yields (items.foldlM (insertInto precedes) run) fun r => r.Pairwise (End.front.le key) := by
  induction items generalizing run with
  | nil => exact .ok hrun
  | cons v rest ih =>
    have hv : p v := h v (by simp)
    have hpr : ∀ w ∈ run, p w := fun w hw => h w (List.mem_append_left _ hw)
    rw [List.foldlM_cons]
    refine ((insertInto_yields hp.compares hv hpr).and
      (insertInto_yields_le hp hv hpr hrun)).bind fun next hnext => ?_
    obtain ⟨hperm, hsorted⟩ := hnext
    have hmoved : (next ++ rest).Perm (run ++ v :: rest) :=
      (hperm.append_right rest).trans List.perm_middle.symm
    exact ih (all_of_perm hmoved h) hsorted

def InOrder (key : α → κ) (runs : List (Run α)) : Prop :=
  ∀ run ∈ runs, run.items.Pairwise (End.front.le key)

section Pending

variable {q : Pending α} (hp : Decides precedes p key) (h : ∀ v ∈ itemsOf q.runs, p v)
  (hruns : InOrder key q.runs)

include hp h hruns

theorem mergeBelow_yields_le (level fuel : Nat) :
    Yields (mergeBelow precedes level fuel q) fun r => InOrder key r.runs := by
  induction fuel generalizing q with
  | zero => exact .ok hruns
  | succ fuel ih =>
    unfold mergeBelow
    split
    · rename_i last previous others hcons
      rw [hcons] at h hruns
      simp only [itemsOf_cons] at h
      obtain ⟨hlast, hprevious, hothers⟩ : _ ∧ _ ∧ InOrder key others := by
        simpa only [InOrder, List.forall_mem_cons] using hruns
      refine .ite (fun _ => ?_) fun _ => .ok (by rwa [hcons])
      refine ((mergeNeighbours_yields hp.compares q.threshold (all_neighbours h)).and
        (mergeNeighbours_yields_le hp q.threshold (all_neighbours h) hprevious hlast)).bind
          fun r hr => ?_
      have hmerged := merged_perm (itemsOf others) hr.1
      rw [← itemsOf_cons { previous with items := r.1 }] at hmerged
      exact ih (all_of_perm hmerged h) (List.forall_mem_cons.mpr ⟨hr.2, hothers⟩)
    · exact .ok hruns

theorem push_yields_le (size : Nat) {items : List α} (hitems : items.Pairwise (End.front.le key)) :
    Yields (q.push precedes size items) fun r => InOrder key r.runs := by
  unfold Pending.push
  split
  · exact .ok (List.forall_mem_singleton.mpr hitems)
  · refine (mergeBelow_yields_le hp h hruns _ _).bind fun r hr => ?_
    split
    · exact .ok (List.forall_mem_singleton.mpr hitems)
    · rename_i last others hcons
      rw [hcons] at hr
      obtain ⟨hlast, hothers⟩ := List.forall_mem_cons.mp hr
      exact .ok (List.forall_mem_cons.mpr ⟨hitems, List.forall_mem_cons.mpr ⟨hlast, hothers⟩⟩)

theorem mergeAll_yields_le {fuel : Nat} (hfuel : q.runs.length ≤ fuel) :
    Yields (mergeAll precedes fuel q) fun r => r.Pairwise (End.front.le key) := by
  induction fuel generalizing q with
  | zero =>
    have hnone : q.runs = [] := List.length_eq_zero_iff.mp (Nat.le_zero.mp hfuel)
    unfold mergeAll
    rw [hnone]
    exact .ok .nil
  | succ fuel ih =>
    -- Two neighbours are merged into one run in order, and one run less is left.
    have hmerge : ∀ (previous last : Run α) (next : List α → List (Run α)),
        (∀ v ∈ previous.items ++ last.items, p v) → previous ∈ q.runs → last ∈ q.runs →
        (∀ merged : List α, merged.Perm (previous.items ++ last.items) →
          (itemsOf (next merged)).Perm (itemsOf q.runs)) →
        (∀ merged : List α, merged.Pairwise (End.front.le key) →
          InOrder key (next merged) ∧ (next merged).length ≤ fuel) →
        Yields
          (do
            let r ← mergeNeighbours precedes previous.items last.items q.threshold
            mergeAll precedes fuel ⟨next r.1, r.2⟩)
          fun r => r.Pairwise (End.front.le key) := by
      intro previous last next hboth hprevious hlast hperm hnext
      refine ((mergeNeighbours_yields hp.compares q.threshold hboth).and
        (mergeNeighbours_yields_le hp q.threshold hboth (hruns previous hprevious)
          (hruns last hlast))).bind fun r hr => ?_
      obtain ⟨hmerged, hsorted⟩ := hr
      obtain ⟨horder, hlength⟩ := hnext r.1 hsorted
      exact ih (all_of_perm (hperm r.1 hmerged) h) horder hlength
    unfold mergeAll
    split
    · exact .ok .nil
    · rename_i run hcons
      exact .ok (hruns run (by simp [hcons]))
    · rename_i c b rest hcons
      rw [hcons] at h hmerge hruns hfuel
      have hlast : ∀ v ∈ b.items ++ c.items, p v := all_neighbours h
      obtain ⟨hc, hb, hrest⟩ : _ ∧ _ ∧ InOrder key rest := by
        simpa only [InOrder, List.forall_mem_cons] using hruns
      simp only [List.length_cons] at hfuel
      split
      · rename_i a others
        have hthird : ∀ v ∈ a.items ++ b.items, p v :=
          all_neighbours fun v hv => h v (List.mem_append_right c.items hv)
        obtain ⟨ha, hothers⟩ := List.forall_mem_cons.mp hrest
        simp only [List.length_cons] at hfuel
        refine .ite (fun _ => ?_) fun _ => ?_
        · refine hmerge a b (fun merged => c :: { a with items := merged } :: others) hthird
            (by simp) (by simp)
            (fun merged hmerged => (merged_perm (itemsOf others) hmerged).append_left c.items)
            fun merged hsorted => ⟨?_, ?_⟩
          · exact List.forall_mem_cons.mpr ⟨hc, List.forall_mem_cons.mpr ⟨hsorted, hothers⟩⟩
          · simp only [List.length_cons]
            omega
        · refine hmerge b c (fun merged => { b with items := merged } :: a :: others) hlast
            (by simp) (by simp) (fun merged hmerged => merged_perm _ hmerged)
            fun merged hsorted => ⟨?_, ?_⟩
          · exact List.forall_mem_cons.mpr ⟨hsorted, hrest⟩
          · simp only [List.length_cons]
            omega
      · refine hmerge b c (fun merged => [{ b with items := merged }]) hlast (by simp) (by simp)
          (fun merged hmerged => merged_perm _ hmerged) fun merged hsorted => ⟨?_, ?_⟩
        · exact List.forall_mem_singleton.mpr hsorted
        · simpa using hfuel

end Pending

theorem cut_yields_le (hp : Decides precedes p key) (size least fuel : Nat) {q : Pending α}
    {rest : List α} (h : ∀ v ∈ itemsOf q.runs ++ rest, p v) (hruns : InOrder key q.runs) :
    Yields (cut precedes size least fuel q rest) fun r => InOrder key r.runs := by
  induction fuel generalizing q rest with
  | zero => exact .ok hruns
  | succ fuel ih =>
    cases rest with
    | nil => exact .ok hruns
    | cons first others =>
      generalize hcons : first :: others = rest at h ⊢
      have hrest : ∀ v ∈ rest, p v := fun v hv => h v (List.mem_append_right _ hv)
      have hq : ∀ v ∈ itemsOf q.runs, p v := fun v hv => h v (List.mem_append_left _ hv)
      rw [← hcons, cut, hcons]
      · refine ((orderedStart_yields hp.compares hrest).and
          (orderedStart_yields_le hp hrest)).bind fun r hr => ?_
        obtain ⟨run, tail⟩ := r
        obtain ⟨⟨hperm, -⟩, hrun⟩ := hr
        dsimp only at hperm hrun ⊢
        generalize least - run.length = missing
        have hparts : (run ++ tail.take missing ++ tail.drop missing).Perm rest := by
          rwa [List.append_assoc, List.take_append_drop]
        have hall := all_of_perm hparts hrest
        have hlonger : ∀ v ∈ run ++ tail.take missing, p v := fun v hv =>
          hall v (List.mem_append_left _ hv)
        refine ((insertAll_yields hp.compares hlonger).and
          (insertAll_yields_le hp hlonger hrun)).bind fun full hfull => ?_
        refine ((push_yields hp.compares size full hq).and
          (push_yields_le hp hq hruns size hfull.2)).bind fun next hnext => ?_
        -- the items that the next round starts with are among those of this one
        refine ih (fun v hv => ?_) hnext.2
        rcases List.mem_append.mp hv with hv | hv
        · rcases List.mem_append.mp (hnext.1.mem_iff.mp hv) with hv | hv
          · exact hq v hv
          · exact hlonger v (hfull.1.mem_iff.mp hv)
        · exact hall v (List.mem_append_right _ hv)
      · exact List.cons_ne_nil first others

/-- Items that are compared by their keys come out in order of these. -/
theorem ascending_yields_le (hp : Decides precedes p key) {items : List α}
    (h : ∀ v ∈ items, p v) :
    Yields (ascending precedes items) fun r =>
      r.Perm items ∧ r.Pairwise (End.front.le key) := by
  refine (ascending_yields hp.compares h).and ?_
  unfold ascending
  refine ((cut_yields hp.compares items.length (leastRun items.length) items.length (q := {})
    (Nat.le_refl _) h).and (cut_yields_le hp _ _ _ h (List.forall_mem_nil _))).bind fun q hq => ?_
  exact mergeAll_yields_le hp (all_of_perm hq.1 h) hq.2 (Nat.le_refl _)

end Sorting

end QuantityCalculus
