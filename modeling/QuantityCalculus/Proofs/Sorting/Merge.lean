import QuantityCalculus.Proofs.Outcome
import QuantityCalculus.Sorting.Merge

/-!
# Merging keeps the items

If any two of the items can be compared, then no search and no merge fails, and what
comes out is what went in, in another order. Nothing is asked of the order itself, so
this also holds where the answers contradict each other.
-/
namespace QuantityCalculus

namespace Sorting

variable {ε α : Type}

variable {before : Nat → Except ε Bool}

theorem bisect_yields (h : ∀ k, Yields (before k) fun _ => True) (low high : Nat) :
    Yields (bisect before low high) fun k => k ≤ max low high := by
  fun_induction bisect before low high with
  | case1 low high hlt middle ihabove ihbelow =>
    refine (h _).bind fun b _ => .ite (fun _ => ?_) fun _ => ?_
    · refine ihabove.mono fun k hk => ?_
      omega
    · refine ihbelow.mono fun k hk => ?_
      omega
  | case2 low high hge => exact .ok (Nat.le_max_left low high)

theorem stride_yields (h : ∀ k, Yields (before k) fun _ => True) (limit last next : Nat) :
    Yields (stride before limit last next) fun _ => True := by
  fun_induction stride before limit last next with
  | case1 last next hlt ih =>
    exact (h next).bind fun b _ => .ite (fun _ => ih) fun _ => .ok trivial
  | case2 last next hge => exact .ok trivial

theorem gallop_yields (h : ∀ k, Yields (before k) fun _ => True) (size hint : Nat) :
    Yields (gallop before size hint) fun _ => True := by
  have hup : ∀ k, Yields (before (hint + k)) fun _ => True := fun k => h _
  have hdown : ∀ k, Yields (do .ok !(← before (hint - k))) fun _ => True := fun k =>
    (h _).bind fun b _ => .ok trivial
  unfold gallop
  refine (h hint).bind fun b _ => .ite (fun _ => ?_) fun _ => ?_
  · refine (stride_yields hup _ _ _).bind fun places _ => ?_
    exact (bisect_yields h _ _).mono fun _ _ => trivial
  · refine (stride_yields hdown _ _ _).bind fun places _ => ?_
    exact (bisect_yields h _ _).mono fun _ _ => trivial

variable {precedes : α → α → Except ε Bool} {p : α → Prop}

/-- Any two items with the property can be compared. -/
def Compares (precedes : α → α → Except ε Bool) (p : α → Prop) : Prop :=
  ∀ v w, p v → p w → Yields (precedes v w) fun _ => True

theorem isBefore_yields (hp : Compares precedes p) (inLeft : Bool) {key item : α} (hkey : p key)
    (hitem : p item) : Yields (isBefore precedes inLeft key item) fun _ => True := by
  unfold isBefore
  split
  · exact (hp key item hkey hitem).bind fun b _ => .ok trivial
  · exact hp item key hitem hkey

/-- Asking about a place of a run succeeds, within the run and beyond it. -/
theorem ask_yields (hp : Compares precedes p) (inLeft : Bool) {key : α} {run : List α}
    (hkey : p key) (hrun : ∀ v ∈ run, p v) (k : Nat) :
    Yields
      (match run[k]? with
      | some item => isBefore precedes inLeft key item
      | none => .ok false)
      fun _ => True := by
  cases hk : run[k]? with
  | none => exact .ok trivial
  | some item => exact isBefore_yields hp inLeft hkey (hrun item (List.mem_of_getElem? hk))

theorem reach_yields (hp : Compares precedes p) (e : End) (inLeft : Bool) {key : α}
    {run : List α} (hkey : p key) (hrun : ∀ v ∈ run, p v) :
    Yields (reach precedes e inLeft key run) fun _ => True := by
  have hask := ask_yields hp inLeft hkey hrun
  unfold reach
  cases e with
  | front => exact gallop_yields hask _ _
  | back => exact (gallop_yields (fun k => hask _) _ _).bind fun k _ => .ok trivial

namespace Merger

def items (m : Merger α) : List α := m.placed ++ (m.short ++ m.long)

theorem placed_perm (taken placed rest : List α) :
    ((taken.reverse ++ placed) ++ rest).Perm (placed ++ (taken ++ rest)) := by
  have hfront : (taken.reverse ++ placed).Perm (placed ++ taken) :=
    ((List.reverse_perm taken).append_right placed).trans List.perm_append_comm
  rw [← List.append_assoc]
  exact hfront.append_right rest

theorem takeShort_perm (m : Merger α) (k : Nat) : (m.takeShort k).items.Perm m.items := by
  have h := placed_perm (m.short.take k) m.placed (m.short.drop k ++ m.long)
  rwa [← List.append_assoc (m.short.take k), List.take_append_drop] at h

theorem takeLong_perm (m : Merger α) (k : Nat) : (m.takeLong k).items.Perm m.items := by
  have h := placed_perm (m.long.take k) m.placed (m.short ++ m.long.drop k)
  have hback : (m.long.take k ++ (m.short ++ m.long.drop k)).Perm (m.short ++ m.long) := by
    have hswap := List.perm_append_comm_assoc (m.long.take k) m.short (m.long.drop k)
    rwa [List.take_append_drop] at hswap
  exact h.trans (hback.append_left m.placed)

theorem stepShort_perm (m : Merger α) : m.stepShort.items.Perm m.items := by
  unfold stepShort
  split
  · exact .refl _
  · exact m.takeShort_perm 1

theorem stepLong_perm (m : Merger α) : m.stepLong.items.Perm m.items := by
  unfold stepLong
  split
  · exact .refl _
  · exact m.takeLong_perm 1

theorem result_perm (m : Merger α) (e : End) : (m.result e).Perm m.items := by
  have hlisted : (m.placed.reverse ++ m.long ++ m.short).Perm m.items := by
    rw [List.append_assoc]
    exact (List.reverse_perm m.placed).append List.perm_append_comm
  cases e with
  | front => exact hlisted
  | back => exact (List.reverse_perm _).trans hlisted

end Merger

theorem gallopShort_yields (hp : Compares precedes p) (e : End) {m : Merger α}
    (hm : ∀ v ∈ m.items, p v) :
    Yields (gallopShort precedes e m) fun r => r.1.items.Perm m.items := by
  unfold gallopShort
  refine .ite (fun _ => .ok (.refl _)) fun _ => ?_
  split
  · exact .ok (.refl _)
  · rename_i y rest hlong
    have hy : p y := hm y (by simp [Merger.items, hlong])
    have hshort : ∀ v ∈ m.short, p v := fun v hv => hm v (by simp [Merger.items, hv])
    exact (reach_yields hp e _ hy hshort).bind fun k _ => .ok (m.takeShort_perm k)

theorem gallopLong_yields (hp : Compares precedes p) (e : End) {m : Merger α}
    (hm : ∀ v ∈ m.items, p v) :
    Yields (gallopLong precedes e m) fun r => r.1.items.Perm m.items := by
  unfold gallopLong
  refine .ite (fun _ => .ok (.refl _)) fun _ => ?_
  split
  · exact .ok (.refl _)
  · rename_i x rest hshort
    have hx : p x := hm x (by simp [Merger.items, hshort])
    have hlong : ∀ v ∈ m.long, p v := fun v hv => hm v (by simp [Merger.items, hv])
    exact (reach_yields hp e _ hx hlong).bind fun k _ => .ok (m.takeLong_perm k)

theorem all_of_perm {items others : List α} (h : items.Perm others) (hp : ∀ v ∈ others, p v) :
    ∀ v ∈ items, p v :=
  fun v hv => hp v (h.mem_iff.mp hv)

theorem searchBoth_yields (hp : Compares precedes p) (e : End) {m : Merger α}
    (hm : ∀ v ∈ m.items, p v) :
    Yields (searchBoth precedes e m) fun r => r.1.items.Perm m.items := by
  unfold searchBoth
  cases e with
  | front =>
    refine (gallopShort_yields hp .front hm).bind fun r hr => ?_
    have hstep := r.1.stepLong_perm.trans hr
    refine (gallopLong_yields hp .front (all_of_perm hstep hm)).bind fun r' hr' => ?_
    exact .ok (r'.1.stepShort_perm.trans (hr'.trans hstep))
  | back =>
    refine (gallopLong_yields hp .back hm).bind fun r hr => ?_
    have hstep := r.1.stepShort_perm.trans hr
    refine (gallopShort_yields hp .back (all_of_perm hstep hm)).bind fun r' hr' => ?_
    exact .ok (r'.1.stepLong_perm.trans (hr'.trans hstep))

theorem longIsNext_yields (hp : Compares precedes p) (e : End) {x y : α} (hx : p x) (hy : p y) :
    Yields (longIsNext precedes e x y) fun _ => True := by
  cases e with
  | front => exact hp y x hy hx
  | back => exact hp x y hx hy

theorem merge_yields (hp : Compares precedes p) (e : End) (fuel : Nat) (pace : Pace)
    (threshold : Nat) {m : Merger α} (hm : ∀ v ∈ m.items, p v) :
    Yields (merge precedes e fuel pace threshold m) fun r => r.1.Perm m.items := by
  induction fuel generalizing pace threshold m with
  | zero => exact .ok (m.result_perm e)
  | succ fuel ih =>
    -- Wherever the next round goes on, it goes on with the same items.
    have hnext : ∀ (pace : Pace) (threshold : Nat) {next : Merger α},
        next.items.Perm m.items →
          Yields (merge precedes e fuel pace threshold next) fun r => r.1.Perm m.items :=
      fun pace threshold next h =>
        (ih pace threshold (all_of_perm h hm)).mono fun r hr => hr.trans h
    unfold merge
    refine .ite (fun _ => .ok (m.result_perm e)) fun _ => ?_
    split
    · rename_i shortWins longWins x short y long hshort hlong
      have hx : p x := hm x (by simp [Merger.items, hshort])
      have hy : p y := hm y (by simp [Merger.items, hlong])
      refine (longIsNext_yields hp e hx hy).bind fun won _ => ?_
      have hstep : (if won then m.takeLong 1 else m.takeShort 1).items.Perm m.items := by
        split
        · exact m.takeLong_perm 1
        · exact m.takeShort_perm 1
      exact .ite (fun _ => hnext _ _ hstep) fun _ => hnext _ _ hstep
    · refine (searchBoth_yields hp e hm).bind fun r hr => ?_
      exact .ite (fun _ => hnext _ _ hr) fun _ => hnext _ _ hr

theorem Merger.start_perm (short long : List α) :
    (Merger.mk (long.take 1) short (long.drop 1)).items.Perm (short ++ long) := by
  have hswap := List.perm_append_comm_assoc (long.take 1) short (long.drop 1)
  rwa [List.take_append_drop] at hswap

theorem mergeFromFront_yields (hp : Compares precedes p) (fuel threshold : Nat) {a b : List α}
    (h : ∀ v ∈ a ++ b, p v) :
    Yields (merge precedes .front fuel (.stepping 0 0) threshold ⟨b.take 1, a, b.drop 1⟩) fun r =>
      r.1.Perm (a ++ b) := by
  have hstart := Merger.start_perm a b
  exact (merge_yields hp .front fuel _ threshold (all_of_perm hstart h)).mono
    fun r hr => hr.trans hstart

theorem mergeFromBack_yields (hp : Compares precedes p) (fuel threshold : Nat) {a b : List α}
    (h : ∀ v ∈ a ++ b, p v) :
    Yields
      (merge precedes .back fuel (.stepping 0 0) threshold
        ⟨a.reverse.take 1, b.reverse, a.reverse.drop 1⟩)
      fun r => r.1.Perm (a ++ b) := by
  have hstart := Merger.start_perm b.reverse a.reverse
  rw [← List.reverse_append] at hstart
  have hstart := hstart.trans (List.reverse_perm (a ++ b))
  exact (merge_yields hp .back fuel _ threshold (all_of_perm hstart h)).mono
    fun r hr => hr.trans hstart

/-- What stands before and behind a merge stays where it is. -/
theorem between_perm {left right merged : List α} (before behind : Nat)
    (h : merged.Perm (left.drop before ++ right.take behind)) :
    (left.take before ++ merged ++ right.drop behind).Perm (left ++ right) := by
  have hwhole := (h.append_left (left.take before)).append_right (right.drop behind)
  rwa [← List.append_assoc, List.take_append_drop, List.append_assoc left,
    List.take_append_drop] at hwhole

theorem mergeNeighbours_yields (hp : Compares precedes p) {left right : List α} (threshold : Nat)
    (h : ∀ v ∈ left ++ right, p v) :
    Yields (mergeNeighbours precedes left right threshold) fun r =>
      r.1.Perm (left ++ right) := by
  have hleft : ∀ v ∈ left, p v := fun v hv => h v (List.mem_append_left right hv)
  have hright : ∀ v ∈ right, p v := fun v hv => h v (List.mem_append_right left hv)
  unfold mergeNeighbours
  split
  · rename_i first rest last _ hreverse
    have hfirst : p first := hright first List.mem_cons_self
    have hlast : p last := by
      apply hleft
      rw [← List.mem_reverse, hreverse]
      exact List.mem_cons_self
    generalize first :: rest = right at h hright ⊢
    refine (reach_yields hp .front true hfirst hleft).bind fun before _ => ?_
    refine .ite (fun _ => .ok (.refl _)) fun _ => ?_
    refine (reach_yields hp .back false hlast
      fun v hv => hright v (List.mem_reverse.mp hv)).bind fun behind _ => ?_
    refine .ite (fun _ => .ok (.refl _)) fun _ => ?_
    -- only what lies between the two places is merged
    have hmiddle : ∀ v ∈ left.drop before ++ right.take (right.length - behind), p v := by
      intro v hv
      rcases List.mem_append.mp hv with hv | hv
      · exact hleft v (List.mem_of_mem_drop hv)
      · exact hright v (List.mem_of_mem_take hv)
    dsimp only
    refine .ite (fun _ => ?_) fun _ => ?_
    · exact (mergeFromFront_yields hp _ threshold hmiddle).bind fun r hr =>
        .ok (between_perm _ _ hr)
    · exact (mergeFromBack_yields hp _ threshold hmiddle).bind fun r hr =>
        .ok (between_perm _ _ hr)
  · exact .ok (.refl _)

end Sorting

end QuantityCalculus
