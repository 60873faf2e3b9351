import Mathlib.Order.Lattice
import QuantityCalculus.Proofs.Sorting.Merge
import QuantityCalculus.Sorting.Runs

/-!
# Searches in order

Where the answers along a run change once, from before to not before, every search ends at the
place of the change, whether it halves or goes by strides, and wherever it starts. In a run that
is in order the answers for a key do change once, so what lies in front of the place found is not
behind the key, and what follows is not in front of it.
-/
namespace QuantityCalculus

namespace Sorting

variable {ε α κ : Type}

/-- Of the first `size` places, exactly those below `n` are before. -/
structure Divides (before : Nat → Except ε Bool) (size n : Nat) : Prop where
  le : n ≤ size
  answer : ∀ k < size, before k = .ok (decide (k < n))

namespace Divides

variable {before : Nat → Except ε Bool} {size n : Nat}

theorem bisect_eq (h : Divides before size n) {low high : Nat} (hlow : low ≤ n) (hhigh : n ≤ high)
    (hsize : high ≤ size) : bisect before low high = .ok n := by
  fun_induction bisect before low high with
  | case1 low high hlt middle ihabove ihbelow =>
    have hmiddle : middle < high := by omega
    rw [h.answer middle (by omega), ok_bind]
    by_cases hn : middle < n
    · rw [decide_eq_true hn]
      exact ihabove hn hhigh hsize
    · rw [decide_eq_false hn]
      exact ihbelow hlow (by omega) (by omega)
  | case2 low high hge =>
    have hsame : low = n := by omega
    rw [hsame]

/-- Strides stop on either side of the change. -/
theorem stride_yields (h : Divides before size n) {last : Nat} (next : Nat) (hlast : last < n) :
    Yields (stride before size last next) fun r => r.1 < n ∧ n ≤ r.2 ∧ r.2 ≤ size := by
  fun_induction stride before size last next with
  | case1 last next hlt ih =>
    rw [h.answer next hlt, ok_bind]
    by_cases hn : next < n
    · rw [decide_eq_true hn]
      exact ih hn
    · rw [decide_eq_false hn]
      exact .ok ⟨hlast, by omega, by omega⟩
  | case2 last next hge => exact .ok ⟨hlast, h.le, Nat.le_refl _⟩

/-- The places from one that is before on. -/
theorem upward (h : Divides before size n) (hint : Nat) :
    Divides (fun k => before (hint + k)) (size - hint) (n - hint) where
  le := by have := h.le; omega
  answer k hk := by
    rw [h.answer (hint + k) (by omega)]
    congr 1
    simp only [decide_eq_decide]
    omega

/-- The places down from one that is not before, which go on as long as they are not. -/
theorem downward (h : Divides before size n) {hint : Nat} (hhint : hint < size) :
    Divides (fun k => do .ok !(← before (hint - k))) (hint + 1) (hint + 1 - n) where
  le := by omega
  answer k hk := by
    rw [h.answer (hint - k) (by omega), ok_bind, ← decide_not]
    congr 1
    simp only [decide_eq_decide]
    omega

theorem gallop_eq (h : Divides before size n) {hint : Nat} (hhint : hint < size) :
    gallop before size hint = .ok n := by
  unfold gallop
  rw [h.answer hint hhint, ok_bind]
  by_cases hn : hint < n
  · obtain ⟨⟨last, next⟩, hstride, hlast, hnext, hsize⟩ :=
      (h.upward hint).stride_yields 1 (Nat.sub_pos_of_lt hn)
    dsimp only at hlast hnext hsize
    rw [decide_eq_true hn, if_pos rfl, hstride, ok_bind]
    exact h.bisect_eq (by omega) (by omega) (by omega)
  · have hstart : 0 < hint + 1 - n := by omega
    obtain ⟨⟨last, next⟩, hstride, hlast, hnext, hsize⟩ :=
      (h.downward hhint).stride_yields 1 hstart
    dsimp only at hlast hnext hsize
    rw [decide_eq_false hn, if_neg Bool.false_ne_true, hstride, ok_bind]
    exact h.bisect_eq (by omega) (by omega) (by omega)

end Divides

section Run

variable {run : List α} {b : α → Bool} {ask : α → Except ε Bool} {n : Nat}

/-- Where later answers imply earlier ones, the answers change once. -/
theorem exists_cut (h : run.Pairwise fun v w => b w = true → b v = true) :
    ∃ n ≤ run.length, (∀ v ∈ run.take n, b v = true) ∧ ∀ v ∈ run.drop n, b v = false := by
  induction run with
  | nil => exact ⟨0, Nat.le_refl 0, by simp, by simp⟩
  | cons v rest ih =>
    obtain ⟨hfirst, hrest⟩ := List.pairwise_cons.mp h
    cases hv : b v with
    | true =>
      obtain ⟨n, hn, htake, hdrop⟩ := ih hrest
      refine ⟨n + 1, by simpa using hn, ?_, by simpa using hdrop⟩
      rw [List.take_succ_cons]
      exact List.forall_mem_cons.mpr ⟨hv, htake⟩
    | false =>
      refine ⟨0, Nat.zero_le _, by simp, ?_⟩
      rw [List.drop_zero]
      refine List.forall_mem_cons.mpr ⟨hv, fun w hw => Bool.eq_false_iff.mpr fun hb => ?_⟩
      rw [hfirst w hw hb] at hv
      cases hv

theorem getElem_of_cut (htake : ∀ v ∈ run.take n, b v = true) (hdrop : ∀ v ∈ run.drop n, b v = false)
    {k : Nat} (hk : k < run.length) : b run[k] = decide (k < n) := by
  by_cases hn : k < n
  · rw [decide_eq_true hn]
    exact htake _ (List.mem_take_iff_getElem.mpr ⟨k, by omega, rfl⟩)
  · rw [decide_eq_false hn]
    refine hdrop _ (List.mem_drop_iff_getElem.mpr ⟨k - n, by omega, ?_⟩)
    simp only [Nat.add_sub_cancel' (Nat.le_of_not_lt hn)]

theorem ask_eq (hask : ∀ v ∈ run, ask v = .ok (b v)) {k : Nat} (hk : k < run.length) :
    (match run[k]? with
      | some v => ask v
      | none => .ok false) = .ok (b run[k]) := by
  rw [List.getElem?_eq_getElem hk]
  exact hask _ (List.getElem_mem hk)

end Run

/-- On items with the property, the comparison is that of their keys. -/
def Decides [LinearOrder κ] (precedes : α → α → Except ε Bool) (p : α → Prop) (key : α → κ) :
    Prop :=
  ∀ v w, p v → p w → precedes v w = .ok (decide (key v < key w))

/-- In order of the keys as they are listed from an end on. -/
def End.le [LinearOrder κ] (key : α → κ) : End → α → α → Prop
  | .front => fun v w => key v ≤ key w
  | .back => fun v w => key w ≤ key v

variable [LinearOrder κ] {key : α → κ} {precedes : α → α → Except ε Bool} {p : α → Prop}
  {run : List α} {x : α}

theorem Decides.compares (hp : Decides precedes p key) : Compares precedes p :=
  fun v w hv hw => ⟨_, hp v w hv hw, trivial⟩

theorem End.le_trans (e : End) {u v w : α} (huv : e.le key u v) (hvw : e.le key v w) :
    e.le key u w := by
  cases e with
  | front => exact LE.le.trans huv hvw
  | back => exact LE.le.trans hvw huv

/-- Whether an item of a run has its place before another one: of equal keys, that of the left run
comes first. -/
def liesBefore (key : α → κ) (inLeft : Bool) (x v : α) : Bool :=
  if inLeft then decide (key v ≤ key x) else decide (key v < key x)

theorem isBefore_eq (hp : Decides precedes p key) (inLeft : Bool) (hx : p x) {v : α} (hv : p v) :
    isBefore precedes inLeft x v = .ok (liesBefore key inLeft x v) := by
  unfold isBefore liesBefore
  cases inLeft with
  | true =>
    rw [if_pos rfl, if_pos rfl, hp x v hx hv, ok_bind, ← decide_not]
    simp only [not_lt]
  | false => exact hp v x hv hx

theorem le_of_liesBefore {inLeft : Bool} {v : α} (h : liesBefore key inLeft x v = true) :
    key v ≤ key x := by
  cases inLeft with
  | true => exact of_decide_eq_true h
  | false => exact le_of_lt (of_decide_eq_true h)

theorem le_of_not_liesBefore {inLeft : Bool} {v : α} (h : liesBefore key inLeft x v = false) :
    key x ≤ key v := by
  cases inLeft with
  | true => exact le_of_not_ge (of_decide_eq_false h)
  | false => exact le_of_not_gt (of_decide_eq_false h)

theorem liesBefore_of_le {inLeft : Bool} {v w : α} (hvw : key v ≤ key w)
    (h : liesBefore key inLeft x w = true) : liesBefore key inLeft x v = true := by
  cases inLeft with
  | true => exact decide_eq_true (hvw.trans (of_decide_eq_true h))
  | false => exact decide_eq_true (hvw.trans_lt (of_decide_eq_true h))

/-- A search from an end passes what is in front of the key, as seen from there, and stops at what
is behind it. -/
theorem reach_yields_le (hp : Decides precedes p key) (e : End) (inLeft : Bool) (hx : p x)
    (hrun : ∀ v ∈ run, p v) (hsorted : run.Pairwise (e.le key)) (hne : run ≠ []) :
    Yields (reach precedes e inLeft x run) fun n =>
      (∀ v ∈ run.take n, e.le key v x) ∧ ∀ v ∈ run.drop n, e.le key x v := by
  have hlength := List.length_pos_iff.mpr hne
  have hask : ∀ v ∈ run, isBefore precedes inLeft x v = .ok (liesBefore key inLeft x v) :=
    fun v hv => isBefore_eq hp inLeft hx (hrun v hv)
  unfold reach
  extract_lets ask
  have hanswer : ∀ k (hk : k < run.length), ask k = .ok (liesBefore key inLeft x run[k]) :=
    fun k hk => ask_eq hask hk
  cases e with
  | front =>
    obtain ⟨n, hn, htake, hdrop⟩ := exists_cut (b := liesBefore key inLeft x)
      (hsorted.imp fun hvw => liesBefore_of_le hvw)
    have hdivides : Divides ask run.length n :=
      ⟨hn, fun k hk => (hanswer k hk).trans (congrArg _ (getElem_of_cut htake hdrop hk))⟩
    exact ⟨n, hdivides.gallop_eq hlength, fun v hv => le_of_liesBefore (htake v hv),
      fun v hv => le_of_not_liesBefore (hdrop v hv)⟩
  | back =>
    -- The run is listed from the back on, so its items are asked about in reverse.
    have hmono : run.Pairwise fun v w => (!liesBefore key inLeft x w) = true →
        (!liesBefore key inLeft x v) = true := hsorted.imp fun hwv => by
      simpa using mt (liesBefore_of_le hwv)
    obtain ⟨n, hn, htake, hdrop⟩ := exists_cut hmono
    have hdivides : Divides (fun k => ask (run.length - 1 - k)) run.length (run.length - n) := by
      refine ⟨Nat.sub_le _ _, fun k hk => ?_⟩
      have hcut := getElem_of_cut htake hdrop (k := run.length - 1 - k) (by omega)
      rw [hanswer _ (by omega), Bool.not_eq_eq_eq_not.mp hcut, ← decide_not]
      congr 1
      simp only [decide_eq_decide]
      omega
    dsimp only
    rw [hdivides.gallop_eq (Nat.sub_one_lt (Nat.ne_of_gt hlength)), ok_bind, Nat.sub_sub_self hn]
    exact .ok ⟨fun v hv => le_of_not_liesBefore (Bool.not_eq_true' _ |>.mp (htake v hv)),
      fun v hv => le_of_liesBefore (Bool.not_eq_false' _ |>.mp (hdrop v hv))⟩

theorem insertInto_yields_le (hp : Decides precedes p key) (hx : p x) (hrun : ∀ v ∈ run, p v)
    (hsorted : run.Pairwise (End.front.le key)) :
    Yields (insertInto precedes run x) fun r => r.Pairwise (End.front.le key) := by
  have hask : ∀ v ∈ run, isBefore precedes true x v = .ok (liesBefore key true x v) :=
    fun v hv => isBefore_eq hp true hx (hrun v hv)
  -- the run is cut where its items begin to lie behind the new one
  obtain ⟨n, hn, htake, hdrop⟩ := exists_cut (b := liesBefore key true x)
    (hsorted.imp fun hvw => liesBefore_of_le hvw)
  unfold insertInto
  extract_lets ask
  have hdivides : Divides ask run.length n :=
    ⟨hn, fun k hk => (ask_eq hask hk).trans (congrArg _ (getElem_of_cut htake hdrop hk))⟩
  rw [hdivides.bisect_eq (Nat.zero_le n) hn (Nat.le_refl _), ok_bind]
  obtain ⟨front, back, rfl, hlength, hinsert⟩ :=
    List.exists_of_modifyTailIdx (List.cons x) hn
  rw [List.take_left' hlength] at htake
  rw [List.drop_left' hlength] at hdrop
  obtain ⟨hfront, hback, hboth⟩ := List.pairwise_append.mp hsorted
  refine .ok ?_
  change (List.modifyTailIdx _ _ _).Pairwise _
  rw [hinsert]
  refine List.pairwise_append.mpr ⟨hfront, List.pairwise_cons.mpr ⟨fun v hv => ?_, hback⟩, ?_⟩
  · exact le_of_not_liesBefore (hdrop v hv)
  · intro v hv
    exact List.forall_mem_cons.mpr ⟨le_of_liesBefore (htake v hv), hboth v hv⟩

end Sorting

end QuantityCalculus
