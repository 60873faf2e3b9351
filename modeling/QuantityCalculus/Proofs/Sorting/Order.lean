import QuantityCalculus.Proofs.Sorting.Search

/-!
# Merging puts in order

If a comparison is that of keys, then neighbours in order are merged into one run in order. What
has its place already is in front of both runs, as seen from the end of the merge, and the short
run ends behind the whole long run. A step takes items of either run that are in front of the
other run, which keeps this, and there are as many steps as there are items to place.
-/
namespace QuantityCalculus

namespace Sorting

variable {ε α κ : Type} [LinearOrder κ] {key : α → κ} {precedes : α → α → Except ε Bool}
  {p : α → Prop}

namespace Merger

variable {e : End} {m next : Merger α} {k : Nat}

/-- What is placed is in front of both runs, each in order, and the short run ends last. -/
structure InOrder (key : α → κ) (e : End) (m : Merger α) : Prop where
  short : (m.placed.reverse ++ m.short).Pairwise (e.le key)
  long : (m.placed.reverse ++ m.long).Pairwise (e.le key)
  last : ∀ x ∈ m.short.getLast?, ∀ y ∈ m.long, e.le key y x

def remaining (m : Merger α) : Nat := m.short.length + m.long.length

theorem le_of_cons {x y : α} {run : List α} (hrun : (y :: run).Pairwise (e.le key))
    (hxy : e.le key x y) : ∀ v ∈ y :: run, e.le key x v :=
  List.forall_mem_cons.mpr ⟨hxy, fun _ hv => e.le_trans hxy (List.rel_of_pairwise_cons hrun hv)⟩

namespace InOrder

theorem pairwise_short (h : m.InOrder key e) : m.short.Pairwise (e.le key) :=
  (List.pairwise_append.mp h.short).2.1

theorem pairwise_long (h : m.InOrder key e) : m.long.Pairwise (e.le key) :=
  (List.pairwise_append.mp h.long).2.1

theorem takeShort (h : m.InOrder key e)
    (hk : ∀ x ∈ m.short.take k, ∀ y ∈ m.long, e.le key x y) : (m.takeShort k).InOrder key e where
  short := by
    have hsame : (m.takeShort k).placed.reverse ++ (m.takeShort k).short =
        m.placed.reverse ++ m.short := by
      simp [Merger.takeShort]
    rw [hsame]
    exact h.short
  long := by
    obtain ⟨hplaced, hlong, hboth⟩ := List.pairwise_append.mp h.long
    have hsame : (m.takeShort k).placed.reverse ++ (m.takeShort k).long =
        m.placed.reverse ++ m.short.take k ++ m.long := by
      simp [Merger.takeShort]
    rw [hsame]
    refine List.pairwise_append.mpr ⟨?_, hlong, fun v hv y hy => ?_⟩
    · exact h.short.sublist (List.Sublist.append_left (List.take_sublist k m.short) _)
    · exact (List.mem_append.mp hv).elim (fun hv => hboth v hv y hy) fun hv => hk v hv y hy
  last := by
    intro x hx y hy
    refine h.last x ?_ y hy
    rw [Merger.takeShort, List.getLast?_drop] at hx
    split at hx
    · cases hx
    · exact hx

theorem takeLong (h : m.InOrder key e)
    (hk : ∀ y ∈ m.long.take k, ∀ x ∈ m.short, e.le key y x) : (m.takeLong k).InOrder key e where
  short := by
    obtain ⟨hplaced, hshort, hboth⟩ := List.pairwise_append.mp h.short
    have hsame : (m.takeLong k).placed.reverse ++ (m.takeLong k).short =
        m.placed.reverse ++ m.long.take k ++ m.short := by
      simp [Merger.takeLong]
    rw [hsame]
    refine List.pairwise_append.mpr ⟨?_, hshort, fun v hv x hx => ?_⟩
    · exact h.long.sublist (List.Sublist.append_left (List.take_sublist k m.long) _)
    · exact (List.mem_append.mp hv).elim (fun hv => hboth v hv x hx) fun hv => hk v hv x hx
  long := by
    have hsame : (m.takeLong k).placed.reverse ++ (m.takeLong k).long =
        m.placed.reverse ++ m.long := by
      simp [Merger.takeLong]
    rw [hsame]
    exact h.long
  last x hx y hy := h.last x hx y (List.mem_of_mem_drop hy)

theorem result (h : m.InOrder key e) (hdone : m.isDone = true) :
    (m.result e).Pairwise (End.front.le key) := by
  have hcross : ∀ y ∈ m.long, ∀ x ∈ m.short, e.le key y x := by
    intro y hy x hx
    rcases Bool.or_eq_true_iff.mp hdone with hempty | hone
    · rw [List.isEmpty_iff.mp hempty] at hy
      cases hy
    · have hone := of_decide_eq_true hone
      have hpos := List.length_pos_of_mem hx
      obtain ⟨x', hx'⟩ := List.length_eq_one_iff.mp (Nat.le_antisymm hone hpos)
      rw [hx', List.mem_singleton] at hx
      exact h.last x (by rw [hx', hx]; rfl) y hy
  have hlisted : (m.placed.reverse ++ m.long ++ m.short).Pairwise (e.le key) := by
    refine List.pairwise_append.mpr ⟨h.long, h.pairwise_short, fun v hv x hx => ?_⟩
    rcases List.mem_append.mp hv with hv | hv
    · exact (List.pairwise_append.mp h.short).2.2 v hv x hx
    · exact hcross v hv x hx
  cases e with
  | front => exact hlisted
  | back => exact List.pairwise_reverse.mpr hlisted

end InOrder

/-- Nothing has happened, or something was placed. -/
def Advances (m next : Merger α) : Prop := next = m ∨ next.remaining < m.remaining

theorem Advances.le (h : m.Advances next) : next.remaining ≤ m.remaining := by
  rcases h with rfl | hlt
  · exact Nat.le_refl _
  · exact Nat.le_of_lt hlt

theorem drop_eq_or_length_lt (run : List α) (k : Nat) :
    (run.take k = [] ∧ run.drop k = run) ∨ (run.drop k).length < run.length := by
  by_cases hk : run.take k = []
  · have hsplit := List.take_append_drop k run
    rw [hk, List.nil_append] at hsplit
    exact .inl ⟨hk, hsplit⟩
  · have hpos := List.length_pos_iff.mpr hk
    rw [List.length_take] at hpos
    rw [List.length_drop]
    omega

theorem advances_takeShort (m : Merger α) (k : Nat) : m.Advances (m.takeShort k) := by
  rcases drop_eq_or_length_lt m.short k with ⟨htake, hdrop⟩ | hlt
  · exact .inl (by simp [takeShort, htake, hdrop])
  · exact .inr (Nat.add_lt_add_right hlt _)

theorem advances_takeLong (m : Merger α) (k : Nat) : m.Advances (m.takeLong k) := by
  rcases drop_eq_or_length_lt m.long k with ⟨htake, hdrop⟩ | hlt
  · exact .inl (by simp [takeLong, htake, hdrop])
  · exact .inr (Nat.add_lt_add_left hlt _)

theorem length_of_not_isDone (h : m.isDone = false) : 0 < m.long.length ∧ 1 < m.short.length := by
  obtain ⟨hlong, hshort⟩ := Bool.or_eq_false_iff.mp h
  exact ⟨List.length_pos_iff.mpr (List.isEmpty_eq_false_iff.mp hlong),
    Nat.lt_of_not_le (of_decide_eq_false hshort)⟩

/-- A step places an item more unless nothing is left to compare, and if there was something
before, then something was placed. -/
theorem Advances.step {stepped : Merger α} (h : m.Advances next) (hm : m.isDone = false)
    (hdone : next.isDone = true → stepped = next)
    (hmore : next.isDone = false → stepped.remaining < next.remaining) :
    stepped.remaining < m.remaining := by
  cases hnext : next.isDone with
  | true =>
    rw [hdone hnext]
    refine h.resolve_left fun hsame => ?_
    rw [hsame, hm] at hnext
    cases hnext
  | false => exact Nat.lt_of_lt_of_le (hmore hnext) h.le

theorem Advances.stepShort (h : m.Advances next) (hm : m.isDone = false) :
    next.stepShort.remaining < m.remaining := by
  refine h.step hm (fun hdone => if_pos hdone) fun hmore => ?_
  obtain ⟨-, hshort⟩ := length_of_not_isDone hmore
  rw [Merger.stepShort, if_neg (Bool.eq_false_iff.mp hmore)]
  simp only [remaining, takeShort, List.length_drop]
  omega

theorem Advances.stepLong (h : m.Advances next) (hm : m.isDone = false) :
    next.stepLong.remaining < m.remaining := by
  refine h.step hm (fun hdone => if_pos hdone) fun hmore => ?_
  obtain ⟨hlong, -⟩ := length_of_not_isDone hmore
  rw [Merger.stepLong, if_neg (Bool.eq_false_iff.mp hmore)]
  simp only [remaining, takeLong, List.length_drop]
  omega

theorem advances_stepShort (m : Merger α) : m.Advances m.stepShort := by
  unfold stepShort
  split
  · exact .inl rfl
  · exact m.advances_takeShort 1

theorem advances_stepLong (m : Merger α) : m.Advances m.stepLong := by
  unfold stepLong
  split
  · exact .inl rfl
  · exact m.advances_takeLong 1

/-- The next item of the short run is in front of the long run, if there is more to compare. -/
def ShortIsNext (key : α → κ) (e : End) (m : Merger α) : Prop :=
  m.isDone = false → ∀ x ∈ m.short.take 1, ∀ y ∈ m.long, e.le key x y

def LongIsNext (key : α → κ) (e : End) (m : Merger α) : Prop :=
  m.isDone = false → ∀ y ∈ m.long.take 1, ∀ x ∈ m.short, e.le key y x

theorem InOrder.stepShort (h : m.InOrder key e) (hnext : m.ShortIsNext key e) :
    m.stepShort.InOrder key e := by
  unfold Merger.stepShort
  split
  · exact h
  · rename_i hmore
    exact h.takeShort (hnext (Bool.eq_false_iff.mpr hmore))

theorem InOrder.stepLong (h : m.InOrder key e) (hnext : m.LongIsNext key e) :
    m.stepLong.InOrder key e := by
  unfold Merger.stepLong
  split
  · exact h
  · rename_i hmore
    exact h.takeLong (hnext (Bool.eq_false_iff.mpr hmore))

section Compared

variable {x y : α} {short long : List α} (hshort : m.short = x :: short)
  (hlong : m.long = y :: long)

include hshort hlong

theorem InOrder.place (h : m.InOrder key e) {won : Bool}
    (hwon : if won then e.le key y x else e.le key x y) :
    (if won then m.takeLong 1 else m.takeShort 1).InOrder key e := by
  have hx := h.pairwise_short
  have hy := h.pairwise_long
  rw [hshort] at hx
  rw [hlong] at hy
  cases won with
  | true =>
    refine h.takeLong ?_
    rw [hshort, hlong]
    exact List.forall_mem_singleton.mpr (le_of_cons hx hwon)
  | false =>
    refine h.takeShort ?_
    rw [hshort, hlong]
    exact List.forall_mem_singleton.mpr (le_of_cons hy hwon)

theorem remaining_place (won : Bool) :
    (if won then m.takeLong 1 else m.takeShort 1).remaining < m.remaining := by
  cases won with
  | true => simp [remaining, takeLong, hlong]
  | false => simp [remaining, takeShort, hshort]

end Compared

end Merger

theorem gallopShort_yields_inOrder (hp : Decides precedes p key) (e : End) {m : Merger α}
    (hm : ∀ v ∈ m.items, p v) (h : m.InOrder key e) :
    Yields (gallopShort precedes e m) fun r =>
      (r.1.InOrder key e ∧ r.1.LongIsNext key e) ∧ m.Advances r.1 := by
  unfold gallopShort
  refine .ite (fun hdone => .ok ⟨⟨h, fun hmore => ?_⟩, .inl rfl⟩) fun hmore => ?_
  · rw [hdone] at hmore
    cases hmore
  · obtain ⟨hlong, hshort⟩ := Merger.length_of_not_isDone (Bool.eq_false_iff.mpr hmore)
    split
    · rename_i hnil
      rw [hnil] at hlong
      exact absurd hlong (Nat.lt_irrefl 0)
    · rename_i y rest hcons
      have hy : p y := hm y (by simp [Merger.items, hcons])
      have hps : ∀ v ∈ m.short, p v := fun v hv => hm v (by simp [Merger.items, hv])
      have hsorted := h.pairwise_long
      rw [hcons] at hsorted
      refine (reach_yields_le hp e _ hy hps h.pairwise_short
        (List.length_pos_iff.mp (Nat.zero_lt_of_lt hshort))).bind fun k hk => .ok ?_
      refine ⟨⟨h.takeShort fun x hx => ?_, fun _ => ?_⟩, m.advances_takeShort k⟩
      · rw [hcons]
        exact Merger.le_of_cons hsorted (hk.1 x hx)
      · intro y' hy'
        rw [Merger.takeShort, hcons, List.take_succ_cons, List.take_zero,
          List.mem_singleton] at hy'
        rw [hy']
        exact hk.2

theorem gallopLong_yields_inOrder (hp : Decides precedes p key) (e : End) {m : Merger α}
    (hm : ∀ v ∈ m.items, p v) (h : m.InOrder key e) :
    Yields (gallopLong precedes e m) fun r =>
      (r.1.InOrder key e ∧ r.1.ShortIsNext key e) ∧ m.Advances r.1 := by
  unfold gallopLong
  refine .ite (fun hdone => .ok ⟨⟨h, fun hmore => ?_⟩, .inl rfl⟩) fun hmore => ?_
  · rw [hdone] at hmore
    cases hmore
  · obtain ⟨hlong, hshort⟩ := Merger.length_of_not_isDone (Bool.eq_false_iff.mpr hmore)
    split
    · rename_i hnil
      rw [hnil] at hshort
      exact absurd hshort (Nat.not_lt_zero 1)
    · rename_i x rest hcons
      have hx : p x := hm x (by simp [Merger.items, hcons])
      have hpl : ∀ v ∈ m.long, p v := fun v hv => hm v (by simp [Merger.items, hv])
      have hsorted := h.pairwise_short
      rw [hcons] at hsorted
      refine (reach_yields_le hp e _ hx hpl h.pairwise_long
        (List.length_pos_iff.mp hlong)).bind fun k hk => .ok ?_
      refine ⟨⟨h.takeLong fun y hy => ?_, fun _ => ?_⟩, m.advances_takeLong k⟩
      · rw [hcons]
        exact Merger.le_of_cons hsorted (hk.1 y hy)
      · intro x' hx'
        rw [Merger.takeLong, hcons, List.take_succ_cons, List.take_zero,
          List.mem_singleton] at hx'
        rw [hx']
        exact hk.2

theorem searchBoth_yields_inOrder (hp : Decides precedes p key) (e : End) {m : Merger α}
    (hm : ∀ v ∈ m.items, p v) (h : m.InOrder key e) (hmore : m.isDone = false) :
    Yields (searchBoth precedes e m) fun r =>
      r.1.InOrder key e ∧ r.1.remaining < m.remaining := by
  unfold searchBoth
  cases e with
  | front =>
    refine ((gallopShort_yields hp.compares .front hm).and
      (gallopShort_yields_inOrder hp .front hm h)).bind fun r hr => ?_
    obtain ⟨hperm, ⟨horder, hnext⟩, hadvances⟩ := hr
    have hstep := horder.stepLong hnext
    have hitems := all_of_perm (r.1.stepLong_perm.trans hperm) hm
    refine (gallopLong_yields_inOrder hp .front hitems hstep).bind fun r' hr' => .ok ?_
    obtain ⟨⟨horder', hnext'⟩, hadvances'⟩ := hr'
    refine ⟨horder'.stepShort hnext', ?_⟩
    exact Nat.lt_of_le_of_lt (Nat.le_trans r'.1.advances_stepShort.le hadvances'.le)
      (hadvances.stepLong hmore)
  | back =>
    refine ((gallopLong_yields hp.compares .back hm).and
      (gallopLong_yields_inOrder hp .back hm h)).bind fun r hr => ?_
    obtain ⟨hperm, ⟨horder, hnext⟩, hadvances⟩ := hr
    have hstep := horder.stepShort hnext
    have hitems := all_of_perm (r.1.stepShort_perm.trans hperm) hm
    refine (gallopShort_yields_inOrder hp .back hitems hstep).bind fun r' hr' => .ok ?_
    obtain ⟨⟨horder', hnext'⟩, hadvances'⟩ := hr'
    refine ⟨horder'.stepLong hnext', ?_⟩
    exact Nat.lt_of_le_of_lt (Nat.le_trans r'.1.advances_stepLong.le hadvances'.le)
      (hadvances.stepShort hmore)

theorem longIsNext_yields_le (hp : Decides precedes p key) (e : End) {x y : α} (hx : p x)
    (hy : p y) :
    Yields (longIsNext precedes e x y) fun won =>
      if won then e.le key y x else e.le key x y := by
  cases e with
  | front =>
    refine ⟨_, hp y x hy hx, ?_⟩
    by_cases hlt : key y < key x
    · rw [decide_eq_true hlt]
      exact le_of_lt hlt
    · rw [decide_eq_false hlt]
      exact le_of_not_gt hlt
  | back =>
    refine ⟨_, hp x y hx hy, ?_⟩
    by_cases hlt : key x < key y
    · rw [decide_eq_true hlt]
      exact le_of_lt hlt
    · rw [decide_eq_false hlt]
      exact le_of_not_gt hlt

theorem merge_yields_le (hp : Decides precedes p key) (e : End) (fuel : Nat) (pace : Pace)
    (threshold : Nat) {m : Merger α} (hm : ∀ v ∈ m.items, p v) (h : m.InOrder key e)
    (hfuel : m.remaining ≤ fuel) :
    Yields (merge precedes e fuel pace threshold m) fun r =>
      r.1.Pairwise (End.front.le key) := by
  induction fuel generalizing pace threshold m with
  | zero =>
    have hdone : m.isDone = true := eq_true_of_ne_false fun hmore => by
      have := (Merger.length_of_not_isDone hmore).1
      unfold Merger.remaining at hfuel
      omega
    exact .ok (h.result hdone)
  | succ fuel ih =>
    -- Wherever the next round goes on, it has fewer items to place.
    have hnext : ∀ (pace : Pace) (threshold : Nat) {next : Merger α},
        next.items.Perm m.items → next.InOrder key e → next.remaining < m.remaining →
          Yields (merge precedes e fuel pace threshold next) fun r =>
            r.1.Pairwise (End.front.le key) :=
      fun pace threshold next hperm horder hlt =>
        ih pace threshold (all_of_perm hperm hm) horder (by omega)
    unfold merge
    refine .ite (fun hdone => .ok (h.result hdone)) fun hmore => ?_
    have hmore := Bool.eq_false_iff.mpr hmore
    split
    · rename_i shortWins longWins x short y long hshort hlong
      have hx : p x := hm x (by simp [Merger.items, hshort])
      have hy : p y := hm y (by simp [Merger.items, hlong])
      refine (longIsNext_yields_le hp e hx hy).bind fun won hwon => ?_
      have horder := h.place hshort hlong hwon
      have hlt := Merger.remaining_place hshort hlong won
      have hperm : (if won then m.takeLong 1 else m.takeShort 1).items.Perm m.items := by
        split
        · exact m.takeLong_perm 1
        · exact m.takeShort_perm 1
      exact .ite (fun _ => hnext _ _ hperm horder hlt) fun _ => hnext _ _ hperm horder hlt
    · refine ((searchBoth_yields hp.compares e hm).and
        (searchBoth_yields_inOrder hp e hm h hmore)).bind fun r hr => ?_
      obtain ⟨hperm, horder, hlt⟩ := hr
      exact .ite (fun _ => hnext _ _ hperm horder hlt) fun _ => hnext _ _ hperm horder hlt

/-- Two runs in order, of which the second starts in front of the first and ends in front of its
end. -/
structure Overlap (key : α → κ) (a b : List α) : Prop where
  left : a.Pairwise (End.front.le key)
  right : b.Pairwise (End.front.le key)
  first : ∀ y ∈ b.head?, ∀ x ∈ a, key y ≤ key x
  last : ∀ x ∈ a.getLast?, ∀ y ∈ b, key y ≤ key x

theorem Merger.inOrder_start {e : End} {short long : List α} (hshort : short.Pairwise (e.le key))
    (hlong : long.Pairwise (e.le key)) (hfirst : ∀ y ∈ long.head?, ∀ x ∈ short, e.le key y x)
    (hlast : ∀ x ∈ short.getLast?, ∀ y ∈ long, e.le key y x) :
    (Merger.mk (long.take 1) short (long.drop 1)).InOrder key e where
  short := by
    cases long with
    | nil => exact hshort
    | cons y rest => exact List.pairwise_cons.mpr ⟨hfirst y rfl, hshort⟩
  long := by
    cases long with
    | nil => exact .nil
    | cons y rest => exact hlong
  last x hx y hy := hlast x hx y (List.mem_of_mem_drop hy)

section Overlapping

variable {a b : List α}

theorem mergeFromFront_yields_le (hp : Decides precedes p key) (threshold : Nat)
    (h : ∀ v ∈ a ++ b, p v) (hab : Overlap key a b) :
    Yields (merge precedes .front (a.length + b.length) (.stepping 0 0) threshold
        ⟨b.take 1, a, b.drop 1⟩) fun r => r.1.Pairwise (End.front.le key) := by
  refine merge_yields_le hp .front _ _ threshold (all_of_perm (Merger.start_perm a b) h)
    (Merger.inOrder_start hab.left hab.right hab.first hab.last) ?_
  simp only [Merger.remaining, List.length_drop]
  omega

theorem mergeFromBack_yields_le (hp : Decides precedes p key) (threshold : Nat)
    (h : ∀ v ∈ a ++ b, p v) (hab : Overlap key a b) :
    Yields (merge precedes .back (a.length + b.length) (.stepping 0 0) threshold
        ⟨a.reverse.take 1, b.reverse, a.reverse.drop 1⟩) fun r =>
      r.1.Pairwise (End.front.le key) := by
  have hstart := Merger.start_perm b.reverse a.reverse
  rw [← List.reverse_append] at hstart
  refine merge_yields_le hp .back _ _ threshold
    (all_of_perm (hstart.trans (List.reverse_perm (a ++ b))) h)
    (Merger.inOrder_start (List.pairwise_reverse.mpr hab.right)
      (List.pairwise_reverse.mpr hab.left) (fun y hy x hx => ?_) fun x hx y hy => ?_) ?_
  · rw [List.head?_reverse] at hy
    exact hab.last y hy x (List.mem_reverse.mp hx)
  · rw [List.getLast?_reverse] at hx
    exact hab.first x hx y (List.mem_reverse.mp hy)
  · simp only [Merger.remaining, List.length_drop, List.length_reverse]
    omega

end Overlapping

section Neighbours

variable {left right : List α} {first last : α} {i j : Nat}

theorem first_le (hright : right.Pairwise (End.front.le key)) (hfirst : right.head? = some first) :
    ∀ v ∈ right, key first ≤ key v := by
  obtain ⟨rest, rfl⟩ := List.head?_eq_some_iff.mp hfirst
  exact Merger.le_of_cons hright (le_refl _)

theorem le_last (hleft : left.Pairwise (End.front.le key)) (hlast : left.getLast? = some last) :
    ∀ v ∈ left, key v ≤ key last := by
  have hdown : left.reverse.Pairwise (End.back.le key) := List.pairwise_reverse.mpr hleft
  rw [List.getLast?_eq_head?_reverse] at hlast
  obtain ⟨rest, hrest⟩ := List.head?_eq_some_iff.mp hlast
  intro v hv
  rw [← List.mem_reverse, hrest] at hv
  rw [hrest] at hdown
  exact Merger.le_of_cons hdown (le_refl _) v hv

/-- Places at which neighbours in order are cut: what lies in front of the first one belongs there,
and so does what lies behind the second one. -/
structure Trims (key : α → κ) (left right : List α) (i j : Nat) : Prop where
  front : ∀ y ∈ right.head?, ∀ v ∈ left.take i, key v ≤ key y
  fromFirst : ∀ y ∈ right.head?, ∀ v ∈ left.drop i, key y ≤ key v
  toLast : ∀ x ∈ left.getLast?, ∀ v ∈ right.take j, key v ≤ key x
  back : ∀ x ∈ left.getLast?, ∀ v ∈ right.drop j, key x ≤ key v

theorem Trims.overlap (h : Trims key left right i j) (hleft : left.Pairwise (End.front.le key))
    (hright : right.Pairwise (End.front.le key)) : Overlap key (left.drop i) (right.take j) where
  left := hleft.drop
  right := hright.take
  first y hy := by
    rw [List.head?_take] at hy
    split at hy
    · cases hy
    · exact h.fromFirst y hy
  last x hx := by
    rw [List.getLast?_drop] at hx
    split at hx
    · cases hx
    · exact h.toLast x hx

theorem Trims.pairwise (h : Trims key left right i j) (hleft : left.Pairwise (End.front.le key))
    (hright : right.Pairwise (End.front.le key)) (hfirst : right.head? = some first)
    (hlast : left.getLast? = some last) {merged : List α}
    (hmerged : merged.Pairwise (End.front.le key))
    (hperm : merged.Perm (left.drop i ++ right.take j)) :
    (left.take i ++ merged ++ right.drop j).Pairwise (End.front.le key) := by
  have hbetween : ∀ v ∈ merged, key first ≤ key v ∧ key v ≤ key last := by
    intro v hv
    rcases List.mem_append.mp (hperm.mem_iff.mp hv) with hv | hv
    · exact ⟨h.fromFirst first hfirst v hv, le_last hleft hlast v (List.mem_of_mem_drop hv)⟩
    · exact ⟨first_le hright hfirst v (List.mem_of_mem_take hv), h.toLast last hlast v hv⟩
  have hfront := h.front first hfirst
  refine List.pairwise_append.mpr ⟨List.pairwise_append.mpr ⟨hleft.take, hmerged, ?_⟩,
    hright.drop, ?_⟩
  · exact fun v hv w hw => (hfront v hv).trans (hbetween w hw).1
  · intro v hv w hw
    rcases List.mem_append.mp hv with hv | hv
    · exact (hfront v hv).trans (first_le hright hfirst w (List.mem_of_mem_drop hw))
    · exact (hbetween v hv).2.trans (h.back last hlast w hw)

theorem mergeNeighbours_yields_le (hp : Decides precedes p key) (threshold : Nat)
    (h : ∀ v ∈ left ++ right, p v) (hleft : left.Pairwise (End.front.le key))
    (hright : right.Pairwise (End.front.le key)) :
    Yields (mergeNeighbours precedes left right threshold) fun r =>
      r.1.Pairwise (End.front.le key) := by
  have hpl : ∀ v ∈ left, p v := fun v hv => h v (List.mem_append_left right hv)
  have hpr : ∀ v ∈ right, p v := fun v hv => h v (List.mem_append_right left hv)
  unfold mergeNeighbours
  split
  · rename_i first rest last others hreverse
    have hfirst : (first :: rest).head? = some first := rfl
    have hlast : left.getLast? = some last := by
      rw [List.getLast?_eq_head?_reverse, hreverse]
      rfl
    generalize first :: rest = right at *
    have hfirstMem := List.mem_of_head? hfirst
    have hlastMem := List.mem_of_getLast? hlast
    refine (reach_yields_le hp .front true (hpr first hfirstMem) hpl hleft
      (List.ne_nil_of_mem hlastMem)).bind fun before hbefore => ?_
    refine .ite (fun hempty => .ok ?_) fun _ => ?_
    · -- the left run ends before the right one begins
      have hall := List.take_append_drop before left
      rw [List.isEmpty_iff.mp hempty, List.append_nil] at hall
      rw [hall] at hbefore
      exact List.pairwise_append.mpr ⟨hleft, hright, fun v hv w hw =>
        LE.le.trans (hbefore.1 v hv) (first_le hright hfirst w hw)⟩
    · refine (reach_yields_le hp .back false (hpl last hlastMem)
        (fun v hv => hpr v (List.mem_reverse.mp hv)) (List.pairwise_reverse.mpr hright)
        (List.ne_nil_of_mem (List.mem_reverse.mpr hfirstMem))).bind fun behind hbehind => ?_
      rw [List.take_reverse, List.drop_reverse] at hbehind
      simp only [List.mem_reverse] at hbehind
      refine .ite (fun hempty => .ok ?_) fun _ => ?_
      · -- the right run begins behind the end of the left one
        have hall := List.take_append_drop (right.length - behind) right
        rw [List.isEmpty_iff.mp hempty, List.nil_append] at hall
        rw [hall] at hbehind
        exact List.pairwise_append.mpr ⟨hleft, hright, fun v hv w hw =>
          LE.le.trans (le_last hleft hlast v hv) (hbehind.1 w hw)⟩
      · have htrims : Trims key left right before (right.length - behind) := by
          constructor <;> simp only [hfirst, hlast, Option.mem_some_iff, forall_eq']
          exacts [hbefore.1, hbefore.2, hbehind.2, hbehind.1]
        have hoverlap := htrims.overlap hleft hright
        have hpm : ∀ v ∈ left.drop before ++ right.take (right.length - behind), p v := by
          intro v hv
          rcases List.mem_append.mp hv with hv | hv
          · exact hpl v (List.mem_of_mem_drop hv)
          · exact hpr v (List.mem_of_mem_take hv)
        refine .ite (fun _ => ?_) fun _ => ?_
        · exact ((mergeFromFront_yields hp.compares _ threshold hpm).and
            (mergeFromFront_yields_le hp threshold hpm hoverlap)).bind fun r hr =>
              .ok (htrims.pairwise hleft hright hfirst hlast hr.2 hr.1)
        · exact ((mergeFromBack_yields hp.compares _ threshold hpm).and
            (mergeFromBack_yields_le hp threshold hpm hoverlap)).bind fun r hr =>
              .ok (htrims.pairwise hleft hright hfirst hlast hr.2 hr.1)
  · rename_i right _ _ hnone
    refine .ok ?_
    cases right with
    | nil => rwa [List.append_nil]
    | cons first rest =>
      cases hreverse : left.reverse with
      | nil => rwa [List.reverse_eq_nil_iff.mp hreverse, List.nil_append]
      | cons last others => exact (hnone _ _ _ _ rfl hreverse).elim

end Neighbours

end Sorting

end QuantityCalculus
