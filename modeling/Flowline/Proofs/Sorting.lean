import Flowline.Proofs.Value.Faults
import Flowline.Value.Sorting

/-! # Sorting

Sorting keeps all items, whatever the comparison, and fails only where a comparison of two items does
(`meets_sort`). Where the comparison is that of ranks in a linear order, items come out in this order and those of
one rank stay as they were, also when the order is turned round (`meets_sortDescending`). -/

namespace Flowline.Sorting

variable {α β γ δ : Type} [LinearOrder β]

/-! ## Computations that may fail -/

/-- A computation fails with one of the faults only, and what it returns has the property. -/
def Meets (faults : Fault → Prop) (P : γ → Prop) (r : Except Fault γ) : Prop :=
  FailsOnly faults r ∧ ∀ a, r = .ok a → P a

namespace Meets

variable {faults : Fault → Prop} {P : γ → Prop} {Q : δ → Prop} {r : Except Fault γ} {f : γ → Except Fault δ}

theorem ok {a : γ} (h : P a) : Meets faults P (.ok a) := by
  refine ⟨.ok a, fun b hb => ?_⟩
  cases hb
  exact h

theorem bind (h : Meets faults P r) (hf : ∀ a, P a → Meets faults Q (f a)) : Meets faults Q (r >>= f) := by
  refine ⟨h.1.bind fun a ha => (hf a (h.2 a ha)).1, fun b hb => ?_⟩
  obtain ⟨a, ha, hb⟩ := bind_eq_ok.1 hb
  exact (hf a (h.2 a ha)).2 b hb

end Meets

section Items

variable (less : α → α → Except Fault Bool) (rank : α → β) (items : List α)

/-- The faults of comparing two of the items. -/
def OfComparisons (fault : Fault) : Prop := ∃ x ∈ items, ∃ y ∈ items, less x y = .error fault

/-- Of two of the items the one of lower rank is less. -/
def Agrees : Prop := ∀ x ∈ items, ∀ y ∈ items, less x y = .ok (decide (rank x < rank y))

variable {less items} {x y last : α} {xs rest sorted : List α}

theorem meets_less (hx : x ∈ items) (hy : y ∈ items) : Meets (OfComparisons less items)
    (fun b => Agrees less rank items → b = decide (rank x < rank y)) (less x y) := by
  constructor
  · exact fun fault hfault => ⟨x, hx, y, hy, hfault⟩
  · intro b hb hagrees
    rw [hagrees x hx y hy] at hb
    exact (Except.ok.inj hb).symm

/-! ## Runs -/

theorem meets_ascending (hlast : last ∈ items) (hxs : xs ⊆ items) : Meets (OfComparisons less items)
    (fun p => p.1 ++ p.2 = xs ∧ (Agrees less rank items → (last :: p.1).Pairwise fun a b => rank a ≤ rank b))
    (ascending less last xs) := by
  induction xs generalizing last with
  | nil => exact .ok ⟨rfl, fun _ => List.pairwise_singleton _ _⟩
  | cons x rest ih =>
    obtain ⟨hx, hrest⟩ := List.cons_subset.1 hxs
    refine (meets_less rank hx hlast).bind fun b hb => ?_
    cases b with
    | true => exact .ok ⟨rfl, fun _ => List.pairwise_singleton _ _⟩
    | false =>
      refine (ih hx hrest).bind fun p hp => .ok ⟨congrArg (x :: ·) hp.1, fun hagrees => ?_⟩
      have hle : rank last ≤ rank x := not_lt.1 (of_decide_eq_false (hb hagrees).symm)
      exact List.pairwise_cons_cons_iff_of_trans.2 ⟨hle, hp.2 hagrees⟩

theorem meets_descending (hlast : last ∈ items) (hxs : xs ⊆ items) : Meets (OfComparisons less items)
    (fun p => p.1 ++ p.2 = xs ∧ (Agrees less rank items → (last :: p.1).Pairwise fun a b => rank b < rank a))
    (descending less last xs) := by
  induction xs generalizing last with
  | nil => exact .ok ⟨rfl, fun _ => List.pairwise_singleton _ _⟩
  | cons x rest ih =>
    obtain ⟨hx, hrest⟩ := List.cons_subset.1 hxs
    refine (meets_less rank hx hlast).bind fun b hb => ?_
    cases b with
    | false => exact .ok ⟨rfl, fun _ => List.pairwise_singleton _ _⟩
    | true =>
      refine (ih hx hrest).bind fun p hp => .ok ⟨congrArg (x :: ·) hp.1, fun hagrees => ?_⟩
      have hlt : rank x < rank last := of_decide_eq_true (hb hagrees).symm
      exact List.pairwise_cons_cons_iff_of_trans.2 ⟨hlt, hp.2 hagrees⟩

/-! ## Places -/

theorem rank_getElem_le (hsorted : sorted.Pairwise fun a b => rank a ≤ rank b) {i j : Nat} (hle : i ≤ j)
    (hj : j < sorted.length) : rank sorted[i] ≤ rank sorted[j] := by
  rcases Nat.lt_or_eq_of_le hle with hlt | rfl
  · exact List.pairwise_iff_getElem.1 hsorted i j (by omega) hj hlt
  · exact le_rfl

/-- The items before a place are not greater, and those from it on are. -/
def Parts (x : α) (sorted : List α) (i : Nat) : Prop :=
  (∀ y ∈ sorted.take i, rank y ≤ rank x) ∧ ∀ y ∈ sorted.drop i, rank x < rank y

/-- What the bounds leave out lies before and behind the place. -/
theorem meets_place {fuel low high : Nat} (hx : x ∈ items) (hsorted : sorted ⊆ items) (hle : low ≤ high)
    (hhigh : high ≤ sorted.length) (hfuel : high ≤ low + fuel) : Meets (OfComparisons less items)
    (fun i => Agrees less rank items → (sorted.Pairwise fun a b => rank a ≤ rank b) →
      (∀ y ∈ sorted.take low, rank y ≤ rank x) → (∀ y ∈ sorted.drop high, rank x < rank y) →
      Parts rank x sorted i)
    (place less x sorted fuel low high) := by
  -- each round leaves out the middle at least, so the distance of the bounds is fuel enough
  induction fuel generalizing low high with
  | zero =>
    obtain rfl : low = high := by omega
    exact .ok fun _ _ hbelow habove => ⟨hbelow, habove⟩
  | succ fuel ih =>
    rw [place]
    by_cases hlt : low < high
    · rw [if_pos hlt]
      obtain ⟨middle, hmiddle⟩ : ∃ middle, low + (high - low) / 2 = middle := ⟨_, rfl⟩
      dsimp only
      rw [hmiddle, List.getElem?_eq_getElem (by omega)]
      refine (meets_less rank hx (hsorted (List.getElem_mem _))).bind fun b hb => ?_
      cases b with
      | true =>
        obtain ⟨hfails, hplace⟩ := @ih low middle (by omega) (by omega) (by omega)
        refine ⟨hfails, fun i hi hagrees hpairwise hbelow _ => hplace i hi hagrees hpairwise hbelow fun y hy => ?_⟩
        obtain ⟨j, hj, rfl⟩ := List.mem_drop_iff_getElem.1 hy
        have hless : rank x < rank sorted[middle] := of_decide_eq_true (hb hagrees).symm
        have hmono : rank sorted[middle] ≤ rank sorted[middle + j] :=
          rank_getElem_le rank hpairwise (Nat.le_add_right middle j) (by omega)
        exact hless.trans_le hmono
      | false =>
        obtain ⟨hfails, hplace⟩ := @ih (middle + 1) high (by omega) (by omega) (by omega)
        refine ⟨hfails, fun i hi hagrees hpairwise _ habove => hplace i hi hagrees hpairwise (fun y hy => ?_) habove⟩
        obtain ⟨j, hj, rfl⟩ := List.mem_take_iff_getElem.1 hy
        have hgreater : rank sorted[middle] ≤ rank x := not_lt.1 (of_decide_eq_false (hb hagrees).symm)
        exact (rank_getElem_le rank hpairwise (by omega) (by omega)).trans hgreater
    · obtain rfl : low = high := by omega
      rw [if_neg hlt]
      exact .ok fun _ _ hbelow habove => ⟨hbelow, habove⟩

/-! ## Items in order -/

/-- Items in an order of their ranks, those of one rank in the order that they were in. -/
structure Ordered (R : β → β → Prop) (xs ys : List α) : Prop where
  pairwise : ys.Pairwise fun a b => R (rank a) (rank b)
  filter_eq : ∀ r, ys.filter (rank · = r) = xs.filter (rank · = r)

theorem perm_insert (x : α) (sorted rest : List α) (i : Nat) :
    ((sorted.take i ++ x :: sorted.drop i) ++ rest).Perm (sorted ++ x :: rest) := by
  have hinsert : (sorted.take i ++ x :: sorted.drop i).Perm (x :: sorted) := by
    have hmiddle := @List.perm_middle _ x (sorted.take i) (sorted.drop i)
    rwa [List.take_append_drop] at hmiddle
  exact (hinsert.append_right rest).trans List.perm_middle.symm

variable {rank}

/-- An item put where it belongs keeps the order and stands after the items of its rank. -/
theorem ordered_insert {i : Nat} (hparts : Parts rank x sorted i)
    (hsorted : sorted.Pairwise fun a b => rank a ≤ rank b) :
    Ordered rank (· ≤ ·) (sorted ++ [x]) (sorted.take i ++ x :: sorted.drop i) := by
  obtain ⟨hbelow, habove⟩ := hparts
  have hsplit : (sorted.take i ++ sorted.drop i).Pairwise fun a b => rank a ≤ rank b := by
    rwa [List.take_append_drop]
  obtain ⟨htake, hdrop, hacross⟩ := List.pairwise_append.1 hsplit
  constructor
  · refine List.pairwise_append.2 ⟨htake, List.pairwise_cons.2 ⟨fun y hy => (habove y hy).le, hdrop⟩, ?_⟩
    intro a ha b hb
    rcases List.mem_cons.1 hb with rfl | hb
    · exact hbelow a ha
    · exact hacross a ha b hb
  · intro r
    have hfilter : sorted.filter (rank · = r) =
        (sorted.take i).filter (rank · = r) ++ (sorted.drop i).filter (rank · = r) := by
      rw [← List.filter_append, List.take_append_drop]
    by_cases hx : rank x = r
    · have hempty : (sorted.drop i).filter (rank · = r) = [] := by
        refine List.filter_eq_nil_iff.2 fun y hy => ?_
        have hlt := habove y hy
        simpa [← hx] using hlt.ne'
      simp [hx, hfilter, hempty]
    · simp [hx, hfilter]

theorem Ordered.append {R : β → β → Prop} {ys : List α} (h : Ordered rank R xs ys) (rest : List α) (r : β) :
    (ys ++ rest).filter (rank · = r) = (xs ++ rest).filter (rank · = r) := by
  rw [List.filter_append, List.filter_append, h.filter_eq]

variable (rank)

theorem meets_insertAll (hsorted : sorted ⊆ items) (hxs : xs ⊆ items) : Meets (OfComparisons less items)
    (fun ys => ys.Perm (sorted ++ xs) ∧ (Agrees less rank items → (sorted.Pairwise fun a b => rank a ≤ rank b) →
      Ordered rank (· ≤ ·) (sorted ++ xs) ys))
    (insertAll less sorted xs) := by
  induction xs generalizing sorted with
  | nil =>
    refine .ok ⟨by rw [List.append_nil], fun _ hpairwise => ⟨hpairwise, fun r => by rw [List.append_nil]⟩⟩
  | cons x rest ih =>
    obtain ⟨hx, hrest⟩ := List.cons_subset.1 hxs
    refine (meets_place rank hx hsorted (Nat.zero_le _) le_rfl (Nat.le_add_left ..)).bind fun i hi => ?_
    have hinserted : sorted.take i ++ x :: sorted.drop i ⊆ items := by
      refine List.append_subset.2 ⟨fun y hy => hsorted (List.mem_of_mem_take hy), List.cons_subset.2 ⟨hx, ?_⟩⟩
      exact fun y hy => hsorted (List.mem_of_mem_drop hy)
    obtain ⟨hfails, hresult⟩ := ih hinserted hrest
    refine ⟨hfails, fun ys hys => ?_⟩
    obtain ⟨hperm, hordered⟩ := hresult ys hys
    refine ⟨hperm.trans (perm_insert x sorted rest i), fun hagrees hpairwise => ?_⟩
    have hparts := hi hagrees hpairwise (by simp) (by simp)
    have hinsert := ordered_insert hparts hpairwise
    obtain ⟨hys, hfilter⟩ := hordered hagrees hinsert.pairwise
    refine ⟨hys, fun r => ?_⟩
    rw [hfilter r, hinsert.append rest r, List.append_assoc]
    rfl

variable {rank}

/-- No two items of a strictly descending run are of one rank. -/
theorem ordered_reverse (h : xs.Pairwise fun a b => rank b < rank a) : Ordered rank (· ≤ ·) xs xs.reverse := by
  constructor
  · exact List.pairwise_reverse.2 (h.imp fun hlt => hlt.le)
  · intro r
    rw [List.filter_reverse]
    have hfilter : (xs.filter (rank · = r)).Pairwise fun _ _ => False := by
      refine (h.filter _).imp_of_mem fun ha hb hlt => ?_
      have hra : rank _ = r := of_decide_eq_true (List.mem_filter.1 ha).2
      have hrb : rank _ = r := of_decide_eq_true (List.mem_filter.1 hb).2
      rw [hra, hrb] at hlt
      exact lt_irrefl r hlt
    match hxs : xs.filter (rank · = r), hfilter with
    | [], _ => rfl
    | [a], _ => rfl
    | a :: b :: _, hfalse => exact (List.rel_of_pairwise_cons hfalse (List.mem_cons_self ..)).elim

variable (rank)

/-! ## Sorting -/

/-- A run brought into order and the rest of the items inserted into it. -/
theorem meets_insertAll_run {run first tail : List α} (hsplit : run ++ tail = xs) (hxs : xs ⊆ items)
    (hfirst : first.Perm run) (hordered : Agrees less rank items → Ordered rank (· ≤ ·) run first) :
    Meets (OfComparisons less items) (fun ys => ys.Perm xs ∧ (Agrees less rank items → Ordered rank (· ≤ ·) xs ys))
      (insertAll less first tail) := by
  subst hsplit
  obtain ⟨hrun, htail⟩ := List.append_subset.1 hxs
  have hfirstItems : first ⊆ items := fun y hy => hrun (hfirst.subset hy)
  obtain ⟨hfails, hresult⟩ := meets_insertAll rank hfirstItems htail
  refine ⟨hfails, fun ys hys => ?_⟩
  obtain ⟨hperm, hsorted⟩ := hresult ys hys
  refine ⟨hperm.trans (hfirst.append_right tail), fun hagrees => ?_⟩
  have hbegin := hordered hagrees
  have hend := hsorted hagrees hbegin.pairwise
  exact ⟨hend.pairwise, fun r => (hend.filter_eq r).trans (hbegin.append tail r)⟩

theorem meets_sort (hxs : xs ⊆ items) : Meets (OfComparisons less items)
    (fun ys => ys.Perm xs ∧ (Agrees less rank items → Ordered rank (· ≤ ·) xs ys)) (sort less xs) := by
  match xs, hxs with
  | [], _ => exact .ok ⟨.refl _, fun _ => ⟨.nil, fun _ => rfl⟩⟩
  | [x], _ => exact .ok ⟨.refl _, fun _ => ⟨List.pairwise_singleton _ _, fun _ => rfl⟩⟩
  | x :: y :: rest, hxs =>
    obtain ⟨hx, hyrest⟩ := List.cons_subset.1 hxs
    obtain ⟨hy, hrest⟩ := List.cons_subset.1 hyrest
    refine (meets_less rank hy hx).bind fun b hb => ?_
    cases b with
    | true =>
      refine (meets_descending rank hy hrest).bind fun p hp => ?_
      have hsplit : (x :: y :: p.1) ++ p.2 = x :: y :: rest := congrArg (x :: y :: ·) hp.1
      refine meets_insertAll_run rank hsplit hxs (List.reverse_perm _) fun hagrees => ordered_reverse ?_
      have hlt : rank y < rank x := of_decide_eq_true (hb hagrees).symm
      exact List.pairwise_cons_cons_iff_of_trans.2 ⟨hlt, hp.2 hagrees⟩
    | false =>
      refine (meets_ascending rank hy hrest).bind fun p hp => ?_
      have hsplit : (x :: y :: p.1) ++ p.2 = x :: y :: rest := congrArg (x :: y :: ·) hp.1
      refine meets_insertAll_run rank hsplit hxs (.refl _) fun hagrees => ⟨?_, fun _ => rfl⟩
      have hle : rank x ≤ rank y := not_lt.1 (of_decide_eq_false (hb hagrees).symm)
      exact List.pairwise_cons_cons_iff_of_trans.2 ⟨hle, hp.2 hagrees⟩

/-- Turned round before and after, items of one rank keep their order. -/
theorem meets_sortDescending (hxs : xs ⊆ items) : Meets (OfComparisons less items)
    (fun ys => ys.Perm xs ∧ (Agrees less rank items → Ordered rank (· ≥ ·) xs ys)) (sortDescending less xs) := by
  have hreverse : xs.reverse ⊆ items := fun y hy => hxs (List.mem_reverse.1 hy)
  refine (meets_sort rank hreverse).bind fun ys hys => .ok ⟨?_, fun hagrees => ⟨?_, fun r => ?_⟩⟩
  · exact (List.reverse_perm ys).trans (hys.1.trans (List.reverse_perm xs))
  · exact List.pairwise_reverse.2 (hys.2 hagrees).pairwise
  · have hfilter := (hys.2 hagrees).filter_eq r
    rw [List.filter_reverse] at hfilter ⊢
    exact List.reverse_eq_iff.2 hfilter

end Items

end Flowline.Sorting
