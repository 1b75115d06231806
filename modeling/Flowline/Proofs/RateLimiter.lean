import Flowline.RateLimiter
import Flowline.Proofs.Table
import Mathlib.Data.List.Count

/-! # Windows of a limiter

The times of the events of one name, the latest first, have windows: one opens at the first event, and at each
event that finds the window before it over. If every event was one of at most a number in its window, then no
window has more, and no span of time that is not longer than a window has more than twice as many, since it meets
two windows at most. A limiter keeps count of this for each name. -/

namespace Flowline

namespace RateLimiter

/-- The times at which windows of a length opened, the latest first. -/
def openings (length : Int) : List Int → List Int
  | [] => []
  | t :: earlier =>
    match openings length earlier with
    | [] => [t]
    | s :: rest => if t < s + length then s :: rest else t :: s :: rest

/-- How many events there were in the window that is open at a time. -/
def inWindow (length : Int) (times : List Int) (now : Int) : Nat :=
  match openings length times with
  | [] => 0
  | s :: _ => if now < s + length then times.countP (s ≤ ·) else 0

/-- How many events there were from one time on until before another one. -/
def between (times : List Int) (a b : Int) : Nat := times.countP fun t => a ≤ t && t < b

/-- As each event came, there was room for it in its window. -/
def Granted (length : Int) (limit : Nat) : List Int → Prop
  | [] => True
  | t :: earlier => inWindow length earlier t < limit ∧ Granted length limit earlier

/-- Windows do not meet, and each event is in one of them. -/
structure Tiled (length : Int) (times : List Int) : Prop where
  apart : (openings length times).Pairwise fun s s' => s' + length ≤ s
  covered : ∀ t ∈ times, ∃ s ∈ openings length times, s ≤ t ∧ t < s + length
  opened : ∀ s ∈ openings length times, s ∈ times

variable {length : Int} {times : List Int} {limit : Nat}

theorem tiled (hlength : 0 < length) (hsorted : times.Pairwise (· ≥ ·)) : Tiled length times := by
  induction times with
  | nil => exact ⟨.nil, nofun, nofun⟩
  | cons t earlier ih =>
    obtain ⟨hlatest, hrest⟩ := List.pairwise_cons.1 hsorted
    obtain ⟨hapart, hcovered, hopened⟩ := ih hrest
    cases hopen : openings length earlier with
    | nil =>
      have hnone : earlier = [] := List.eq_nil_iff_forall_not_mem.2 fun x hx => by
        obtain ⟨s, hs, -⟩ := hcovered x hx
        simp [hopen] at hs
      subst hnone
      refine ⟨List.pairwise_singleton .., fun x hx => ?_, fun x hx => hx⟩
      obtain rfl := List.mem_singleton.1 hx
      exact ⟨x, List.mem_singleton_self x, by omega, by omega⟩
    | cons s rest =>
      rw [hopen] at hapart hcovered hopened
      have hst : s ≤ t := hlatest s (hopened s (by simp))
      by_cases hin : t < s + length
      · have hsame : openings length (t :: earlier) = s :: rest := by simp [openings, hopen, hin]
        refine ⟨hsame ▸ hapart, ?_, ?_⟩
        · intro x hx
          rw [hsame]
          obtain rfl | hx := List.mem_cons.1 hx
          · exact ⟨s, by simp, hst, hin⟩
          · exact hcovered x hx
        · exact fun x hx => List.mem_cons_of_mem t (hopened x (hsame ▸ hx))
      · have hnew : openings length (t :: earlier) = t :: s :: rest := by simp [openings, hopen, hin]
        refine ⟨?_, ?_, ?_⟩
        · rw [hnew]
          refine List.pairwise_cons.2 ⟨fun x hx => ?_, hapart⟩
          obtain rfl | hx := List.mem_cons.1 hx
          · omega
          · have := (List.pairwise_cons.1 hapart).1 x hx
            omega
        · intro x hx
          rw [hnew]
          obtain rfl | hx := List.mem_cons.1 hx
          · exact ⟨x, by simp, by omega, by omega⟩
          · obtain ⟨s', hs', hwithin⟩ := hcovered x hx
            exact ⟨s', List.mem_cons_of_mem t hs', hwithin⟩
        · intro x hx
          rw [hnew] at hx
          obtain rfl | hx := List.mem_cons.1 hx
          · simp
          · exact List.mem_cons_of_mem t (hopened x hx)

theorem between_cons (t a b : Int) (times : List Int) :
    between (t :: times) a b = between times a b + if a ≤ t ∧ t < b then 1 else 0 := by
  simp [between, List.countP_cons]

theorem between_eq_zero {a b : Int} (h : ∀ t ∈ times, t < a ∨ b ≤ t) : between times a b = 0 := by
  refine List.countP_eq_zero.2 fun t ht => ?_
  have := h t ht
  simp only [Bool.and_eq_true, decide_eq_true_eq, not_and]
  omega

theorem openings_eq_nil (hlength : 0 < length) (hsorted : times.Pairwise (· ≥ ·))
    (hnone : openings length times = []) : times = [] := by
  refine List.eq_nil_iff_forall_not_mem.2 fun t ht => ?_
  obtain ⟨s, hs, -⟩ := (tiled hlength hsorted).covered t ht
  simp [hnone] at hs

/-- Every window has its limit. -/
theorem between_opening_le (hlength : 0 < length) (hsorted : times.Pairwise (· ≥ ·))
    (hgranted : Granted length limit times) {s : Int} (hs : s ∈ openings length times) :
    between times s (s + length) ≤ limit := by
  induction times generalizing s with
  | nil => cases hs
  | cons t earlier ih =>
    obtain ⟨hroom, hearlier⟩ := hgranted
    obtain ⟨hlatest, hrest⟩ := List.pairwise_cons.1 hsorted
    obtain ⟨hapart, hcovered, hopened⟩ := tiled hlength hrest
    rw [between_cons]
    unfold inWindow at hroom
    unfold openings at hs
    cases hopen : openings length earlier with
    | nil =>
      obtain rfl := openings_eq_nil hlength hrest hopen
      have hnone : between [] s (s + length) = 0 := rfl
      simp only [hopen] at hroom
      split <;> omega
    | cons s₀ rest =>
      simp only [hopen] at hroom hs
      rw [hopen] at hapart hcovered hopened
      have hbefore : ∀ s' ∈ rest, s' + length ≤ s₀ := (List.pairwise_cons.1 hapart).1
      have hst : s₀ ≤ t := hlatest s₀ (hopened s₀ (by simp))
      -- An event is in none of the windows before the one in which it comes.
      have houtside (s' : Int) (hs' : s' ∈ rest) : between earlier s' (s' + length) +
          (if s' ≤ t ∧ t < s' + length then 1 else 0) ≤ limit := by
        have hover := hbefore s' hs'
        rw [if_neg (by omega)]
        exact ih hrest hearlier (by simp [hopen, hs'])
      split at hroom
      · next hin =>
        rw [if_pos hin] at hs
        obtain rfl | hs := List.mem_cons.1 hs
        · have hcount : between earlier s (s + length) ≤ earlier.countP (s ≤ ·) :=
            List.countP_mono_left fun x _ hx => by simp at hx ⊢; exact hx.1
          split <;> omega
        · exact houtside s hs
      · next hover =>
        rw [if_neg hover] at hs
        obtain rfl | hs := List.mem_cons.1 hs
        · have hnone : between earlier s (s + length) = 0 := between_eq_zero fun x hx => .inl ?_
          · split <;> omega
          · obtain ⟨s', hs', -, hwithin⟩ := hcovered x hx
            obtain rfl | hs' := List.mem_cons.1 hs'
            · omega
            · have := hbefore s' hs'
              omega
        · obtain rfl | hs := List.mem_cons.1 hs
          · rw [if_neg (by omega)]
            exact ih hrest hearlier (by simp [hopen])
          · exact houtside s hs

/-- The window that is open has its limit at most. -/
theorem inWindow_le (hlength : 0 < length) (hsorted : times.Pairwise (· ≥ ·))
    (hgranted : Granted length limit times) (now : Int) : inWindow length times now ≤ limit := by
  obtain ⟨hapart, hcovered, -⟩ := tiled hlength hsorted
  unfold inWindow
  cases hopen : openings length times with
  | nil => exact Nat.zero_le _
  | cons s rest =>
    rw [hopen] at hapart hcovered
    dsimp only
    split
    · refine Nat.le_trans (List.countP_mono_left fun t ht hst => ?_)
        (between_opening_le hlength hsorted hgranted (s := s) (by simp [hopen]))
      have hts : t < s + length := by
        obtain ⟨s', hs', -, hwithin⟩ := hcovered t ht
        obtain rfl | hs' := List.mem_cons.1 hs'
        · exact hwithin
        · have := (List.pairwise_cons.1 hapart).1 s' hs'
          omega
      simpa [hts] using hst
    · exact Nat.zero_le _

theorem countP_le_of_windows {windows : List Int} {p : Int → Bool}
    (hcovered : ∀ t ∈ times, p t = true → ∃ s ∈ windows, s ≤ t ∧ t < s + length)
    (hlimit : ∀ s ∈ windows, between times s (s + length) ≤ limit) :
    times.countP p ≤ windows.length * limit := by
  induction windows generalizing p with
  | nil =>
    have hnone : times.countP p = 0 := List.countP_eq_zero.2 fun t ht hp => by
      obtain ⟨s, hs, -⟩ := hcovered t ht hp
      cases hs
    omega
  | cons s rest ih =>
    let q : Int → Bool := fun t => s ≤ t && t < s + length
    have hhere : (times.filter q).countP p ≤ limit := by
      refine Nat.le_trans List.countP_le_length ?_
      rw [← List.countP_eq_length_filter]
      exact hlimit s (by simp)
    have hthere : (times.filter fun t => !q t).countP p ≤ rest.length * limit := by
      rw [List.countP_filter]
      refine ih (fun t ht hpt => ?_) fun s' hs' => hlimit s' (by simp [hs'])
      obtain ⟨hp, hq⟩ := Bool.and_eq_true_iff.1 hpt
      obtain ⟨s', hs', hwithin⟩ := hcovered t ht hp
      obtain rfl | hs' := List.mem_cons.1 hs'
      · simp [q, hwithin] at hq
      · exact ⟨s', hs', hwithin⟩
    have hsplit := List.countP_eq_countP_filter_add times p q
    rw [List.length_cons, Nat.succ_mul]
    omega

/-- A span of time that is not longer than a window has at most twice its limit, since three windows do not
meet one such span. -/
theorem between_le (hlength : 0 < length) (hsorted : times.Pairwise (· ≥ ·))
    (hgranted : Granted length limit times) {a b : Int} (hspan : b ≤ a + length) :
    between times a b ≤ 2 * limit := by
  obtain ⟨hapart, hcovered, -⟩ := tiled hlength hsorted
  let meets : Int → Bool := fun s => s < b && a < s + length
  have hmeeting : between times a b ≤ ((openings length times).filter meets).length * limit := by
    refine countP_le_of_windows (fun t ht hin => ?_) fun s hs =>
      between_opening_le hlength hsorted hgranted (List.mem_filter.1 hs).1
    obtain ⟨s, hs, hst, hts⟩ := hcovered t ht
    simp only [Bool.and_eq_true, decide_eq_true_eq] at hin
    refine ⟨s, List.mem_filter.2 ⟨hs, ?_⟩, hst, hts⟩
    simp only [meets, Bool.and_eq_true, decide_eq_true_eq]
    omega
  have htwo : ((openings length times).filter meets).length ≤ 2 := by
    have hmeets : ∀ s ∈ (openings length times).filter meets, s < b ∧ a < s + length := fun s hs => by
      simpa [meets] using (List.mem_filter.1 hs).2
    have hapart := hapart.filter meets
    match hhits : (openings length times).filter meets with
    | [] | [_] | [_, _] => simp
    | s₁ :: s₂ :: s₃ :: rest =>
      rw [hhits] at hmeets hapart
      have h₁ := hmeets s₁ (by simp)
      have h₃ := hmeets s₃ (by simp)
      obtain ⟨h₂₁, hapart⟩ := List.pairwise_cons.1 hapart
      have h₂₁ := h₂₁ s₂ (by simp)
      have h₃₂ := (List.pairwise_cons.1 hapart).1 s₃ (by simp)
      omega
  exact Nat.le_trans hmeeting (Nat.mul_le_mul_right limit htwo)

/-! ## What a limiter counts -/

section
variable {τ : Type} [Sub τ] [LE τ] [DecidableLE τ] {l : RateLimiter τ} {stamp : Int → τ} {name : String}
  {now : Int} {n : Int}

/-- A limiter has the last window of the events of a name, which came at some times. Its clock shows a stamp of
each time. -/
def Counts (l : RateLimiter τ) (stamp : Int → τ) (length : Int) (name : String) (times : List Int) : Prop :=
  l.windows.get? name =
    (openings length times).head?.map fun s => ⟨stamp s, times.countP (s ≤ ·)⟩

/-- On the clock of a limiter, windows are as long as in truth. -/
def Exact (l : RateLimiter τ) (stamp : Int → τ) (length : Int) (times : List Int) (now : Int) : Prop :=
  ∀ t ∈ times, l.length ≤ stamp now - stamp t ↔ length ≤ now - t

theorem openWindow_eq (hopened : ∀ s ∈ openings length times, s ∈ times)
    (hcounts : l.Counts stamp length name times) (hexact : l.Exact stamp length times now) :
    l.openWindow (stamp now) name =
      match openings length times with
      | [] => ⟨stamp now, 0⟩
      | s :: _ => if now < s + length then ⟨stamp s, times.countP (s ≤ ·)⟩ else ⟨stamp now, 0⟩ := by
  unfold Counts at hcounts
  unfold openWindow
  rw [hcounts]
  cases hopen : openings length times with
  | nil => rfl
  | cons s rest =>
    have hover := hexact s (hopened s (by simp [hopen]))
    dsimp only [List.head?_cons, Option.map_some]
    by_cases hin : now < s + length
    · rw [if_pos hin, if_neg]
      rw [hover]
      omega
    · rw [if_neg hin, if_pos]
      rw [hover]
      omega

theorem fst_acquire (l : RateLimiter τ) (t : τ) (name : String) (n : Int) :
    (l.acquire t name n).1 = !decide (n ≤ (l.openWindow t name).count) := by
  unfold acquire
  dsimp only
  split
  · next hfull => simp [hfull]
  · next hroom => simp [hroom]

/-- Events are admitted as there is room for them in their windows. -/
theorem acquire_iff (hopened : ∀ s ∈ openings length times, s ∈ times)
    (hcounts : l.Counts stamp length name times) (hexact : l.Exact stamp length times now) :
    (l.acquire (stamp now) name n).1 = true ↔ (inWindow length times now : Int) < n := by
  have hcount : (l.openWindow (stamp now) name).count = inWindow length times now := by
    rw [openWindow_eq hopened hcounts hexact]
    unfold inWindow
    split
    · rfl
    · split <;> rfl
  rw [fst_acquire, hcount]
  simp

/-- An event that is admitted is counted. -/
theorem Counts.acquire (hlength : 0 < length) (hsorted : (now :: times).Pairwise (· ≥ ·))
    (hcounts : l.Counts stamp length name times) (hexact : l.Exact stamp length times now)
    (hadmitted : (l.acquire (stamp now) name n).1 = true) :
    (l.acquire (stamp now) name n).2.Counts stamp length name (now :: times) := by
  obtain ⟨hlatest, hrest⟩ := List.pairwise_cons.1 hsorted
  obtain ⟨hapart, hcovered, hopened⟩ := tiled hlength hrest
  unfold RateLimiter.acquire at hadmitted ⊢
  dsimp only at hadmitted ⊢
  split at hadmitted
  · cases hadmitted
  · next hroom =>
    have hstored := openWindow_eq hopened hcounts hexact
    rw [if_neg hroom, Counts, Table.get?_put_self]
    cases hopen : openings length times with
    | nil =>
      obtain rfl := openings_eq_nil hlength hrest hopen
      rw [hstored]
      simp [openings]
    | cons s rest =>
      rw [hopen] at hapart hcovered hopened hstored
      rw [hstored]
      dsimp only
      by_cases hin : now < s + length
      · have hst : s ≤ now := hlatest s (hopened s (by simp))
        simp [openings, hopen, hin, hst]
      · have hlast (s' : Int) (hs' : s' ∈ s :: rest) : s' + length ≤ now := by
          obtain rfl | hs' := List.mem_cons.1 hs'
          · omega
          · have := (List.pairwise_cons.1 hapart).1 s' hs'
            omega
        have hnone : times.countP (now ≤ ·) = 0 := List.countP_eq_zero.2 fun t ht hlater => by
          obtain ⟨s', hs', -, hwithin⟩ := hcovered t ht
          have hover := hlast s' hs'
          have hlater : now ≤ t := by simpa using hlater
          omega
        simp [openings, hopen, hin, hnone]

theorem length_acquire (t : τ) (name : String) (n : Int) : (l.acquire t name n).2.length = l.length := by
  unfold acquire
  dsimp only
  split
  · rfl
  · rfl

/-- An event makes no difference to the windows of other names. -/
theorem get?_acquire_of_ne (t : τ) {other : String} (hne : other ≠ name) :
    (l.acquire t name n).2.windows.get? other = l.windows.get? other := by
  unfold acquire
  dsimp only
  split
  · rfl
  · exact Table.get?_put_of_ne _ _ hne

theorem openWindow_congr {l' : RateLimiter τ} (hlength : l'.length = l.length)
    (hwindow : l'.windows.get? name = l.windows.get? name) (t : τ) :
    l'.openWindow t name = l.openWindow t name := by
  unfold openWindow
  rw [hlength, hwindow]

end

end RateLimiter

end Flowline
