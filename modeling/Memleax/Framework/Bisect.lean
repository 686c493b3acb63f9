import Mathlib.Order.Compare
import Mathlib.Order.Lattice

/-!
# Bisection

The loop that keeps two indices `min` and `max` and probes `(min + max) / 2`,
with an arbitrary test: an outcome `.lt` goes on to the left of the probed
index, `.gt` to the right of it, and `.eq` ends the loop.

Nothing is assumed about the test. Which indices are probed on the way to an
index `k` depends on the number of items only (`probesBefore`), and the loop
ends at `k` exactly if the test accepts `k` and sends every probe before it
towards `k` (`bisect_eq_some_iff`). For items in order the second part is
automatic; for intervals that overlap, or share end points, it is what decides.
-/

namespace Framework

/-- The loop, in at most `fuel` probes. -/
def bisect (probe : Nat → Ordering) : Nat → Int → Int → Option Nat
  | 0, _, _ => none
  | fuel + 1, min, max =>
      if min ≤ max then
        let mid := (min + max) / 2
        match probe mid.toNat with
        | .lt => bisect probe fuel min (mid - 1)
        | .gt => bisect probe fuel (mid + 1) max
        | .eq => some mid.toNat
      else none

/-- Bisection of `n` items. Each probe leaves fewer items than there were. -/
def bisection (probe : Nat → Ordering) (n : Nat) : Option Nat := bisect probe n 0 (n - 1)

/-- The indices that are probed before `k` by a loop that is sent to `k`. -/
def probesTo (k : Nat) : Nat → Int → Int → List Nat
  | 0, _, _ => []
  | fuel + 1, min, max =>
      if min ≤ max then
        let mid := (min + max) / 2
        match compare k mid.toNat with
        | .lt => mid.toNat :: probesTo k fuel min (mid - 1)
        | .gt => mid.toNat :: probesTo k fuel (mid + 1) max
        | .eq => []
      else []

def probesBefore (n k : Nat) : List Nat := probesTo k n 0 (n - 1)

variable {probe : Nat → Ordering}

/-- A probe lies between the two indices and is not the one that is looked for. -/
theorem mem_probesTo {k j : Nat} : ∀ {fuel : Nat} {min max : Int}, 0 ≤ min →
    j ∈ probesTo k fuel min max → min ≤ j ∧ (j : Int) ≤ max ∧ j ≠ k := by
  intro fuel
  induction fuel with
  | zero =>
      intro min max _ hj
      cases hj
  | succ fuel ih =>
      intro min max hmin hj
      rw [probesTo] at hj
      split at hj
      · dsimp only at hj
        split at hj
        · rename_i hlt
          have hlt := compare_lt_iff_lt.mp hlt
          rcases List.mem_cons.mp hj with rfl | hj
          · omega
          · have := ih hmin hj
            omega
        · rename_i hgt
          have hgt := compare_gt_iff_gt.mp hgt
          rcases List.mem_cons.mp hj with rfl | hj
          · omega
          · have := ih (by omega) hj
            omega
        · cases hj
      · cases hj

/-- The loop ends between the two indices. -/
theorem bisect_mem {k : Nat} : ∀ {fuel : Nat} {min max : Int}, 0 ≤ min →
    bisect probe fuel min max = some k → min ≤ k ∧ (k : Int) ≤ max := by
  intro fuel
  induction fuel with
  | zero =>
      intro min max _ hres
      cases hres
  | succ fuel ih =>
      intro min max hmin hres
      rw [bisect] at hres
      split at hres
      · dsimp only at hres
        split at hres
        · have := ih hmin hres
          omega
        · have := ih (by omega) hres
          omega
        · have := Option.some.inj hres
          omega
      · cases hres

/-- **Where the loop ends.** -/
theorem bisect_eq_some_iff {k : Nat} : ∀ {fuel : Nat} {min max : Int}, 0 ≤ min →
    max - min < fuel →
    (bisect probe fuel min max = some k ↔ (min ≤ k ∧ (k : Int) ≤ max) ∧ probe k = .eq ∧
      ∀ j ∈ probesTo k fuel min max, probe j = compare k j) := by
  intro fuel
  induction fuel with
  | zero =>
      intro min max _ hfuel
      refine iff_of_false (by simp [bisect]) ?_
      rintro ⟨⟨h₁, h₂⟩, -⟩
      simp at hfuel
      omega
  | succ fuel ih =>
      intro min max hmin hfuel
      rw [bisect, probesTo]
      by_cases hle : min ≤ max
      · rw [if_pos hle, if_pos hle]
        dsimp only
        generalize hmid : (min + max) / 2 = mid
        have hmid' : (mid.toNat : Int) = mid := by omega
        -- the probe either accepts or leaves one side, and `k` is on one side of it or is it
        rcases lt_trichotomy k mid.toNat with hlt | heq | hgt
        · rw [compare_lt_iff_lt.mpr hlt]
          simp only [List.forall_mem_cons]
          rw [compare_lt_iff_lt.mpr hlt]
          cases hprobe : probe mid.toNat with
          | lt =>
              simp only [true_and]
              rw [ih hmin (by omega)]
              have hrange : ((k : Int) ≤ mid - 1) ↔ (k : Int) ≤ max := by omega
              rw [hrange]
          | gt =>
              simp only [reduceCtorEq, false_and, and_false, iff_false]
              intro hres
              have := bisect_mem (by omega) hres
              omega
          | eq =>
              simp only [reduceCtorEq, false_and, and_false, iff_false]
              intro hres
              have := Option.some.inj hres
              omega
        · rw [heq, compare_eq_iff_eq.mpr rfl]
          simp only [List.not_mem_nil, false_implies, implies_true, and_true]
          cases hprobe : probe mid.toNat with
          | lt =>
              simp only [reduceCtorEq, and_false, iff_false]
              intro hres
              have := bisect_mem hmin hres
              omega
          | gt =>
              simp only [reduceCtorEq, and_false, iff_false]
              intro hres
              have := bisect_mem (by omega) hres
              omega
          | eq =>
              simp only [and_true, true_iff]
              omega
        · rw [compare_gt_iff_gt.mpr hgt]
          simp only [List.forall_mem_cons]
          rw [compare_gt_iff_gt.mpr hgt]
          cases hprobe : probe mid.toNat with
          | lt =>
              simp only [reduceCtorEq, false_and, and_false, iff_false]
              intro hres
              have := bisect_mem hmin hres
              omega
          | gt =>
              simp only [true_and]
              rw [ih (by omega) (by omega)]
              have hrange : (mid + 1 ≤ (k : Int)) ↔ min ≤ (k : Int) := by omega
              rw [hrange]
          | eq =>
              simp only [reduceCtorEq, false_and, and_false, iff_false]
              intro hres
              have := Option.some.inj hres
              omega
      · rw [if_neg hle, if_neg hle]
        refine iff_of_false (by simp) ?_
        rintro ⟨⟨h₁, h₂⟩, -⟩
        omega

/-- No more probes are made than there are indices. -/
theorem bisect_succ : ∀ {fuel : Nat} {min max : Int}, 0 ≤ min → max - min < fuel →
    bisect probe (fuel + 1) min max = bisect probe fuel min max := by
  intro fuel
  induction fuel with
  | zero =>
      intro min max _ hfuel
      have hle : ¬ min ≤ max := by
        simp at hfuel
        omega
      simp only [bisect, if_neg hle]
  | succ fuel ih =>
      intro min max hmin hfuel
      rw [bisect, bisect]
      split
      · dsimp only
        rw [ih hmin (by omega), ih (by omega) (by omega)]
      · rfl

/-- If no probe turns away from an accepted index, one is found. -/
theorem bisect_isSome {k : Nat} (hk : probe k = .eq) (hleft : ∀ i < k, probe i ≠ .lt)
    (hright : ∀ i, k < i → probe i ≠ .gt) : ∀ {fuel : Nat} {min max : Int}, 0 ≤ min →
    max - min < fuel → min ≤ k → (k : Int) ≤ max → ∃ i, bisect probe fuel min max = some i := by
  intro fuel
  induction fuel with
  | zero =>
      intro min max _ hfuel h₁ h₂
      simp at hfuel
      omega
  | succ fuel ih =>
      intro min max hmin hfuel h₁ h₂
      rw [bisect, if_pos (by omega)]
      dsimp only
      generalize hmid : (min + max) / 2 = mid
      have hne : probe mid.toNat ≠ .eq → mid.toNat ≠ k := by
        rintro h rfl
        exact h hk
      cases hprobe : probe mid.toNat with
      | lt =>
          rw [hprobe] at hne
          have hlt : ¬ mid.toNat < k := fun hlt => hleft _ hlt hprobe
          have hne := hne (by simp)
          exact ih hmin (by omega) h₁ (by omega)
      | gt =>
          rw [hprobe] at hne
          have hgt : ¬ k < mid.toNat := fun hgt => hright _ hgt hprobe
          have hne := hne (by simp)
          exact ih (by omega) (by omega) (by omega) h₂
      | eq => exact ⟨_, rfl⟩

/-! ## Ranges -/

open Std in
/-- Half-open ranges in order: no two of them share a point. -/
theorem index_unique {α ι : Type*} [LT α] [LE α] [IsLinearOrder α] [LawfulOrderLT α]
    {low high : ι → α} {l : List ι} (h : l.Pairwise fun a b => high a ≤ low b) {i j : Nat}
    {a b : ι} (hi : l[i]? = some a) (hj : l[j]? = some b) {x : α}
    (ha : low a ≤ x ∧ x < high a) (hb : low b ≤ x ∧ x < high b) : i = j := by
  obtain ⟨hil, rfl⟩ := List.getElem?_eq_some_iff.mp hi
  obtain ⟨hjl, rfl⟩ := List.getElem?_eq_some_iff.mp hj
  have hpair := List.pairwise_iff_getElem.mp h
  rcases Nat.lt_trichotomy i j with hlt | heq | hgt
  · have hle := le_trans (hpair i j hil hjl hlt) hb.1
    exact absurd ha.2 (not_lt.mpr hle)
  · exact heq
  · have hle := le_trans (hpair j i hjl hil hgt) ha.1
    exact absurd hb.2 (not_lt.mpr hle)

section Ranges

open Std

variable {α : Type*} [LT α] [DecidableLT α]

/-- The test of `x` against a range, of which both ends count as inside. -/
def rangeTest (low high x : α) : Ordering :=
  if x < low then .lt
  else if x > high then .gt
  else .eq

variable {low high x : α}

theorem rangeTest_lt_iff : rangeTest low high x = .lt ↔ x < low := by
  unfold rangeTest
  split
  · rename_i hlt
    exact iff_of_true rfl hlt
  · rename_i hlt
    refine iff_of_false ?_ hlt
    split <;> simp

variable [LE α] [IsLinearOrder α] [LawfulOrderLT α]

theorem rangeTest_gt_iff : rangeTest low high x = .gt ↔ low ≤ x ∧ high < x := by
  unfold rangeTest
  split
  · rename_i hlt
    refine iff_of_false (by simp) ?_
    rintro ⟨hle, -⟩
    exact not_lt.mpr hle hlt
  · rename_i hlow
    split
    · rename_i hgt
      exact iff_of_true rfl ⟨not_lt.mp hlow, hgt⟩
    · rename_i hgt
      refine iff_of_false (by simp) ?_
      rintro ⟨-, hlt⟩
      exact hgt hlt

theorem rangeTest_eq_iff : rangeTest low high x = .eq ↔ low ≤ x ∧ x ≤ high := by
  unfold rangeTest
  split
  · rename_i hlt
    refine iff_of_false (by simp) ?_
    rintro ⟨hle, -⟩
    exact not_lt.mpr hle hlt
  · rename_i hlow
    split
    · rename_i hgt
      refine iff_of_false (by simp) ?_
      rintro ⟨-, hle⟩
      exact not_lt.mpr hle hgt
    · rename_i hgt
      exact iff_of_true rfl ⟨not_lt.mp hlow, not_lt.mp hgt⟩

end Ranges

/-! ## Lists -/

section Lists

variable {α : Type*} {test : α → Ordering} {l : List α}

/-- Bisection of a list. No index outside it is probed. -/
def bisectList (test : α → Ordering) (l : List α) : Option Nat :=
  bisection (fun i => (l[i]?).elim .eq test) l.length

theorem mem_probesBefore {n k j : Nat} (h : j ∈ probesBefore n k) : j < n ∧ j ≠ k := by
  obtain ⟨-, hle, hne⟩ := mem_probesTo le_rfl h
  exact ⟨by omega, hne⟩

/-- **Where the bisection of a list ends.** -/
theorem bisectList_eq_some_iff {k : Nat} :
    bisectList test l = some k ↔ ∃ x, l[k]? = some x ∧ test x = .eq ∧
      ∀ j ∈ probesBefore l.length k, ∀ y, l[j]? = some y → test y = compare k j := by
  rw [bisectList, bisection, bisect_eq_some_iff le_rfl (by omega)]
  constructor
  · rintro ⟨⟨-, hk⟩, htest, hpath⟩
    have hlt : k < l.length := by omega
    rw [List.getElem?_eq_getElem hlt] at htest
    refine ⟨l[k], List.getElem?_eq_getElem hlt, htest, ?_⟩
    intro j hj y hy
    have hprobe := hpath j hj
    rw [hy] at hprobe
    exact hprobe
  · rintro ⟨x, hx, htest, hpath⟩
    obtain ⟨hlt, -⟩ := List.getElem?_eq_some_iff.mp hx
    refine ⟨⟨by omega, by omega⟩, ?_, ?_⟩
    · rw [hx]
      exact htest
    · intro j hj
      have hj' := List.getElem?_eq_getElem (mem_probesBefore hj).1
      rw [hj']
      exact hpath j hj _ hj'

/-- Bisection of a list in which no item turns away from an accepted one. -/
theorem bisectList_isSome {k : Nat} {x : α} (hget : l[k]? = some x) (htest : test x = .eq)
    (h : ∀ j y, l[j]? = some y → (j < k → test y ≠ .lt) ∧ (k < j → test y ≠ .gt)) :
    ∃ i, bisectList test l = some i := by
  obtain ⟨hlt, -⟩ := List.getElem?_eq_some_iff.mp hget
  apply @bisect_isSome _ k
  · rw [hget]
    exact htest
  · intro i hi
    cases hy : l[i]? with
    | none => simp
    | some y => exact (h i y hy).1 hi
  · intro i hi
    cases hy : l[i]? with
    | none => simp
    | some y => exact (h i y hy).2 hi
  · exact le_rfl
  · omega
  · omega
  · omega

/-- Where the bisection of a list of ranges ends. The ranges may overlap and
stand in any order. -/
theorem bisectRanges_eq_some_iff {β : Type*} [LT β] [DecidableLT β] [LE β] [Std.IsLinearOrder β]
    [Std.LawfulOrderLT β] {low high : α → β} {b : β} {k : Nat} :
    bisectList (fun x => rangeTest (low x) (high x) b) l = some k ↔
      ∃ x, l[k]? = some x ∧ (low x ≤ b ∧ b ≤ high x) ∧
        ∀ j ∈ probesBefore l.length k, ∀ y, l[j]? = some y →
          (j < k → low y ≤ b ∧ high y < b) ∧ (k < j → b < low y) := by
  rw [bisectList_eq_some_iff]
  apply exists_congr
  intro x
  rw [rangeTest_eq_iff]
  apply and_congr_right
  intro _
  apply and_congr_right
  intro _
  apply forall₂_congr
  intro j hj
  apply forall₂_congr
  intro y _
  rcases Nat.lt_or_gt_of_ne (mem_probesBefore hj).2 with hlt | hgt
  · rw [compare_gt_iff_gt.mpr hlt, rangeTest_gt_iff]
    constructor
    · intro h
      exact ⟨fun _ => h, fun hkj => absurd hkj (Nat.lt_asymm hlt)⟩
    · rintro ⟨h, -⟩
      exact h hlt
  · rw [compare_lt_iff_lt.mpr hgt, rangeTest_lt_iff]
    constructor
    · intro h
      exact ⟨fun hjk => absurd hjk (Nat.lt_asymm hgt), fun _ => h⟩
    · rintro ⟨-, h⟩
      exact h hgt

end Lists

end Framework
