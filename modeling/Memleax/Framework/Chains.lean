import Mathlib.Data.List.Nodup
import Mathlib.Logic.Function.Basic
import Mathlib.Order.Basic

/-!
# Chained hash tables

A table is a family of chains, one per slot. A node is pushed at the head of
the chain of its slot and unlinked from wherever it stands; a search walks one
chain from its head and stops at the first match.

`Chained slot live h` is what such a table means: the chain of slot `k` lists
exactly the live nodes of that slot, newest first. "Newest" is the order of
the node type, so a node pushed later is a larger node. Under it a search is
"the newest live match" (`Chained.search_eq_some_iff`).
-/

namespace Framework

/-- A hash table: the chain of every slot. -/
abbrev Chains (ν : Type*) := Nat → List ν

namespace Chains

variable {ν : Type*}

/-- Push a node at the head of one chain. -/
def pushHead (h : Chains ν) (k : Nat) (x : ν) : Chains ν :=
  Function.update h k (x :: h k)

/-- Unlink a node. The node carries its own links, so the slot is not needed. -/
def unlink [DecidableEq ν] (h : Chains ν) (x : ν) : Chains ν := fun k => (h k).erase x

/-- The first match on the chain of one slot. -/
def search (h : Chains ν) (k : Nat) (hit : ν → Bool) : Option ν := (h k).find? hit

theorem mem_pushHead {h : Chains ν} {k j : Nat} {x y : ν} :
    y ∈ h.pushHead k x j ↔ (y = x ∧ j = k) ∨ y ∈ h j := by
  by_cases hj : j = k
  · subst hj
    simp [pushHead]
  · simp [pushHead, hj]

/-- A table whose nodes are renamed, before and after a push of a new node. -/
theorem map_pushHead {μ : Type*} {h : Chains ν} (f f' : ν → μ) (x : ν) (k : Nat)
    (hf : ∀ j, ∀ y ∈ h j, f' y = f y) :
    (fun j => (h.pushHead k x j).map f') = pushHead (fun j => (h j).map f) k (f' x) := by
  funext j
  have hold : (h j).map f' = (h j).map f := List.map_congr_left fun y hy => hf j y hy
  by_cases hj : j = k
  · subst hj
    rw [pushHead, pushHead, Function.update_self, Function.update_self, List.map_cons, hold]
  · rw [pushHead, pushHead, Function.update_of_ne hj, Function.update_of_ne hj, hold]

end Chains

/-- An element erased before or after a renaming that keeps it apart from the others. -/
theorem map_erase_of_forall {α μ : Type*} [DecidableEq α] [DecidableEq μ] {f : α → μ} {x : α}
    {l : List α} (hf : ∀ y ∈ l, f y = f x → y = x) : (l.erase x).map f = (l.map f).erase (f x) := by
  induction l with
  | nil => rfl
  | cons y l ih =>
      rw [List.forall_mem_cons] at hf
      by_cases hy : y = x
      · subst hy
        rw [List.erase_cons_head, List.map_cons, List.erase_cons_head]
      · have hfy : f y ≠ f x := fun heq => hy (hf.1 heq)
        rw [List.erase_cons_tail (by simpa using hy), List.map_cons, List.map_cons,
          List.erase_cons_tail (by simpa using hfy), ih hf.2]

variable {ν : Type*} [Preorder ν]

/-- The chain of slot `k` lists the live nodes of that slot, newest first. -/
structure Chained (slot : ν → Nat) (live : ν → Prop) (h : Chains ν) : Prop where
  mem : ∀ k x, x ∈ h k ↔ live x ∧ slot x = k
  newest : ∀ k, (h k).Pairwise (· > ·)

namespace Chained

variable {slot : ν → Nat} {live : ν → Prop} {h : Chains ν}

theorem empty (slot : ν → Nat) : Chained slot (fun _ => False) (fun _ => []) :=
  ⟨by simp, by simp⟩

theorem nodup (hc : Chained slot live h) (k : Nat) : (h k).Nodup :=
  (hc.newest k).imp fun hgt => ne_of_gt hgt

/-- A chain only depends on the slots and the liveness of the nodes. -/
theorem congr {slot' : ν → Nat} {live' : ν → Prop} (hc : Chained slot live h)
    (hl : ∀ x, live' x ↔ live x) (hs : ∀ x, live x → slot' x = slot x) :
    Chained slot' live' h := by
  refine ⟨?_, hc.newest⟩
  intro k x
  rw [hc.mem, hl]
  constructor
  · rintro ⟨hx, rfl⟩
    exact ⟨hx, hs x hx⟩
  · rintro ⟨hx, rfl⟩
    exact ⟨hx, (hs x hx).symm⟩

/-- Pushing a node newer than every live one. -/
theorem pushHead (hc : Chained slot live h) {x : ν} (hnew : ∀ y, live y → y < x) :
    Chained slot (fun y => y = x ∨ live y) (h.pushHead (slot x) x) := by
  constructor
  · intro k y
    rw [Chains.mem_pushHead, hc.mem]
    constructor
    · rintro (⟨rfl, rfl⟩ | ⟨hy, hk⟩)
      · exact ⟨Or.inl rfl, rfl⟩
      · exact ⟨Or.inr hy, hk⟩
    · rintro ⟨rfl | hy, hk⟩
      · exact Or.inl ⟨rfl, hk.symm⟩
      · exact Or.inr ⟨hy, hk⟩
  · intro k
    by_cases hk : k = slot x
    · subst hk
      rw [Chains.pushHead, Function.update_self]
      refine List.pairwise_cons.mpr ⟨?_, hc.newest _⟩
      intro y hy
      exact hnew y ((hc.mem _ _).mp hy).1
    · rw [Chains.pushHead, Function.update_of_ne hk]
      exact hc.newest k

/-- Unlinking a node leaves every other node where it was. -/
theorem unlink [DecidableEq ν] (hc : Chained slot live h) (x : ν) :
    Chained slot (fun y => y ≠ x ∧ live y) (h.unlink x) := by
  refine ⟨?_, fun k => (hc.newest k).sublist List.erase_sublist⟩
  intro k y
  rw [Chains.unlink, (hc.nodup k).mem_erase_iff, hc.mem, and_assoc]

/-- **A search returns the newest live match.** -/
theorem search_eq_some_iff (hc : Chained slot live h) {k : Nat} {hit : ν → Bool} {x : ν} :
    h.search k hit = some x ↔
      (live x ∧ slot x = k ∧ hit x = true) ∧
        ∀ y, live y → slot y = k → hit y = true → y ≤ x := by
  rw [Chains.search, List.find?_eq_some_iff_append]
  constructor
  · rintro ⟨hx, as, bs, heq, hnot⟩
    have hmem : x ∈ h k := by rw [heq]; simp
    obtain ⟨hlx, hkx⟩ := (hc.mem k x).mp hmem
    refine ⟨⟨hlx, hkx, hx⟩, ?_⟩
    intro y hly hky hy
    have hmy : y ∈ as ++ x :: bs := by rw [← heq]; exact (hc.mem k y).mpr ⟨hly, hky⟩
    have hsorted := hc.newest k
    rw [heq] at hsorted
    rcases List.mem_append.mp hmy with ha | hb
    · have := hnot y ha
      simp [hy] at this
    · rcases List.mem_cons.mp hb with rfl | hb
      · exact le_rfl
      · have htail := (List.pairwise_append.mp hsorted).2.1
        exact le_of_lt ((List.pairwise_cons.mp htail).1 y hb)
  · rintro ⟨⟨hlx, hkx, hx⟩, hmax⟩
    obtain ⟨as, bs, heq⟩ := List.append_of_mem ((hc.mem k x).mpr ⟨hlx, hkx⟩)
    refine ⟨hx, as, bs, heq, ?_⟩
    intro y hy
    have hsorted := hc.newest k
    rw [heq] at hsorted
    have hgt : y > x := (List.pairwise_append.mp hsorted).2.2 y hy x (by simp)
    have hmem : y ∈ h k := by rw [heq]; exact List.mem_append_left _ hy
    obtain ⟨hly, hky⟩ := (hc.mem k y).mp hmem
    by_contra hhit
    have hyx := hmax y hly hky (by simpa using hhit)
    exact absurd hgt (not_lt_of_ge hyx)

theorem search_eq_none_iff (hc : Chained slot live h) {k : Nat} {hit : ν → Bool} :
    h.search k hit = none ↔ ∀ y, live y → slot y = k → hit y = false := by
  rw [Chains.search, List.find?_eq_none]
  constructor
  · intro hn y hly hky
    have := hn y ((hc.mem k y).mpr ⟨hly, hky⟩)
    simpa using this
  · intro hn y hy
    obtain ⟨hly, hky⟩ := (hc.mem k y).mp hy
    simp [hn y hly hky]

end Chained

end Framework
