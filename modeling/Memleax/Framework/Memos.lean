import Memleax.Framework.Chains

/-!
# Memo tables

A table stands before an oracle and keeps what the oracle has said. It asks the
oracle once for each key, and from then on repeats that first answer
(`memoised`), which makes no difference if the oracle does not change its mind
(`memoised_eq`). `Memo` is such a table in the chains of a hash table.
-/

namespace Framework

variable {κ α ν : Type*} [DecidableEq κ]

/-- What the oracle would have said at the first question about `k`. -/
def firstAnswer (l : List (κ × α)) (k : κ) : Option α :=
  (l.find? fun q => decide (q.1 = k)).map Prod.snd

theorem firstAnswer_concat (l : List (κ × α)) (k k' : κ) (a : α) :
    firstAnswer (l ++ [(k, a)]) k' = (firstAnswer l k').or (if k = k' then some a else none) := by
  rw [firstAnswer, firstAnswer, List.find?_append]
  cases l.find? fun q => decide (q.1 = k') with
  | some q => rfl
  | none =>
      by_cases heq : k = k'
      · simp [heq]
      · simp [heq]

theorem firstAnswer_eq_none_iff {l : List (κ × α)} {k : κ} :
    firstAnswer l k = none ↔ ∀ q ∈ l, q.1 ≠ k := by
  rw [firstAnswer, Option.map_eq_none_iff, List.find?_eq_none]
  simp only [decide_eq_true_eq, ne_eq]

theorem mem_of_firstAnswer {l : List (κ × α)} {k : κ} {a : α} (h : firstAnswer l k = some a) :
    (k, a) ∈ l := by
  obtain ⟨q, hq, rfl⟩ := Option.map_eq_some_iff.mp h
  obtain rfl : q.1 = k := by simpa using List.find?_some hq
  exact List.mem_of_find?_eq_some hq

/-- The answers of a memo table to the questions `l`. -/
def memoised (l : List (κ × α)) : List α := l.map fun q => (firstAnswer l q.1).getD q.2

theorem memoised_concat (l : List (κ × α)) (k : κ) (a : α) :
    memoised (l ++ [(k, a)]) = memoised l ++ [(firstAnswer l k).getD a] := by
  have hlast : firstAnswer (l ++ [(k, a)]) k = some ((firstAnswer l k).getD a) := by
    rw [firstAnswer_concat, if_pos rfl]
    cases firstAnswer l k <;> rfl
  rw [memoised, List.map_append, List.map_singleton, hlast, Option.getD_some]
  congr 1
  refine List.map_congr_left fun q hq => ?_
  rw [firstAnswer_concat]
  cases hfirst : firstAnswer l q.1 with
  | some b => rfl
  | none => exact absurd rfl (firstAnswer_eq_none_iff.mp hfirst q hq)

/-- **An oracle that does not change its mind** is answered by its own answers. -/
theorem memoised_eq {l : List (κ × α)} (h : ∀ q ∈ l, ∀ q' ∈ l, q.1 = q'.1 → q.2 = q'.2) :
    memoised l = l.map Prod.snd := by
  refine List.map_congr_left fun q hq => ?_
  cases hfirst : firstAnswer l q.1 with
  | none => rfl
  | some a => exact h _ (mem_of_firstAnswer hfirst) q hq rfl

/-- A search after a push. -/
theorem Chains.search_pushHead (h : Chains ν) (j k : Nat) (x : ν) (hit : ν → Bool) :
    (h.pushHead j x).search k hit = if k = j ∧ hit x = true then some x else h.search k hit := by
  rw [Chains.search, Chains.pushHead]
  by_cases hk : k = j
  · subst hk
    rw [Function.update_self, List.find?_cons]
    cases hhit : hit x with
    | true => simp
    | false => simp [Chains.search]
  · rw [Function.update_of_ne hk, if_neg fun h => hk h.1, Chains.search]

/-- The table finds the first answer for each key. -/
def Memo (slot : κ → Nat) (key : ν → κ) (value : ν → α) (h : Chains ν) (l : List (κ × α)) : Prop :=
  ∀ k, (h.search (slot k) fun x => decide (key x = k)).map value = firstAnswer l k

namespace Memo

variable {slot : κ → Nat} {key : ν → κ} {value : ν → α} {h : Chains ν} {l : List (κ × α)}

theorem empty : Memo slot key value (fun _ => []) ([] : List (κ × α)) := fun _ => rfl

/-- A question that has been asked before. -/
theorem hit (hm : Memo slot key value h l) {k : κ} {x : ν} (a : α)
    (hx : (h.search (slot k) fun x => decide (key x = k)) = some x) :
    firstAnswer l k = some (value x) ∧ Memo slot key value h (l ++ [(k, a)]) := by
  have hfirst : firstAnswer l k = some (value x) := by
    rw [← hm k, hx]
    rfl
  refine ⟨hfirst, ?_⟩
  intro k'
  rw [hm k', firstAnswer_concat]
  by_cases heq : k = k'
  · subst heq
    rw [hfirst]
    rfl
  · rw [if_neg heq, Option.or_none]

/-- A new question, with an entry for its answer. -/
theorem miss (hm : Memo slot key value h l) {k : κ} {a : α}
    (hnone : (h.search (slot k) fun x => decide (key x = k)) = none) {x : ν} (hkey : key x = k)
    (hvalue : value x = a) :
    firstAnswer l k = none ∧ Memo slot key value (h.pushHead (slot k) x) (l ++ [(k, a)]) := by
  have hfirst : firstAnswer l k = none := by
    rw [← hm k, hnone]
    rfl
  refine ⟨hfirst, ?_⟩
  intro k'
  rw [Chains.search_pushHead, firstAnswer_concat]
  by_cases heq : k = k'
  · subst heq
    rw [if_pos ⟨rfl, decide_eq_true hkey⟩, hfirst, if_pos rfl, Option.map_some, hvalue]
    rfl
  · rw [if_neg, hm k', if_neg heq, Option.or_none]
    rintro ⟨-, hhit⟩
    exact heq (hkey.symm.trans (of_decide_eq_true hhit))

end Memo

end Framework
