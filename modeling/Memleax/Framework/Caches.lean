import Mathlib.Data.List.Dedup
import Mathlib.Data.List.Nodup
import Mathlib.Data.Fintype.Basic

/-!
# Caches of resources

Two parts of what a cache is to do. `recent l` lists what has been used, each
item once and from the last use to the first; a cache of `k` items that evicts
the least recently used one holds `(recent l).take k` (`take_recent_concat`).

The items come with resources that are created and destroyed by calls to some
library. The calls are kept in a log, and a resource is known by the place of
the call that has created it. `Accounted` says that the resources that have been
created and not destroyed are those that are held, each by one holder, and that
none is destroyed twice.
-/

namespace Framework

/-! ## Recency -/

section Recency

variable {α : Type*} [DecidableEq α]

/-- What has been used, the last use first. -/
def recent (l : List α) : List α := l.dedup.reverse

theorem nodup_recent (l : List α) : (recent l).Nodup :=
  List.nodup_reverse.mpr (List.nodup_dedup l)

theorem mem_recent {a : α} {l : List α} : a ∈ recent l ↔ a ∈ l := by
  rw [recent, List.mem_reverse, List.mem_dedup]

theorem dedup_concat (l : List α) (a : α) : (l ++ [a]).dedup = l.dedup.erase a ++ [a] := by
  induction l with
  | nil => rfl
  | cons b rest ih =>
      rw [List.cons_append]
      by_cases hmem : b ∈ rest
      · rw [List.dedup_cons_of_mem (List.mem_append_left _ hmem), List.dedup_cons_of_mem hmem, ih]
      · rw [List.dedup_cons_of_notMem hmem]
        by_cases heq : b = a
        · subst heq
          have hrest : b ∉ rest.dedup := fun h => hmem (List.mem_dedup.mp h)
          rw [List.dedup_cons_of_mem (List.mem_append_right _ List.mem_cons_self), ih,
            List.erase_cons_head, List.erase_of_not_mem hrest]
        · have hnot : b ∉ rest ++ [a] := by
            rw [List.mem_append, List.mem_singleton]
            rintro (h | h)
            · exact hmem h
            · exact heq h
          rw [List.dedup_cons_of_notMem hnot, ih, List.erase_cons_tail (by simpa using heq)]
          rfl

/-- A use moves to the front. -/
theorem recent_concat (l : List α) (a : α) : recent (l ++ [a]) = a :: (recent l).erase a := by
  have hnodup := List.nodup_dedup l
  rw [recent, dedup_concat, List.reverse_append, recent,
    (List.nodup_reverse.mpr hnodup).erase_eq_filter, hnodup.erase_eq_filter, List.filter_reverse]
  rfl

/-- The items before an erased one stay. -/
theorem take_erase (l : List α) (a : α) (k : Nat) :
    (l.erase a).take k = ((l.take (k + 1)).erase a).take k := by
  induction l generalizing k with
  | nil => simp
  | cons b rest ih =>
      rw [List.take_succ_cons]
      by_cases heq : b = a
      · subst heq
        rw [List.erase_cons_head, List.erase_cons_head, List.take_take, Nat.min_self]
      · rw [List.erase_cons_tail (by simpa using heq), List.erase_cons_tail (by simpa using heq)]
        cases k with
        | zero => rfl
        | succ k => rw [List.take_succ_cons, List.take_succ_cons, ih]

/-- **A cache that evicts the least recently used item** holds the most recently
used ones. -/
theorem take_recent_concat (l : List α) (a : α) (k : Nat) :
    (recent (l ++ [a])).take (k + 1) = a :: (((recent l).take (k + 1)).erase a).take k := by
  rw [recent_concat, List.take_succ_cons, take_erase]

end Recency

/-! ## Accounting -/

section Log

variable {ε : Type*} {create : ε → Prop} {destroy : Nat → ε} {log : List ε}

theorem getElem?_concat_iff {e e' : ε} {h : Nat} :
    (log ++ [e])[h]? = some e' ↔ log[h]? = some e' ∨ h = log.length ∧ e = e' := by
  rcases lt_trichotomy h log.length with hlt | rfl | hgt
  · rw [List.getElem?_append_left hlt]
    exact (or_iff_left fun hlast => Nat.ne_of_lt hlt hlast.1).symm
  · simp
  · rw [List.getElem?_append_right (Nat.le_of_lt hgt), List.getElem?_eq_none (by simp; omega),
      List.getElem?_eq_none (Nat.le_of_lt hgt)]
    simp [Nat.ne_of_gt hgt]

/-- What has been created stays so. -/
theorem get_concat {h : Nat} (hget : ∃ e, log[h]? = some e ∧ create e) (e : ε) :
    ∃ e', (log ++ [e])[h]? = some e' ∧ create e' := by
  obtain ⟨e', he', hc⟩ := hget
  exact ⟨e', getElem?_concat_iff.mpr (Or.inl he'), hc⟩

/-- A call that destroys nothing. -/
theorem mem_concat_iff {e : ε} (hdestroy : ∀ h, e ≠ destroy h) (h : Nat) :
    destroy h ∈ log ++ [e] ↔ destroy h ∈ log := by
  rw [List.mem_append, List.mem_singleton]
  exact or_iff_left (hdestroy h).symm

end Log

/-- The resources in `log`, which the calls `create` and `destroy` are about, and
their holders. -/
structure Accounted {ε ι : Type*} [DecidableEq ε] (create : ε → Prop) (destroy : Nat → ε)
    (log : List ε) (held : ι → Option Nat) : Prop where
  /-- what is held has been created -/
  created : ∀ i h, held i = some h → ∃ e, log[h]? = some e ∧ create e
  /-- it has one holder -/
  distinct : ∀ i j h, held i = some h → held j = some h → i = j
  /-- what is destroyed has been created -/
  destroyed : ∀ h, destroy h ∈ log → ∃ e, log[h]? = some e ∧ create e
  /-- a created resource is destroyed if and only if it is not held -/
  alive : ∀ h e, log[h]? = some e → create e → (destroy h ∈ log ↔ ∀ i, held i ≠ some h)
  /-- no resource is destroyed twice -/
  once : ∀ h, log.count (destroy h) ≤ 1

namespace Accounted

variable {ε ι : Type*} [DecidableEq ε] {create : ε → Prop} {destroy : Nat → ε} {log : List ε}
  {held held' : ι → Option Nat}

theorem nil (create : ε → Prop) (destroy : Nat → ε) :
    Accounted create destroy [] fun _ : ι => none := by
  constructor
  · intro i h hheld
    cases hheld
  · intro i j h hheld
    cases hheld
  · intro h hmem
    cases hmem
  · intro h e hget
    cases hget
  · intro h
    exact Nat.zero_le 1

theorem count_concat {e : ε} (hdestroy : ∀ h, e ≠ destroy h) (h : Nat) :
    (log ++ [e]).count (destroy h) = log.count (destroy h) := by
  rw [List.count_append, List.count_singleton]
  simp [hdestroy h]

/-- A call about something else. -/
theorem idle (hlog : Accounted create destroy log held) {e : ε} (hcreate : ¬ create e)
    (hdestroy : ∀ h, e ≠ destroy h) : Accounted create destroy (log ++ [e]) held := by
  constructor
  · intro i h hheld
    exact get_concat (hlog.created i h hheld) e
  · exact hlog.distinct
  · intro h hdes
    exact get_concat (hlog.destroyed h ((mem_concat_iff hdestroy h).mp hdes)) e
  · intro h e' he' hc
    rw [mem_concat_iff hdestroy]
    rcases getElem?_concat_iff.mp he' with hold | ⟨-, rfl⟩
    · exact hlog.alive h e' hold hc
    · exact absurd hc hcreate
  · intro h
    rw [count_concat hdestroy]
    exact hlog.once h

variable [DecidableEq ι]

/-- A holder gives up its resource, which is destroyed. -/
theorem release (hlog : Accounted create destroy log held) (hinj : Function.Injective destroy)
    (hcreate : ∀ h, ¬ create (destroy h)) {i : ι} {h : Nat} (hheld : held i = some h) :
    Accounted create destroy (log ++ [destroy h]) (Function.update held i none) := by
  have hupdate : ∀ j k, Function.update held i none j = some k → j ≠ i ∧ held j = some k := by
    intro j k hj
    by_cases hji : j = i
    · rw [hji, Function.update_self] at hj
      cases hj
    · rw [Function.update_of_ne hji] at hj
      exact ⟨hji, hj⟩
  have halive : destroy h ∉ log := by
    obtain ⟨e, he, hc⟩ := hlog.created i h hheld
    intro hmem
    exact (hlog.alive h e he hc).mp hmem i hheld
  constructor
  · intro j k hj
    exact get_concat (hlog.created j k (hupdate j k hj).2) _
  · intro j j' k hj hj'
    exact hlog.distinct j j' k (hupdate j k hj).2 (hupdate j' k hj').2
  · intro k hk
    rcases List.mem_append.mp hk with hk | hk
    · exact get_concat (hlog.destroyed k hk) _
    · rw [hinj (List.mem_singleton.mp hk)]
      exact get_concat (hlog.created i h hheld) _
  · intro k e he hc
    rcases getElem?_concat_iff.mp he with hold | ⟨-, rfl⟩
    · rw [List.mem_append, List.mem_singleton, hinj.eq_iff, hlog.alive k e hold hc]
      constructor
      · rintro (hnone | rfl) j hj
        · exact hnone j (hupdate j k hj).2
        · exact (hupdate j k hj).1 (hlog.distinct j i k (hupdate j k hj).2 hheld)
      · intro hnone
        by_cases hkh : k = h
        · exact Or.inr hkh
        · left
          intro j hj
          have hji : j ≠ i := by
            rintro rfl
            exact hkh (Option.some.inj (hj.symm.trans hheld))
          exact hnone j (by rw [Function.update_of_ne hji, hj])
    · exact absurd hc (hcreate h)
  · intro k
    rw [List.count_append, List.count_singleton]
    by_cases hkh : k = h
    · rw [hkh, List.count_eq_zero_of_not_mem halive]
      split <;> omega
    · have hne : (destroy h == destroy k) = false := by
        rw [beq_eq_false_iff_ne]
        intro heq
        exact hkh (hinj heq).symm
      rw [hne]
      exact hlog.once k

/-- A holder without a resource creates one. -/
theorem acquire (hlog : Accounted create destroy log held) {e : ε} (hcreate : create e)
    (hdestroy : ∀ h, e ≠ destroy h) {i : ι} (hheld : held i = none) :
    Accounted create destroy (log ++ [e]) (Function.update held i (some log.length)) := by
  have hupdate : ∀ j k, Function.update held i (some log.length) j = some k →
      j = i ∧ k = log.length ∨ j ≠ i ∧ held j = some k := by
    intro j k hj
    by_cases hji : j = i
    · rw [hji, Function.update_self] at hj
      exact Or.inl ⟨hji, (Option.some.inj hj).symm⟩
    · rw [Function.update_of_ne hji] at hj
      exact Or.inr ⟨hji, hj⟩
  have hbound : ∀ k, (∃ e, log[k]? = some e ∧ create e) → k < log.length := by
    rintro k ⟨e', he', -⟩
    exact (List.getElem?_eq_some_iff.mp he').1
  constructor
  · intro j k hj
    rcases hupdate j k hj with ⟨-, rfl⟩ | ⟨-, hj⟩
    · exact ⟨e, getElem?_concat_iff.mpr (Or.inr ⟨rfl, rfl⟩), hcreate⟩
    · exact get_concat (hlog.created j k hj) e
  · intro j j' k hj hj'
    rcases hupdate j k hj with ⟨rfl, rfl⟩ | ⟨-, hj⟩
    · rcases hupdate j' _ hj' with ⟨rfl, -⟩ | ⟨-, hj'⟩
      · rfl
      · exact absurd (hbound _ (hlog.created j' _ hj')) (Nat.lt_irrefl _)
    · rcases hupdate j' k hj' with ⟨-, rfl⟩ | ⟨-, hj'⟩
      · exact absurd (hbound _ (hlog.created j _ hj)) (Nat.lt_irrefl _)
      · exact hlog.distinct j j' k hj hj'
  · intro k hk
    exact get_concat (hlog.destroyed k ((mem_concat_iff hdestroy k).mp hk)) e
  · intro k e' he' hc
    rw [mem_concat_iff hdestroy]
    rcases getElem?_concat_iff.mp he' with hold | ⟨rfl, -⟩
    · rw [hlog.alive k e' hold hc]
      have hk := hbound k ⟨e', hold, hc⟩
      constructor
      · intro hnone j hj
        rcases hupdate j k hj with ⟨-, rfl⟩ | ⟨-, hj⟩
        · exact Nat.lt_irrefl _ hk
        · exact hnone j hj
      · intro hnone j hj
        have hji : j ≠ i := by
          rintro rfl
          cases hheld.symm.trans hj
        exact hnone j (by rw [Function.update_of_ne hji, hj])
    · refine iff_of_false ?_ ?_
      · intro hmem
        exact Nat.lt_irrefl _ (hbound _ (hlog.destroyed _ hmem))
      · intro hnone
        exact hnone i (Function.update_self ..)
  · intro k
    rw [count_concat hdestroy]
    exact hlog.once k

end Accounted

end Framework
