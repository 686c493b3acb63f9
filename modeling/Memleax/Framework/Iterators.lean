import Mathlib.Logic.Basic

/-!
# Iterators

A function that hands out one item a call and keeps its place in a state, as a
C function does with static variables; it may also fail for good. `Yields` says
which items come before the end. A consumer that asks for items until one of
them will do is then a search in a list, and never gets to the items behind it.
-/

namespace Framework

variable {σ β τ ε : Type*} {next : σ → Except ε (Option β × σ)} {body : τ → β → τ × Bool}

/-- The calls from state `s` on return `items`, and then the end, in state `s'`. -/
inductive Yields (next : σ → Except ε (Option β × σ)) : σ → List β → σ → Prop
  | done {s s' : σ} (hnext : next s = .ok (none, s')) : Yields next s [] s'
  | item {s t s' : σ} {x : β} {items : List β} (hnext : next s = .ok (some x, t))
      (hrest : Yields next t items s') : Yields next s (x :: items) s'

/-- States that the next call does not tell apart. -/
theorem Yields.congr {s t s' : σ} {items : List β} (h : Yields next t items s')
    (hnext : next s = next t) : Yields next s items s' := by
  cases h with
  | done h => exact .done (hnext.trans h)
  | item h hrest => exact .item (hnext.trans h) hrest

/-- The items do not depend on who asks for them. -/
theorem Yields.unique {s s' t' : σ} {items items' : List β} (h : Yields next s items s')
    (h' : Yields next s items' t') : items = items' := by
  induction h generalizing items' with
  | done hnext =>
      cases h' with
      | done => rfl
      | item hnext' _ => cases hnext.symm.trans hnext'
  | item hnext _ ih =>
      cases h' with
      | done hnext' => cases hnext.symm.trans hnext'
      | item hnext' hrest' =>
          obtain ⟨hx, rfl⟩ := Prod.mk.inj (Except.ok.inj (hnext.symm.trans hnext'))
          rw [Option.some.inj hx, ih hrest']

/-- A consumer: `body` is applied to one item after the other until it is content
with one. At most `fuel` calls are made. -/
def takeUntil (next : σ → Except ε (Option β × σ)) (body : τ → β → τ × Bool) :
    Nat → σ → τ → Option (Except ε (σ × τ × Option β))
  | 0, _, _ => none
  | fuel + 1, s, t =>
      match next s with
      | .error e => some (.error e)
      | .ok (none, s') => some (.ok (s', t, none))
      | .ok (some x, s') =>
          let r := body t x
          if r.2 then some (.ok (s', r.1, some x)) else takeUntil next body fuel s' r.1

/-- The same on a list. -/
def firstOf (body : τ → β → τ × Bool) : List β → τ → τ × Option β
  | [], t => (t, none)
  | x :: items, t =>
      let r := body t x
      if r.2 then (r.1, some x) else firstOf body items r.1

variable (body) in
/-- **The consumer searches the list of the items.** -/
theorem Yields.takeUntil_eq {s s' : σ} {items : List β} (h : Yields next s items s') :
    ∀ {fuel : Nat}, items.length < fuel → ∀ t : τ, ∃ s'',
      takeUntil next body fuel s t =
        some (.ok (s'', (firstOf body items t).1, (firstOf body items t).2)) := by
  induction h with
  | done hnext =>
      intro fuel hfuel t
      obtain ⟨fuel, rfl⟩ := Nat.exists_eq_succ_of_ne_zero (Nat.ne_of_gt hfuel)
      exact ⟨_, by rw [takeUntil, hnext]; rfl⟩
  | @item s t' s' x items hnext hrest ih =>
      intro fuel hfuel t
      obtain ⟨fuel, rfl⟩ := Nat.exists_eq_succ_of_ne_zero (Nat.ne_of_gt (Nat.zero_lt_of_lt hfuel))
      rw [takeUntil, hnext]
      dsimp only [firstOf]
      split
      · exact ⟨_, rfl⟩
      · exact ih (Nat.lt_of_succ_lt_succ hfuel) _

end Framework
