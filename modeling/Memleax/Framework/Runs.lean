import Mathlib.Order.Basic

/-!
# Runs of a state machine

A machine is a step function from a state and an input to the next state. Two
things are said about a run: a property of every state it passes through
(`Throughout`), and a condition on every step, judged in the state before it
(`Along`). When one step keeps the property exactly if it meets the condition,
a run keeps the property exactly if all its steps meet the condition
(`throughout_iff_along`).

A machine whose inputs are not always enabled has a partial step function. Its
states are those that allowed inputs lead to (`Reachable`); a layer of
bookkeeping over a machine reaches no state that the machine alone does not
(`Reachable.project`).
-/

namespace Framework

variable {σ α : Type*} (step : σ → α → σ)

/-- `good` holds in every state of the run, the first one included. -/
def Throughout (good : σ → Prop) : σ → List α → Prop
  | s, [] => good s
  | s, a :: as => good s ∧ Throughout good (step s a) as

/-- `ok` holds of every step of the run, in the state before it. -/
def Along (ok : σ → α → Prop) : σ → List α → Prop
  | _, [] => True
  | s, a :: as => ok s a ∧ Along ok (step s a) as

variable {step} {good inv : σ → Prop} {ok : σ → α → Prop}

theorem Throughout.head {s : σ} {as : List α} (h : Throughout step good s as) : good s := by
  cases as with
  | nil => exact h
  | cons a as => exact h.1

/-- The last state of a run is one of its states. -/
theorem Throughout.last {s : σ} {as : List α} (h : Throughout step good s as) :
    good (as.foldl step s) := by
  induction as generalizing s with
  | nil => exact h
  | cons a as ih => exact ih h.2

theorem Throughout.imp {good' : σ → Prop} (himp : ∀ s, good s → good' s) {s : σ} {as : List α}
    (h : Throughout step good s as) : Throughout step good' s as := by
  induction as generalizing s with
  | nil => exact himp s h
  | cons a as ih => exact ⟨himp s h.1, ih h.2⟩

/-- Two runs, one after the other. -/
theorem Throughout.append {s : σ} {as bs : List α} (h : Throughout step good s as)
    (h' : Throughout step good (as.foldl step s) bs) : Throughout step good s (as ++ bs) := by
  induction as generalizing s with
  | nil => exact h'
  | cons a as ih => exact ⟨h.1, ih h.2 h'⟩

/-- A condition that holds of every step in every state. -/
theorem along_of_forall (h : ∀ s a, ok s a) (s : σ) (as : List α) : Along step ok s as := by
  induction as generalizing s with
  | nil => trivial
  | cons a as ih => exact ⟨h s a, ih _⟩

instance instDecidableAlong [∀ s a, Decidable (ok s a)] :
    (s : σ) → (as : List α) → Decidable (Along step ok s as)
  | _, [] => isTrue trivial
  | s, a :: as =>
      haveI := instDecidableAlong (step s a) as
      inferInstanceAs (Decidable (ok s a ∧ Along step ok (step s a) as))

theorem along_append_single (s : σ)
    (as : List α) (a : α) :
    Along step ok s (as ++ [a]) ↔ Along step ok s as ∧ ok (as.foldl step s) a := by
  induction as generalizing s with
  | nil => simp [Along]
  | cons x as ih => simp [Along, ih, and_assoc]

/-- **The exact condition of a property of runs.** The steps are of a kind
`pre`, under which `inv` is kept as long as the property holds, and a step
keeps the property exactly if it meets the condition `ok`. -/
theorem throughout_iff_along {pre : σ → α → Prop}
    (hinv : ∀ s a, pre s a → inv s → good s → inv (step s a))
    (hstep : ∀ s a, pre s a → inv s → good s → (good (step s a) ↔ ok s a)) {s : σ}
    {as : List α} (hpre : Along step pre s as) (hi : inv s) (hs : good s) :
    Throughout step good s as ↔ Along step ok s as := by
  induction as generalizing s with
  | nil => exact ⟨fun _ => trivial, fun _ => hs⟩
  | cons a as ih =>
      obtain ⟨ha, hpre⟩ := hpre
      have hi' := hinv s a ha hi hs
      constructor
      · rintro ⟨-, h⟩
        exact ⟨(hstep s a ha hi hs).mp h.head, (ih hpre hi' h.head).mp h⟩
      · rintro ⟨hok, h⟩
        have hs' := (hstep s a ha hi hs).mpr hok
        exact ⟨hs, (ih hpre hi' hs').mpr h⟩

/-! ## Partial steps -/

section Partial

variable {τ β : Type*} {next : σ → α → Option σ} {allowed : σ → α → Prop}

/-- The states that allowed and enabled inputs lead to. -/
inductive Reachable (next : σ → α → Option σ) (allowed : σ → α → Prop) (s₀ : σ) : σ → Prop
  | start : Reachable next allowed s₀ s₀
  | step {s s' : σ} {a : α} (h : Reachable next allowed s₀ s) (hok : allowed s a)
      (hnext : next s a = some s') : Reachable next allowed s₀ s'

/-- What the first state has and allowed steps keep holds in every reachable
state. -/
theorem Reachable.invariant (P : σ → Prop) {s₀ s : σ} (h : Reachable next allowed s₀ s)
    (h₀ : P s₀) (hstep : ∀ s a s', P s → allowed s a → next s a = some s' → P s') : P s := by
  induction h with
  | start => exact h₀
  | step _ hok hnext ih => exact hstep _ _ _ ih hok hnext

/-- An invariant on top of what is known of all reachable states. -/
theorem Reachable.invariant_of (P : σ → Prop) {Q : σ → Prop} {s₀ s : σ}
    (h : Reachable next allowed s₀ s) (hQ : ∀ {s}, Reachable next allowed s₀ s → Q s) (h₀ : P s₀)
    (hstep : ∀ s a s', Q s → Q s' → P s → allowed s a → next s a = some s' → P s') : P s := by
  induction h with
  | start => exact h₀
  | step h hok hnext ih => exact hstep _ _ _ (hQ h) (hQ (h.step hok hnext)) ih hok hnext

/-- A weaker condition allows more. -/
theorem Reachable.mono {allowed' : σ → α → Prop} (hallowed : ∀ s a, allowed s a → allowed' s a)
    {s₀ s : σ} (h : Reachable next allowed s₀ s) : Reachable next allowed' s₀ s := by
  induction h with
  | start => exact .start
  | step _ hok hnext ih => exact ih.step (hallowed _ _ hok) hnext

/-- Two runs, one after the other. -/
theorem Reachable.trans {s₀ s s' : σ} (h : Reachable next allowed s₀ s)
    (h' : Reachable next allowed s s') : Reachable next allowed s₀ s' := by
  induction h' with
  | start => exact h
  | step _ hok hnext ih => exact ih.step hok hnext

/-- Bookkeeping on top of a machine does not reach more of the machine. -/
theorem Reachable.project {next' : τ → β → Option τ} {allowed' : τ → β → Prop} (f : τ → σ)
    (hsim : ∀ t b t', allowed' t b → next' t b = some t' →
      ∃ a, allowed (f t) a ∧ next (f t) a = some (f t'))
    {t₀ t : τ} (h : Reachable next' allowed' t₀ t) : Reachable next allowed (f t₀) (f t) := by
  induction h with
  | start => exact .start
  | step _ hok hnext ih =>
      obtain ⟨a, ha, hstep⟩ := hsim _ _ _ hok hnext
      exact ih.step ha hstep

/-- **Forward simulation.** Where every step is matched by steps of another
machine, every reachable state is matched by a reachable one. -/
theorem Reachable.simulate {next' : τ → β → Option τ} {allowed' : τ → β → Prop} {R : σ → τ → Prop}
    (hstep : ∀ s a s' t, R s t → allowed s a → next s a = some s' →
      ∃ t', Reachable next' allowed' t t' ∧ R s' t')
    {s₀ s : σ} {t₀ : τ} (h : Reachable next allowed s₀ s) (h₀ : R s₀ t₀) :
    ∃ t, Reachable next' allowed' t₀ t ∧ R s t := by
  induction h with
  | start => exact ⟨t₀, .start, h₀⟩
  | step _ hok hnext ih =>
      obtain ⟨t, ht, hR⟩ := ih
      obtain ⟨t', ht', hR'⟩ := hstep _ _ _ t hR hok hnext
      exact ⟨t', ht.trans ht', hR'⟩

/-- Feed a list of inputs, as long as they are allowed and enabled. -/
def feed (next : σ → α → Option σ) (allowed : σ → α → Prop) [∀ s a, Decidable (allowed s a)] :
    σ → List α → Option σ
  | s, [] => some s
  | s, a :: as => if allowed s a then (next s a).bind (feed next allowed · as) else none

theorem Reachable.feed [∀ s a, Decidable (allowed s a)] {s₀ s s' : σ} {as : List α}
    (h : Reachable next allowed s₀ s) (hf : feed next allowed s as = some s') :
    Reachable next allowed s₀ s' := by
  induction as generalizing s with
  | nil => exact Option.some.inj hf ▸ h
  | cons a as ih =>
      unfold Framework.feed at hf
      split at hf
      · rename_i hok
        obtain ⟨t, ht, hf⟩ := Option.bind_eq_some_iff.mp hf
        exact ih (h.step hok ht) hf
      · cases hf

/-- A run that has been carried out, from a beginning that may fail, with what
is observed at its end. -/
theorem Reachable.exists_of_run [∀ s a, Decidable (allowed s a)] {ρ ω : Type*}
    {first : Option ρ} {start : ρ → σ} {as : List α} {observe : σ → ω} {o : ω}
    (h : (first.bind fun r => (Framework.feed next allowed (start r) as).map observe) = some o) :
    ∃ r s, first = some r ∧ Reachable next allowed (start r) s ∧ observe s = o := by
  obtain ⟨r, hbegin, h⟩ := Option.bind_eq_some_iff.mp h
  obtain ⟨s, hfeed, ho⟩ := Option.map_eq_some_iff.mp h
  exact ⟨r, s, hbegin, Reachable.start.feed hfeed, ho⟩

/-- The same for a run whose second stretch is under another condition. -/
theorem Reachable.exists_of_stretches {allowed' : σ → α → Prop} [∀ s a, Decidable (allowed s a)]
    [∀ s a, Decidable (allowed' s a)] {ρ ω : Type*} {first : Option ρ} {start : ρ → σ}
    {as bs : List α} {observe : σ → σ → ω} {o : ω}
    (h : (first.bind fun r => (Framework.feed next allowed (start r) as).bind fun s =>
      (Framework.feed next allowed' s bs).map (observe s)) = some o) :
    ∃ r s s', first = some r ∧ Reachable next allowed (start r) s ∧
      Reachable next allowed' s s' ∧ observe s s' = o := by
  obtain ⟨r, hbegin, h⟩ := Option.bind_eq_some_iff.mp h
  obtain ⟨s, hfeed, h⟩ := Option.bind_eq_some_iff.mp h
  obtain ⟨s', hfeed', ho⟩ := Option.map_eq_some_iff.mp h
  exact ⟨r, s, s', hbegin, Reachable.start.feed hfeed, Reachable.start.feed hfeed', ho⟩

end Partial

end Framework
