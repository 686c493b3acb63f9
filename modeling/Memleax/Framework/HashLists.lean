import Memleax.Framework.Chains

/-!
# Doubly linked lists with a single pointer list head

The `hlist` of the Linux kernel, on the pointers: a node points to the next node
and to the place that points to it, which is the head of a chain or the `next` of
another node. Such a place is a `Cell`. A pointer can be null and a node can be
gone: the operations are partial, and fail where a null pointer would be followed
or a node touched that is not `valid`.

`Strung s c l` says that the pointers lead from the cell `c` through the nodes
`l`, and back; `Threaded s h` that they do so for every chain of the table `h`.
Under it the operations are those on the table (`Threaded.hlistAddHead`,
`Threaded.hlistDel`) and a walk sees its chain (`Strung.walk`).
-/

namespace Framework

/-- A place that holds a pointer to a node. -/
inductive Cell (ν : Type*) where
  | first (slot : Nat)
  | next (n : ν)
deriving DecidableEq

/-- The node that the cell is part of, if any, is valid. -/
def Cell.within {ν : Type*} (valid : ν → Bool) : Cell ν → Bool
  | .first _ => true
  | .next n => valid n

theorem Cell.next_ne_first {ν : Type*} (n : ν) (k : Nat) : Cell.next n ≠ .first k := nofun

/-- `struct hlist_head` of every slot and `struct hlist_node` of every node. -/
structure HLinks (ν : Type*) where
  load : Cell ν → Option ν
  pprev : ν → Option (Cell ν)

namespace HLinks

variable {ν : Type*} [DecidableEq ν]

def store (s : HLinks ν) (c : Cell ν) (p : Option ν) : HLinks ν :=
  { s with load := Function.update s.load c p }

def setPprev (s : HLinks ν) (n : ν) (c : Option (Cell ν)) : HLinks ν :=
  { s with pprev := Function.update s.pprev n c }

/-- `if (p) p->pprev = c`. -/
def backTo (s : HLinks ν) (p : Option ν) (c : Cell ν) : HLinks ν :=
  match p with
  | none => s
  | some n => s.setPprev n (some c)

/-- Zeroed heads and nodes. -/
def init : HLinks ν := ⟨fun _ => none, fun _ => none⟩

/-- The writes of `hlist_add_head`. -/
def hook (s : HLinks ν) (n : ν) (slot : Nat) : HLinks ν :=
  let first := s.load (.first slot)
  let s := s.store (.next n) first
  let s := s.backTo first (.next n)
  let s := s.store (.first slot) (some n)
  s.setPprev n (some (.first slot))

def hlistAddHead (s : HLinks ν) (valid : ν → Bool) (n : ν) (slot : Nat) : Option (HLinks ν) :=
  if valid n && (s.load (.first slot)).all valid then some (s.hook n slot) else none

/-- `__hlist_del`, with the pointers of the node itself set to null. -/
def unhook (s : HLinks ν) (pprev : Cell ν) (n : ν) : HLinks ν :=
  let next := s.load (.next n)
  let s := s.store pprev next
  let s := s.backTo next pprev
  (s.store (.next n) none).setPprev n none

def hlistDel (s : HLinks ν) (valid : ν → Bool) (n : ν) : Option (HLinks ν) :=
  (s.pprev n).bind fun pprev =>
    if valid n && pprev.within valid && (s.load (.next n)).all valid then some (s.unhook pprev n)
    else none

/-- `hlist_for_each` up to the first node that `hit` accepts, in at most `fuel`
rounds. `hit` fails on a node that cannot be read. -/
def walk (s : HLinks ν) (hit : ν → Option Bool) : Nat → Option ν → Option (Option ν)
  | 0, _ => none
  | _ + 1, none => some none
  | fuel + 1, some n =>
      (hit n).bind fun found =>
        if found then some (some n) else s.walk hit fuel (s.load (.next n))

end HLinks

/-! ## Chains -/

/-- The pointers lead from the cell `c` through the nodes of `l` and no further,
and every node points back to the cell before it. -/
def Strung {ν : Type*} (s : HLinks ν) : Cell ν → List ν → Prop
  | c, [] => s.load c = none
  | c, n :: l => s.load c = some n ∧ s.pprev n = some c ∧ Strung s (.next n) l

/-- The pointers are those of the chains `h`, and no node is on two of them. -/
structure Threaded {ν : Type*} (s : HLinks ν) (h : Chains ν) : Prop where
  strung : ∀ k, Strung s (.first k) (h k)
  nodup : ∀ k, (h k).Nodup
  apart : ∀ j k n, n ∈ h j → n ∈ h k → j = k

section Chains

variable {ν : Type*} {s s' : HLinks ν} {c : Cell ν} {l : List ν} {n : ν}

theorem Strung.load_eq (h : Strung s c l) : s.load c = l.head? := by
  cases l with
  | nil => exact h
  | cons n l => exact h.1

/-- A chain only depends on its first cell and on the pointers of its own nodes. -/
theorem Strung.congr (h : Strung s c l) (hload : s'.load c = s.load c)
    (hnext : ∀ n ∈ l, s'.load (.next n) = s.load (.next n))
    (hpprev : ∀ n ∈ l, s'.pprev n = s.pprev n) : Strung s' c l := by
  induction l generalizing c with
  | nil =>
      show s'.load c = none
      rw [hload]
      exact h
  | cons n l ih =>
      rcases h with ⟨hc, hn, hl⟩
      rw [List.forall_mem_cons] at hnext hpprev
      refine ⟨?_, ?_, ih hl hnext.1 hnext.2 hpprev.2⟩
      · rw [hload, hc]
      · rw [hpprev.1, hn]

/-- The part of a chain behind one of its nodes. -/
theorem Strung.behind {l₁ l₂ : List ν} (h : Strung s c (l₁ ++ n :: l₂)) :
    Strung s (.next n) l₂ := by
  induction l₁ generalizing c with
  | nil => exact h.2.2
  | cons m l₁ ih => exact ih h.2.2

theorem some_ne_head?_of_mem_tail (hl : l.Nodup) (hn : n ∈ l.tail) : some n ≠ l.head? := by
  cases l with
  | nil => simp at hn
  | cons m l =>
      intro heq
      exact (List.nodup_cons.mp hl).1 (Option.some.inj heq ▸ hn)

/-- A chain whose first node is now pointed to by another cell. -/
theorem Strung.move {c' : Cell ν} (h : Strung s c l) (hload : s'.load c' = s.load c)
    (hfirst : ∀ n, s.load c = some n → s'.pprev n = some c')
    (hnext : ∀ n ∈ l, s'.load (.next n) = s.load (.next n))
    (hpprev : ∀ n ∈ l.tail, s'.pprev n = s.pprev n) : Strung s' c' l := by
  cases l with
  | nil =>
      show s'.load c' = none
      rw [hload]
      exact h
  | cons n l =>
      rcases h with ⟨hc, -, hl⟩
      rw [List.forall_mem_cons] at hnext
      refine ⟨?_, hfirst n hc, hl.congr hnext.1 hnext.2 hpprev⟩
      rw [hload, hc]

theorem Threaded.init : Threaded (HLinks.init (ν := ν)) fun _ => [] :=
  ⟨fun _ => rfl, by simp, by simp⟩

/-- **`hlist_for_each`** up to a match ends at the first match of the chain. The
nodes stand for the `xs`, on which a match is a test that cannot fail. -/
theorem Strung.walk {α : Type*} {f : α → ν} {xs : List α} {hit : ν → Option Bool}
    {hit' : α → Bool} (h : Strung s c (xs.map f)) (hhit : ∀ x ∈ xs, hit (f x) = some (hit' x)) :
    ∀ {fuel : Nat}, xs.length < fuel →
      s.walk hit fuel (s.load c) = some ((xs.find? hit').map f) := by
  induction xs generalizing c with
  | nil =>
      intro fuel hfuel
      obtain ⟨fuel, rfl⟩ := Nat.exists_eq_succ_of_ne_zero (Nat.ne_of_gt hfuel)
      rw [h.load_eq]
      rfl
  | cons x xs ih =>
      intro fuel hfuel
      obtain ⟨fuel, rfl⟩ := Nat.exists_eq_succ_of_ne_zero (Nat.ne_of_gt (Nat.zero_lt_of_lt hfuel))
      rw [List.forall_mem_cons] at hhit
      rw [h.load_eq, List.map_cons, List.head?_cons, HLinks.walk, hhit.1, Option.bind_some,
        List.find?_cons]
      cases hit' x with
      | true => rfl
      | false => exact ih h.2.2 hhit.2 (Nat.lt_of_succ_lt_succ hfuel)

variable [DecidableEq ν]

/-! ## Pointers after an operation -/

theorem HLinks.backTo_load (s : HLinks ν) (p : Option ν) (c c' : Cell ν) :
    (s.backTo p c).load c' = s.load c' := by
  cases p <;> rfl

theorem HLinks.backTo_pprev (s : HLinks ν) (p : Option ν) (c : Cell ν) (n : ν) :
    (s.backTo p c).pprev n = if some n = p then some c else s.pprev n := by
  cases p with
  | none => simp [HLinks.backTo]
  | some m => simp [HLinks.backTo, HLinks.setPprev, Function.update_apply]

theorem HLinks.hook_load (s : HLinks ν) (n : ν) (k : Nat) (c : Cell ν) :
    (s.hook n k).load c =
      if c = .first k then some n else if c = .next n then s.load (.first k) else s.load c := by
  simp only [HLinks.hook, HLinks.setPprev, HLinks.store, HLinks.backTo_load,
    Function.update_apply]

theorem HLinks.hook_pprev (s : HLinks ν) (n : ν) (k : Nat) (m : ν) :
    (s.hook n k).pprev m =
      if m = n then some (.first k)
      else if some m = s.load (.first k) then some (.next n) else s.pprev m := by
  simp only [HLinks.hook, HLinks.setPprev, HLinks.store, HLinks.backTo_pprev,
    Function.update_apply]

theorem HLinks.unhook_load (s : HLinks ν) (p : Cell ν) (n : ν) (c : Cell ν) :
    (s.unhook p n).load c =
      if c = .next n then none else if c = p then s.load (.next n) else s.load c := by
  simp only [HLinks.unhook, HLinks.setPprev, HLinks.store, HLinks.backTo_load,
    Function.update_apply]

theorem HLinks.unhook_pprev (s : HLinks ν) (p : Cell ν) (n m : ν) :
    (s.unhook p n).pprev m =
      if m = n then none
      else if some m = s.load (.next n) then some p else s.pprev m := by
  simp only [HLinks.unhook, HLinks.setPprev, HLinks.store, HLinks.backTo_pprev,
    Function.update_apply]

/-! ## Adding a node -/

/-- A chain that the new node is not put on. -/
theorem Strung.hook_other {k : Nat} (h : Strung s c l) (hn : n ∉ l) (hc : c ≠ .first k)
    (hcn : c ≠ .next n) (hfirst : ∀ m ∈ l, s.load (.first k) ≠ some m) :
    Strung (s.hook n k) c l := by
  have hne : ∀ m ∈ l, m ≠ n := by
    rintro m hm rfl
    exact hn hm
  apply h.congr
  · rw [HLinks.hook_load, if_neg hc, if_neg hcn]
  · intro m hm
    rw [HLinks.hook_load, if_neg (Cell.next_ne_first _ _), if_neg]
    intro heq
    exact hne m hm (Cell.next.inj heq)
  · intro m hm
    rw [HLinks.hook_pprev, if_neg (hne m hm), if_neg (hfirst m hm).symm]

theorem Threaded.hook {t : Chains ν} (h : Threaded s t) (hn : ∀ k, n ∉ t k) (k : Nat) :
    Threaded (s.hook n k) (t.pushHead k n) := by
  have hself : t.pushHead k n k = n :: t k := Function.update_self _ _ _
  have hother : ∀ j, j ≠ k → t.pushHead k n j = t j := fun j hj => Function.update_of_ne hj _ _
  refine ⟨?_, ?_, ?_⟩
  · intro j
    by_cases hj : j = k
    · subst hj
      rw [hself]
      refine ⟨?_, ?_, (h.strung j).move ?_ ?_ ?_ ?_⟩
      · rw [HLinks.hook_load, if_pos rfl]
      · rw [HLinks.hook_pprev, if_pos rfl]
      · rw [HLinks.hook_load, if_neg (Cell.next_ne_first _ _), if_pos rfl]
      · intro m hm
        have hmem : m ∈ t j := by
          rw [(h.strung j).load_eq] at hm
          exact List.mem_of_mem_head? hm
        have hmn : m ≠ n := by
          rintro rfl
          exact hn j hmem
        rw [HLinks.hook_pprev, if_neg hmn, if_pos hm.symm]
      · intro m hm
        rw [HLinks.hook_load, if_neg (Cell.next_ne_first _ _), if_neg]
        intro heq
        exact hn j (Cell.next.inj heq ▸ hm)
      · -- behind the first node nothing has changed
        intro m hm
        have hmn : m ≠ n := by
          rintro rfl
          exact hn j (List.mem_of_mem_tail hm)
        have hnotfirst := some_ne_head?_of_mem_tail (h.nodup j) hm
        rw [← (h.strung j).load_eq] at hnotfirst
        rw [HLinks.hook_pprev, if_neg hmn, if_neg hnotfirst]
    · rw [hother j hj]
      apply (h.strung j).hook_other (hn j)
      · intro heq
        exact hj (Cell.first.inj heq)
      · exact (Cell.next_ne_first n j).symm
      · intro m hm heq
        rw [(h.strung k).load_eq] at heq
        exact hj (h.apart j k m hm (List.mem_of_mem_head? heq))
  · intro j
    by_cases hj : j = k
    · subst hj
      rw [hself]
      exact List.nodup_cons.mpr ⟨hn j, h.nodup j⟩
    · rw [hother j hj]
      exact h.nodup j
  · intro i j m hi hj
    rcases Chains.mem_pushHead.mp hi with ⟨rfl, rfl⟩ | hi <;>
      rcases Chains.mem_pushHead.mp hj with ⟨hm, hj⟩ | hj
    · exact hj.symm
    · exact absurd hj (hn j)
    · exact absurd (hm ▸ hi) (hn i)
    · exact h.apart i j m hi hj

/-- **`hlist_add_head`** pushes a new node on the chain of its slot. -/
theorem Threaded.hlistAddHead {t : Chains ν} (h : Threaded s t) (valid : ν → Bool)
    (hn : ∀ k, n ∉ t k) (hvalid : valid n = true) (k : Nat) (hchain : ∀ m ∈ t k, valid m = true) :
    ∃ s', s.hlistAddHead valid n k = some s' ∧ Threaded s' (t.pushHead k n) := by
  have hfirst : (s.load (.first k)).all valid = true := by
    rw [(h.strung k).load_eq, Option.all_eq_true]
    intro m hm
    exact hchain m (List.mem_of_mem_head? hm)
  refine ⟨s.hook n k, ?_, h.hook hn k⟩
  rw [HLinks.hlistAddHead, hvalid, hfirst]
  rfl

/-! ## Taking a node out -/

/-- The chain of the node itself. The node is pointed to by the first cell, or
by the `next` of a node before it. -/
theorem Strung.unhook {l₁ l₂ : List ν} (h : Strung s c (l₁ ++ n :: l₂))
    (hnodup : (l₁ ++ n :: l₂).Nodup) (hc : ∀ m ∈ l₁ ++ n :: l₂, c ≠ .next m) :
    ∃ p, s.pprev n = some p ∧ (p = c ∨ ∃ m ∈ l₁, p = .next m) ∧
      Strung (s.unhook p n) c (l₁ ++ l₂) := by
  induction l₁ generalizing c with
  | nil =>
      rcases h with ⟨-, hpprev, hl⟩
      obtain ⟨hn, hnodup⟩ := List.nodup_cons.mp hnodup
      have hcn : c ≠ .next n := hc n List.mem_cons_self
      refine ⟨c, hpprev, Or.inl rfl, hl.move ?_ ?_ ?_ ?_⟩
      · rw [HLinks.unhook_load, if_neg hcn, if_pos rfl]
      · intro m hm
        have hmem : m ∈ l₂ := by
          rw [hl.load_eq] at hm
          exact List.mem_of_mem_head? hm
        have hmn : m ≠ n := by
          rintro rfl
          exact hn hmem
        rw [HLinks.unhook_pprev, if_neg hmn, if_pos hm.symm]
      · intro m hm
        rw [HLinks.unhook_load, if_neg, if_neg (hc m (List.mem_cons_of_mem _ hm)).symm]
        intro heq
        exact hn (Cell.next.inj heq ▸ hm)
      · intro m hm
        have hmn : m ≠ n := by
          rintro rfl
          exact hn (List.mem_of_mem_tail hm)
        have hnotfirst := some_ne_head?_of_mem_tail hnodup hm
        rw [← hl.load_eq] at hnotfirst
        rw [HLinks.unhook_pprev, if_neg hmn, if_neg hnotfirst]
  | cons m l₁ ih =>
      rcases h with ⟨hload, hback, hl⟩
      rw [List.cons_append, List.nodup_cons] at hnodup
      have hm : ∀ x ∈ l₁ ++ n :: l₂, Cell.next m ≠ .next x := by
        intro x hx heq
        exact hnodup.1 (Cell.next.inj heq ▸ hx)
      obtain ⟨p, hp, hwhere, hstrung⟩ := ih hl hnodup.2 hm
      have hpc : c ≠ p := by
        rcases hwhere with rfl | ⟨x, hx, rfl⟩
        · exact hc m List.mem_cons_self
        · exact hc x (List.mem_cons_of_mem _ (List.mem_append_left _ hx))
      have hcn : c ≠ .next n := hc n (by simp)
      have hmn : m ≠ n := by
        rintro rfl
        exact hm m (by simp) rfl
      refine ⟨p, hp, Or.inr ?_, ?_, ?_, hstrung⟩
      · rcases hwhere with rfl | ⟨x, hx, rfl⟩
        · exact ⟨m, List.mem_cons_self, rfl⟩
        · exact ⟨x, List.mem_cons_of_mem _ hx, rfl⟩
      · rw [HLinks.unhook_load, if_neg hcn, if_neg hpc, hload]
      · -- the node behind `n` is further down the chain than `m`
        have hnext : some m ≠ s.load (.next n) := by
          rw [hl.behind.load_eq]
          intro heq
          have hmem := List.mem_of_mem_head? heq.symm
          exact hm m (List.mem_append_right _ (List.mem_cons_of_mem _ hmem)) rfl
        rw [HLinks.unhook_pprev, if_neg hmn, if_neg hnext, hback]

/-- A chain that the node is not on. -/
theorem Strung.unhook_other {p : Cell ν} (h : Strung s c l) (hn : n ∉ l) (hcn : c ≠ .next n)
    (hcp : c ≠ p) (hp : ∀ m ∈ l, p ≠ .next m) (hnext : ∀ m ∈ l, s.load (.next n) ≠ some m) :
    Strung (s.unhook p n) c l := by
  have hne : ∀ m ∈ l, m ≠ n := by
    rintro m hm rfl
    exact hn hm
  apply h.congr
  · rw [HLinks.unhook_load, if_neg hcn, if_neg hcp]
  · intro m hm
    rw [HLinks.unhook_load, if_neg, if_neg (hp m hm).symm]
    intro heq
    exact hne m hm (Cell.next.inj heq)
  · intro m hm
    rw [HLinks.unhook_pprev, if_neg (hne m hm), if_neg (hnext m hm).symm]

/-- The cell written through is the head of the chain or part of a node on it;
the node behind is on it too. -/
theorem Threaded.unhook {t : Chains ν} {k : Nat} (h : Threaded s t) (hn : n ∈ t k) :
    ∃ p, s.pprev n = some p ∧ (p = .first k ∨ ∃ m ∈ t k, p = .next m) ∧
      (∀ m, s.load (.next n) = some m → m ∈ t k) ∧ Threaded (s.unhook p n) (t.unlink n) := by
  obtain ⟨l₁, l₂, hk⟩ := List.append_of_mem hn
  have hstrung := h.strung k
  have hnodup := h.nodup k
  rw [hk] at hstrung hnodup
  rcases hstrung.unhook hnodup fun m _ => (Cell.next_ne_first m k).symm with ⟨p, hp, hwhere, hdel⟩
  have hbehind : ∀ m, s.load (.next n) = some m → m ∈ t k := by
    intro m hm
    rw [hstrung.behind.load_eq] at hm
    rw [hk]
    exact List.mem_append_right _ (List.mem_cons_of_mem _ (List.mem_of_mem_head? hm))
  have hwhere' : p = .first k ∨ ∃ m ∈ t k, p = .next m := by
    rcases hwhere with hfirst | ⟨m, hm, hnext⟩
    · exact Or.inl hfirst
    · rw [hk]
      exact Or.inr ⟨m, List.mem_append_left _ hm, hnext⟩
  refine ⟨p, hp, hwhere', hbehind, ?_, ?_, ?_⟩
  · intro j
    by_cases hj : j = k
    · subst hj
      have hunlink : t.unlink n j = l₁ ++ l₂ := by
        have hl₁ : n ∉ l₁ := by
          intro hmem
          exact (List.nodup_append.mp hnodup).2.2 n hmem n List.mem_cons_self rfl
        rw [Chains.unlink, hk, List.erase_append_right _ hl₁, List.erase_cons_head]
      rw [hunlink]
      exact hdel
    · have hnj : n ∉ t j := fun hmem => hj (h.apart j k n hmem hn)
      rw [Chains.unlink, List.erase_of_not_mem hnj]
      apply (h.strung j).unhook_other hnj (Cell.next_ne_first n j).symm
      · rcases hwhere' with rfl | ⟨m, _, rfl⟩
        · intro heq
          exact hj (Cell.first.inj heq)
        · exact (Cell.next_ne_first m j).symm
      · intro m hm
        rcases hwhere' with rfl | ⟨x, hx, rfl⟩
        · exact (Cell.next_ne_first m k).symm
        · intro heq
          exact hj (h.apart j k m hm (Cell.next.inj heq ▸ hx))
      · intro m hm heq
        exact hj (h.apart j k m hm (hbehind m heq))
  · intro j
    exact (h.nodup j).sublist List.erase_sublist
  · intro i j m hi hj
    exact h.apart i j m (List.mem_of_mem_erase hi) (List.mem_of_mem_erase hj)

/-- **`hlist_del`** takes a node out of its chain. -/
theorem Threaded.hlistDel {t : Chains ν} {k : Nat} (h : Threaded s t) (valid : ν → Bool)
    (hn : n ∈ t k) (hchain : ∀ m ∈ t k, valid m = true) :
    ∃ s', s.hlistDel valid n = some s' ∧ Threaded s' (t.unlink n) := by
  rcases h.unhook hn with ⟨p, hp, hwhere, hbehind, hthreaded⟩
  have hcell : p.within valid = true := by
    rcases hwhere with rfl | ⟨m, hm, rfl⟩
    · rfl
    · exact hchain m hm
  have hnext : (s.load (.next n)).all valid = true := by
    rw [Option.all_eq_true]
    intro m hm
    exact hchain m (hbehind m hm)
  refine ⟨s.unhook p n, ?_, hthreaded⟩
  rw [HLinks.hlistDel, hp, Option.bind_some, hchain n hn, hcell, hnext]
  rfl

end Chains

end Framework
