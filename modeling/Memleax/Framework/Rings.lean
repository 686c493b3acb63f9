import Mathlib.Data.List.Chain
import Mathlib.Data.List.Nodup
import Mathlib.Logic.Function.Basic

/-!
# Circular doubly linked lists

Nodes carry a pointer to the next and one to the previous node; the list begins
and ends at a node of its own, the head. The operations are those of the Linux
kernel's `list.h`, on the pointers. A pointer can be null, and the operations
are partial: they fail where a null pointer would be followed.

`Circular s head l` says that the pointers link `head` and the nodes `l`, in this
order, each once. Under it the operations are those on the list `l`
(`Circular.listAdd`, `Circular.listDel`), and a walk sees `l` (`Circular.walkUntil`).
-/

namespace Framework

/-- `struct list_head` of every node; `none` is a null pointer. -/
structure Links (ν : Type*) where
  next : ν → Option ν
  prev : ν → Option ν

namespace Links

variable {ν : Type*} [DecidableEq ν]

def setNext (s : Links ν) (n : ν) (p : Option ν) : Links ν :=
  { s with next := Function.update s.next n p }

def setPrev (s : Links ν) (n : ν) (p : Option ν) : Links ν :=
  { s with prev := Function.update s.prev n p }

/-- `LIST_HEAD_INIT`, with all other nodes zeroed. -/
def init (head : ν) : Links ν where
  next := Function.update (fun _ => none) head (some head)
  prev := Function.update (fun _ => none) head (some head)

/-- `__list_add` -/
def insert (s : Links ν) (n prev next : ν) : Links ν :=
  (((s.setPrev next (some n)).setNext n (some next)).setPrev n (some prev)).setNext prev (some n)

def listAdd (s : Links ν) (n head : ν) : Option (Links ν) :=
  (s.next head).map fun next => s.insert n head next

/-- `__list_del`, with the pointers of the node itself set to null. -/
def without (s : Links ν) (prev entry next : ν) : Links ν :=
  (((s.setPrev next (some prev)).setNext prev (some next)).setNext entry none).setPrev entry none

def listDel (s : Links ν) (entry : ν) : Option (Links ν) :=
  (s.prev entry).bind fun prev => (s.next entry).map fun next => s.without prev entry next

/-! Where nodes come and go, an operation also fails at a node that is not `valid`. -/

def listAddTailIn (s : Links ν) (valid : ν → Bool) (n head : ν) : Option (Links ν) :=
  (s.prev head).bind fun prev =>
    if valid n && valid prev && valid head then some (s.insert n prev head) else none

def listDelIn (s : Links ν) (valid : ν → Bool) (entry : ν) : Option (Links ν) :=
  (s.prev entry).bind fun prev => (s.next entry).bind fun next =>
    if valid entry && valid prev && valid next then some (s.without prev entry next) else none

theorem insert_next (s : Links ν) (n prev next x : ν) :
    (s.insert n prev next).next x =
      if x = prev then some n else if x = n then some next else s.next x := by
  simp only [insert, setNext, setPrev, Function.update_apply]

theorem insert_prev (s : Links ν) (n prev next y : ν) :
    (s.insert n prev next).prev y =
      if y = n then some prev else if y = next then some n else s.prev y := by
  simp only [insert, setNext, setPrev, Function.update_apply]

theorem without_next (s : Links ν) (prev entry next x : ν) :
    (s.without prev entry next).next x =
      if x = entry then none else if x = prev then some next else s.next x := by
  simp only [without, setNext, setPrev, Function.update_apply]

theorem without_prev (s : Links ν) (prev entry next y : ν) :
    (s.without prev entry next).prev y =
      if y = entry then none else if y = next then some prev else s.prev y := by
  simp only [without, setNext, setPrev, Function.update_apply]

def listEmpty (s : Links ν) (head : ν) : Bool := s.next head == some head

/-- `list_for_each` with a `break`, in at most `fuel` rounds: the node at which
the loop stops, or the last one. `sp` is the node of the round before. -/
def walkUntil (s : Links ν) (head : ν) (stop : ν → Bool) : Nat → ν → Option ν → Option ν
  | 0, _, _ => none
  | fuel + 1, p, sp =>
      if p = head then sp
      else if stop p then some p
      else (s.next p).bind fun next => s.walkUntil head stop fuel next (some p)

end Links

/-! ## Rings -/

/-- `y` follows `x`. -/
def Linked {ν : Type*} (s : Links ν) (x y : ν) : Prop := s.next x = some y ∧ s.prev y = some x

/-- The pointers link the head and the nodes of `l`, each once. -/
structure Circular {ν : Type*} (s : Links ν) (head : ν) (l : List ν) : Prop where
  linked : (head :: (l ++ [head])).IsChain (Linked s)
  nodup : (head :: l).Nodup

section Rings

variable {ν : Type*} {s s' : Links ν} {head n : ν} {l l₁ l₂ : List ν}

/-- Pointers that are the same along a chain. -/
theorem isChain_congr {l : List ν} (h : l.IsChain (Linked s))
    (hnext : ∀ x ∈ l.dropLast, s'.next x = s.next x) (hprev : ∀ y ∈ l.tail, s'.prev y = s.prev y) :
    l.IsChain (Linked s') := by
  induction l with
  | nil => exact List.IsChain.nil
  | cons x rest ih =>
      cases rest with
      | nil => exact List.IsChain.singleton x
      | cons y rest =>
          rw [List.isChain_cons_cons] at h ⊢
          rw [List.dropLast_cons_cons, List.forall_mem_cons] at hnext
          rw [List.tail_cons, List.forall_mem_cons] at hprev
          refine ⟨⟨?_, ?_⟩, ih h.2 hnext.2 ?_⟩
          · rw [hnext.1]
            exact h.1.1
          · rw [hprev.1]
            exact h.1.2
          · exact hprev.2

/-- The node behind the head. -/
theorem Circular.next_head (h : Circular s head l) : s.next head = some (l.head?.getD head) := by
  have hlinked := h.linked
  cases l with
  | nil =>
      rw [List.nil_append, List.isChain_cons_cons] at hlinked
      exact hlinked.1.1
  | cons x rest =>
      rw [List.cons_append, List.isChain_cons_cons] at hlinked
      exact hlinked.1.1

theorem getLast?_getD_mem (l : List ν) (head : ν) : l.getLast?.getD head ∈ head :: l := by
  cases hlast : l.getLast? with
  | none => exact List.mem_cons_self
  | some x => exact List.mem_cons_of_mem _ (List.mem_of_getLast? hlast)

/-- The first node of the way back to the head. -/
theorem exists_append_eq_cons (l : List ν) (head : ν) :
    ∃ rest, l ++ [head] = l.head?.getD head :: rest := by
  cases l with
  | nil => exact ⟨[], rfl⟩
  | cons x rest => exact ⟨rest ++ [head], rfl⟩

/-- A ring only depends on the pointers of its own nodes. -/
theorem Circular.congr (h : Circular s head l) (hnext : ∀ x ∈ head :: l, s'.next x = s.next x)
    (hprev : ∀ x ∈ head :: l, s'.prev x = s.prev x) : Circular s' head l := by
  refine ⟨isChain_congr h.linked ?_ ?_, h.nodup⟩
  · intro x hx
    rw [← List.cons_append, List.dropLast_concat] at hx
    exact hnext x hx
  · intro y hy
    rw [List.tail_cons] at hy
    apply hprev y
    rcases List.mem_append.mp hy with hy | hy
    · exact List.mem_cons_of_mem _ hy
    · rw [List.mem_singleton.mp hy]
      exact List.mem_cons_self

/-- The two pointers of every node exchanged. -/
def Links.flip {ν : Type*} (s : Links ν) : Links ν := ⟨s.prev, s.next⟩

theorem Circular.flip (h : Circular s head l) : Circular s.flip head l.reverse := by
  refine ⟨?_, ?_⟩
  · have hreverse : head :: (l.reverse ++ [head]) = (head :: (l ++ [head])).reverse := by simp
    rw [hreverse, List.isChain_reverse]
    exact h.linked.imp fun _ _ hxy => ⟨hxy.2, hxy.1⟩
  · have hnodup := List.nodup_cons.mp h.nodup
    exact List.nodup_cons.mpr ⟨by simpa using hnodup.1, List.nodup_reverse.mpr hnodup.2⟩

theorem Circular.prev_head (h : Circular s head l) : s.prev head = some (l.getLast?.getD head) := by
  have hnext := h.flip.next_head
  rw [List.head?_reverse] at hnext
  exact hnext

/-- The neighbours of a node are on its ring. -/
theorem Circular.neighbours (h : Circular s head l) (hn : n ∈ l) :
    ∃ prev ∈ head :: l, ∃ next ∈ head :: l, s.prev n = some prev ∧ s.next n = some next := by
  have hnext : ∀ {s : Links ν} {l : List ν}, Circular s head l → n ∈ l →
      ∃ next ∈ head :: l, s.next n = some next := by
    intro s l h hn
    obtain ⟨l₁, l₂, rfl⟩ := List.append_of_mem hn
    obtain ⟨rest, hrest⟩ := exists_append_eq_cons l₂ head
    have hlinked := h.linked
    have hold : head :: (l₁ ++ n :: l₂ ++ [head]) =
        (head :: l₁) ++ n :: l₂.head?.getD head :: rest := by
      rw [← hrest]
      simp
    rw [hold, List.isChain_append_cons_cons] at hlinked
    refine ⟨_, ?_, hlinked.2.1.1⟩
    cases l₂ with
    | nil => exact List.mem_cons_self
    | cons x l₂ => simp
  obtain ⟨next, hmem, hlink⟩ := hnext h hn
  obtain ⟨prev, hmem', hlink'⟩ := hnext h.flip (List.mem_reverse.mpr hn)
  exact ⟨prev, by simpa using hmem', next, hmem, hlink', hlink⟩

variable [DecidableEq ν]

theorem Circular.init (head : ν) : Circular (Links.init head) head [] := by
  refine ⟨?_, List.nodup_singleton head⟩
  rw [List.nil_append, List.isChain_cons_cons]
  refine ⟨⟨?_, ?_⟩, List.IsChain.singleton head⟩
  · simp [Links.init]
  · simp [Links.init]

theorem Circular.listEmpty_iff (h : Circular s head l) : s.listEmpty head = true ↔ l = [] := by
  rw [Links.listEmpty, h.next_head, beq_iff_eq, Option.some.injEq]
  cases l with
  | nil => simp
  | cons x rest =>
      refine iff_of_false ?_ (by simp)
      have hnodup := (List.nodup_cons.mp h.nodup).1
      intro (heq : x = head)
      rw [← heq] at hnodup
      exact hnodup List.mem_cons_self

/-- **`list_add`** puts a new node in front. -/
theorem Circular.listAdd (h : Circular s head l) (hn : n ∉ head :: l) :
    ∃ s', s.listAdd n head = some s' ∧ Circular s' head (n :: l) := by
  have hnodup := h.nodup
  rw [Links.listAdd, h.next_head]
  refine ⟨_, rfl, ?_, ?_⟩
  · obtain ⟨rest, hrest⟩ := exists_append_eq_cons l head
    have hchain := (List.isChain_cons.mp h.linked).2
    generalize l.head?.getD head = first at hrest ⊢
    have hback : (first :: rest).Nodup := by
      rw [← hrest]
      exact List.perm_append_singleton head l |>.nodup_iff.mpr hnodup
    have hmem : ∀ y ∈ first :: rest, y ≠ n := by
      rintro y hy rfl
      rw [← hrest] at hy
      exact hn ((List.perm_append_singleton head l).mem_iff.mp hy)
    have hhead : head ≠ n := by
      rintro rfl
      exact hn List.mem_cons_self
    rw [List.cons_append, List.isChain_cons_cons]
    refine ⟨⟨?_, ?_⟩, ?_⟩
    · rw [Links.insert_next, if_pos rfl]
    · rw [Links.insert_prev, if_pos rfl]
    · rw [hrest, List.isChain_cons_cons]
      refine ⟨⟨?_, ?_⟩, ?_⟩
      · rw [Links.insert_next, if_neg hhead.symm, if_pos rfl]
      · rw [Links.insert_prev, if_neg (hmem first List.mem_cons_self), if_pos rfl]
      · -- behind the new node nothing but the pointer back to it has changed
        rw [← hrest]
        apply isChain_congr hchain
        · intro x hx
          rw [List.dropLast_concat] at hx
          have hxhead : x ≠ head := by
            rintro rfl
            exact (List.nodup_cons.mp hnodup).1 hx
          have hxn : x ≠ n := by
            rintro rfl
            exact hn (List.mem_cons_of_mem _ hx)
          rw [Links.insert_next, if_neg hxhead, if_neg hxn]
        · intro y hy
          rw [hrest, List.tail_cons] at hy
          have hyfirst : y ≠ first := by
            rintro rfl
            exact (List.nodup_cons.mp hback).1 hy
          rw [Links.insert_prev, if_neg (hmem y (List.mem_cons_of_mem _ hy)), if_neg hyfirst]
  · rw [List.nodup_cons, List.nodup_cons]
    rw [List.nodup_cons] at hnodup
    simp only [List.mem_cons, not_or] at hn ⊢
    exact ⟨⟨Ne.symm hn.1, hnodup.1⟩, hn.2, hnodup.2⟩

/-- **`list_del`** takes a node out. -/
theorem Circular.listDel (h : Circular s head (l₁ ++ n :: l₂)) :
    ∃ s', s.listDel n = some s' ∧ Circular s' head (l₁ ++ l₂) := by
  -- the nodes before and behind `n`
  obtain ⟨front, prev, hfront⟩ : ∃ front prev, head :: l₁ = front ++ [prev] :=
    ⟨_, _, (List.dropLast_append_getLast (List.cons_ne_nil head l₁)).symm⟩
  obtain ⟨rest, hrest⟩ := exists_append_eq_cons l₂ head
  generalize l₂.head?.getD head = next at hrest
  have hlinked := h.linked
  have hold : head :: (l₁ ++ n :: l₂ ++ [head]) = front ++ prev :: n :: next :: rest := by
    rw [List.append_assoc, List.cons_append, hrest, ← List.cons_append, hfront]
    simp
  rw [hold, List.isChain_append_cons_cons, List.isChain_cons_cons] at hlinked
  obtain ⟨hchain₁, ⟨-, hprev⟩, ⟨hnext, -⟩, hchain₂⟩ := hlinked
  obtain ⟨hnodup₁, hnodup₂, hdisjoint⟩ : (head :: l₁).Nodup ∧ (n :: l₂).Nodup ∧
      ∀ a ∈ head :: l₁, ∀ b ∈ n :: l₂, a ≠ b := List.nodup_append.mp h.nodup
  obtain ⟨hnl₂, hl₂⟩ := List.nodup_cons.mp hnodup₂
  have hbefore : ∀ x ∈ head :: l₁, x ≠ n := fun x hx => hdisjoint x hx n List.mem_cons_self
  have hbehind : ∀ y ∈ next :: rest, y ≠ n := by
    rintro y hy rfl
    rw [← hrest] at hy
    rcases List.mem_append.mp hy with hy | hy
    · exact hnl₂ hy
    · exact hbefore head List.mem_cons_self (List.mem_singleton.mp hy).symm
  have hprevmem : prev ∈ head :: l₁ := by
    rw [hfront]
    exact List.mem_append_right _ List.mem_cons_self
  refine ⟨s.without prev n next, ?_, ?_, ?_⟩
  · rw [Links.listDel, hprev, Option.bind_some, hnext]
    rfl
  · have hnew : head :: (l₁ ++ l₂ ++ [head]) = front ++ prev :: next :: rest := by
      rw [List.append_assoc, hrest, ← List.cons_append, hfront, List.append_assoc]
      rfl
    rw [hnew, List.isChain_append_cons_cons]
    refine ⟨?_, ⟨?_, ?_⟩, ?_⟩
    · apply isChain_congr hchain₁
      · intro x hx
        rw [List.dropLast_concat] at hx
        have hxmem : x ∈ head :: l₁ := by
          rw [hfront]
          exact List.mem_append_left _ hx
        have hxprev : x ≠ prev := by
          rintro rfl
          rw [hfront] at hnodup₁
          exact (List.nodup_append.mp hnodup₁).2.2 x hx x List.mem_cons_self rfl
        rw [Links.without_next, if_neg (hbefore x hxmem), if_neg hxprev]
      · intro y hy
        rw [← hfront, List.tail_cons] at hy
        have hynext : y ≠ next := by
          rintro rfl
          have hmem : y ∈ l₂ ++ [head] := hrest ▸ List.mem_cons_self
          rcases List.mem_append.mp hmem with hmem | hmem
          · exact hdisjoint y (List.mem_cons_of_mem _ hy) y (List.mem_cons_of_mem _ hmem) rfl
          · rw [List.mem_singleton.mp hmem] at hy
            exact (List.nodup_cons.mp hnodup₁).1 hy
        rw [Links.without_prev, if_neg (hbefore y (List.mem_cons_of_mem _ hy)), if_neg hynext]
    · rw [Links.without_next, if_neg (hbefore prev hprevmem), if_pos rfl]
    · rw [Links.without_prev, if_neg (hbehind next List.mem_cons_self), if_pos rfl]
    · apply isChain_congr hchain₂
      · intro x hx
        rw [← hrest, List.dropLast_concat] at hx
        have hxmem := List.mem_cons_of_mem n hx
        have hxn : x ≠ n := by
          rintro rfl
          exact hnl₂ hx
        rw [Links.without_next, if_neg hxn, if_neg (hdisjoint prev hprevmem x hxmem).symm]
      · intro y hy
        rw [List.tail_cons] at hy
        have hynext : y ≠ next := by
          rintro rfl
          have hback : (l₂ ++ [head]).Nodup := by
            apply (List.perm_append_singleton head l₂).nodup_iff.mpr
            refine List.nodup_cons.mpr ⟨?_, hl₂⟩
            intro hmem
            exact hdisjoint head List.mem_cons_self head (List.mem_cons_of_mem _ hmem) rfl
          rw [hrest] at hback
          exact (List.nodup_cons.mp hback).1 hy
        rw [Links.without_prev, if_neg (hbehind y (List.mem_cons_of_mem _ hy)), if_neg hynext]
  · have hsub : (head :: (l₁ ++ l₂)).Sublist (head :: (l₁ ++ n :: l₂)) :=
      ((List.sublist_cons_self n l₂).append_left l₁).cons_cons head
    exact h.nodup.sublist hsub

/-- `__list_add` in front of the head. -/
theorem Circular.insert_last (h : Circular s head l) (hn : n ∉ head :: l) :
    Circular (s.insert n (l.getLast?.getD head) head) head (l ++ [n]) := by
  obtain ⟨t, ht, hring⟩ := h.flip.listAdd (n := n) (by simpa using hn)
  rw [Links.listAdd, show s.flip.next head = s.prev head from rfl, h.prev_head,
    Option.map_some, Option.some.injEq] at ht
  subst ht
  have hback := hring.flip
  rw [List.reverse_cons, List.reverse_reverse] at hback
  -- the two orders of writing differ only where a neighbour is the node itself
  have hprev : n ≠ l.getLast?.getD head := by
    rintro rfl
    exact hn (getLast?_getD_mem l head)
  have hhead : n ≠ head := by
    rintro rfl
    exact hn List.mem_cons_self
  apply hback.congr
  · intro x _
    show _ = (s.flip.insert n head (l.getLast?.getD head)).prev x
    rw [Links.insert_prev, Links.insert_next]
    by_cases hx : x = n
    · rw [hx, if_pos rfl, if_pos rfl, if_neg hprev]
    · rw [if_neg hx, if_neg hx]
      rfl
  · intro y _
    show _ = (s.flip.insert n head (l.getLast?.getD head)).next y
    rw [Links.insert_next, Links.insert_prev]
    by_cases hy : y = n
    · rw [hy, if_pos rfl, if_pos rfl, if_neg hhead]
    · rw [if_neg hy, if_neg hy]
      rfl

/-! ## What an operation leaves alone -/

/-- Every ring that shares no node with the list `l` is as it was. -/
def Links.Spares (s s' : Links ν) (l : List ν) : Prop :=
  ∀ head' l', Circular s head' l' → (∀ x ∈ head' :: l', x ∉ l) → Circular s' head' l'

/-- **`list_add_tail`** puts a new node at the end. -/
theorem Circular.listAddTailIn {valid : ν → Bool} (h : Circular s head l) (hn : n ∉ head :: l)
    (hvalid : ∀ x ∈ n :: head :: l, valid x = true) :
    ∃ s', s.listAddTailIn valid n head = some s' ∧ Circular s' head (l ++ [n]) ∧
      s.Spares s' (n :: head :: l) := by
  have hlast := getLast?_getD_mem l head
  refine ⟨s.insert n (l.getLast?.getD head) head, ?_, h.insert_last hn, ?_⟩
  · rw [Links.listAddTailIn, h.prev_head, Option.bind_some, hvalid n List.mem_cons_self,
      hvalid _ (List.mem_cons_of_mem _ hlast), hvalid head (by simp)]
    rfl
  · intro head' l' h' hapart
    have hne : ∀ {x y : ν}, x ∈ head' :: l' → y ∈ n :: head :: l → x ≠ y :=
      fun hx hy heq => hapart _ hx (heq ▸ hy)
    apply h'.congr
    · intro x hx
      rw [Links.insert_next, if_neg (hne hx (List.mem_cons_of_mem _ hlast)),
        if_neg (hne hx List.mem_cons_self)]
    · intro x hx
      rw [Links.insert_prev, if_neg (hne hx List.mem_cons_self), if_neg (hne hx (by simp))]

/-- **`list_del`** where nodes come and go. -/
theorem Circular.listDelIn {valid : ν → Bool} (h : Circular s head l) (hn : n ∈ l)
    (hvalid : ∀ x ∈ head :: l, valid x = true) :
    ∃ s', s.listDelIn valid n = some s' ∧ Circular s' head (l.erase n) ∧
      s.Spares s' (head :: l) := by
  obtain ⟨prev, hprev, next, hnext, hp, hq⟩ := h.neighbours hn
  have hmem := List.mem_cons_of_mem head hn
  refine ⟨s.without prev n next, ?_, ?_, ?_⟩
  · rw [Links.listDelIn, hp, Option.bind_some, hq, Option.bind_some, hvalid n hmem,
      hvalid prev hprev, hvalid next hnext]
    rfl
  · have hnodup := (List.nodup_cons.mp h.nodup).2
    obtain ⟨l₁, l₂, rfl⟩ := List.append_of_mem hn
    obtain ⟨s', hs', hring⟩ := h.listDel
    rw [Links.listDel, hp, Option.bind_some, hq, Option.map_some, Option.some.injEq] at hs'
    have hl₁ : n ∉ l₁ := by
      intro hmem
      exact (List.nodup_append.mp hnodup).2.2 n hmem n List.mem_cons_self rfl
    rw [List.erase_append_right _ hl₁, List.erase_cons_head, hs']
    exact hring
  · intro head' l' h' hapart
    have hne : ∀ {x y : ν}, x ∈ head' :: l' → y ∈ head :: l → x ≠ y :=
      fun hx hy heq => hapart _ hx (heq ▸ hy)
    apply h'.congr
    · intro x hx
      rw [Links.without_next, if_neg (hne hx hmem), if_neg (hne hx hprev)]
    · intro x hx
      rw [Links.without_prev, if_neg (hne hx hmem), if_neg (hne hx hnext)]

/-! ## Walks -/

theorem walkUntil_suffix {stop : ν → Bool} {l : List ν} (hchain : (l ++ [head]).IsChain (Linked s))
    (hhead : head ∉ l) : ∀ {fuel : Nat} {sp : Option ν}, l.length < fuel →
    s.walkUntil head stop fuel (l.head?.getD head) sp =
      (l.find? stop).or (l.getLast?.or sp) := by
  induction l with
  | nil =>
      intro fuel sp hfuel
      obtain ⟨fuel, rfl⟩ := Nat.exists_eq_succ_of_ne_zero (Nat.ne_of_gt hfuel)
      rw [Links.walkUntil]
      simp
  | cons x rest ih =>
      intro fuel sp hfuel
      obtain ⟨fuel, rfl⟩ := Nat.exists_eq_succ_of_ne_zero (Nat.ne_of_gt (Nat.zero_lt_of_lt hfuel))
      have hx : x ≠ head := by
        rintro rfl
        exact hhead List.mem_cons_self
      have hnext : s.next x = some (rest.head?.getD head) := by
        obtain ⟨_, hback⟩ := exists_append_eq_cons rest head
        rw [List.cons_append, hback, List.isChain_cons_cons] at hchain
        exact hchain.1.1
      have hrest : s.walkUntil head stop fuel (rest.head?.getD head) (some x) =
          (rest.find? stop).or (rest.getLast?.or (some x)) := by
        apply ih (List.isChain_cons.mp hchain).2
        · intro hmem
          exact hhead (List.mem_cons_of_mem _ hmem)
        · exact Nat.lt_of_succ_lt_succ hfuel
      rw [Links.walkUntil, List.head?_cons, Option.getD_some, if_neg hx, List.find?_cons]
      cases hstop : stop x with
      | true => rfl
      | false =>
          rw [hnext]
          simp only [Bool.false_eq_true, if_false, Option.bind_some]
          rw [hrest, List.getLast?_cons]
          cases rest.getLast? <;> rfl

/-- **`list_for_each`** up to a `break` ends at the first node that stops it, or
at the last one. -/
theorem Circular.walkUntil (h : Circular s head l) {stop : ν → Bool} {fuel : Nat}
    (hfuel : l.length < fuel) :
    ((s.next head).bind fun p => s.walkUntil head stop fuel p none) =
      (l.find? stop).or l.getLast? := by
  have hchain := (List.isChain_cons.mp h.linked).2
  rw [h.next_head, Option.bind_some,
    walkUntil_suffix hchain (List.nodup_cons.mp h.nodup).1 hfuel, Option.or_none]

end Rings

end Framework
