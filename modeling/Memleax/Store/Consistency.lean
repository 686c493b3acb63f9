import Memleax.Store.Steps
import Mathlib.Data.Int.ModEq
import Mathlib.Tactic.Ring

/-!
# Store and counter consistency

The three linked structures always hold the same blocks, and the counters of
every callstack count them: `Consistent` is kept by every primitive of
`Store.step_induct`, for arbitrary (also duplicate, unknown or zero) pointers.

The counters are `int`s, so all of this is arithmetic modulo `2 ^ 32`. A count
that is smaller than `2 ^ 31` is then the number itself.
-/

namespace Memleax

open Framework

/-- The blocks of the store: the active ones, then the expired ones. -/
def Store.stored (s : Store) : List BlockId := s.active ++ s.expire

/-! ## Tallies: what a callstack's blocks on a list add up to -/

/-- The sum of `f` over the blocks of callstack `c` on the list `l`. -/
def tally (block : BlockId → Memblock) (f : Memblock → CInt) (l : List BlockId)
    (c : CallstackId) : CInt :=
  (l.map fun b => if (block b).callstack = c then f (block b) else 0).sum

section Tally

variable {block block' : BlockId → Memblock} {f : Memblock → CInt} {l l' : List BlockId}
  {b : BlockId} {c : CallstackId}

@[simp] theorem tally_nil : tally block f [] c = 0 := rfl

@[simp] theorem tally_append :
    tally block f (l ++ l') c = tally block f l c + tally block f l' c := by
  simp [tally]

theorem tally_singleton :
    tally block f [b] c = if (block b).callstack = c then f (block b) else 0 := by
  simp [tally]

theorem tally_congr (h : ∀ b ∈ l, (block' b).callstack = (block b).callstack)
    (hf : ∀ b ∈ l, f (block' b) = f (block b)) : tally block' f l c = tally block f l c := by
  unfold tally
  congr 1
  apply List.map_congr_left
  intro b hb
  rw [h b hb, hf b hb]

theorem tally_erase (hb : b ∈ l) :
    tally block f l c = tally block f [b] c + tally block f (l.erase b) c := by
  rw [tally_singleton]
  exact (List.sum_map_erase (fun b => if (block b).callstack = c then f (block b) else 0) hb).symm

/-- A callstack without blocks on the list has tally `0`. -/
theorem tally_eq_zero (h : ∀ b ∈ l, (block b).callstack ≠ c) : tally block f l c = 0 := by
  unfold tally
  apply List.sum_eq_zero
  intro x hx
  obtain ⟨b, hb, rfl⟩ := List.mem_map.mp hx
  exact if_neg (h b hb)

/-- Rewriting one block of a list without repetition, in place. -/
theorem tally_update (hl : l.Nodup) (hb : b ∈ l) (mb : Memblock) :
    tally (Function.update block b mb) f l c =
      tally block f l c - tally block f [b] c + if mb.callstack = c then f mb else 0 := by
  rw [tally_erase hb, @tally_erase block f l b c hb, tally_singleton, Function.update_self]
  have hrest : tally (Function.update block b mb) f (l.erase b) c =
      tally block f (l.erase b) c := by
    have hne : ∀ x ∈ l.erase b, Function.update block b mb x = block x := fun x hx =>
      Function.update_of_ne (hl.mem_erase_iff.mp hx).1 _ _
    exact tally_congr (fun x hx => by rw [hne x hx]) fun x hx => by rw [hne x hx]
  rw [hrest]
  ring

end Tally

/-- The difference of two counters of every callstack is a tally of its blocks. -/
def Balanced (s : Store) (plus minus : Callstack → CInt) (f : Memblock → CInt)
    (l : List BlockId) : Prop :=
  ∀ c, plus (s.table.object c) - minus (s.table.object c) = tally s.block f l c

/-- A balance survives when the difference of one callstack and its tally move
by the same amount and those of the others stay. -/
theorem Balanced.shift {s s' : Store} {plus minus : Callstack → CInt} {f : Memblock → CInt}
    {l l' : List BlockId} (h : Balanced s plus minus f l) (k : CallstackId) (δ : CInt)
    (hself : plus (s'.table.object k) - minus (s'.table.object k) =
      plus (s.table.object k) - minus (s.table.object k) + δ)
    (hother : ∀ c, c ≠ k → s'.table.object c = s.table.object c)
    (htally : ∀ c, tally s'.block f l' c =
      tally s.block f l c + if k = c then δ else 0) :
    Balanced s' plus minus f l' := by
  intro c
  rw [htally c, ← h c]
  by_cases hc : c = k
  · subst hc
    rw [hself, if_pos rfl]
  · rw [hother c hc, if_neg (Ne.symm hc)]
    ring

/-- Every block counts for one. -/
def one (_ : Memblock) : CInt := 1

/-- The size of a block, as it is added to an `int`. -/
def sizeInt (mb : Memblock) : CInt := mb.size.setWidth 32

/-! ## The invariant -/

/-- Blocks and links: what the three linked structures hold. -/
structure Placed (s : Store) : Prop where
  linked : s.table.Linked
  chained : Chained (fun b => hashSlot [(s.block b).pointer]) (· ∈ s.stored) s.hash
  nodup : s.stored.Nodup
  created : ∀ b ∈ s.stored, b < s.fresh
  known : ∀ b ∈ s.stored, (s.block b).callstack < s.table.fresh
  young : ∀ b ∈ s.active, (s.block b).expired = false
  old : ∀ b ∈ s.expire, (s.block b).expired = true

/-- The counters of every callstack count its blocks. -/
structure Counted (s : Store) : Prop where
  allocated : Balanced s (·.allocCount) (·.freeCount) one s.stored
  expired : Balanced s (·.expiredCount) (·.freeExpiredCount) one s.expire
  bytes : Balanced s (·.allocSize) (·.freeSize) sizeInt s.stored

structure Consistent (s : Store) : Prop extends Placed s, Counted s

namespace Placed

variable {s : Store}

theorem active_nodup (h : Placed s) : s.active.Nodup := (List.nodup_append.mp h.nodup).1

theorem expire_nodup (h : Placed s) : s.expire.Nodup := (List.nodup_append.mp h.nodup).2.1

theorem not_mem_expire (h : Placed s) {b : BlockId} (hb : b ∈ s.active) : b ∉ s.expire :=
  fun hb' => (List.nodup_append.mp h.nodup).2.2 b hb b hb' rfl

theorem fresh_not_mem (h : Placed s) : s.fresh ∉ s.stored :=
  fun hb => absurd (h.created _ hb) (lt_irrefl _)

/-- **A search returns the most recently recorded block with the pointer.** -/
theorem search_eq_some_iff (h : Placed s) {p : Word} {b : BlockId} :
    memblockSearch s p = some b ↔
      (b ∈ s.stored ∧ (s.block b).pointer = p) ∧
        ∀ b' ∈ s.stored, (s.block b').pointer = p → b' ≤ b := by
  rw [memblockSearch, h.chained.search_eq_some_iff]
  constructor
  · rintro ⟨⟨hb, -, hp⟩, hmax⟩
    have hp := of_decide_eq_true hp
    refine ⟨⟨hb, hp⟩, fun b' hb' hp' => hmax b' hb' ?_ (decide_eq_true hp')⟩
    rw [hp']
  · rintro ⟨⟨hb, hp⟩, hmax⟩
    refine ⟨⟨hb, by rw [hp], decide_eq_true hp⟩, ?_⟩
    intro b' hb' _ hp'
    exact hmax b' hb' (of_decide_eq_true hp')

theorem search_eq_none_iff (h : Placed s) {p : Word} :
    memblockSearch s p = none ↔ ∀ b ∈ s.stored, (s.block b).pointer ≠ p := by
  rw [memblockSearch, h.chained.search_eq_none_iff]
  constructor
  · intro hn b hb hp
    exact of_decide_eq_false (hn b hb (by rw [hp])) hp
  · intro hn b hb _
    exact decide_eq_false (hn b hb)

theorem mem_stored_of_search (h : Placed s) {p : Word} {b : BlockId}
    (hb : memblockSearch s p = some b) : b ∈ s.stored :=
  (h.search_eq_some_iff.mp hb).1.1

theorem pointer_of_search (h : Placed s) {p : Word} {b : BlockId}
    (hb : memblockSearch s p = some b) : (s.block b).pointer = p :=
  (h.search_eq_some_iff.mp hb).1.2

end Placed

/-! ## The empty store -/

theorem placed_init : Placed {} where
  linked := by simp [CallstackTable.Linked]
  chained := by simpa [Store.stored] using Chained.empty _
  nodup := by simp [Store.stored]
  created := by simp [Store.stored]
  known := by simp [Store.stored]
  young := by simp
  old := by simp

theorem counted_init : Counted {} where
  allocated := fun _ => sub_self 0
  expired := fun _ => sub_self 0
  bytes := fun _ => sub_self 0

/-! ## A lookup of the callstack -/

section Lookup

variable {s : Store}

theorem placed_create (h : Placed s) (ips : List Word) :
    Placed { s with table := s.table.create ips } where
  linked := CallstackTable.create_linked h.linked ips
  chained := h.chained
  nodup := h.nodup
  created := h.created
  known := fun b hb => Nat.lt_succ_of_lt (h.known b hb)
  young := h.young
  old := h.old

/-- A new callstack starts with zeroed counters and has no block yet. -/
theorem Balanced.create {plus minus : Callstack → CInt} {f : Memblock → CInt}
    {l : List BlockId} (h : Balanced s plus minus f l)
    (hl : ∀ b ∈ l, (s.block b).callstack < s.table.fresh) (ips : List Word)
    (hzero : plus { ips := ips } - minus { ips := ips } = 0) :
    Balanced { s with table := s.table.create ips } plus minus f l := by
  intro c
  by_cases hc : c = s.table.fresh
  · -- no block has been accounted to the new callstack yet
    subst hc
    have hnone : tally s.block f l s.table.fresh = 0 := by
      apply tally_eq_zero
      intro b hb
      exact ne_of_lt (hl b hb)
    simpa [CallstackTable.create, hnone] using hzero
  · simpa [CallstackTable.create, hc] using h c

theorem counted_create (h : Placed s) (hc : Counted s) (ips : List Word) :
    Counted { s with table := s.table.create ips } where
  allocated := hc.allocated.create h.known ips (sub_self 0)
  expired := hc.expired.create (fun b hb => h.known b (List.mem_append_right _ hb)) ips
    (sub_self 0)
  bytes := hc.bytes.create h.known ips (sub_self 0)

theorem consistent_lookup (h : Consistent s) (env : Env) : Consistent { s with
    table := (callstackCurrent s.table env.beyond env.callstackMalloc env.ips).2 } := by
  rcases callstackCurrent_cases h.linked env.beyond env.callstackMalloc env.ips with
    ⟨cs, -, heq⟩ | heq | ⟨-, heq⟩
  · rw [heq]
    exact h
  · rw [heq]
    exact ⟨placed_create h.toPlaced _, counted_create h.toPlaced h.toCounted _⟩
  · rw [heq]
    exact h

theorem callstackCurrent_lt (h : s.table.Linked) {env : Env} {cs : CallstackId}
    {table : CallstackTable}
    (heq : callstackCurrent s.table env.beyond env.callstackMalloc env.ips = (some cs, table)) :
    cs < table.fresh := by
  rcases callstackCurrent_cases h env.beyond env.callstackMalloc env.ips with
    ⟨cs', hlt, heq'⟩ | heq' | ⟨-, heq'⟩
  · rw [heq'] at heq
    obtain ⟨rfl, rfl⟩ : cs' = cs ∧ s.table = table := by simpa using heq
    exact hlt
  · rw [heq'] at heq
    obtain ⟨rfl, rfl⟩ : s.table.fresh = cs ∧ s.table.create env.ips = table := by
      simpa using heq
    exact Nat.lt_succ_self _
  · rw [heq'] at heq
    simp at heq

end Lookup

/-! ## Linking a new block -/

section Link

variable {s : Store} {mb : Memblock}

theorem mem_stored_link {b : BlockId} :
    b ∈ (s.link mb).stored ↔ b = s.fresh ∨ b ∈ s.stored := by
  simp only [Store.stored, Store.link, List.mem_append, List.mem_singleton]
  tauto

theorem link_block_of_mem (h : Placed s) {b : BlockId} (hb : b ∈ s.stored) :
    (s.link mb).block b = s.block b := by
  have hne : b ≠ s.fresh := fun heq => h.fresh_not_mem (heq ▸ hb)
  simp [Store.link, hne]

@[simp] theorem link_block_fresh : (s.link mb).block s.fresh = mb := by
  simp [Store.link]

theorem placed_link (h : Placed s) (hmb : mb.expired = false)
    (hcs : mb.callstack < s.table.fresh) : Placed (s.link mb) where
  linked := h.linked
  chained := by
    have hslot : hashSlot [((s.link mb).block s.fresh).pointer] = hashSlot [mb.pointer] := by
      rw [link_block_fresh]
    -- the chains as they were, with the pointers of the new store
    have hold : Chained (fun b => hashSlot [((s.link mb).block b).pointer]) (· ∈ s.stored)
        s.hash :=
      h.chained.congr (fun _ => Iff.rfl) fun b hb => by rw [link_block_of_mem h hb]
    have hnew := hold.pushHead (x := s.fresh) h.created
    rw [hslot] at hnew
    exact hnew.congr (fun b => mem_stored_link) fun _ _ => rfl
  nodup := by
    have hperm : (s.link mb).stored.Perm (s.fresh :: s.stored) := by
      show (s.active ++ [s.fresh] ++ s.expire).Perm (s.fresh :: (s.active ++ s.expire))
      rw [List.append_assoc]
      exact List.perm_middle
    exact hperm.nodup_iff.mpr (List.nodup_cons.mpr ⟨h.fresh_not_mem, h.nodup⟩)
  created := by
    intro b hb
    rcases mem_stored_link.mp hb with rfl | hb
    · exact Nat.lt_succ_self _
    · exact Nat.lt_succ_of_lt (h.created b hb)
  known := by
    intro b hb
    rcases mem_stored_link.mp hb with rfl | hb
    · rw [link_block_fresh]
      exact hcs
    · rw [link_block_of_mem h hb]
      exact h.known b hb
  young := by
    intro b hb
    rcases List.mem_append.mp hb with hb | hb
    · rw [link_block_of_mem h (List.mem_append_left _ hb)]
      exact h.young b hb
    · obtain rfl := List.mem_singleton.mp hb
      rw [link_block_fresh]
      exact hmb
  old := by
    intro b hb
    rw [link_block_of_mem h (List.mem_append_right _ hb)]
    exact h.old b hb

theorem tally_link_of_mem (h : Placed s) {f : Memblock → CInt} {l : List BlockId}
    (hl : ∀ b ∈ l, b ∈ s.stored) (c : CallstackId) :
    tally (s.link mb).block f l c = tally s.block f l c := by
  apply tally_congr
  · intro b hb
    rw [link_block_of_mem h (hl b hb)]
  · intro b hb
    rw [link_block_of_mem h (hl b hb)]

theorem tally_link_stored (h : Placed s) (f : Memblock → CInt) (c : CallstackId) :
    tally (s.link mb).block f (s.link mb).stored c =
      tally s.block f s.stored c + if mb.callstack = c then f mb else 0 := by
  show tally (s.link mb).block f (s.active ++ [s.fresh] ++ s.expire) c = _
  rw [tally_append, tally_append, tally_singleton, link_block_fresh,
    tally_link_of_mem h fun b hb => List.mem_append_left _ hb,
    tally_link_of_mem h fun b hb => List.mem_append_right _ hb, Store.stored, tally_append]
  ring

theorem link_object_self :
    (s.link mb).table.object mb.callstack = (s.table.object mb.callstack).countAlloc mb.size := by
  simp [Store.link]

theorem link_object_of_ne {c : CallstackId} (hc : c ≠ mb.callstack) :
    (s.link mb).table.object c = s.table.object c := by
  simp [Store.link, hc, CallstackTable.modify_object_of_ne]

theorem link_object (c : CallstackId) : (s.link mb).table.object c =
    if c = mb.callstack then (s.table.object c).countAlloc mb.size else s.table.object c := by
  split
  · rename_i hc
    rw [hc, link_object_self]
  · rename_i hc
    exact link_object_of_ne hc

theorem counted_link (h : Placed s) (hc : Counted s) : Counted (s.link mb) where
  allocated := by
    refine hc.allocated.shift mb.callstack 1 ?_ (fun _ => link_object_of_ne)
      (tally_link_stored h one)
    rw [link_object_self]
    simp only [Callstack.countAlloc]
    ring
  expired := by
    refine hc.expired.shift mb.callstack 0 ?_ (fun _ => link_object_of_ne) ?_
    · rw [link_object_self]
      simp [Callstack.countAlloc]
    · intro c
      rw [ite_self, add_zero]
      exact tally_link_of_mem h (fun _ hb => List.mem_append_right _ hb) c
  bytes := by
    refine hc.bytes.shift mb.callstack (sizeInt mb) ?_ (fun _ => link_object_of_ne)
      (tally_link_stored h sizeInt)
    rw [link_object_self]
    simp only [Callstack.countAlloc, CInt.addSize_eq, sizeInt]
    ring

theorem consistent_link (h : Consistent s) (hmb : mb.expired = false)
    (hcs : mb.callstack < s.table.fresh) : Consistent (s.link mb) :=
  ⟨placed_link h.toPlaced hmb hcs, counted_link h.toPlaced h.toCounted⟩

end Link

/-! ## Deleting a block -/

section Delete

variable {s : Store} {b : BlockId} {now : Int}

theorem delete_stored (h : Placed s) : (s.delete now b).stored = s.stored.erase b := by
  show s.active.erase b ++ s.expire.erase b = (s.active ++ s.expire).erase b
  by_cases hb : b ∈ s.active
  · rw [List.erase_append_left _ hb, List.erase_of_not_mem (h.not_mem_expire hb)]
  · rw [List.erase_append_right _ hb, List.erase_of_not_mem hb]

theorem mem_stored_delete (h : Placed s) {x : BlockId} :
    x ∈ (s.delete now b).stored ↔ x ≠ b ∧ x ∈ s.stored := by
  rw [delete_stored h, h.nodup.mem_erase_iff]

theorem placed_delete (h : Placed s) : Placed (s.delete now b) where
  linked := (s.delete_linked now b).mpr h.linked
  chained := (h.chained.unlink b).congr (fun _ => mem_stored_delete h) fun _ _ => rfl
  nodup := by
    rw [delete_stored h]
    exact h.nodup.erase b
  created := fun x hx => h.created x ((mem_stored_delete h).mp hx).2
  known := fun x hx => by
    rw [Store.delete_table_fresh]
    exact h.known x ((mem_stored_delete h).mp hx).2
  young := fun x hx => h.young x (List.mem_of_mem_erase hx)
  old := fun x hx => h.old x (List.mem_of_mem_erase hx)

theorem delete_object_self : (s.delete now b).table.object (s.block b).callstack =
    (s.table.object (s.block b).callstack).countDelete (s.block b)
      (now - (s.block b).create) := by
  rw [Store.delete_object, if_pos rfl]

theorem delete_object_of_ne {c : CallstackId} (hc : c ≠ (s.block b).callstack) :
    (s.delete now b).table.object c = s.table.object c := by
  rw [Store.delete_object, if_neg hc]

theorem tally_delete {f : Memblock → CInt} {l : List BlockId} (hb : b ∈ l) (c : CallstackId) :
    tally s.block f (l.erase b) c =
      tally s.block f l c + if (s.block b).callstack = c then -f (s.block b) else 0 := by
  rw [tally_erase hb, tally_singleton]
  split
  · ring
  · ring

/-- The expired blocks after a deletion: one less if the block had expired. -/
theorem tally_delete_expire (h : Placed s) (hb : b ∈ s.stored) (f : Memblock → CInt)
    (c : CallstackId) :
    tally (s.delete now b).block f (s.delete now b).expire c =
      tally s.block f s.expire c + if (s.block b).callstack = c then
        (if (s.block b).expired then -f (s.block b) else 0) else 0 := by
  show tally s.block f (s.expire.erase b) c = _
  rcases List.mem_append.mp hb with hact | hexp
  · rw [List.erase_of_not_mem (h.not_mem_expire hact), h.young b hact]
    simp
  · rw [tally_delete hexp, h.old b hexp]
    simp

theorem counted_delete (h : Placed s) (hc : Counted s) (hb : b ∈ s.stored) :
    Counted (s.delete now b) where
  allocated := by
    refine hc.allocated.shift (s.block b).callstack (-1) ?_ (fun _ => delete_object_of_ne)
      fun c => ?_
    · rw [delete_object_self]
      cases he : (s.block b).expired <;>
        simp only [Callstack.countDelete, he, Callstack.countFree, Callstack.countFreeExpired,
          if_true, Bool.false_eq_true, if_false] <;> ring
    · rw [delete_stored h]
      exact tally_delete hb c
  expired := by
    refine hc.expired.shift (s.block b).callstack
      (if (s.block b).expired then -one (s.block b) else 0) ?_ (fun _ => delete_object_of_ne)
      fun c => tally_delete_expire h hb one c
    rw [delete_object_self]
    cases he : (s.block b).expired
    · simp [Callstack.countDelete, he, Callstack.countFree]
    · simp only [Callstack.countDelete, he, Callstack.countFree, Callstack.countFreeExpired,
        if_true, one]
      ring
  bytes := by
    refine hc.bytes.shift (s.block b).callstack (-sizeInt (s.block b)) ?_
      (fun _ => delete_object_of_ne) fun c => ?_
    · rw [delete_object_self]
      cases he : (s.block b).expired <;>
        simp only [Callstack.countDelete, he, Callstack.countFree, Callstack.countFreeExpired,
          if_true, Bool.false_eq_true, if_false, CInt.addSize_eq, sizeInt] <;> ring
    · rw [delete_stored h]
      exact tally_delete hb c

theorem consistent_delete (h : Consistent s) (hb : b ∈ s.stored) :
    Consistent (s.delete now b) :=
  ⟨placed_delete h.toPlaced, counted_delete h.toPlaced h.toCounted hb⟩

end Delete

/-! ## Resizing a block in place -/

section Resize

variable {s : Store} {b : BlockId} {size : Word}

/-- Resizing changes nothing but the size of the block. -/
theorem resize_block (x : BlockId) :
    ((s.resize b size).block x).pointer = (s.block x).pointer ∧
    ((s.resize b size).block x).create = (s.block x).create ∧
    ((s.resize b size).block x).expired = (s.block x).expired ∧
    ((s.resize b size).block x).callstack = (s.block x).callstack := by
  by_cases hx : x = b
  · subst hx
    simp [Store.resize]
  · simp [Store.resize, hx]

theorem placed_resize (h : Placed s) : Placed (s.resize b size) where
  linked := h.linked
  chained := h.chained.congr (fun _ => Iff.rfl) fun x _ => by rw [(resize_block x).1]
  nodup := h.nodup
  created := h.created
  known := fun x hx => by
    rw [(resize_block x).2.2.2]
    exact h.known x hx
  young := fun x hx => by
    rw [(resize_block x).2.2.1]
    exact h.young x hx
  old := fun x hx => by
    rw [(resize_block x).2.2.1]
    exact h.old x hx

theorem resize_object_self : (s.resize b size).table.object (s.block b).callstack =
    (s.table.object (s.block b).callstack).resize (s.block b).size size := by
  simp [Store.resize]

theorem resize_object_of_ne {c : CallstackId} (hc : c ≠ (s.block b).callstack) :
    (s.resize b size).table.object c = s.table.object c := by
  simp [Store.resize, hc, CallstackTable.modify_object_of_ne]

theorem tally_resize_one (l : List BlockId) (c : CallstackId) :
    tally (s.resize b size).block one l c = tally s.block one l c :=
  tally_congr (fun x _ => (resize_block x).2.2.2) fun _ _ => rfl

theorem tally_resize_size {l : List BlockId} (hl : l.Nodup) (hb : b ∈ l) (c : CallstackId) :
    tally (s.resize b size).block sizeInt l c = tally s.block sizeInt l c +
      if (s.block b).callstack = c then size.setWidth 32 - sizeInt (s.block b) else 0 := by
  show tally (Function.update s.block b { s.block b with size := size }) sizeInt l c = _
  rw [tally_update hl hb, tally_singleton]
  split
  · simp only [sizeInt]
    ring
  · ring

theorem counted_resize (h : Placed s) (hc : Counted s) (hb : b ∈ s.stored) :
    Counted (s.resize b size) where
  allocated := by
    refine hc.allocated.shift (s.block b).callstack 0 ?_ (fun _ => resize_object_of_ne)
      fun c => ?_
    · rw [resize_object_self]
      simp [Callstack.resize]
    · rw [ite_self, add_zero]
      exact tally_resize_one _ c
  expired := by
    refine hc.expired.shift (s.block b).callstack 0 ?_ (fun _ => resize_object_of_ne)
      fun c => ?_
    · rw [resize_object_self]
      simp [Callstack.resize]
    · rw [ite_self, add_zero]
      exact tally_resize_one _ c
  bytes := by
    refine hc.bytes.shift (s.block b).callstack (size.setWidth 32 - sizeInt (s.block b)) ?_
      (fun _ => resize_object_of_ne) (tally_resize_size h.nodup hb)
    rw [resize_object_self]
    simp only [Callstack.resize, CInt.addSize_eq, CInt.subSize_eq, sizeInt]
    ring

theorem consistent_resize (h : Consistent s) (hb : b ∈ s.stored) :
    Consistent (s.resize b size) :=
  ⟨placed_resize h.toPlaced, counted_resize h.toPlaced h.toCounted hb⟩

end Resize

/-! ## Expiring the first active block -/

section ExpireOne

variable {s : Store} {b : BlockId} {rest : List BlockId}

/-- Expiring a block changes nothing but its flag. -/
theorem expireOne_block (x : BlockId) :
    ((memblockExpireOne s b).block x).pointer = (s.block x).pointer ∧
    ((memblockExpireOne s b).block x).create = (s.block x).create ∧
    ((memblockExpireOne s b).block x).size = (s.block x).size ∧
    ((memblockExpireOne s b).block x).callstack = (s.block x).callstack := by
  by_cases hx : x = b
  · subst hx
    simp
  · simp [hx]

theorem expireOne_expired (x : BlockId) :
    ((memblockExpireOne s b).block x).expired = (decide (x = b) || (s.block x).expired) := by
  by_cases hx : x = b
  · subst hx
    simp
  · simp [hx]

theorem expireOne_active (hact : s.active = b :: rest) :
    (memblockExpireOne s b).active = rest := by
  simp [hact]

theorem expireOne_expire (h : Placed s) (hact : s.active = b :: rest) :
    (memblockExpireOne s b).expire = s.expire ++ [b] := by
  rw [memblockExpireOne_expire, List.erase_of_not_mem]
  exact h.not_mem_expire (by simp [hact])

/-- The order of the two lists, read as expired ones first, does not change. -/
theorem expireOne_stored (h : Placed s) (hact : s.active = b :: rest) :
    (memblockExpireOne s b).stored.Perm s.stored := by
  rw [Store.stored, expireOne_active hact, expireOne_expire h hact, Store.stored, hact,
    ← List.append_assoc]
  exact List.perm_append_singleton b (rest ++ s.expire)

theorem placed_expireOne (h : Placed s) (hact : s.active = b :: rest) :
    Placed (memblockExpireOne s b) where
  linked := (memblockExpireOne_linked s b).mpr h.linked
  chained := by
    rw [memblockExpireOne_hash]
    apply h.chained.congr (fun _ => (expireOne_stored h hact).mem_iff)
    intro x _
    rw [(expireOne_block x).1]
  nodup := (expireOne_stored h hact).nodup_iff.mpr h.nodup
  created := fun x hx => by
    rw [memblockExpireOne_fresh]
    exact h.created x ((expireOne_stored h hact).mem_iff.mp hx)
  known := fun x hx => by
    rw [memblockExpireOne_table_fresh, (expireOne_block x).2.2.2]
    exact h.known x ((expireOne_stored h hact).mem_iff.mp hx)
  young := fun x hx => by
    rw [expireOne_active hact] at hx
    have hnd := h.active_nodup
    rw [hact] at hnd
    have hne : x ≠ b := fun heq => (List.nodup_cons.mp hnd).1 (heq ▸ hx)
    rw [expireOne_expired, h.young x (by rw [hact]; exact List.mem_cons_of_mem _ hx)]
    simp [hne]
  old := fun x hx => by
    rw [expireOne_expire h hact] at hx
    rw [expireOne_expired]
    rcases List.mem_append.mp hx with hx | hx
    · simp [h.old x hx]
    · simp [List.mem_singleton.mp hx]

theorem tally_expireOne {f : Memblock → CInt} (hf : ∀ mb mb', mb.size = mb'.size → f mb = f mb')
    (l : List BlockId) (c : CallstackId) :
    tally (memblockExpireOne s b).block f l c = tally s.block f l c :=
  tally_congr (fun x _ => (expireOne_block x).2.2.2)
    fun x _ => hf _ _ (expireOne_block x).2.2.1

theorem tally_perm {block : BlockId → Memblock} {f : Memblock → CInt} {l l' : List BlockId}
    (h : l.Perm l') (c : CallstackId) : tally block f l c = tally block f l' c :=
  (h.map _).sum_eq

theorem tally_expireOne_expire (h : Placed s) (hact : s.active = b :: rest)
    {f : Memblock → CInt} (hf : ∀ mb mb', mb.size = mb'.size → f mb = f mb') (c : CallstackId) :
    tally (memblockExpireOne s b).block f (memblockExpireOne s b).expire c =
      tally s.block f s.expire c + if (s.block b).callstack = c then f (s.block b) else 0 := by
  rw [tally_expireOne hf, expireOne_expire h hact, tally_append, tally_singleton]

theorem expireOne_object_self (s : Store) (b : BlockId) :
    ∃ id, (memblockExpireOne s b).table.object (s.block b).callstack =
      { (s.table.object (s.block b).callstack).countExpired (s.block b).size with id := id } := by
  obtain ⟨id, hid⟩ := memblockExpireOne_object s b (s.block b).callstack
  exact ⟨id, by rw [hid, if_pos rfl]⟩

theorem expireOne_object_of_ne {c : CallstackId} (hc : c ≠ (s.block b).callstack) :
    (memblockExpireOne s b).table.object c = s.table.object c := by
  obtain ⟨id, hid⟩ := memblockExpireOne_object s b c
  rw [hid, if_neg hc]

theorem counted_expireOne (h : Placed s) (hc : Counted s) (hact : s.active = b :: rest) :
    Counted (memblockExpireOne s b) := by
  obtain ⟨id, hself⟩ := expireOne_object_self s b
  refine ⟨?_, ?_, ?_⟩
  · refine hc.allocated.shift (s.block b).callstack 0 ?_ (fun _ => expireOne_object_of_ne)
      fun c => ?_
    · rw [hself]
      simp [Callstack.countExpired]
    · rw [ite_self, add_zero, tally_expireOne (fun _ _ _ => rfl)]
      exact tally_perm (expireOne_stored h hact) c
  · refine hc.expired.shift (s.block b).callstack 1 ?_ (fun _ => expireOne_object_of_ne)
      (tally_expireOne_expire h hact fun _ _ _ => rfl)
    rw [hself]
    simp only [Callstack.countExpired]
    ring
  · have hsize : ∀ mb mb' : Memblock, mb.size = mb'.size → sizeInt mb = sizeInt mb' := by
      intro mb mb' heq
      rw [sizeInt, sizeInt, heq]
    refine hc.bytes.shift (s.block b).callstack 0 ?_ (fun _ => expireOne_object_of_ne)
      fun c => ?_
    · rw [hself]
      simp [Callstack.countExpired]
    · rw [ite_self, add_zero, tally_expireOne hsize]
      exact tally_perm (expireOne_stored h hact) c

theorem consistent_expireOne (h : Consistent s) (hact : s.active = b :: rest) :
    Consistent (memblockExpireOne s b) :=
  ⟨placed_expireOne h.toPlaced hact, counted_expireOne h.toPlaced h.toCounted hact⟩

end ExpireOne

/-! ## Whole histories -/

theorem consistent_print {s : Store} (h : Consistent s) (out : List Message) :
    Consistent { s with out := out } :=
  ⟨⟨h.linked, h.chained, h.nodup, h.created, h.known, h.young, h.old⟩,
    ⟨h.allocated, h.expired, h.bytes⟩⟩

theorem consistent_step {s : Store} (h : Consistent s) (op : Op) : Consistent (s.step op) := by
  refine Store.step_induct (P := Consistent) ?_ ?_ ?_ ?_ ?_ ?_ h
  · intro s out h
    exact consistent_print h out
  · intro s env h
    exact consistent_lookup h env
  · intro s env pointer size cs table h _ _ hcs
    have hlook := consistent_lookup h env
    rw [hcs] at hlook
    exact consistent_link hlook rfl (callstackCurrent_lt h.linked hcs)
  · intro s now pointer b h hb
    exact consistent_delete h (h.mem_stored_of_search hb)
  · intro pointer b size env _ h hb
    exact consistent_resize h (h.mem_stored_of_search hb)
  · intro s b rest now lim _ h hact _
    exact consistent_expireOne h hact

/-- **Every operation is made of primitives**, and each of them meets a
consistent store. A new block is linked after its callstack has been looked up. -/
theorem Consistent.step_induct {P : Store → Prop} {s : Store} {op : Op}
    (print : ∀ s out, P s → P { s with out := out })
    (lookup : ∀ s (env : Env), Consistent s → P s → P { s with
      table := (callstackCurrent s.table env.beyond env.callstackMalloc env.ips).2 })
    (link : ∀ s (env : Env) pointer size cs, Consistent s → P s → env.now = op.now →
      cs < s.table.fresh →
      P (s.link { pointer := pointer, size := size, create := env.now, callstack := cs }))
    (delete : ∀ s now b, Consistent s → P s → b ∈ s.stored → P (s.delete now b))
    (resize : ∀ pointer b size env, op = .call .realloc pointer pointer size env →
      memblockSearch s pointer = some b → b ∈ s.stored → P (s.resize b size))
    (expireOne : ∀ s b rest now lim, op = .sweep now lim → Consistent s → P s →
      s.active = b :: rest → lim.expire ≤ now - (s.block b).create → P (memblockExpireOne s b))
    (hs : Consistent s) (h : P s) : P (s.step op) := by
  suffices hboth : Consistent (s.step op) ∧ P (s.step op) from hboth.2
  refine Store.step_induct (P := fun s => Consistent s ∧ P s) ?_ ?_ ?_ ?_ ?_ ?_ ⟨hs, h⟩
  · rintro s out ⟨hs, h⟩
    exact ⟨consistent_print hs out, print s out h⟩
  · rintro s env ⟨hs, h⟩
    exact ⟨consistent_lookup hs env, lookup s env hs h⟩
  · rintro s env pointer size cs table ⟨hs, h⟩ - hnow hcs
    have hs' := consistent_lookup hs env
    have h' := lookup s env hs h
    rw [hcs] at hs' h'
    have hlt := callstackCurrent_lt hs.linked hcs
    exact ⟨consistent_link hs' rfl hlt, link _ env pointer size cs hs' h' hnow hlt⟩
  · rintro s now pointer b ⟨hs, h⟩ hb
    have hmem := hs.mem_stored_of_search hb
    exact ⟨consistent_delete hs hmem, delete s now b hs h hmem⟩
  · rintro pointer b size env hop - hb
    have hmem := hs.mem_stored_of_search hb
    exact ⟨consistent_resize hs hmem, resize pointer b size env hop hb hmem⟩
  · rintro s b rest now lim hop ⟨hs, h⟩ hact hage
    exact ⟨consistent_expireOne hs hact, expireOne s b rest now lim hop hs h hact hage⟩

theorem consistent_run (ops : List Op) : Consistent (Store.run ops) := by
  induction ops using List.reverseRecOn with
  | nil => exact ⟨placed_init, counted_init⟩
  | append_singleton ops op ih =>
      rw [Store.run_append_single]
      exact consistent_step ih op

/-! ## Fields that the counters leave alone -/

section Fields

variable {β : Type*} (f : Callstack → β) {s : Store} {b : BlockId}

theorem link_field (hf : ∀ cs size, f (cs.countAlloc size) = f cs) {mb : Memblock}
    (c : CallstackId) : f ((s.link mb).table.object c) = f (s.table.object c) := by
  rw [link_object]
  split
  · exact hf _ _
  · rfl

theorem delete_field (hf : ∀ cs mb t, f (cs.countDelete mb t) = f cs) {now : Int}
    (c : CallstackId) : f ((s.delete now b).table.object c) = f (s.table.object c) := by
  rw [Store.delete_object]
  split
  · exact hf _ _ _
  · rfl

theorem resize_field (hf : ∀ cs old new, f (cs.resize old new) = f cs) {size : Word}
    (c : CallstackId) : f ((s.resize b size).table.object c) = f (s.table.object c) := by
  by_cases hc : c = (s.block b).callstack
  · rw [hc, resize_object_self]
    exact hf _ _ _
  · rw [resize_object_of_ne hc]

theorem expireOne_field (hf : ∀ cs size id, f { cs.countExpired size with id := id } = f cs)
    (c : CallstackId) : f ((memblockExpireOne s b).table.object c) = f (s.table.object c) := by
  obtain ⟨id, hobject⟩ := memblockExpireOne_object s b c
  rw [hobject]
  split
  · exact hf _ _ _
  · rfl

end Fields

/-! ## Callstacks that have not been created -/

/-- No counter of a callstack moves before it is created. -/
def Unborn (s : Store) : Prop := ∀ c, s.table.fresh ≤ c → s.table.object c = {}

theorem unborn_lookup {s : Store} (h : Unborn s) (env : Env) : Unborn { s with
    table := (callstackCurrent s.table env.beyond env.callstackMalloc env.ips).2 } := by
  intro c hc
  revert hc
  simp only [callstackCurrent]
  split
  · exact h c
  · split
    · intro hc
      have hne : c ≠ s.table.fresh := Nat.ne_of_gt hc
      exact (Function.update_of_ne hne _ _).trans (h c (Nat.le_of_succ_le hc))
    · exact h c

theorem unborn_delete {s : Store} (hs : Placed s) (h : Unborn s) {b : BlockId}
    (hb : b ∈ s.stored) (now : Int) : Unborn (s.delete now b) := by
  intro c hc
  rw [Store.delete_table_fresh] at hc
  rw [delete_object_of_ne (Nat.ne_of_gt (lt_of_lt_of_le (hs.known b hb) hc))]
  exact h c hc

theorem unborn_step {s : Store} (hs : Consistent s) (h : Unborn s) (op : Op) :
    Unborn (s.step op) := by
  refine Consistent.step_induct ?_ ?_ ?_ ?_ ?_ ?_ hs h
  · intro s out h
    exact h
  · intro s env _ h
    exact unborn_lookup h env
  · intro s env pointer size cs _ h _ hlt c hc
    rw [link_object_of_ne (Nat.ne_of_gt (lt_of_lt_of_le hlt hc))]
    exact h c hc
  · intro s now b hs h hmem
    exact unborn_delete hs.toPlaced h hmem now
  · intro pointer b size env _ _ hmem c hc
    rw [resize_object_of_ne (Nat.ne_of_gt (lt_of_lt_of_le (hs.known b hmem) hc))]
    exact h c hc
  · intro s b rest now lim _ hs h hact _ c hc
    rw [memblockExpireOne_table_fresh] at hc
    have hlt := hs.known b (List.mem_append_left _ (by simp [hact]))
    rw [expireOne_object_of_ne (Nat.ne_of_gt (lt_of_lt_of_le hlt hc))]
    exact h c hc

theorem unborn_run (ops : List Op) : Unborn (Store.run ops) := by
  induction ops using List.reverseRecOn with
  | nil =>
      intro c _
      rfl
  | append_singleton ops op ih =>
      rw [Store.run_append_single]
      exact unborn_step (consistent_run ops) ih op

/-! ## Reading the counters as numbers -/

/-- The blocks of callstack `c` on a list. -/
def Store.blocksOf (s : Store) (c : CallstackId) (l : List BlockId) : List BlockId :=
  l.filter fun b => (s.block b).callstack = c

/-- The bytes of callstack `c` on a list: an unbounded sum of `size_t`s. -/
def Store.bytesOf (s : Store) (c : CallstackId) (l : List BlockId) : Nat :=
  ((s.blocksOf c l).map fun b => (s.block b).size.toNat).sum

theorem tally_one_eq (s : Store) (c : CallstackId) (l : List BlockId) :
    tally s.block one l c = BitVec.ofNat 32 (s.blocksOf c l).length := by
  induction l with
  | nil => rfl
  | cons b l ih =>
      rw [← List.singleton_append, tally_append, ih, tally_singleton]
      by_cases hc : (s.block b).callstack = c
      · simp [Store.blocksOf, hc, one, BitVec.ofNat_add, add_comm]
      · simp [Store.blocksOf, hc]

theorem tally_size_eq (s : Store) (c : CallstackId) (l : List BlockId) :
    tally s.block sizeInt l c = BitVec.ofNat 32 (s.bytesOf c l) := by
  induction l with
  | nil => rfl
  | cons b l ih =>
      rw [← List.singleton_append, tally_append, ih, tally_singleton]
      by_cases hc : (s.block b).callstack = c
      · have hsize : sizeInt (s.block b) = BitVec.ofNat 32 (s.block b).size.toNat := by
          rw [sizeInt, BitVec.ofNat_toNat]
        simp [Store.bytesOf, Store.blocksOf, hc, hsize, BitVec.ofNat_add]
      · simp [Store.bytesOf, Store.blocksOf, hc]

/-- An `int` that is `n` modulo `2 ^ 32` is `n` when `n` is small enough. -/
theorem toInt_of_eq_ofNat {x : CInt} {n : Nat} (h : x = BitVec.ofNat 32 n) (hn : n < 2 ^ 31) :
    x.toInt = n := by
  rw [h, BitVec.toInt_eq_toNat_of_lt]
  · rw [BitVec.toNat_ofNat, Nat.mod_eq_of_lt (by omega)]
  · rw [BitVec.toNat_ofNat, Nat.mod_eq_of_lt (by omega)]
    omega

/-- An equation between `int`s is a congruence between the integers. -/
theorem sub_eq_ofNat_iff {x y : CInt} {n : Nat} :
    x - y = BitVec.ofNat 32 n ↔ x.toInt - y.toInt ≡ n [ZMOD 2 ^ 32] := by
  have hpow : (2 ^ 32 : Int) = ((2 ^ 32 : Nat) : Int) := by norm_num
  have hsub : (x - y).toInt = (x.toInt - y.toInt).bmod (2 ^ 32) := BitVec.toInt_sub
  rw [← BitVec.toInt_inj, hsub, BitVec.toInt_ofNat', Int.ModEq, hpow]
  constructor
  · intro h
    rw [← Int.bmod_emod (x := x.toInt - y.toInt), h, Int.bmod_emod]
  · intro h
    rw [← Int.emod_bmod, h, Int.emod_bmod]

/-- What the linked structures and the counters of a store say to a reader.
Blocks are numbered in the order in which they were recorded, so the largest
number is the most recent one. -/
structure Agrees (s : Store) : Prop where
  /-- the hash and the two lists hold the same blocks, -/
  same : ∀ b, b ∈ s.active ++ s.expire ↔ ∃ k, b ∈ s.hash k
  /-- each exactly once, -/
  once : (s.active ++ s.expire).Nodup ∧ ∀ k, (s.hash k).Nodup
  /-- every one in the slot of its pointer. -/
  slot : ∀ k, ∀ b ∈ s.hash k, k = hashSlot [(s.block b).pointer]
  flag : ∀ b ∈ s.active ++ s.expire, (s.block b).expired = true ↔ b ∈ s.expire
  newest : ∀ p b, memblockSearch s p = some b ↔
    (b ∈ s.active ++ s.expire ∧ (s.block b).pointer = p) ∧
      ∀ b' ∈ s.active ++ s.expire, (s.block b').pointer = p → b' ≤ b
  absent : ∀ p, memblockSearch s p = none ↔
    ∀ b ∈ s.active ++ s.expire, (s.block b).pointer ≠ p
  /-- `alloc_count - free_count`, computed in `int`, -/
  blocks : ∀ c, (s.table.object c).allocCount - (s.table.object c).freeCount =
    BitVec.ofNat 32 (s.blocksOf c (s.active ++ s.expire)).length
  /-- which is the number of blocks whenever an `int` can hold it. -/
  blocks_toInt : ∀ c, (s.blocksOf c (s.active ++ s.expire)).length < 2 ^ 31 →
    ((s.table.object c).allocCount - (s.table.object c).freeCount).toInt =
      (s.blocksOf c (s.active ++ s.expire)).length
  leaks : ∀ c, (s.table.object c).expiredCount - (s.table.object c).freeExpiredCount =
    BitVec.ofNat 32 (s.blocksOf c s.expire).length
  leaks_toInt : ∀ c, (s.blocksOf c s.expire).length < 2 ^ 31 →
    ((s.table.object c).expiredCount - (s.table.object c).freeExpiredCount).toInt =
      (s.blocksOf c s.expire).length
  bytes : ∀ c, (s.table.object c).allocSize.toInt - (s.table.object c).freeSize.toInt ≡
    s.bytesOf c (s.active ++ s.expire) [ZMOD 2 ^ 32]

theorem Consistent.agrees {s : Store} (h : Consistent s) : Agrees s where
  same := by
    intro b
    constructor
    · intro hb
      exact ⟨_, (h.chained.mem _ b).mpr ⟨hb, rfl⟩⟩
    · rintro ⟨k, hb⟩
      exact ((h.chained.mem k b).mp hb).1
  once := ⟨h.nodup, h.chained.nodup⟩
  slot := fun k b hb => ((h.chained.mem k b).mp hb).2.symm
  flag := by
    intro b hb
    constructor
    · intro he
      rcases List.mem_append.mp hb with hact | hexp
      · rw [h.young b hact] at he
        cases he
      · exact hexp
    · exact h.old b
  newest := fun _ _ => h.search_eq_some_iff
  absent := fun _ => h.search_eq_none_iff
  blocks := fun c => (h.allocated c).trans (tally_one_eq s c _)
  blocks_toInt := fun c => toInt_of_eq_ofNat ((h.allocated c).trans (tally_one_eq s c _))
  leaks := fun c => (h.expired c).trans (tally_one_eq s c _)
  leaks_toInt := fun c => toInt_of_eq_ofNat ((h.expired c).trans (tally_one_eq s c _))
  bytes := fun c => sub_eq_ofNat_iff.mp ((h.bytes c).trans (tally_size_eq s c _))

end Memleax
