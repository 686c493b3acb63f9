import Memleax.Store.Consistency
import Memleax.Framework.Runs
import Mathlib.Data.Set.Insert

/-!
# The tracked blocks and the target's heap

`Heap` is the target's heap as a C programmer knows it: which pointers are
allocated, and for those obtained since memleax attached the size last
requested. Its steps are the meaning of the four functions, and `Conforms` is
what a conforming allocator promises about their results.

The store tracks the heap, `memblock_search` being its read side, as long as
no `realloc` of a tracked block fails: a failed `realloc` leaves the old block
allocated, but `bph_realloc` takes every result other than the old pointer for
a move and deletes the old block.
-/

namespace Memleax

open Framework

/-! ## The reference heap -/

structure Heap where
  /-- the pointers that are allocated, before or since the attach -/
  live : Set Word
  /-- the blocks obtained since the attach, with the size last requested -/
  tracked : Word → Option Nat := fun _ => none

namespace Heap

def obtain (h : Heap) (p : Word) (n : Nat) : Heap where
  live := insert p h.live
  tracked := Function.update h.tracked p (some n)

def release (h : Heap) (p : Word) : Heap where
  live := h.live \ {p}
  tracked := Function.update h.tracked p none

/-- A block of before the attach stays untracked. -/
def resize (h : Heap) (p : Word) (n : Nat) : Heap where
  live := h.live
  tracked := Function.update h.tracked p ((h.tracked p).map fun _ => n)

/-- The meaning of a completed call. -/
def step (h : Heap) : Op → Heap
  | .call .malloc ret size _ _ => if ret = 0 then h else h.obtain ret size.toNat
  | .call .calloc ret nmemb size _ =>
      if ret = 0 then h else h.obtain ret (nmemb.toNat * size.toNat)
  | .call .free _ p _ _ => h.release p
  | .call .realloc ret old size _ =>
      if ret = 0 then
        if size = 0 then h.release old else h
      else if ret = old then h.resize old size.toNat
      else (h.release old).obtain ret size.toNat
  | .sweep _ _ => h

@[simp] theorem obtain_tracked (h : Heap) (p : Word) (n : Nat) :
    (h.obtain p n).tracked = Function.update h.tracked p (some n) := rfl

@[simp] theorem release_tracked (h : Heap) (p : Word) :
    (h.release p).tracked = Function.update h.tracked p none := rfl

@[simp] theorem resize_tracked (h : Heap) (p : Word) (n : Nat) : (h.resize p n).tracked =
    Function.update h.tracked p ((h.tracked p).map fun _ => n) := rfl

/-- What is tracked is live. -/
def Sound (h : Heap) : Prop := ∀ p, h.tracked p ≠ none → p ∈ h.live

theorem Sound.obtain {h : Heap} (hl : h.Sound) (q : Word) (n : Nat) : (h.obtain q n).Sound := by
  intro p hp
  by_cases hq : p = q
  · exact Or.inl hq
  · rw [obtain_tracked, Function.update_of_ne hq] at hp
    exact Or.inr (hl p hp)

theorem Sound.release {h : Heap} (hl : h.Sound) (q : Word) : (h.release q).Sound := by
  intro p hp
  by_cases hq : p = q
  · rw [release_tracked, hq, Function.update_self] at hp
    exact absurd rfl hp
  · rw [release_tracked, Function.update_of_ne hq] at hp
    exact ⟨hl p hp, hq⟩

theorem Sound.resize {h : Heap} (hl : h.Sound) (q : Word) (n : Nat) : (h.resize q n).Sound := by
  intro p hp
  by_cases hq : p = q
  · rw [resize_tracked, hq, Function.update_self] at hp
    exact hq ▸ hl q (by simpa using hp)
  · rw [resize_tracked, Function.update_of_ne hq] at hp
    exact hl p hp

theorem Sound.step {h : Heap} (hl : h.Sound) (op : Op) : (h.step op).Sound := by
  cases op with
  | sweep now lim => exact hl
  | call api ret arg1 arg2 env =>
      cases api with
      | free => exact hl.release arg1
      | malloc =>
          simp only [Heap.step]
          split
          · exact hl
          · exact hl.obtain ret _
      | calloc =>
          simp only [Heap.step]
          split
          · exact hl
          · exact hl.obtain ret _
      | realloc =>
          simp only [Heap.step]
          split
          · split
            · exact hl.release arg1
            · exact hl
          · split
            · exact hl.resize arg1 _
            · exact (hl.release arg1).obtain ret _

/-- What a conforming allocator promises: a non-NULL result is not a pointer
that is still live, and a `calloc` whose product overflows returns NULL. -/
def Conforms (h : Heap) : Op → Prop
  | .call .malloc ret _ _ _ => ret ≠ 0 → ret ∉ h.live
  | .call .calloc ret nmemb size _ =>
      ret ≠ 0 → ret ∉ h.live ∧ nmemb.toNat * size.toNat < 2 ^ 64
  | .call .free _ _ _ _ => True
  | .call .realloc ret old _ _ => ret ≠ 0 → ret ≠ old → ret ∉ h.live
  | .sweep _ _ => True

end Heap

/-! ## The map that the store implements -/

/-- The pointers that `memblock_search` finds, with the size of the block. -/
def Store.sizeMap (s : Store) (p : Word) : Option Nat :=
  (memblockSearch s p).map fun b => (s.block b).size.toNat

/-- No two blocks with one pointer, none with the pointer NULL. -/
structure Distinct (s : Store) : Prop where
  inj : ∀ b ∈ s.stored, ∀ b' ∈ s.stored, (s.block b).pointer = (s.block b').pointer → b = b'
  ne_zero : ∀ b ∈ s.stored, (s.block b).pointer ≠ 0

section SizeMap

variable {s : Store}

theorem sizeMap_eq_none_iff (hp : Placed s) {p : Word} :
    s.sizeMap p = none ↔ ∀ b ∈ s.stored, (s.block b).pointer ≠ p := by
  rw [Store.sizeMap, Option.map_eq_none_iff, hp.search_eq_none_iff]

theorem sizeMap_zero (hp : Placed s) (hd : Distinct s) : s.sizeMap 0 = none :=
  (sizeMap_eq_none_iff hp).mpr hd.ne_zero

theorem search_link (hp : Placed s) (hl : Placed (s.link mb)) (p : Word) :
    memblockSearch (s.link mb) p =
      if p = mb.pointer then some s.fresh else memblockSearch s p := by
  split
  · rename_i heq
    rw [hl.search_eq_some_iff, mem_stored_link, link_block_fresh]
    refine ⟨⟨Or.inl rfl, heq.symm⟩, ?_⟩
    intro b hb _
    rcases mem_stored_link.mp hb with rfl | hb
    · exact le_rfl
    · exact le_of_lt (hp.created b hb)
  · rename_i hne
    cases hs : memblockSearch s p with
    | none =>
        rw [hl.search_eq_none_iff]
        intro b hb
        rcases mem_stored_link.mp hb with rfl | hb
        · rw [link_block_fresh]
          exact Ne.symm hne
        · rw [link_block_of_mem hp hb]
          exact hp.search_eq_none_iff.mp hs b hb
    | some b =>
        obtain ⟨⟨hb, hbp⟩, hmax⟩ := hp.search_eq_some_iff.mp hs
        rw [hl.search_eq_some_iff, mem_stored_link, link_block_of_mem hp hb]
        refine ⟨⟨Or.inr hb, hbp⟩, ?_⟩
        intro b' hb' hbp'
        rcases mem_stored_link.mp hb' with rfl | hb'
        · rw [link_block_fresh] at hbp'
          exact absurd hbp'.symm hne
        · rw [link_block_of_mem hp hb'] at hbp'
          exact hmax b' hb' hbp'

theorem sizeMap_link {mb : Memblock} (hp : Placed s) (hl : Placed (s.link mb)) :
    (s.link mb).sizeMap = Function.update s.sizeMap mb.pointer (some mb.size.toNat) := by
  funext p
  rw [Store.sizeMap, search_link hp hl]
  by_cases heq : p = mb.pointer
  · rw [if_pos heq, heq, Function.update_self]
    simp
  · rw [if_neg heq, Function.update_of_ne heq, Store.sizeMap]
    cases hs : memblockSearch s p with
    | none => rfl
    | some b =>
        rw [Option.map_some, Option.map_some, link_block_of_mem hp (hp.mem_stored_of_search hs)]

theorem search_delete (hp : Placed s) (hd : Distinct s) {p : Word} {b : BlockId}
    (hb : memblockSearch s p = some b) (now : Int) (q : Word) :
    memblockSearch (s.delete now b) q = if q = p then none else memblockSearch s q := by
  have hp' := @placed_delete s b now hp
  have hbp := hp.pointer_of_search hb
  have hbs := hp.mem_stored_of_search hb
  split
  · rename_i heq
    rw [hp'.search_eq_none_iff]
    intro x hx hxq
    obtain ⟨hne, hx⟩ := (mem_stored_delete hp).mp hx
    exact hne (hd.inj x hx b hbs ((hxq.trans heq).trans hbp.symm))
  · rename_i hne
    cases hs : memblockSearch s q with
    | none =>
        rw [hp'.search_eq_none_iff]
        exact fun x hx => hp.search_eq_none_iff.mp hs x ((mem_stored_delete hp).mp hx).2
    | some x =>
        obtain ⟨⟨hx, hxq⟩, hmax⟩ := hp.search_eq_some_iff.mp hs
        rw [hp'.search_eq_some_iff, mem_stored_delete hp]
        refine ⟨⟨⟨?_, hx⟩, hxq⟩, fun y hy => hmax y ((mem_stored_delete hp).mp hy).2⟩
        rintro rfl
        exact hne (hxq.symm.trans hbp)

/-- Deleting what a search finds removes the pointer from the map. -/
theorem sizeMap_memblockDelete (hp : Placed s) (hd : Distinct s) (now : Int) (p : Word) :
    (memblockDelete s now (memblockSearch s p)).sizeMap = Function.update s.sizeMap p none := by
  cases hb : memblockSearch s p with
  | none =>
      have hnone : s.sizeMap p = none := by rw [Store.sizeMap, hb]; rfl
      show s.sizeMap = Function.update s.sizeMap p none
      rw [← hnone, Function.update_eq_self]
  | some b =>
      funext q
      show (s.delete now b).sizeMap q = _
      rw [Store.sizeMap, search_delete hp hd hb]
      by_cases heq : q = p
      · rw [if_pos heq, heq, Function.update_self]
        rfl
      · rw [if_neg heq, Function.update_of_ne heq]
        rfl

theorem search_resize (b : BlockId) (size : Word) (q : Word) :
    memblockSearch (s.resize b size) q = memblockSearch s q := by
  have hptr : ∀ x, ((s.resize b size).block x).pointer = (s.block x).pointer :=
    fun x => (resize_block x).1
  simp only [memblockSearch, hptr]
  rfl

/-- Resizing what a search finds changes the size recorded for the pointer. -/
theorem sizeMap_memblockUpdateSize (hp : Placed s) (p size : Word) :
    (memblockUpdateSize s (memblockSearch s p) size).sizeMap =
      Function.update s.sizeMap p ((s.sizeMap p).map fun _ => size.toNat) := by
  cases hb : memblockSearch s p with
  | none =>
      have hnone : (s.sizeMap p).map (fun _ => size.toNat) = s.sizeMap p := by
        rw [Store.sizeMap, hb]
        rfl
      rw [hnone, Function.update_eq_self]
      rfl
  | some b =>
      funext q
      show (s.resize b size).sizeMap q = _
      rw [Store.sizeMap, search_resize]
      by_cases heq : q = p
      · rw [heq, Function.update_self, Store.sizeMap, hb]
        simp [Store.resize]
      · rw [Function.update_of_ne heq, Store.sizeMap]
        cases hs : memblockSearch s q with
        | none => rfl
        | some x =>
            have hne : x ≠ b := by
              rintro rfl
              exact heq ((hp.pointer_of_search hs).symm.trans (hp.pointer_of_search hb))
            simp [Store.resize, hne]

/-- Recording a block adds the pointer to the map; a NULL result does not. -/
theorem sizeMap_memblockNew (hs : Consistent s) {env : Env}
    (hm : env.memblockMalloc = true) (hc : env.callstackMalloc = true) (p size : Word) :
    (memblockNew s env p size).2.sizeMap =
      if p = 0 then s.sizeMap else Function.update s.sizeMap p (some size.toNat) := by
  unfold memblockNew
  by_cases hp : p = 0
  · rw [if_pos hp, if_pos hp]
    rfl
  · rw [if_neg hp, if_neg hp, if_neg (by simp [hm])]
    cases hcs : callstackCurrent s.table env.beyond env.callstackMalloc env.ips with
    | mk cs table =>
        have hs' := consistent_lookup hs env
        rw [hcs] at hs'
        cases cs with
        | none =>
            rcases callstackCurrent_cases hs.linked env.beyond env.callstackMalloc env.ips with
              ⟨_, -, heq⟩ | heq | ⟨heq, -⟩
            · simp [hcs] at heq
            · simp [hcs] at heq
            · simp [hc] at heq
        | some cs =>
            have hlt := callstackCurrent_lt hs.linked hcs
            exact sizeMap_link hs'.toPlaced (consistent_link hs' rfl hlt).toPlaced

theorem sizeMap_sweep (hs : Consistent s) (now : Int) (lim : Limits) :
    (s.step (.sweep now lim)).sizeMap = s.sizeMap := by
  suffices h : Consistent (s.step (.sweep now lim)) ∧
      (s.step (.sweep now lim)).sizeMap = s.sizeMap from h.2
  refine memblockExpireLoop_induct (P := fun s' => Consistent s' ∧ s'.sizeMap = s.sizeMap)
    ?_ ?_ s.active s rfl ⟨hs, rfl⟩
  · rintro s' out ⟨hs', h⟩
    exact ⟨consistent_print hs' out, h⟩
  · rintro s' b rest ⟨hs', h⟩ hact -
    refine ⟨consistent_expireOne hs' hact, Eq.trans ?_ h⟩
    funext p
    have hptr : ∀ x, ((memblockExpireOne s' b).block x).pointer = (s'.block x).pointer :=
      fun x => (expireOne_block x).1
    have hsize : ∀ x, ((memblockExpireOne s' b).block x).size = (s'.block x).size :=
      fun x => (expireOne_block x).2.2.1
    simp only [Store.sizeMap, memblockSearch, memblockExpireOne_hash, hptr, hsize]

end SizeMap

/-! ## Pointers stay distinct -/

section Distinct

variable {s : Store}

theorem distinct_link {mb : Memblock} (hp : Placed s) (hd : Distinct s) (hne : mb.pointer ≠ 0)
    (hnew : ∀ b ∈ s.stored, (s.block b).pointer ≠ mb.pointer) : Distinct (s.link mb) where
  inj := by
    intro b hb b' hb' heq
    rcases mem_stored_link.mp hb with rfl | hb <;> rcases mem_stored_link.mp hb' with rfl | hb'
    · rfl
    · rw [link_block_fresh, link_block_of_mem hp hb'] at heq
      exact absurd heq.symm (hnew b' hb')
    · rw [link_block_fresh, link_block_of_mem hp hb] at heq
      exact absurd heq (hnew b hb)
    · rw [link_block_of_mem hp hb, link_block_of_mem hp hb'] at heq
      exact hd.inj b hb b' hb' heq
  ne_zero := by
    intro b hb
    rcases mem_stored_link.mp hb with rfl | hb
    · rw [link_block_fresh]
      exact hne
    · rw [link_block_of_mem hp hb]
      exact hd.ne_zero b hb

theorem distinct_memblockDelete (hp : Placed s) (hd : Distinct s) (now : Int) (p : Word) :
    Distinct (memblockDelete s now (memblockSearch s p)) := by
  cases hb : memblockSearch s p with
  | none => exact hd
  | some b =>
      constructor
      · intro x hx y hy
        exact hd.inj x ((mem_stored_delete hp).mp hx).2 y ((mem_stored_delete hp).mp hy).2
      · intro x hx
        exact hd.ne_zero x ((mem_stored_delete hp).mp hx).2

theorem distinct_memblockNew (hs : Consistent s) (hd : Distinct s) (env : Env) {p : Word}
    (size : Word) (hnew : p ≠ 0 → s.sizeMap p = none) :
    Distinct (memblockNew s env p size).2 := by
  unfold memblockNew
  split
  · exact ⟨hd.inj, hd.ne_zero⟩
  · rename_i hp
    split
    · exact hd
    · split
      · exact ⟨hd.inj, hd.ne_zero⟩
      · rename_i cs table hcs
        have hs' := consistent_lookup hs env
        rw [hcs] at hs'
        exact distinct_link hs'.toPlaced ⟨hd.inj, hd.ne_zero⟩ hp
          ((sizeMap_eq_none_iff hs.toPlaced).mp (hnew hp))

theorem distinct_memblockUpdateSize (hd : Distinct s) (mb : Option BlockId) (size : Word) :
    Distinct (memblockUpdateSize s mb size) := by
  cases mb with
  | none => exact hd
  | some b =>
      have hptr : ∀ x, ((s.resize b size).block x).pointer = (s.block x).pointer :=
        fun x => (resize_block x).1
      constructor
      · intro x hx y hy heq
        refine hd.inj x hx y hy ?_
        rw [← hptr x, ← hptr y]
        exact heq
      · intro x hx
        show ((s.resize b size).block x).pointer ≠ 0
        rw [hptr x]
        exact hd.ne_zero x hx

theorem distinct_sweep (hs : Consistent s) (hd : Distinct s) (now : Int) (lim : Limits) :
    Distinct (s.step (.sweep now lim)) := by
  suffices h : Consistent (s.step (.sweep now lim)) ∧ Distinct (s.step (.sweep now lim)) from h.2
  refine memblockExpireLoop_induct (P := fun s' => Consistent s' ∧ Distinct s')
    ?_ ?_ s.active s rfl ⟨hs, hd⟩
  · rintro s' out ⟨hs', hd'⟩
    exact ⟨consistent_print hs' out, ⟨hd'.inj, hd'.ne_zero⟩⟩
  · rintro s' b rest ⟨hs', hd'⟩ hact -
    have hmem : ∀ x, x ∈ (memblockExpireOne s' b).stored → x ∈ s'.stored :=
      fun x hx => (expireOne_stored hs'.toPlaced hact).mem_iff.mp hx
    refine ⟨consistent_expireOne hs' hact, ?_, ?_⟩
    · intro x hx y hy heq
      rw [(expireOne_block x).1, (expireOne_block y).1] at heq
      exact hd'.inj x (hmem x hx) y (hmem y hy) heq
    · intro x hx
      rw [(expireOne_block x).1]
      exact hd'.ne_zero x (hmem x hx)

end Distinct

/-! ## Runs of the store beside the heap -/

/-- The store and the heap taking the same operation. -/
def bothStep (sh : Store × Heap) (op : Op) : Store × Heap := (sh.1.step op, sh.2.step op)

/-- The map found by `memblock_search` is the map of the blocks obtained since
the attach and not yet released, with the size last requested. -/
def Refines (sh : Store × Heap) : Prop := sh.1.sizeMap = sh.2.tracked

/-- The allocator conforms, and memleax's own `malloc`s succeed. -/
def Honest (sh : Store × Heap) (op : Op) : Prop := sh.2.Conforms op ∧ op.MallocOk

/-- No `realloc` of a tracked block fails. -/
def NoFailedRealloc (sh : Store × Heap) : Op → Prop
  | .call .realloc ret old size _ => ret = 0 → size ≠ 0 → memblockSearch sh.1 old = none
  | _ => True

/-- The invariant beside the refinement. -/
structure HeapInv (sh : Store × Heap) : Prop where
  consistent : Consistent sh.1
  distinct : Distinct sh.1
  sound : sh.2.Sound

section Step

variable {s : Store} {h : Heap}

theorem sizeMap_of_not_live (hi : HeapInv (s, h)) (hr : Refines (s, h)) {p : Word}
    (hp : p ∉ h.live) : s.sizeMap p = none := by
  rw [show s.sizeMap = h.tracked from hr]
  by_contra hne
  exact hp (hi.sound p hne)

/-- The store keeps its invariant under a conforming allocator, whatever
`realloc` does. -/
theorem heapInv_step (op : Op) (hh : Honest (s, h) op) (hi : HeapInv (s, h))
    (hr : Refines (s, h)) : HeapInv (bothStep (s, h) op) := by
  refine ⟨consistent_step hi.consistent op, ?_, hi.sound.step op⟩
  show Distinct (s.step op)
  have hp := hi.consistent.toPlaced
  cases op with
  | sweep now lim => exact distinct_sweep hi.consistent hi.distinct now lim
  | call api ret arg1 arg2 env =>
      cases api with
      | malloc =>
          exact distinct_memblockNew hi.consistent hi.distinct env arg1
            fun hne => sizeMap_of_not_live hi hr (hh.1 hne)
      | calloc =>
          exact distinct_memblockNew hi.consistent hi.distinct env (arg1 * arg2)
            fun hne => sizeMap_of_not_live hi hr (hh.1 hne).1
      | free => exact distinct_memblockDelete hp hi.distinct env.freeNow arg1
      | realloc =>
          show Distinct (bphRealloc s env ret arg1 arg2).2
          unfold bphRealloc
          split
          · exact distinct_memblockUpdateSize hi.distinct _ arg2
          · rename_i hmoved
            have hs' := consistent_step hi.consistent (.call .free 0 arg1 0 env)
            refine distinct_memblockNew hs'
              (distinct_memblockDelete hp hi.distinct env.freeNow arg1) env arg2 fun hne => ?_
            show (memblockDelete s env.freeNow (memblockSearch s arg1)).sizeMap ret = none
            rw [sizeMap_memblockDelete hp hi.distinct, Function.update_of_ne hmoved]
            exact sizeMap_of_not_live hi hr (hh.1 hne hmoved)

/-- The size that `bph_calloc` records is the true product. -/
theorem calloc_size {nmemb size : Word} (h : nmemb.toNat * size.toNat < 2 ^ 64) :
    (nmemb * size).toNat = nmemb.toNat * size.toNat := by
  rw [BitVec.toNat_mul, Nat.mod_eq_of_lt h]

theorem refines_realloc_iff (hi : HeapInv (s, h)) (hr : Refines (s, h)) {ret old size : Word}
    {env : Env} (hm : env.memblockMalloc = true) (hc : env.callstackMalloc = true) :
    Refines (bothStep (s, h) (.call .realloc ret old size env)) ↔
      NoFailedRealloc (s, h) (.call .realloc ret old size env) := by
  have hp := hi.consistent.toPlaced
  have hzero := sizeMap_zero hp hi.distinct
  have hmap : h.tracked = s.sizeMap := Eq.symm hr
  show (bphRealloc s env ret old size).2.sizeMap = (h.step (.call .realloc ret old size env)).tracked ↔
    (ret = 0 → size ≠ 0 → memblockSearch s old = none)
  have hsearch : memblockSearch s old = none ↔ s.sizeMap old = none := by
    rw [Store.sizeMap, Option.map_eq_none_iff]
  unfold bphRealloc
  by_cases hsame : ret = old
  · -- in place, or `realloc(NULL, size)` failing
    subst hsame
    rw [if_pos rfl, sizeMap_memblockUpdateSize hp]
    by_cases hret : ret = 0
    · subst hret
      rw [hsearch, hzero, Option.map_none]
      refine iff_of_true ?_ fun _ _ => rfl
      rw [← hzero, Function.update_eq_self]
      by_cases hsize : size = 0
      · simp only [Heap.step, hsize, if_true, Heap.release_tracked, hmap]
        rw [← hzero, Function.update_eq_self]
      · simp only [Heap.step, hsize, if_true, if_false, hmap]
    · refine iff_of_true ?_ fun h0 => absurd h0 hret
      simp only [Heap.step, if_neg hret, if_true, Heap.resize_tracked, hmap]
  · have hs' : Consistent (memblockDelete s env.freeNow (memblockSearch s old)) :=
      consistent_step hi.consistent (.call .free 0 old 0 env)
    rw [if_neg hsame, sizeMap_memblockNew hs' hm hc, sizeMap_memblockDelete hp hi.distinct]
    by_cases hret : ret = 0
    · rw [if_pos hret]
      by_cases hsize : size = 0
      · refine iff_of_true ?_ fun _ hne => absurd hsize hne
        simp only [Heap.step, if_pos hret, if_pos hsize, Heap.release_tracked, hmap]
      · -- the failed `realloc`: the heap keeps the block, the store drops it
        have hstep : (h.step (.call .realloc ret old size env)).tracked = s.sizeMap := by
          simp only [Heap.step, if_pos hret, if_neg hsize, hmap]
        rw [hstep, hsearch, Function.update_eq_self_iff]
        exact ⟨fun heq _ _ => heq.symm, fun heq => (heq hret hsize).symm⟩
    · rw [if_neg hret]
      refine iff_of_true ?_ fun h0 => absurd h0 hret
      simp only [Heap.step, if_neg hret, if_neg hsame, Heap.obtain_tracked,
        Heap.release_tracked, hmap]

theorem refines_step_iff (op : Op) (hh : Honest (s, h) op) (hi : HeapInv (s, h))
    (hr : Refines (s, h)) : Refines (bothStep (s, h) op) ↔ NoFailedRealloc (s, h) op := by
  have hp := hi.consistent.toPlaced
  have hmap : h.tracked = s.sizeMap := Eq.symm hr
  cases op with
  | sweep now lim => exact iff_of_true ((sizeMap_sweep hi.consistent now lim).trans hr) trivial
  | call api ret arg1 arg2 env =>
      obtain ⟨hconf, hm, hc⟩ := hh
      cases api with
      | malloc =>
          refine iff_of_true ?_ trivial
          refine (sizeMap_memblockNew hi.consistent hm hc ret arg1).trans ?_
          by_cases hret : ret = 0
          · simp only [bothStep, Heap.step, if_pos hret, hmap]
          · simp only [bothStep, Heap.step, if_neg hret, Heap.obtain_tracked, hmap]
      | calloc =>
          refine iff_of_true ?_ trivial
          refine (sizeMap_memblockNew hi.consistent hm hc ret (arg1 * arg2)).trans ?_
          by_cases hret : ret = 0
          · simp only [bothStep, Heap.step, if_pos hret, hmap]
          · simp only [bothStep, Heap.step, if_neg hret, Heap.obtain_tracked, hmap,
              calloc_size (hconf hret).2]
      | free =>
          refine iff_of_true ?_ trivial
          refine (sizeMap_memblockDelete hp hi.distinct env.freeNow arg1).trans ?_
          simp [bothStep, Heap.step, hmap]
      | realloc => exact refines_realloc_iff hi hr hm hc

end Step

/-- The state at the attach: nothing tracked, some pointers live already. -/
def attached (live : Set Word) : Store × Heap := ({}, { live := live })

theorem heapInv_attached (live : Set Word) : HeapInv (attached live) where
  consistent := ⟨placed_init, counted_init⟩
  distinct := ⟨by simp [attached, Store.stored], by simp [attached, Store.stored]⟩
  sound := fun _ hp => absurd rfl hp

/-- **The tracked blocks refine the target's heap** in every state of a run of
a conforming allocator exactly when no `realloc` of a tracked block fails in
it. Blocks of before the attach are `live`. -/
theorem tracked_refines_heap_iff (live : Set Word) (ops : List Op)
    (hh : Along bothStep Honest (attached live) ops) :
    Throughout bothStep Refines (attached live) ops ↔
      Along bothStep NoFailedRealloc (attached live) ops :=
  throughout_iff_along (fun _ op hh hi hr => heapInv_step op hh hi hr)
    (fun _ op hh hi hr => refines_step_iff op hh hi hr) hh (heapInv_attached live) rfl

/-- `p = malloc(16)`, then `realloc(p, 2^60)` fails. -/
def failedRealloc : List Op :=
  [.call .malloc 0x5000 16 0 { now := 0, ips := [0x1000, 0x2000] },
    .call .realloc 0 0x5000 0x1000000000000000 { now := 1, ips := [0x1100, 0x2000] }]

/-- The allocator conforms, the block is still allocated, and the store has
dropped it. -/
theorem failed_realloc_drops_block :
    Along bothStep Honest (attached ∅) failedRealloc ∧
      ¬ Throughout bothStep Refines (attached ∅) failedRealloc := by
  refine ⟨⟨⟨fun _ => by simp [attached], rfl, rfl⟩, ⟨fun h => absurd rfl h, rfl, rfl⟩, trivial⟩,
    fun h => ?_⟩
  have hlast := congrFun h.last 0x5000
  revert hlast
  decide +kernel

/-- A run with a block of before the attach that is resized in place, moved and
freed. -/
def movingRealloc : List Op :=
  [.call .realloc 0x5000 0x5000 64 { now := 0, ips := [0x1100, 0x2000] },
    .call .realloc 0x6000 0x5000 128 { now := 1, ips := [0x1100, 0x2000] },
    .call .free 0 0x6000 0 { now := 2, ips := [0x1200, 0x2000] }]

theorem tracked_refines_heap_movingRealloc :
    Throughout bothStep Refines (attached {0x5000}) movingRealloc := by
  refine (tracked_refines_heap_iff {0x5000} movingRealloc ?_).mpr ?_
  · refine ⟨⟨fun _ h => absurd rfl h, rfl, rfl⟩, ⟨fun _ _ => ?_, rfl, rfl⟩,
      ⟨trivial, rfl, rfl⟩, trivial⟩
    simp [attached, bothStep, Heap.step, Heap.resize]
  · exact ⟨fun h => absurd h (by decide), fun h => absurd h (by decide), trivial, trivial⟩

end Memleax
