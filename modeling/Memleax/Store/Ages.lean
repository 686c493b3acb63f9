import Memleax.Store.Expiry
import Mathlib.Order.Bounds.Basic

/-!
# The longest un-freed lifetime

`memblock_count`, which `callstack_report` calls first. It compares no ages: it
walks the expired list and then the active list and keeps, for every callstack,
the first age that is not zero. The two lists in that order are sorted by
creation time along every history whose clock does not run backwards, whatever
thresholds the sweeps used, so the first age of a callstack is its largest.
-/

namespace Memleax

/-- The body of the two loops: `unfree_max` is set while it is `0`. -/
def Store.countAge (s : Store) (now : Int) (b : BlockId) : Store :=
  let mb := s.block b
  if (s.table.object mb.callstack).unfreeMax = 0 then
    { s with table := s.table.modify mb.callstack fun cs =>
        { cs with unfreeMax := CInt.ofTime (now - mb.create) } }
  else s

def memblockCount (s : Store) (now : Int) : Store :=
  let s := s.expire.foldl (fun s b => s.countAge now b) s
  s.active.foldl (fun s b => s.countAge now b) s

/-! ## The two loops are one walk -/

section Walk

variable {s : Store} {now : Int}

/-- `memblock_count` writes to nothing but `unfree_max`. -/
structure CountedFrom (s s' : Store) : Prop where
  block : s'.block = s.block
  active : s'.active = s.active
  expire : s'.expire = s.expire
  hash : s'.table.hash = s.table.hash
  fresh : s'.table.fresh = s.table.fresh
  object : ∀ c, s'.table.object c =
    { s.table.object c with unfreeMax := (s'.table.object c).unfreeMax }

theorem CountedFrom.refl (s : Store) : CountedFrom s s :=
  ⟨rfl, rfl, rfl, rfl, rfl, fun _ => rfl⟩

theorem CountedFrom.trans {s' s'' : Store} (h : CountedFrom s s') (h' : CountedFrom s' s'') :
    CountedFrom s s'' where
  block := h'.block.trans h.block
  active := h'.active.trans h.active
  expire := h'.expire.trans h.expire
  hash := h'.hash.trans h.hash
  fresh := h'.fresh.trans h.fresh
  object := by
    intro c
    rw [h'.object c, h.object c]

/-- What one block does to a callstack. -/
theorem countAge_object (s : Store) (now : Int) (b : BlockId) (c : CallstackId) :
    (s.countAge now b).table.object c =
      if (s.block b).callstack = c ∧ (s.table.object c).unfreeMax = 0 then
        { s.table.object c with unfreeMax := CInt.ofTime (now - (s.block b).create) }
      else s.table.object c := by
  unfold Store.countAge
  dsimp only
  by_cases hc : (s.block b).callstack = c
  · subst hc
    by_cases hzero : (s.table.object (s.block b).callstack).unfreeMax = 0
    · rw [if_pos hzero, if_pos ⟨rfl, hzero⟩, CallstackTable.modify_object_self]
    · rw [if_neg hzero, if_neg fun h => hzero h.2]
  · have hother : ¬ ((s.block b).callstack = c ∧ (s.table.object c).unfreeMax = 0) :=
      fun h => hc h.1
    rw [if_neg hother]
    split
    · rw [CallstackTable.modify_object_of_ne _ _ (Ne.symm hc)]
    · rfl

theorem countAge_countedFrom (s : Store) (now : Int) (b : BlockId) :
    CountedFrom s (s.countAge now b) := by
  have hobject : ∀ c, (s.countAge now b).table.object c = { s.table.object c with
      unfreeMax := ((s.countAge now b).table.object c).unfreeMax } := by
    intro c
    rw [countAge_object]
    split <;> rfl
  refine ⟨?_, ?_, ?_, ?_, ?_, hobject⟩ <;>
    · unfold Store.countAge
      dsimp only
      split <;> rfl

theorem countAges_countedFrom (now : Int) (l : List BlockId) (s : Store) :
    CountedFrom s (l.foldl (fun s b => s.countAge now b) s) := by
  induction l generalizing s with
  | nil => exact .refl s
  | cons b l ih => exact (countAge_countedFrom s now b).trans (ih _)

/-- The two loops read the lists as they were, one after the other. -/
theorem memblockCount_eq (s : Store) (now : Int) :
    memblockCount s now = (s.expire ++ s.active).foldl (fun s b => s.countAge now b) s := by
  unfold memblockCount
  dsimp only
  rw [List.foldl_append, (countAges_countedFrom now s.expire s).active]

theorem memblockCount_countedFrom (s : Store) (now : Int) :
    CountedFrom s (memblockCount s now) := by
  rw [memblockCount_eq]
  exact countAges_countedFrom now _ s

/-- What is left of a number of ages: the first one that is not zero, as long as
nothing has been kept before. -/
def keepAge (kept : CInt) (ages : List Int) : CInt :=
  ages.foldl (fun kept age => if kept = 0 then CInt.ofTime age else kept) kept

/-- The ages of the blocks of a callstack on a list. -/
def Store.agesOf (s : Store) (now : Int) (c : CallstackId) (l : List BlockId) : List Int :=
  (s.blocksOf c l).map fun b => now - (s.block b).create

theorem countAges_unfreeMax (now : Int) (c : CallstackId) (l : List BlockId) (s : Store) :
    ((l.foldl (fun s b => s.countAge now b) s).table.object c).unfreeMax =
      keepAge (s.table.object c).unfreeMax (s.agesOf now c l) := by
  induction l generalizing s with
  | nil => rfl
  | cons b l ih =>
      rw [List.foldl_cons, ih, countAge_object]
      have hages : (s.countAge now b).agesOf now c l = s.agesOf now c l := by
        rw [Store.agesOf, Store.blocksOf, (countAge_countedFrom s now b).block]
        rfl
      rw [hages]
      by_cases hc : (s.block b).callstack = c
      · have hcons : s.agesOf now c (b :: l) = (now - (s.block b).create) :: s.agesOf now c l := by
          simp [Store.agesOf, Store.blocksOf, hc]
        rw [hcons, keepAge, keepAge, List.foldl_cons]
        congr 1
        by_cases hzero : (s.table.object c).unfreeMax = 0
        · rw [if_pos ⟨hc, hzero⟩, if_pos hzero]
        · rw [if_neg fun h => hzero h.2, if_neg hzero]
      · have hcons : s.agesOf now c (b :: l) = s.agesOf now c l := by
          simp [Store.agesOf, Store.blocksOf, hc]
        rw [hcons, if_neg fun h => hc h.1]

end Walk

/-! ## The first age that is not zero -/

theorem keepAge_of_ne {kept : CInt} (h : kept ≠ 0) (ages : List Int) :
    keepAge kept ages = kept := by
  induction ages with
  | nil => rfl
  | cons age ages ih =>
      rw [keepAge, List.foldl_cons, if_neg h]
      exact ih

theorem keepAge_zeros {ages : List Int} (h : ∀ age ∈ ages, age = 0) : keepAge 0 ages = 0 := by
  induction ages with
  | nil => rfl
  | cons age ages ih =>
      rw [keepAge, List.foldl_cons, if_pos rfl, h age List.mem_cons_self]
      exact ih fun a ha => h a (List.mem_cons_of_mem _ ha)

theorem CInt.toInt_ofTime {t : Int} (h₀ : 0 ≤ t) (h : t < 2 ^ 31) : (CInt.ofTime t).toInt = t := by
  rw [CInt.ofTime, BitVec.toInt_ofInt]
  apply Int.bmod_eq_of_le
  · omega
  · omega

theorem CInt.ofTime_eq_zero {t : Int} (h₀ : 0 ≤ t) (h : t < 2 ^ 31) :
    CInt.ofTime t = 0 ↔ t = 0 := by
  rw [← BitVec.toInt_inj, CInt.toInt_ofTime h₀ h]
  rfl

/-- Of ages that do not increase the first one that is not zero is the largest. -/
theorem keepAge_isGreatest {ages : List Int} (hsorted : ages.Pairwise (· ≥ ·))
    (hfit : ∀ age ∈ ages, 0 ≤ age ∧ age < 2 ^ 31) (hne : ages ≠ []) :
    IsGreatest {age | age ∈ ages} (keepAge 0 ages).toInt := by
  induction ages with
  | nil => exact absurd rfl hne
  | cons age ages ih =>
      obtain ⟨hfirst, hrest⟩ := List.pairwise_cons.mp hsorted
      obtain ⟨hpos, hlt⟩ := hfit age List.mem_cons_self
      have hstep : keepAge 0 (age :: ages) = keepAge (CInt.ofTime age) ages := by simp [keepAge]
      rw [hstep]
      by_cases hzero : age = 0
      · -- then all that follow are zero as well
        have hzeros : ∀ a ∈ ages, a = 0 := by
          intro a ha
          have hle := hfirst a ha
          have hge := (hfit a (List.mem_cons_of_mem _ ha)).1
          omega
        subst hzero
        rw [show CInt.ofTime 0 = 0 from rfl, keepAge_zeros hzeros]
        refine ⟨List.mem_cons_self, ?_⟩
        intro a ha
        rcases List.mem_cons.mp ha with rfl | ha
        · exact le_rfl
        · rw [hzeros a ha]
          exact le_rfl
      · have hkept : CInt.ofTime age ≠ 0 := by
          rw [ne_eq, CInt.ofTime_eq_zero hpos hlt]
          exact hzero
        rw [keepAge_of_ne hkept, CInt.toInt_ofTime hpos hlt]
        refine ⟨List.mem_cons_self, ?_⟩
        intro a ha
        rcases List.mem_cons.mp ha with rfl | ha
        · exact le_rfl
        · exact hfirst a ha

/-! ## Whole histories -/

/-- Nothing but `memblock_count` writes to `unfree_max`. -/
theorem unfreeMax_zero_step {s : Store} (h : ∀ c, (s.table.object c).unfreeMax = 0) (op : Op) :
    ∀ c, ((s.step op).table.object c).unfreeMax = 0 := by
  have hlookup : ∀ (s : Store) (env : Env), (∀ c, (s.table.object c).unfreeMax = 0) →
      ∀ c, ((callstackCurrent s.table env.beyond env.callstackMalloc env.ips).2.object c).unfreeMax
        = 0 := by
    intro s env h c
    unfold callstackCurrent
    split
    · exact h c
    · split
      · by_cases hc : c = s.table.fresh
        · simp [CallstackTable.create, hc]
        · simp [CallstackTable.create, hc, h c]
      · exact h c
  refine Store.step_induct (P := fun s => ∀ c, (s.table.object c).unfreeMax = 0)
    ?_ ?_ ?_ ?_ ?_ ?_ h
  · intro s out h
    exact h
  · exact hlookup
  · intro s env pointer size cs table h _ _ hcs c
    have htable := hlookup s env h
    rw [hcs] at htable
    rw [link_field Callstack.unfreeMax fun _ _ => rfl]
    exact htable c
  · intro s now pointer b h _ c
    rw [delete_field Callstack.unfreeMax]
    · exact h c
    · intro cs mb t
      unfold Callstack.countDelete
      split <;> rfl
  · intro pointer b size env _ h _ c
    rw [resize_field Callstack.unfreeMax fun _ _ _ => rfl]
    exact h c
  · intro s b rest now lim _ h _ _ c
    rw [expireOne_field Callstack.unfreeMax fun _ _ _ => rfl]
    exact h c

theorem unfreeMax_zero_run (ops : List Op) (c : CallstackId) :
    ((Store.run ops).table.object c).unfreeMax = 0 := by
  induction ops using List.reverseRecOn generalizing c with
  | nil => rfl
  | append_singleton ops op ih =>
      rw [Store.run_append_single]
      exact unfreeMax_zero_step ih op c

/-- **The longest un-freed lifetime.** After a history whose clock readings do
not decrease, `memblock_count` at a later time `now` sets `unfree_max` of every
callstack to the largest age of its blocks in the store, and leaves it `0` when
there are none. -/
theorem unfreeMax_longest (ops : List Op) (now : Int)
    (hclock : (ops.flatMap Op.readings ++ [now]).Pairwise (· ≤ ·))
    (hfit : ∀ b ∈ (Store.run ops).stored, now - ((Store.run ops).block b).create < 2 ^ 31)
    (c : CallstackId) :
    ((Store.run ops).blocksOf c (Store.run ops).stored = [] →
      ((memblockCount (Store.run ops) now).table.object c).unfreeMax = 0) ∧
    ((Store.run ops).blocksOf c (Store.run ops).stored ≠ [] →
      IsGreatest {age | ∃ b ∈ (Store.run ops).blocksOf c (Store.run ops).stored,
          now - ((Store.run ops).block b).create = age}
        ((memblockCount (Store.run ops) now).table.object c).unfreeMax.toInt) := by
  obtain ⟨hmono, -, hlast⟩ := List.pairwise_append.mp hclock
  have hnow : ∀ op ∈ ops, op.now ≤ now := by
    intro op hop
    exact hlast _ (List.mem_flatMap.mpr ⟨op, hop, op.now_mem_readings⟩) now (by simp)
  have htimely : Timely 0 now (Store.run ops) :=
    timely_run_of hmono (fun op _ => op.expiresNotBefore_zero) now hnow
  have hmax : ((memblockCount (Store.run ops) now).table.object c).unfreeMax =
      keepAge 0 ((Store.run ops).agesOf now c
        ((Store.run ops).expire ++ (Store.run ops).active)) := by
    rw [memblockCount_eq, countAges_unfreeMax, unfreeMax_zero_run]
  -- the store lists the active blocks first, the walk the expired ones
  have hperm : ((Store.run ops).blocksOf c ((Store.run ops).expire ++ (Store.run ops).active)).Perm
      ((Store.run ops).blocksOf c (Store.run ops).stored) :=
    List.perm_append_comm.filter _
  rw [hmax]
  constructor
  · intro hnil
    rw [hnil, List.perm_nil] at hperm
    rw [Store.agesOf, hperm]
    rfl
  · intro hne
    have hsorted : ((Store.run ops).agesOf now c
        ((Store.run ops).expire ++ (Store.run ops).active)).Pairwise (· ≥ ·) := by
      refine List.Pairwise.map _ ?_ (htimely.sorted.sublist List.filter_sublist)
      intro b b' hle
      exact sub_le_sub_left hle now
    have hages : ∀ age ∈ (Store.run ops).agesOf now c
        ((Store.run ops).expire ++ (Store.run ops).active), 0 ≤ age ∧ age < 2 ^ 31 := by
      intro age hage
      obtain ⟨b, hb, rfl⟩ := List.mem_map.mp hage
      have hmem : b ∈ (Store.run ops).stored := List.mem_of_mem_filter (hperm.mem_iff.mp hb)
      exact ⟨sub_nonneg.mpr (htimely.born b hmem), hfit b hmem⟩
    have hnil : (Store.run ops).agesOf now c
        ((Store.run ops).expire ++ (Store.run ops).active) ≠ [] := by
      intro hnil
      rw [Store.agesOf, List.map_eq_nil_iff] at hnil
      rw [hnil] at hperm
      exact hne (List.nil_perm.mp hperm)
    have hgreatest := keepAge_isGreatest hsorted hages hnil
    have hset : {age | age ∈ (Store.run ops).agesOf now c
          ((Store.run ops).expire ++ (Store.run ops).active)} =
        {age | ∃ b ∈ (Store.run ops).blocksOf c (Store.run ops).stored,
          now - ((Store.run ops).block b).create = age} := by
      ext age
      simp only [Store.agesOf, Set.mem_ofPred_eq, List.mem_map, hperm.mem_iff]
    rwa [hset] at hgreatest

/-- Three blocks of one callstack: one expires, is resized in place and stays
behind, one is moved by a `realloc` of another callstack. -/
def agedBlocks : List Op :=
  [.call .malloc 0x5000 100 0 { now := 0, ips := [0x1000, 0x2000] },
    .call .malloc 0x6000 100 0 { now := 4, ips := [0x1000, 0x2000] },
    .call .malloc 0x7000 100 0 { now := 4, ips := [0x1000, 0x2000] },
    .sweep 12 { expire := 10, memblockLimit := 1000, callstackLimit := 1000 },
    .call .realloc 0x5000 0x5000 200 { now := 13, ips := [0x1100, 0x2000] },
    .call .realloc 0x8000 0x6000 200 { now := 15, ips := [0x1100, 0x2000] }]

theorem unfreeMax_longest_agedBlocks :
    ((memblockCount (Store.run agedBlocks) 20).table.object 0).unfreeMax = 20 ∧
      IsGreatest {age | ∃ b ∈ (Store.run agedBlocks).blocksOf 0 (Store.run agedBlocks).stored,
          20 - ((Store.run agedBlocks).block b).create = age}
        ((memblockCount (Store.run agedBlocks) 20).table.object 0).unfreeMax.toInt := by
  refine ⟨by decide +kernel, ?_⟩
  refine (unfreeMax_longest agedBlocks 20 ?_ ?_ 0).2 ?_
  · decide +kernel
  · decide +kernel
  · decide +kernel

end Memleax
