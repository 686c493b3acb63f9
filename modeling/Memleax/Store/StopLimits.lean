import Memleax.Framework.Runs
import Memleax.Store.Expiry

/-!
# Identifiers and stop limits

A callstack gets its number when the first of its blocks expires, and the
monitor stops when there are too many numbers (`-c`) or too many expired blocks
at one callstack (`-m`). `memblock_expire` tests, after each block that it
expires, only the callstack of that block.

`Numbered order s` says what the numbers are, `order` being the callstacks in
the order in which they first expired. As long as no sweep has stopped, all
callstacks are within the limits (`limited_run`); the next sweep stops at the
first block after which one is not (`memblockExpireOutcome_stops`), unless
`callstack_limit + 1` or `callstack_id++` overflows or the returned delay, cut
to an `int`, happens to be `-1` (`stopLimits`).
-/

namespace Memleax

open Framework

/-! ## What an expiry does to the numbers -/

section ExpireOne

variable (s : Store) (b : BlockId)

theorem memblockExpireOne_id :
    ((memblockExpireOne s b).table.object (s.block b).callstack).id =
      if (s.table.object (s.block b).callstack).id = 0 then s.callstackId
      else (s.table.object (s.block b).callstack).id := by
  have hid : ((s.moveExpired b).table.object (s.block b).callstack).id =
      (s.table.object (s.block b).callstack).id := by
    simp [Store.moveExpired, Callstack.countExpired]
  unfold memblockExpireOne
  dsimp only
  by_cases hzero : (s.table.object (s.block b).callstack).id = 0
  · rw [if_pos (hid.trans hzero), if_pos hzero, CallstackTable.modify_object_self]
    rfl
  · rw [if_neg (fun h => hzero (hid.symm.trans h)), if_neg hzero]
    split
    · exact hid
    · exact hid

theorem memblockExpireOne_callstackId :
    (memblockExpireOne s b).callstackId =
      if (s.table.object (s.block b).callstack).id = 0 then s.callstackId + 1
      else s.callstackId := by
  have hid : ((s.moveExpired b).table.object (s.block b).callstack).id =
      (s.table.object (s.block b).callstack).id := by
    simp [Store.moveExpired, Callstack.countExpired]
  unfold memblockExpireOne
  dsimp only
  by_cases hzero : (s.table.object (s.block b).callstack).id = 0
  · rw [if_pos (hid.trans hzero), if_pos hzero]
    rfl
  · rw [if_neg (fun h => hzero (hid.symm.trans h)), if_neg hzero]
    split
    · rfl
    · rfl

theorem memblockExpireOne_expiredCount :
    ((memblockExpireOne s b).table.object (s.block b).callstack).expiredCount =
      (s.table.object (s.block b).callstack).expiredCount + 1 := by
  obtain ⟨id, hself⟩ := expireOne_object_self s b
  rw [hself]
  rfl

end ExpireOne

/-- The callstacks in the order in which they first appear. -/
def appear (order : List CallstackId) (c : CallstackId) : List CallstackId :=
  if c ∈ order then order else order ++ [c]

/-- The callstacks of `order`, and no others, have expired, and they are
numbered from `1` on in this order. -/
structure Numbered (order : List CallstackId) (s : Store) : Prop where
  nodup : order.Nodup
  fits : order.length < 2 ^ 31
  next : s.callstackId = BitVec.ofNat 32 (order.length + 1)
  ids : ∀ i (hi : i < order.length), (s.table.object order[i]).id = BitVec.ofNat 32 (i + 1)
  known : ∀ c ∈ order, c < s.table.fresh
  expired : ∀ c ∈ order, 0 < (s.table.object c).expiredCount.toInt
  others : ∀ c, c ∉ order → (s.table.object c).id = 0 ∧ (s.table.object c).expiredCount = 0

namespace Numbered

variable {order : List CallstackId} {s s' : Store}

theorem id_toInt (h : Numbered order s) {i : Nat} (hi : i < order.length) :
    (s.table.object order[i]).id.toInt = i + 1 := by
  have hfits := h.fits
  rw [toInt_of_eq_ofNat (h.ids i hi) (by omega)]
  rfl

theorem id_pos (h : Numbered order s) {c : CallstackId} (hc : c ∈ order) :
    0 < (s.table.object c).id.toInt := by
  obtain ⟨i, hi, rfl⟩ := List.mem_iff_getElem.mp hc
  rw [h.id_toInt hi]
  omega

theorem id_le (h : Numbered order s) {c : CallstackId} (hc : c ∈ order) :
    (s.table.object c).id.toInt ≤ order.length := by
  obtain ⟨i, hi, rfl⟩ := List.mem_iff_getElem.mp hc
  rw [h.id_toInt hi]
  omega

theorem id_eq_zero_iff (h : Numbered order s) (c : CallstackId) :
    (s.table.object c).id = 0 ↔ c ∉ order := by
  constructor
  · intro hzero hc
    have hpos := h.id_pos hc
    rw [hzero] at hpos
    simp at hpos
  · intro hc
    exact (h.others c hc).1

theorem expired_iff (h : Numbered order s) (c : CallstackId) :
    0 < (s.table.object c).expiredCount.toInt ↔ c ∈ order := by
  constructor
  · intro hpos
    by_contra hc
    rw [(h.others c hc).2] at hpos
    simp at hpos
  · exact h.expired c

/-- A primitive that touches no number. -/
theorem congr (h : Numbered order s) (hnext : s'.callstackId = s.callstackId)
    (hfresh : s.table.fresh ≤ s'.table.fresh)
    (hobject : ∀ c, (s'.table.object c).id = (s.table.object c).id ∧
      (s'.table.object c).expiredCount = (s.table.object c).expiredCount) :
    Numbered order s' where
  nodup := h.nodup
  fits := h.fits
  next := hnext.trans h.next
  ids := by
    intro i hi
    rw [(hobject _).1]
    exact h.ids i hi
  known := fun c hc => lt_of_lt_of_le (h.known c hc) hfresh
  expired := by
    intro c hc
    rw [(hobject c).2]
    exact h.expired c hc
  others := by
    intro c hc
    rw [(hobject c).1, (hobject c).2]
    exact h.others c hc

theorem create (h : Numbered order s) (ips : List Word) :
    Numbered order { s with table := s.table.create ips } := by
  refine h.congr ?_ (Nat.le_succ _) ?_
  · rfl
  intro c
  by_cases hc : c = s.table.fresh
  · have hnot : c ∉ order := fun hmem => absurd (h.known c hmem) (by rw [hc]; exact lt_irrefl _)
    rw [(h.others c hnot).1, (h.others c hnot).2]
    simp [CallstackTable.create, hc]
  · simp [CallstackTable.create, hc]

/-- **An expiry** numbers the callstack of its block if it is the first one
there. -/
theorem expireOne (h : Numbered order s) (b : BlockId) (hroom : order.length + 1 < 2 ^ 31)
    (hknown : (s.block b).callstack < s.table.fresh)
    (hcount : (s.table.object (s.block b).callstack).expiredCount.toInt < 2 ^ 31 - 1) :
    Numbered (appear order (s.block b).callstack) (memblockExpireOne s b) := by
  have hid := memblockExpireOne_id s b
  have hnext := memblockExpireOne_callstackId s b
  have hother : ∀ c, c ≠ (s.block b).callstack →
      (memblockExpireOne s b).table.object c = s.table.object c := fun c => expireOne_object_of_ne
  have hcountpos : 0 < ((memblockExpireOne s b).table.object
      (s.block b).callstack).expiredCount.toInt := by
    have hnonneg : 0 ≤ (s.table.object (s.block b).callstack).expiredCount.toInt := by
      by_cases hc : (s.block b).callstack ∈ order
      · exact le_of_lt (h.expired _ hc)
      · rw [(h.others _ hc).2]
        simp
    rw [memblockExpireOne_expiredCount, BitVec.toInt_add]
    rw [Int.bmod_eq_of_le] <;> simp <;> omega
  generalize hcs : (s.block b).callstack = cs at *
  by_cases hmem : cs ∈ order
  · -- the callstack has its number already
    have hne : ¬ (s.table.object cs).id = 0 := by
      rw [h.id_eq_zero_iff]
      exact not_not.mpr hmem
    rw [if_neg hne] at hid hnext
    rw [appear, if_pos hmem]
    refine ⟨h.nodup, h.fits, hnext.trans h.next, ?_, ?_, ?_, ?_⟩
    · intro i hi
      by_cases hc : order[i] = cs
      · rw [hc, hid, ← hc]
        exact h.ids i hi
      · rw [hother _ hc]
        exact h.ids i hi
    · intro c hc
      rw [memblockExpireOne_table_fresh]
      exact h.known c hc
    · intro c hc
      by_cases heq : c = cs
      · rw [heq]
        exact hcountpos
      · rw [hother c heq]
        exact h.expired c hc
    · intro c hc
      rw [hother c fun heq => hc (heq ▸ hmem)]
      exact h.others c hc
  · have hzero : (s.table.object cs).id = 0 := (h.id_eq_zero_iff cs).mpr hmem
    rw [if_pos hzero] at hid hnext
    rw [appear, if_neg hmem]
    refine ⟨?_, ?_, ?_, ?_, ?_, ?_, ?_⟩
    · exact List.nodup_append.mpr ⟨h.nodup, List.nodup_singleton _, by
        rintro x hx y hy rfl
        exact hmem (List.mem_singleton.mp hy ▸ hx)⟩
    · simpa using hroom
    · rw [hnext, h.next]
      simp [BitVec.ofNat_add]
    · intro i hi
      by_cases hlast : i = order.length
      · subst hlast
        rw [List.getElem_concat_length rfl, hid]
        exact h.next
      · have hi' : i < order.length := by
          rw [List.length_append, List.length_singleton] at hi
          omega
        rw [List.getElem_append_left hi']
        rw [hother _ fun heq => hmem (heq ▸ List.getElem_mem hi')]
        exact h.ids i hi'
    · intro c hc
      rw [memblockExpireOne_table_fresh]
      rcases List.mem_append.mp hc with hc | hc
      · exact h.known c hc
      · rw [List.mem_singleton.mp hc]
        exact hknown
    · intro c hc
      rcases List.mem_append.mp hc with hc | hc
      · rw [hother c fun heq => hmem (heq ▸ hc)]
        exact h.expired c hc
      · rw [List.mem_singleton.mp hc]
        exact hcountpos
    · intro c hc
      obtain ⟨hc, hne⟩ := not_or.mp (fun h => hc (List.mem_append.mpr h))
      rw [hother c fun heq => hne (List.mem_singleton.mpr heq)]
      exact h.others c hc

end Numbered

/-! ## The limits -/

/-- The callstacks that have a number. -/
def Store.numbered (s : Store) : List CallstackId :=
  (List.range s.table.fresh).filter fun c => (s.table.object c).id ≠ 0

/-- Every callstack is within the limits. -/
structure Within (lim : Limits) (s : Store) : Prop where
  callstacks : (s.numbered.length : Int) ≤ lim.callstackLimit.toInt
  blocks : ∀ c, (s.table.object c).expiredCount.toInt < lim.memblockLimit.toInt

theorem Numbered.length_numbered {order : List CallstackId} {s : Store} (h : Numbered order s) :
    s.numbered.length = order.length := by
  apply List.Perm.length_eq
  apply (List.perm_ext_iff_of_nodup (List.nodup_range.filter _) h.nodup).mpr
  intro c
  have hid := h.id_eq_zero_iff c
  constructor
  · intro hc
    have hne := (List.mem_filter.mp hc).2
    by_contra hnot
    simp [hid.mpr hnot] at hne
  · intro hc
    refine List.mem_filter.mpr ⟨List.mem_range.mpr (h.known c hc), decide_eq_true ?_⟩
    exact fun hzero => hid.mp hzero hc

/-- The test on the number of a callstack, when `callstack_limit + 1` fits. -/
theorem limit_add_one_sle_iff {limit : CInt} (hmax : limit.toInt ≠ 2 ^ 31 - 1) (id : CInt) :
    (limit + 1).sle id ↔ limit.toInt + 1 ≤ id.toInt := by
  have hlt := BitVec.two_mul_toInt_lt (x := limit)
  have hge := BitVec.le_two_mul_toInt (x := limit)
  have hsum : (limit + 1).toInt = limit.toInt + 1 := by
    rw [BitVec.toInt_add, Int.bmod_eq_of_le] <;> simp <;> omega
  rw [BitVec.sle_iff_toInt_le, hsum]

section Checks

variable {lim : Limits} {order : List CallstackId} {s : Store} {b : BlockId}

theorem numbered_expireOne (hmax : lim.callstackLimit.toInt ≠ 2 ^ 31 - 1) (hp : Placed s)
    (h : Numbered order s) (hw : Within lim s) (hb : b ∈ s.stored) :
    Numbered (appear order (s.block b).callstack) (memblockExpireOne s b) := by
  have hlen := hw.callstacks
  rw [h.length_numbered] at hlen
  have hlt := BitVec.two_mul_toInt_lt (x := lim.callstackLimit)
  have hblocks := hw.blocks (s.block b).callstack
  have hlt' := BitVec.two_mul_toInt_lt (x := lim.memblockLimit)
  exact h.expireOne b (by omega) (hp.known b hb) (by omega)

/-- **Testing one callstack is enough.** After an expiry within the limits, the
two tests on the callstack of the block tell whether all are still within. -/
theorem within_expireOne_iff (hmax : lim.callstackLimit.toInt ≠ 2 ^ 31 - 1) (hp : Placed s)
    (h : Numbered order s) (hw : Within lim s) (hb : b ∈ s.stored) :
    Within lim (memblockExpireOne s b) ↔
      ¬ lim.callstackLimit.toInt + 1 ≤
          ((memblockExpireOne s b).table.object (s.block b).callstack).id.toInt ∧
        ¬ lim.memblockLimit.sle
          ((memblockExpireOne s b).table.object (s.block b).callstack).expiredCount := by
  have h' := numbered_expireOne hmax hp h hw hb
  have hlen := hw.callstacks
  rw [h.length_numbered] at hlen
  rw [BitVec.sle_iff_toInt_le, not_le, not_le]
  constructor
  · intro hw'
    have hlen' := hw'.callstacks
    rw [h'.length_numbered] at hlen'
    have hmem : (s.block b).callstack ∈ appear order (s.block b).callstack := by
      unfold appear
      split
      · assumption
      · simp
    have hle := h'.id_le hmem
    exact ⟨by omega, hw'.blocks _⟩
  · rintro ⟨hid, hcount⟩
    constructor
    · rw [h'.length_numbered]
      by_cases hmem : (s.block b).callstack ∈ order
      · rw [appear, if_pos hmem]
        exact hlen
      · -- a new number is the number of numbered callstacks
        have hlast : order.length < (appear order (s.block b).callstack).length := by
          simp [appear, hmem]
        have hnew := h'.id_toInt hlast
        have hself : (appear order (s.block b).callstack)[order.length] =
            (s.block b).callstack := by
          simp [appear, hmem]
        rw [hself] at hnew
        have hlength : (appear order (s.block b).callstack).length = order.length + 1 := by
          simp [appear, hmem]
        omega
    · intro c
      by_cases hc : c = (s.block b).callstack
      · rw [hc]
        exact hcount
      · rw [expireOne_object_of_ne hc]
        exact hw.blocks c

/-- Within the limits the only number that does not fit is the one after
2147483647. -/
theorem expiryOverflows_iff (hmax : lim.callstackLimit.toInt ≠ 2 ^ 31 - 1) (hp : Placed s)
    (h : Numbered order s) (hw : Within lim s) (hb : b ∈ s.stored) :
    s.ExpiryOverflows b ↔ (memblockExpireOne s b).numbered.length = 2 ^ 31 - 1 := by
  have hlen := hw.callstacks
  rw [h.length_numbered] at hlen
  have hlt := BitVec.two_mul_toInt_lt (x := lim.callstackLimit)
  have hcount : (s.table.object (s.block b).callstack).expiredCount.toInt ≠ 2 ^ 31 - 1 := by
    have hblocks := hw.blocks (s.block b).callstack
    have hlt' := BitVec.two_mul_toInt_lt (x := lim.memblockLimit)
    omega
  have hnext : s.callstackId.toInt = order.length + 1 := by
    rw [toInt_of_eq_ofNat h.next (by omega)]
    rfl
  rw [(numbered_expireOne hmax hp h hw hb).length_numbered]
  unfold Store.ExpiryOverflows
  dsimp only
  rw [or_iff_right hcount, h.id_eq_zero_iff, hnext, appear]
  by_cases hmem : (s.block b).callstack ∈ order
  · rw [if_pos hmem]
    constructor
    · rintro ⟨hnot, -⟩
      exact absurd hmem hnot
    · intro heq
      omega
  · rw [if_neg hmem, List.length_append, List.length_singleton]
    constructor
    · rintro ⟨-, heq⟩
      omega
    · intro heq
      exact ⟨hmem, by omega⟩

end Checks

/-! ## Sweeps that do not stop -/

/-- The callstacks of the blocks that an operation expires, in order. -/
def expiriesBy (s : Store) (op : Op) : List CallstackId :=
  (expiredBy s op).map fun b => (s.block b).callstack

/-- The callstacks of the blocks that a history expires, in order. -/
def expiries : Store → List Op → List CallstackId
  | _, [] => []
  | s, op :: ops => expiriesBy s op ++ expiries (s.step op) ops

/-- The callstacks in the order in which a history first expires a block of
theirs. -/
def expiryOrder (ops : List Op) : List CallstackId := (expiries {} ops).foldl appear []

theorem expiries_append (s : Store) (ops ops' : List Op) :
    expiries s (ops ++ ops') = expiries s ops ++ expiries (ops.foldl Store.step s) ops' := by
  induction ops generalizing s with
  | nil => rfl
  | cons op ops ih => simp [expiries, ih]

theorem expiryOrder_append_single (ops : List Op) (op : Op) :
    expiryOrder (ops ++ [op]) = (expiriesBy (Store.run ops) op).foldl appear (expiryOrder ops) := by
  rw [expiryOrder, expiries_append, List.foldl_append]
  simp [expiries, Store.run, expiryOrder]

/-- What is known of a store between sweeps that did not stop. -/
structure Limited (lim : Limits) (order : List CallstackId) (s : Store) : Prop where
  consistent : Consistent s
  numbered : Numbered order s
  within : Within lim s

/-- What the sweep is to return when no limit is reached: the delay of the first
block that is not overdue, cut to an `int`. -/
def sweepDelay (lim : Limits) (now : Int) (s : Store) (todo : List BlockId) : Int :=
  match todo.find? fun b => now - (s.block b).create < lim.expire with
  | none => 0
  | some b => (BitVec.ofInt 32 (lim.expire - (now - (s.block b).create) + 1)).toInt

section Sweep

variable {lim : Limits} {order : List CallstackId} {s : Store} {now : Int}

theorem Limited.print (h : Limited lim order s) (out : List Message) :
    Limited lim order { s with out := out } :=
  ⟨consistent_print h.consistent out, ⟨h.numbered.nodup, h.numbered.fits, h.numbered.next,
    h.numbered.ids, h.numbered.known, h.numbered.expired, h.numbered.others⟩,
    ⟨h.within.callstacks, h.within.blocks⟩⟩

theorem memblockExpireOutcomeLoop_eq_some : ∀ {todo : List BlockId} {s : Store} {r : Int × Store},
    memblockExpireOutcomeLoop lim now todo s = some r → memblockExpireLoop lim now todo s = r
  | [], _, _, h => Option.some.inj h
  | b :: rest, s, r, h => by
      rw [memblockExpireOutcomeLoop] at h
      rw [memblockExpireLoop]
      dsimp only at h ⊢
      by_cases hyoung : now - (s.block b).create < lim.expire
      · rw [if_pos hyoung] at h ⊢
        exact Option.some.inj h
      · rw [if_neg hyoung] at h ⊢
        split at h
        · cases h
        · split at h
          · cases h
          · rename_i hmax
            simp only [limit_add_one_sle_iff hmax] at h
            split at h
            · rename_i hid
              rw [if_pos hid]
              exact Option.some.inj h
            · rename_i hid
              rw [if_neg hid]
              split at h
              · rename_i hcount
                rw [if_pos hcount]
                exact Option.some.inj h
              · rename_i hcount
                rw [if_neg hcount]
                exact memblockExpireOutcomeLoop_eq_some h

/-- With the largest limit a sweep has an outcome only if it expires nothing. -/
theorem sweep_of_largest (hmax : lim.callstackLimit.toInt = 2 ^ 31 - 1) {todo : List BlockId}
    {s : Store} {r : Int × Store} (h : memblockExpireOutcomeLoop lim now todo s = some r) :
    (∀ b rest, todo = b :: rest → now - (s.block b).create < lim.expire) ∧
      r = (sweepDelay lim now s todo, s) := by
  cases todo with
  | nil =>
      refine ⟨?_, (Option.some.inj h).symm⟩
      intro b rest heq
      cases heq
  | cons b rest =>
      rw [memblockExpireOutcomeLoop] at h
      dsimp only at h
      by_cases hyoung : now - (s.block b).create < lim.expire
      · rw [if_pos hyoung] at h
        refine ⟨?_, ?_⟩
        · intro b' rest' heq
          obtain ⟨rfl, -⟩ := List.cons.inj heq
          exact hyoung
        · rw [← Option.some.inj h]
          simp [sweepDelay, hyoung]
      · rw [if_neg hyoung, if_pos hmax, ite_self] at h
        cases h

/-- A sweep that returns no negative value expires blocks within the limits
only. -/
theorem limited_sweep (hmax : lim.callstackLimit.toInt ≠ 2 ^ 31 - 1) : ∀ (todo : List BlockId)
    (s : Store) (order : List CallstackId), s.active = todo → Limited lim order s →
      0 ≤ (memblockExpireLoop lim now todo s).1 →
      Limited lim (((sweptBlocks lim now todo s).map fun b => (s.block b).callstack).foldl
        appear order) (memblockExpireLoop lim now todo s).2
  | [], s, order, _, h, _ => h
  | b :: rest, s, order, hact, h, hres => by
      have hb : b ∈ s.stored := List.mem_append_left _ (by simp [hact])
      rw [memblockExpireLoop] at hres ⊢
      rw [sweptBlocks]
      dsimp only at hres ⊢
      split at hres
      · rename_i hyoung
        rw [if_pos hyoung, if_pos hyoung]
        exact h
      · rename_i hold
        rw [if_neg hold, if_neg hold]
        split at hres
        · simp at hres
        · rename_i hid
          rw [if_neg hid, if_neg hid]
          split at hres
          · simp at hres
          · rename_i hcount
            rw [if_neg hcount, if_neg hcount]
            have hp := h.consistent.toPlaced
            have h' : Limited lim (appear order (s.block b).callstack) (memblockExpireOne s b) :=
              ⟨consistent_expireOne h.consistent hact,
                numbered_expireOne hmax hp h.numbered h.within hb,
                (within_expireOne_iff hmax hp h.numbered h.within hb).mpr ⟨hid, hcount⟩⟩
            have ih := limited_sweep hmax rest _ _ (expireOne_active hact) h' hres
            have hmap : ((sweptBlocks lim now rest (memblockExpireOne s b)).map
                fun x => ((memblockExpireOne s b).block x).callstack) =
                (sweptBlocks lim now rest (memblockExpireOne s b)).map
                  fun x => (s.block x).callstack := by
              apply List.map_congr_left
              intro x _
              exact (expireOne_block x).2.2.2
            rw [hmap] at ih
            exact ih

/-- **A sweep that goes on** keeps the limits. -/
theorem Limited.sweep (h : Limited lim order s) {r : Int × Store}
    (hr : memblockExpireOutcome s now lim = some r) (hres : 0 ≤ r.1) :
    Limited lim ((expiriesBy s (.sweep now lim)).foldl appear order)
      (s.step (.sweep now lim)) := by
  have hloop := memblockExpireOutcomeLoop_eq_some hr
  show Limited lim (((sweptBlocks lim now s.active s).map fun b => (s.block b).callstack).foldl
    appear order) (memblockExpireLoop lim now s.active s).2
  by_cases hmax : lim.callstackLimit.toInt = 2 ^ 31 - 1
  · obtain ⟨hyoung, heq⟩ := sweep_of_largest hmax hr
    have hswept : sweptBlocks lim now s.active s = [] := by
      cases hact : s.active with
      | nil => rfl
      | cons b rest => rw [sweptBlocks, if_pos (hyoung b rest hact)]
    rw [hswept, hloop, heq]
    exact h
  · exact limited_sweep hmax _ _ _ rfl h (by rw [hloop]; exact hres)

end Sweep

/-! ## Handler calls move no number -/

section Call

variable {lim : Limits} {order : List CallstackId} {s : Store}

theorem Limited.congr {s' : Store} (h : Limited lim order s) (hs' : Consistent s')
    (hnext : s'.callstackId = s.callstackId) (hfresh : s.table.fresh ≤ s'.table.fresh)
    (hobject : ∀ c, (s'.table.object c).id = (s.table.object c).id ∧
      (s'.table.object c).expiredCount = (s.table.object c).expiredCount) :
    Limited lim order s' := by
  have hn := h.numbered.congr hnext hfresh hobject
  refine ⟨hs', hn, ⟨?_, ?_⟩⟩
  · rw [hn.length_numbered, ← h.numbered.length_numbered]
    exact h.within.callstacks
  · intro c
    rw [(hobject c).2]
    exact h.within.blocks c

theorem Limited.lookup (h : Limited lim order s) (env : Env) : Limited lim order { s with
    table := (callstackCurrent s.table env.beyond env.callstackMalloc env.ips).2 } := by
  have hs' := consistent_lookup h.consistent env
  rcases callstackCurrent_cases h.consistent.linked env.beyond env.callstackMalloc env.ips with
    ⟨cs, -, heq⟩ | heq | ⟨-, heq⟩
  · rw [heq]
    exact h
  · rw [heq] at hs' ⊢
    have hn := h.numbered.create env.ips
    refine ⟨hs', hn, ⟨?_, ?_⟩⟩
    · rw [hn.length_numbered, ← h.numbered.length_numbered]
      exact h.within.callstacks
    · intro c
      by_cases hc : c = s.table.fresh
      · -- a new callstack has as many expired blocks as one that has none
        have hnot : c ∉ order := fun hmem =>
          absurd (h.numbered.known c hmem) (by rw [hc]; exact lt_irrefl _)
        have hzero := (hn.others c hnot).2
        have hold := h.within.blocks c
        rw [(h.numbered.others c hnot).2] at hold
        rw [hzero]
        exact hold
      · have hsame : (s.table.create env.ips).object c = s.table.object c :=
          Function.update_of_ne hc _ _
        show ((s.table.create env.ips).object c).expiredCount.toInt < _
        rw [hsame]
        exact h.within.blocks c
  · rw [heq]
    exact h

theorem limited_call (h : Limited lim order s) {op : Op} (hcall : ∀ now l, op ≠ .sweep now l) :
    Limited lim order (s.step op) := by
  refine Store.step_induct (P := Limited lim order) ?_ ?_ ?_ ?_ ?_ ?_ h
  · intro s out h
    exact h.print out
  · intro s env h
    exact h.lookup env
  · intro s env pointer size cs table h _ _ hcs
    have h' := h.lookup env
    rw [hcs] at h'
    have hlt := callstackCurrent_lt h.consistent.linked hcs
    refine h'.congr (consistent_link h'.consistent rfl hlt) rfl le_rfl ?_
    intro c
    exact ⟨link_field Callstack.id (fun _ _ => rfl) c,
      link_field Callstack.expiredCount (fun _ _ => rfl) c⟩
  · intro s now pointer b h hb
    have hmem := h.consistent.mem_stored_of_search hb
    refine h.congr (consistent_delete h.consistent hmem) rfl ?_ ?_
    · rw [Store.delete_table_fresh]
    · have hkept : ∀ (cs : Callstack) (mb : Memblock) (t : Int),
          (cs.countDelete mb t).id = cs.id ∧ (cs.countDelete mb t).expiredCount =
            cs.expiredCount := by
        intro cs mb t
        unfold Callstack.countDelete
        split <;> exact ⟨rfl, rfl⟩
      intro c
      exact ⟨delete_field Callstack.id (fun cs mb t => (hkept cs mb t).1) c,
        delete_field Callstack.expiredCount (fun cs mb t => (hkept cs mb t).2) c⟩
  · intro pointer b size env _ h hb
    have hmem := h.consistent.mem_stored_of_search hb
    refine h.congr (consistent_resize h.consistent hmem) rfl le_rfl ?_
    intro c
    exact ⟨resize_field Callstack.id (fun _ _ _ => rfl) c,
      resize_field Callstack.expiredCount (fun _ _ _ => rfl) c⟩
  · intro s b rest now l hop
    exact absurd hop (hcall now l)

end Call

/-! ## Whole histories -/

/-- The sweeps of a history use the limits of `main`, and all have returned with
no order to stop. -/
def Continues (memblockLimit callstackLimit : CInt) (s : Store) : Op → Prop
  | .sweep now lim => lim.memblockLimit = memblockLimit ∧ lim.callstackLimit = callstackLimit ∧
      ∃ r ∈ memblockExpireOutcome s now lim, 0 ≤ r.1
  | .call _ _ _ _ _ => True

theorem limited_init {lim : Limits} (hm : 0 < lim.memblockLimit.toInt)
    (hc : 0 < lim.callstackLimit.toInt) : Limited lim [] {} := by
  refine ⟨⟨placed_init, counted_init⟩, ?_, ⟨?_, ?_⟩⟩
  · exact ⟨List.nodup_nil, by decide, rfl, by simp, by simp, by simp, fun _ _ => ⟨rfl, rfl⟩⟩
  · simp [Store.numbered]
    omega
  · intro c
    exact hm

theorem Limited.of_limits {lim lim' : Limits} {order : List CallstackId} {s : Store}
    (h : Limited lim order s) (hm : lim'.memblockLimit = lim.memblockLimit)
    (hc : lim'.callstackLimit = lim.callstackLimit) : Limited lim' order s :=
  ⟨h.consistent, h.numbered, ⟨by rw [hc]; exact h.within.callstacks,
    by rw [hm]; exact h.within.blocks⟩⟩

theorem limited_run {lim : Limits} (hm : 0 < lim.memblockLimit.toInt)
    (hc : 0 < lim.callstackLimit.toInt) {ops : List Op}
    (hops : Along Store.step (Continues lim.memblockLimit lim.callstackLimit) {} ops) :
    Limited lim (expiryOrder ops) (Store.run ops) := by
  induction ops using List.reverseRecOn with
  | nil => exact limited_init hm hc
  | append_singleton ops op ih =>
      obtain ⟨hops, hop⟩ := (along_append_single _ _ _).mp hops
      have h := ih hops
      rw [expiryOrder_append_single, Store.run_append_single]
      cases op with
      | call api ret arg1 arg2 env =>
          exact limited_call h (fun _ _ heq => by cases heq)
      | sweep now l =>
          obtain ⟨hlm, hlc, r, hr, hres⟩ := hop
          exact ((h.of_limits hlm hlc).sweep hr hres).of_limits hlm.symm hlc.symm

/-! ## Where a sweep stops -/

/-- Expiring the overdue blocks `pre ++ [b]` at the head of the active list
leaves the limits at `b`, and not before. -/
structure FirstFailure (lim : Limits) (now : Int) (s : Store) (pre : List BlockId) (b : BlockId)
    (rest : List BlockId) : Prop where
  active : s.active = pre ++ b :: rest
  overdue : ∀ x ∈ pre ++ [b], lim.expire ≤ now - (s.block x).create
  before : ∀ q, q <+: pre → Within lim (q.foldl memblockExpireOne s)
  after : ¬ Within lim ((pre ++ [b]).foldl memblockExpireOne s)

section Stop

variable {lim : Limits} {now : Int} {s : Store} {pre pre' rest rest' : List BlockId}
  {b b' : BlockId}

theorem FirstFailure.unique (h : FirstFailure lim now s pre b rest)
    (h' : FirstFailure lim now s pre' b' rest') : pre = pre' ∧ b = b' ∧ rest = rest' := by
  -- the longer of two such beginnings would contain the shorter one with its failing block
  have hnot : ∀ {p p' : List BlockId} {x x' : BlockId} {r r' : List BlockId},
      FirstFailure lim now s p x r → FirstFailure lim now s p' x' r' → ¬ p.length < p'.length := by
    intro p p' x x' r r' hf hf' hlt
    apply hf.after
    apply hf'.before
    have heq := hf.active.symm.trans hf'.active
    have htake : (p ++ x :: r).take (p.length + 1) = (p' ++ x' :: r').take (p.length + 1) := by
      rw [heq]
    rw [List.take_append_of_le_length hlt, List.take_append, List.take_of_length_le (Nat.le_succ _)]
      at htake
    rw [Nat.add_sub_cancel_left, List.take_succ_cons, List.take_zero] at htake
    rw [htake]
    exact List.take_prefix _ _
  have hlen : pre.length = pre'.length :=
    le_antisymm (not_lt.mp (hnot h' h)) (not_lt.mp (hnot h h'))
  obtain ⟨hpre, hcons⟩ := List.append_inj (h.active.symm.trans h'.active) hlen
  obtain ⟨hb, hrest⟩ := List.cons.inj hcons
  exact ⟨hpre, hb, hrest⟩

theorem FirstFailure.head_overdue {todo : List BlockId} (h : FirstFailure lim now s pre b rest)
    (hact : s.active = b' :: todo) : lim.expire ≤ now - (s.block b').create := by
  apply h.overdue
  cases pre with
  | nil =>
      obtain ⟨rfl, -⟩ := List.cons.inj (hact.symm.trans h.active)
      simp
  | cons x pre =>
      obtain ⟨rfl, -⟩ := List.cons.inj (hact.symm.trans h.active)
      simp

theorem FirstFailure.cons {todo : List BlockId} (hact : s.active = b' :: todo)
    (hold : lim.expire ≤ now - (s.block b').create) (hw : Within lim s)
    (h : FirstFailure lim now (memblockExpireOne s b') pre b rest) :
    FirstFailure lim now s (b' :: pre) b rest where
  active := by
    rw [hact, ← expireOne_active hact, h.active]
    rfl
  overdue := by
    intro x hx
    rcases List.mem_cons.mp hx with rfl | hx
    · exact hold
    · have hage := h.overdue x hx
      rwa [(expireOne_block x).2.1] at hage
  before := by
    intro q hq
    cases q with
    | nil => exact hw
    | cons x q =>
        obtain ⟨rfl, htail⟩ := List.cons_prefix_cons.mp hq
        exact h.before q htail
  after := h.after

theorem FirstFailure.tail (hact : s.active = b' :: (pre ++ b :: rest))
    (h : FirstFailure lim now s (b' :: pre) b rest) :
    FirstFailure lim now (memblockExpireOne s b') pre b rest where
  active := expireOne_active hact
  overdue := by
    intro x hx
    rw [(expireOne_block x).2.1]
    exact h.overdue x (List.mem_cons_of_mem _ hx)
  before := by
    intro q hq
    exact h.before (b' :: q) (List.cons_prefix_cons.mpr ⟨rfl, hq⟩)
  after := h.after

/-- **Every outcome of a sweep.** It comes to the first failure, and stops there
unless a number has overflowed, or there is none and it returns the delay. -/
theorem memblockExpireOutcome_stops (hmax : lim.callstackLimit.toInt ≠ 2 ^ 31 - 1) :
    ∀ (todo : List BlockId) (s : Store) (order : List CallstackId),
      s.active = todo → Limited lim order s →
      (∃ pre b rest out, FirstFailure lim now s pre b rest ∧
        memblockExpireOutcomeLoop lim now todo s =
          if ((pre ++ [b]).foldl memblockExpireOne s).numbered.length = 2 ^ 31 - 1 then none
          else some (-1, { (pre ++ [b]).foldl memblockExpireOne s with out := out })) ∨
      ((∀ pre b rest, ¬ FirstFailure lim now s pre b rest) ∧
        ∃ s', memblockExpireOutcomeLoop lim now todo s = some (sweepDelay lim now s todo, s'))
  | [], s, order, hact, _ => by
      refine Or.inr ⟨?_, s, rfl⟩
      intro pre b rest hf
      have hnil := hf.active
      rw [hact] at hnil
      simp at hnil
  | b :: rest, s, order, hact, h => by
      have hb : b ∈ s.stored := List.mem_append_left _ (by simp [hact])
      have hp := h.consistent.toPlaced
      rw [memblockExpireOutcomeLoop]
      dsimp only
      by_cases hyoung : now - (s.block b).create < lim.expire
      · rw [if_pos hyoung]
        refine Or.inr ⟨?_, s, by simp [sweepDelay, hyoung]⟩
        intro pre' b' rest' hf
        exact absurd (hf.head_overdue hact) (not_le.mpr hyoung)
      · rw [if_neg hyoung]
        have hold := not_lt.mp hyoung
        have hiff := within_expireOne_iff hmax hp h.numbered h.within hb
        have hoverflow := expiryOverflows_iff hmax hp h.numbered h.within hb
        -- a failure right here
        have hhere : ¬ Within lim (memblockExpireOne s b) → FirstFailure lim now s [] b rest := by
          intro hfail
          refine ⟨hact, by simpa using hold, ?_, hfail⟩
          intro q hq
          rw [List.prefix_nil.mp hq]
          exact h.within
        by_cases hover : s.ExpiryOverflows b
        · rw [if_pos hover]
          have hlast := hoverflow.mp hover
          refine Or.inl ⟨[], b, rest, [], hhere fun hw => ?_, (if_pos hlast).symm⟩
          have hcallstacks := hw.callstacks
          have hlt := BitVec.two_mul_toInt_lt (x := lim.callstackLimit)
          omega
        · have hnot : ¬ (([] ++ [b]).foldl memblockExpireOne s).numbered.length = 2 ^ 31 - 1 :=
            fun hlast => hover (hoverflow.mpr hlast)
          rw [if_neg hover, if_neg hmax]
          simp only [limit_add_one_sle_iff hmax]
          by_cases hid : lim.callstackLimit.toInt + 1 ≤
              ((memblockExpireOne s b).table.object (s.block b).callstack).id.toInt
          · rw [if_pos hid]
            exact Or.inl ⟨[], b, rest, _, hhere fun hw => (hiff.mp hw).1 hid, (if_neg hnot).symm⟩
          · rw [if_neg hid]
            by_cases hcount : lim.memblockLimit.sle
                ((memblockExpireOne s b).table.object (s.block b).callstack).expiredCount
            · rw [if_pos hcount]
              exact Or.inl ⟨[], b, rest, _, hhere fun hw => (hiff.mp hw).2 hcount,
                (if_neg hnot).symm⟩
            · rw [if_neg hcount]
              have hw' := hiff.mpr ⟨hid, hcount⟩
              have h' : Limited lim (appear order (s.block b).callstack)
                  (memblockExpireOne s b) :=
                ⟨consistent_expireOne h.consistent hact,
                  numbered_expireOne hmax hp h.numbered h.within hb, hw'⟩
              rcases memblockExpireOutcome_stops hmax rest _ _ (expireOne_active hact) h' with
                ⟨pre, x, rest', out, hf, heq⟩ | ⟨hnone, s', heq⟩
              · exact Or.inl ⟨b :: pre, x, rest', out, hf.cons hact hold h.within, heq⟩
              · refine Or.inr ⟨?_, s', ?_⟩
                · intro pre x rest' hf
                  cases pre with
                  | nil =>
                      obtain ⟨rfl, -⟩ := List.cons.inj (hact.symm.trans hf.active)
                      exact hf.after hw'
                  | cons y pre =>
                      obtain ⟨rfl, -⟩ := List.cons.inj (hact.symm.trans hf.active)
                      exact hnone pre x rest' (hf.tail hf.active)
                · rw [heq, sweepDelay, sweepDelay, List.find?_cons_of_neg (by simpa using hold)]
                  simp only [(expireOne_block _).2.1]

end Stop

/-! ## The theorem -/

/-- What the numbers and counts of a store are to be after a history. -/
structure LimitsKept (lim : Limits) (ops : List Op) : Prop where
  /-- The callstacks with a number are those with an expired block: -/
  numbered : ∀ c, ((Store.run ops).table.object c).id ≠ 0 ↔
    0 < ((Store.run ops).table.object c).expiredCount.toInt
  /-- those that ever appeared, each once, -/
  appeared : ∀ c, ((Store.run ops).table.object c).id ≠ 0 ↔ c ∈ expiryOrder ops
  once : (expiryOrder ops).Nodup
  /-- numbered `1 .. k` in the order of their first expiry. -/
  ids : ∀ i (hi : i < (expiryOrder ops).length),
    ((Store.run ops).table.object (expiryOrder ops)[i]).id.toInt = i + 1
  callstacks : ((expiryOrder ops).length : Int) ≤ lim.callstackLimit.toInt
  blocks : ∀ c, ((Store.run ops).table.object c).expiredCount.toInt < lim.memblockLimit.toInt

/-- The sweep returns `-1` exactly when there is a first failure, and stops right
behind it. -/
structure SweepExact (lim : Limits) (now : Int) (s : Store) : Prop where
  defined : (memblockExpireOutcome s now lim).isSome
  stops_iff : (∃ s', memblockExpireOutcome s now lim = some (-1, s')) ↔
    ∃ pre b rest, FirstFailure lim now s pre b rest
  stops_there : ∀ pre b rest s', FirstFailure lim now s pre b rest →
    memblockExpireOutcome s now lim = some (-1, s') →
      s'.active = rest ∧ s'.expire = s.expire ++ (pre ++ [b]) ∧
        ∃ out, s' = { (pre ++ [b]).foldl memblockExpireOne s with out := out }

/-- The sweep computes with numbers that fit. -/
structure SweepFits (lim : Limits) (now : Int) (s : Store) : Prop where
  /-- `callstack_limit + 1` does not overflow, or is not computed: nothing is
  overdue. -/
  limit : lim.callstackLimit.toInt = 2 ^ 31 - 1 →
    ∀ b rest, s.active = b :: rest → now - (s.block b).create < lim.expire
  /-- `callstack_id++` does not overflow: the sweep stops before it has numbered
  2147483647 callstacks. -/
  number : ∀ pre b rest, FirstFailure lim now s pre b rest →
    ((pre ++ [b]).foldl memblockExpireOne s).numbered.length ≠ 2 ^ 31 - 1
  /-- The delay that is returned when no limit is reached does not become `-1`. -/
  delay : (∃ pre b rest, FirstFailure lim now s pre b rest) ∨ sweepDelay lim now s s.active ≠ -1

section Theorem

variable {lim : Limits} {now : Int} {s : Store} {order : List CallstackId}

theorem foldl_expireOne_lists (hp : Placed s) {swept rest : List BlockId}
    (hact : s.active = swept ++ rest) :
    (swept.foldl memblockExpireOne s).active = rest ∧
      (swept.foldl memblockExpireOne s).expire = s.expire ++ swept := by
  induction swept generalizing s with
  | nil => exact ⟨hact, by simp⟩
  | cons b swept ih =>
      obtain ⟨hactive, hexpire⟩ := ih (placed_expireOne hp hact) (expireOne_active hact)
      refine ⟨hactive, ?_⟩
      rw [List.foldl_cons, hexpire, expireOne_expire hp hact, List.append_assoc]
      rfl

/-- No more callstacks have a number than there are. -/
theorem length_numbered_foldl_le (swept : List BlockId) (s : Store) :
    (swept.foldl memblockExpireOne s).numbered.length ≤ s.table.fresh := by
  induction swept generalizing s with
  | nil => exact (List.length_filter_le _ _).trans_eq List.length_range
  | cons b swept ih =>
      rw [List.foldl_cons, ← memblockExpireOne_table_fresh s b]
      exact ih _

/-- Where the code stops is where it should. -/
theorem sweepExact_of_stop (hp : Placed s) {pre : List BlockId} {b : BlockId}
    {rest : List BlockId} {out : List Message} (hf : FirstFailure lim now s pre b rest)
    (heq : memblockExpireOutcome s now lim =
      some (-1, { (pre ++ [b]).foldl memblockExpireOne s with out := out })) :
    SweepExact lim now s := by
  refine ⟨by rw [heq]; rfl, iff_of_true ⟨_, heq⟩ ⟨pre, b, rest, hf⟩, ?_⟩
  intro pre' b' rest' s' hf' hs'
  obtain ⟨rfl, rfl, rfl⟩ := hf.unique hf'
  have hact : s.active = (pre ++ [b]) ++ rest := by
    rw [hf.active]
    simp
  have hlists := foldl_expireOne_lists hp hact
  obtain ⟨-, rfl⟩ := Prod.mk.inj (Option.some.inj (heq.symm.trans hs'))
  exact ⟨hlists.1, hlists.2, out, rfl⟩

/-- Without a failure the sweep is to return anything but `-1`. -/
theorem sweepExact_of_none (hnone : ∀ pre b rest, ¬ FirstFailure lim now s pre b rest)
    {delay : Int} {s' : Store} (heq : memblockExpireOutcome s now lim = some (delay, s')) :
    SweepExact lim now s ↔ delay ≠ -1 := by
  constructor
  · rintro h rfl
    obtain ⟨pre, b, rest, hf⟩ := h.stops_iff.mp ⟨s', heq⟩
    exact hnone pre b rest hf
  · intro hne
    refine ⟨by rw [heq]; rfl, iff_of_false ?_ ?_, fun pre b rest s' hf => ?_⟩
    · rintro ⟨s'', hstop⟩
      exact hne (Prod.mk.inj (Option.some.inj (heq.symm.trans hstop))).1
    · rintro ⟨pre, b, rest, hf⟩
      exact hnone pre b rest hf
    · exact absurd hf (hnone pre b rest)

theorem sweepExact_iff_of_room (hmax : lim.callstackLimit.toInt ≠ 2 ^ 31 - 1)
    (h : Limited lim order s) : SweepExact lim now s ↔ SweepFits lim now s := by
  rcases @memblockExpireOutcome_stops lim now hmax s.active s order rfl h with
    ⟨pre, b, rest, out, hf, heq⟩ | ⟨hnone, s', heq⟩
  · by_cases hlast : ((pre ++ [b]).foldl memblockExpireOne s).numbered.length = 2 ^ 31 - 1
    · rw [if_pos hlast] at heq
      refine iff_of_false ?_ ?_
      · intro hexact
        have hdefined := hexact.defined
        rw [memblockExpireOutcome, heq] at hdefined
        cases hdefined
      · exact fun hfits => hfits.number pre b rest hf hlast
    · rw [if_neg hlast] at heq
      refine iff_of_true (sweepExact_of_stop h.consistent.toPlaced hf heq) ?_
      refine ⟨fun hlim => absurd hlim hmax, ?_, Or.inl ⟨pre, b, rest, hf⟩⟩
      intro pre' b' rest' hf'
      obtain ⟨rfl, rfl, rfl⟩ := hf.unique hf'
      exact hlast
  · rw [sweepExact_of_none hnone heq]
    constructor
    · intro hdelay
      exact ⟨fun hlim => absurd hlim hmax, fun pre b rest hf => absurd hf (hnone pre b rest),
        Or.inr hdelay⟩
    · intro hfits
      rcases hfits.delay with ⟨pre, b, rest, hf⟩ | hdelay
      · exact absurd hf (hnone pre b rest)
      · exact hdelay

/-- The largest limit: the first expiry has no outcome. -/
theorem sweepExact_iff_of_largest (hmax : lim.callstackLimit.toInt = 2 ^ 31 - 1) :
    SweepExact lim now s ↔ SweepFits lim now s := by
  -- nothing is overdue, on either side
  have hyoung : SweepExact lim now s ∨ SweepFits lim now s →
      ∀ b rest, s.active = b :: rest → now - (s.block b).create < lim.expire := by
    rintro (hexact | hfits)
    · obtain ⟨r, hr⟩ := Option.isSome_iff_exists.mp hexact.defined
      exact (sweep_of_largest hmax hr).1
    · exact hfits.limit hmax
  by_cases hall : ∀ b rest, s.active = b :: rest → now - (s.block b).create < lim.expire
  · have hnone : ∀ pre b rest, ¬ FirstFailure lim now s pre b rest := by
      intro pre b rest hf
      cases hact : s.active with
      | nil =>
          have hnil := hf.active
          rw [hact] at hnil
          simp at hnil
      | cons x todo => exact absurd (hf.head_overdue hact) (not_le.mpr (hall x todo hact))
    have heq : memblockExpireOutcome s now lim = some (sweepDelay lim now s s.active, s) := by
      rw [memblockExpireOutcome]
      cases hact : s.active with
      | nil => rfl
      | cons x todo =>
          have hx := hall x todo hact
          simp [memblockExpireOutcomeLoop, sweepDelay, hx]
    rw [sweepExact_of_none hnone heq]
    constructor
    · intro hdelay
      exact ⟨fun _ => hall, fun pre b rest hf => absurd hf (hnone pre b rest), Or.inr hdelay⟩
    · intro hfits
      rcases hfits.delay with ⟨pre, b, rest, hf⟩ | hdelay
      · exact absurd hf (hnone pre b rest)
      · exact hdelay
  · exact iff_of_false (fun h => hall (hyoung (Or.inl h))) fun h => hall (hyoung (Or.inr h))

end Theorem

/-- **Identifiers and stop limits.** In every run whose sweeps have so far all
returned a value `>= 0`, the numbers are those of the order of first expiry and
every callstack is within the limits. The next sweep has an outcome and stops
exactly where a limit is reached, if and only if it computes with numbers that
fit. -/
theorem stopLimits (memblockLimit callstackLimit : CInt) (hm : 0 < memblockLimit.toInt)
    (hc : 0 < callstackLimit.toInt) (ops : List Op)
    (hops : Along Store.step (Continues memblockLimit callstackLimit) {} ops) (now expire : Int) :
    LimitsKept ⟨expire, memblockLimit, callstackLimit⟩ ops ∧
      (SweepExact ⟨expire, memblockLimit, callstackLimit⟩ now (Store.run ops) ↔
        SweepFits ⟨expire, memblockLimit, callstackLimit⟩ now (Store.run ops)) := by
  have h : Limited ⟨expire, memblockLimit, callstackLimit⟩ (expiryOrder ops) (Store.run ops) :=
    limited_run hm hc hops
  constructor
  · refine ⟨?_, ?_, h.numbered.nodup, fun i hi => h.numbered.id_toInt hi, ?_, h.within.blocks⟩
    · intro c
      rw [h.numbered.expired_iff, ne_eq, h.numbered.id_eq_zero_iff, not_not]
    · intro c
      rw [ne_eq, h.numbered.id_eq_zero_iff, not_not]
    · rw [← h.numbered.length_numbered]
      exact h.within.callstacks
  · by_cases hmax : callstackLimit.toInt = 2 ^ 31 - 1
    · exact sweepExact_iff_of_largest hmax
    · exact sweepExact_iff_of_room hmax h

/-- Two blocks of two callstacks and a sweep with the default limits, which
expires one of them. -/
def oneExpires : List Op :=
  [.call .malloc 0x5000 100 0 { now := 0, ips := [0x1000, 0x2000] },
    .call .malloc 0x6000 100 0 { now := 8, ips := [0x1000, 0x2400] },
    .sweep 12 { expire := 10, memblockLimit := 1000, callstackLimit := 1000 }]

theorem stopLimits_oneExpires :
    expiryOrder oneExpires = [0] ∧ LimitsKept ⟨10, 1000, 1000⟩ oneExpires ∧
      SweepExact ⟨10, 1000, 1000⟩ 20 (Store.run oneExpires) := by
  have hsweep : ((memblockExpireOutcome (Store.run (oneExpires.take 2)) 12
      ⟨10, 1000, 1000⟩).map Prod.fst) = some 7 := by decide +kernel
  obtain ⟨r, hr, hdelay⟩ := Option.map_eq_some_iff.mp hsweep
  have h := stopLimits 1000 1000 (by decide) (by decide) oneExpires
    ⟨trivial, trivial, ⟨rfl, rfl, r, hr, by rw [hdelay]; decide⟩, trivial⟩ 20 10
  refine ⟨by decide +kernel, h.1, h.2.mpr ⟨?_, ?_, Or.inr ?_⟩⟩
  · intro hmax
    exact absurd hmax (by decide)
  · intro pre b rest _
    have hfresh : (Store.run oneExpires).table.fresh = 2 := by decide +kernel
    have hle := length_numbered_foldl_le (pre ++ [b]) (Store.run oneExpires)
    exact (lt_of_le_of_lt hle (by rw [hfresh]; decide)).ne
  · decide +kernel

/-- One block, which a sweep with the largest `callstack_limit` finds overdue. -/
def oneOverdue : List Op :=
  [.call .malloc 0x5000 100 0 { now := 0, ips := [0x1000, 0x2000] }]

/-- The expiry of the block reaches no limit, but then `callstack_limit + 1`
overflows. -/
theorem largest_limit_undefined :
    Along Store.step (Continues 1000 2147483647) {} oneOverdue ∧
      Within ⟨10, 1000, 2147483647⟩ (memblockExpireOne (Store.run oneOverdue) 0) ∧
      memblockExpireOutcome (Store.run oneOverdue) 20 ⟨10, 1000, 2147483647⟩ = none ∧
      ¬ SweepExact ⟨10, 1000, 2147483647⟩ 20 (Store.run oneOverdue) := by
  have hres : memblockExpireOutcome (Store.run oneOverdue) 20 ⟨10, 1000, 2147483647⟩ = none := by
    rw [← Option.isNone_iff_eq_none]
    decide +kernel
  refine ⟨⟨trivial, trivial⟩, ⟨by decide +kernel, ?_⟩, hres, ?_⟩
  · -- one numbered callstack with one expired block
    intro c
    have hcs : ((Store.run oneOverdue).block 0).callstack = 0 := by decide +kernel
    by_cases hc : c = 0
    · rw [hc]
      decide +kernel
    · have hfresh : (Store.run oneOverdue).table.fresh = 1 := by decide +kernel
      show ((memblockExpireOne (Store.run oneOverdue) 0).table.object c).expiredCount.toInt < _
      rw [expireOne_object_of_ne (by rw [hcs]; exact hc),
        unborn_run oneOverdue c (by rw [hfresh]; exact Nat.one_le_iff_ne_zero.mpr hc)]
      decide
  · intro h
    have hdefined := h.defined
    rw [hres] at hdefined
    cases hdefined

end Memleax
