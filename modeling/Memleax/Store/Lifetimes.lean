import Memleax.Store.Ages
import Mathlib.Algebra.Order.BigOperators.Group.List

/-!
# Lifetimes of freed blocks

`memblock_delete` folds the lifetimes of the blocks freed at a callstack into
`free_min`, `free_max` and `free_total`. The fold of the minimum starts at `0`
and takes `0` for "nothing freed yet", but `0` is also the lifetime of a block
that is freed within the second in which it was allocated: the next lifetime
then replaces it. So the three figures are right exactly when no lifetime is
`0`, or the last one is, and the total fits an `int` (`lifetimes_iff`).
-/

namespace Memleax

/-! ## The lifetimes of a history -/

/-- The block that an operation frees, with the time that `memblock_delete`
reads. -/
def freedBy (s : Store) : Op → Option (BlockId × Int)
  | .call .free _ pointer _ env => (memblockSearch s pointer).map fun b => (b, env.freeNow)
  | .call .realloc newPointer oldPointer _ env =>
      if newPointer = oldPointer then none
      else (memblockSearch s oldPointer).map fun b => (b, env.freeNow)
  | _ => none

/-- The lifetime that an operation adds to those of callstack `c`. -/
def lifetimesBy (c : CallstackId) (s : Store) (op : Op) : List Int :=
  match freedBy s op with
  | none => []
  | some (b, now) => if (s.block b).callstack = c then [now - (s.block b).create] else []

/-- The lifetimes of the blocks freed at callstack `c`, in the order of the
frees. -/
def lifetimes (c : CallstackId) : Store → List Op → List Int
  | _, [] => []
  | s, op :: ops => lifetimesBy c s op ++ lifetimes c (s.step op) ops

theorem lifetimes_append (c : CallstackId) (s : Store) (ops ops' : List Op) :
    lifetimes c s (ops ++ ops') =
      lifetimes c s ops ++ lifetimes c (ops.foldl Store.step s) ops' := by
  induction ops generalizing s with
  | nil => rfl
  | cons op ops ih => simp [lifetimes, ih]

theorem lifetimes_append_single (c : CallstackId) (ops : List Op) (op : Op) :
    lifetimes c {} (ops ++ [op]) = lifetimes c {} ops ++ lifetimesBy c (Store.run ops) op := by
  rw [lifetimes_append]
  simp [lifetimes, Store.run]

/-! ## The figures are a fold over the lifetimes -/

/-- What a callstack keeps of its freed blocks. -/
structure FreeStats where
  count : CInt := 0
  total : CInt := 0
  max : CInt := 0
  min : CInt := 0

def Callstack.freeStats (cs : Callstack) : FreeStats :=
  ⟨cs.freeCount, cs.freeTotal, cs.freeMax, cs.freeMin⟩

/-- One more block freed. -/
def FreeStats.free (st : FreeStats) (freeTime : Int) : FreeStats where
  count := st.count + 1
  total := CInt.ofTime (st.total.toInt + freeTime)
  max := if freeTime > st.max.toInt then CInt.ofTime freeTime else st.max
  min := if st.min = 0 ∨ freeTime < st.min.toInt then CInt.ofTime freeTime else st.min

theorem Callstack.countDelete_freeStats (cs : Callstack) (mb : Memblock) (freeTime : Int) :
    (cs.countDelete mb freeTime).freeStats = cs.freeStats.free freeTime := by
  unfold Callstack.countDelete
  split
  · rfl
  · rfl

section Step

variable {s : Store}

theorem delete_freeStats (s : Store) (now : Int) (b : BlockId) (c : CallstackId) :
    ((s.delete now b).table.object c).freeStats =
      (if (s.block b).callstack = c then [now - (s.block b).create] else []).foldl FreeStats.free
        (s.table.object c).freeStats := by
  by_cases hc : (s.block b).callstack = c
  · subst hc
    rw [delete_object_self, Callstack.countDelete_freeStats, if_pos rfl]
    rfl
  · rw [delete_object_of_ne (Ne.symm hc), if_neg hc]
    rfl

/-- A new callstack starts with zeros, as it was before. -/
theorem lookup_freeStats (hu : Unborn s) (env : Env) (c : CallstackId) :
    ((callstackCurrent s.table env.beyond env.callstackMalloc env.ips).2.object c).freeStats =
      (s.table.object c).freeStats := by
  unfold callstackCurrent
  split
  · rfl
  · split
    · by_cases hc : c = s.table.fresh
      · subst hc
        rw [hu _ le_rfl]
        simp [CallstackTable.create, Callstack.freeStats]
      · simp [CallstackTable.create, hc]
    · rfl

theorem link_freeStats (s : Store) (mb : Memblock) (c : CallstackId) :
    ((s.link mb).table.object c).freeStats = (s.table.object c).freeStats := by
  by_cases hc : c = mb.callstack
  · subst hc
    rw [link_object_self]
    rfl
  · rw [link_object_of_ne hc]

theorem memblockNew_freeStats (hu : Unborn s) (env : Env) (pointer size : Word)
    (c : CallstackId) : ((memblockNew s env pointer size).2.table.object c).freeStats =
      (s.table.object c).freeStats := by
  have hlookup := lookup_freeStats hu env c
  unfold memblockNew
  split
  · exact hlookup
  · split
    · rfl
    · split
      · rename_i table hcs
        rw [hcs] at hlookup
        exact hlookup
      · rename_i cs table hcs
        rw [hcs] at hlookup
        rw [link_freeStats]
        exact hlookup

theorem sweep_freeStats (s : Store) (now : Int) (lim : Limits) (c : CallstackId) :
    ((memblockExpire s now lim).2.table.object c).freeStats = (s.table.object c).freeStats := by
  refine memblockExpireLoop_induct
    (P := fun s' => (s'.table.object c).freeStats = (s.table.object c).freeStats)
    ?_ ?_ s.active s rfl rfl
  · intro s' out h
    exact h
  · intro s' b rest h _ _
    obtain ⟨id, hobject⟩ := memblockExpireOne_object s' b c
    rw [hobject]
    split
    · exact h
    · exact h

/-- **One operation** frees what `lifetimesBy` says. -/
theorem step_freeStats (hs : Consistent s) (hu : Unborn s) (op : Op) (c : CallstackId) :
    ((s.step op).table.object c).freeStats =
      (lifetimesBy c s op).foldl FreeStats.free (s.table.object c).freeStats := by
  cases op with
  | sweep now lim => exact sweep_freeStats s now lim c
  | call api ret arg1 arg2 env =>
      cases api with
      | malloc => exact memblockNew_freeStats hu env ret arg1 c
      | calloc => exact memblockNew_freeStats hu env ret (arg1 * arg2) c
      | free =>
          cases hb : memblockSearch s arg1 with
          | none =>
              simp [Store.step, Api.handler, bphFree, memblockDelete, lifetimesBy, freedBy, hb]
          | some b =>
              simp only [Store.step, Api.handler, bphFree, memblockDelete, lifetimesBy, freedBy, hb,
                Option.map_some]
              exact delete_freeStats s env.freeNow b c
      | realloc =>
          by_cases hin : ret = arg1
          · -- an in-place resize frees nothing
            subst hin
            cases hb : memblockSearch s ret with
            | none =>
                simp [Store.step, Api.handler, bphRealloc, memblockUpdateSize, lifetimesBy,
                  freedBy, hb]
            | some b =>
                simp only [Store.step, Api.handler, bphRealloc, memblockUpdateSize, lifetimesBy,
                  freedBy, hb, if_true]
                by_cases hc : c = (s.block b).callstack
                · subst hc
                  rw [resize_object_self]
                  rfl
                · rw [resize_object_of_ne hc]
                  rfl
          · simp only [Store.step, Api.handler, bphRealloc, if_neg hin]
            cases hb : memblockSearch s arg1 with
            | none =>
                rw [memblockDelete, memblockNew_freeStats hu]
                simp [lifetimesBy, freedBy, hin, hb]
            | some b =>
                have hu' := unborn_delete hs.toPlaced hu (hs.mem_stored_of_search hb) env.freeNow
                rw [memblockDelete, memblockNew_freeStats hu', delete_freeStats]
                simp [lifetimesBy, freedBy, hin, hb]

end Step

theorem run_freeStats (ops : List Op) (c : CallstackId) :
    ((Store.run ops).table.object c).freeStats =
      (lifetimes c {} ops).foldl FreeStats.free {} := by
  induction ops using List.reverseRecOn with
  | nil => rfl
  | append_singleton ops op ih =>
      rw [Store.run_append_single, step_freeStats (consistent_run ops) (unborn_run ops), ih,
        lifetimes_append_single, List.foldl_append]

/-! ## What the fold computes -/

section Fold

theorem foldl_free_append_single (ts : List Int) (t : Int) :
    (ts ++ [t]).foldl FreeStats.free {} = (ts.foldl FreeStats.free {}).free t := by
  rw [List.foldl_append]
  rfl

theorem foldl_free_count (ts : List Int) :
    (ts.foldl FreeStats.free {}).count = BitVec.ofNat 32 ts.length := by
  induction ts using List.reverseRecOn with
  | nil => rfl
  | append_singleton ts t ih =>
      rw [foldl_free_append_single, List.length_append, BitVec.ofNat_add]
      show (ts.foldl FreeStats.free {}).count + 1 = _
      rw [ih]
      rfl

/-- The total is the sum, modulo `2 ^ 32`. -/
theorem foldl_free_total (ts : List Int) :
    (ts.foldl FreeStats.free {}).total = BitVec.ofInt 32 ts.sum := by
  induction ts using List.reverseRecOn with
  | nil => rfl
  | append_singleton ts t ih =>
      rw [foldl_free_append_single, List.sum_append, List.sum_singleton]
      show BitVec.ofInt 32 ((ts.foldl FreeStats.free {}).total.toInt + t) = _
      rw [BitVec.ofInt_add, BitVec.ofInt_toInt, ih, BitVec.ofInt_add]

variable {ts : List Int}

/-- Lifetimes that an `int` holds. -/
def Fitting (ts : List Int) : Prop := ∀ t ∈ ts, 0 ≤ t ∧ t < 2 ^ 31

theorem Fitting.init {t : Int} (h : Fitting (ts ++ [t])) : Fitting ts ∧ 0 ≤ t ∧ t < 2 ^ 31 :=
  ⟨fun x hx => h x (List.mem_append_left _ hx), h t (by simp)⟩

theorem foldl_free_max (h : Fitting ts) :
    IsGreatest {t | t = 0 ∨ t ∈ ts} (ts.foldl FreeStats.free {}).max.toInt := by
  induction ts using List.reverseRecOn with
  | nil => exact ⟨Or.inl rfl, by rintro t (rfl | ht); exacts [le_rfl, absurd ht List.not_mem_nil]⟩
  | append_singleton ts t ih =>
      obtain ⟨hts, h₀, hlt⟩ := h.init
      obtain ⟨hmem, hbound⟩ := ih hts
      rw [foldl_free_append_single]
      simp only [FreeStats.free]
      split
      · rename_i hgt
        rw [CInt.toInt_ofTime h₀ hlt]
        refine ⟨Or.inr (by simp), ?_⟩
        rintro x (rfl | hx)
        · exact h₀
        · rcases List.mem_append.mp hx with hx | hx
          · exact le_of_lt (lt_of_le_of_lt (hbound (Or.inr hx)) hgt)
          · exact le_of_eq (List.mem_singleton.mp hx)
      · rename_i hle
        refine ⟨hmem.imp id (List.mem_append_left _), ?_⟩
        rintro x (rfl | hx)
        · exact hbound (Or.inl rfl)
        · rcases List.mem_append.mp hx with hx | hx
          · exact hbound (Or.inr hx)
          · rw [List.mem_singleton.mp hx]
            exact not_lt.mp hle

/-- What is kept as the minimum is one of the lifetimes. -/
theorem foldl_free_min_mem (h : Fitting ts) (hne : ts ≠ []) :
    (ts.foldl FreeStats.free {}).min.toInt ∈ ts := by
  induction ts using List.reverseRecOn with
  | nil => exact absurd rfl hne
  | append_singleton ts t ih =>
      obtain ⟨hts, h₀, hlt⟩ := h.init
      rw [foldl_free_append_single]
      simp only [FreeStats.free]
      split
      · rw [CInt.toInt_ofTime h₀ hlt]
        simp
      · rename_i hkeep
        apply List.mem_append_left
        apply ih hts
        -- before the first free the kept minimum is `0`
        rintro rfl
        exact hkeep (Or.inl rfl)

/-- The minimum is `0` exactly after a lifetime of `0`. -/
theorem foldl_free_min_zero_iff (h : Fitting ts) (hne : ts ≠ []) :
    (ts.foldl FreeStats.free {}).min.toInt = 0 ↔ ts.getLast? = some 0 := by
  induction ts using List.reverseRecOn with
  | nil => exact absurd rfl hne
  | append_singleton ts t _ =>
      obtain ⟨hts, h₀, hlt⟩ := h.init
      have hlast : (ts ++ [t]).getLast? = some 0 ↔ t = 0 := by simp
      rw [hlast, foldl_free_append_single]
      simp only [FreeStats.free]
      split
      · rw [CInt.toInt_ofTime h₀ hlt]
      · rename_i hkeep
        obtain ⟨hzero, hle⟩ := not_or.mp hkeep
        have hbefore : ts ≠ [] := by
          rintro rfl
          exact hzero rfl
        have hnonneg := (hts _ (foldl_free_min_mem hts hbefore)).1
        have hmin : (ts.foldl FreeStats.free {}).min.toInt ≠ 0 :=
          fun heq => hzero (BitVec.eq_of_toInt_eq heq)
        constructor <;> intro heq <;> omega

/-- Without a lifetime of `0` the minimum is the minimum. -/
theorem foldl_free_min_le (h : Fitting ts) (hpos : 0 ∉ ts) :
    ∀ t ∈ ts, (ts.foldl FreeStats.free {}).min.toInt ≤ t := by
  induction ts using List.reverseRecOn with
  | nil => simp
  | append_singleton ts t ih =>
      obtain ⟨hts, h₀, hlt⟩ := h.init
      have hpos' : 0 ∉ ts := fun hmem => hpos (List.mem_append_left _ hmem)
      intro x hx
      rw [foldl_free_append_single]
      simp only [FreeStats.free]
      split
      · rename_i hnew
        rw [CInt.toInt_ofTime h₀ hlt]
        rcases List.mem_append.mp hx with hx | hx
        · rcases hnew with hzero | hless
          · -- the minimum kept so far is a lifetime, and none is `0`
            have hmem := foldl_free_min_mem hts (List.ne_nil_of_mem hx)
            rw [hzero] at hmem
            exact absurd hmem hpos'
          · exact le_of_lt (lt_of_lt_of_le hless (ih hts hpos' x hx))
        · exact le_of_eq (List.mem_singleton.mp hx).symm
      · rename_i hkeep
        rcases List.mem_append.mp hx with hx | hx
        · exact ih hts hpos' x hx
        · rw [List.mem_singleton.mp hx]
          exact not_lt.mp (not_or.mp hkeep).2

/-- **The sentinel of the minimum.** -/
theorem foldl_free_min_isLeast_iff (h : Fitting ts) (hne : ts ≠ []) :
    IsLeast {t | t ∈ ts} (ts.foldl FreeStats.free {}).min.toInt ↔
      0 ∉ ts ∨ ts.getLast? = some 0 := by
  have hmem := foldl_free_min_mem h hne
  constructor
  · intro hleast
    by_cases hzero : 0 ∈ ts
    · right
      apply (foldl_free_min_zero_iff h hne).mp
      exact le_antisymm (hleast.2 hzero) (h _ hmem).1
    · exact Or.inl hzero
  · rintro (hpos | hlast)
    · exact ⟨hmem, fun t ht => foldl_free_min_le h hpos t ht⟩
    · refine ⟨hmem, fun t ht => ?_⟩
      rw [(foldl_free_min_zero_iff h hne).mpr hlast]
      exact (h t ht).1

theorem foldl_free_max_isGreatest (h : Fitting ts) (hne : ts ≠ []) :
    IsGreatest {t | t ∈ ts} (ts.foldl FreeStats.free {}).max.toInt := by
  obtain ⟨hmem, hbound⟩ := foldl_free_max h
  refine ⟨?_, fun t ht => hbound (Or.inr ht)⟩
  rcases hmem with hzero | hmem
  · -- then every lifetime is `0`
    obtain ⟨t, ht⟩ := List.exists_mem_of_ne_nil ts hne
    have hle := hbound (Or.inr ht)
    have hge := (h t ht).1
    have heq : t = (ts.foldl FreeStats.free {}).max.toInt := by omega
    exact heq ▸ ht
  · exact hmem

end Fold

/-! ## Lifetimes are not negative -/

theorem ClockMonotone.before {ops : List Op} {op : Op} (h : ClockMonotone (ops ++ [op]))
    {t : Int} (ht : t ∈ op.readings) : ∀ op' ∈ ops, op'.now ≤ t := by
  rw [ClockMonotone, List.flatMap_append, List.pairwise_append] at h
  intro op' hop'
  refine h.2.2 _ (List.mem_flatMap.mpr ⟨op', hop', op'.now_mem_readings⟩) t ?_
  simpa using ht

theorem freedBy_spec {s : Store} (hs : Placed s) {op : Op} {b : BlockId} {now : Int}
    (h : freedBy s op = some (b, now)) : b ∈ s.stored ∧ now ∈ op.readings := by
  have hfound : ∀ {pointer : Word} {env : Env},
      (memblockSearch s pointer).map (fun b => (b, env.freeNow)) = some (b, now) →
        b ∈ s.stored ∧ now = env.freeNow := by
    intro pointer env heq
    obtain ⟨b', hb, heq⟩ := Option.map_eq_some_iff.mp heq
    cases heq
    exact ⟨hs.mem_stored_of_search hb, rfl⟩
  cases op with
  | sweep now lim => cases h
  | call api ret arg1 arg2 env =>
      cases api with
      | malloc => cases h
      | calloc => cases h
      | free =>
          obtain ⟨hb, rfl⟩ := hfound h
          exact ⟨hb, by simp [Op.readings]⟩
      | realloc =>
          simp only [freedBy] at h
          split at h
          · cases h
          · obtain ⟨hb, rfl⟩ := hfound h
            exact ⟨hb, by simp [Op.readings]⟩

theorem lifetimes_nonneg {ops : List Op} (hclock : ClockMonotone ops) (c : CallstackId) :
    ∀ t ∈ lifetimes c {} ops, 0 ≤ t := by
  induction ops using List.reverseRecOn with
  | nil => simp [lifetimes]
  | append_singleton ops op ih =>
      intro t ht
      rw [lifetimes_append_single] at ht
      rcases List.mem_append.mp ht with ht | ht
      · exact ih hclock.init.1 t ht
      · unfold lifetimesBy at ht
        split at ht
        · cases ht
        · rename_i b now hfreed
          obtain ⟨hb, hnow⟩ := freedBy_spec (consistent_run ops).toPlaced hfreed
          have htimely : Timely 0 now (Store.run ops) := timely_run_of hclock.init.1
            (fun op _ => op.expiresNotBefore_zero) now (hclock.before hnow)
          split at ht
          · rw [List.mem_singleton.mp ht]
            exact sub_nonneg.mpr (htimely.born b hb)
          · cases ht

/-! ## The theorem -/

/-- The average that `callstack_report` prints. -/
def Callstack.freeAverage (cs : Callstack) : CInt :=
  if cs.freeCount ≠ 0 then cs.freeTotal.sdiv cs.freeCount else 0

/-- The figures of a callstack are those of the lifetimes `ts`. -/
structure LifetimesRight (cs : Callstack) (ts : List Int) : Prop where
  min : IsLeast {t | t ∈ ts} cs.freeMin.toInt
  max : IsGreatest {t | t ∈ ts} cs.freeMax.toInt
  total : cs.freeTotal.toInt = ts.sum
  average : cs.freeMin.toInt ≤ cs.freeAverage.toInt ∧ cs.freeAverage.toInt ≤ cs.freeMax.toInt

/-- The lifetimes that the figures can take. -/
structure LifetimesFit (ts : List Int) : Prop where
  /-- No lifetime is `0`, or the last one is. -/
  sentinel : 0 ∉ ts ∨ ts.getLast? = some 0
  total : ts.sum < 2 ^ 31
  /-- The count fits, or has wrapped to an `int` that is still large enough for
  the average not to exceed all lifetimes. -/
  count : ts.length < 2 ^ 31 ∨ ∃ t ∈ ts, ts.sum < (t + 1) * (BitVec.ofNat 32 ts.length).toInt

section Theorem

variable {ts : List Int}

theorem fitting_of_sum_lt (h₀ : ∀ t ∈ ts, 0 ≤ t) (h : ts.sum < 2 ^ 31) : Fitting ts :=
  fun t ht => ⟨h₀ t ht, lt_of_le_of_lt (List.single_le_sum h₀ t ht) h⟩

theorem toInt_ofInt_sum_iff (h₀ : ∀ t ∈ ts, 0 ≤ t) :
    (BitVec.ofInt 32 ts.sum).toInt = ts.sum ↔ ts.sum < 2 ^ 31 := by
  constructor
  · intro heq
    have hlt := BitVec.two_mul_toInt_lt (x := BitVec.ofInt 32 ts.sum)
    omega
  · exact CInt.toInt_ofTime (List.sum_nonneg h₀)

/-- A positive `int` that is `n` modulo `2 ^ 32` is not larger than `n`. -/
theorem toInt_ofNat_le {n : Nat} (h : 0 < (BitVec.ofNat 32 n).toInt) :
    (BitVec.ofNat 32 n).toInt ≤ n := by
  rw [BitVec.toInt_ofNat', Int.bmod_def] at h ⊢
  omega

/-- The average of the figures, as a quotient of numbers. -/
theorem freeAverage_toInt {cs : Callstack} (hcount : 0 < cs.freeCount.toInt)
    (htotal : 0 ≤ cs.freeTotal.toInt) :
    cs.freeAverage.toInt = cs.freeTotal.toInt / cs.freeCount.toInt := by
  have hne : cs.freeCount ≠ 0 := by
    intro heq
    rw [heq] at hcount
    simp at hcount
  have hneg : cs.freeCount ≠ -1#32 := by
    intro heq
    rw [heq] at hcount
    simp at hcount
  rw [Callstack.freeAverage, if_pos hne, BitVec.toInt_sdiv_of_ne_or_ne _ _ (Or.inr hneg),
    Int.tdiv_eq_ediv_of_nonneg htotal]

end Theorem

/-- **Lifetime statistics.** After a history whose clock readings do not
decrease, the figures of a callstack with `free_count > 0` are those of the
blocks freed at it exactly when the lifetimes are such that the figures can
take them. -/
theorem lifetimes_iff (ops : List Op) (hclock : ClockMonotone ops) (c : CallstackId)
    (hcount : 0 < ((Store.run ops).table.object c).freeCount.toInt) :
    LifetimesRight ((Store.run ops).table.object c) (lifetimes c {} ops) ↔
      LifetimesFit (lifetimes c {} ops) := by
  have h₀ := lifetimes_nonneg hclock c
  have hstats := run_freeStats ops c
  generalize (Store.run ops).table.object c = cs at hcount hstats ⊢
  generalize lifetimes c {} ops = ts at h₀ hstats ⊢
  have hn : cs.freeCount = BitVec.ofNat 32 ts.length :=
    (congrArg FreeStats.count hstats).trans (foldl_free_count ts)
  have hsum : cs.freeTotal = BitVec.ofInt 32 ts.sum :=
    (congrArg FreeStats.total hstats).trans (foldl_free_total ts)
  have hmax : cs.freeMax = (ts.foldl FreeStats.free {}).max := congrArg FreeStats.max hstats
  have hmin : cs.freeMin = (ts.foldl FreeStats.free {}).min := congrArg FreeStats.min hstats
  have hne : ts ≠ [] := by
    rintro rfl
    rw [hn] at hcount
    simp at hcount
  have hsum₀ : 0 ≤ ts.sum := List.sum_nonneg h₀
  constructor
  · intro h
    have htotal : ts.sum < 2 ^ 31 := (toInt_ofInt_sum_iff h₀).mp (hsum ▸ h.total)
    have hfit := fitting_of_sum_lt h₀ htotal
    refine ⟨?_, htotal, Or.inr ⟨cs.freeMax.toInt, h.max.1, ?_⟩⟩
    · exact (foldl_free_min_isLeast_iff hfit hne).mp (hmin ▸ h.min)
    · have haverage := h.average.2
      rw [freeAverage_toInt hcount (h.total ▸ hsum₀), h.total] at haverage
      rw [← hn]
      exact (Int.ediv_lt_iff_lt_mul hcount).mp (Int.lt_add_one_of_le haverage)
  · intro h
    have hfit := fitting_of_sum_lt h₀ h.total
    have hleast : IsLeast {t | t ∈ ts} cs.freeMin.toInt :=
      hmin ▸ (foldl_free_min_isLeast_iff hfit hne).mpr h.sentinel
    have hgreatest : IsGreatest {t | t ∈ ts} cs.freeMax.toInt :=
      hmax ▸ foldl_free_max_isGreatest hfit hne
    have htotal : cs.freeTotal.toInt = ts.sum := hsum ▸ (toInt_ofInt_sum_iff h₀).mpr h.total
    refine ⟨hleast, hgreatest, htotal, ?_⟩
    rw [freeAverage_toInt hcount (htotal ▸ hsum₀), htotal]
    constructor
    · -- the count is at most the number of frees, each of at least the minimum
      have hle : cs.freeCount.toInt ≤ ts.length := by
        rw [hn] at hcount ⊢
        exact toInt_ofNat_le hcount
      have hlower : (ts.length : Int) * cs.freeMin.toInt ≤ ts.sum := by
        have := List.card_nsmul_le_sum ts cs.freeMin.toInt fun t ht => hleast.2 ht
        simpa using this
      apply (Int.le_ediv_iff_mul_le hcount).mpr
      have hmin₀ : 0 ≤ cs.freeMin.toInt := h₀ _ hleast.1
      calc cs.freeMin.toInt * cs.freeCount.toInt
          ≤ cs.freeMin.toInt * ts.length := Int.mul_le_mul_of_nonneg_left hle hmin₀
        _ = ts.length * cs.freeMin.toInt := Int.mul_comm _ _
        _ ≤ ts.sum := hlower
    · apply Int.le_of_lt_add_one
      apply (Int.ediv_lt_iff_lt_mul hcount).mpr
      rcases h.count with hlt | ⟨t, ht, hlt⟩
      · have hexact : cs.freeCount.toInt = ts.length := toInt_of_eq_ofNat hn hlt
        have hupper : ts.sum ≤ ts.length * cs.freeMax.toInt := by
          have := List.sum_le_card_nsmul ts cs.freeMax.toInt fun t ht => hgreatest.2 ht
          simpa using this
        rw [hexact] at hcount ⊢
        calc ts.sum ≤ ts.length * cs.freeMax.toInt := hupper
          _ < (cs.freeMax.toInt + 1) * ts.length := by
            rw [Int.add_mul, Int.mul_comm]
            omega
      · rw [← hn] at hlt
        refine lt_of_lt_of_le hlt ?_
        apply Int.mul_le_mul_of_nonneg_right _ (le_of_lt hcount)
        have := hgreatest.2 ht
        omega

/-- Two blocks that live for three and for five seconds. -/
def slowFrees : List Op :=
  [.call .malloc 0x5000 100 0 { now := 0, ips := [0x1000, 0x2000] },
    .call .malloc 0x6000 100 0 { now := 1, ips := [0x1000, 0x2000] },
    .call .free 0 0x6000 0 { now := 4, ips := [0x1200, 0x2000] },
    .call .free 0 0x5000 0 { now := 5, ips := [0x1200, 0x2000] }]

theorem lifetimes_iff_slowFrees :
    lifetimes 0 {} slowFrees = [3, 5] ∧
      LifetimesRight ((Store.run slowFrees).table.object 0) (lifetimes 0 {} slowFrees) := by
  have htimes : lifetimes 0 {} slowFrees = [3, 5] := by decide +kernel
  have hclock : ClockMonotone slowFrees := by
    unfold ClockMonotone
    decide +kernel
  refine ⟨htimes, (lifetimes_iff slowFrees hclock 0 (by decide +kernel)).mpr ?_⟩
  rw [htimes]
  exact ⟨Or.inl (by decide), by decide, Or.inl (by decide)⟩

/-- A block freed within the second of its allocation, then one that lives for
five seconds, from one callstack. -/
def quickThenSlow : List Op :=
  [.call .malloc 0x5000 100 0 { now := 0, ips := [0x1000, 0x2000] },
    .call .free 0 0x5000 0 { now := 0, ips := [0x1200, 0x2000] },
    .call .malloc 0x5000 100 0 { now := 0, ips := [0x1000, 0x2000] },
    .call .free 0 0x5000 0 { now := 5, ips := [0x1200, 0x2000] }]

/-- The report says that no block lived for less than five seconds. -/
theorem free_min_forgets_zero :
    ClockMonotone quickThenSlow ∧
      ((Store.run quickThenSlow).table.object 0).freeCount.toInt = 2 ∧
      lifetimes 0 {} quickThenSlow = [0, 5] ∧
      ((Store.run quickThenSlow).table.object 0).freeMin.toInt = 5 ∧
      ¬ LifetimesRight ((Store.run quickThenSlow).table.object 0)
        (lifetimes 0 {} quickThenSlow) := by
  have htimes : lifetimes 0 {} quickThenSlow = [0, 5] := by decide +kernel
  have hmin : ((Store.run quickThenSlow).table.object 0).freeMin.toInt = 5 := by decide +kernel
  refine ⟨?_, by decide +kernel, htimes, hmin, ?_⟩
  · unfold ClockMonotone
    decide +kernel
  · intro h
    have hle := h.min.2 (show (0 : Int) ∈ _ by rw [htimes]; simp)
    rw [hmin] at hle
    omega

end Memleax
