import Memleax.Store.Consistency

/-!
# Expiry is exact

`memblock_expire` stops at the first block that is too young. It can, because
the expired list followed by the active list is sorted by creation time, as
long as the clock does not run backwards: new blocks go to the tail of the
active list, an expiry moves its head to the tail of the expired list, and a
deletion or an in-place resize moves nothing.

`Timely e t s` is the invariant, `t` being a clock reading not before any of
the history: the order, no block created after `t`, every expired block at
least `e` old at `t`.
-/

namespace Memleax

/-- The lists, expired blocks first, sorted by creation time. -/
def Store.CreateSorted (s : Store) : Prop :=
  (s.expire ++ s.active).Pairwise fun b b' => (s.block b).create ≤ (s.block b').create

structure Timely (e t : Int) (s : Store) : Prop where
  sorted : s.CreateSorted
  born : ∀ b ∈ s.stored, (s.block b).create ≤ t
  aged : ∀ b ∈ s.expire, e ≤ t - (s.block b).create

namespace Timely

variable {e t t' : Int} {s : Store} {b : BlockId} {rest : List BlockId}

/-- Before the first operation. -/
theorem init (e t : Int) : Timely e t (Store.run []) :=
  ⟨List.Pairwise.nil, by simp [Store.run, Store.stored], by simp [Store.run]⟩

theorem mono (h : Timely e t s) (ht : t ≤ t') : Timely e t' s where
  sorted := h.sorted
  born := fun b hb => le_trans (h.born b hb) ht
  aged := fun b hb => le_trans (h.aged b hb) (by omega)

theorem link (hp : Placed s) (h : Timely e t s) {mb : Memblock} (hnow : mb.create = t) :
    Timely e t (s.link mb) where
  sorted := by
    have hold : ∀ b ∈ s.expire ++ s.active, (s.link mb).block b = s.block b := by
      intro b hb
      exact link_block_of_mem hp (List.mem_append.mpr (List.mem_append.mp hb).symm)
    show (s.expire ++ (s.active ++ [s.fresh])).Pairwise _
    rw [← List.append_assoc]
    refine List.pairwise_append.mpr ⟨?_, List.pairwise_singleton _ _, ?_⟩
    · apply h.sorted.imp_of_mem
      intro b b' hb hb' hle
      rw [hold b hb, hold b' hb']
      exact hle
    · intro b hb b' hb'
      obtain rfl := List.mem_singleton.mp hb'
      rw [hold b hb, link_block_fresh, hnow]
      exact h.born b (List.mem_append.mpr (List.mem_append.mp hb).symm)
  born := by
    intro b hb
    rcases mem_stored_link.mp hb with rfl | hb
    · rw [link_block_fresh, hnow]
    · rw [link_block_of_mem hp hb]
      exact h.born b hb
  aged := by
    intro b hb
    rw [link_block_of_mem hp (List.mem_append_right _ hb)]
    exact h.aged b hb

theorem delete (hp : Placed s) (h : Timely e t s) (now : Int) : Timely e t (s.delete now b) where
  sorted := h.sorted.sublist (List.erase_sublist.append List.erase_sublist)
  born := fun x hx => h.born x ((mem_stored_delete hp).mp hx).2
  aged := fun x hx => h.aged x (List.mem_of_mem_erase hx)

theorem resize (h : Timely e t s) (size : Word) : Timely e t (s.resize b size) where
  sorted := h.sorted.imp fun {x x'} hle => by
    rw [(resize_block x).2.1, (resize_block x').2.1]
    exact hle
  born := fun x hx => by
    rw [(resize_block x).2.1]
    exact h.born x hx
  aged := fun x hx => by
    rw [(resize_block x).2.1]
    exact h.aged x hx

theorem expireOne (hp : Placed s) (h : Timely e t s) (hact : s.active = b :: rest)
    (hage : e ≤ t - (s.block b).create) : Timely e t (memblockExpireOne s b) where
  sorted := by
    have hsame : (memblockExpireOne s b).expire ++ (memblockExpireOne s b).active =
        s.expire ++ s.active := by
      rw [expireOne_expire hp hact, expireOne_active hact, hact, List.append_assoc]
      rfl
    rw [Store.CreateSorted, hsame]
    apply h.sorted.imp
    intro x x' hle
    rw [(expireOne_block x).2.1, (expireOne_block x').2.1]
    exact hle
  born := fun x hx => by
    rw [(expireOne_block x).2.1]
    exact h.born x ((expireOne_stored hp hact).mem_iff.mp hx)
  aged := fun x hx => by
    rw [(expireOne_block x).2.1]
    rw [expireOne_expire hp hact] at hx
    rcases List.mem_append.mp hx with hx | hx
    · exact h.aged x hx
    · rw [List.mem_singleton.mp hx]
      exact hage

end Timely

/-- The sweeps of a history use the one threshold of `main`. -/
def Op.ExpiresAfter (e : Int) : Op → Prop
  | .sweep _ lim => lim.expire = e
  | .call _ _ _ _ _ => True

/-- No sweep moves a block before the age `e`. -/
def Op.ExpiresNotBefore (e : Int) (op : Op) : Prop :=
  ∀ now lim, op = .sweep now lim → ∀ age, 0 ≤ age → lim.expire ≤ age → e ≤ age

theorem Op.ExpiresAfter.notBefore {e : Int} {op : Op} (h : op.ExpiresAfter e) :
    op.ExpiresNotBefore e := by
  rintro now lim rfl age - hage
  rw [← show lim.expire = e from h]
  exact hage

/-- No block is expired before it has been created. -/
theorem Op.expiresNotBefore_zero (op : Op) : op.ExpiresNotBefore 0 := by
  intro _ _ _ _ hage _
  exact hage

theorem timely_step_of {e : Int} {s : Store} {op : Op} (hs : Consistent s)
    (h : Timely e op.now s) (hop : op.ExpiresNotBefore e) : Timely e op.now (s.step op) := by
  refine Consistent.step_induct ?_ ?_ ?_ ?_ ?_ ?_ hs h
  · intro s out h
    exact ⟨h.sorted, h.born, h.aged⟩
  · intro s env _ h
    exact ⟨h.sorted, h.born, h.aged⟩
  · intro s env pointer size cs hs h hnow _
    exact Timely.link hs.toPlaced h hnow
  · intro s now b hs h _
    exact h.delete hs.toPlaced _
  · intro pointer b size env _ _ _
    exact h.resize size
  · intro s b rest now lim hop' hs h hact hage
    have hborn := h.born b (List.mem_append_left _ (by simp [hact]))
    apply h.expireOne hs.toPlaced hact
    subst hop'
    exact hop now lim rfl _ (sub_nonneg.mpr hborn) hage

theorem timely_step {e : Int} {s : Store} {op : Op} (hs : Consistent s)
    (h : Timely e op.now s) (hop : op.ExpiresAfter e) : Timely e op.now (s.step op) :=
  timely_step_of hs h hop.notBefore

/-- The clock never runs backwards along a history. -/
def ClockMonotone (ops : List Op) : Prop := (ops.flatMap Op.readings).Pairwise (· ≤ ·)

theorem Op.now_mem_readings (op : Op) : op.now ∈ op.readings := by
  cases op <;> simp [Op.now, Op.readings]

theorem ClockMonotone.init {ops : List Op} {op : Op} (h : ClockMonotone (ops ++ [op])) :
    ClockMonotone ops ∧ ∀ op' ∈ ops, op'.now ≤ op.now := by
  rw [ClockMonotone, List.flatMap_append, List.pairwise_append] at h
  refine ⟨h.1, fun op' hop' => h.2.2 _ ?_ _ ?_⟩
  · exact List.mem_flatMap.mpr ⟨op', hop', op'.now_mem_readings⟩
  · exact List.mem_flatMap.mpr ⟨op, by simp, op.now_mem_readings⟩

theorem timely_run_of {e : Int} {ops : List Op} (hclock : ClockMonotone ops)
    (hexp : ∀ op ∈ ops, op.ExpiresNotBefore e) :
    ∀ t, (∀ op ∈ ops, op.now ≤ t) → Timely e t (Store.run ops) := by
  induction ops using List.reverseRecOn with
  | nil =>
      intro t _
      exact .init _ _
  | append_singleton ops op ih =>
      intro t ht
      have hbefore := ih hclock.init.1
        (fun op' hop' => hexp op' (List.mem_append_left _ hop')) op.now hclock.init.2
      rw [Store.run_append_single]
      refine (timely_step_of (consistent_run ops) hbefore (hexp op (by simp))).mono ?_
      exact ht op (by simp)

theorem timely_run {e : Int} {ops : List Op} (hclock : ClockMonotone ops)
    (hexp : ∀ op ∈ ops, op.ExpiresAfter e) :
    ∀ t, (∀ op ∈ ops, op.now ≤ t) → Timely e t (Store.run ops) :=
  timely_run_of hclock fun op hop => (hexp op hop).notBefore

/-! ## The sweep -/

/-- The blocks that the sweep hands to `memblock_expire_one`, in order. -/
def sweptBlocks (lim : Limits) (now : Int) : List BlockId → Store → List BlockId
  | [], _ => []
  | b :: rest, s =>
      if now - (s.block b).create < lim.expire then []
      else
        let s' := memblockExpireOne s b
        let cs := s'.table.object (s.block b).callstack
        if lim.callstackLimit.toInt + 1 ≤ cs.id.toInt then [b]
        else if lim.memblockLimit.sle cs.expiredCount then [b]
        else b :: sweptBlocks lim now rest s'

/-- A sweep cuts the active list in two and appends the first part to the
expired list. -/
theorem memblockExpireLoop_split (lim : Limits) (now : Int) : ∀ (todo : List BlockId) (s : Store),
    Placed s → s.active = todo →
      s.active = sweptBlocks lim now todo s ++ (memblockExpireLoop lim now todo s).2.active ∧
      (memblockExpireLoop lim now todo s).2.expire = s.expire ++ sweptBlocks lim now todo s
  | [], s, _, htodo => by simp [sweptBlocks, memblockExpireLoop, htodo]
  | b :: rest, s, hp, htodo => by
      rw [sweptBlocks, memblockExpireLoop]
      dsimp only
      split
      · simp
      · have hact := expireOne_active htodo
        have hexp := expireOne_expire hp htodo
        have hnot : b ∉ s.expire := hp.not_mem_expire (by simp [htodo])
        split
        · simp [htodo, hnot]
        · split
          · simp [htodo, hnot]
          · obtain ⟨ih₁, ih₂⟩ := memblockExpireLoop_split lim now rest _
              (placed_expireOne hp htodo) hact
            rw [ih₂, hexp, htodo, List.cons_append, ← ih₁, hact]
            simp

/-- **Stopping early loses nothing.** When a sweep does not stop at a limit,
the blocks left active are all too young. -/
theorem memblockExpireLoop_young (lim : Limits) (now : Int) : ∀ (todo : List BlockId) (s : Store),
    s.active = todo →
    s.active.Pairwise (fun b b' => (s.block b).create ≤ (s.block b').create) →
    0 ≤ (memblockExpireLoop lim now todo s).1 →
    ∀ b ∈ (memblockExpireLoop lim now todo s).2.active,
      now - ((memblockExpireLoop lim now todo s).2.block b).create < lim.expire
  | [], s, htodo, _, _ => by simp [memblockExpireLoop, htodo]
  | b :: rest, s, htodo, hsorted, hres => by
      rw [memblockExpireLoop] at hres ⊢
      dsimp only at hres ⊢
      rw [htodo] at hsorted
      obtain ⟨hfirst, hrest⟩ := List.pairwise_cons.mp hsorted
      split at hres
      · -- the early return: the list is sorted, so all that follow are as young
        rename_i hage
        rw [if_pos hage]
        intro x hx
        rcases List.mem_cons.mp (htodo ▸ hx) with rfl | hx
        · exact hage
        · have := hfirst x hx
          dsimp only
          omega
      · rename_i hage
        rw [if_neg hage]
        -- both limit exits return `-1`
        split at hres
        · simp at hres
        · rename_i hlim₁
          rw [if_neg hlim₁]
          split at hres
          · simp at hres
          · rename_i hlim₂
            rw [if_neg hlim₂]
            have hact := expireOne_active htodo
            refine memblockExpireLoop_young lim now rest _ hact ?_ hres
            rw [hact]
            apply hrest.imp
            intro x x' hle
            rw [(expireOne_block x).2.1, (expireOne_block x').2.1]
            exact hle

theorem memblockExpire_exact {e t : Int} {s : Store} {lim : Limits} (hs : Consistent s)
    (h : Timely e t s) (hlim : lim.expire = e)
    (hres : 0 ≤ (memblockExpire s t lim).1) (b : BlockId)
    (hb : b ∈ (memblockExpire s t lim).2.stored) :
    b ∈ (memblockExpire s t lim).2.expire ↔
      e ≤ t - ((memblockExpire s t lim).2.block b).create := by
  have hop : Op.ExpiresAfter e (.sweep t lim) := hlim
  have hafter : Timely e t (s.step (.sweep t lim)) := timely_step hs h hop
  constructor
  · exact hafter.aged b
  · intro hage
    rcases List.mem_append.mp hb with hact | hexp
    · have hyoung := memblockExpireLoop_young lim t s.active s rfl
        (List.pairwise_append.mp h.sorted).2.1 hres b hact
      rw [hlim] at hyoung
      exact absurd hage (not_le.mpr hyoung)
    · exact hexp

/-! ## The delay until the next sweep -/

/-- A sweep stops at a limit, empties the active list, or returns the delay of
the first block that is left. -/
theorem memblockExpireLoop_result (lim : Limits) (now : Int) :
    ∀ (todo : List BlockId) (s : Store), s.active = todo →
      (memblockExpireLoop lim now todo s).1 = -1 ∨
      ((memblockExpireLoop lim now todo s).1 = 0 ∧
        (memblockExpireLoop lim now todo s).2.active = []) ∨
      ∃ b rest, (memblockExpireLoop lim now todo s).2.active = b :: rest ∧
        now - ((memblockExpireLoop lim now todo s).2.block b).create < lim.expire ∧
        (memblockExpireLoop lim now todo s).1 = (BitVec.ofInt 32
          (lim.expire - (now - ((memblockExpireLoop lim now todo s).2.block b).create) + 1)).toInt
  | [], s, htodo => Or.inr (Or.inl ⟨rfl, htodo⟩)
  | b :: rest, s, htodo => by
      rw [memblockExpireLoop]
      dsimp only
      split
      · rename_i hage
        exact Or.inr (Or.inr ⟨b, rest, htodo, hage, rfl⟩)
      · split
        · exact Or.inl rfl
        · split
          · exact Or.inl rfl
          · exact memblockExpireLoop_result lim now rest _ (expireOne_active htodo)

/-- **The delay that a sweep returns**, for a threshold that fits an `int`: `-1`
at a limit, `0` when no block is left, and otherwise the seconds until the first
block that is left is overdue, unless they do not fit. -/
theorem memblockExpire_delay {e t : Int} {s : Store} {lim : Limits} (hs : Consistent s)
    (h : Timely e t s) (hlim : lim.expire = e) (he : e < 2 ^ 31) :
    (memblockExpire s t lim).1 = -1 ∨
      ((memblockExpire s t lim).1 = 0 ∧ (memblockExpire s t lim).2.active = []) ∨
      (e = 2 ^ 31 - 1 ∧ (memblockExpire s t lim).1 < 0) ∨
      (0 < (memblockExpire s t lim).1 ∧ ∀ b ∈ (memblockExpire s t lim).2.active,
        t + (memblockExpire s t lim).1 ≤
          ((memblockExpire s t lim).2.block b).create + e + 1) := by
  have hop : Op.ExpiresAfter e (.sweep t lim) := hlim
  have hafter : Timely e t (s.step (.sweep t lim)) := timely_step hs h hop
  change Timely e t (memblockExpire s t lim).2 at hafter
  have hresult := memblockExpireLoop_result lim t s.active s rfl
  rw [hlim] at hresult
  change _ ∨ _ ∨ ∃ b rest, (memblockExpire s t lim).2.active = b :: rest ∧
    t - ((memblockExpire s t lim).2.block b).create < e ∧ (memblockExpire s t lim).1 =
      (BitVec.ofInt 32 (e - (t - ((memblockExpire s t lim).2.block b).create) + 1)).toInt at hresult
  rcases hresult with hneg | hzero | ⟨b, rest, hact, hage, hr⟩
  · exact Or.inl hneg
  · exact Or.inr (Or.inl hzero)
  · have hborn := hafter.born b (List.mem_append_left _ (by rw [hact]; exact List.mem_cons_self))
    -- the delay is at most `e + 1`, which overflows for the largest `int` only
    by_cases hfit : e - (t - ((memblockExpire s t lim).2.block b).create) + 1 < 2 ^ 31
    · have hexact : (memblockExpire s t lim).1 =
          e - (t - ((memblockExpire s t lim).2.block b).create) + 1 := by
        rw [hr, BitVec.toInt_ofInt]
        apply Int.bmod_eq_of_le
        · omega
        · omega
      refine Or.inr (Or.inr (Or.inr ⟨by omega, ?_⟩))
      intro b' hb'
      have hle : ((memblockExpire s t lim).2.block b).create ≤
          ((memblockExpire s t lim).2.block b').create := by
        have hsorted := (List.pairwise_append.mp hafter.sorted).2.1
        rw [hact] at hsorted hb'
        rcases List.mem_cons.mp hb' with rfl | hb'
        · exact le_rfl
        · exact (List.pairwise_cons.mp hsorted).1 b' hb'
      omega
    · have hover : e - (t - ((memblockExpire s t lim).2.block b).create) + 1 = 2 ^ 31 := by omega
      refine Or.inr (Or.inr (Or.inl ⟨by omega, ?_⟩))
      rw [hr, hover]
      decide

/-! ## Reports: the blocks a history counts as expired -/

/-- The blocks that an operation counts as expired. -/
def expiredBy (s : Store) : Op → List BlockId
  | .sweep now lim => sweptBlocks lim now s.active s
  | .call _ _ _ _ _ => []

/-- The blocks that a history counts as expired, in order. -/
def reports : Store → List Op → List BlockId
  | _, [] => []
  | s, op :: ops => expiredBy s op ++ reports (s.step op) ops

theorem reports_append (s : Store) (ops ops' : List Op) :
    reports s (ops ++ ops') = reports s ops ++ reports (ops.foldl Store.step s) ops' := by
  induction ops generalizing s with
  | nil => rfl
  | cons op ops ih => simp [reports, ih]

theorem reports_append_single (ops : List Op) (op : Op) :
    reports {} (ops ++ [op]) = reports {} ops ++ expiredBy (Store.run ops) op := by
  rw [reports_append]
  simp [reports, Store.run]

/-- Only the primitives that link a block or move it to the expired list touch
the lists; a block that has been recorded never becomes active again. -/
structure Recorded (s s' : Store) : Prop where
  fresh_le : s.fresh ≤ s'.fresh
  stored : ∀ b, b < s.fresh → b ∈ s'.stored → b ∈ s.stored
  active : ∀ b, b < s.fresh → b ∈ s'.active → b ∈ s.active
  create : ∀ b, b < s.fresh → (s'.block b).create = (s.block b).create

theorem Recorded.trans {s s' s'' : Store} (h : Recorded s s') (h' : Recorded s' s'') :
    Recorded s s'' where
  fresh_le := le_trans h.fresh_le h'.fresh_le
  stored := fun b hb hb'' =>
    h.stored b hb (h'.stored b (lt_of_lt_of_le hb h.fresh_le) hb'')
  active := fun b hb hb'' =>
    h.active b hb (h'.active b (lt_of_lt_of_le hb h.fresh_le) hb'')
  create := fun b hb =>
    (h'.create b (lt_of_lt_of_le hb h.fresh_le)).trans (h.create b hb)

theorem recorded_step {s : Store} (hs : Consistent s) (op : Op) : Recorded s (s.step op) := by
  refine Consistent.step_induct (P := Recorded s) ?_ ?_ ?_ ?_ ?_ ?_ hs
    ⟨le_rfl, fun _ _ h => h, fun _ _ h => h, fun _ _ => rfl⟩
  · intro s' out h
    exact ⟨h.fresh_le, h.stored, h.active, h.create⟩
  · intro s' env _ h
    exact ⟨h.fresh_le, h.stored, h.active, h.create⟩
  · -- the new block has a number that no recorded block has
    intro s' env pointer size cs _ h _ _
    refine h.trans ⟨Nat.le_succ _, ?_, ?_, ?_⟩
    · intro b hb hmem
      exact (mem_stored_link.mp hmem).resolve_left (ne_of_lt hb)
    · intro b hb hmem
      apply (List.mem_append.mp hmem).resolve_right
      intro hlast
      exact absurd (List.mem_singleton.mp hlast) (ne_of_lt hb)
    · intro b hb
      simp [Store.link, ne_of_lt hb]
  · intro s' now b hs' h _
    refine h.trans ⟨le_rfl, ?_, ?_, fun _ _ => rfl⟩
    · intro x _ hx
      exact ((mem_stored_delete hs'.toPlaced).mp hx).2
    · intro x _ hx
      exact List.mem_of_mem_erase hx
  · intro pointer b size env _ _ _
    exact ⟨le_rfl, fun _ _ hx => hx, fun _ _ hx => hx, fun x _ => (resize_block x).2.1⟩
  · intro s' b rest now lim _ hs' h hact _
    refine h.trans ⟨by simp, ?_, ?_, fun x _ => (expireOne_block x).2.1⟩
    · intro x _ hx
      exact (expireOne_stored hs'.toPlaced hact).mem_iff.mp hx
    · intro x _ hx
      rw [expireOne_active hact] at hx
      rw [hact]
      exact List.mem_cons_of_mem _ hx

theorem recorded_run (ops ops' : List Op) :
    Recorded (Store.run ops) (Store.run (ops ++ ops')) := by
  induction ops' using List.reverseRecOn with
  | nil =>
      rw [List.append_nil]
      exact ⟨le_rfl, fun _ _ h => h, fun _ _ h => h, fun _ _ => rfl⟩
  | append_singleton ops' op ih =>
      rw [← List.append_assoc, Store.run_append_single]
      exact ih.trans (recorded_step (consistent_run _) op)

theorem expiredBy_spec {s : Store} (hs : Consistent s) (op : Op) :
    (expiredBy s op).Nodup ∧ (∀ b ∈ expiredBy s op, b ∈ s.active) ∧
      (∀ b ∈ expiredBy s op, b ∉ (s.step op).active) ∧
      ∀ b ∈ (s.step op).expire, b ∈ s.expire ∨ b ∈ expiredBy s op := by
  cases op with
  | call api ret arg1 arg2 env =>
      refine ⟨List.nodup_nil, by simp [expiredBy], by simp [expiredBy], fun b hb => Or.inl ?_⟩
      revert b
      refine Consistent.step_induct (P := fun s' => ∀ b ∈ s'.expire, b ∈ s.expire)
        ?_ ?_ ?_ ?_ ?_ ?_ hs (fun _ hb => hb)
      · intro s' out h
        exact h
      · intro s' env _ h
        exact h
      · intro s' env pointer size cs _ h _ _
        exact h
      · intro s' now b _ h _ x hx
        exact h x (List.mem_of_mem_erase hx)
      · intro pointer b size env _ _ _ x hx
        exact hx
      · intro s' b rest now lim hop
        cases hop
  | sweep now lim =>
      obtain ⟨hact, hexp⟩ := memblockExpireLoop_split lim now s.active s hs.toPlaced rfl
      have hnd := hs.active_nodup
      rw [hact] at hnd
      obtain ⟨hnd₁, -, hdisj⟩ := List.nodup_append.mp hnd
      refine ⟨hnd₁, ?_, fun b hb hb' => hdisj b hb b hb' rfl, ?_⟩
      · intro b hb
        rw [hact]
        exact List.mem_append_left _ hb
      · intro b hb
        have hb' : b ∈ (memblockExpireLoop lim now s.active s).2.expire := hb
        rw [hexp] at hb'
        exact List.mem_append.mp hb'

/-- No block is counted twice, and every expired block has been counted. -/
theorem reports_run (ops : List Op) :
    (reports {} ops).Nodup ∧
      (∀ b ∈ reports {} ops, b < (Store.run ops).fresh ∧ b ∉ (Store.run ops).active) ∧
      ∀ b ∈ (Store.run ops).expire, b ∈ reports {} ops := by
  induction ops using List.reverseRecOn with
  | nil => simp [reports, Store.run]
  | append_singleton ops op ih =>
      obtain ⟨hnd, hgone, hall⟩ := ih
      have hs := consistent_run ops
      obtain ⟨hnd', hact, hnot, hexp⟩ := expiredBy_spec hs op
      have hrec := recorded_step hs op
      rw [reports_append_single, Store.run_append_single]
      refine ⟨List.nodup_append.mpr ⟨hnd, hnd', ?_⟩, ?_, ?_⟩
      · rintro b hb b' hb' rfl
        exact (hgone b hb).2 (hact b hb')
      · intro b hb
        rcases List.mem_append.mp hb with hb | hb
        · obtain ⟨hlt, hna⟩ := hgone b hb
          exact ⟨lt_of_lt_of_le hlt hrec.fresh_le, fun h => hna (hrec.active b hlt h)⟩
        · have hlt := hs.created b (List.mem_append_left _ (hact b hb))
          exact ⟨lt_of_lt_of_le hlt hrec.fresh_le, hnot b hb⟩
      · intro b hb
        rcases hexp b hb with h | h
        · exact List.mem_append_left _ (hall b h)
        · exact List.mem_append_right _ h

theorem sweptBlocks_aged (lim : Limits) (now : Int) : ∀ (todo : List BlockId) (s : Store),
    ∀ b ∈ sweptBlocks lim now todo s, lim.expire ≤ now - (s.block b).create
  | [], s => by simp [sweptBlocks]
  | b :: rest, s => by
      intro x hx
      unfold sweptBlocks at hx
      dsimp only at hx
      split at hx
      · simp at hx
      · rename_i hage
        have hself : lim.expire ≤ now - (s.block b).create := not_lt.mp hage
        split at hx
        · rw [List.mem_singleton.mp hx]
          exact hself
        · split at hx
          · rw [List.mem_singleton.mp hx]
            exact hself
          · rcases List.mem_cons.mp hx with rfl | hx
            · exact hself
            · have := sweptBlocks_aged lim now rest _ x hx
              rwa [(expireOne_block x).2.1] at this

/-- A block is counted by a sweep that finds it active and old enough. -/
theorem report_has_sweep (ops : List Op) : ∀ b ∈ reports {} ops, ∃ pre now lim post,
    ops = pre ++ .sweep now lim :: post ∧ b ∈ (Store.run pre).stored ∧
      lim.expire ≤ now - ((Store.run pre).block b).create := by
  induction ops using List.reverseRecOn with
  | nil => simp [reports]
  | append_singleton ops op ih =>
      intro b hb
      rw [reports_append_single] at hb
      rcases List.mem_append.mp hb with hb | hb
      · obtain ⟨pre, now, lim, post, rfl, hmem, hage⟩ := ih b hb
        exact ⟨pre, now, lim, post ++ [op], by simp, hmem, hage⟩
      · have hmem := (expiredBy_spec (consistent_run ops) op).2.1 b hb
        cases op with
        | call api ret arg1 arg2 env => simp [expiredBy] at hb
        | sweep now lim =>
            exact ⟨ops, now, lim, [], rfl, List.mem_append_left _ hmem,
              sweptBlocks_aged lim now _ _ b hb⟩

/-! ## The theorem -/

/-- What exact expiry with threshold `e` says of a history. -/
structure ExpiryExact (e : Int) (ops : List Op) : Prop where
  sorted : (Store.run ops).CreateSorted
  /-- After a sweep that hits no limit the expired blocks are the old ones. -/
  sweep : ∀ pre now lim, ops = pre ++ [.sweep now lim] →
    0 ≤ (memblockExpire (Store.run pre) now lim).1 →
    ∀ b ∈ (Store.run ops).stored,
      b ∈ (Store.run ops).expire ↔ e ≤ now - ((Store.run ops).block b).create
  /-- No block is counted as expired twice. -/
  once : (reports {} ops).Nodup
  /-- A block freed before any sweep at or after `create + e` is never reported. -/
  freed : ∀ pre post b, ops = pre ++ post → b < (Store.run pre).fresh →
    b ∉ (Store.run pre).stored →
    (∀ now lim, Op.sweep now lim ∈ pre → now < ((Store.run pre).block b).create + e) →
    b ∉ reports {} ops
  /-- Every older surviving block is reported. -/
  surviving : ∀ pre now lim, ops = pre ++ [.sweep now lim] →
    0 ≤ (memblockExpire (Store.run pre) now lim).1 →
    ∀ b ∈ (Store.run ops).stored, e ≤ now - ((Store.run ops).block b).create →
      b ∈ reports {} ops

theorem freed_not_reported {e : Int} {pre post : List Op} {b : BlockId}
    (hexp : ∀ op ∈ pre ++ post, op.ExpiresAfter e)
    (hlt : b < (Store.run pre).fresh) (hgone : b ∉ (Store.run pre).stored)
    (hsweeps : ∀ now lim, Op.sweep now lim ∈ pre → now < ((Store.run pre).block b).create + e) :
    b ∉ reports {} (pre ++ post) := by
  intro hb
  obtain ⟨pre', now, lim, post', heq, hmem, hage⟩ := report_has_sweep _ b hb
  have hlim : lim.expire = e := hexp (.sweep now lim) (by rw [heq]; simp)
  rw [hlim] at hage
  -- the reporting sweep lies after `pre`, where `b` is gone, or inside it, where it is too early
  rcases List.append_eq_append_iff.mp heq with ⟨mid, rfl, -⟩ | ⟨mid, rfl, hmid⟩
  · exact hgone ((recorded_run pre mid).stored b hlt hmem)
  · cases mid with
    | nil =>
        rw [List.append_nil] at hgone
        exact hgone hmem
    | cons op mid =>
        obtain ⟨rfl, -⟩ := List.cons.inj hmid
        have hcreate := (recorded_run pre' (.sweep now lim :: mid)).create b
          ((consistent_run pre').created b hmem)
        have hearly := hsweeps now lim (by simp)
        rw [hcreate] at hearly
        omega

/-- **Expiry is exact although the sweep stops at the first young block**, for
every history whose clock readings never decrease and whose sweeps use the one
threshold `e`. -/
theorem expiry_exact (e : Int) (ops : List Op) (hclock : ClockMonotone ops)
    (hexp : ∀ op ∈ ops, op.ExpiresAfter e) : ExpiryExact e ops := by
  have hsweep : ∀ pre now lim, ops = pre ++ [.sweep now lim] →
      0 ≤ (memblockExpire (Store.run pre) now lim).1 → ∀ b ∈ (Store.run ops).stored,
        b ∈ (Store.run ops).expire ↔ e ≤ now - ((Store.run ops).block b).create := by
    rintro pre now lim rfl hres b hb
    have hbefore : Timely e now (Store.run pre) :=
      timely_run hclock.init.1 (fun op hop => hexp op (List.mem_append_left _ hop)) now
        hclock.init.2
    have hlim : Op.ExpiresAfter e (.sweep now lim) := hexp _ (by simp)
    rw [Store.run_append_single] at hb ⊢
    exact memblockExpire_exact (consistent_run pre) hbefore hlim hres b hb
  refine ⟨?_, hsweep, (reports_run ops).1, ?_, ?_⟩
  · rcases List.eq_nil_or_concat ops with rfl | ⟨ops, op, rfl⟩
    · exact List.Pairwise.nil
    · rw [List.concat_eq_append] at hclock hexp ⊢
      refine (timely_run hclock hexp op.now ?_).sorted
      intro op' hop'
      rcases List.mem_append.mp hop' with h | h
      · exact hclock.init.2 op' h
      · rw [List.mem_singleton.mp h]
  · rintro pre post b rfl
    exact freed_not_reported hexp
  · intro pre now lim hops hres b hb hage
    exact (reports_run ops).2.2 b ((hsweep pre now lim hops hres b hb).mpr hage)

/-- Two blocks, one freed in time, and a sweep. -/
def twoBlocks : List Op :=
  [.call .malloc 0x5000 100 0 { now := 0, ips := [0x1000, 0x2000] },
    .call .malloc 0x6000 100 0 { now := 5, ips := [0x1000, 0x2000] },
    .call .free 0 0x5000 0 { now := 8, ips := [0x1100, 0x2000] },
    .sweep 20 { expire := 10, memblockLimit := 1000, callstackLimit := 1000 }]

theorem expiry_exact_twoBlocks : ExpiryExact 10 twoBlocks ∧ reports {} twoBlocks = [1] :=
  ⟨expiry_exact 10 twoBlocks (by unfold ClockMonotone; decide) (by simp [twoBlocks, Op.ExpiresAfter]),
    by decide +kernel⟩

end Memleax
