import Memleax.Store.CallstackIdentity
import Memleax.Store.Expiry
import Memleax.Store.HeapRefinement
import Memleax.Store.Report
import Mathlib.Data.Set.Card

/-!
# The store as a leak detector

What a user wants to know is which allocations of the target have not been
released, and which code made them. `Allocations` is that knowledge and nothing
else: for every pointer the size last requested, the time and the backtrace of
its allocation. There are no lists, no hash tables and no counters in it, and
an allocation leaks when it is old.

The store implements it (`detects_run`), and what `callstack_report` prints
is read off it (`report_lists_leaks`): one record for each backtrace at which
memory leaks, with the number of allocations that leak there.
-/

namespace Memleax

open Framework

/-! ## The allocations of the target -/

/-- What is known of an allocation. -/
structure Allocation where
  /-- the size last requested -/
  size : Nat
  create : Int
  ips : List Word
deriving DecidableEq, Repr

/-- The allocations that are not released, by their pointers. -/
abbrev Allocations := Word → Option Allocation

namespace Allocations

def obtain (m : Allocations) (p : Word) (a : Allocation) : Allocations :=
  Function.update m p (some a)

def release (m : Allocations) (p : Word) : Allocations := Function.update m p none

/-- An allocation that is resized in place is not a new one. -/
def resize (m : Allocations) (p : Word) (n : Nat) : Allocations :=
  Function.update m p ((m p).map fun a => { a with size := n })

/-- The meaning of a completed call. -/
def step (m : Allocations) : Op → Allocations
  | .call .malloc ret size _ env =>
      if ret = 0 then m else m.obtain ret ⟨size.toNat, env.now, env.ips⟩
  | .call .calloc ret nmemb size env =>
      if ret = 0 then m else m.obtain ret ⟨nmemb.toNat * size.toNat, env.now, env.ips⟩
  | .call .free _ p _ _ => m.release p
  | .call .realloc ret old size env =>
      if ret = 0 then
        if size = 0 then m.release old else m
      else if ret = old then m.resize old size.toNat
      else (m.release old).obtain ret ⟨size.toNat, env.now, env.ips⟩
  | .sweep _ _ => m

/-- After a history, nothing being known at the attach. -/
def run (ops : List Op) : Allocations := ops.foldl step fun _ => none

theorem run_append_single (ops : List Op) (op : Op) : run (ops ++ [op]) = (run ops).step op := by
  rw [run, List.foldl_append]
  rfl

/-- The pointers that leak at a backtrace: not released, and allocated `e`
seconds before `now` or earlier. -/
def leaks (m : Allocations) (e now : Int) (ips : List Word) : Set Word :=
  {p | ∃ a, m p = some a ∧ a.ips = ips ∧ e ≤ now - a.create}

end Allocations

/-! ## What the store knows -/

/-- What is recorded of a block. -/
def Store.allocation (s : Store) (b : BlockId) : Allocation where
  size := (s.block b).size.toNat
  create := (s.block b).create
  ips := (s.table.object (s.block b).callstack).ips

/-- What `memblock_search` gives access to. -/
def Store.allocations (s : Store) : Allocations := fun p => (memblockSearch s p).map s.allocation

/-- No two callstacks carry one backtrace. -/
def CallstackTable.Apart (t : CallstackTable) : Prop :=
  ∀ c < t.fresh, ∀ d < t.fresh, (t.object c).ips = (t.object d).ips → c = d

section Lookup

variable {s : Store}

theorem CallstackTable.create_apart {t : CallstackTable} (hh : t.Hashed) (h : t.Apart)
    {beyond : CallstackId → Nat → Word} {ips : List Word} (hnone : t.search beyond ips = none) :
    (t.create ips).Apart := by
  have hnew : ∀ c < t.fresh, (t.object c).ips ≠ ips := by
    intro c hc heq
    have hmem : c ∈ t.hash (hashSlot ips) := (hh.mem _ _).mpr ⟨hc, by rw [heq]⟩
    exact List.find?_eq_none.mp hnone c hmem (t.matches_self beyond heq)
  intro c hc d hd heq
  rcases Nat.lt_succ_iff_lt_or_eq.mp hc with hc | rfl <;>
    rcases Nat.lt_succ_iff_lt_or_eq.mp hd with hd | rfl
  · rw [create_object_of_lt _ hc, create_object_of_lt _ hd] at heq
    exact h c hc d hd heq
  · rw [create_object_of_lt _ hc, create_object_fresh] at heq
    exact absurd heq (hnew c hc)
  · rw [create_object_of_lt _ hd, create_object_fresh] at heq
    exact absurd heq.symm (hnew d hd)
  · rfl

/-- Counters are not backtraces. -/
theorem CallstackTable.Apart.congr {t t' : CallstackTable} (h : t.Apart)
    (hfresh : t'.fresh = t.fresh)
    (hips : ∀ c, (t'.object c).ips = (t.object c).ips) : t'.Apart := by
  intro c hc d hd heq
  rw [hfresh] at hc hd
  rw [hips, hips] at heq
  exact h c hc d hd heq

theorem delete_ips (now : Int) (b : BlockId) (c : CallstackId) :
    ((s.delete now b).table.object c).ips = (s.table.object c).ips := by
  refine delete_field Callstack.ips ?_ c
  intro cs mb t
  unfold Callstack.countDelete
  split <;> rfl

theorem expireOne_ips (b : BlockId) (c : CallstackId) :
    ((memblockExpireOne s b).table.object c).ips = (s.table.object c).ips :=
  expireOne_field Callstack.ips (fun _ _ _ => rfl) c

/-- **What an operation does to the callstacks** is to look backtraces up and to
write counters. -/
theorem table_step_induct {Q : CallstackTable → Prop}
    (congr : ∀ t t' : CallstackTable, t'.hash = t.hash → t'.fresh = t.fresh →
      (∀ c, (t'.object c).ips = (t.object c).ips) → Q t → Q t')
    (lookup : ∀ (t : CallstackTable) beyond mallocOk ips, Q t →
      Q (callstackCurrent t beyond mallocOk ips).2)
    (op : Op) (h : Q s.table) : Q (s.step op).table := by
  refine Store.step_induct (P := fun s => Q s.table) ?_ ?_ ?_ ?_ ?_ ?_ h
  · intro s out h
    exact h
  · intro s env h
    exact lookup s.table env.beyond env.callstackMalloc env.ips h
  · intro s env pointer size cs table h _ _ hcs
    have h' := lookup s.table env.beyond env.callstackMalloc env.ips h
    rw [hcs] at h'
    refine congr table _ rfl rfl ?_ h'
    exact link_field Callstack.ips (s := { s with table := table }) fun _ _ => rfl
  · intro s now pointer b h _
    refine congr s.table _ ?_ (s.delete_table_fresh now b) (delete_ips now b) h
    unfold Store.delete
    dsimp only [Store.unlink]
    split <;> rfl
  · intro pointer b size env _ h _
    refine congr s.table _ rfl rfl ?_ h
    exact resize_field Callstack.ips fun _ _ _ => rfl
  · intro s b rest now lim _ h _ _
    obtain ⟨_, _, _, heq⟩ := memblockExpireOne_cases s b
    refine congr s.table _ ?_ (memblockExpireOne_table_fresh s b) (expireOne_ips b) h
    rw [heq]
    rfl

/-- The callstacks are in their chains, each with a backtrace of its own. -/
def CallstackTable.Indexed (t : CallstackTable) : Prop := t.Hashed ∧ t.Apart

theorem indexed_step (h : s.table.Indexed) (op : Op) : (s.step op).table.Indexed := by
  refine table_step_induct ?_ ?_ op h
  · intro t t' hhash hfresh hips h
    exact ⟨h.1.congr hhash hfresh hips, h.2.congr hfresh hips⟩
  · intro t beyond mallocOk ips h
    unfold callstackCurrent
    split
    · exact h
    · rename_i hnone
      split
      · exact ⟨CallstackTable.create_hashed h.1 ips, CallstackTable.create_apart h.1 h.2 hnone⟩
      · exact h

/-- A lookup in a bucket that tells the backtrace apart returns a callstack
with this backtrace. -/
theorem callstackCurrent_ips {t : CallstackTable} {beyond : CallstackId → Nat → Word}
    {mallocOk : Bool} {ips : List Word} {cs : CallstackId} {table : CallstackTable}
    (hdist : Distinguished (fun cs => (t.object cs).ips) ips (t.hash (hashSlot ips)))
    (hcs : callstackCurrent t beyond mallocOk ips = (some cs, table)) :
    (table.object cs).ips = ips := by
  unfold callstackCurrent at hcs
  split at hcs
  · rename_i c hfound
    simp only [Prod.mk.injEq, Option.some.injEq] at hcs
    rcases hcs with ⟨rfl, rfl⟩
    exact ((walk_iff_distinguished t beyond ips _).mpr hdist).1 c hfound
  · split at hcs
    · simp only [Prod.mk.injEq, Option.some.injEq] at hcs
      rcases hcs with ⟨rfl, rfl⟩
      rw [CallstackTable.create_object_fresh]
    · simp at hcs

theorem callstackCurrent_object {t : CallstackTable} (beyond : CallstackId → Nat → Word)
    (mallocOk : Bool) (ips : List Word) {c : CallstackId} (hc : c < t.fresh) :
    (callstackCurrent t beyond mallocOk ips).2.object c = t.object c := by
  unfold callstackCurrent
  split
  · rfl
  · split
    · exact CallstackTable.create_object_of_lt ips hc
    · rfl

end Lookup

/-! ## Each operation on the allocations -/

section Allocations

variable {s : Store}

/-- What is recorded of the blocks found decides. -/
theorem allocations_congr {s' : Store} (hp : Placed s)
    (hsearch : ∀ p, memblockSearch s' p = memblockSearch s p)
    (hsame : ∀ b ∈ s.stored, s'.allocation b = s.allocation b) :
    s'.allocations = s.allocations := by
  funext p
  unfold Store.allocations
  rw [hsearch]
  cases hs : memblockSearch s p with
  | none => rfl
  | some b => rw [Option.map_some, Option.map_some, hsame b (hp.mem_stored_of_search hs)]

theorem allocations_eq_some_iff (hp : Placed s) (hd : Distinct s) {p : Word} {a : Allocation} :
    s.allocations p = some a ↔
      ∃ b ∈ s.stored, (s.block b).pointer = p ∧ s.allocation b = a := by
  rw [Store.allocations, Option.map_eq_some_iff]
  constructor
  · rintro ⟨b, hb, rfl⟩
    exact ⟨b, hp.mem_stored_of_search hb, hp.pointer_of_search hb, rfl⟩
  · rintro ⟨b, hb, rfl, rfl⟩
    refine ⟨b, hp.search_eq_some_iff.mpr ⟨⟨hb, rfl⟩, ?_⟩, rfl⟩
    intro b' hb' heq
    exact le_of_eq (hd.inj b' hb' b hb heq)

theorem allocations_zero (hp : Placed s) (hd : Distinct s) : s.allocations 0 = none := by
  rw [Store.allocations, Option.map_eq_none_iff, hp.search_eq_none_iff]
  exact hd.ne_zero

theorem allocations_lookup (hp : Placed s) (env : Env) :
    { s with table := (callstackCurrent s.table env.beyond env.callstackMalloc env.ips).2
      }.allocations = s.allocations := by
  refine allocations_congr hp ?_ ?_
  · intro p
    rfl
  · intro b hb
    have hobject := callstackCurrent_object env.beyond env.callstackMalloc env.ips (hp.known b hb)
    simp only [Store.allocation, hobject]

theorem allocations_link {mb : Memblock} (hp : Placed s) (hl : Placed (s.link mb)) :
    (s.link mb).allocations = s.allocations.obtain mb.pointer
      ⟨mb.size.toNat, mb.create, (s.table.object mb.callstack).ips⟩ := by
  have hips : ∀ c, ((s.link mb).table.object c).ips = (s.table.object c).ips :=
    link_field Callstack.ips fun _ _ => rfl
  funext p
  rw [Store.allocations, search_link hp hl, Allocations.obtain]
  by_cases heq : p = mb.pointer
  · rw [if_pos heq, heq, Function.update_self, Option.map_some, Store.allocation, link_block_fresh,
      hips]
  · rw [if_neg heq, Function.update_of_ne heq, Store.allocations]
    cases hs : memblockSearch s p with
    | none => rfl
    | some b =>
        rw [Option.map_some, Option.map_some, Store.allocation,
          link_block_of_mem hp (hp.mem_stored_of_search hs), hips]
        rfl

theorem allocations_memblockDelete (hp : Placed s) (hd : Distinct s) (now : Int) (p : Word) :
    (memblockDelete s now (memblockSearch s p)).allocations = s.allocations.release p := by
  cases hb : memblockSearch s p with
  | none =>
      have hnone : s.allocations p = none := by rw [Store.allocations, hb]; rfl
      show s.allocations = Function.update s.allocations p none
      rw [← hnone, Function.update_eq_self]
  | some b =>
      funext q
      show (s.delete now b).allocations q = _
      rw [Store.allocations, search_delete hp hd hb, Allocations.release]
      by_cases heq : q = p
      · rw [if_pos heq, heq, Function.update_self]
        rfl
      · rw [if_neg heq, Function.update_of_ne heq, Store.allocations]
        congr 1
        funext x
        rw [Store.allocation, delete_ips]
        rfl

theorem allocations_memblockUpdateSize (hp : Placed s) (p size : Word) :
    (memblockUpdateSize s (memblockSearch s p) size).allocations =
      s.allocations.resize p size.toNat := by
  unfold Allocations.resize
  cases hb : memblockSearch s p with
  | none =>
      have hnone : s.allocations p = none := by rw [Store.allocations, hb]; rfl
      show s.allocations = _
      rw [hnone, Option.map_none, ← hnone, Function.update_eq_self]
  | some b =>
      have hips : ∀ c, ((s.resize b size).table.object c).ips = (s.table.object c).ips :=
        resize_field Callstack.ips fun _ _ _ => rfl
      funext q
      show (s.resize b size).allocations q = _
      rw [Store.allocations, search_resize]
      by_cases heq : q = p
      · rw [heq, Function.update_self, Store.allocations, hb]
        simp only [Option.map_some, Store.allocation, hips]
        simp [Store.resize]
      · rw [Function.update_of_ne heq, Store.allocations]
        cases hs : memblockSearch s q with
        | none => rfl
        | some x =>
            have hne : x ≠ b := by
              rintro rfl
              exact heq ((hp.pointer_of_search hs).symm.trans (hp.pointer_of_search hb))
            simp only [Option.map_some, Store.allocation, hips]
            simp [Store.resize, hne]

theorem allocations_sweep (hs : Consistent s) (now : Int) (lim : Limits) :
    (s.step (.sweep now lim)).allocations = s.allocations := by
  suffices h : Consistent (s.step (.sweep now lim)) ∧
      (s.step (.sweep now lim)).allocations = s.allocations from h.2
  refine memblockExpireLoop_induct
    (P := fun s' => Consistent s' ∧ s'.allocations = s.allocations) ?_ ?_ s.active s rfl ⟨hs, rfl⟩
  · rintro s' out ⟨hs', h⟩
    exact ⟨consistent_print hs' out, h⟩
  · rintro s' b rest ⟨hs', h⟩ hact -
    refine ⟨consistent_expireOne hs' hact, Eq.trans ?_ h⟩
    have hptr : ∀ x, ((memblockExpireOne s' b).block x).pointer = (s'.block x).pointer :=
      fun x => (expireOne_block x).1
    apply allocations_congr hs'.toPlaced
    · intro p
      simp only [memblockSearch, memblockExpireOne_hash, hptr]
    · intro x _
      obtain ⟨-, hcreate, hsize, hcs⟩ := @expireOne_block s' b x
      rw [Store.allocation, hcreate, hsize, hcs, expireOne_ips]
      rfl

/-- The bucket of a backtrace tells it apart. -/
def Store.TellsApart (s : Store) (ips : List Word) : Prop :=
  Distinguished (fun cs => (s.table.object cs).ips) ips (s.table.hash (hashSlot ips))

/-- Recording a block files it under its backtrace; a NULL result does nothing. -/
theorem allocations_memblockNew (hs : Consistent s) {env : Env}
    (hm : env.memblockMalloc = true) (hc : env.callstackMalloc = true) {p : Word} (size : Word)
    (happart : p ≠ 0 → s.TellsApart env.ips) :
    (memblockNew s env p size).2.allocations =
      if p = 0 then s.allocations else s.allocations.obtain p ⟨size.toNat, env.now, env.ips⟩ := by
  have hlookup := allocations_lookup hs.toPlaced env
  unfold memblockNew
  by_cases hp : p = 0
  · rw [if_pos hp, if_pos hp]
    exact hlookup
  · rw [if_neg hp, if_neg hp, if_neg (by simp [hm])]
    cases hcs : callstackCurrent s.table env.beyond env.callstackMalloc env.ips with
    | mk cs table =>
        have hs' := consistent_lookup hs env
        rw [hcs] at hs' hlookup
        cases cs with
        | none =>
            rcases callstackCurrent_cases hs.linked env.beyond env.callstackMalloc env.ips with
              ⟨_, -, heq⟩ | heq | ⟨heq, -⟩
            · simp [hcs] at heq
            · simp [hcs] at heq
            · simp [hc] at heq
        | some cs =>
            have hlt := callstackCurrent_lt hs.linked hcs
            have hips := callstackCurrent_ips (happart hp) hcs
            refine (allocations_link hs'.toPlaced (consistent_link hs' rfl hlt).toPlaced).trans ?_
            dsimp only
            rw [hlookup, hips]

end Allocations

/-! ## Runs -/

/-- The bucket tells the backtrace apart under which the operation files a
block, if it does. -/
def Discerns (s : Store) : Op → Prop
  | .call .free _ _ _ _ => True
  | .call .realloc ret old _ env => ret ≠ 0 → ret ≠ old → s.TellsApart env.ips
  | .call _ ret _ _ env => ret ≠ 0 → s.TellsApart env.ips
  | .sweep _ _ => True

/-- What the detector relies on in a step. -/
structure Detectable (sh : Store × Heap) (op : Op) : Prop where
  honest : Honest sh op
  reallocs : NoFailedRealloc sh op
  discerns : Discerns sh.1 op

/-- The store beside the heap and the allocations. -/
structure Detects (sh : Store × Heap) (m : Allocations) : Prop where
  inv : HeapInv sh
  refines : Refines sh
  indexed : sh.1.table.Indexed
  allocations : sh.1.allocations = m

section Runs

variable {s : Store} {h : Heap} {m : Allocations}

theorem allocations_realloc (hd : Detects (s, h) m) {ret old size : Word} {env : Env}
    (hop : Detectable (s, h) (.call .realloc ret old size env)) :
    (s.step (.call .realloc ret old size env)).allocations =
      m.step (.call .realloc ret old size env) := by
  rcases hop with ⟨⟨-, hm, hc⟩, hrealloc, hdiscerns⟩
  have hs := hd.inv.consistent
  have hp := hs.toPlaced
  have hzero := allocations_zero hp hd.inv.distinct
  have hmap : m = s.allocations := hd.allocations.symm
  show (bphRealloc s env ret old size).2.allocations = _
  unfold bphRealloc
  by_cases hsame : ret = old
  · -- in place, or `realloc(NULL, size)` failing
    subst hsame
    rw [if_pos rfl, allocations_memblockUpdateSize hp]
    by_cases hret : ret = 0
    · subst hret
      have hkeep : s.allocations.resize 0 size.toNat = s.allocations := by
        rw [Allocations.resize, hzero, Option.map_none, ← hzero, Function.update_eq_self]
      have hdrop : s.allocations.release 0 = s.allocations := by
        rw [Allocations.release, ← hzero, Function.update_eq_self]
      rw [hkeep, hmap]
      by_cases hsize : size = 0
      · simp only [Allocations.step, hsize, if_true, hdrop]
      · simp only [Allocations.step, hsize, if_true, if_false]
    · simp only [Allocations.step, if_neg hret, if_true, hmap]
  · have hs' : Consistent (memblockDelete s env.freeNow (memblockSearch s old)) :=
      consistent_step hs (.call .free 0 old 0 env)
    have happart : ret ≠ 0 →
        (memblockDelete s env.freeNow (memblockSearch s old)).TellsApart env.ips := by
      intro hret
      have hbefore := hdiscerns hret hsame
      cases hb : memblockSearch s old with
      | none => exact hbefore
      | some b =>
          have hhash : (s.delete env.freeNow b).table.hash = s.table.hash := by
            unfold Store.delete
            dsimp only [Store.unlink]
            split <;> rfl
          show (s.delete env.freeNow b).TellsApart env.ips
          rw [Store.TellsApart, hhash]
          simp only [delete_ips]
          exact hbefore
    rw [if_neg hsame, allocations_memblockNew hs' hm hc size happart,
      allocations_memblockDelete hp hd.inv.distinct]
    by_cases hret : ret = 0
    · rw [if_pos hret]
      by_cases hsize : size = 0
      · simp only [Allocations.step, if_pos hret, if_pos hsize, hmap]
      · -- a failed `realloc` is not one of a block that is recorded
        have hnone : s.allocations old = none := by
          rw [Store.allocations, hrealloc hret hsize]
          rfl
        simp only [Allocations.step, if_pos hret, if_neg hsize, hmap]
        rw [Allocations.release, ← hnone, Function.update_eq_self]
    · simp only [Allocations.step, if_neg hret, if_neg hsame, hmap]

theorem detects_step (hd : Detects (s, h) m) (op : Op) (hop : Detectable (s, h) op) :
    Detects (bothStep (s, h) op) (m.step op) := by
  have hs := hd.inv.consistent
  have hmap : m = s.allocations := hd.allocations.symm
  refine ⟨heapInv_step op hop.honest hd.inv hd.refines,
    (refines_step_iff op hop.honest hd.inv hd.refines).mpr hop.reallocs, indexed_step hd.indexed op,
    ?_⟩
  show (s.step op).allocations = m.step op
  cases op with
  | sweep now lim => exact (allocations_sweep hs now lim).trans hd.allocations
  | call api ret arg1 arg2 env =>
      rcases hop.honest with ⟨hconf, hm, hc⟩
      cases api with
      | malloc =>
          refine (allocations_memblockNew hs hm hc arg1 hop.discerns).trans ?_
          by_cases hret : ret = 0
          · simp only [Allocations.step, if_pos hret, hmap]
          · simp only [Allocations.step, if_neg hret, hmap]
      | calloc =>
          refine (allocations_memblockNew hs hm hc (arg1 * arg2) hop.discerns).trans ?_
          by_cases hret : ret = 0
          · simp only [Allocations.step, if_pos hret, hmap]
          · simp only [Allocations.step, if_neg hret, hmap, calloc_size (hconf hret).2]
      | free =>
          refine (allocations_memblockDelete hs.toPlaced hd.inv.distinct env.freeNow arg1).trans ?_
          simp only [Allocations.step, hmap]
      | realloc => exact allocations_realloc hd hop

theorem detects_attached (live : Set Word) : Detects (attached live) fun _ => none where
  inv := heapInv_attached live
  refines := rfl
  indexed := ⟨hashed_run [], fun _ hc => absurd hc (Nat.not_lt_zero _)⟩
  allocations := rfl

theorem foldl_bothStep (live : Set Word) (ops : List Op) :
    (ops.foldl bothStep (attached live)).1 = Store.run ops := by
  induction ops using List.reverseRecOn with
  | nil => rfl
  | append_singleton ops op ih =>
      rw [List.foldl_append, Store.run_append_single, ← ih]
      rfl

theorem detects_run {live : Set Word} {ops : List Op}
    (hops : Along bothStep Detectable (attached live) ops) :
    Detects (ops.foldl bothStep (attached live)) (Allocations.run ops) := by
  induction ops using List.reverseRecOn with
  | nil => exact detects_attached live
  | append_singleton ops op ih =>
      obtain ⟨hbefore, hop⟩ := (along_append_single _ _ _).mp hops
      rw [List.foldl_append, Allocations.run_append_single]
      exact detects_step (ih hbefore) op hop

end Runs

/-! ## What is on the expired list -/

/-- The expired list holds the old blocks: since the sweep at `now` none has been
made that would be old by then, and none has been moved. -/
def Swept (e now : Int) (s : Store) : Prop :=
  ∀ b ∈ s.stored, b ∈ s.expire ↔ e ≤ now - (s.block b).create

/-- A completed call. -/
def Op.IsCall (op : Op) : Prop := ∀ now lim, op ≠ .sweep now lim

theorem swept_call {e now : Int} {s : Store} (he : 0 < e) (hs : Consistent s) (h : Swept e now s)
    {op : Op} (hcall : op.IsCall) (hnow : now ≤ op.now) : Swept e now (s.step op) := by
  refine Consistent.step_induct (P := Swept e now) ?_ ?_ ?_ ?_ ?_ ?_ hs h
  · intro s out h
    exact h
  · intro s env _ h
    exact h
  · intro s env pointer size cs hs h henv _ b hb
    rcases mem_stored_link.mp hb with rfl | hb
    · -- the new block is younger than the sweep
      rw [link_block_fresh]
      refine iff_of_false ?_ ?_
      · intro hexp
        exact hs.fresh_not_mem (List.mem_append_right _ hexp)
      · dsimp only
        omega
    · rw [link_block_of_mem hs.toPlaced hb]
      exact h b hb
  · intro s t b hs h _ x hx
    obtain ⟨hne, hx⟩ := (mem_stored_delete hs.toPlaced).mp hx
    show x ∈ s.expire.erase b ↔ _
    rw [hs.expire_nodup.mem_erase_iff, and_iff_right hne]
    exact h x hx
  · intro pointer b size env _ _ _ x hx
    rw [(resize_block x).2.1]
    exact h x hx
  · intro s b rest t lim hop
    exact absurd hop (hcall t lim)

theorem swept_calls {e now : Int} (he : 0 < e) {pre post : List Op}
    (h : Swept e now (Store.run pre))
    (hpost : ∀ op ∈ post, op.IsCall ∧ now ≤ op.now) : Swept e now (Store.run (pre ++ post)) := by
  induction post using List.reverseRecOn with
  | nil =>
      rw [List.append_nil]
      exact h
  | append_singleton post op ih =>
      rcases hpost op (by simp) with ⟨hcall, hnow⟩
      rw [← List.append_assoc, Store.run_append_single]
      exact swept_call he (consistent_run _)
        (ih fun op' hop' => hpost op' (List.mem_append_left _ hop')) hcall hnow

theorem ClockMonotone.append {ops ops' : List Op} (h : ClockMonotone (ops ++ ops')) :
    ClockMonotone ops ∧ ∀ op ∈ ops, ∀ op' ∈ ops', op.now ≤ op'.now := by
  rw [ClockMonotone, List.flatMap_append, List.pairwise_append] at h
  refine ⟨h.1, fun op hop op' hop' => h.2.2 _ ?_ _ ?_⟩
  · exact List.mem_flatMap.mpr ⟨op, hop, op.now_mem_readings⟩
  · exact List.mem_flatMap.mpr ⟨op', hop', op'.now_mem_readings⟩

/-- After a sweep that stops at no limit, and calls only. -/
theorem swept_run {e now : Int} (he : 0 < e) {pre post : List Op} {lim : Limits}
    (hclock : ClockMonotone (pre ++ .sweep now lim :: post))
    (hexp : ∀ op ∈ pre ++ [.sweep now lim], op.ExpiresAfter e) (hpost : ∀ op ∈ post, op.IsCall)
    (hres : 0 ≤ (memblockExpire (Store.run pre) now lim).1) :
    Swept e now (Store.run (pre ++ .sweep now lim :: post)) := by
  rw [List.append_cons] at hclock ⊢
  rcases hclock.append with ⟨hbefore, hafter⟩
  refine swept_calls he ?_ fun op hop => ⟨hpost op hop, hafter (.sweep now lim) (by simp) op hop⟩
  rw [Store.run_append_single]
  have htimely : Timely e now (Store.run pre) :=
    timely_run hbefore.init.1 (fun op hop => hexp op (List.mem_append_left _ hop)) now
      hbefore.init.2
  have hlim : Op.ExpiresAfter e (.sweep now lim) := hexp _ (by simp)
  exact memblockExpire_exact (consistent_run pre) htimely hlim hres

/-! ## Leaks, counted by the store -/

section Leaks

variable {s : Store} {e now : Int}

/-- The blocks that a callstack has on the expired list are the pointers that
leak at its backtrace. -/
theorem leaks_eq_image (hp : Placed s) (hd : Distinct s) (hi : s.table.Apart) (h : Swept e now s)
    {c : CallstackId} (hc : c < s.table.fresh) :
    s.allocations.leaks e now (s.table.object c).ips =
      ((s.blocksOf c s.expire).toFinset.image fun b => (s.block b).pointer) := by
  ext p
  rw [Finset.coe_image, Set.mem_image]
  simp only [Finset.mem_coe, List.mem_toFinset, Store.blocksOf, List.mem_filter, decide_eq_true_eq]
  constructor
  · rintro ⟨a, ha, hips, hage⟩
    obtain ⟨b, hb, rfl, rfl⟩ := (allocations_eq_some_iff hp hd).mp ha
    exact ⟨b, ⟨(h b hb).mpr hage, hi _ (hp.known b hb) c hc hips⟩, rfl⟩
  · rintro ⟨b, ⟨hexp, rfl⟩, rfl⟩
    have hb : b ∈ s.stored := List.mem_append_right _ hexp
    exact ⟨s.allocation b, (allocations_eq_some_iff hp hd).mpr ⟨b, hb, rfl, rfl⟩, rfl,
      (h b hb).mp hexp⟩

theorem leaks_ncard (hp : Placed s) (hd : Distinct s) (hi : s.table.Apart) (h : Swept e now s)
    {c : CallstackId} (hc : c < s.table.fresh) :
    (s.allocations.leaks e now (s.table.object c).ips).ncard = s.leaks c := by
  have hnodup : (s.blocksOf c s.expire).Nodup := hp.expire_nodup.filter _
  rw [leaks_eq_image hp hd hi h hc, Set.ncard_coe_finset, Finset.card_image_of_injOn,
    List.toFinset_card_of_nodup hnodup, Store.leaks]
  intro b hb b' hb' heq
  have hmem : ∀ x ∈ (s.blocksOf c s.expire).toFinset, x ∈ s.stored := fun x hx =>
    List.mem_append_right _ (List.mem_filter.mp (List.mem_toFinset.mp hx)).1
  exact hd.inj b (hmem b hb) b' (hmem b' hb') heq

theorem exists_callstack_of_leak (hp : Placed s) (hd : Distinct s)
    (h : Swept e now s) {ips : List Word} (hne : (s.allocations.leaks e now ips).Nonempty) :
    ∃ c < s.table.fresh, (s.table.object c).ips = ips ∧ s.leaks c ≠ 0 := by
  rcases hne with ⟨p, hleak⟩
  rcases hleak with ⟨a, ha, rfl, hage⟩
  obtain ⟨b, hb, rfl, rfl⟩ := (allocations_eq_some_iff hp hd).mp ha
  refine ⟨(s.block b).callstack, hp.known b hb, rfl, ?_⟩
  have hmem : b ∈ s.blocksOf (s.block b).callstack s.expire :=
    List.mem_filter.mpr ⟨(h b hb).mpr hage, decide_eq_true rfl⟩
  exact Nat.ne_of_gt (List.length_pos_of_mem hmem)

end Leaks

/-! ## The report -/

/-- A backtrace that is printed, with the figures above it. -/
def ReportLine.entry (t : CallstackTable) : ReportLine → Option (List Word × Statistics)
  | .record cs figures => some ((t.object cs).ips, figures)
  | _ => none

/-- What a report says about the allocations that it is on. -/
structure LeaksReported (leaks : List Word → Set Word) (t : CallstackTable)
    (lines : List ReportLine) : Prop where
  once : ((lines.filterMap (·.entry t)).map Prod.fst).Nodup
  listed : ∀ ips, ips ∈ (lines.filterMap (·.entry t)).map Prod.fst ↔ (leaks ips).Nonempty
  /-- the figure `may-leak` -/
  mayLeak : ∀ r ∈ lines.filterMap (·.entry t), r.2.mayLeak.toInt = ((leaks r.1).ncard : Int)
  ascending : (lines.filterMap (·.entry t)).Pairwise fun r r' =>
    (leaks r.1).ncard ≤ (leaks r'.1).ncard
  nothing : .noExpired ∈ lines ↔ ∀ ips, leaks ips = ∅

section Report

variable {s : Store} {grants : Word → Bool}
  {qsort : (CallstackId → CallstackId → CInt) → List CallstackId → List CallstackId}

/-- The callstacks that are printed, in their order. -/
theorem callstackReport_eq (hqsort : Sorts qsort) (hgrants : Granting grants) (hp : Placed s)
    (hcmp : CmpExact s) (hhash : s.table.Hashed)
    (hroom : s.leakingCallstacks.length ≤ arrayCapacity) (now : Int) :
    ∃ l : List CallstackId, l.Nodup ∧ (∀ c, c ∈ l ↔ s.leaks c ≠ 0) ∧
      (l.Pairwise fun c d => s.leaks c ≤ s.leaks d) ∧
      callstackReport qsort grants s now = some (if l = [] then [.noExpired] else
        .header :: l.map fun c => .record c ((memblockCount s now).table.object c).statistics) := by
  obtain ⟨hnodup, hmem, hlength⟩ := leaking_perm hp hcmp hhash
  obtain ⟨htable, hchains, hleaking⟩ := (memblockCount_countedFrom s now).table_eq
  have hcollect := callstackCollect_eq (t := (memblockCount s now).table) hgrants
    (hashForEach s.table.hash) [] callstacksArray 0 callstacksArray_filled (Nat.zero_le _)
  rw [hleaking, List.nil_append] at hcollect
  rw [← hlength] at hroom
  generalize s.table.leaking (hashForEach s.table.hash) = l at *
  rcases hcollect.resolve_right fun h => not_lt.mpr hroom h.1 with ⟨-, a, k, hsome, hfilled⟩
  have hnum : a.itemNum = 0 ↔ l = [] := by
    rw [hfilled.itemNum]
    constructor
    · intro hzero
      have hnat := congrArg BitVec.toNat hzero
      unfold arrayCapacity at hroom
      rw [BitVec.toNat_ofNat, Nat.mod_eq_of_lt (by omega)] at hnat
      exact List.length_eq_zero_iff.mp hnat
    · rintro rfl
      rfl
  unfold callstackReport
  dsimp only
  rw [hchains, htable, hsome, Option.map_some]
  by_cases hnil : l = []
  · rw [if_pos (hnum.mpr hnil)]
    subst hnil
    exact ⟨[], List.nodup_nil, hmem, List.Pairwise.nil, rfl⟩
  · rw [if_neg fun h => hnil (hnum.mp h)]
    rcases hqsort (callstackCmp s.table) l (hcmp.consistent l) with ⟨hperm, hsorted⟩
    have hdata : a.data = some l := by
      rcases hfilled.data with hdata | ⟨hempty, -⟩
      · exact hdata
      · exact absurd hempty hnil
    have hnil' : qsort (callstackCmp s.table) l ≠ [] := by
      intro hempty
      rw [hempty] at hperm
      exact hnil hperm.symm.eq_nil
    rw [hfilled.forEach_sort hperm hdata]
    refine ⟨qsort (callstackCmp s.table) l, hperm.nodup_iff.mpr hnodup, ?_, ?_, ?_⟩
    · intro c
      rw [hperm.mem_iff]
      exact hmem c
    · apply hsorted.imp
      intro c d hle
      rw [hcmp.compare] at hle
      omega
    · rw [if_neg hnil']

/-- What the records of a report say, callstack by callstack. -/
theorem leaksReported_records {e now : Int} (hp : Placed s) (hd : Distinct s)
    (hi : s.table.Apart) (hcmp : CmpExact s) (h : Swept e now s) (later : Int)
    {l : List CallstackId} (hnodup : l.Nodup) (hmem : ∀ c, c ∈ l ↔ s.leaks c ≠ 0)
    (hsorted : l.Pairwise fun c d => s.leaks c ≤ s.leaks d) :
    LeaksReported (s.allocations.leaks e now) s.table (if l = [] then [.noExpired] else
      .header :: l.map fun c => .record c ((memblockCount s later).table.object c).statistics) := by
  have hlt : ∀ c ∈ l, c < s.table.fresh := fun c hc => leaks_ne_zero_lt hp ((hmem c).mp hc)
  have hncard : ∀ c ∈ l, (s.allocations.leaks e now (s.table.object c).ips).ncard = s.leaks c :=
    fun c hc => leaks_ncard hp hd hi h (hlt c hc)
  have hentries : (if l = [] then [ReportLine.noExpired] else .header :: l.map fun c =>
      .record c ((memblockCount s later).table.object c).statistics).filterMap (·.entry s.table) =
      l.map fun c =>
        ((s.table.object c).ips, ((memblockCount s later).table.object c).statistics) := by
    split
    · rename_i hnil
      rw [hnil]
      rfl
    · rw [List.filterMap_cons_none rfl, List.filterMap_map]
      show l.filterMap (some ∘ fun c =>
        ((s.table.object c).ips, ((memblockCount s later).table.object c).statistics)) = _
      rw [List.filterMap_eq_map]
  have hempty : (∀ ips, s.allocations.leaks e now ips = ∅) ↔ l = [] := by
    rw [List.eq_nil_iff_forall_not_mem]
    constructor
    · intro hnone c hc
      have hcard := hncard c hc
      rw [hnone, Set.ncard_empty] at hcard
      exact (hmem c).mp hc hcard.symm
    · intro hnone ips
      rw [← Set.not_nonempty_iff_eq_empty]
      intro hne
      obtain ⟨c, -, -, hleaks⟩ := exists_callstack_of_leak hp hd h hne
      exact hnone c ((hmem c).mpr hleaks)
  constructor
  · rw [hentries, List.map_map]
    apply hnodup.map_on
    intro c hc d hd' heq
    exact hi c (hlt c hc) d (hlt d hd') heq
  · intro ips
    rw [hentries, List.map_map, List.mem_map]
    constructor
    · rintro ⟨c, hc, rfl⟩
      apply Set.nonempty_of_ncard_ne_zero
      show (s.allocations.leaks e now (s.table.object c).ips).ncard ≠ 0
      rw [hncard c hc]
      exact (hmem c).mp hc
    · intro hne
      obtain ⟨c, -, hips, hleaks⟩ := exists_callstack_of_leak hp hd h hne
      exact ⟨c, (hmem c).mpr hleaks, hips⟩
  · rw [hentries]
    intro r hr
    obtain ⟨c, hc, rfl⟩ := List.mem_map.mp hr
    dsimp only
    rw [hncard c hc, (memblockCount_countedFrom s later).object c]
    exact (hcmp.difference c).trans (hcmp.leaks c)
  · rw [hentries, List.pairwise_map]
    apply hsorted.imp_of_mem
    intro c d hc hd' hle
    dsimp only
    rw [hncard c hc, hncard d hd']
    exact hle
  · rw [hempty]
    split
    · rename_i hnil
      exact iff_of_true (List.mem_singleton.mpr rfl) hnil
    · rename_i hnil
      exact iff_of_false (by simp) hnil

/-- The report after a history, when the expired list holds the old blocks. -/
theorem report_of_swept {live : Set Word} {ops : List Op} {e now : Int} (hqsort : Sorts qsort)
    (hgrants : Granting grants) (hops : Along bothStep Detectable (attached live) ops)
    (hswept : Swept e now (Store.run ops)) (hcounts : ∀ c, (Store.run ops).everExpired c < 2 ^ 31)
    (hroom : (Store.run ops).leakingCallstacks.length ≤ arrayCapacity) (later : Int) :
    ∃ lines, callstackReport qsort grants (Store.run ops) later = some lines ∧
      LeaksReported ((Allocations.run ops).leaks e now) (Store.run ops).table lines := by
  obtain ⟨hinv, -, hindexed, hallocations⟩ := detects_run hops
  have hdistinct := hinv.distinct
  rw [foldl_bothStep] at hdistinct hindexed hallocations
  have hs := consistent_run ops
  have hcmp := cmpExact hs (totalled_run ops) hcounts
  obtain ⟨l, hnodup, hmem, hsorted, hreport⟩ :=
    callstackReport_eq hqsort hgrants hs.toPlaced hcmp hindexed.1 hroom later
  refine ⟨_, hreport, ?_⟩
  rw [← hallocations]
  exact leaksReported_records hs.toPlaced hdistinct hindexed.2 hcmp hswept later hnodup hmem hsorted

end Report

/-- **The report of memleax lists the leaks of the target**: of the allocations
that the calls leave behind those that were old at the last sweep, grouped by
backtrace. The history is one of a conforming allocator in which no `realloc` of
a tracked block fails and the buckets tell the backtraces apart; the clock does
not run backwards, the sweeps use one threshold, and the last one stops at no
limit. -/
theorem report_lists_leaks
    (qsort : (CallstackId → CallstackId → CInt) → List CallstackId → List CallstackId)
    (hqsort : Sorts qsort) (grants : Word → Bool) (hgrants : Granting grants) (e : Int)
    (he : 0 < e) (live : Set Word) (pre post : List Op) (now : Int) (lim : Limits)
    (hops : Along bothStep Detectable (attached live) (pre ++ .sweep now lim :: post))
    (hclock : ClockMonotone (pre ++ .sweep now lim :: post))
    (hexp : ∀ op ∈ pre ++ [.sweep now lim], op.ExpiresAfter e) (hpost : ∀ op ∈ post, op.IsCall)
    (hres : 0 ≤ (memblockExpire (Store.run pre) now lim).1)
    (hcounts : ∀ c, (Store.run (pre ++ .sweep now lim :: post)).everExpired c < 2 ^ 31)
    (hroom : (Store.run (pre ++ .sweep now lim :: post)).leakingCallstacks.length ≤ arrayCapacity)
    (later : Int) :
    ∃ lines,
      callstackReport qsort grants (Store.run (pre ++ .sweep now lim :: post)) later = some lines ∧
      LeaksReported ((Allocations.run (pre ++ .sweep now lim :: post)).leaks e now)
        (Store.run (pre ++ .sweep now lim :: post)).table lines :=
  report_of_swept hqsort hgrants hops (swept_run he hclock hexp hpost hres) hcounts hroom later

instance decidableDistinguished (stored : CallstackId → List Word) (ips : List Word) :
    (chain : List CallstackId) → Decidable (Distinguished stored ips chain)
  | [] => isTrue trivial
  | cs :: rest =>
      haveI := decidableDistinguished stored ips rest
      inferInstanceAs (Decidable (stored cs = ips ∨
        ips.length ≤ (stored cs).length ∧ ¬ ips <+: stored cs ∧ Distinguished stored ips rest))

instance (s : Store) (ips : List Word) : Decidable (s.TellsApart ips) :=
  decidableDistinguished _ _ _

instance (s : Store) : (op : Op) → Decidable (Discerns s op)
  | .call .free _ _ _ _ => isTrue trivial
  | .call .malloc ret _ _ env => inferInstanceAs (Decidable (ret ≠ 0 → s.TellsApart env.ips))
  | .call .calloc ret _ _ env => inferInstanceAs (Decidable (ret ≠ 0 → s.TellsApart env.ips))
  | .call .realloc ret old _ env =>
      inferInstanceAs (Decidable (ret ≠ 0 → ret ≠ old → s.TellsApart env.ips))
  | .sweep _ _ => isTrue trivial

/-- Two leaks at one backtrace, one of them resized in place, and a block that
is freed in time. -/
def leaking : List Op :=
  [.call .malloc 0x5000 100 0 { now := 0, ips := [0x1000, 0x2000] },
    .call .malloc 0x6000 100 0 { now := 0, ips := [0x1000, 0x2000] },
    .call .calloc 0x7000 8 16 { now := 1, ips := [0x1300, 0x2400] },
    .call .realloc 0x5000 0x5000 64 { now := 2, ips := [0x1100, 0x2000] },
    .call .free 0 0x7000 0 { now := 3, ips := [0x1200, 0x2000] }]

/-- The pointer of the freed block is used again. -/
def afterSweep : List Op := [.call .malloc 0x7000 1 0 { now := 14, ips := [0x1000, 0x2400] }]

theorem report_lists_leaks_leaking : ∃ lines : List ReportLine,
    callstackReport sortedBy ptrdiffGrants
        (Store.run (leaking ++ .sweep 12 ⟨10, 1000, 1000⟩ :: afterSweep)) 20 = some lines ∧
      LeaksReported
        ((Allocations.run (leaking ++ .sweep 12 ⟨10, 1000, 1000⟩ :: afterSweep)).leaks 10 12)
        (Store.run (leaking ++ .sweep 12 ⟨10, 1000, 1000⟩ :: afterSweep)).table lines := by
  refine report_lists_leaks sortedBy sorts_sortedBy ptrdiffGrants granting_ptrdiffGrants 10
    (by decide) ∅ leaking afterSweep 12 ⟨10, 1000, 1000⟩ ?_ ?_ ?_ ?_ ?_ ?_ ?_ 20
  · refine ⟨⟨⟨fun _ => ?_, rfl, rfl⟩, trivial, fun _ => ?_⟩,
      ⟨⟨fun _ => ?_, rfl, rfl⟩, trivial, fun _ => ?_⟩,
      ⟨⟨fun _ => ⟨?_, by decide⟩, rfl, rfl⟩, trivial, fun _ => ?_⟩,
      ⟨⟨fun _ h => absurd rfl h, rfl, rfl⟩, fun h => absurd h (by decide), fun _ h => absurd rfl h⟩,
      ⟨⟨trivial, rfl, rfl⟩, trivial, trivial⟩, ⟨⟨trivial, trivial⟩, trivial, trivial⟩,
      ⟨⟨fun _ => ?_, rfl, rfl⟩, trivial, fun _ => ?_⟩, trivial⟩
    all_goals first
      | decide +kernel
      | simp [attached, bothStep, Heap.step, Heap.obtain, Heap.release, Heap.resize]
  · unfold ClockMonotone
    decide
  · simp [leaking, Op.ExpiresAfter]
  · simp [afterSweep, Op.IsCall]
  · decide +kernel
  · intro c
    refine lt_of_le_of_lt (List.countP_le_length.trans (List.length_filter_le _ _)) ?_
    decide +kernel
  · refine le_trans (List.length_filter_le _ _) ?_
    decide +kernel

end Memleax
