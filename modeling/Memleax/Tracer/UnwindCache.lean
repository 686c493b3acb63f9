import Memleax.Framework.Memos
import Memleax.Store.Callstack

/-!
# The unwinder's cache

`ptr_backtrace.c` puts `_ptr_find_proc_info` between libunwind and its own
`_UPT_find_proc_info`, which looks for the unwind information of an instruction
pointer in the files of the target. `findProcInfo` asks it once for each pointer
and keeps the answers in a hash table, the failures too.

`unwind_cache` says what libunwind gets to see over a whole run of the tracer, and
exactly when the cache breaks down: a `malloc` fails, or an answer that is used
again does not fit into the buffer of 100 bytes.
-/

namespace Memleax

open Framework

variable {ι : Type*}

/-- `unw_proc_info_t`: `unwind_info` with its `unwind_info_size` bytes, and the other members. -/
structure ProcInfo (ι : Type*) where
  members : ι
  unwindInfo : List (BitVec 8)
deriving DecidableEq

/-- The size of the static `unw_info_buf`. -/
def unwInfoBufSize : Nat := 100

/-- `_ptr_unw_proc_info_copy`: into a new buffer, or into the static one, where the bytes stay
until the next copy. `malloc` is whether the new buffer is there. -/
def unwProcInfoCopy (s : ProcInfo ι) (newUnwInfoBuf malloc : Bool) : Option (ProcInfo ι) :=
  if newUnwInfoBuf then if malloc then some s else none
  else if s.unwindInfo.length ≤ unwInfoBufSize then some s
  else none

/-- `struct ip_info_s`. Its `pi` is not written if the query has failed. -/
structure IpInfo (ι : Type*) where
  ip : Word
  pi : Option (ProcInfo ι)
  ret : CInt

/-- A call of `_ptr_find_proc_info`, with what `_UPT_find_proc_info` would answer now and
whether the two `malloc` of a miss succeed. -/
structure ProcInfoQuery (ι : Type*) where
  ip : Word
  ret : CInt
  pi : ProcInfo ι
  infoMalloc : Bool := true
  bufMalloc : Bool := true

/-- What a caller may read: `pi` only if `ret` is not negative. -/
abbrev ProcInfoAnswer (ι : Type*) := CInt × Option (ProcInfo ι)

def ProcInfoQuery.answer (q : ProcInfoQuery ι) : ProcInfoAnswer ι :=
  (q.ret, if q.ret.slt 0 then none else some q.pi)

/-- `ip_info_hash`, and the instruction pointers that `_UPT_find_proc_info` has been asked for. -/
structure UnwindCache (ι : Type*) where
  ipInfoHash : Chains (IpInfo ι) := fun _ => []
  asked : List Word := []

/-- `_ptr_find_proc_info`: `none` if it writes where it may not. -/
def findProcInfo (c : UnwindCache ι) (q : ProcInfoQuery ι) :
    Option (ProcInfoAnswer ι × UnwindCache ι) :=
  match c.ipInfoHash.search (hashSlot [q.ip]) fun ii => decide (ii.ip = q.ip) with
  | some ii =>
      if ii.ret.slt 0 then some ((ii.ret, none), c)
      else do
        let stored ← ii.pi
        let pi ← unwProcInfoCopy stored false false
        return ((ii.ret, some pi), c)
  | none =>
      if q.infoMalloc then do
        let pi ← if q.ret.slt 0 then some none else (unwProcInfoCopy q.pi true q.bufMalloc).map some
        return (q.answer,
          { ipInfoHash := c.ipInfoHash.pushHead (hashSlot [q.ip]) ⟨q.ip, pi, q.ret⟩
            asked := c.asked ++ [q.ip] })
      else none

/-- The calls of a run, with the answers so far. -/
def findProcInfos (qs : List (ProcInfoQuery ι)) :
    Option (List (ProcInfoAnswer ι) × UnwindCache ι) :=
  qs.foldlM (fun r q => (findProcInfo r.2 q).map fun p => (r.1 ++ [p.1], p.2)) ([], {})

/-! ## What a run leaves -/

/-- The questions of a run with the answers of `_UPT_find_proc_info`. -/
def questions (qs : List (ProcInfoQuery ι)) : List (Word × ProcInfoAnswer ι) :=
  qs.map fun q => (q.ip, q.answer)

/-- A new question needs memory, an old one an answer that fits into the static buffer. -/
def CacheFits (asked : List (ProcInfoQuery ι)) (q : ProcInfoQuery ι) : Prop :=
  (firstAnswer (questions asked) q.ip = none →
    q.infoMalloc = true ∧ (q.ret.slt 0 = false → q.bufMalloc = true)) ∧
  ∀ ret pi, firstAnswer (questions asked) q.ip = some (ret, some pi) →
    pi.unwindInfo.length ≤ unwInfoBufSize

/-- The cache after the questions `qs`. -/
structure CacheInv (qs : List (ProcInfoQuery ι)) (c : UnwindCache ι) : Prop where
  memo : Memo (fun ip => hashSlot [ip]) IpInfo.ip (fun ii => (ii.ret, ii.pi)) c.ipInfoHash
    (questions qs)
  asked_nodup : c.asked.Nodup
  mem_asked : ∀ ip, ip ∈ c.asked ↔ ∃ q ∈ qs, q.ip = ip

theorem questions_concat (qs : List (ProcInfoQuery ι)) (q : ProcInfoQuery ι) :
    questions (qs ++ [q]) = questions qs ++ [(q.ip, q.answer)] := by
  rw [questions, List.map_append]
  rfl

theorem firstAnswer_questions_eq_none {qs : List (ProcInfoQuery ι)} {ip : Word} :
    firstAnswer (questions qs) ip = none ↔ ¬ ∃ q ∈ qs, q.ip = ip := by
  rw [firstAnswer_eq_none_iff]
  constructor
  · rintro h ⟨q, hq, rfl⟩
    exact h _ (List.mem_map_of_mem hq) rfl
  · intro h p hp heq
    obtain ⟨q, hq, rfl⟩ := List.mem_map.mp hp
    exact h ⟨q, hq, heq⟩

/-- An answer has a `pi` exactly if it is no error. -/
theorem firstAnswer_questions {qs : List (ProcInfoQuery ι)} {ip : Word} {ret : CInt}
    {pi : Option (ProcInfo ι)} (h : firstAnswer (questions qs) ip = some (ret, pi)) :
    ret.slt 0 = pi.isNone := by
  obtain ⟨q, -, hq⟩ := List.mem_map.mp (mem_of_firstAnswer h)
  obtain ⟨rfl, rfl⟩ := Prod.mk.inj (Prod.mk.inj hq).2
  cases q.ret.slt 0 <;> rfl

section Call

variable {qs : List (ProcInfoQuery ι)} {c : UnwindCache ι} (hc : CacheInv qs c)
  (q : ProcInfoQuery ι)

include hc

theorem findProcInfo_hit {ret : CInt} {pi : Option (ProcInfo ι)}
    (hfirst : firstAnswer (questions qs) q.ip = some (ret, pi)) :
    CacheInv (qs ++ [q]) c ∧
      (CacheFits qs q → findProcInfo c q = some ((ret, pi), c)) ∧
      (¬ CacheFits qs q → findProcInfo c q = none) := by
  obtain ⟨ii, hii, hvalue⟩ := Option.map_eq_some_iff.mp ((hc.memo q.ip).trans hfirst)
  obtain ⟨rfl, rfl⟩ := Prod.mk.inj hvalue
  have hret := firstAnswer_questions hfirst
  have hfits : CacheFits qs q ↔ ∀ stored, ii.pi = some stored →
      stored.unwindInfo.length ≤ unwInfoBufSize := by
    constructor
    · rintro ⟨-, hsize⟩ stored hstored
      exact hsize ii.ret stored (by rw [hfirst, hstored])
    · intro hsize
      refine ⟨fun hnone => ?_, ?_⟩
      · rw [hfirst] at hnone
        cases hnone
      · intro ret stored hstored
        rw [hfirst] at hstored
        exact hsize stored (Prod.mk.inj (Option.some.inj hstored)).2
  refine ⟨⟨?_, hc.asked_nodup, ?_⟩, ?_⟩
  · rw [questions_concat]
    exact (hc.memo.hit q.answer hii).2
  · intro ip
    rw [hc.mem_asked]
    have hold : ∃ q' ∈ qs, q'.ip = q.ip := by
      by_contra hnone
      rw [firstAnswer_questions_eq_none.mpr hnone] at hfirst
      cases hfirst
    constructor
    · rintro ⟨q', hq', rfl⟩
      exact ⟨q', List.mem_append_left _ hq', rfl⟩
    · rintro ⟨q', hq', rfl⟩
      rcases List.mem_append.mp hq' with hq' | hq'
      · exact ⟨q', hq', rfl⟩
      · rw [List.mem_singleton.mp hq']
        exact hold
  · obtain ⟨ip, stored, ret⟩ := ii
    rw [hfits, findProcInfo, hii]
    change ret.slt 0 = stored.isNone at hret
    cases stored with
    | none => simp [show ret.slt 0#32 = true from hret]
    | some stored =>
        by_cases hsize : stored.unwindInfo.length ≤ unwInfoBufSize <;>
          simp [show ret.slt 0#32 = false from hret, unwProcInfoCopy, hsize]

theorem findProcInfo_miss (hnone : firstAnswer (questions qs) q.ip = none) :
    (CacheFits qs q → ∃ c', findProcInfo c q = some (q.answer, c') ∧ CacheInv (qs ++ [q]) c') ∧
      (¬ CacheFits qs q → findProcInfo c q = none) := by
  have hsearch : (c.ipInfoHash.search (hashSlot [q.ip]) fun ii => decide (ii.ip = q.ip)) = none :=
    Option.map_eq_none_iff.mp ((hc.memo q.ip).trans hnone)
  have hfits : CacheFits qs q ↔
      q.infoMalloc = true ∧ (q.ret.slt 0 = false → q.bufMalloc = true) := by
    simp [CacheFits, hnone]
  have hpush : ∀ pi, q.answer = (q.ret, pi) → CacheInv (qs ++ [q])
      { ipInfoHash := c.ipInfoHash.pushHead (hashSlot [q.ip]) ⟨q.ip, pi, q.ret⟩
        asked := c.asked ++ [q.ip] } := by
    intro pi hpi
    refine ⟨?_, ?_, ?_⟩
    · rw [questions_concat]
      exact (hc.memo.miss hsearch rfl hpi.symm).2
    · rw [List.nodup_append]
      refine ⟨hc.asked_nodup, List.nodup_singleton _, ?_⟩
      rintro ip hip _ hself rfl
      obtain rfl := List.mem_singleton.mp hself
      exact firstAnswer_questions_eq_none.mp hnone ((hc.mem_asked _).mp hip)
    · intro ip
      simp only [List.mem_append, hc.mem_asked, List.mem_singleton, or_and_right, exists_or,
        exists_eq_left, eq_comm (a := ip)]
  rw [hfits, findProcInfo, hsearch]
  cases hinfo : q.infoMalloc with
  | false => simp
  | true =>
      cases hret : q.ret.slt 0 with
      | true =>
          have hanswer : q.answer = (q.ret, none) := by rw [ProcInfoQuery.answer, if_pos hret]
          refine ⟨fun _ => ⟨_, ?_, hpush none hanswer⟩, ?_⟩ <;> simp
      | false =>
          cases hbuf : q.bufMalloc with
          | false => simp [unwProcInfoCopy]
          | true =>
              have hanswer : q.answer = (q.ret, some q.pi) := by
                simp only [ProcInfoQuery.answer, hret, Bool.false_eq_true, if_false]
              refine ⟨fun _ => ⟨_, ?_, hpush (some q.pi) hanswer⟩, ?_⟩ <;> simp [unwProcInfoCopy]

end Call

theorem findProcInfo_step {qs : List (ProcInfoQuery ι)} {c : UnwindCache ι} (hc : CacheInv qs c)
    (q : ProcInfoQuery ι) :
    (CacheFits qs q → ∃ c', CacheInv (qs ++ [q]) c' ∧
      findProcInfo c q = some ((firstAnswer (questions qs) q.ip).getD q.answer, c')) ∧
      (¬ CacheFits qs q → findProcInfo c q = none) := by
  cases hfirst : firstAnswer (questions qs) q.ip with
  | none =>
      obtain ⟨hfits, hnot⟩ := findProcInfo_miss hc q hfirst
      refine ⟨fun h => ?_, hnot⟩
      rcases hfits h with ⟨c', hcall, hc'⟩
      exact ⟨c', hc', hcall⟩
  | some answer =>
      obtain ⟨hc', hfits, hnot⟩ := findProcInfo_hit hc q hfirst
      exact ⟨fun h => ⟨c, hc', hfits h⟩, hnot⟩

theorem findProcInfos_concat (qs : List (ProcInfoQuery ι)) (q : ProcInfoQuery ι) :
    findProcInfos (qs ++ [q]) = (findProcInfos qs).bind fun r =>
      (findProcInfo r.2 q).map fun p => (r.1 ++ [p.1], p.2) := by
  rw [findProcInfos, List.foldlM_append]
  refine congrArg (Option.bind _) (funext fun r => ?_)
  exact bind_pure _

/-- Every call finds what it needs. -/
def AllFit (qs : List (ProcInfoQuery ι)) : Prop :=
  ∀ before q after, qs = before ++ q :: after → CacheFits before q

theorem allFit_concat {qs : List (ProcInfoQuery ι)} {q : ProcInfoQuery ι} :
    AllFit (qs ++ [q]) ↔ AllFit qs ∧ CacheFits qs q := by
  constructor
  · intro h
    refine ⟨?_, h qs q [] rfl⟩
    rintro before q' after rfl
    exact h before q' (after ++ [q]) (by simp)
  · rintro ⟨hall, hlast⟩ before q' after heq
    rcases List.eq_nil_or_concat after with rfl | ⟨after, last, rfl⟩
    · obtain ⟨rfl, hq⟩ := List.append_inj' heq rfl
      obtain rfl := List.singleton_inj.mp hq
      exact hlast
    · rw [List.concat_eq_append, ← List.cons_append, ← List.append_assoc] at heq
      obtain ⟨rfl, -⟩ := List.append_inj' heq rfl
      exact hall before q' after rfl

/-- **What libunwind sees.** A run of calls goes through exactly if every call finds what it
needs. Then each call gets what `_UPT_find_proc_info` answered at the first call for the same
instruction pointer, an error as well as a success, and it is asked once for each pointer. So
the cache makes no difference if the mappings of the target do not change. -/
theorem unwind_cache (qs : List (ProcInfoQuery ι)) :
    ((findProcInfos qs).isSome ↔ AllFit qs) ∧
      ∀ answers c, findProcInfos qs = some (answers, c) →
        answers = memoised (questions qs) ∧ c.asked.Nodup ∧
          (∀ ip, ip ∈ c.asked ↔ ∃ q ∈ qs, q.ip = ip) ∧
          ((∀ q ∈ qs, ∀ q' ∈ qs, q.ip = q'.ip → q.answer = q'.answer) →
            answers = qs.map ProcInfoQuery.answer) := by
  suffices h : (AllFit qs → ∃ c, CacheInv qs c ∧
      findProcInfos qs = some (memoised (questions qs), c)) ∧
      (¬ AllFit qs → findProcInfos qs = none) by
    by_cases hall : AllFit qs
    · obtain ⟨c, hc, hrun⟩ := h.1 hall
      refine ⟨by simp [hrun, hall], ?_⟩
      intro answers c' hrun'
      obtain ⟨rfl, rfl⟩ := Prod.mk.inj (Option.some.inj (hrun.symm.trans hrun'))
      refine ⟨rfl, hc.asked_nodup, hc.mem_asked, ?_⟩
      intro hstable
      rw [memoised_eq, questions, List.map_map]
      · rfl
      · intro p hp p' hp' heq
        obtain ⟨q, hq, rfl⟩ := List.mem_map.mp hp
        obtain ⟨q', hq', rfl⟩ := List.mem_map.mp hp'
        exact hstable q hq q' hq' heq
    · have hnone := h.2 hall
      refine ⟨by simp [hnone, hall], ?_⟩
      intro answers c hrun
      cases hnone.symm.trans hrun
  induction qs using List.reverseRecOn with
  | nil =>
      refine ⟨fun _ => ⟨{}, ⟨Memo.empty, List.nodup_nil, by simp⟩, rfl⟩, fun h => absurd ?_ h⟩
      rintro before q after heq
      exact absurd heq.symm (by simp)
  | append_singleton qs q ih =>
      rw [allFit_concat, findProcInfos_concat, questions_concat, memoised_concat]
      by_cases hall : AllFit qs
      · obtain ⟨c, hc, hrun⟩ := ih.1 hall
        obtain ⟨hfits, hnot⟩ := findProcInfo_step hc q
        rw [hrun, Option.bind_some]
        constructor
        · rintro ⟨-, hlast⟩
          rcases hfits hlast with ⟨c', hc', hcall⟩
          exact ⟨c', hc', by rw [hcall, Option.map_some]⟩
        · intro hlast
          rw [hnot fun h => hlast ⟨hall, h⟩, Option.map_none]
      · rw [ih.2 hall]
        exact ⟨fun h => absurd h.1 hall, fun _ => rfl⟩

/-- A mapping is gone at the last call. -/
def unloadedQueries : List (ProcInfoQuery Unit) :=
  [{ ip := 0x1000, ret := 0, pi := ⟨(), [1, 2]⟩ }, { ip := 0x2000, ret := -10, pi := ⟨(), []⟩ },
    { ip := 0x1000, ret := -10, pi := ⟨(), []⟩ }]

theorem unwind_cache_unloaded :
    ∃ answers c, findProcInfos unloadedQueries = some (answers, c) ∧
      answers = [(0, some ⟨(), [1, 2]⟩), (-10, none), (0, some ⟨(), [1, 2]⟩)] ∧
      c.asked = [0x1000, 0x2000] ∧ c.asked.Nodup := by
  have hrun : (findProcInfos unloadedQueries).map (fun r => (r.1, r.2.asked)) =
      some ([(0, some ⟨(), [1, 2]⟩), (-10, none), (0, some ⟨(), [1, 2]⟩)], [0x1000, 0x2000]) := by
    decide
  obtain ⟨⟨answers, c⟩, hsome, hobserved⟩ := Option.map_eq_some_iff.mp hrun
  obtain ⟨hanswers, hasked⟩ := Prod.mk.inj hobserved
  exact ⟨answers, c, hsome, hanswers, hasked, ((unwind_cache unloadedQueries).2 _ _ hsome).2.1⟩

-- the second use of an answer of 101 bytes
example : findProcInfos [({ ip := 0x1000, ret := 0, pi := ⟨(), List.replicate 101 0⟩ } :
    ProcInfoQuery Unit), { ip := 0x1000, ret := 0, pi := ⟨(), []⟩ }] |>.isNone := by decide

end Memleax
