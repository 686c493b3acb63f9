import Memleax.Store.Report
import Memleax.Store.StopLimits

/-!
# What the monitor prints about a callstack

A callstack is introduced with a number and its backtrace when the first of its
blocks expires. From then on every further expiry is told with a running count
and every free of an expired block as such, until the third of these frees,
after which memleax says that it will be quiet about this callstack and is.

`Talk` is a reader of the output: it takes the lines about one number, one by
one, and refuses a line that does not come next. In every history it gets
through all of them and knows the two counters of the callstack, as long as the
code goes on about it (`messages_run`).
-/

namespace Memleax

open Framework

/-- Where a reader of the output stands with one callstack. -/
inductive Talk where
  | silent
  /-- the numbers of blocks that have expired and of those that were freed after that -/
  | counting (expired freed : Int)
  | closed
deriving DecidableEq, Repr

def Talk.hear : Talk → Message → Option Talk
  | .silent, .expires _ _ _ => some (.counting 1 0)
  | .counting n f, .expiresAgain _ _ times =>
      if f < 3 ∧ times.toInt = n + 1 then some (.counting (n + 1) f) else none
  | .counting n f, .expiredFree _ _ => if f < 3 ∧ f < n then some (.counting n (f + 1)) else none
  | .counting _ f, .tooManyExpiredFree _ => if f = 3 then some .closed else none
  | _, _ => none

/-- Where the reader should stand. -/
def Callstack.talk (cs : Callstack) : Talk :=
  if cs.id = 0 then .silent
  else if cs.freeExpiredCount.toInt < 3 then
    .counting cs.expiredCount.toInt cs.freeExpiredCount.toInt
  else .closed

/-- The lines about a number. -/
def linesAbout (out : List Message) (id : CInt) : List Message :=
  out.filter fun m => m.number = some id

/-- A number, with the callstack whose backtrace follows. -/
def Message.introduces : Message → Option (CInt × CallstackId)
  | .expires id _ cs => some (id, cs)
  | _ => none

/-- What holds of the lines printed so far. -/
structure Store.Speaks (s : Store) : Prop where
  /-- The lines about a callstack are the right ones, in the right order. -/
  talk : ∀ c, (linesAbout s.out (s.table.object c).id).foldlM Talk.hear .silent =
    some (s.table.object c).talk
  /-- The numbers are `1, 2, 3, …`, each for another callstack, -/
  numbers : (s.out.filterMap Message.introduces).map Prod.fst =
    (List.range (s.out.filterMap Message.introduces).length).map fun i => BitVec.ofNat 32 (i + 1)
  once : ((s.out.filterMap Message.introduces).map Prod.snd).Nodup
  /-- which has it, -/
  owner : ∀ id c, (id, c) ∈ s.out.filterMap Message.introduces → (s.table.object c).id = id
  /-- and there is no line about any other number. -/
  known : ∀ m ∈ s.out, ∀ id, m.number = some id →
    id ∈ (s.out.filterMap Message.introduces).map Prod.fst

/-! ## The counters -/

/-- No counter of blocks or callstacks is at its end. -/
structure Store.Small (s : Store) : Prop where
  blocks : s.recorded.length < 2 ^ 31 - 1
  callstacks : (List.range s.table.fresh).length < 2 ^ 31 - 1

/-- The two counters of a callstack, as numbers. -/
structure Store.Counts (s : Store) (c : CallstackId) : Prop where
  leaks : (s.table.object c).expiredCount.toInt - (s.table.object c).freeExpiredCount.toInt =
    s.leaks c
  nonneg : 0 ≤ (s.table.object c).freeExpiredCount.toInt
  fits : (s.table.object c).expiredCount.toInt < 2 ^ 31 - 1

section Counts

variable {s : Store} {b : BlockId}

theorem everExpired_le (s : Store) (c : CallstackId) : s.everExpired c ≤ s.recorded.length :=
  List.countP_le_length.trans (List.length_filter_le _ _)

theorem Store.Small.counts (h : s.Small) (hs : Consistent s) (ht : Totalled s) (c : CallstackId) :
    s.Counts c := by
  have hblocks := h.blocks
  have hlt : ∀ c, s.everExpired c < 2 ^ 31 := by
    intro c
    have hle := everExpired_le s c
    omega
  have hexpired : (s.table.object c).expiredCount.toInt = s.everExpired c :=
    toInt_of_eq_ofNat (ht.expiredCount_eq c) (hlt c)
  have hleaks := (cmpExact hs ht hlt).leaks c
  have hle := leaks_le_everExpired hs.toPlaced c
  have hfits := everExpired_le s c
  exact ⟨hleaks, by omega, by omega⟩

/-- A block that has expired and has not been freed is a leak of its callstack. -/
theorem Store.Counts.freed_lt (h : s.Counts (s.block b).callstack) (hb : b ∈ s.expire) :
    (s.table.object (s.block b).callstack).freeExpiredCount.toInt <
      (s.table.object (s.block b).callstack).expiredCount.toInt := by
  have hleaks := h.leaks
  have hpos : 0 < s.leaks (s.block b).callstack :=
    List.length_pos_of_mem (List.mem_filter.mpr ⟨hb, by simp⟩)
  omega

theorem CInt.toInt_succ {n : CInt} (h : n.toInt < 2 ^ 31 - 1) : (n + 1).toInt = n.toInt + 1 := by
  have hge := BitVec.le_two_mul_toInt (x := n)
  rw [BitVec.toInt_add, Int.bmod_eq_of_le] <;> simp <;> omega

end Counts

/-! ## The lines of one primitive -/

section Lines

theorem linesAbout_append (out out' : List Message) (id : CInt) :
    linesAbout (out ++ out') id = linesAbout out id ++ linesAbout out' id := List.filter_append _ _

theorem linesAbout_eq_self {out : List Message} {id : CInt} (h : ∀ m ∈ out, m.number = some id) :
    linesAbout out id = out := by
  refine List.filter_eq_self.mpr ?_
  intro m hm
  exact decide_eq_true (h m hm)

theorem linesAbout_eq_nil {out : List Message} {id : CInt} (h : ∀ m ∈ out, m.number ≠ some id) :
    linesAbout out id = [] := by
  refine List.filter_eq_nil_iff.mpr ?_
  intro m hm heq
  exact h m hm (of_decide_eq_true heq)

theorem Callstack.freeMessages_number (cs : Callstack) (freeTime : Int) :
    ∀ m ∈ cs.freeMessages freeTime, m.number = some cs.id ∧ m.introduces = none := by
  intro m hm
  unfold Callstack.freeMessages at hm
  rcases List.mem_append.mp hm with hm | hm
  all_goals
    split at hm
    · cases List.mem_singleton.mp hm
      exact ⟨rfl, rfl⟩
    · cases hm

/-- **What `memblock_delete` prints comes next.** -/
theorem Callstack.hear_freeMessages {cs : Callstack} (hid : cs.id ≠ 0)
    (hnonneg : 0 ≤ cs.freeExpiredCount.toInt)
    (hlt : cs.freeExpiredCount.toInt < cs.expiredCount.toInt)
    (hfits : cs.expiredCount.toInt < 2 ^ 31) (size : Word) (freeTime : Int) :
    ((cs.countFreeExpired size).freeMessages freeTime).foldlM Talk.hear cs.talk =
      some (cs.countFreeExpired size).talk := by
  have hsucc : (cs.freeExpiredCount + 1).toInt = cs.freeExpiredCount.toInt + 1 :=
    CInt.toInt_succ (by omega)
  have hthree : (donotShowAfterFreeExpires).toInt = 3 := rfl
  have heq : cs.freeExpiredCount + 1 = donotShowAfterFreeExpires ↔
      cs.freeExpiredCount.toInt + 1 = 3 := by
    rw [← BitVec.toInt_inj, hsucc, hthree]
  have hle : (cs.freeExpiredCount + 1).sle donotShowAfterFreeExpires ↔
      cs.freeExpiredCount.toInt + 1 ≤ 3 := by
    rw [BitVec.sle_iff_toInt_le, hsucc, hthree]
  simp only [Callstack.freeMessages, Callstack.talk, Callstack.countFreeExpired, if_neg hid, heq,
    hle, hsucc]
  rcases lt_trichotomy (cs.freeExpiredCount.toInt + 1) 3 with hfew | hlast | hmany
  · rw [if_pos hfew.le, if_neg hfew.ne, if_pos (by omega), if_pos hfew]
    show (Talk.hear _ _).bind _ = _
    rw [Talk.hear, if_pos ⟨by omega, hlt⟩]
    rfl
  · -- the third free, and the last line
    rw [if_pos hlast.le, if_pos hlast, if_pos (by omega), if_neg (by omega)]
    show (Talk.hear _ _).bind _ = _
    rw [Talk.hear, if_pos ⟨by omega, hlt⟩]
    show (Talk.hear _ _).bind _ = _
    rw [Talk.hear, if_pos hlast]
    rfl
  · rw [if_neg (not_le.mpr hmany), if_neg hmany.ne', if_neg (by omega), if_neg (by omega)]
    rfl

/-- **What `memblock_expire_one` prints**: the introduction, a running count, or
nothing. -/
theorem memblockExpireOne_print (s : Store) (b : BlockId) :
    ((s.table.object (s.block b).callstack).id = 0 ∧ (memblockExpireOne s b).out = s.out ++
        [.expires s.callstackId (s.block b).size (s.block b).callstack]) ∨
      ((s.table.object (s.block b).callstack).id ≠ 0 ∧
        (s.table.object (s.block b).callstack).freeExpiredCount.toInt < 3 ∧
        (memblockExpireOne s b).out = s.out ++ [.expiresAgain
          (s.table.object (s.block b).callstack).id (s.block b).size
          ((s.table.object (s.block b).callstack).expiredCount + 1)]) ∨
      ((s.table.object (s.block b).callstack).id ≠ 0 ∧
        ¬ (s.table.object (s.block b).callstack).freeExpiredCount.toInt < 3 ∧
        (memblockExpireOne s b).out = s.out) := by
  have hself : (s.moveExpired b).table.object (s.block b).callstack =
      (s.table.object (s.block b).callstack).countExpired (s.block b).size := by
    simp [Store.moveExpired]
  unfold memblockExpireOne
  dsimp only
  rw [hself]
  generalize s.table.object (s.block b).callstack = cs
  have hslt : ((cs.countExpired (s.block b).size).freeExpiredCount.slt donotShowAfterFreeExpires =
      true) ↔ cs.freeExpiredCount.toInt < 3 := BitVec.slt_iff_toInt_lt
  by_cases hid : cs.id = 0
  · rw [if_pos (show (cs.countExpired (s.block b).size).id = 0 from hid)]
    exact Or.inl ⟨hid, rfl⟩
  · rw [if_neg (show ¬ (cs.countExpired (s.block b).size).id = 0 from hid)]
    by_cases hfew : cs.freeExpiredCount.toInt < 3
    · rw [if_pos (hslt.mpr hfew)]
      exact Or.inr (Or.inl ⟨hid, hfew, rfl⟩)
    · rw [if_neg fun h => hfew (hslt.mp h)]
      exact Or.inr (Or.inr ⟨hid, hfew, rfl⟩)

end Lines

/-! ## The invariant -/

/-- The callstacks of `order` have been introduced, in this order. -/
structure Spoken (order : List CallstackId) (s : Store) : Prop where
  numbered : Numbered order s
  talk : ∀ c, (linesAbout s.out (s.table.object c).id).foldlM Talk.hear .silent =
    some (s.table.object c).talk
  introduced : s.out.filterMap Message.introduces =
    order.mapIdx fun i c => (BitVec.ofNat 32 (i + 1), c)
  known : ∀ m ∈ s.out, ∀ id, m.number = some id → ∃ c ∈ order, (s.table.object c).id = id

namespace Spoken

variable {order : List CallstackId} {s s' : Store} {b : BlockId}

/-- A number belongs to one callstack. -/
theorem id_inj (h : Spoken order s) {c d : CallstackId} (hc : c ∈ order)
    (heq : (s.table.object c).id = (s.table.object d).id) : c = d := by
  have hd : d ∈ order := by
    by_contra hd
    rw [(h.numbered.id_eq_zero_iff d).mpr hd] at heq
    exact (h.numbered.id_eq_zero_iff c).mp heq hc
  obtain ⟨i, hi, rfl⟩ := List.mem_iff_getElem.mp hc
  obtain ⟨j, hj, rfl⟩ := List.mem_iff_getElem.mp hd
  have htoInt := congrArg BitVec.toInt heq
  rw [h.numbered.id_toInt hi, h.numbered.id_toInt hj] at htoInt
  obtain rfl : i = j := by omega
  rfl

/-- A primitive that prints nothing and changes nothing that the reader knows. -/
theorem congr (h : Spoken order s) (hout : s'.out = s.out)
    (hnext : s'.callstackId = s.callstackId) (hfresh : s.table.fresh ≤ s'.table.fresh)
    (hobject : ∀ c, (s'.table.object c).id = (s.table.object c).id ∧
      (s'.table.object c).expiredCount = (s.table.object c).expiredCount ∧
      (s'.table.object c).talk = (s.table.object c).talk) : Spoken order s' where
  numbered := h.numbered.congr hnext hfresh fun c => ⟨(hobject c).1, (hobject c).2.1⟩
  talk c := by
    rw [hout, (hobject c).1, (hobject c).2.2]
    exact h.talk c
  introduced := by
    rw [hout]
    exact h.introduced
  known m hm id hnum := by
    rcases h.known m (hout ▸ hm) id hnum with ⟨c, hc, hid⟩
    exact ⟨c, hc, (hobject c).1.trans hid⟩

/-- A line that is about no callstack. -/
theorem print (h : Spoken order s) {m : Message} (hm : m.number = none) :
    Spoken order { s with out := s.out ++ [m] } where
  numbered := h.numbered.congr rfl le_rfl fun _ => ⟨rfl, rfl⟩
  talk c := by
    have hnone : linesAbout [m] (s.table.object c).id = [] := by
      refine linesAbout_eq_nil ?_
      intro m' hm'
      rw [List.mem_singleton.mp hm', hm]
      simp
    rw [linesAbout_append, hnone, List.append_nil]
    exact h.talk c
  introduced := by
    rw [List.filterMap_append, h.introduced]
    cases m <;> simp_all [Message.number, Message.introduces]
  known m' hm' id hnum := by
    rcases List.mem_append.mp hm' with hm' | hm'
    · exact h.known m' hm' id hnum
    · rw [List.mem_singleton.mp hm', hm] at hnum
      cases hnum

theorem say (h : Spoken order s) {cs : CallstackId} (hcs : cs ∈ order) {lines : List Message}
    (hlines : ∀ m ∈ lines, m.number = some (s.table.object cs).id ∧ m.introduces = none)
    (hout : s'.out = s.out ++ lines) (hnumbered : Numbered order s')
    (hid : ∀ c, (s'.table.object c).id = (s.table.object c).id)
    (hother : ∀ c, c ≠ cs → (s'.table.object c).talk = (s.table.object c).talk)
    (hself : lines.foldlM Talk.hear (s.table.object cs).talk = some (s'.table.object cs).talk) :
    Spoken order s' where
  numbered := hnumbered
  talk c := by
    rw [hout, linesAbout_append, List.foldlM_append, hid, h.talk c]
    by_cases hc : c = cs
    · subst hc
      rw [linesAbout_eq_self fun m hm => (hlines m hm).1]
      exact hself
    · have hne : (s.table.object cs).id ≠ (s.table.object c).id := fun heq =>
        hc (h.id_inj hcs heq).symm
      have hnone : linesAbout lines (s.table.object c).id = [] := by
        refine linesAbout_eq_nil ?_
        intro m hm hnum
        exact hne (Option.some.inj ((hlines m hm).1.symm.trans hnum))
      rw [hnone, hother c hc]
      rfl
  introduced := by
    rw [hout, List.filterMap_append, h.introduced]
    rw [List.filterMap_eq_nil_iff.mpr fun m hm => (hlines m hm).2, List.append_nil]
  known m hm id hnum := by
    rw [hout] at hm
    rcases List.mem_append.mp hm with hm | hm
    · obtain ⟨c, hc, hc'⟩ := h.known m hm id hnum
      exact ⟨c, hc, (hid c).trans hc'⟩
    · exact ⟨cs, hcs, (hid cs).trans (Option.some.inj ((hlines m hm).1.symm.trans hnum))⟩

/-- Two callstacks that the reader cannot tell apart. -/
theorem talk_congr {cs cs' : Callstack} (hid : cs'.id = cs.id)
    (hexpired : cs'.expiredCount = cs.expiredCount)
    (hfreed : cs'.freeExpiredCount = cs.freeExpiredCount) : cs'.talk = cs.talk := by
  rw [Callstack.talk, Callstack.talk, hid, hexpired, hfreed]

/-- The first expiry of a callstack gives it the next number. -/
theorem introduce (h : Spoken order s) {cs : CallstackId} {size : Word}
    (hzero : (s.table.object cs).id = 0) (hnumbered : Numbered (appear order cs) s')
    (hout : s'.out = s.out ++ [.expires s.callstackId size cs])
    (hid : (s'.table.object cs).id = s.callstackId)
    (hcount : (s'.table.object cs).expiredCount = (s.table.object cs).expiredCount + 1)
    (hfreed : (s'.table.object cs).freeExpiredCount.toInt = 0)
    (hother : ∀ c, c ≠ cs → s'.table.object c = s.table.object c) :
    Spoken (appear order cs) s' := by
  have hnot : cs ∉ order := (h.numbered.id_eq_zero_iff cs).mp hzero
  rw [appear, if_neg hnot] at hnumbered ⊢
  have hlast : cs ∈ order ++ [cs] := List.mem_append_right _ (List.mem_singleton_self cs)
  have hnonzero : s.callstackId ≠ 0 := by
    rw [← hid]
    exact fun heq => (hnumbered.id_eq_zero_iff cs).mp heq hlast
  -- nobody has had this number
  have hfree : ∀ c ∈ order, (s.table.object c).id ≠ s.callstackId := by
    intro c hc heq
    have hne : c ≠ cs := fun h => hnot (h ▸ hc)
    have hle := h.numbered.id_le hc
    have hin : order.length < (order ++ [cs]).length := by simp
    have hlen : (order ++ [cs])[order.length] = cs := by simp
    have hpos := hnumbered.id_toInt hin
    rw [hlen, hid, ← heq] at hpos
    omega
  have hlines : linesAbout s.out s.callstackId = [] := by
    refine linesAbout_eq_nil ?_
    intro m hm hnum
    rcases h.known m hm _ hnum with ⟨c, hc, heq⟩
    exact hfree c hc heq
  refine ⟨hnumbered, ?_, ?_, ?_⟩
  · intro c
    rw [hout, linesAbout_append]
    by_cases hc : c = cs
    · subst hc
      have hexpired : (s'.table.object c).expiredCount.toInt = 1 := by
        rw [hcount, (h.numbered.others c hnot).2]
        rfl
      rw [hid, hlines, Callstack.talk, hid, if_neg hnonzero, hfreed, hexpired, List.nil_append,
        linesAbout_eq_self fun m hm => by rw [List.mem_singleton.mp hm]; rfl]
      rfl
    · have hne : (s.table.object c).id ≠ s.callstackId := by
        by_cases hmem : c ∈ order
        · exact hfree c hmem
        · rw [(h.numbered.id_eq_zero_iff c).mpr hmem]
          exact Ne.symm hnonzero
      have hnone : linesAbout [.expires s.callstackId size cs] (s.table.object c).id = [] := by
        refine linesAbout_eq_nil ?_
        intro m hm
        rw [List.mem_singleton.mp hm]
        exact fun hnum => hne (Option.some.inj hnum).symm
      rw [hother c hc, hnone, List.append_nil]
      exact h.talk c
  · rw [hout, List.filterMap_append, h.introduced, List.mapIdx_concat, ← h.numbered.next]
    rfl
  · intro m hm id hnum
    rw [hout] at hm
    rcases List.mem_append.mp hm with hm | hm
    · obtain ⟨c, hc, heq⟩ := h.known m hm id hnum
      have hne : c ≠ cs := fun h => hnot (h ▸ hc)
      exact ⟨c, List.mem_append_left _ hc, by rw [hother c hne, heq]⟩
    · rw [List.mem_singleton.mp hm] at hnum
      exact ⟨cs, hlast, hid.trans (Option.some.inj hnum)⟩

theorem delete (h : Spoken order s) (hs : Consistent s) (hcounts : ∀ c, s.Counts c)
    (hb : b ∈ s.stored) (now : Int) : Spoken order (s.delete now b) := by
  have hid : ∀ c, ((s.delete now b).table.object c).id = (s.table.object c).id := by
    refine delete_field Callstack.id ?_
    intro cs mb t
    unfold Callstack.countDelete
    split <;> rfl
  have hexpired : ∀ c, ((s.delete now b).table.object c).expiredCount =
      (s.table.object c).expiredCount := by
    refine delete_field Callstack.expiredCount ?_
    intro cs mb t
    unfold Callstack.countDelete
    split <;> rfl
  cases he : (s.block b).expired with
  | false =>
      refine h.congr ?_ rfl ?_ ?_
      · simp [Store.delete, Store.unlink, he]
      · rw [Store.delete_table_fresh]
      · intro c
        refine ⟨hid c, hexpired c, talk_congr (hid c) (hexpired c) ?_⟩
        rw [Store.delete_object, Callstack.countDelete, he]
        split <;> rfl
  | true =>
      have hexp : b ∈ s.expire := (hs.agrees.flag b hb).mp he
      have hlt := (hcounts (s.block b).callstack).freed_lt hexp
      rcases hcounts (s.block b).callstack with ⟨-, hnonneg, hfits⟩
      have hmem : (s.block b).callstack ∈ order := (h.numbered.expired_iff _).mp (by omega)
      have hne : (s.table.object (s.block b).callstack).id ≠ 0 := fun hzero =>
        (h.numbered.id_eq_zero_iff _).mp hzero hmem
      have hobject : (s.delete now b).table.object (s.block b).callstack =
          ((s.table.object (s.block b).callstack).countFreeExpired (s.block b).size).countFree
            (s.block b).size (now - (s.block b).create) := by
        rw [delete_object_self, Callstack.countDelete, if_pos he]
      have hout : (s.delete now b).out = s.out ++ ((s.table.object
          (s.block b).callstack).countFreeExpired (s.block b).size).freeMessages
            (now - (s.block b).create) := by
        simp [Store.delete, Store.unlink, he]
      refine h.say hmem ?_ hout ?_ hid ?_ ?_
      · exact Callstack.freeMessages_number _ _
      · refine h.numbered.congr rfl ?_ fun c => ⟨hid c, hexpired c⟩
        rw [Store.delete_table_fresh]
      · intro c hc
        rw [delete_object_of_ne hc]
      · rw [Callstack.hear_freeMessages hne hnonneg hlt (by omega), hobject]
        exact congrArg some (talk_congr rfl rfl rfl)

theorem expireOne (h : Spoken order s) (hs : Consistent s) (ht : Totalled s) (hsmall : s.Small)
    {rest : List BlockId} (hact : s.active = b :: rest) :
    Spoken (appear order (s.block b).callstack) (memblockExpireOne s b) := by
  have hb : b ∈ s.stored := List.mem_append_left _ (by rw [hact]; exact List.mem_cons_self)
  rcases hsmall.counts hs ht (s.block b).callstack with ⟨hleaks, hnonneg, hfits⟩
  have hcallstacks := hsmall.callstacks
  have hlength : order.length ≤ (List.range s.table.fresh).length := by
    rw [← h.numbered.length_numbered]
    exact List.length_filter_le _ _
  have hnumbered := h.numbered.expireOne b (by omega) (hs.known b hb) hfits
  have hself := memblockExpireOne_id s b
  have hcount := memblockExpireOne_expiredCount s b
  have hcount' := CInt.toInt_succ hfits
  have hfreed : ∀ c, ((memblockExpireOne s b).table.object c).freeExpiredCount =
      (s.table.object c).freeExpiredCount :=
    expireOne_field Callstack.freeExpiredCount fun _ _ _ => rfl
  have hother : ∀ c, c ≠ (s.block b).callstack →
      (memblockExpireOne s b).table.object c = s.table.object c := fun c => expireOne_object_of_ne
  have hsame : (s.table.object (s.block b).callstack).id ≠ 0 →
      ∀ c, ((memblockExpireOne s b).table.object c).id = (s.table.object c).id := by
    intro hne c
    by_cases hc : c = (s.block b).callstack
    · rw [hc, hself, if_neg hne]
    · rw [hother c hc]
  have hmem : (s.table.object (s.block b).callstack).id ≠ 0 → (s.block b).callstack ∈ order :=
    fun hne => not_not.mp fun hnot => hne ((h.numbered.id_eq_zero_iff _).mpr hnot)
  rcases memblockExpireOne_print s b with ⟨hzero, hout⟩ | ⟨hne, hfew, hout⟩ | ⟨hne, hmany, hout⟩
  · refine h.introduce hzero hnumbered hout (hself.trans (if_pos hzero)) hcount ?_ hother
    have hnever : (s.table.object (s.block b).callstack).expiredCount.toInt = 0 := by
      rw [(h.numbered.others _ ((h.numbered.id_eq_zero_iff _).mp hzero)).2]
      rfl
    rw [hfreed]
    omega
  · have hin := hmem hne
    rw [appear, if_pos hin] at hnumbered ⊢
    refine h.say hin ?_ hout hnumbered (hsame hne) (fun c hc => by rw [hother c hc]) ?_
    · intro m hm
      rw [List.mem_singleton.mp hm]
      exact ⟨rfl, rfl⟩
    · -- one more than the reader has counted
      rw [Callstack.talk, Callstack.talk, hsame hne, hfreed, hcount, if_neg hne, if_pos hfew,
        if_neg hne, if_pos hfew, hcount']
      show (Talk.hear _ _).bind _ = _
      rw [Talk.hear, if_pos ⟨hfew, hcount'⟩]
      rfl
  · have hin := hmem hne
    rw [appear, if_pos hin] at hnumbered ⊢
    refine h.say hin (fun m hm => by cases hm) (hout.trans (List.append_nil _).symm) hnumbered
      (hsame hne) (fun c hc => by rw [hother c hc]) ?_
    rw [Callstack.talk, Callstack.talk, hsame hne, hfreed, if_neg hne, if_neg hmany, if_neg hne,
      if_neg hmany]
    rfl

end Spoken

/-! ## Whole histories -/

/-- What is known of a store in a history. -/
structure Speaking (s : Store) : Prop where
  consistent : Consistent s
  totalled : Totalled s
  spoken : s.Small → ∃ order, Spoken order s

section Histories

variable {s s' : Store}

theorem Store.Small.of_le (h : s'.Small) (hblocks : s.fresh ≤ s'.fresh)
    (hcallstacks : s.table.fresh ≤ s'.table.fresh) : s.Small where
  blocks := by
    refine lt_of_le_of_lt ?_ h.blocks
    simpa [Store.recorded] using hblocks
  callstacks := by
    refine lt_of_le_of_lt ?_ h.callstacks
    simpa using hcallstacks

theorem Speaking.congr (h : Speaking s) (hs' : Consistent s') (ht' : Totalled s')
    (hblocks : s.fresh ≤ s'.fresh) (hout : s'.out = s.out) (hnext : s'.callstackId = s.callstackId)
    (hfresh : s.table.fresh ≤ s'.table.fresh)
    (hobject : ∀ c, (s'.table.object c).id = (s.table.object c).id ∧
      (s'.table.object c).expiredCount = (s.table.object c).expiredCount ∧
      (s'.table.object c).freeExpiredCount = (s.table.object c).freeExpiredCount) :
    Speaking s' := by
  refine ⟨hs', ht', fun hsmall => ?_⟩
  rcases h.spoken (hsmall.of_le hblocks hfresh) with ⟨order, hspoken⟩
  refine ⟨order, hspoken.congr hout hnext hfresh ?_⟩
  intro c
  rcases hobject c with ⟨hid, hexpired, hfreed⟩
  exact ⟨hid, hexpired, Spoken.talk_congr hid hexpired hfreed⟩

theorem Speaking.lookup (h : Speaking s) (env : Env) : Speaking { s with
    table := (callstackCurrent s.table env.beyond env.callstackMalloc env.ips).2 } := by
  have hs' := consistent_lookup h.consistent env
  have ht' := totalled_lookup h.consistent.toPlaced h.totalled env
  rcases callstackCurrent_cases h.consistent.linked env.beyond env.callstackMalloc env.ips with
    ⟨cs, -, heq⟩ | heq | ⟨-, heq⟩
  · rw [heq]
    exact h
  · rw [heq] at hs' ht' ⊢
    refine ⟨hs', ht', fun hsmall => ?_⟩
    rcases h.spoken (hsmall.of_le le_rfl (Nat.le_succ _)) with ⟨order, hspoken⟩
    have hnumbered := hspoken.numbered.create env.ips
    refine ⟨order, hspoken.congr rfl rfl (Nat.le_succ _) ?_⟩
    intro c
    by_cases hc : c = s.table.fresh
    · -- a new callstack is as silent as one that has not been created
      have hnot : c ∉ order := fun hmem =>
        absurd (hspoken.numbered.known c hmem) (by rw [hc]; exact lt_irrefl _)
      rcases hspoken.numbered.others c hnot with ⟨hid, hexpired⟩
      rcases hnumbered.others c hnot with ⟨hid', hexpired'⟩
      refine ⟨hid'.trans hid.symm, hexpired'.trans hexpired.symm, ?_⟩
      rw [Callstack.talk, Callstack.talk, if_pos hid, if_pos hid']
    · have hsame : (s.table.create env.ips).object c = s.table.object c :=
        Function.update_of_ne hc _ _
      show ((s.table.create env.ips).object c).id = _ ∧ _
      rw [hsame]
      exact ⟨rfl, rfl, rfl⟩
  · rw [heq]
    exact h

/-- **Every operation says the next lines.** -/
theorem speaking_step (h : Speaking s) (op : Op) : Speaking (s.step op) := by
  refine Store.step_induct_out (P := Speaking) ?_ ?_ ?_ ?_ ?_ ?_ h
  · intro s m hm h
    refine ⟨consistent_print h.consistent _,
      ⟨h.totalled.known, h.totalled.bytes, h.totalled.expired⟩, fun hsmall => ?_⟩
    rcases h.spoken (hsmall.of_le le_rfl le_rfl) with ⟨order, hspoken⟩
    exact ⟨order, hspoken.print hm⟩
  · intro s env h
    exact h.lookup env
  · intro s env pointer size cs table h _ _ hcs
    have h' := h.lookup env
    have hlt := callstackCurrent_lt h.consistent.linked hcs
    rw [hcs] at h'
    refine h'.congr (consistent_link h'.consistent rfl hlt) (totalled_link h'.totalled rfl hlt)
      (Nat.le_succ _) rfl rfl le_rfl ?_
    intro c
    exact ⟨link_field Callstack.id (fun _ _ => rfl) c,
      link_field Callstack.expiredCount (fun _ _ => rfl) c,
      link_field Callstack.freeExpiredCount (fun _ _ => rfl) c⟩
  · intro s now pointer b h hb
    have hmem := h.consistent.mem_stored_of_search hb
    refine ⟨consistent_delete h.consistent hmem, totalled_delete h.totalled now, fun hsmall => ?_⟩
    have hsmall : s.Small := hsmall.of_le le_rfl (by rw [Store.delete_table_fresh])
    rcases h.spoken hsmall with ⟨order, hspoken⟩
    exact ⟨order, hspoken.delete h.consistent (hsmall.counts h.consistent h.totalled) hmem now⟩
  · intro pointer b size env _ h hb
    have hmem := h.consistent.mem_stored_of_search hb
    refine h.congr (consistent_resize h.consistent hmem)
      (totalled_resize h.totalled (h.consistent.toPlaced.mem_recorded hmem) size) le_rfl rfl rfl
      le_rfl ?_
    intro c
    exact ⟨resize_field Callstack.id (fun _ _ _ => rfl) c,
      resize_field Callstack.expiredCount (fun _ _ _ => rfl) c,
      resize_field Callstack.freeExpiredCount (fun _ _ _ => rfl) c⟩
  · intro s b rest now lim _ h hact _
    refine ⟨consistent_expireOne h.consistent hact,
      totalled_expireOne h.consistent.toPlaced h.totalled hact, fun hsmall => ?_⟩
    have hsmall : s.Small := hsmall.of_le (by rw [memblockExpireOne_fresh])
      (by rw [memblockExpireOne_table_fresh])
    rcases h.spoken hsmall with ⟨order, hspoken⟩
    exact ⟨_, hspoken.expireOne h.consistent h.totalled hsmall hact⟩

theorem speaking_init : Speaking {} where
  consistent := ⟨placed_init, counted_init⟩
  totalled := totalled_run []
  spoken _ := ⟨[],
    ⟨List.nodup_nil, by decide, rfl, by simp, by simp, by simp, fun _ _ => ⟨rfl, rfl⟩⟩,
    fun _ => rfl, rfl, by simp⟩

/-- The order of the introductions says what the numbers are. -/
theorem Spoken.speaks {order : List CallstackId} (h : Spoken order s) : s.Speaks := by
  have hfst : (s.out.filterMap Message.introduces).map Prod.fst =
      (List.range order.length).map fun i => BitVec.ofNat 32 (i + 1) := by
    rw [h.introduced]
    apply List.ext_getElem <;> simp
  have hsnd : (s.out.filterMap Message.introduces).map Prod.snd = order := by
    rw [h.introduced]
    apply List.ext_getElem <;> simp
  have hlength : (s.out.filterMap Message.introduces).length = order.length := by
    rw [h.introduced, List.length_mapIdx]
  refine ⟨h.talk, ?_, ?_, ?_, ?_⟩
  · rw [hlength, hfst]
  · rw [hsnd]
    exact h.numbered.nodup
  · intro id c hmem
    rw [h.introduced] at hmem
    obtain ⟨i, hi, heq⟩ := List.mem_mapIdx.mp hmem
    cases heq
    exact h.numbered.ids i hi
  · intro m hm id hnum
    rcases h.known m hm id hnum with ⟨c, hc, hid⟩
    obtain ⟨i, hi, rfl⟩ := List.mem_iff_getElem.mp hc
    rw [hfst, ← hid, h.numbered.ids i hi]
    exact List.mem_map.mpr ⟨i, List.mem_range.mpr hi, rfl⟩

end Histories

/-- Four blocks of a callstack expire, three of them are freed, and a fifth one
expires. -/
def closing : List Op :=
  let env : Int → Env := fun now => { now := now, ips := [0x1000, 0x2000] }
  [.call .malloc 0x10 1 0 (env 0), .call .malloc 0x20 2 0 (env 0), .call .malloc 0x30 3 0 (env 0),
    .call .malloc 0x40 4 0 (env 0), .sweep 10 ⟨10, 1000, 1000⟩, .call .free 0 0x10 0 (env 11),
    .call .free 0 0x20 0 (env 12), .call .free 0 0x30 0 (env 13), .call .malloc 0x50 5 0 (env 14),
    .sweep 30 ⟨10, 1000, 1000⟩]

end Memleax
