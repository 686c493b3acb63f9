import Memleax.Store.Consistency
import Memleax.Framework.Runs

/-!
# Leaked bytes

`callstack_report` prints `expired_size - free_expired_size` beside `may-leak`.
A block is added to `expired_size` with the size it has when it expires and to
`free_expired_size` with the size it has when it is freed. In between an
in-place `realloc` may resize it, and `memblock_update_size` adjusts
`alloc_size` only. The printed figure is the size of the expired blocks along a
run exactly when no step resizes a block that has already expired
(`leakedBytes_iff`).
-/

namespace Memleax

open Framework

/-- The byte figure beside `may-leak` is the size of the expired blocks, for
every callstack; in particular it is `0` when none is left. -/
def LeakedBytes (s : Store) : Prop :=
  ∀ c, ((s.table.object c).expiredSize.toInt - (s.table.object c).freeExpiredSize.toInt ≡
      s.bytesOf c s.expire [ZMOD 2 ^ 32]) ∧
    (s.blocksOf c s.expire = [] →
      (s.table.object c).expiredSize - (s.table.object c).freeExpiredSize = 0)

/-- An in-place `realloc` of a block that has already expired does not change
its size (modulo `2 ^ 32`, all an `int` counter can see). -/
def KeepsExpiredSize (s : Store) : Op → Prop
  | .call .realloc ret old size _ => ret = old → ∀ b, memblockSearch s old = some b →
      (s.block b).expired = true → size.setWidth 32 = sizeInt (s.block b)
  | _ => True

/-- The balance behind `LeakedBytes`. -/
abbrev ExpiredBytes (s : Store) : Prop :=
  Balanced s (·.expiredSize) (·.freeExpiredSize) sizeInt s.expire

theorem leakedBytes_iff_expiredBytes (s : Store) : LeakedBytes s ↔ ExpiredBytes s := by
  constructor
  · intro h c
    rw [tally_size_eq]
    exact sub_eq_ofNat_iff.mpr (h c).1
  · intro h c
    have hc := (h c).trans (tally_size_eq s c s.expire)
    refine ⟨sub_eq_ofNat_iff.mp hc, ?_⟩
    intro hnil
    rw [hc, Store.bytesOf, hnil]
    rfl

/-! ## One lemma per primitive -/

section Primitives

variable {s : Store} {b : BlockId} {now : Int}

theorem expiredBytes_lookup (hp : Placed s) (h : ExpiredBytes s) (env : Env) :
    ExpiredBytes { s with
      table := (callstackCurrent s.table env.beyond env.callstackMalloc env.ips).2 } := by
  rcases callstackCurrent_cases hp.linked env.beyond env.callstackMalloc env.ips with
    ⟨cs, -, heq⟩ | heq | ⟨-, heq⟩
  · rw [heq]
    exact h
  · rw [heq]
    exact h.create (fun b hb => hp.known b (List.mem_append_right _ hb)) _ (sub_self 0)
  · rw [heq]
    exact h

theorem expiredBytes_link (hp : Placed s) (h : ExpiredBytes s) (mb : Memblock) :
    ExpiredBytes (s.link mb) := by
  refine h.shift mb.callstack 0 ?_ (fun _ => link_object_of_ne) ?_
  · rw [link_object_self]
    simp [Callstack.countAlloc]
  · intro c
    rw [ite_self, add_zero]
    exact tally_link_of_mem hp (fun _ hb => List.mem_append_right _ hb) c

theorem expiredBytes_delete (hp : Placed s) (h : ExpiredBytes s) (hb : b ∈ s.stored) :
    ExpiredBytes (s.delete now b) := by
  refine h.shift (s.block b).callstack
    (if (s.block b).expired then -sizeInt (s.block b) else 0) ?_ (fun _ => delete_object_of_ne)
    fun c => tally_delete_expire hp hb sizeInt c
  rw [delete_object_self]
  cases he : (s.block b).expired
  · simp [Callstack.countDelete, he, Callstack.countFree]
  · simp only [Callstack.countDelete, he, Callstack.countFree, Callstack.countFreeExpired,
      if_true, CInt.addSize_eq, sizeInt]
    ring

theorem expiredBytes_expireOne {rest : List BlockId} (hp : Placed s) (h : ExpiredBytes s)
    (hact : s.active = b :: rest) : ExpiredBytes (memblockExpireOne s b) := by
  obtain ⟨id, hself⟩ := expireOne_object_self s b
  have hsize : ∀ mb mb' : Memblock, mb.size = mb'.size → sizeInt mb = sizeInt mb' := by
    intro mb mb' heq
    rw [sizeInt, sizeInt, heq]
  refine h.shift (s.block b).callstack (sizeInt (s.block b)) ?_ (fun _ => expireOne_object_of_ne)
    (tally_expireOne_expire hp hact hsize)
  rw [hself]
  simp only [Callstack.countExpired, CInt.addSize_eq, sizeInt]
  ring

/-- The counters do not move when a block is resized, so the balance stays
exactly if the tally does. -/
theorem expiredBytes_resize_iff (hp : Placed s) (h : ExpiredBytes s) (hb : b ∈ s.stored)
    (size : Word) : ExpiredBytes (s.resize b size) ↔
      ((s.block b).expired = true → size.setWidth 32 = sizeInt (s.block b)) := by
  have hobj : ∀ c, ((s.resize b size).table.object c).expiredSize -
      ((s.resize b size).table.object c).freeExpiredSize = tally s.block sizeInt s.expire c := by
    intro c
    rw [← h c]
    by_cases hc : c = (s.block b).callstack
    · rw [hc, resize_object_self]
      simp [Callstack.resize]
    · rw [resize_object_of_ne hc]
  rcases List.mem_append.mp hb with hact | hexp
  · have hne : ∀ x ∈ s.expire, x ≠ b := fun x hx heq => hp.not_mem_expire hact (heq ▸ hx)
    refine iff_of_true (fun c => (hobj c).trans (tally_congr ?_ ?_).symm) ?_
    · exact fun x _ => (resize_block x).2.2.2
    · intro x hx
      simp [Store.resize, hne x hx]
    · intro he
      rw [hp.young b hact] at he
      cases he
  · constructor
    · intro h' _
      have hmoved := (hobj (s.block b).callstack).symm.trans (h' (s.block b).callstack)
      have htally := @tally_resize_size s b size s.expire hp.expire_nodup hexp
        (s.block b).callstack
      rw [if_pos rfl] at htally
      have hzero : size.setWidth 32 - sizeInt (s.block b) = 0 :=
        left_eq_add.mp (hmoved.trans htally)
      exact sub_eq_zero.mp hzero
    · intro hsize c
      refine (hobj c).trans ?_
      rw [show (s.resize b size).expire = s.expire from rfl,
        tally_resize_size hp.expire_nodup hexp, hsize (hp.old b hexp), sub_self, ite_self, add_zero]

end Primitives

/-! ## One operation, whole histories -/

/-- A resizing step keeps the balance exactly under `KeepsExpiredSize`; every
other step keeps it. -/
theorem expiredBytes_step_iff {s : Store} (hs : Consistent s) (h : ExpiredBytes s) (op : Op) :
    ExpiredBytes (s.step op) ↔ KeepsExpiredSize s op := by
  by_cases hop : ∃ p b size env, op = .call .realloc p p size env ∧ memblockSearch s p = some b
  · obtain ⟨p, b, size, env, rfl, hb⟩ := hop
    have hstep : s.step (.call .realloc p p size env) = s.resize b size := by
      simp [Store.step, Api.handler, bphRealloc, hb, memblockUpdateSize]
    rw [hstep, expiredBytes_resize_iff hs.toPlaced h (hs.mem_stored_of_search hb)]
    simp [KeepsExpiredSize, hb]
  · refine iff_of_true ?_ ?_
    · refine Consistent.step_induct ?_ ?_ ?_ ?_ ?_ ?_ hs h
      · intro s out h
        exact h
      · intro s env hs h
        exact expiredBytes_lookup hs.toPlaced h env
      · intro s env pointer size cs hs h _ _
        exact expiredBytes_link hs.toPlaced h _
      · intro s now b hs h hmem
        exact expiredBytes_delete hs.toPlaced h hmem
      · intro p b size env heq hb _
        exact absurd ⟨p, b, size, env, heq, hb⟩ hop
      · intro s b rest now lim _ hs h hact _
        exact expiredBytes_expireOne hs.toPlaced h hact
    · cases op with
      | sweep now lim => trivial
      | call api ret old size env =>
          cases api with
          | realloc =>
              rintro rfl b hb
              exact absurd ⟨ret, b, size, env, rfl, hb⟩ hop
          | malloc => trivial
          | free => trivial
          | calloc => trivial

/-- **Leaked-bytes accounting.** The printed figure is right in every state of
a history exactly when no step resizes an expired block. -/
theorem leakedBytes_iff (ops : List Op) :
    Throughout Store.step LeakedBytes {} ops ↔ Along Store.step KeepsExpiredSize {} ops := by
  have hinv : ∀ s op, True → Consistent s → LeakedBytes s → Consistent (s.step op) :=
    fun s op _ hs _ => consistent_step hs op
  refine throughout_iff_along hinv (fun s op _ hs h => ?_)
    (along_of_forall (fun _ _ => trivial) _ _) ⟨placed_init, counted_init⟩ ?_
  · rw [leakedBytes_iff_expiredBytes] at h ⊢
    exact expiredBytes_step_iff hs h op
  · rw [leakedBytes_iff_expiredBytes]
    exact fun _ => sub_self 0

/-- `malloc(100)` at time `0`, a sweep at time `20` with the default threshold
of 10 seconds, and an in-place `realloc` to 200 bytes. -/
def resizeAfterExpiry : List Op :=
  [.call .malloc 0x5000 100 0 { now := 0, ips := [0x1000, 0x2000] },
    .sweep 20 { expire := 10, memblockLimit := 1000, callstackLimit := 1000 },
    .call .realloc 0x5000 0x5000 200 { now := 21, ips := [0x1100, 0x2000] }]

/-- After it 200 bytes may leak, and the report says 100. -/
theorem leakedBytes_off_after_resize : ¬ LeakedBytes (Store.run resizeAfterExpiry) := by
  intro h
  have h0 := (h 0).1
  revert h0
  decide +kernel

end Memleax
