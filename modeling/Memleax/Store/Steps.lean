import Memleax.Store.Memblock
import Mathlib.Algebra.BigOperators.Group.List.Basic
import Mathlib.Algebra.BigOperators.Group.List.Lemmas

/-!
# What one operation can do to the store

Every handler call and every sweep is a sequence of a few primitive updates:
a lookup of the callstack, the linking of a new block, the deletion or the
resizing of a block found by its pointer, the expiry of the first active
block, a printed line. `Store.step_induct` says so once; each invariant of the
store is then one short case per primitive.
-/

namespace Memleax

open Framework

/-! ## Mixed `int` / `size_t` arithmetic is arithmetic modulo `2 ^ 32` -/

theorem CInt.addSize_eq (n : CInt) (size : Word) :
    CInt.addSize n size = n + size.setWidth 32 := by
  rw [CInt.addSize, BitVec.setWidth_add _ _ (by decide), CInt.setWidth_signExtend]

theorem CInt.subSize_eq (n : CInt) (size : Word) :
    CInt.subSize n size = n - size.setWidth 32 := by
  have h : CInt.subSize n size + size.setWidth 32 = n := by
    rw [CInt.subSize, ← BitVec.setWidth_add _ _ (by decide), BitVec.sub_add_cancel,
      CInt.setWidth_signExtend]
  exact BitVec.eq_sub_iff_add_eq.mpr h

/-! ## The counters of one callstack -/

/-- The callstack after a deletion, whether or not the block had expired. -/
def Callstack.countDelete (cs : Callstack) (mb : Memblock) (freeTime : Int) : Callstack :=
  (if mb.expired then cs.countFreeExpired mb.size else cs).countFree mb.size freeTime

theorem Store.delete_object (s : Store) (now : Int) (b : BlockId) (c : CallstackId) :
    (s.delete now b).table.object c =
      if c = (s.block b).callstack then
        (s.table.object c).countDelete (s.block b) (now - (s.block b).create)
      else s.table.object c := by
  by_cases hc : c = (s.block b).callstack
  · subst hc
    cases he : (s.block b).expired <;>
      simp [Store.delete, Store.unlink, Callstack.countDelete, he]
  · cases he : (s.block b).expired <;>
      simp [Store.delete, Store.unlink, he, hc, CallstackTable.modify_object_of_ne]

@[simp] theorem Store.delete_linked (s : Store) (now : Int) (b : BlockId) :
    (s.delete now b).table.Linked ↔ s.table.Linked := by
  cases he : (s.block b).expired <;>
    simp [Store.delete, Store.unlink, he, CallstackTable.Linked]

@[simp] theorem Store.delete_table_fresh (s : Store) (now : Int) (b : BlockId) :
    (s.delete now b).table.fresh = s.table.fresh := by
  cases he : (s.block b).expired <;> simp [Store.delete, Store.unlink, he]

@[simp] theorem Store.delete_hash (s : Store) (now : Int) (b : BlockId) :
    (s.delete now b).hash = s.hash.unlink b := rfl

@[simp] theorem Store.delete_active (s : Store) (now : Int) (b : BlockId) :
    (s.delete now b).active = s.active.erase b := rfl

@[simp] theorem Store.delete_expire (s : Store) (now : Int) (b : BlockId) :
    (s.delete now b).expire = s.expire.erase b := rfl

@[simp] theorem Store.delete_block (s : Store) (now : Int) (b : BlockId) :
    (s.delete now b).block = s.block := rfl

@[simp] theorem Store.delete_fresh (s : Store) (now : Int) (b : BlockId) :
    (s.delete now b).fresh = s.fresh := rfl

/-! ## Expiring one block: the three ways of reporting it do not matter -/

/-- The store after an expiry, up to what is printed and the number given to
the callstack. -/
theorem memblockExpireOne_cases (s : Store) (b : BlockId) :
    ∃ (id : CInt) (next : CInt) (out : List Message),
      memblockExpireOne s b =
        { s.moveExpired b with
          table := (s.moveExpired b).table.modify (s.block b).callstack
            fun c => { c with id := id }
          callstackId := next
          out := out } := by
  unfold memblockExpireOne
  dsimp only
  by_cases hid : ((s.moveExpired b).table.object (s.block b).callstack).id = 0
  · rw [if_pos hid]
    exact ⟨_, _, _, rfl⟩
  · rw [if_neg hid]
    have hsame : (s.moveExpired b).table.modify (s.block b).callstack
        (fun c => { c with
          id := ((s.moveExpired b).table.object (s.block b).callstack).id })
        = (s.moveExpired b).table := by
      simp only [CallstackTable.modify]
      rw [Function.update_eq_self]
    split
    · exact ⟨_, (s.moveExpired b).callstackId, _, by rw [hsame]⟩
    · exact ⟨_, (s.moveExpired b).callstackId, (s.moveExpired b).out, by rw [hsame]⟩

variable (s : Store) (b : BlockId)

@[simp] theorem memblockExpireOne_active :
    (memblockExpireOne s b).active = s.active.erase b := by
  obtain ⟨_, _, _, h⟩ := memblockExpireOne_cases s b
  rw [h]
  rfl

@[simp] theorem memblockExpireOne_expire :
    (memblockExpireOne s b).expire = s.expire.erase b ++ [b] := by
  obtain ⟨_, _, _, h⟩ := memblockExpireOne_cases s b
  rw [h]
  rfl

@[simp] theorem memblockExpireOne_hash : (memblockExpireOne s b).hash = s.hash := by
  obtain ⟨_, _, _, h⟩ := memblockExpireOne_cases s b
  rw [h]
  rfl

@[simp] theorem memblockExpireOne_fresh : (memblockExpireOne s b).fresh = s.fresh := by
  obtain ⟨_, _, _, h⟩ := memblockExpireOne_cases s b
  rw [h]
  rfl

@[simp] theorem memblockExpireOne_block : (memblockExpireOne s b).block =
    Function.update s.block b { s.block b with expired := true } := by
  obtain ⟨_, _, _, h⟩ := memblockExpireOne_cases s b
  rw [h]
  rfl

@[simp] theorem memblockExpireOne_linked :
    (memblockExpireOne s b).table.Linked ↔ s.table.Linked := by
  obtain ⟨_, _, _, h⟩ := memblockExpireOne_cases s b
  rw [h]
  rfl

@[simp] theorem memblockExpireOne_table_fresh :
    (memblockExpireOne s b).table.fresh = s.table.fresh := by
  obtain ⟨_, _, _, h⟩ := memblockExpireOne_cases s b
  rw [h]
  rfl

/-- Apart from its number, a callstack changes by `countExpired`. -/
theorem memblockExpireOne_object (c : CallstackId) :
    ∃ id, (memblockExpireOne s b).table.object c =
      if c = (s.block b).callstack then
        { (s.table.object c).countExpired (s.block b).size with id := id }
      else s.table.object c := by
  obtain ⟨id, _, _, h⟩ := memblockExpireOne_cases s b
  refine ⟨id, ?_⟩
  rw [h]
  by_cases hc : c = (s.block b).callstack
  · subst hc
    simp [Store.moveExpired]
  · simp [Store.moveExpired, hc, CallstackTable.modify_object_of_ne]

/-! ## The induction principle -/

variable {s b} {P : Store → Prop}

/-- The callstack number with which a line begins. -/
def Message.number : Message → Option CInt
  | .expiredFree id _ | .tooManyExpiredFree id | .expires id _ _ | .expiresAgain id _ _ => some id
  | .allocReturnsNull _ | .callstackLimit _ | .memblockLimit _ _ => none

/-- The sweep, from the expiry of single blocks. The walk is over a snapshot of
the active list; as each visited block leaves that list, the next one to visit
is always its head. -/
theorem memblockExpireLoop_induct_out {lim : Limits} {now : Int}
    (print : ∀ s m, Message.number m = none → P s → P { s with out := s.out ++ [m] })
    (expireOne : ∀ s b rest, P s → s.active = b :: rest →
      lim.expire ≤ now - (s.block b).create → P (memblockExpireOne s b)) :
    ∀ (todo : List BlockId) (s : Store), s.active = todo → P s →
      P (memblockExpireLoop lim now todo s).2
  | [], s, _, hP => hP
  | b :: rest, s, htodo, hP => by
      unfold memblockExpireLoop
      dsimp only
      split
      · exact hP
      · rename_i hage
        have hP' := expireOne s b rest hP htodo (not_lt.mp hage)
        split
        · exact print _ _ rfl hP'
        · split
          · exact print _ _ rfl hP'
          · refine memblockExpireLoop_induct_out print expireOne rest _ ?_ hP'
            simp [htodo]

/-- The same for a property that does not look at what has been printed. -/
theorem memblockExpireLoop_induct {lim : Limits} {now : Int}
    (print : ∀ s out, P s → P { s with out := out })
    (expireOne : ∀ s b rest, P s → s.active = b :: rest →
      lim.expire ≤ now - (s.block b).create → P (memblockExpireOne s b))
    (todo : List BlockId) (s : Store) (htodo : s.active = todo) (h : P s) :
    P (memblockExpireLoop lim now todo s).2 :=
  memblockExpireLoop_induct_out (fun s _ _ hP => print s _ hP) expireOne todo s htodo h

/-- **Every operation is made of primitives.** A property kept by each of them
is kept by the operation. -/
theorem Store.step_induct_out {op : Op}
    (print : ∀ s m, Message.number m = none → P s → P { s with out := s.out ++ [m] })
    (lookup : ∀ s (env : Env), P s → P { s with
      table := (callstackCurrent s.table env.beyond env.callstackMalloc env.ips).2 })
    (link : ∀ s (env : Env) pointer size cs table, P s → pointer ≠ 0 → env.now = op.now →
      callstackCurrent s.table env.beyond env.callstackMalloc env.ips = (some cs, table) →
      P ({ s with table := table }.link
        { pointer := pointer, size := size, create := env.now, callstack := cs }))
    (delete : ∀ s now pointer b, P s → memblockSearch s pointer = some b →
      P (s.delete now b))
    (resize : ∀ pointer b size env, op = .call .realloc pointer pointer size env → P s →
      memblockSearch s pointer = some b → P (s.resize b size))
    (expireOne : ∀ s b rest now lim, op = .sweep now lim → P s → s.active = b :: rest →
      lim.expire ≤ now - (s.block b).create → P (memblockExpireOne s b))
    (h : P s) : P (s.step op) := by
  have new : ∀ s (env : Env) pointer size, env.now = op.now → P s →
      P (memblockNew s env pointer size).2 := by
    intro s env pointer size hnow hP
    unfold memblockNew
    split
    · exact print _ _ rfl (lookup s env hP)
    · rename_i hp
      split
      · exact hP
      · split
        · rename_i table hcs
          have := lookup s env hP
          rwa [hcs] at this
        · rename_i cs table hcs
          exact link s env pointer size cs table hP hp hnow hcs
  have del : ∀ s now pointer, P s → P (memblockDelete s now (memblockSearch s pointer)) := by
    intro s now pointer hP
    cases hb : memblockSearch s pointer with
    | none => exact hP
    | some b => exact delete s now pointer b hP hb
  cases op with
  | sweep now lim =>
      exact memblockExpireLoop_induct_out print
        (fun s b rest hP hb hage => expireOne s b rest now lim rfl hP hb hage) s.active s rfl h
  | call api ret arg1 arg2 env =>
      cases api with
      | malloc => exact new s env ret arg1 rfl h
      | calloc => exact new s env ret (arg1 * arg2) rfl h
      | free => exact del s env.freeNow arg1 h
      | realloc =>
          show P (bphRealloc s env ret arg1 arg2).2
          unfold bphRealloc
          split
          · rename_i heq
            subst heq
            cases hb : memblockSearch s ret with
            | none => exact h
            | some b => exact resize ret b arg2 env rfl h hb
          · exact new _ env ret arg2 rfl (del s env.freeNow arg1 h)

/-- The same for a property that does not look at what has been printed. -/
theorem Store.step_induct {op : Op}
    (print : ∀ s out, P s → P { s with out := out })
    (lookup : ∀ s (env : Env), P s → P { s with
      table := (callstackCurrent s.table env.beyond env.callstackMalloc env.ips).2 })
    (link : ∀ s (env : Env) pointer size cs table, P s → pointer ≠ 0 → env.now = op.now →
      callstackCurrent s.table env.beyond env.callstackMalloc env.ips = (some cs, table) →
      P ({ s with table := table }.link
        { pointer := pointer, size := size, create := env.now, callstack := cs }))
    (delete : ∀ s now pointer b, P s → memblockSearch s pointer = some b →
      P (s.delete now b))
    (resize : ∀ pointer b size env, op = .call .realloc pointer pointer size env → P s →
      memblockSearch s pointer = some b → P (s.resize b size))
    (expireOne : ∀ s b rest now lim, op = .sweep now lim → P s → s.active = b :: rest →
      lim.expire ≤ now - (s.block b).create → P (memblockExpireOne s b))
    (h : P s) : P (s.step op) :=
  Store.step_induct_out (fun s _ _ hP => print s _ hP) lookup link delete resize expireOne h

/-! ## What an operation adds -/

section Grows

variable {s : Store}

/-- `s'` comes after `s`: at most `n` blocks and `n` callstacks have been created
in between, and what was printed stands. -/
structure Grows (n : Nat) (s s' : Store) : Prop where
  fresh : s'.fresh ≤ s.fresh + n
  table : s'.table.fresh ≤ s.table.fresh + n
  out : s.out <+: s'.out

theorem Grows.refl (s : Store) : Grows 0 s s := ⟨le_rfl, le_rfl, List.prefix_rfl⟩

theorem Grows.trans {n : Nat} {s₁ s₂ s₃ : Store} (h : Grows 0 s₁ s₂) (h' : Grows n s₂ s₃) :
    Grows n s₁ s₃ :=
  ⟨h'.fresh.trans (Nat.add_le_add_right h.fresh n), h'.table.trans (Nat.add_le_add_right h.table n),
    h.out.trans h'.out⟩

theorem Grows.succ {s₁ s₂ : Store} (h : Grows 0 s₁ s₂) : Grows 1 s₁ s₂ :=
  ⟨h.fresh.trans (Nat.le_succ _), h.table.trans (Nat.le_succ _), h.out⟩

theorem callstackCurrent_fresh_le (t : CallstackTable) (beyond : CallstackId → Nat → Word)
    (mallocOk : Bool) (ips : List Word) :
    (callstackCurrent t beyond mallocOk ips).2.fresh ≤ t.fresh + 1 := by
  unfold callstackCurrent
  split
  · exact Nat.le_succ _
  · split
    · exact le_rfl
    · exact Nat.le_succ _

theorem memblockNew_grows (s : Store) (env : Env) (pointer size : Word) :
    Grows 1 s (memblockNew s env pointer size).2 := by
  have hfresh := callstackCurrent_fresh_le s.table env.beyond env.callstackMalloc env.ips
  unfold memblockNew
  split
  · exact ⟨Nat.le_succ _, hfresh, List.prefix_append _ _⟩
  · split
    · exact ⟨Nat.le_succ _, Nat.le_succ _, List.prefix_rfl⟩
    · split <;> rename_i heq <;> rw [heq] at hfresh
      · exact ⟨Nat.le_succ _, hfresh, List.prefix_rfl⟩
      · exact ⟨le_rfl, hfresh, List.prefix_rfl⟩

theorem Store.delete_grows (s : Store) (now : Int) (b : BlockId) : Grows 0 s (s.delete now b) :=
  ⟨le_rfl, by simp, List.prefix_append _ _⟩

theorem memblockExpireOne_out (s : Store) (b : BlockId) : s.out <+: (memblockExpireOne s b).out := by
  unfold memblockExpireOne
  dsimp only
  split
  · exact List.prefix_append _ _
  · split
    · exact List.prefix_append _ _
    · exact List.prefix_rfl

theorem memblockExpireLoop_grows (lim : Limits) (now : Int) : ∀ (todo : List BlockId) (s : Store),
    Grows 0 s (memblockExpireLoop lim now todo s).2
  | [], s => Grows.refl s
  | b :: rest, s => by
      have hone : Grows 0 s (memblockExpireOne s b) :=
        ⟨by simp, by simp, memblockExpireOne_out s b⟩
      have hprint : ∀ m, Grows 0 (memblockExpireOne s b)
          { memblockExpireOne s b with out := (memblockExpireOne s b).out ++ [m] } := fun m =>
        ⟨le_rfl, le_rfl, List.prefix_append _ _⟩
      unfold memblockExpireLoop
      dsimp only
      split
      · exact Grows.refl s
      · split
        · exact hone.trans (hprint _)
        · split
          · exact hone.trans (hprint _)
          · exact hone.trans (memblockExpireLoop_grows lim now rest _)

/-- **An operation creates one block and one callstack at most, and takes
nothing back that was printed.** -/
theorem Store.step_grows (s : Store) (op : Op) : Grows 1 s (s.step op) := by
  have hdelete : ∀ (now : Int) (mb : Option BlockId), Grows 0 s (memblockDelete s now mb) := by
    intro now mb
    cases mb with
    | none => exact Grows.refl s
    | some b => exact s.delete_grows now b
  cases op with
  | sweep now lim => exact (memblockExpireLoop_grows lim now s.active s).succ
  | call api ret arg1 arg2 env =>
      cases api with
      | malloc => exact memblockNew_grows s env ret arg1
      | calloc => exact memblockNew_grows s env ret (arg1 * arg2)
      | free => exact (hdelete _ _).succ
      | realloc =>
          show Grows 1 s (bphRealloc s env ret arg1 arg2).2
          unfold bphRealloc
          split
          · cases memblockSearch s arg1 with
            | none => exact ⟨Nat.le_succ _, Nat.le_succ _, List.prefix_rfl⟩
            | some b => exact ⟨Nat.le_succ _, Nat.le_succ _, List.prefix_rfl⟩
          · exact (hdelete _ _).trans (memblockNew_grows _ env ret arg2)

theorem Store.run_grows (ops : List Op) :
    (Store.run ops).fresh ≤ ops.length ∧ (Store.run ops).table.fresh ≤ ops.length := by
  induction ops using List.reverseRecOn with
  | nil => exact ⟨le_rfl, le_rfl⟩
  | append_singleton ops op ih =>
      have hgrows := (Store.run ops).step_grows op
      rw [Store.run_append_single, List.length_append, List.length_singleton]
      exact ⟨hgrows.fresh.trans (Nat.succ_le_succ ih.1), hgrows.table.trans (Nat.succ_le_succ ih.2)⟩

end Grows

end Memleax
