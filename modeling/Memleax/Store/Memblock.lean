import Memleax.Store.Callstack

/-!
# The memory-block store

`memblock.c` and the four handlers of `breakpoint.c`. A tracked block is one
object linked in three places: a chain of `g_memblock_hash`, and one of the
lists `g_memblock_active` and `g_memblock_expire`. Objects are addressed by
number in order of creation, the intrusive lists are lists of addresses, and
`list_del` / `hlist_del` unlink an address from wherever it stands.

Everything the code asks the outside for during a handler call (`time(NULL)`,
the backtrace, the success of its own `malloc`s) is the argument `Env`. What
it prints is the list `out`.
-/

namespace Memleax

open Framework

/-- The address of a `struct memblock_s`: its number in order of creation. -/
abbrev BlockId := Nat

structure Memblock where
  pointer : Word := 0
  size : Word := 0
  create : Int := 0
  expired : Bool := false
  callstack : CallstackId := 0
deriving DecidableEq, Repr

/-- The lines that `memblock.c` prints. -/
inductive Message where
  | allocReturnsNull (cs : Option CallstackId)
  | expiredFree (id : CInt) (freeTime : Int)
  | tooManyExpiredFree (id : CInt)
  | expires (id : CInt) (size : Word) (cs : CallstackId)
  | expiresAgain (id : CInt) (size : Word) (times : CInt)
  | callstackLimit (limit : CInt)
  | memblockLimit (limit : CInt) (id : CInt)
deriving DecidableEq, Repr

structure Store where
  /-- the callstack objects and `g_callstack_hash` -/
  table : CallstackTable := {}
  /-- `g_memblock_hash` -/
  hash : Chains BlockId := fun _ => []
  /-- `g_memblock_active` -/
  active : List BlockId := []
  /-- `g_memblock_expire` -/
  expire : List BlockId := []
  block : BlockId → Memblock := fun _ => {}
  fresh : BlockId := 0
  /-- the static `callstack_id` of `memblock_expire_one` -/
  callstackId : CInt := 1
  out : List Message := []

/-- The answers of the outside during one handler call. `time(NULL)` is read by
`memblock_delete` (`freeNow`) and, later, by `memblock_new` (`now`). -/
structure Env where
  now : Int
  freeNow : Int := now
  ips : List Word
  beyond : CallstackId → Nat → Word := fun _ _ => 0
  memblockMalloc : Bool := true
  callstackMalloc : Bool := true

/-- `n += size` for an `int` and a `size_t`: added as `size_t`, stored as `int`. -/
def CInt.addSize (n : CInt) (size : Word) : CInt := (n.signExtend 64 + size).setWidth 32

/-- `n -= size` for an `int` and a `size_t`. -/
def CInt.subSize (n : CInt) (size : Word) : CInt := (n.signExtend 64 - size).setWidth 32

/-- A `time_t` stored in an `int`. -/
def CInt.ofTime (t : Int) : CInt := BitVec.ofInt 32 t

/-! ## `memblock_new` -/

/-- `alloc_count++`, `alloc_size += size`. -/
def Callstack.countAlloc (cs : Callstack) (size : Word) : Callstack :=
  { cs with allocCount := cs.allocCount + 1, allocSize := CInt.addSize cs.allocSize size }

/-- Link a block that `memblock_new` has filled. -/
def Store.link (s : Store) (mb : Memblock) : Store :=
  { s with
    table := s.table.modify mb.callstack (·.countAlloc mb.size)
    hash := s.hash.pushHead (hashSlot [mb.pointer]) s.fresh
    active := s.active ++ [s.fresh]
    block := Function.update s.block s.fresh mb
    fresh := s.fresh + 1 }

def memblockNew (s : Store) (env : Env) (pointer size : Word) : Int × Store :=
  if pointer = 0 then
    let r := callstackCurrent s.table env.beyond env.callstackMalloc env.ips
    (0, { s with table := r.2, out := s.out ++ [.allocReturnsNull r.1] })
  else if env.memblockMalloc = false then (-1, s)
  else
    match callstackCurrent s.table env.beyond env.callstackMalloc env.ips with
    | (none, table) => (-1, { s with table := table })
    | (some cs, table) =>
        (0, { s with table := table }.link
          { pointer := pointer, size := size, create := env.now, callstack := cs })

/-! ## `memblock_delete` -/

/-- `DONOT_SHOW_AFTER_FREE_EXPIRES`. -/
def donotShowAfterFreeExpires : CInt := 3

/-- The counters that `memblock_delete` bumps for an expired block. -/
def Callstack.countFreeExpired (cs : Callstack) (size : Word) : Callstack :=
  { cs with
    freeExpiredCount := cs.freeExpiredCount + 1
    freeExpiredSize := CInt.addSize cs.freeExpiredSize size }

/-- The counters that `memblock_delete` bumps for every block. -/
def Callstack.countFree (cs : Callstack) (size : Word) (freeTime : Int) : Callstack :=
  { cs with
    freeCount := cs.freeCount + 1
    freeSize := CInt.addSize cs.freeSize size
    freeTotal := CInt.ofTime (cs.freeTotal.toInt + freeTime)
    freeMax := if freeTime > cs.freeMax.toInt then CInt.ofTime freeTime else cs.freeMax
    freeMin := if cs.freeMin = 0 ∨ freeTime < cs.freeMin.toInt then CInt.ofTime freeTime
      else cs.freeMin }

/-- What `memblock_delete` prints for an expired block, after the counters of
`cs` have been bumped. -/
def Callstack.freeMessages (cs : Callstack) (freeTime : Int) : List Message :=
  (if cs.freeExpiredCount.sle donotShowAfterFreeExpires
    then [.expiredFree cs.id freeTime] else []) ++
  (if cs.freeExpiredCount = donotShowAfterFreeExpires
    then [.tooManyExpiredFree cs.id] else [])

/-- `hash_delete` and `list_del` of one block. -/
def Store.unlink (s : Store) (b : BlockId) : Store :=
  { s with hash := s.hash.unlink b, active := s.active.erase b, expire := s.expire.erase b }

/-- `memblock_delete` of a block that was found. -/
def Store.delete (s : Store) (now : Int) (b : BlockId) : Store :=
  let mb := s.block b
  let freeTime := now - mb.create
  let table := if mb.expired then s.table.modify mb.callstack (·.countFreeExpired mb.size)
    else s.table
  let messages := if mb.expired then (table.object mb.callstack).freeMessages freeTime else []
  { s with
    table := table.modify mb.callstack (·.countFree mb.size freeTime)
    out := s.out ++ messages }.unlink b

def memblockDelete (s : Store) (now : Int) (mb : Option BlockId) : Store :=
  match mb with
  | none => s
  | some b => s.delete now b

/-! ## `memblock_update_size`, `memblock_search` -/

/-- `alloc_size -= old`, `alloc_size += new`. -/
def Callstack.resize (cs : Callstack) (old new : Word) : Callstack :=
  { cs with allocSize := CInt.addSize (CInt.subSize cs.allocSize old) new }

def Store.resize (s : Store) (b : BlockId) (size : Word) : Store :=
  { s with
    table := s.table.modify (s.block b).callstack (·.resize (s.block b).size size)
    block := Function.update s.block b { s.block b with size := size } }

def memblockUpdateSize (s : Store) (mb : Option BlockId) (size : Word) : Store :=
  match mb with
  | none => s
  | some b => s.resize b size

def memblockSearch (s : Store) (pointer : Word) : Option BlockId :=
  s.hash.search (hashSlot [pointer]) fun b => decide ((s.block b).pointer = pointer)

/-! ## `memblock_expire` -/

/-- The counters that `memblock_expire_one` bumps. -/
def Callstack.countExpired (cs : Callstack) (size : Word) : Callstack :=
  { cs with
    expiredCount := cs.expiredCount + 1
    expiredSize := CInt.addSize cs.expiredSize size }

/-- Move one block from the active list to the tail of the expired list. -/
def Store.moveExpired (s : Store) (b : BlockId) : Store :=
  { s with
    active := s.active.erase b
    expire := s.expire.erase b ++ [b]
    block := Function.update s.block b { s.block b with expired := true }
    table := s.table.modify (s.block b).callstack (·.countExpired (s.block b).size) }

def memblockExpireOne (s : Store) (b : BlockId) : Store :=
  let mb := s.block b
  let s := s.moveExpired b
  let cs := s.table.object mb.callstack
  if cs.id = 0 then
    { s with
      table := s.table.modify mb.callstack fun c => { c with id := s.callstackId }
      callstackId := s.callstackId + 1
      out := s.out ++ [.expires s.callstackId mb.size mb.callstack] }
  else if cs.freeExpiredCount.slt donotShowAfterFreeExpires then
    { s with out := s.out ++ [.expiresAgain cs.id mb.size cs.expiredCount] }
  else s

/-- The arguments of `memblock_expire`, which `main` takes from its options. -/
structure Limits where
  expire : Int
  memblockLimit : CInt
  callstackLimit : CInt
deriving DecidableEq, Repr

/-- The body of `list_for_each_safe` in `memblock_expire`, on the blocks not
visited yet. The result is an `int`, so a delay that does not fit is cut. Where
`callstack_limit + 1` overflows C leaves undefined what happens
(`memblockExpireOutcome`); here the sum is taken as it is. -/
def memblockExpireLoop (lim : Limits) (now : Int) : List BlockId → Store → Int × Store
  | [], s => (0, s)
  | b :: rest, s =>
      let mb := s.block b
      if now - mb.create < lim.expire then
        ((BitVec.ofInt 32 (lim.expire - (now - mb.create) + 1)).toInt, s)
      else
        let s := memblockExpireOne s b
        let cs := s.table.object mb.callstack
        if lim.callstackLimit.toInt + 1 ≤ cs.id.toInt then
          (-1, { s with out := s.out ++ [.callstackLimit lim.callstackLimit] })
        else if lim.memblockLimit.sle cs.expiredCount then
          (-1, { s with out := s.out ++ [.memblockLimit lim.memblockLimit cs.id] })
        else memblockExpireLoop lim now rest s

def memblockExpire (s : Store) (now : Int) (lim : Limits) : Int × Store :=
  memblockExpireLoop lim now s.active s

/-- An `int` of `memblock_expire_one` overflows: `expired_count++`, or
`callstack_id++` when the callstack gets its number. -/
def Store.ExpiryOverflows (s : Store) (b : BlockId) : Prop :=
  let cs := s.table.object (s.block b).callstack
  cs.expiredCount.toInt = 2 ^ 31 - 1 ∨ (cs.id = 0 ∧ s.callstackId.toInt = 2 ^ 31 - 1)

instance (s : Store) (b : BlockId) : Decidable (s.ExpiryOverflows b) :=
  inferInstanceAs (Decidable (_ ∨ _))

/-- The same loop with the additions of C: an `int` that overflows is undefined,
and the sweep then has no outcome. -/
def memblockExpireOutcomeLoop (lim : Limits) (now : Int) :
    List BlockId → Store → Option (Int × Store)
  | [], s => some (0, s)
  | b :: rest, s =>
      let mb := s.block b
      if now - mb.create < lim.expire then
        some ((BitVec.ofInt 32 (lim.expire - (now - mb.create) + 1)).toInt, s)
      else if s.ExpiryOverflows b then none
      else
        let s := memblockExpireOne s b
        let cs := s.table.object mb.callstack
        if lim.callstackLimit.toInt = 2 ^ 31 - 1 then none
        else if (lim.callstackLimit + 1).sle cs.id then
          some (-1, { s with out := s.out ++ [.callstackLimit lim.callstackLimit] })
        else if lim.memblockLimit.sle cs.expiredCount then
          some (-1, { s with out := s.out ++ [.memblockLimit lim.memblockLimit cs.id] })
        else memblockExpireOutcomeLoop lim now rest s

def memblockExpireOutcome (s : Store) (now : Int) (lim : Limits) : Option (Int × Store) :=
  memblockExpireOutcomeLoop lim now s.active s

/-! ## The handlers -/

/-- The four hooked functions, in the order of `g_breakpoints`. -/
inductive Api where
  | malloc
  | free
  | realloc
  | calloc
deriving DecidableEq, Repr

def bphMalloc (s : Store) (env : Env) (pointer size _none : Word) : Int × Store :=
  memblockNew s env pointer size

def bphFree (s : Store) (env : Env) (_none1 pointer _none2 : Word) : Int × Store :=
  (0, memblockDelete s env.freeNow (memblockSearch s pointer))

def bphRealloc (s : Store) (env : Env) (newPointer oldPointer size : Word) : Int × Store :=
  if newPointer = oldPointer then
    (0, memblockUpdateSize s (memblockSearch s oldPointer) size)
  else
    memblockNew (memblockDelete s env.freeNow (memblockSearch s oldPointer)) env newPointer size

def bphCalloc (s : Store) (env : Env) (pointer nmemb size : Word) : Int × Store :=
  memblockNew s env pointer (nmemb * size)

/-- `bp->handler(ret, arg1, arg2)`. -/
def Api.handler : Api → Store → Env → Word → Word → Word → Int × Store
  | .malloc => bphMalloc
  | .free => bphFree
  | .realloc => bphRealloc
  | .calloc => bphCalloc

/-! ## Histories -/

/-- One thing that happens to the store: a completed allocator call handed to
its handler, or a sweep. -/
inductive Op where
  | call (api : Api) (ret arg1 arg2 : Word) (env : Env)
  | sweep (now : Int) (lim : Limits)

/-- The last clock reading of an operation. -/
def Op.now : Op → Int
  | .call _ _ _ _ env => env.now
  | .sweep now _ => now

/-- The clock readings of an operation, in order. -/
def Op.readings : Op → List Int
  | .call _ _ _ _ env => [env.freeNow, env.now]
  | .sweep now _ => [now]

/-- memleax's own `malloc`s succeed during the operation. -/
def Op.MallocOk : Op → Prop
  | .call _ _ _ _ env => env.memblockMalloc = true ∧ env.callstackMalloc = true
  | .sweep _ _ => True

def Store.step (s : Store) : Op → Store
  | .call api ret arg1 arg2 env => (api.handler s env ret arg1 arg2).2
  | .sweep now lim => (memblockExpire s now lim).2

/-- The store after a history, from the empty store. -/
def Store.run (ops : List Op) : Store := ops.foldl Store.step {}

theorem Store.run_append_single (ops : List Op) (op : Op) :
    Store.run (ops ++ [op]) = (Store.run ops).step op := by
  rw [Store.run, List.foldl_append]
  rfl

end Memleax
