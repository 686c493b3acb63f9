import Memleax.Framework.HashLists
import Memleax.Framework.Rings
import Memleax.Store.Memblock

/-!
# The memory-block store on its pointers

`memblock.c`, `callstack.c` and the four handlers once more, this time as they
are written: on `list.h` and `hash.h`, with objects at the addresses that
`malloc` returns and that `free` gives back, to be handed out again.

An operation fails (`none`) where the code would follow a null pointer, touch an
object that is not allocated, or still walk a list after `fuel` rounds.
-/

namespace Memleax

open Framework

/-- An address that `malloc` returns. -/
abbrev Addr := Nat

/-- A `struct list_head`: one of the two static heads, or the `list_node` of the
block at an address. -/
inductive ListNode where
  | active
  | expire
  | block (mb : Addr)
deriving DecidableEq, Repr

/-- The store in memory. In a block that is stored here, `callstack` is the
address of a `struct callstack_s`; in a printed line too. -/
structure PointerStore where
  /-- `g_memblock_active`, `g_memblock_expire` and every `list_node` -/
  list : Links ListNode
  /-- `g_memblock_hash` and the `hash_node` of every block -/
  hash : HLinks Addr := HLinks.init
  /-- the allocated blocks -/
  block : Addr → Option Memblock := fun _ => none
  /-- `g_callstack_hash` and the `hash_node` of every callstack -/
  callstackHash : HLinks Addr := HLinks.init
  /-- the allocated callstacks -/
  callstack : Addr → Option Callstack := fun _ => none
  callstackId : CInt := 1
  out : List Message := []

/-- `LIST_HEAD_INIT` of both heads. -/
def ListNode.init : ListNode → Option ListNode
  | .active => some .active
  | .expire => some .expire
  | .block _ => none

def PointerStore.init : PointerStore where
  list := ⟨ListNode.init, ListNode.init⟩

/-- The answers of the outside during one handler call. What `malloc` returns can
depend on what is allocated when it is called; the memory is not cleared. -/
structure PointerEnv where
  now : Int
  freeNow : Int := now
  ips : List Word
  beyond : Addr → Nat → Word := fun _ _ => 0
  memblockMalloc : PointerStore → Option Addr
  uninitialised : Memblock := {}
  callstackMalloc : PointerStore → Option Addr

namespace PointerStore

def allocated (s : PointerStore) (a : Addr) : Bool := (s.block a).isSome || (s.callstack a).isSome

def validNode (s : PointerStore) : ListNode → Bool
  | .block mb => (s.block mb).isSome
  | _ => true

/-! ## `hash.h` and `list.h` on the nodes of the store -/

/-- `hash_add(g_memblock_hash, &mb->hash_node, sizeof(uintptr_t))`: the key is
the word behind the node. -/
def hashAdd (s : PointerStore) (mb : Addr) : Option PointerStore :=
  (s.block mb).bind fun m =>
    (s.hash.hlistAddHead (fun a => (s.block a).isSome) mb (hashSlot [m.pointer])).map fun hash =>
      { s with hash := hash }

def hashDelete (s : PointerStore) (mb : Addr) : Option PointerStore :=
  (s.hash.hlistDel (fun a => (s.block a).isSome) mb).map fun hash => { s with hash := hash }

/-- `hash_add(g_callstack_hash, &cs->hash_node, …)`. -/
def callstackHashAdd (s : PointerStore) (cs : Addr) : Option PointerStore :=
  (s.callstack cs).bind fun c =>
    (s.callstackHash.hlistAddHead (fun a => (s.callstack a).isSome) cs (hashSlot c.ips)).map
      fun hash => { s with callstackHash := hash }

def listAddTail (s : PointerStore) (n head : ListNode) : Option PointerStore :=
  (s.list.listAddTailIn s.validNode n head).map fun list => { s with list := list }

def listDel (s : PointerStore) (n : ListNode) : Option PointerStore :=
  (s.list.listDelIn s.validNode n).map fun list => { s with list := list }

/-- Write a whole block at an address that is allocated, or allocate it. -/
def setBlock (s : PointerStore) (mb : Addr) (m : Memblock) : PointerStore :=
  { s with block := Function.update s.block mb (some m) }

def free (s : PointerStore) (mb : Addr) : PointerStore :=
  { s with block := Function.update s.block mb none }

def setCallstack (s : PointerStore) (cs : Addr) (c : Callstack) : PointerStore :=
  { s with callstack := Function.update s.callstack cs (some c) }

def print (s : PointerStore) (messages : List Message) : PointerStore :=
  { s with out := s.out ++ messages }

/-! ## `callstack_current` -/

def callstackSearch (fuel : Nat) (s : PointerStore) (env : PointerEnv) : Option (Option Addr) :=
  s.callstackHash.walk
    (fun cs => (s.callstack cs).map fun c =>
      decide (c.view (env.beyond cs) env.ips.length = env.ips))
    fuel (s.callstackHash.load (.first (hashSlot env.ips)))

def callstackCurrent (fuel : Nat) (s : PointerStore) (env : PointerEnv) :
    Option (Option Addr × PointerStore) :=
  (s.callstackSearch fuel env).bind fun found =>
    match found with
    | some cs => some (some cs, s)
    | none =>
        match env.callstackMalloc s with
        | none => some (none, s)
        | some cs => ((s.setCallstack cs { ips := env.ips }).callstackHashAdd cs).map fun s =>
            (some cs, s)

/-! ## `memblock_new` -/

def memblockNew (fuel : Nat) (s : PointerStore) (env : PointerEnv) (pointer size : Word) :
    Option (Int × PointerStore) :=
  if pointer = 0 then
    -- `callstack_print` reads through the pointer it gets
    (s.callstackCurrent fuel env).bind fun r => r.1.bind fun cs => (r.2.callstack cs).map fun _ =>
      (0, r.2.print [.allocReturnsNull (some cs)])
  else
    match env.memblockMalloc s with
    | none => some (-1, s)
    | some mb =>
        ((s.setBlock mb env.uninitialised).callstackCurrent fuel env).bind fun r =>
          match r.1 with
          | none => some (-1, r.2)
          | some cs =>
              let s := r.2.setBlock mb
                { pointer := pointer, size := size, create := env.now, callstack := cs }
              (s.hashAdd mb).bind fun s => (s.listAddTail (.block mb) .active).bind fun s =>
                (s.callstack cs).map fun c => (0, s.setCallstack cs (c.countAlloc size))

/-! ## `memblock_delete`, `memblock_update_size`, `memblock_search` -/

def memblockDelete (s : PointerStore) (now : Int) (mb : Option Addr) : Option PointerStore :=
  match mb with
  | none => some s
  | some mb =>
      (s.block mb).bind fun m => (s.callstack m.callstack).bind fun c =>
        let freeTime := now - m.create
        let c := if m.expired then c.countFreeExpired m.size else c
        let s := s.print (if m.expired then c.freeMessages freeTime else [])
        let s := s.setCallstack m.callstack (c.countFree m.size freeTime)
        (s.hashDelete mb).bind fun s => (s.listDel (.block mb)).map fun s => s.free mb

def memblockUpdateSize (s : PointerStore) (mb : Option Addr) (size : Word) : Option PointerStore :=
  match mb with
  | none => some s
  | some mb =>
      (s.block mb).bind fun m => (s.callstack m.callstack).map fun c =>
        (s.setCallstack m.callstack (c.resize m.size size)).setBlock mb { m with size := size }

def memblockSearch (fuel : Nat) (s : PointerStore) (pointer : Word) : Option (Option Addr) :=
  s.hash.walk (fun mb => (s.block mb).map fun m => decide (m.pointer = pointer)) fuel
    (s.hash.load (.first (hashSlot [pointer])))

/-! ## `memblock_expire` -/

/-- The second half of `memblock_expire_one`, on the callstack. -/
def expireCallstack (s : PointerStore) (m : Memblock) (c : Callstack) : PointerStore :=
  let c := c.countExpired m.size
  if c.id = 0 then
    { (s.setCallstack m.callstack { c with id := s.callstackId }).print
        [.expires s.callstackId m.size m.callstack] with callstackId := s.callstackId + 1 }
  else if c.freeExpiredCount.slt donotShowAfterFreeExpires then
    (s.setCallstack m.callstack c).print [.expiresAgain c.id m.size c.expiredCount]
  else s.setCallstack m.callstack c

def memblockExpireOne (s : PointerStore) (mb : Addr) : Option PointerStore :=
  (s.block mb).bind fun m =>
    ((s.setBlock mb { m with expired := true }).listDel (.block mb)).bind fun s =>
      (s.listAddTail (.block mb) .expire).bind fun s =>
        (s.callstack m.callstack).map fun c => s.expireCallstack m c

/-- The body of `list_for_each_safe`: `p` is the node of this round, `safe` the
one read from it before the body can unlink it. -/
def memblockExpireLoop (lim : Limits) (now : Int) : Nat → ListNode → ListNode → PointerStore →
    Option (Int × PointerStore)
  | 0, _, _, _ => none
  | _ + 1, .active, _, s => some (0, s)
  | _ + 1, .expire, _, _ => none
  | fuel + 1, .block mb, safe, s =>
      (s.block mb).bind fun m =>
        if now - m.create < lim.expire then
          some ((BitVec.ofInt 32 (lim.expire - (now - m.create) + 1)).toInt, s)
        else
          (s.memblockExpireOne mb).bind fun s => (s.callstack m.callstack).bind fun cs =>
            if lim.callstackLimit.toInt + 1 ≤ cs.id.toInt then
              some (-1, s.print [.callstackLimit lim.callstackLimit])
            else if lim.memblockLimit.sle cs.expiredCount then
              some (-1, s.print [.memblockLimit lim.memblockLimit cs.id])
            else if s.validNode safe then
              (s.list.next safe).bind fun next => memblockExpireLoop lim now fuel safe next s
            else none

def memblockExpire (fuel : Nat) (s : PointerStore) (now : Int) (lim : Limits) :
    Option (Int × PointerStore) :=
  (s.list.next .active).bind fun p =>
    if s.validNode p then
      (s.list.next p).bind fun safe => memblockExpireLoop lim now fuel p safe s
    else none

/-! ## The handlers -/

/-- `bp->handler(ret, arg1, arg2)`. -/
def handler (fuel : Nat) (s : PointerStore) (env : PointerEnv) (ret arg1 arg2 : Word) :
    Api → Option (Int × PointerStore)
  | .malloc => s.memblockNew fuel env ret arg1
  | .free =>
      (s.memblockSearch fuel arg1).bind fun mb => (s.memblockDelete env.freeNow mb).map fun s =>
        (0, s)
  | .realloc =>
      (s.memblockSearch fuel arg1).bind fun mb =>
        if ret = arg1 then (s.memblockUpdateSize mb arg2).map fun s => (0, s)
        else (s.memblockDelete env.freeNow mb).bind fun s => s.memblockNew fuel env ret arg2
  | .calloc => s.memblockNew fuel env ret (arg1 * arg2)

end PointerStore

/-! ## Histories -/

inductive PointerOp where
  | call (api : Api) (ret arg1 arg2 : Word) (env : PointerEnv)
  | sweep (now : Int) (lim : Limits)

/-- The return value of the handler or of the sweep, and the store after it. -/
def PointerStore.step (fuel : Nat) (s : PointerStore) : PointerOp → Option (Int × PointerStore)
  | .call api ret arg1 arg2 env => s.handler fuel env ret arg1 arg2 api
  | .sweep now lim => s.memblockExpire fuel now lim

/-- The store after a history, from the empty store. -/
def PointerStore.run (fuel : Nat) (ops : List PointerOp) : Option PointerStore :=
  ops.foldlM (fun s op => (s.step fuel op).map Prod.snd) PointerStore.init

/-- `malloc` never returns an object that is allocated. -/
structure PointerEnv.Honest (env : PointerEnv) : Prop where
  memblock : ∀ s mb, env.memblockMalloc s = some mb → s.allocated mb = false
  callstack : ∀ s cs, env.callstackMalloc s = some cs → s.allocated cs = false

def PointerOp.Honest : PointerOp → Prop
  | .call _ _ _ _ env => env.Honest
  | .sweep _ _ => True

end Memleax
