import Memleax.Store.Pointers
import Memleax.Store.Report

/-!
# The pointers are the store

`PointerStore` is the code on its pointers, `Store` the model on lists and
numbers that all other results are about. `Represents` relates the two: every
stored block and every callstack has an address, no two the same one, and the
pointers in memory are those of the lists and chains. One lemma per function
shows that it goes where the model goes; `PointerStore.run_represents` is the
whole history.

The addresses are given to stored blocks only. A freed block keeps its number in
the model while its address may by now be that of another block.
-/

namespace Memleax

open Framework

/-! ## The two lists -/

/-- The nodes of the active and of the expired blocks, at their addresses. -/
structure TwoRings (list : Links ListNode) (as es : List Addr) : Prop where
  active : Circular list .active (as.map .block)
  expire : Circular list .expire (es.map .block)
  nodup : (as ++ es).Nodup

namespace TwoRings

variable {list : Links ListNode} {as es : List Addr} {mb : Addr} {p : PointerStore}

theorem init : TwoRings PointerStore.init.list [] [] := by
  refine ⟨⟨?_, List.nodup_singleton _⟩, ⟨?_, List.nodup_singleton _⟩, List.nodup_nil⟩ <;>
    exact List.isChain_cons_cons.mpr ⟨⟨rfl, rfl⟩, List.IsChain.singleton _⟩

theorem block_mem_map {l : List Addr} : ListNode.block mb ∈ l.map ListNode.block ↔ mb ∈ l := by
  simp

theorem map_erase (l : List Addr) (mb : Addr) :
    (l.map ListNode.block).erase (.block mb) = (l.erase mb).map .block :=
  (List.map_erase (fun _ _ h => ListNode.block.inj h) l).symm

theorem apart (head head' : ListNode) {l l' : List Addr} (hhead : head ≠ head')
    (hblock : ∀ mb, head ≠ .block mb) (hblock' : ∀ mb, head' ≠ .block mb)
    (hl : ∀ mb ∈ l, mb ∉ l') :
    ∀ x ∈ head :: l.map ListNode.block, x ∉ head' :: l'.map ListNode.block := by
  intro x hx hx'
  rw [List.mem_cons, List.mem_map] at hx hx'
  rcases hx with rfl | ⟨mb, hmb, rfl⟩ <;> rcases hx' with heq | ⟨mb', hmb', heq⟩
  · exact hhead heq
  · exact hblock mb' heq.symm
  · exact hblock' mb heq.symm
  · exact hl mb hmb (ListNode.block.inj heq ▸ hmb')

theorem validNode_ring {head : ListNode} {l : List Addr} (hhead : p.validNode head = true)
    (hl : ∀ mb ∈ l, (p.block mb).isSome = true) :
    ∀ x ∈ head :: l.map ListNode.block, p.validNode x = true := by
  intro x hx
  rw [List.mem_cons, List.mem_map] at hx
  rcases hx with rfl | ⟨mb, hmb, rfl⟩
  · exact hhead
  · exact hl mb hmb

variable (h : TwoRings list as es)

include h

theorem disjoint : ∀ mb ∈ as, mb ∉ es := fun mb ha he =>
  (List.nodup_append.mp h.nodup).2.2 mb ha mb he rfl

theorem listDel (hp : p.list = list) (hvalid : ∀ a ∈ as ++ es, (p.block a).isSome)
    (hmb : mb ∈ as ++ es) :
    ∃ list', p.listDel (.block mb) = some { p with list := list' } ∧
      TwoRings list' (as.erase mb) (es.erase mb) := by
  have hnodup : (as.erase mb ++ es.erase mb).Nodup :=
    h.nodup.sublist (List.erase_sublist.append List.erase_sublist)
  rw [PointerStore.listDel, hp]
  rcases List.mem_append.mp hmb with ha | he
  · obtain ⟨list', hdel, hactive, hspares⟩ := h.active.listDelIn (block_mem_map.mpr ha)
      (validNode_ring rfl fun a ha => hvalid a (List.mem_append_left _ ha))
    rw [map_erase] at hactive
    refine ⟨list', by rw [hdel]; rfl, hactive, ?_, hnodup⟩
    rw [List.erase_of_not_mem (h.disjoint mb ha)]
    refine hspares .expire _ h.expire (apart .expire .active nofun nofun nofun ?_)
    exact fun a hae haa => h.disjoint a haa hae
  · obtain ⟨list', hdel, hexpire, hspares⟩ := h.expire.listDelIn (block_mem_map.mpr he)
      (validNode_ring rfl fun a he => hvalid a (List.mem_append_right _ he))
    rw [map_erase] at hexpire
    refine ⟨list', by rw [hdel]; rfl, ?_, hexpire, hnodup⟩
    rw [List.erase_of_not_mem fun ha => h.disjoint mb ha he]
    exact hspares .active _ h.active (apart .active .expire nofun nofun nofun h.disjoint)

/-- `list_add_tail(&mb->list_node, &g_memblock_active)` -/
theorem listAddTail_active (hp : p.list = list) (hvalid : ∀ a ∈ mb :: as, (p.block a).isSome)
    (hmb : mb ∉ as ++ es) :
    ∃ list', p.listAddTail (.block mb) .active = some { p with list := list' } ∧
      TwoRings list' (as ++ [mb]) es := by
  rw [List.mem_append, not_or] at hmb
  have hnew : ListNode.block mb ∉ .active :: as.map ListNode.block := by simpa using hmb.1
  have hall : ∀ x ∈ .block mb :: .active :: as.map ListNode.block, p.validNode x = true := by
    rw [List.forall_mem_cons]
    exact ⟨hvalid mb List.mem_cons_self,
      validNode_ring rfl fun a ha => hvalid a (List.mem_cons_of_mem _ ha)⟩
  rcases h.active.listAddTailIn hnew hall with ⟨list', hadd, hactive, hspares⟩
  refine ⟨list', ?_, ?_, hspares .expire _ h.expire ?_, ?_⟩
  · rw [PointerStore.listAddTail, hp, hadd]
    rfl
  · rwa [List.map_append]
  · intro x hx hx'
    rcases List.mem_cons.mp hx' with rfl | hx'
    · exact hmb.2 (by simpa using hx)
    · exact apart .expire .active nofun nofun nofun (fun a hae haa => h.disjoint a haa hae) x hx hx'
  · rw [List.append_assoc, (List.perm_append_comm.append_left as).nodup_iff, ← List.append_assoc]
    exact h.nodup.append (List.nodup_singleton mb) (by simpa using hmb)

/-- `list_add_tail(&mb->list_node, &g_memblock_expire)` -/
theorem listAddTail_expire (hp : p.list = list) (hvalid : ∀ a ∈ mb :: es, (p.block a).isSome)
    (hmb : mb ∉ as ++ es) :
    ∃ list', p.listAddTail (.block mb) .expire = some { p with list := list' } ∧
      TwoRings list' as (es ++ [mb]) := by
  rw [List.mem_append, not_or] at hmb
  have hnew : ListNode.block mb ∉ .expire :: es.map ListNode.block := by simpa using hmb.2
  have hall : ∀ x ∈ .block mb :: .expire :: es.map ListNode.block, p.validNode x = true := by
    rw [List.forall_mem_cons]
    exact ⟨hvalid mb List.mem_cons_self,
      validNode_ring rfl fun a he => hvalid a (List.mem_cons_of_mem _ he)⟩
  rcases h.expire.listAddTailIn hnew hall with ⟨list', hadd, hexpire, hspares⟩
  refine ⟨list', ?_, hspares .active _ h.active ?_, ?_, ?_⟩
  · rw [PointerStore.listAddTail, hp, hadd]
    rfl
  · intro x hx hx'
    rcases List.mem_cons.mp hx' with rfl | hx'
    · exact hmb.1 (by simpa using hx)
    · exact apart .active .expire nofun nofun nofun h.disjoint x hx hx'
  · rwa [List.map_append]
  · rw [← List.append_assoc]
    exact h.nodup.append (List.nodup_singleton mb) (by simpa using hmb)

end TwoRings

/-! ## The relation -/

/-- Where the objects of the store are. -/
structure Names where
  block : BlockId → Addr
  callstack : CallstackId → Addr

def Names.withCallstack (σ : Names) (c : CallstackId) (cs : Addr) : Names :=
  { σ with callstack := Function.update σ.callstack c cs }

def Names.withBlock (σ : Names) (b : BlockId) (mb : Addr) : Names :=
  { σ with block := Function.update σ.block b mb }

theorem Names.withCallstack_of_lt {σ : Names} {c n : CallstackId} {cs : Addr} (h : c < n) :
    (σ.withCallstack n cs).callstack c = σ.callstack c :=
  Function.update_of_ne (Nat.ne_of_lt h) _ _

theorem Names.withBlock_of_lt {σ : Names} {b n : BlockId} {mb : Addr} (h : b < n) :
    (σ.withBlock n mb).block b = σ.block b :=
  Function.update_of_ne (Nat.ne_of_lt h) _ _

theorem Names.withBlock_self (σ : Names) (b : BlockId) (mb : Addr) :
    (σ.withBlock b mb).block b = mb :=
  Function.update_self _ _ _

/-- A block as it is in memory. -/
def Memblock.at (σ : Names) (m : Memblock) : Memblock :=
  { m with callstack := σ.callstack m.callstack }

def Message.at (σ : Names) : Message → Message
  | .allocReturnsNull cs => .allocReturnsNull (cs.map σ.callstack)
  | .expires id size cs => .expires id size (σ.callstack cs)
  | m => m

/-- The callstack that a line names has been created. -/
def Message.Known (fresh : CallstackId) : Message → Prop
  | .allocReturnsNull none => False
  | .allocReturnsNull (some cs) => cs < fresh
  | .expires _ _ cs => cs < fresh
  | _ => True

/-- The memory `p` holds the store `s`, its objects at the addresses `σ`. If
`whole`, it holds no other block: none has been forgotten without a `free`. -/
structure Represents (whole : Prop) (σ : Names) (p : PointerStore) (s : Store) : Prop where
  placed : Placed s
  hashed : s.table.Hashed
  block_inj : Set.InjOn σ.block {b | b ∈ s.stored}
  callstack_inj : Set.InjOn σ.callstack {c | c < s.table.fresh}
  block : ∀ b ∈ s.stored, p.block (σ.block b) = some ((s.block b).at σ)
  callstack : ∀ c < s.table.fresh, p.callstack (σ.callstack c) = some (s.table.object c)
  lists : TwoRings p.list (s.active.map σ.block) (s.expire.map σ.block)
  hash : Threaded p.hash fun k => (s.hash k).map σ.block
  callstackHash : Threaded p.callstackHash fun k => (s.table.hash k).map σ.callstack
  callstackId : p.callstackId = s.callstackId
  out : p.out = s.out.map (·.at σ)
  known : ∀ m ∈ s.out, m.Known s.table.fresh
  owned : whole → ∀ a, (p.block a).isSome → ∃ b ∈ s.stored, σ.block b = a

theorem represents_init : Represents True ⟨id, id⟩ PointerStore.init {} where
  placed := placed_init
  hashed := hashed_run []
  block_inj := Set.injOn_id _
  callstack_inj := Set.injOn_id _
  block := by simp [Store.stored]
  callstack := by simp
  lists := TwoRings.init
  hash := Threaded.init
  callstackHash := Threaded.init
  callstackId := rfl
  out := rfl
  known := by simp
  owned := by simp [PointerStore.init]

theorem Message.Known.mono {m : Message} {n n' : CallstackId} (h : m.Known n) (hn : n ≤ n') :
    m.Known n' := by
  rcases m with (_ | cs) | _ | _ | _ | _ | _ | _
  · exact h
  · exact Nat.lt_of_lt_of_le h hn
  · trivial
  · trivial
  · exact Nat.lt_of_lt_of_le h hn
  · trivial
  · trivial
  · trivial

/-- A line only depends on the addresses of the callstacks it names. -/
theorem Message.at_congr {m : Message} {n : CallstackId} {σ σ' : Names} (h : m.Known n)
    (hσ : ∀ c < n, σ'.callstack c = σ.callstack c) : m.at σ' = m.at σ := by
  rcases m with (_ | cs) | _ | _ | ⟨id, size, cs⟩ | _ | _ | _
  · rfl
  · show Message.allocReturnsNull (some (σ'.callstack cs)) = _
    rw [hσ cs h]
    rfl
  · rfl
  · rfl
  · show Message.expires id size (σ'.callstack cs) = _
    rw [hσ cs h]
    rfl
  · rfl
  · rfl
  · rfl

/-- As many numbers below `n` as `n` at most. -/
theorem length_le_of_lt {l : List Nat} {n : Nat} (hl : l.Nodup) (hn : ∀ x ∈ l, x < n) :
    l.length ≤ n := by
  have hsub : l ⊆ List.range n := fun x hx => List.mem_range.mpr (hn x hx)
  have hle := (hl.subperm hsub).length_le
  rwa [List.length_range] at hle

/-- The outside as the model sees it: what `malloc` returns is only a success or
a failure. -/
structure PointerEnv.Seen (env : PointerEnv) (seen : Env) : Prop where
  now : seen.now = env.now
  freeNow : seen.freeNow = env.freeNow
  ips : seen.ips = env.ips
  memblockMalloc : (∀ p, env.memblockMalloc p ≠ none) → seen.memblockMalloc = true
  callstackMalloc : (∀ p, env.callstackMalloc p ≠ none) → seen.callstackMalloc = true

/-- The outside of one call, given the outcomes of its `malloc`s. -/
def PointerEnv.seen (env : PointerEnv) (σ : Names) (memblockMalloc callstackMalloc : Bool) :
    Env where
  now := env.now
  freeNow := env.freeNow
  ips := env.ips
  beyond c := env.beyond (σ.callstack c)
  memblockMalloc := memblockMalloc
  callstackMalloc := callstackMalloc

/-- The code goes where the model goes, except that it crashes where the model
prints the backtrace of a callstack that could not be created. -/
def Follows (whole : Prop) (r : Option (Int × PointerStore)) (a : Int × Store) : Prop :=
  (r = none ∧ .allocReturnsNull none ∈ a.2.out) ∨
    ∃ σ p, r = some (a.1, p) ∧ Represents whole σ p a.2

theorem Represents.mono {whole whole' : Prop} {σ : Names} {p : PointerStore} {s : Store}
    (h : Represents whole σ p s) (hw : whole' → whole) : Represents whole' σ p s :=
  { h with owned := fun hw' => h.owned (hw hw') }

theorem Follows.mono {whole whole' : Prop} {r : Option (Int × PointerStore)} {a : Int × Store}
    (h : Follows whole r a) (hw : whole' → whole) : Follows whole' r a := by
  rcases h with hcrash | ⟨σ, p, hr, hrep⟩
  · exact Or.inl hcrash
  · exact Or.inr ⟨σ, p, hr, hrep.mono hw⟩

namespace Represents

variable {whole : Prop} {σ : Names} {p : PointerStore} {s : Store}

theorem chain_length (h : Represents whole σ p s) (k : Nat) : (s.hash k).length ≤ s.fresh :=
  length_le_of_lt (h.placed.chained.nodup k) fun b hb =>
    h.placed.created b ((h.placed.chained.mem k b).mp hb).1

theorem callstack_chain_length (h : Represents whole σ p s) (k : Nat) :
    (s.table.hash k).length ≤ s.table.fresh :=
  length_le_of_lt (h.hashed.nodup k) fun c hc => ((h.hashed.mem k c).mp hc).1

/-- A line that names only callstacks that exist is printed. -/
theorem print (h : Represents whole σ p s) (messages : List Message)
    (hknown : ∀ m ∈ messages, m.Known s.table.fresh) :
    Represents whole σ (p.print (messages.map (·.at σ))) { s with out := s.out ++ messages } :=
  { h with
    placed := { h.placed with }
    out := by
      show p.out ++ _ = _
      rw [h.out, List.map_append]
    known := by
      intro m hm
      rcases List.mem_append.mp hm with hm | hm
      · exact h.known m hm
      · exact hknown m hm }

theorem setCallstack (h : Represents whole σ p s) {c : CallstackId} (hc : c < s.table.fresh)
    (f : Callstack → Callstack) (hf : ∀ cs, (f cs).ips = cs.ips) :
    Represents whole σ (p.setCallstack (σ.callstack c) (f (s.table.object c)))
      { s with table := s.table.modify c f } :=
  have hobject : ∀ x, x < s.table.fresh →
      (p.setCallstack (σ.callstack c) (f (s.table.object c))).callstack (σ.callstack x) =
        some ((s.table.modify c f).object x) := by
    intro x hx
    show Function.update p.callstack (σ.callstack c) _ (σ.callstack x) = _
    by_cases hxc : x = c
    · subst hxc
      rw [Function.update_self, CallstackTable.modify_object_self]
    · have hne : σ.callstack x ≠ σ.callstack c := fun heq => hxc (h.callstack_inj hx hc heq)
      rw [Function.update_of_ne hne, CallstackTable.modify_object_of_ne _ _ hxc, h.callstack x hx]
  { h with
    placed := { h.placed with }
    hashed := h.hashed.congr rfl rfl fun x => by
      by_cases hxc : x = c
      · rw [hxc, CallstackTable.modify_object_self, hf]
      · rw [CallstackTable.modify_object_of_ne _ _ hxc]
    callstack := hobject }

/-! ## `callstack_current` -/

/-- A new callstack, filled and hashed. -/
theorem createCallstack (h : Represents whole σ p s) (ips : List Word) {cs : Addr}
    (hcs : p.callstack cs = none) :
    ∃ p', (p.setCallstack cs { ips := ips }).callstackHashAdd cs = some p' ∧
      p'.block = p.block ∧
      Represents whole (σ.withCallstack s.table.fresh cs) p'
        { s with table := s.table.create ips } := by
  have hne : ∀ c < s.table.fresh, σ.callstack c ≠ cs := by
    rintro c hc rfl
    rw [h.callstack c hc] at hcs
    exact Option.some_ne_none _ hcs
  have hlinked : ∀ k, ∀ c ∈ s.table.hash k, c < s.table.fresh := fun k c hc =>
    ((h.hashed.mem k c).mp hc).1
  have hself : (p.setCallstack cs { ips := ips }).callstack cs = some { ips := ips } :=
    Function.update_self _ _ _
  have hother : ∀ c < s.table.fresh,
      (p.setCallstack cs { ips := ips }).callstack (σ.callstack c) = some (s.table.object c) := by
    intro c hc
    show Function.update p.callstack cs _ (σ.callstack c) = _
    rw [Function.update_of_ne (hne c hc), h.callstack c hc]
  have hnew : ∀ k, cs ∉ (s.table.hash k).map σ.callstack := by
    intro k hmem
    obtain ⟨c, hc, heq⟩ := List.mem_map.mp hmem
    exact hne c (hlinked k c hc) heq
  obtain ⟨hash, hadd, hthreaded⟩ := h.callstackHash.hlistAddHead
    (fun a => ((p.setCallstack cs { ips := ips }).callstack a).isSome) hnew
    (by simp only [hself, Option.isSome_some]) (hashSlot ips) (by
      intro a ha
      obtain ⟨c, hc, rfl⟩ := List.mem_map.mp ha
      simp only [hother c (hlinked _ c hc), Option.isSome_some])
  have hchains := Chains.map_pushHead σ.callstack (σ.withCallstack s.table.fresh cs).callstack
    s.table.fresh (hashSlot ips) fun k c hc => Names.withCallstack_of_lt (hlinked k c hc)
  have hname : (σ.withCallstack s.table.fresh cs).callstack s.table.fresh = cs :=
    Function.update_self _ _ _
  refine ⟨{ p.setCallstack cs { ips := ips } with callstackHash := hash }, ?_, rfl, ?_⟩
  · rw [PointerStore.callstackHashAdd, hself, Option.bind_some]
    show Option.map _ (HLinks.hlistAddHead p.callstackHash _ cs (hashSlot ips)) = _
    rw [hadd]
    rfl
  · exact
      { placed := placed_create h.placed ips
        hashed := CallstackTable.create_hashed h.hashed ips
        block_inj := h.block_inj
        callstack_inj := by
          intro c (hc : c < s.table.fresh + 1) d (hd : d < s.table.fresh + 1) heq
          rcases Nat.lt_succ_iff_lt_or_eq.mp hc with hc | rfl <;>
            rcases Nat.lt_succ_iff_lt_or_eq.mp hd with hd | rfl
          · rw [Names.withCallstack_of_lt hc, Names.withCallstack_of_lt hd] at heq
            exact h.callstack_inj hc hd heq
          · rw [Names.withCallstack_of_lt hc, hname] at heq
            exact absurd heq (hne c hc)
          · rw [Names.withCallstack_of_lt hd, hname] at heq
            exact absurd heq.symm (hne d hd)
          · rfl
        block := by
          intro b hb
          show p.block (σ.block b) = _
          rw [h.block b hb, Memblock.at, Memblock.at,
            Names.withCallstack_of_lt (h.placed.known b hb)]
        callstack := by
          intro c (hc : c < s.table.fresh + 1)
          rcases Nat.lt_succ_iff_lt_or_eq.mp hc with hc | rfl
          · rw [Names.withCallstack_of_lt hc, CallstackTable.create_object_of_lt _ hc]
            exact hother c hc
          · rw [hname, CallstackTable.create_object_fresh]
            exact hself
        lists := h.lists
        hash := h.hash
        callstackHash := by
          rw [hname] at hchains
          rw [← hchains] at hthreaded
          exact hthreaded
        callstackId := h.callstackId
        out := by
          show p.out = _
          rw [h.out]
          apply List.map_congr_left
          intro m hm
          exact (Message.at_congr (h.known m hm) fun c hc => Names.withCallstack_of_lt hc).symm
        known := fun m hm => (h.known m hm).mono (Nat.le_succ _)
        owned := h.owned }

theorem callstackSearch (h : Represents whole σ p s) (env : PointerEnv) {fuel : Nat}
    (hfuel : s.table.fresh < fuel) :
    p.callstackSearch fuel env =
      some ((s.table.search (fun c => env.beyond (σ.callstack c)) env.ips).map σ.callstack) := by
  refine Strung.walk (h.callstackHash.strung (hashSlot env.ips)) ?_ ?_
  · intro c hc
    rw [h.callstack c ((h.hashed.mem _ c).mp hc).1]
    rfl
  · exact Nat.lt_of_le_of_lt (h.callstack_chain_length _) hfuel

/-- The lookup of the model that the one at `p` amounts to. -/
def lookup (σ : Names) (env : PointerEnv) (p : PointerStore) (s : Store) :
    Option CallstackId × CallstackTable :=
  Memleax.callstackCurrent s.table (fun c => env.beyond (σ.callstack c))
    (env.callstackMalloc p).isSome env.ips

theorem callstackCurrent (h : Represents whole σ p s) {env : PointerEnv} (henv : env.Honest)
    {fuel : Nat} (hfuel : s.table.fresh < fuel) :
    ∃ σ' p', p.callstackCurrent fuel env = some ((lookup σ env p s).1.map σ'.callstack, p') ∧
      p'.block = p.block ∧ σ'.block = σ.block ∧
      Represents whole σ' p' { s with table := (lookup σ env p s).2 } := by
  rw [PointerStore.callstackCurrent, h.callstackSearch env hfuel, Option.bind_some, lookup,
    Memleax.callstackCurrent]
  cases s.table.search (fun c => env.beyond (σ.callstack c)) env.ips with
  | some c => exact ⟨σ, p, rfl, rfl, rfl, h⟩
  | none =>
      cases hcs : env.callstackMalloc p with
      | none => exact ⟨σ, p, by simp, rfl, rfl, h⟩
      | some cs =>
          have hfree : p.callstack cs = none := by
            have hallocated := henv.callstack p cs hcs
            simp only [PointerStore.allocated, Bool.or_eq_false_iff] at hallocated
            simpa using hallocated.2
          rcases h.createCallstack env.ips hfree with ⟨p', hadd, hblock, hrep⟩
          refine ⟨σ.withCallstack s.table.fresh cs, p', ?_, hblock, rfl, hrep⟩
          show Option.map _ ((p.setCallstack cs { ips := env.ips }).callstackHashAdd cs) = _
          have hname : (σ.withCallstack s.table.fresh cs).callstack s.table.fresh = cs :=
            Function.update_self _ _ _
          rw [hadd]
          simp [hname]

/-! ## `memblock_new` -/

theorem setBlock (h : Represents whole σ p s) {mb : Addr} (hmb : ∀ b ∈ s.stored, σ.block b ≠ mb)
    (m : Memblock) : Represents False σ (p.setBlock mb m) s :=
  { h with
    block := by
      intro b hb
      show Function.update p.block mb _ (σ.block b) = _
      rw [Function.update_of_ne (hmb b hb), h.block b hb]
    owned := False.elim }

/-- The links of a new block. -/
theorem link (h : Represents False σ p s) {mb : Addr} {m : Memblock}
    (hmb : ∀ b ∈ s.stored, σ.block b ≠ mb) (hm : p.block mb = some (m.at σ))
    (hexpired : m.expired = false) (hcs : m.callstack < s.table.fresh)
    (howned : whole → ∀ a, (p.block a).isSome → a = mb ∨ ∃ b ∈ s.stored, σ.block b = a) :
    ∃ p', ((p.hashAdd mb).bind fun p => (p.listAddTail (.block mb) .active).bind fun p =>
        (p.callstack (σ.callstack m.callstack)).map fun c =>
          ((0 : Int), p.setCallstack (σ.callstack m.callstack) (c.countAlloc m.size))) =
        some (0, p') ∧
      Represents whole (σ.withBlock s.fresh mb) p' (s.link m) := by
  have hself : (p.block mb).isSome = true := by rw [hm]; rfl
  have hstored : ∀ b ∈ s.stored, (p.block (σ.block b)).isSome = true := by
    intro b hb
    rw [h.block b hb]
    rfl
  have hchained : ∀ k, ∀ b ∈ s.hash k, b ∈ s.stored := fun k b hb =>
    ((h.placed.chained.mem k b).mp hb).1
  have hname : ∀ b ∈ s.stored, (σ.withBlock s.fresh mb).block b = σ.block b := fun b hb =>
    Names.withBlock_of_lt (h.placed.created b hb)
  have hlists : s.active.map σ.block ++ s.expire.map σ.block = s.stored.map σ.block :=
    List.map_append.symm
  -- the hash
  have hnew : ∀ k, mb ∉ (s.hash k).map σ.block := by
    intro k hmem
    obtain ⟨b, hb, heq⟩ := List.mem_map.mp hmem
    exact hmb b (hchained k b hb) heq
  obtain ⟨hash, hadd, hthreaded⟩ := h.hash.hlistAddHead (fun a => (p.block a).isSome) hnew hself
    (hashSlot [m.pointer]) (by
      intro a ha
      obtain ⟨b, hb, rfl⟩ := List.mem_map.mp ha
      exact hstored b (hchained _ b hb))
  have hhash : p.hashAdd mb = some { p with hash := hash } := by
    rw [PointerStore.hashAdd, hm, Option.bind_some]
    show Option.map _ (p.hash.hlistAddHead _ mb (hashSlot [m.pointer])) = _
    rw [hadd]
    rfl
  -- the active list
  have hvalid : ∀ a ∈ mb :: s.active.map σ.block, (p.block a).isSome = true := by
    rw [List.forall_mem_cons]
    refine ⟨hself, ?_⟩
    intro a ha
    obtain ⟨b, hb, rfl⟩ := List.mem_map.mp ha
    exact hstored b (List.mem_append_left _ hb)
  have hunlisted : mb ∉ s.active.map σ.block ++ s.expire.map σ.block := by
    rw [hlists, List.mem_map]
    rintro ⟨b, hb, heq⟩
    exact hmb b hb heq
  obtain ⟨list, htail, hrings⟩ :=
    h.lists.listAddTail_active (p := { p with hash := hash }) rfl hvalid hunlisted
  have hcallstack := h.callstack m.callstack hcs
  have hcount := h.setCallstack hcs (·.countAlloc m.size) fun _ => rfl
  refine ⟨{ p.setCallstack (σ.callstack m.callstack)
    ((s.table.object m.callstack).countAlloc m.size) with hash := hash, list := list }, ?_, ?_⟩
  · rw [hhash, Option.bind_some, htail, Option.bind_some]
    show Option.map _ (p.callstack (σ.callstack m.callstack)) = _
    rw [hcallstack]
    rfl
  · have hblocks : ∀ b ∈ s.stored, (s.link m).block b = s.block b := fun b hb =>
      link_block_of_mem h.placed hb
    exact
      { placed := placed_link h.placed hexpired hcs
        hashed := hcount.hashed
        block_inj := by
          intro b hb d hd heq
          rcases mem_stored_link.mp hb with rfl | hb <;> rcases mem_stored_link.mp hd with rfl | hd
          · rfl
          · rw [Names.withBlock_self, hname d hd] at heq
            exact absurd heq.symm (hmb d hd)
          · rw [Names.withBlock_self, hname b hb] at heq
            exact absurd heq (hmb b hb)
          · rw [hname b hb, hname d hd] at heq
            exact h.block_inj hb hd heq
        callstack_inj := hcount.callstack_inj
        block := by
          intro b hb
          show p.block _ = _
          rcases mem_stored_link.mp hb with rfl | hb
          · rw [Names.withBlock_self, link_block_fresh]
            exact hm
          · rw [hname b hb, hblocks b hb]
            exact h.block b hb
        callstack := hcount.callstack
        lists := by
          have hactive : (s.active ++ [s.fresh]).map (σ.withBlock s.fresh mb).block =
              s.active.map σ.block ++ [mb] := by
            rw [List.map_append, List.map_singleton, Names.withBlock_self]
            congr 1
            exact List.map_congr_left fun b hb => hname b (List.mem_append_left _ hb)
          have hexpire : s.expire.map (σ.withBlock s.fresh mb).block = s.expire.map σ.block :=
            List.map_congr_left fun b hb => hname b (List.mem_append_right _ hb)
          show TwoRings list ((s.active ++ [s.fresh]).map _) (s.expire.map _)
          rw [hactive, hexpire]
          exact hrings
        hash := by
          have hchains := Chains.map_pushHead σ.block (σ.withBlock s.fresh mb).block s.fresh
            (hashSlot [m.pointer]) fun k b hb => hname b (hchained k b hb)
          rw [Names.withBlock_self] at hchains
          rw [← hchains] at hthreaded
          exact hthreaded
        callstackHash := hcount.callstackHash
        callstackId := hcount.callstackId
        out := hcount.out
        known := hcount.known
        owned := by
          intro hw a ha
          rcases howned hw a ha with rfl | ⟨b, hb, rfl⟩
          · exact ⟨s.fresh, mem_stored_link.mpr (Or.inl rfl), Names.withBlock_self _ _ _⟩
          · exact ⟨b, mem_stored_link.mpr (Or.inr hb), hname b hb⟩ }

theorem lookup_lt (h : Represents whole σ p s) (env : PointerEnv) {c : CallstackId}
    (hc : (lookup σ env p s).1 = some c) : c < (lookup σ env p s).2.fresh := by
  have heq : lookup σ env p s = (some c, (lookup σ env p s).2) := Prod.ext hc rfl
  exact @callstackCurrent_lt s h.placed.linked (env.seen σ true (env.callstackMalloc p).isSome)
    c _ heq

/-- A lookup only fails when `malloc` does. -/
theorem lookup_none (h : Represents whole σ p s) (env : PointerEnv)
    (hnone : (lookup σ env p s).1 = none) : (env.callstackMalloc p).isSome = false := by
  rcases callstackCurrent_cases h.placed.linked (fun c => env.beyond (σ.callstack c))
    (env.callstackMalloc p).isSome env.ips with ⟨c, -, heq⟩ | heq | ⟨hmalloc, -⟩
  · rw [lookup, heq] at hnone
    exact absurd hnone nofun
  · rw [lookup, heq] at hnone
    exact absurd hnone nofun
  · exact hmalloc

theorem memblockNew_null (h : Represents whole σ p s) {env : PointerEnv} (henv : env.Honest)
    {fuel : Nat} (hfuel : s.table.fresh < fuel) (size : Word) :
    Follows whole (p.memblockNew fuel env 0 size)
      (Memleax.memblockNew s (env.seen σ true (env.callstackMalloc p).isSome) 0 size) := by
  rcases h.callstackCurrent henv hfuel with ⟨σ', p', hcurrent, -, -, hrep⟩
  rw [PointerStore.memblockNew, if_pos rfl, hcurrent, Option.bind_some]
  show Follows _ _ (0, { s with
    table := (lookup σ env p s).2, out := s.out ++ [.allocReturnsNull (lookup σ env p s).1] })
  cases hc : (lookup σ env p s).1 with
  | none => exact Or.inl ⟨rfl, by simp⟩
  | some c =>
      have hlt := h.lookup_lt env hc
      have hknown : ∀ m ∈ [Message.allocReturnsNull (some c)],
          m.Known (lookup σ env p s).2.fresh := by
        rw [List.forall_mem_singleton]
        exact hlt
      refine Or.inr ⟨σ', p'.print [.allocReturnsNull (some (σ'.callstack c))], ?_,
        hrep.print _ hknown⟩
      simp only [Option.map_some, Option.bind_some, hrep.callstack c hlt]

/-- `memblock_new` once its own block is allocated. -/
theorem memblockNew_block (h : Represents whole σ p s) {env : PointerEnv} (henv : env.Honest)
    {fuel : Nat} (hfuel : s.table.fresh < fuel) {pointer : Word} (size : Word) (hp : pointer ≠ 0)
    {mb : Addr} (hmalloc : env.memblockMalloc p = some mb) :
    Follows (whole ∧ (env.callstackMalloc (p.setBlock mb env.uninitialised)).isSome = true)
      (p.memblockNew fuel env pointer size)
      (Memleax.memblockNew s (env.seen σ true
        (env.callstackMalloc (p.setBlock mb env.uninitialised)).isSome) pointer size) := by
  have hfree : (p.block mb).isSome = false ∧ (p.callstack mb).isSome = false := by
    simpa only [PointerStore.allocated, Bool.or_eq_false_iff] using henv.memblock p mb hmalloc
  have hmb : ∀ b ∈ s.stored, σ.block b ≠ mb := by
    rintro b hb rfl
    rw [h.block b hb] at hfree
    exact absurd hfree.1 (by simp)
  have hnew := h.setBlock hmb env.uninitialised
  rcases hnew.callstackCurrent henv hfuel with ⟨σ', p', hcurrent, hblock, hσ, hrep⟩
  have hnone := hnew.lookup_none env
  have hlt := fun c => hnew.lookup_lt env (c := c)
  rw [PointerStore.memblockNew, if_neg hp, hmalloc]
  simp only [hcurrent, Option.bind_some]
  let seen := env.seen σ true (env.callstackMalloc (p.setBlock mb env.uninitialised)).isSome
  have hlookup : Memleax.callstackCurrent s.table seen.beyond seen.callstackMalloc seen.ips =
      lookup σ env (p.setBlock mb env.uninitialised) s := rfl
  rw [Memleax.memblockNew, if_neg hp, if_neg (by simp [PointerEnv.seen]), hlookup]
  generalize lookup σ env (p.setBlock mb env.uninitialised) s = r at hrep hnone hlt ⊢
  obtain ⟨_ | c, table⟩ := r
  · exact Or.inr ⟨σ', p', rfl, hrep.mono fun hw => by simp [hnone rfl] at hw⟩
  · have hmb' : ∀ b ∈ s.stored, σ'.block b ≠ mb := by
      rw [hσ]
      exact hmb
    have howned : whole ∧ (env.callstackMalloc (p.setBlock mb env.uninitialised)).isSome = true →
        ∀ a, (Function.update p'.block mb (some (Memblock.at σ'
          { pointer := pointer, size := size, create := env.now, callstack := c })) a).isSome →
        a = mb ∨ ∃ b ∈ s.stored, σ'.block b = a := by
      rintro ⟨hw, -⟩ a ha
      by_cases hamb : a = mb
      · exact Or.inl hamb
      · right
        rw [Function.update_of_ne hamb, hblock] at ha
        rw [hσ]
        apply h.owned hw a
        simpa only [PointerStore.setBlock, Function.update_of_ne hamb] using ha
    obtain ⟨p'', hlink, hrep'⟩ := (hrep.setBlock hmb' _).link hmb'
      (Function.update_self _ _ _) rfl (hlt c rfl) howned
    exact Or.inr ⟨_, p'', hlink, hrep'⟩

/-- **`memblock_new`.** -/
theorem memblockNew (h : Represents whole σ p s) {env : PointerEnv} (henv : env.Honest)
    {fuel : Nat} (hfuel : s.table.fresh < fuel) (pointer size : Word) :
    ∃ seen, env.Seen seen ∧
      Follows (whole ∧ seen.memblockMalloc = true ∧ seen.callstackMalloc = true)
        (p.memblockNew fuel env pointer size) (Memleax.memblockNew s seen pointer size) := by
  by_cases hp : pointer = 0
  · subst hp
    refine ⟨env.seen σ true (env.callstackMalloc p).isSome, ⟨rfl, rfl, rfl, fun _ => rfl, ?_⟩,
      (h.memblockNew_null henv hfuel size).mono And.left⟩
    intro hok
    exact Option.isSome_iff_ne_none.mpr (hok p)
  · cases hmalloc : env.memblockMalloc p with
    | none =>
        refine ⟨env.seen σ false true,
          ⟨rfl, rfl, rfl, fun hok => absurd hmalloc (hok p), fun _ => rfl⟩, ?_⟩
        rw [PointerStore.memblockNew, if_neg hp, hmalloc, Memleax.memblockNew, if_neg hp]
        exact Or.inr ⟨σ, p, rfl, h.mono And.left⟩
    | some mb =>
        refine ⟨env.seen σ true (env.callstackMalloc (p.setBlock mb env.uninitialised)).isSome,
          ⟨rfl, rfl, rfl, fun _ => rfl, ?_⟩,
          (h.memblockNew_block henv hfuel size hp hmalloc).mono fun hw => ⟨hw.1, hw.2.2⟩⟩
        intro hok
        exact Option.isSome_iff_ne_none.mpr (hok _)

/-! ## `memblock_search`, `memblock_delete`, `memblock_update_size` -/

theorem memblockSearch (h : Represents whole σ p s) {fuel : Nat} (hfuel : s.fresh < fuel)
    (pointer : Word) :
    p.memblockSearch fuel pointer = some ((Memleax.memblockSearch s pointer).map σ.block) := by
  refine Strung.walk (h.hash.strung (hashSlot [pointer])) ?_ ?_
  · intro b hb
    rw [h.block b ((h.placed.chained.mem _ b).mp hb).1]
    rfl
  · exact Nat.lt_of_le_of_lt (h.chain_length _) hfuel

/-- Erasing a stored block from a list of stored blocks. -/
theorem map_erase (h : Represents whole σ p s) {b : BlockId} (hb : b ∈ s.stored) {l : List BlockId}
    (hl : ∀ d ∈ l, d ∈ s.stored) : (l.erase b).map σ.block = (l.map σ.block).erase (σ.block b) :=
  map_erase_of_forall fun d hd heq => h.block_inj (hl d hd) hb heq

theorem unlink (h : Represents whole σ p s) {b : BlockId} (hb : b ∈ s.stored) :
    ∃ p', ((p.hashDelete (σ.block b)).bind fun p => (p.listDel (.block (σ.block b))).map fun p =>
        p.free (σ.block b)) = some p' ∧ Represents whole σ p' (s.unlink b) := by
  have hplaced : Placed (s.delete 0 b) := placed_delete h.placed
  have hstored : ∀ d ∈ s.stored, (p.block (σ.block d)).isSome = true := by
    intro d hd
    rw [h.block d hd]
    rfl
  have hleft : ∀ d, d ∈ (s.delete 0 b).stored ↔ d ≠ b ∧ d ∈ s.stored := fun d =>
    mem_stored_delete h.placed
  have hchained : ∀ k, ∀ d ∈ s.hash k, d ∈ s.stored := fun k d hd =>
    ((h.placed.chained.mem k d).mp hd).1
  -- the hash
  have hslot : σ.block b ∈ (s.hash (hashSlot [(s.block b).pointer])).map σ.block :=
    List.mem_map_of_mem ((h.placed.chained.mem _ b).mpr ⟨hb, rfl⟩)
  obtain ⟨hash, hdel, hthreaded⟩ := h.hash.hlistDel (fun a => (p.block a).isSome) hslot (by
    intro a ha
    obtain ⟨d, hd, rfl⟩ := List.mem_map.mp ha
    exact hstored d (hchained _ d hd))
  -- the list
  have hlists : s.active.map σ.block ++ s.expire.map σ.block = s.stored.map σ.block :=
    List.map_append.symm
  have hlisted : σ.block b ∈ s.active.map σ.block ++ s.expire.map σ.block := by
    rw [hlists]
    exact List.mem_map_of_mem hb
  obtain ⟨list, hlist, hrings⟩ := h.lists.listDel (p := { p with hash := hash }) rfl (by
    rw [hlists]
    intro a ha
    obtain ⟨d, hd, rfl⟩ := List.mem_map.mp ha
    exact hstored d hd) hlisted
  refine ⟨({ p with hash := hash, list := list } : PointerStore).free (σ.block b), ?_, ?_⟩
  · rw [PointerStore.hashDelete, hdel, Option.map_some, Option.bind_some, hlist]
    rfl
  · exact
      { placed :=
          { linked := h.placed.linked
            chained := hplaced.chained
            nodup := hplaced.nodup
            created := hplaced.created
            known := fun d hd => h.placed.known d ((hleft d).mp hd).2
            young := hplaced.young
            old := hplaced.old }
        hashed := h.hashed
        block_inj := h.block_inj.mono fun d hd => ((hleft d).mp hd).2
        callstack_inj := h.callstack_inj
        block := by
          intro d hd
          obtain ⟨hne, hd⟩ := (hleft d).mp hd
          show Function.update p.block (σ.block b) none (σ.block d) = _
          rw [Function.update_of_ne fun heq => hne (h.block_inj hd hb heq), h.block d hd]
          rfl
        callstack := h.callstack
        lists := by
          show TwoRings list ((s.active.erase b).map σ.block) ((s.expire.erase b).map σ.block)
          rw [h.map_erase hb fun d hd => List.mem_append_left _ hd,
            h.map_erase hb fun d hd => List.mem_append_right _ hd]
          exact hrings
        hash := by
          have hchains : (fun k => (s.hash.unlink b k).map σ.block) =
              Chains.unlink (fun k => (s.hash k).map σ.block) (σ.block b) :=
            funext fun k => h.map_erase hb (hchained k)
          show Threaded hash fun k => (s.hash.unlink b k).map σ.block
          rw [hchains]
          exact hthreaded
        callstackHash := h.callstackHash
        callstackId := h.callstackId
        out := h.out
        known := h.known
        owned := by
          intro hw a ha
          have hne : a ≠ σ.block b := by
            rintro rfl
            simp [PointerStore.free] at ha
          have ha' : (p.block a).isSome = true := by
            simpa only [PointerStore.free, Function.update_of_ne hne] using ha
          rcases h.owned hw a ha' with ⟨d, hd, rfl⟩
          exact ⟨d, (hleft d).mpr ⟨fun heq => hne (heq ▸ rfl), hd⟩, rfl⟩ }

/-- What `memblock_delete` prints. -/
def deleteMessages (s : Store) (now : Int) (b : BlockId) : List Message :=
  if (s.block b).expired then
    ((s.table.object (s.block b).callstack).countFreeExpired (s.block b).size).freeMessages
      (now - (s.block b).create)
  else []

/-- The deletion as one write to the callstack, the lines printed and the links. -/
theorem delete_eq (s : Store) (now : Int) (b : BlockId) :
    s.delete now b =
      { s with
        table := s.table.modify (s.block b).callstack
          (·.countDelete (s.block b) (now - (s.block b).create))
        out := s.out ++ deleteMessages s now b }.unlink b := by
  cases he : (s.block b).expired with
  | false => simp [Store.delete, deleteMessages, Callstack.countDelete, he]
  | true =>
      simp [Store.delete, deleteMessages, Callstack.countDelete, he, CallstackTable.modify]

theorem deleteMessages_at (s : Store) (now : Int) (b : BlockId) {m : Message}
    (hm : m ∈ deleteMessages s now b) (σ : Names) (n : CallstackId) : m.at σ = m ∧ m.Known n := by
  unfold deleteMessages Callstack.freeMessages at hm
  split at hm
  · simp only [List.mem_append, List.mem_ite_nil_right, List.mem_singleton] at hm
    rcases hm with ⟨-, rfl⟩ | ⟨-, rfl⟩ <;> exact ⟨rfl, trivial⟩
  · exact absurd hm List.not_mem_nil

/-- **`memblock_delete`** of a block that was found. -/
theorem delete (h : Represents whole σ p s) (now : Int) {b : BlockId} (hb : b ∈ s.stored) :
    ∃ p', p.memblockDelete now (some (σ.block b)) = some p' ∧
      Represents whole σ p' (s.delete now b) := by
  have hcs := h.placed.known b hb
  have hmap : (deleteMessages s now b).map (·.at σ) = deleteMessages s now b :=
    (List.map_congr_left fun m hm => (deleteMessages_at s now b hm σ 0).1).trans (List.map_id _)
  have hprint := h.print (deleteMessages s now b) fun m hm =>
    (deleteMessages_at s now b hm σ _).2
  have hcount := hprint.setCallstack hcs (·.countDelete (s.block b) (now - (s.block b).create))
    fun cs => by
      unfold Callstack.countDelete
      split <;> rfl
  rcases hcount.unlink hb with ⟨p', hunlink, hrep⟩
  refine ⟨p', ?_, ?_⟩
  · rw [PointerStore.memblockDelete, h.block b hb, Option.bind_some]
    show Option.bind (p.callstack (σ.callstack (s.block b).callstack)) _ = _
    rw [h.callstack _ hcs, ← hunlink, hmap]
    cases he : (s.block b).expired <;>
      simp [Memblock.at, deleteMessages, Callstack.countDelete, he]
  · rw [delete_eq]
    exact hrep

theorem rewriteBlock (h : Represents whole σ p s) {b : BlockId} (hb : b ∈ s.stored) {m : Memblock}
    (hplaced : Placed { s with block := Function.update s.block b m }) :
    Represents whole σ (p.setBlock (σ.block b) (m.at σ))
      { s with block := Function.update s.block b m } :=
  { h with
    placed := hplaced
    block := by
      intro d hd
      show Function.update p.block (σ.block b) _ (σ.block d) =
        some (Memblock.at σ (Function.update s.block b m d))
      by_cases hdb : d = b
      · rw [hdb, Function.update_self, Function.update_self]
      · rw [Function.update_of_ne hdb, Function.update_of_ne fun heq => hdb (h.block_inj hd hb heq),
          h.block d hd]
    owned := by
      intro hw a ha
      by_cases hab : a = σ.block b
      · exact ⟨b, hb, hab.symm⟩
      · apply h.owned hw a
        simpa only [PointerStore.setBlock, Function.update_of_ne hab] using ha }

/-- **`memblock_update_size`** of a block that was found. -/
theorem resize (h : Represents whole σ p s) {b : BlockId} (hb : b ∈ s.stored) (size : Word) :
    ∃ p', p.memblockUpdateSize (some (σ.block b)) size = some p' ∧
      Represents whole σ p' (s.resize b size) := by
  have hcs := h.placed.known b hb
  have hcount := h.setCallstack hcs (·.resize (s.block b).size size) fun _ => rfl
  have hplaced : Placed (s.resize b size) := placed_resize h.placed
  refine ⟨_, ?_, hcount.rewriteBlock hb hplaced⟩
  rw [PointerStore.memblockUpdateSize, h.block b hb, Option.bind_some]
  show Option.map _ (p.callstack (σ.callstack (s.block b).callstack)) = _
  rw [h.callstack _ hcs]
  rfl

/-! ## `memblock_expire` -/

theorem modify_modify (t : CallstackTable) (c : CallstackId) (f g : Callstack → Callstack) :
    (t.modify c f).modify c g = t.modify c fun cs => g (f cs) := by
  simp [CallstackTable.modify]

/-- A block moved from the active list to the end of the expired one, before its
callstack is counted. -/
def moved (s : Store) (b : BlockId) : Store :=
  { s with
    active := s.active.erase b
    expire := s.expire.erase b ++ [b]
    block := Function.update s.block b { s.block b with expired := true } }

theorem placed_moved {b : BlockId} {rest : List BlockId} (h : Placed s)
    (hact : s.active = b :: rest) : Placed (moved s b) := by
  have hplaced := placed_expireOne h hact
  obtain ⟨_, _, _, heq⟩ := memblockExpireOne_cases s b
  rw [heq] at hplaced
  exact
    { linked := h.linked
      chained := hplaced.chained
      nodup := hplaced.nodup
      created := hplaced.created
      known := hplaced.known
      young := hplaced.young
      old := hplaced.old }

theorem moveExpired (h : Represents whole σ p s) {b : BlockId} {rest : List BlockId}
    (hact : s.active = b :: rest) :
    ∃ p', ((p.setBlock (σ.block b) { (s.block b).at σ with expired := true }).listDel
        (.block (σ.block b))).bind (·.listAddTail (.block (σ.block b)) .expire) = some p' ∧
      p'.callstack = p.callstack ∧ Represents whole σ p' (moved s b) := by
  have hb : b ∈ s.stored := List.mem_append_left _ (by rw [hact]; exact List.mem_cons_self)
  have hplaced := placed_moved h.placed hact
  have hsame : ∀ d, d ∈ (moved s b).stored ↔ d ∈ s.stored := by
    intro d
    obtain ⟨_, _, _, heq⟩ := memblockExpireOne_cases s b
    have hperm := expireOne_stored h.placed hact
    rw [heq] at hperm
    exact hperm.mem_iff
  -- the flag alone, with the lists as they were
  have hblock : ∀ d ∈ s.stored,
      (p.setBlock (σ.block b) { (s.block b).at σ with expired := true }).block (σ.block d) =
        some (((moved s b).block d).at σ) := by
    intro d hd
    show Function.update p.block (σ.block b) _ (σ.block d) =
      some (Memblock.at σ (Function.update s.block b _ d))
    by_cases hdb : d = b
    · rw [hdb, Function.update_self, Function.update_self]
      rfl
    · rw [Function.update_of_ne hdb, Function.update_of_ne fun heq => hdb (h.block_inj hd hb heq),
        h.block d hd]
  have hvalid : ∀ a ∈ s.stored.map σ.block,
      ((p.setBlock (σ.block b) { (s.block b).at σ with expired := true }).block a).isSome =
        true := by
    intro a ha
    obtain ⟨d, hd, rfl⟩ := List.mem_map.mp ha
    rw [hblock d hd]
    rfl
  have hlists : s.active.map σ.block ++ s.expire.map σ.block = s.stored.map σ.block :=
    List.map_append.symm
  obtain ⟨list, hdel, hrings⟩ := h.lists.listDel
    (p := p.setBlock (σ.block b) { (s.block b).at σ with expired := true }) rfl
    (by rw [hlists]; exact hvalid) (by rw [hlists]; exact List.mem_map_of_mem hb)
  have hnodup : (s.active.map σ.block ++ s.expire.map σ.block).Nodup := h.lists.nodup
  obtain ⟨list', hadd, hrings'⟩ := hrings.listAddTail_expire
    (p := { p.setBlock (σ.block b) { (s.block b).at σ with expired := true } with list := list })
    rfl
    (by
      rw [List.forall_mem_cons]
      refine ⟨hvalid _ (List.mem_map_of_mem hb), ?_⟩
      intro a ha
      apply hvalid a
      rw [← hlists]
      exact List.mem_append_right _ (List.mem_of_mem_erase ha))
    (by
      rw [List.mem_append]
      rintro (ha | ha)
      · exact (List.nodup_append.mp hnodup).1.not_mem_erase ha
      · exact (List.nodup_append.mp hnodup).2.1.not_mem_erase ha)
  refine ⟨{ p.setBlock (σ.block b) { (s.block b).at σ with expired := true } with list := list' },
    ?_, rfl, ?_⟩
  · rw [hdel, Option.bind_some]
    exact hadd
  exact
    { placed := hplaced
      hashed := h.hashed
      block_inj := h.block_inj.mono fun d hd => (hsame d).mp hd
      callstack_inj := h.callstack_inj
      block := fun d hd => hblock d ((hsame d).mp hd)
      callstack := h.callstack
      lists := by
        show TwoRings list' ((s.active.erase b).map σ.block) ((s.expire.erase b ++ [b]).map σ.block)
        rw [List.map_append, h.map_erase hb fun d hd => List.mem_append_left _ hd,
          h.map_erase hb fun d hd => List.mem_append_right _ hd]
        exact hrings'
      hash := h.hash
      callstackHash := h.callstackHash
      callstackId := h.callstackId
      out := h.out
      known := h.known
      owned := by
        intro hw a ha
        by_cases hab : a = σ.block b
        · exact ⟨b, (hsame b).mpr hb, hab.symm⟩
        · have ha' : (p.block a).isSome = true := by
            simpa only [PointerStore.setBlock, Function.update_of_ne hab] using ha
          rcases h.owned hw a ha' with ⟨d, hd, heq⟩
          exact ⟨d, (hsame d).mpr hd, heq⟩ }

theorem setCallstackId (h : Represents whole σ p s) (id : CInt) :
    Represents whole σ { p with callstackId := id } { s with callstackId := id } :=
  { h with
    placed := { h.placed with }
    callstackId := rfl }

/-- The callstack of a block that has been moved is counted, numbered and shown. -/
theorem expireCallstack {b : BlockId} (h : Represents whole σ p (moved s b))
    (hcs : (s.block b).callstack < s.table.fresh) :
    Represents whole σ
      (p.expireCallstack ((s.block b).at σ) (s.table.object (s.block b).callstack))
      (Memleax.memblockExpireOne s b) := by
  have hcount := h.setCallstack hcs (·.countExpired (s.block b).size) fun _ => rfl
  have htable : (s.moveExpired b).table =
      s.table.modify (s.block b).callstack (·.countExpired (s.block b).size) := rfl
  have hobject : (s.moveExpired b).table.object (s.block b).callstack =
      (s.table.object (s.block b).callstack).countExpired (s.block b).size := by
    rw [htable, CallstackTable.modify_object_self]
  have hsize : ((s.block b).at σ).size = (s.block b).size := rfl
  unfold PointerStore.expireCallstack Memleax.memblockExpireOne
  simp only [hobject, hsize]
  by_cases hfirst : ((s.table.object (s.block b).callstack).countExpired (s.block b).size).id = 0
  · have hnumber := h.setCallstack hcs
      (fun cs => { cs.countExpired (s.block b).size with id := s.callstackId }) fun _ => rfl
    have hprint := hnumber.print [.expires s.callstackId (s.block b).size (s.block b).callstack] (by
      rw [List.forall_mem_singleton]
      exact hcs)
    have hid : p.callstackId = s.callstackId := h.callstackId
    rw [if_pos hfirst, if_pos hfirst, hid, htable, modify_modify]
    exact hprint.setCallstackId (s.callstackId + 1)
  · rw [if_neg hfirst, if_neg hfirst]
    split
    · exact hcount.print [.expiresAgain _ (s.block b).size _] (by
        rw [List.forall_mem_singleton]
        trivial)
    · exact hcount

/-- **`memblock_expire_one`.** -/
theorem expireOne (h : Represents whole σ p s) {b : BlockId} {rest : List BlockId}
    (hact : s.active = b :: rest) :
    ∃ p', p.memblockExpireOne (σ.block b) = some p' ∧
      Represents whole σ p' (Memleax.memblockExpireOne s b) := by
  have hb : b ∈ s.stored := List.mem_append_left _ (by rw [hact]; exact List.mem_cons_self)
  have hcs := h.placed.known b hb
  rcases h.moveExpired hact with ⟨p', hmove, hcallstack, hrep⟩
  have hread : p'.callstack (σ.callstack (s.block b).callstack) =
      some (s.table.object (s.block b).callstack) := hrep.callstack _ hcs
  have hcode : p.memblockExpireOne (σ.block b) = some (p'.expireCallstack ((s.block b).at σ)
      (s.table.object (s.block b).callstack)) := by
    rw [PointerStore.memblockExpireOne, h.block b hb, Option.bind_some]
    rw [← Option.bind_assoc, hmove, Option.bind_some]
    show Option.map _ (p'.callstack (σ.callstack (s.block b).callstack)) = _
    rw [hread]
    rfl
  exact ⟨_, hcode, hrep.expireCallstack hcs⟩

/-- The node of the first block to visit, or the head. -/
def firstNode (σ : Names) (todo : List BlockId) : ListNode :=
  (todo.map fun b => ListNode.block (σ.block b)).head?.getD .active

/-- The pointer read from the node of the first active block, or from the head. -/
theorem next_firstNode (h : Represents whole σ p s) (l₁ : List BlockId) {l₂ : List BlockId}
    (hact : s.active = l₁ ++ l₂) :
    p.validNode (firstNode σ l₂) = true ∧ ∃ next, p.list.next (firstNode σ l₂) = some next := by
  have hring := h.lists.active
  rw [List.map_map] at hring
  cases l₂ with
  | nil => exact ⟨rfl, _, hring.next_head⟩
  | cons b rest =>
      have hb : b ∈ s.active := by
        rw [hact]
        exact List.mem_append_right _ List.mem_cons_self
      have hmem : ListNode.block (σ.block b) ∈ s.active.map (ListNode.block ∘ σ.block) :=
        List.mem_map.mpr ⟨b, hb, rfl⟩
      rcases hring.neighbours hmem with ⟨-, -, next, -, -, hnext⟩
      refine ⟨?_, next, hnext⟩
      show (p.block (σ.block b)).isSome = true
      rw [h.block b (List.mem_append_left _ hb)]
      rfl

/-- Behind the node of a block is that of the next one. -/
theorem next_block (h : Represents whole σ p s) {b : BlockId} {rest : List BlockId}
    (hact : s.active = b :: rest) : p.list.next (.block (σ.block b)) = some (firstNode σ rest) := by
  have hlinked := h.lists.active.linked
  rw [List.map_map, hact, List.map_cons, List.cons_append, List.isChain_cons_cons] at hlinked
  obtain ⟨_, hback⟩ := exists_append_eq_cons (rest.map (ListNode.block ∘ σ.block)) ListNode.active
  rw [hback, List.isChain_cons_cons] at hlinked
  exact hlinked.2.1.1

theorem memblockExpireLoop (lim : Limits) (now : Int) : ∀ (todo : List BlockId) {s : Store}
    {p : PointerStore} {fuel : Nat} {safe : ListNode}, Represents whole σ p s → s.active = todo →
    todo.length < fuel → p.list.next (firstNode σ todo) = some safe →
    ∃ p', p.memblockExpireLoop lim now fuel (firstNode σ todo) safe =
        some ((Memleax.memblockExpireLoop lim now todo s).1, p') ∧
      Represents whole σ p' (Memleax.memblockExpireLoop lim now todo s).2 := by
  intro todo
  induction todo with
  | nil =>
      intro s p fuel safe h _ hfuel _
      obtain ⟨fuel, rfl⟩ := Nat.exists_eq_succ_of_ne_zero (Nat.ne_of_gt hfuel)
      exact ⟨p, rfl, h⟩
  | cons b rest ih =>
      intro s p fuel safe h hact hfuel hsafe
      obtain ⟨fuel, rfl⟩ := Nat.exists_eq_succ_of_ne_zero (Nat.ne_of_gt (Nat.zero_lt_of_lt hfuel))
      have hb : b ∈ s.stored := List.mem_append_left _ (by rw [hact]; exact List.mem_cons_self)
      have hnext := h.next_block hact
      rw [show firstNode σ (b :: rest) = .block (σ.block b) from rfl, hnext,
        Option.some.injEq] at hsafe
      subst hsafe
      show ∃ p', PointerStore.memblockExpireLoop lim now (fuel + 1) (.block (σ.block b)) _ p = _ ∧ _
      rw [PointerStore.memblockExpireLoop, h.block b hb, Option.bind_some,
        Memleax.memblockExpireLoop]
      simp only [show (Memblock.at σ (s.block b)).create = (s.block b).create from rfl]
      split
      · exact ⟨p, rfl, h⟩
      · obtain ⟨p', hone, hrep⟩ := h.expireOne hact
        have hact' : (Memleax.memblockExpireOne s b).active = rest := expireOne_active hact
        have hcs : (s.block b).callstack < (Memleax.memblockExpireOne s b).table.fresh := by
          rw [memblockExpireOne_table_fresh]
          exact h.placed.known b hb
        have hread := hrep.callstack _ hcs
        rcases hrep.next_firstNode [] hact' with ⟨hvalid, next, hnext'⟩
        rw [hone, Option.bind_some]
        show ∃ q, Option.bind (p'.callstack (σ.callstack (s.block b).callstack)) _ = _ ∧ _
        rw [hread, Option.bind_some, if_pos hvalid, hnext', Option.bind_some]
        split
        · exact ⟨_, rfl, hrep.print [.callstackLimit _] (by
            rw [List.forall_mem_singleton]
            trivial)⟩
        · split
          · exact ⟨_, rfl, hrep.print [.memblockLimit _ _] (by
              rw [List.forall_mem_singleton]
              trivial)⟩
          · exact ih hrep hact' (Nat.lt_of_succ_lt_succ hfuel) hnext'

theorem memblockExpire (h : Represents whole σ p s) {fuel : Nat} (hfuel : s.fresh < fuel)
    (now : Int) (lim : Limits) :
    ∃ p', p.memblockExpire fuel now lim = some ((Memleax.memblockExpire s now lim).1, p') ∧
      Represents whole σ p' (Memleax.memblockExpire s now lim).2 := by
  have hlength : s.active.length < fuel := by
    apply Nat.lt_of_le_of_lt _ hfuel
    exact length_le_of_lt h.placed.active_nodup fun b hb =>
      h.placed.created b (List.mem_append_left _ hb)
  rcases h.next_firstNode [] rfl with ⟨hvalid, safe, hsafe⟩
  have hfirst : p.list.next .active = some (firstNode σ s.active) := by
    have hhead := h.lists.active.next_head
    rwa [List.map_map] at hhead
  obtain ⟨p', hloop, hrep⟩ := memblockExpireLoop lim now s.active h rfl hlength hsafe
  refine ⟨p', ?_, hrep⟩
  rw [PointerStore.memblockExpire, hfirst, Option.bind_some, if_pos hvalid, hsafe, Option.bind_some,
    hloop]
  rfl

/-! ## The handlers -/

theorem memblockDelete (h : Represents whole σ p s) (now : Int) {mb : Option BlockId}
    (hmb : ∀ b ∈ mb, b ∈ s.stored) :
    ∃ p', p.memblockDelete now (mb.map σ.block) = some p' ∧
      Represents whole σ p' (Memleax.memblockDelete s now mb) := by
  cases mb with
  | none => exact ⟨p, rfl, h⟩
  | some b => exact h.delete now (hmb b rfl)

theorem memblockUpdateSize (h : Represents whole σ p s) {mb : Option BlockId}
    (hmb : ∀ b ∈ mb, b ∈ s.stored) (size : Word) :
    ∃ p', p.memblockUpdateSize (mb.map σ.block) size = some p' ∧
      Represents whole σ p' (Memleax.memblockUpdateSize s mb size) := by
  cases mb with
  | none => exact ⟨p, rfl, h⟩
  | some b => exact h.resize (hmb b rfl) size

/-- **Every handler call goes where the model goes.** -/
theorem handler (h : Represents whole σ p s) {env : PointerEnv} (henv : env.Honest) {fuel : Nat}
    (hfuel : s.fresh < fuel) (hfuel' : s.table.fresh < fuel) (ret arg1 arg2 : Word) (api : Api) :
    ∃ seen, env.Seen seen ∧
      Follows (whole ∧ seen.memblockMalloc = true ∧ seen.callstackMalloc = true)
        (p.handler fuel env ret arg1 arg2 api) (api.handler s seen ret arg1 arg2) := by
  have hfound : ∀ pointer, ∀ b ∈ Memleax.memblockSearch s pointer, b ∈ s.stored :=
    fun pointer b hb => h.placed.mem_stored_of_search hb
  have hok : env.Seen (env.seen σ true true) := ⟨rfl, rfl, rfl, fun _ => rfl, fun _ => rfl⟩
  cases api with
  | malloc => exact h.memblockNew henv hfuel' ret arg1
  | calloc => exact h.memblockNew henv hfuel' ret (arg1 * arg2)
  | free =>
      rcases h.memblockDelete env.freeNow (hfound arg1) with ⟨p', hdelete, hrep⟩
      refine ⟨_, hok, Or.inr ⟨σ, p', ?_, hrep.mono And.left⟩⟩
      rw [PointerStore.handler, h.memblockSearch hfuel, Option.bind_some, hdelete]
      rfl
  | realloc =>
      by_cases hsame : ret = arg1
      · obtain ⟨p', hresize, hrep⟩ := h.memblockUpdateSize (hfound arg1) arg2
        refine ⟨_, hok, Or.inr ⟨σ, p', ?_, ?_⟩⟩
        · rw [PointerStore.handler, h.memblockSearch hfuel, Option.bind_some, if_pos hsame, hresize]
          simp [Api.handler, bphRealloc, hsame]
        · simp only [Api.handler, bphRealloc, if_pos hsame]
          exact hrep.mono And.left
      · obtain ⟨p', hdelete, hrep⟩ := h.memblockDelete env.freeNow (hfound arg1)
        have htable :
            (Memleax.memblockDelete s env.freeNow (Memleax.memblockSearch s arg1)).table.fresh =
              s.table.fresh := by
          cases Memleax.memblockSearch s arg1 with
          | none => rfl
          | some b => exact Store.delete_table_fresh s env.freeNow b
        rcases hrep.memblockNew henv (htable ▸ hfuel') ret arg2 with ⟨seen, hseen, hfollows⟩
        refine ⟨seen, hseen, ?_⟩
        rw [PointerStore.handler, h.memblockSearch hfuel, Option.bind_some, if_neg hsame, hdelete,
          Option.bind_some]
        simp only [Api.handler, bphRealloc, if_neg hsame, hseen.freeNow]
        exact hfollows

end Represents

/-! ## Histories -/

/-- The operation as the model sees it. -/
def PointerOp.Seen : PointerOp → Op → Prop
  | .call api ret arg1 arg2 env, .call api' ret' arg1' arg2' seen =>
      api = api' ∧ ret = ret' ∧ arg1 = arg1' ∧ arg2 = arg2' ∧ env.Seen seen
  | .sweep now lim, .sweep now' lim' => now = now' ∧ lim = lim'
  | _, _ => False

/-- What an operation returns, with the store after it. -/
def Store.answer (s : Store) : Op → Int × Store
  | .call api ret arg1 arg2 env => api.handler s env ret arg1 arg2
  | .sweep now lim => memblockExpire s now lim

theorem Store.answer_snd (s : Store) (op : Op) : (s.answer op).2 = s.step op := by
  cases op <;> rfl

theorem PointerOp.exists_seen (op : PointerOp) : ∃ seen, op.Seen seen := by
  cases op with
  | call api ret arg1 arg2 env =>
      exact ⟨.call api ret arg1 arg2 (env.seen ⟨id, id⟩ true true),
        rfl, rfl, rfl, rfl, rfl, rfl, rfl, fun _ => rfl, fun _ => rfl⟩
  | sweep now lim => exact ⟨.sweep now lim, rfl, rfl⟩

/-- **One operation.** -/
theorem Represents.step {whole : Prop} {σ : Names} {p : PointerStore} {s : Store}
    (h : Represents whole σ p s) {op : PointerOp} (hop : op.Honest) {fuel : Nat}
    (hfuel : s.fresh < fuel) (hfuel' : s.table.fresh < fuel) :
    ∃ seen, op.Seen seen ∧ Follows (whole ∧ seen.MallocOk) (p.step fuel op) (s.answer seen) := by
  cases op with
  | call api ret arg1 arg2 env =>
      rcases h.handler hop hfuel hfuel' ret arg1 arg2 api with ⟨seen, hseen, hfollows⟩
      exact ⟨.call api ret arg1 arg2 seen, ⟨rfl, rfl, rfl, rfl, hseen⟩, hfollows⟩
  | sweep now lim =>
      rcases h.memblockExpire hfuel now lim with ⟨p', hsweep, hrep⟩
      exact ⟨.sweep now lim, ⟨rfl, rfl⟩, Or.inr ⟨σ, p', hsweep, hrep.mono And.left⟩⟩

theorem PointerStore.run_append_single (fuel : Nat) (ops : List PointerOp) (op : PointerOp) :
    PointerStore.run fuel (ops ++ [op]) =
      (PointerStore.run fuel ops).bind fun p => (p.step fuel op).map Prod.snd := by
  rw [PointerStore.run, List.foldlM_append]
  simp only [List.foldlM_cons, List.foldlM_nil, bind_pure]
  rfl

/-- The callstack that could not be created and is printed all the same. -/
theorem Represents.not_printed {whole : Prop} {σ : Names} {p : PointerStore} {s : Store}
    (h : Represents whole σ p s) : .allocReturnsNull none ∉ s.out := fun hmem => h.known _ hmem

/-- **Every history.** Whatever addresses `malloc` returns, as long as they are
not in use, the code on its pointers does what the model does: no null pointer is
followed and no object touched after it is freed, except that a call that returns
a null pointer crashes if the callstack to print cannot be allocated. -/
theorem PointerStore.run_represents (ops : List PointerOp) (hops : ∀ op ∈ ops, op.Honest)
    (fuel : Nat) (hfuel : ops.length < fuel) :
    ∃ seen, List.Forall₂ PointerOp.Seen ops seen ∧
      (PointerStore.run fuel ops = none ↔ .allocReturnsNull none ∈ (Store.run seen).out) ∧
      ∀ p, PointerStore.run fuel ops = some p →
        ∃ σ, Represents (∀ op ∈ seen, op.MallocOk) σ p (Store.run seen) := by
  induction ops using List.reverseRecOn with
  | nil =>
      refine ⟨[], List.Forall₂.nil, ?_, ?_⟩
      · exact iff_of_false nofun List.not_mem_nil
      · rintro p hp
        obtain rfl : PointerStore.init = p := Option.some.inj hp
        exact ⟨_, represents_init.mono fun _ => trivial⟩
  | append_singleton ops op ih =>
      rw [List.length_append, List.length_singleton] at hfuel
      obtain ⟨seen, hseen, hcrash, hrep⟩ := ih
        (fun op hop => hops op (List.mem_append_left _ hop)) (Nat.lt_of_succ_lt hfuel)
      have hlength := hseen.length_eq
      have happend : ∀ {o}, op.Seen o → List.Forall₂ PointerOp.Seen (ops ++ [op]) (seen ++ [o]) :=
        fun ho => List.rel_append hseen (List.Forall₂.cons ho List.Forall₂.nil)
      cases hrun : PointerStore.run fuel ops with
      | none =>
          obtain ⟨o, ho⟩ := op.exists_seen
          have hprinted := ((Store.run seen).step_grows o).out.subset (hcrash.mp hrun)
          refine ⟨seen ++ [o], happend ho, ?_, ?_⟩
          · rw [PointerStore.run_append_single, hrun, Store.run_append_single]
            exact iff_of_true rfl hprinted
          · intro p hp
            rw [PointerStore.run_append_single, hrun] at hp
            exact absurd hp nofun
      | some p =>
          rcases hrep p hrun with ⟨σ, h⟩
          have hgrows := Store.run_grows seen
          have hlt : seen.length < fuel := hlength ▸ Nat.lt_of_succ_lt hfuel
          obtain ⟨o, ho, hfollows⟩ := h.step (hops op (by simp)) (Nat.lt_of_le_of_lt hgrows.1 hlt)
            (Nat.lt_of_le_of_lt hgrows.2 hlt)
          refine ⟨seen ++ [o], happend ho, ?_⟩
          rw [PointerStore.run_append_single, hrun, Store.run_append_single, Option.bind_some,
            ← Store.answer_snd]
          have hwhole :
              (∀ op ∈ seen ++ [o], op.MallocOk) → (∀ op ∈ seen, op.MallocOk) ∧ o.MallocOk :=
            fun hall => ⟨fun op hop => hall op (List.mem_append_left _ hop), hall o (by simp)⟩
          rcases hfollows with ⟨hnone, hprinted⟩ | ⟨σ', p', hsome, hrep'⟩
          · rw [hnone]
            exact ⟨iff_of_true rfl hprinted, nofun⟩
          · rw [hsome]
            refine ⟨iff_of_false nofun hrep'.not_printed, ?_⟩
            rintro q hq
            obtain rfl : p' = q := Option.some.inj hq
            exact ⟨σ', hrep'.mono hwhole⟩

/-- `malloc` with room for one block and one callstack. -/
def reuseEnv (now : Int) : PointerEnv where
  now := now
  ips := [0x400000, 0x400100]
  memblockMalloc := fun s => if s.allocated 7 then none else some 7
  callstackMalloc := fun s => if s.allocated 8 then none else some 8

theorem reuseEnv_honest (now : Int) : (reuseEnv now).Honest := by
  constructor <;> intro s a ha
  · by_cases hfree : s.allocated 7 <;> simp_all [reuseEnv]
  · by_cases hfree : s.allocated 8 <;> simp_all [reuseEnv]

/-- A block is moved to the address that it has just left, expires there and is
freed. -/
def reuse : List PointerOp :=
  [.call .malloc 0x10 16 0 (reuseEnv 0), .call .realloc 0x20 0x10 32 (reuseEnv 0),
    .sweep 10 ⟨10, 1000, 1000⟩, .call .free 0 0x20 0 (reuseEnv 12)]

theorem PointerStore.run_represents_reuse :
    ∃ p σ seen, PointerStore.run 5 reuse = some p ∧ p.out = [.expires 1 32 8, .expiredFree 1 12] ∧
      Represents (∀ op ∈ seen, op.MallocOk) σ p (Store.run seen) := by
  have hout : (PointerStore.run 5 reuse).map (·.out) =
      some [.expires 1 32 8, .expiredFree 1 12] := by decide +kernel
  have hhonest : ∀ op ∈ reuse, op.Honest := by
    simp only [reuse, List.mem_cons, List.not_mem_nil, or_false, forall_eq_or_imp, forall_eq]
    exact ⟨reuseEnv_honest 0, reuseEnv_honest 0, trivial, reuseEnv_honest 12⟩
  obtain ⟨p, hp, hmessages⟩ := Option.map_eq_some_iff.mp hout
  obtain ⟨seen, -, -, hrep⟩ := PointerStore.run_represents reuse hhonest 5 (by decide)
  rcases hrep p hp with ⟨σ, h⟩
  exact ⟨p, σ, seen, hp, hmessages, h⟩

end Memleax
