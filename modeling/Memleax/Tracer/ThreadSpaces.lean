import Memleax.Framework.Caches
import Memleax.Framework.Rings
import Memleax.Tracer.Loop

/-!
# The unwind spaces of the threads

`ptr_backtrace` keeps an address space of libunwind and the data of its remote
accessors for the last ten threads, in ten slots that are linked from the most
to the least recently used one. The walk over the slots stops at the thread or
at the first slot that has not been used; otherwise it leaves its variable at
the last slot, which is then evicted.

The pointers of the list are those of `list.h` (`Links`). What libunwind is asked
for is logged; a handle is the place in the log of the call that has returned
it. Every handle of a slot is that of its thread, and the slots are a cache that
evicts the least recently used thread (`threadSpaces_lru`).
-/

namespace Memleax

open Framework

/-! ## `ptr_backtrace.c` -/

/-- The calls of libunwind. -/
inductive UnwindCall where
  | createAddrSpace
  | destroyAddrSpace (uspace : Nat)
  | uptCreate (thread : Pid)
  | uptDestroy (uptInfo : Nat)
  | initRemote (uspace uptInfo : Nat)
deriving DecidableEq, Repr

/-- `SPACE_MAX` -/
abbrev spaceMax : Nat := 10

structure ThreadSpace where
  uspace : Nat := 0
  uptInfo : Nat := 0
  threadId : Pid := 0
deriving DecidableEq, Repr

/-- The list nodes: `space_head`, which is `none`, and those of the slots. -/
abbrev SpaceNode := Option (Fin spaceMax)

/-- The static variables of `ptr_backtrace`, and the calls that have been made. -/
structure ThreadSpaces where
  links : Links SpaceNode := Links.init none
  spaces : Fin spaceMax → ThreadSpace := fun _ => {}
  log : List UnwindCall := []

/-- One call of `ptr_backtrace`: `g_current_thread`, the `size` of the buffer,
and the program counters that libunwind finds on the stack, the innermost one
first. -/
structure BacktraceCall where
  thread : Pid
  size : Int
  ip : Word
  callers : List Word := []

/-- The slots are linked when the list is empty. -/
def linkSpaces (links : Links SpaceNode) : Option (Links SpaceNode) :=
  if links.listEmpty none then
    (List.finRange spaceMax).foldlM (fun links i => links.listAdd (some i) none) links
  else some links

/-- The walk over the slots, of which there are `SPACE_MAX` at most. -/
def searchSpace (links : Links SpaceNode) (spaces : Fin spaceMax → ThreadSpace) (thread : Pid) :
    Option (Fin spaceMax) :=
  ((links.next none).bind fun p =>
    links.walkUntil none
      (fun node => node.any fun i =>
        (spaces i).threadId == 0 || (spaces i).threadId == thread)
      (spaceMax + 1) p none).join

/-- The old handles of a slot are destroyed, if it has been used. -/
def expireSpace (log : List UnwindCall) (sp : ThreadSpace) : List UnwindCall :=
  if sp.threadId ≠ 0 then log ++ [.destroyAddrSpace sp.uspace] ++ [.uptDestroy sp.uptInfo] else log

/-- A slot that is not that of the thread gets handles of its own. -/
def renewSpace (s : ThreadSpaces) (i : Fin spaceMax) (thread : Pid) : ThreadSpaces :=
  if (s.spaces i).threadId ≠ thread then
    let log := expireSpace s.log (s.spaces i)
    { s with
      spaces := Function.update s.spaces i
        { uspace := log.length, uptInfo := log.length + 1, threadId := thread }
      log := log ++ [.createAddrSpace] ++ [.uptCreate thread] }
  else s

/-- The loop over the frames, after `i` of them. -/
def unwindLoop (size : Int) : Int → Word → List Word → List Word
  | _, ip, [] => [ip]
  | i, ip, caller :: callers =>
      if i + 1 < size then ip :: unwindLoop size (i + 1) caller callers else [ip]

def ptrBacktrace (s : ThreadSpaces) (call : BacktraceCall) : Option (ThreadSpaces × List Word) := do
  let links ← linkSpaces s.links
  let i ← searchSpace links s.spaces call.thread
  let s := renewSpace s i call.thread
  let links ← links.listDel (some i)
  let links ← links.listAdd (some i) none
  let sp := s.spaces i
  some ({ s with links := links, log := s.log ++ [.initRemote sp.uspace sp.uptInfo] },
    unwindLoop call.size 0 call.ip call.callers)

/-- A sequence of calls. -/
def runBacktraces (calls : List BacktraceCall) : Option ThreadSpaces :=
  calls.foldlM (fun s call => (ptrBacktrace s call).map Prod.fst) {}

/-! ## What the slots are to be -/

def UnwindCall.CreatesSpace (call : UnwindCall) : Prop := call = .createAddrSpace

def UnwindCall.CreatesInfo (call : UnwindCall) : Prop := ∃ thread, call = .uptCreate thread

/-- The handle of a slot that is used. -/
def ThreadSpaces.held (s : ThreadSpaces) (handle : ThreadSpace → Nat) (i : Fin spaceMax) :
    Option Nat :=
  if (s.spaces i).threadId = 0 then none else some (handle (s.spaces i))

/-- The handles of a slot have been created for its thread. -/
def Owned (log : List UnwindCall) (sp : ThreadSpace) : Prop :=
  log[sp.uspace]? = some .createAddrSpace ∧ log[sp.uptInfo]? = some (.uptCreate sp.threadId)

/-- The thread ids of the slots, after calls for `threads`: the most recently
used threads, from most to least recent, and `0` for each unused slot. -/
def slotIds (threads : List Pid) : List Pid :=
  (recent threads).take spaceMax ++ List.replicate (spaceMax - (recent threads).length) 0

/-- The slots, after calls for `threads`. -/
structure SpacesExact (threads : List Pid) (s : ThreadSpaces) : Prop where
  /-- the list links the ten slots, each once, in the order of their use -/
  linked : ∃ order : List (Fin spaceMax), Circular s.links none (order.map some) ∧
    order.Perm (List.finRange spaceMax) ∧
    order.map (fun i => (s.spaces i).threadId) = slotIds threads
  /-- the threads of the slots are distinct -/
  distinct : ∀ i j, (s.spaces i).threadId ≠ 0 → (s.spaces i).threadId = (s.spaces j).threadId →
    i = j
  owner : ∀ i, (s.spaces i).threadId ≠ 0 → Owned s.log (s.spaces i)
  /-- what has been created is destroyed, once, exactly if no slot holds it -/
  uspaces : Accounted UnwindCall.CreatesSpace UnwindCall.destroyAddrSpace s.log
    (s.held ThreadSpace.uspace)
  uptInfos : Accounted UnwindCall.CreatesInfo UnwindCall.uptDestroy s.log
    (s.held ThreadSpace.uptInfo)

/-- A thread had a slot before a call and has none after it. -/
def Evicted (s s' : ThreadSpaces) (i : Fin spaceMax) : Prop :=
  (s.spaces i).threadId ≠ 0 ∧ ∀ j, (s'.spaces j).threadId ≠ (s.spaces i).threadId

/-- One call for `thread`. -/
structure CallExact (thread : Pid) (s s' : ThreadSpaces) : Prop where
  /-- it unwinds with the handles of the slot of the thread -/
  unwinds : ∃ i, (s'.spaces i).threadId = thread ∧
    s'.log.getLast? = some (.initRemote (s'.spaces i).uspace (s'.spaces i).uptInfo)
  /-- it destroys the handles of the evicted thread -/
  uspace : ∀ h, .destroyAddrSpace h ∈ s'.log ∧ .destroyAddrSpace h ∉ s.log ↔
    ∃ i, Evicted s s' i ∧ (s.spaces i).uspace = h
  uptInfo : ∀ h, .uptDestroy h ∈ s'.log ∧ .uptDestroy h ∉ s.log ↔
    ∃ i, Evicted s s' i ∧ (s.spaces i).uptInfo = h
  /-- the other slots that are used stay as they are -/
  kept : ∀ i, (s.spaces i).threadId ≠ 0 → ¬ Evicted s s' i → s'.spaces i = s.spaces i

/-! ## The list of the slots -/

section Slots

variable {links : Links SpaceNode} {order : List (Fin spaceMax)}

theorem linkLoop {l : List (Fin spaceMax)} : ∀ {links : Links SpaceNode}
    {order : List (Fin spaceMax)}, Circular links none (order.map some) → (l ++ order).Nodup →
    ∃ links', l.foldlM (fun links i => links.listAdd (some i) none) links = some links' ∧
      Circular links' none ((l.reverse ++ order).map some) := by
  induction l with
  | nil =>
      intro links order h _
      exact ⟨links, rfl, h⟩
  | cons i rest ih =>
      intro links order h hnodup
      rw [List.cons_append, List.nodup_cons, List.mem_append, not_or] at hnodup
      have hfresh : some i ∉ none :: order.map some := by
        simp [hnodup.1.2]
      obtain ⟨links', hadd, h'⟩ := h.listAdd hfresh
      have hnodup' : (rest ++ i :: order).Nodup := by
        rw [List.nodup_middle, List.nodup_cons, List.mem_append, not_or]
        exact hnodup
      obtain ⟨links'', hloop, h''⟩ := ih h' hnodup'
      refine ⟨links'', ?_, ?_⟩
      · rw [List.foldlM_cons, hadd]
        exact hloop
      · rw [List.reverse_cons, List.append_assoc]
        exact h''

theorem linkSpaces_init : ∃ links, linkSpaces (Links.init none) = some links ∧
    Circular links none ((List.finRange spaceMax).reverse.map some) := by
  have hempty : (Links.init (none : SpaceNode)).listEmpty none = true :=
    (Circular.init none).listEmpty_iff.mpr rfl
  have hnodup : (List.finRange spaceMax ++ []).Nodup := by
    rw [List.append_nil]
    exact List.nodup_finRange spaceMax
  obtain ⟨links, hloop, h⟩ := linkLoop (Circular.init none) hnodup
  rw [List.append_nil] at h
  rw [linkSpaces, if_pos hempty]
  exact ⟨links, hloop, h⟩

theorem linkSpaces_linked (h : Circular links none (order.map some))
    (hperm : order.Perm (List.finRange spaceMax)) : linkSpaces links = some links := by
  have hlength : order.length = spaceMax := by
    rw [hperm.length_eq, List.length_finRange]
  have hempty : ¬ links.listEmpty none = true := by
    rw [h.listEmpty_iff]
    intro hnil
    rw [List.map_eq_nil_iff] at hnil
    rw [hnil] at hlength
    cases hlength
  rw [linkSpaces, if_neg hempty]

/-- The walk ends at the first slot that is unused or that of the thread, or at
the last slot. -/
theorem searchSpace_eq (h : Circular links none (order.map some))
    (hperm : order.Perm (List.finRange spaceMax)) (spaces : Fin spaceMax → ThreadSpace)
    (thread : Pid) :
    searchSpace links spaces thread =
      (order.find? fun i => (spaces i).threadId == 0 || (spaces i).threadId == thread).or
        order.getLast? := by
  have hfuel : (order.map some).length < spaceMax + 1 := by
    rw [List.length_map, hperm.length_eq, List.length_finRange]
    exact Nat.lt_succ_self _
  rw [searchSpace, h.walkUntil hfuel, List.find?_map, List.getLast?_map]
  change ((Option.map some (order.find? fun i =>
    (spaces i).threadId == 0 || (spaces i).threadId == thread)).or _).join = _
  cases order.find? fun i => (spaces i).threadId == 0 || (spaces i).threadId == thread with
  | some i => rfl
  | none => cases order.getLast? <;> rfl

theorem moveToFront {front back : List (Fin spaceMax)} {i : Fin spaceMax}
    (h : Circular links none ((front ++ i :: back).map some)) :
    ∃ links', (links.listDel (some i)).bind (fun links => links.listAdd (some i) none) =
      some links' ∧ Circular links' none ((i :: (front ++ back)).map some) := by
  have hnodup := (List.nodup_cons.mp h.nodup).2
  rw [List.map_append, List.map_cons] at h hnodup
  obtain ⟨links₁, hdel, h₁⟩ := h.listDel
  have hfresh : some i ∉ none :: (front.map some ++ back.map some) := by
    rw [List.nodup_middle, List.nodup_cons] at hnodup
    simp only [List.mem_cons, not_or]
    exact ⟨by simp, hnodup.1⟩
  obtain ⟨links₂, hadd, h₂⟩ := h₁.listAdd hfresh
  refine ⟨links₂, ?_, ?_⟩
  · rw [hdel, Option.bind_some, hadd]
  · rw [List.map_cons, List.map_append]
    exact h₂

end Slots

/-! ## Which slot is found -/

/-- The three outcomes of a walk over slots with the thread ids `cached`, followed
by `unused` zeros: a hit, an unused slot, or the last slot of a full list. -/
theorem slotSearch_cases {order : List (Fin spaceMax)} {ids : Fin spaceMax → Pid}
    {cached : List Pid} {unused : Nat} {thread : Pid} (hids : order.map ids = cached ++ List.replicate unused 0)
    (hzero : 0 ∉ cached) (horder : order ≠ []) :
    ∃ front i back, order = front ++ i :: back ∧
      ((order.find? fun i => ids i == 0 || ids i == thread).or order.getLast?) = some i ∧
      (thread ∈ cached ∧ ids i = thread ∧
          (front ++ back).map ids = cached.erase thread ++ List.replicate unused 0 ∨
        thread ∉ cached ∧ ids i = 0 ∧ 0 < unused ∧
          (front ++ back).map ids = cached ++ List.replicate (unused - 1) 0 ∨
        thread ∉ cached ∧ ids i ∈ cached ∧ unused = 0 ∧
          (front ++ back).map ids = cached.dropLast) := by
  by_cases hmem : thread ∈ cached
  · obtain ⟨before, behind, rfl, hbefore⟩ := List.eq_append_cons_of_mem hmem
    rw [List.append_assoc, List.cons_append] at hids
    obtain ⟨front, rest, rfl, hfront, hrest⟩ := List.map_eq_append_iff.mp hids
    obtain ⟨i, back, rfl, hi, hback⟩ := List.map_eq_cons_iff.mp hrest
    refine ⟨front, i, back, rfl, ?_, Or.inl ⟨hmem, hi, ?_⟩⟩
    · rw [List.find?_eq_some_iff_append.mpr ⟨?_, front, back, rfl, ?_⟩]
      · rfl
      · simp [hi]
      · intro j hj
        have hjmem : ids j ∈ before := hfront ▸ List.mem_map_of_mem hj
        have hjzero : ids j ≠ 0 := by
          intro h
          exact hzero (h ▸ List.mem_append_left _ hjmem)
        have hjthread : ids j ≠ thread := by
          intro h
          exact hbefore (h ▸ hjmem)
        simp [hjzero, hjthread]
    · rw [List.map_append, hfront, hback, List.erase_append_right _ hbefore, List.erase_cons_head,
        List.append_assoc]
  · have hcached : ∀ j, ids j ∈ cached → (ids j == 0 || ids j == thread) = false := by
      intro j hj
      have hjzero : ids j ≠ 0 := by
        intro h
        exact hzero (h ▸ hj)
      have hjthread : ids j ≠ thread := by
        intro h
        exact hmem (h ▸ hj)
      simp [hjzero, hjthread]
    cases unused with
    | succ unused =>
        rw [List.replicate_succ] at hids
        obtain ⟨front, rest, rfl, hfront, hrest⟩ := List.map_eq_append_iff.mp hids
        obtain ⟨i, back, rfl, hi, hback⟩ := List.map_eq_cons_iff.mp hrest
        refine ⟨front, i, back, rfl, ?_, Or.inr (Or.inl ⟨hmem, hi, Nat.succ_pos _, ?_⟩)⟩
        · rw [List.find?_eq_some_iff_append.mpr ⟨?_, front, back, rfl, ?_⟩]
          · rfl
          · simp [hi]
          · intro j hj
            rw [hcached j (hfront ▸ List.mem_map_of_mem hj)]
            rfl
        · rw [List.map_append, hfront, hback, Nat.add_sub_cancel]
    | zero =>
        rw [List.replicate_zero, List.append_nil] at hids
        obtain ⟨front, i, rfl⟩ : ∃ front i, order = front ++ [i] :=
          ⟨_, _, (List.dropLast_append_getLast horder).symm⟩
        refine ⟨front, i, [], rfl, ?_, Or.inr (Or.inr ⟨hmem, ?_, rfl, ?_⟩)⟩
        · have hnone : ((front ++ [i]).find? fun i => ids i == 0 || ids i == thread) = none := by
            apply List.find?_eq_none.mpr
            intro j hj
            rw [hcached j (hids ▸ List.mem_map_of_mem hj)]
            simp
          rw [hnone, List.getLast?_concat]
          rfl
        · rw [← hids]
          exact List.mem_map_of_mem (List.mem_append_right _ List.mem_cons_self)
        · rw [← hids, List.append_nil, List.map_append, List.map_singleton, List.dropLast_concat]

theorem slotIds_hit {threads : List Pid} {thread : Pid}
    (hmem : thread ∈ (recent threads).take spaceMax) :
    slotIds (threads ++ [thread]) = thread :: (((recent threads).take spaceMax).erase thread ++
      List.replicate (spaceMax - (recent threads).length) 0) := by
  have hlength : (recent (threads ++ [thread])).length = (recent threads).length := by
    have hrecent := List.mem_of_mem_take hmem
    rw [recent_concat, List.length_cons, List.length_erase_of_mem hrecent]
    exact Nat.sub_add_cancel (List.length_pos_of_mem hrecent)
  have hshort : (((recent threads).take spaceMax).erase thread).length ≤ 9 := by
    have hmax : spaceMax = 10 := rfl
    rw [List.length_erase_of_mem hmem, List.length_take]
    omega
  rw [slotIds, take_recent_concat, List.take_of_length_le hshort, hlength]
  rfl

/-- A new thread takes the place of an unused slot. -/
theorem slotIds_unused {threads : List Pid} {thread : Pid}
    (hmem : thread ∉ (recent threads).take spaceMax)
    (hunused : 0 < spaceMax - (recent threads).length) :
    slotIds (threads ++ [thread]) = thread :: ((recent threads).take spaceMax ++
      List.replicate (spaceMax - (recent threads).length - 1) 0) := by
  have hmax : spaceMax = 10 := rfl
  have hall : (recent threads).take spaceMax = recent threads :=
    List.take_of_length_le (by omega)
  rw [hall] at hmem ⊢
  have hlength : (recent (threads ++ [thread])).length = (recent threads).length + 1 := by
    rw [recent_concat, List.length_cons, List.erase_of_not_mem hmem]
  rw [slotIds, take_recent_concat, hall, List.erase_of_not_mem hmem, hlength, Nat.sub_sub,
    List.take_of_length_le (by omega)]
  rfl

/-- A new thread evicts the last one. -/
theorem slotIds_full {threads : List Pid} {thread : Pid}
    (hmem : thread ∉ (recent threads).take spaceMax)
    (hunused : spaceMax - (recent threads).length = 0) :
    slotIds (threads ++ [thread]) = thread :: ((recent threads).take spaceMax).dropLast := by
  have hlength : ((recent threads).take spaceMax).length = spaceMax := by
    rw [List.length_take]
    omega
  have hzero : spaceMax - (recent (threads ++ [thread])).length = 0 := by
    have hle : (recent threads).length - 1 ≤ ((recent threads).erase thread).length :=
      List.le_length_erase
    rw [recent_concat, List.length_cons]
    omega
  rw [slotIds, take_recent_concat, List.erase_of_not_mem hmem, hzero, List.dropLast_eq_take,
    hlength, List.replicate_zero, List.append_nil]
  rfl

theorem slotIds_zero {threads : List Pid} (h : ∀ t ∈ threads, t ≠ 0) :
    0 ∉ (recent threads).take spaceMax := by
  intro hmem
  exact h 0 (mem_recent.mp (List.mem_of_mem_take hmem)) rfl

/-- Ids that are not zero stand in one slot only. -/
theorem distinct_of_slotIds {order : List (Fin spaceMax)} {ids : Fin spaceMax → Pid}
    {threads : List Pid} (hperm : order.Perm (List.finRange spaceMax))
    (hids : order.map ids = slotIds threads) {i j : Fin spaceMax} (hi : ids i ≠ 0)
    (hij : ids i = ids j) : i = j := by
  have hpair : (slotIds threads).Pairwise fun a b => a ≠ 0 → a ≠ b := by
    rw [slotIds, List.pairwise_append]
    refine ⟨?_, ?_, ?_⟩
    · have hnodup := (nodup_recent threads).sublist (List.take_sublist spaceMax _)
      apply List.Pairwise.imp _ hnodup
      intro a b hne _
      exact hne
    · apply List.pairwise_of_forall_mem_list
      intro a ha b _ hne
      exact absurd (List.eq_of_mem_replicate ha) hne
    · intro a _ b hb hne
      rw [List.eq_of_mem_replicate hb]
      exact hne
  rw [← hids, List.pairwise_map] at hpair
  have hsymm : Std.Symm fun a b => ids a ≠ 0 → ids a ≠ ids b := by
    constructor
    intro a b hab hb heq
    exact hab (heq ▸ hb) heq.symm
  have hmem : ∀ k, k ∈ order := fun k => hperm.mem_iff.mpr (List.mem_finRange k)
  by_contra hne
  exact hpair.forall (hmem i) (hmem j) hne hi hij

/-! ## The handles of a slot -/

section Handles

variable {s : ThreadSpaces} {i : Fin spaceMax} {thread : Pid} {handle : ThreadSpace → Nat}

theorem held_eq_none (h : (s.spaces i).threadId = 0) : s.held handle i = none := if_pos h

theorem held_eq_some (h : (s.spaces i).threadId ≠ 0) :
    s.held handle i = some (handle (s.spaces i)) :=
  if_neg h

theorem renewSpace_of_eq (h : (s.spaces i).threadId = thread) : renewSpace s i thread = s := by
  rw [renewSpace, if_neg (not_not.mpr h)]

theorem renewSpace_of_ne (h : (s.spaces i).threadId ≠ thread) :
    renewSpace s i thread =
      { s with
        spaces := Function.update s.spaces i
          { uspace := (expireSpace s.log (s.spaces i)).length
            uptInfo := (expireSpace s.log (s.spaces i)).length + 1
            threadId := thread }
        log := expireSpace s.log (s.spaces i) ++ [.createAddrSpace] ++ [.uptCreate thread] } := by
  rw [renewSpace, if_pos h]

theorem renewSpace_spaces_of_ne {j : Fin spaceMax} (hji : j ≠ i) :
    (renewSpace s i thread).spaces j = s.spaces j := by
  by_cases h : (s.spaces i).threadId = thread
  · rw [renewSpace_of_eq h]
  · rw [renewSpace_of_ne h]
    exact Function.update_of_ne hji _ _

theorem renewSpace_threadId : ((renewSpace s i thread).spaces i).threadId = thread := by
  by_cases h : (s.spaces i).threadId = thread
  · rw [renewSpace_of_eq h, h]
  · rw [renewSpace_of_ne h]
    dsimp only
    rw [Function.update_self]

theorem held_update {space : ThreadSpace} (hthread : space.threadId ≠ 0) {log : List UnwindCall}
    {links : Links SpaceNode} :
    ThreadSpaces.held ⟨links, Function.update s.spaces i space, log⟩ handle =
      Function.update (s.held handle) i (some (handle space)) := by
  ext1 j
  by_cases hji : j = i
  · simp [ThreadSpaces.held, hji, hthread]
  · simp [ThreadSpaces.held, hji]

/-- The space of a slot that is used is destroyed. -/
theorem expire_uspaces (h : Accounted UnwindCall.CreatesSpace UnwindCall.destroyAddrSpace s.log
      (s.held ThreadSpace.uspace)) (i : Fin spaceMax) :
    Accounted UnwindCall.CreatesSpace UnwindCall.destroyAddrSpace
      (expireSpace s.log (s.spaces i)) (Function.update (s.held ThreadSpace.uspace) i none) := by
  unfold expireSpace
  split
  · rename_i hused
    have hrelease := h.release (fun a b hab => UnwindCall.destroyAddrSpace.inj hab)
      (fun _ hcreate => by cases hcreate) (held_eq_some hused)
    apply hrelease.idle
    · intro hcreate
      cases hcreate
    · intro k heq
      cases heq
  · rename_i hunused
    rw [Function.update_eq_self_iff.mpr (held_eq_none (not_not.mp hunused)).symm]
    exact h

theorem expire_uptInfos (h : Accounted UnwindCall.CreatesInfo UnwindCall.uptDestroy s.log
      (s.held ThreadSpace.uptInfo)) (i : Fin spaceMax) :
    Accounted UnwindCall.CreatesInfo UnwindCall.uptDestroy
      (expireSpace s.log (s.spaces i)) (Function.update (s.held ThreadSpace.uptInfo) i none) := by
  unfold expireSpace
  split
  · rename_i hused
    have hidle : Accounted UnwindCall.CreatesInfo UnwindCall.uptDestroy
        (s.log ++ [.destroyAddrSpace (s.spaces i).uspace]) (s.held ThreadSpace.uptInfo) := by
      apply h.idle
      · rintro ⟨t, ht⟩
        cases ht
      · intro k heq
        cases heq
    apply hidle.release
    · intro a b hab
      exact UnwindCall.uptDestroy.inj hab
    · rintro k ⟨t, ht⟩
      cases ht
    · exact held_eq_some hused
  · rename_i hunused
    rw [Function.update_eq_self_iff.mpr (held_eq_none (not_not.mp hunused)).symm]
    exact h

theorem renew_uspaces (h : Accounted UnwindCall.CreatesSpace UnwindCall.destroyAddrSpace s.log
      (s.held ThreadSpace.uspace)) (i : Fin spaceMax) (hthread : thread ≠ 0) :
    Accounted UnwindCall.CreatesSpace UnwindCall.destroyAddrSpace (renewSpace s i thread).log
      ((renewSpace s i thread).held ThreadSpace.uspace) := by
  by_cases heq : (s.spaces i).threadId = thread
  · rw [renewSpace_of_eq heq]
    exact h
  · have hcreate : UnwindCall.CreatesSpace .createAddrSpace := rfl
    have hnone : Function.update (s.held ThreadSpace.uspace) i none i = none :=
      Function.update_self ..
    have hacquire := (expire_uspaces h i).acquire hcreate (fun k heq => by cases heq) hnone
    rw [Function.update_idem] at hacquire
    rw [renewSpace_of_ne heq, held_update hthread]
    apply hacquire.idle
    · intro hcreate
      cases hcreate
    · intro k heq
      cases heq

theorem renew_uptInfos (h : Accounted UnwindCall.CreatesInfo UnwindCall.uptDestroy s.log
      (s.held ThreadSpace.uptInfo)) (i : Fin spaceMax) (hthread : thread ≠ 0) :
    Accounted UnwindCall.CreatesInfo UnwindCall.uptDestroy (renewSpace s i thread).log
      ((renewSpace s i thread).held ThreadSpace.uptInfo) := by
  by_cases heq : (s.spaces i).threadId = thread
  · rw [renewSpace_of_eq heq]
    exact h
  · have hidle : Accounted UnwindCall.CreatesInfo UnwindCall.uptDestroy
        (expireSpace s.log (s.spaces i) ++ [.createAddrSpace])
        (Function.update (s.held ThreadSpace.uptInfo) i none) := by
      apply (expire_uptInfos h i).idle
      · rintro ⟨t, ht⟩
        cases ht
      · intro k heq
        cases heq
    have hcreate : UnwindCall.CreatesInfo (.uptCreate thread) := ⟨thread, rfl⟩
    have hnone : Function.update (s.held ThreadSpace.uptInfo) i none i = none :=
      Function.update_self ..
    have hacquire := hidle.acquire hcreate (fun k heq => by cases heq) hnone
    rw [Function.update_idem, List.length_append] at hacquire
    rw [renewSpace_of_ne heq, held_update hthread]
    exact hacquire

theorem Owned.concat {log : List UnwindCall} {sp : ThreadSpace} (h : Owned log sp)
    (call : UnwindCall) : Owned (log ++ [call]) sp :=
  ⟨getElem?_concat_iff.mpr (Or.inl h.1), getElem?_concat_iff.mpr (Or.inl h.2)⟩

theorem Owned.expire {log : List UnwindCall} {sp : ThreadSpace} (h : Owned log sp)
    (other : ThreadSpace) : Owned (expireSpace log other) sp := by
  unfold expireSpace
  split
  · exact (h.concat _).concat _
  · exact h

theorem renew_owned (h : ∀ j, (s.spaces j).threadId ≠ 0 → Owned s.log (s.spaces j))
    (i : Fin spaceMax) (thread : Pid) (j : Fin spaceMax)
    (hj : ((renewSpace s i thread).spaces j).threadId ≠ 0) :
    Owned (renewSpace s i thread).log ((renewSpace s i thread).spaces j) := by
  by_cases heq : (s.spaces i).threadId = thread
  · rw [renewSpace_of_eq heq] at hj ⊢
    exact h j hj
  · by_cases hji : j = i
    · subst hji
      rw [renewSpace_of_ne heq]
      dsimp only
      rw [Function.update_self]
      refine ⟨?_, ?_⟩
      · exact getElem?_concat_iff.mpr (Or.inl (getElem?_concat_iff.mpr (Or.inr ⟨rfl, rfl⟩)))
      · refine getElem?_concat_iff.mpr (Or.inr ⟨?_, rfl⟩)
        rw [List.length_append]
        rfl
    · rw [renewSpace_spaces_of_ne hji] at hj ⊢
      rw [renewSpace_of_ne heq]
      exact (((h j hj).expire _).concat _).concat _

theorem mem_renew_log {call : UnwindCall} :
    call ∈ (renewSpace s i thread).log ↔ call ∈ s.log ∨ (s.spaces i).threadId ≠ thread ∧
      ((s.spaces i).threadId ≠ 0 ∧
          (call = .destroyAddrSpace (s.spaces i).uspace ∨ call = .uptDestroy (s.spaces i).uptInfo) ∨
        call = .createAddrSpace ∨ call = .uptCreate thread) := by
  by_cases heq : (s.spaces i).threadId = thread
  · rw [renewSpace_of_eq heq]
    simp [heq]
  · rw [renewSpace_of_ne heq]
    by_cases hzero : (s.spaces i).threadId = 0
    · rw [hzero] at heq
      simp [expireSpace, hzero, heq]
    · simp [expireSpace, hzero, heq, or_assoc]

/-- The space that is destroyed is that of the slot, if it was used for another
thread. -/
theorem mem_renew_uspace {h : Nat} :
    .destroyAddrSpace h ∈ (renewSpace s i thread).log ↔ .destroyAddrSpace h ∈ s.log ∨
      ((s.spaces i).threadId ≠ 0 ∧ (s.spaces i).threadId ≠ thread) ∧ (s.spaces i).uspace = h := by
  rw [mem_renew_log]
  simp [and_assoc, and_left_comm, eq_comm]

theorem mem_renew_uptInfo {h : Nat} :
    .uptDestroy h ∈ (renewSpace s i thread).log ↔ .uptDestroy h ∈ s.log ∨
      ((s.spaces i).threadId ≠ 0 ∧ (s.spaces i).threadId ≠ thread) ∧
        (s.spaces i).uptInfo = h := by
  rw [mem_renew_log]
  simp [and_assoc, and_left_comm, eq_comm]

/-- The thread that is evicted is that of the slot, if it is another one. -/
theorem evicted_iff {s' : ThreadSpaces}
    (hdistinct : ∀ i j, (s.spaces i).threadId ≠ 0 →
      (s.spaces i).threadId = (s.spaces j).threadId → i = j)
    (hs' : s'.spaces = (renewSpace s i thread).spaces) {k : Fin spaceMax} :
    Evicted s s' k ↔
      k = i ∧ (s.spaces i).threadId ≠ 0 ∧ (s.spaces i).threadId ≠ thread := by
  unfold Evicted
  rw [hs']
  constructor
  · rintro ⟨hused, hgone⟩
    have hki : k = i := by
      by_contra hki
      exact hgone k (by rw [renewSpace_spaces_of_ne hki])
    subst hki
    refine ⟨rfl, hused, ?_⟩
    intro heq
    exact hgone k (by rw [renewSpace_threadId, heq])
  · rintro ⟨rfl, hused, hne⟩
    refine ⟨hused, ?_⟩
    intro j hj
    by_cases hjk : j = k
    · rw [hjk, renewSpace_threadId] at hj
      exact hne hj.symm
    · rw [renewSpace_spaces_of_ne hjk] at hj
      exact hjk (hdistinct k j hused hj.symm).symm

end Handles

/-! ## One call -/

/-- The slots before a call; the list may have to be set up first. -/
structure SpacesReady (threads : List Pid) (s : ThreadSpaces) : Prop where
  linked : ∃ (links : Links SpaceNode) (order : List (Fin spaceMax)),
    linkSpaces s.links = some links ∧ Circular links none (order.map some) ∧
    order.Perm (List.finRange spaceMax) ∧
    order.map (fun i => (s.spaces i).threadId) = slotIds threads
  owned : ∀ i, (s.spaces i).threadId ≠ 0 → Owned s.log (s.spaces i)
  uspaces : Accounted UnwindCall.CreatesSpace UnwindCall.destroyAddrSpace s.log
    (s.held ThreadSpace.uspace)
  uptInfos : Accounted UnwindCall.CreatesInfo UnwindCall.uptDestroy s.log
    (s.held ThreadSpace.uptInfo)

theorem SpacesReady.initial : SpacesReady [] {} := by
  obtain ⟨links, hlink, hcircular⟩ := linkSpaces_init
  refine ⟨⟨links, _, hlink, hcircular, List.reverse_perm _, by decide⟩, ?_, ?_, ?_⟩
  · intro i hi
    exact absurd rfl hi
  · exact Accounted.nil _ _
  · exact Accounted.nil _ _

theorem SpacesExact.ready {threads : List Pid} {s : ThreadSpaces} (h : SpacesExact threads s) :
    SpacesReady threads s := by
  obtain ⟨order, hcircular, hperm, hids⟩ := h.linked
  exact ⟨⟨s.links, order, linkSpaces_linked hcircular hperm, hcircular, hperm, hids⟩, h.owner,
    h.uspaces, h.uptInfos⟩

theorem SpacesReady.distinct {threads : List Pid} {s : ThreadSpaces} (h : SpacesReady threads s)
    (i j : Fin spaceMax) (hi : (s.spaces i).threadId ≠ 0)
    (hij : (s.spaces i).threadId = (s.spaces j).threadId) : i = j := by
  obtain ⟨_, order, -, -, hperm, hids⟩ := h.linked
  exact distinct_of_slotIds hperm hids hi hij

/-- **What a call finds**: a slot, which it moves to the front. -/
theorem SpacesReady.found {threads : List Pid} {s : ThreadSpaces} (h : SpacesReady threads s)
    (hthreads : ∀ t ∈ threads, t ≠ 0) (call : BacktraceCall) :
    ∃ (i : Fin spaceMax) (rest : List (Fin spaceMax)) (links : Links SpaceNode),
      ptrBacktrace s call = some
        ({ renewSpace s i call.thread with
            links := links
            log := (renewSpace s i call.thread).log ++
              [.initRemote ((renewSpace s i call.thread).spaces i).uspace
                ((renewSpace s i call.thread).spaces i).uptInfo] },
          unwindLoop call.size 0 call.ip call.callers) ∧
      Circular links none ((i :: rest).map some) ∧ (i :: rest).Perm (List.finRange spaceMax) ∧
      call.thread :: rest.map (fun j => (s.spaces j).threadId) =
        slotIds (threads ++ [call.thread]) := by
  obtain ⟨links, order, hlink, hcircular, hperm, hids⟩ := h.linked
  have horder : order ≠ [] := by
    rintro rfl
    exact absurd hperm.length_eq (by decide)
  obtain ⟨front, i, back, rfl, hfind, hcases⟩ :=
    @slotSearch_cases order _ _ _ call.thread hids (slotIds_zero hthreads) horder
  have hsearch : searchSpace links s.spaces call.thread = some i := by
    rw [searchSpace_eq hcircular hperm, hfind]
  obtain ⟨links', hmove, hcircular'⟩ := moveToFront hcircular
  refine ⟨i, front ++ back, links', ?_, hcircular', List.perm_middle.symm.trans hperm, ?_⟩
  · obtain ⟨links₁, hdel, hadd⟩ := Option.bind_eq_some_iff.mp hmove
    simp only [ptrBacktrace, hlink, hsearch, hdel, hadd, Option.bind_eq_bind, Option.bind_some]
  · rcases hcases with ⟨hmem, -, hrest⟩ | ⟨hmem, -, hunused, hrest⟩ | ⟨hmem, -, hunused, hrest⟩
    · rw [hrest, slotIds_hit hmem]
    · rw [hrest, slotIds_unused hmem hunused]
    · rw [hrest, slotIds_full hmem hunused]

/-- What is destroyed by a call has not been destroyed before. -/
theorem destroyed_iff {create : UnwindCall → Prop} {destroy : Nat → UnwindCall}
    {s s' : ThreadSpaces} {handle : ThreadSpace → Nat} {i : Fin spaceMax} {thread : Pid}
    (hlog : Accounted create destroy s.log (s.held handle))
    (hmem : ∀ h, destroy h ∈ s'.log ↔ destroy h ∈ s.log ∨
      ((s.spaces i).threadId ≠ 0 ∧ (s.spaces i).threadId ≠ thread) ∧ handle (s.spaces i) = h)
    (hevicted : ∀ k, Evicted s s' k ↔
      k = i ∧ (s.spaces i).threadId ≠ 0 ∧ (s.spaces i).threadId ≠ thread) (h : Nat) :
    destroy h ∈ s'.log ∧ destroy h ∉ s.log ↔ ∃ k, Evicted s s' k ∧ handle (s.spaces k) = h := by
  simp only [hevicted]
  rw [hmem]
  constructor
  · rintro ⟨hold | ⟨hused, rfl⟩, hnot⟩
    · exact absurd hold hnot
    · exact ⟨i, ⟨rfl, hused⟩, rfl⟩
  · rintro ⟨k, ⟨rfl, hused⟩, rfl⟩
    refine ⟨Or.inr ⟨hused, rfl⟩, ?_⟩
    have hheld : s.held handle k = some (handle (s.spaces k)) := held_eq_some hused.1
    obtain ⟨e, he, hcreate⟩ := hlog.created k _ hheld
    intro hdestroyed
    exact (hlog.alive _ e he hcreate).mp hdestroyed k hheld

/-- **One call.** -/
theorem SpacesReady.step {threads : List Pid} {s : ThreadSpaces} (h : SpacesReady threads s)
    (hthreads : ∀ t ∈ threads, t ≠ 0) {call : BacktraceCall} (hcall : call.thread ≠ 0) :
    ∃ s' ips, ptrBacktrace s call = some (s', ips) ∧
      SpacesExact (threads ++ [call.thread]) s' ∧ CallExact call.thread s s' := by
  obtain ⟨i, rest, links, hres, hcircular, hperm, hids⟩ := h.found hthreads call
  refine ⟨_, _, hres, ?_, ?_⟩
  · have hmap : (i :: rest).map (fun j => ((renewSpace s i call.thread).spaces j).threadId) =
        slotIds (threads ++ [call.thread]) := by
      have hi : i ∉ rest := (List.nodup_cons.mp (hperm.nodup_iff.mpr (List.nodup_finRange _))).1
      rw [← hids, List.map_cons, renewSpace_threadId]
      congr 1
      apply List.map_congr_left
      intro j hj
      have hji : j ≠ i := by
        rintro rfl
        exact hi hj
      rw [renewSpace_spaces_of_ne hji]
    constructor
    · exact ⟨i :: rest, hcircular, hperm, hmap⟩
    · intro j k hj hjk
      exact distinct_of_slotIds hperm hmap hj hjk
    · intro j hj
      exact (renew_owned h.owned i call.thread j hj).concat _
    · apply (renew_uspaces h.uspaces i hcall).idle
      · intro hcreate
        cases hcreate
      · intro k heq
        cases heq
    · apply (renew_uptInfos h.uptInfos i hcall).idle
      · rintro ⟨t, ht⟩
        cases ht
      · intro k heq
        cases heq
  · have hevicted : ∀ k, Evicted s _ k ↔ _ := fun k => @evicted_iff s i call.thread
      { renewSpace s i call.thread with
        links := links
        log := (renewSpace s i call.thread).log ++
          [.initRemote ((renewSpace s i call.thread).spaces i).uspace
            ((renewSpace s i call.thread).spaces i).uptInfo] } h.distinct rfl k
    constructor
    · exact ⟨i, renewSpace_threadId, List.getLast?_concat⟩
    · apply destroyed_iff h.uspaces _ hevicted
      intro k
      rw [← mem_renew_uspace]
      simp
    · apply destroyed_iff h.uptInfos _ hevicted
      intro k
      rw [← mem_renew_uptInfo]
      simp
    · intro k hused hkept
      rw [hevicted] at hkept
      by_cases hki : k = i
      · subst hki
        have heq : (s.spaces k).threadId = call.thread := by
          by_contra hne
          exact hkept ⟨rfl, hused, hne⟩
        rw [renewSpace_of_eq heq]
      · exact renewSpace_spaces_of_ne hki

/-! ## Every sequence of calls -/

/-- **Runs.** Before each call the slots are ready. -/
theorem spacesReady_run {calls : List BacktraceCall} (h : ∀ call ∈ calls, call.thread ≠ 0) :
    ∃ s, runBacktraces calls = some s ∧ SpacesReady (calls.map BacktraceCall.thread) s := by
  induction calls using List.reverseRecOn with
  | nil => exact ⟨_, rfl, SpacesReady.initial⟩
  | append_singleton calls call ih =>
      obtain ⟨s, hrun, hready⟩ := ih fun c hc => h c (List.mem_append_left _ hc)
      have hthreads : ∀ t ∈ calls.map BacktraceCall.thread, t ≠ 0 :=
        List.forall_mem_map.mpr fun c hc => h c (List.mem_append_left _ hc)
      have hcall := h call (List.mem_append_right _ List.mem_cons_self)
      obtain ⟨s', ips, hstep, hexact, -⟩ := hready.step hthreads hcall
      refine ⟨s', ?_, ?_⟩
      · rw [runBacktraces, List.foldlM_append]
        rw [runBacktraces] at hrun
        rw [hrun]
        simp [hstep]
      · rw [List.map_append]
        exact hexact.ready

/-- **The unwind spaces are an exact LRU cache**, after every sequence of calls
and in each further call. -/
theorem threadSpaces_lru (calls : List BacktraceCall) (call : BacktraceCall)
    (h : ∀ c ∈ calls ++ [call], c.thread ≠ 0) :
    ∃ s s' ips, runBacktraces calls = some s ∧ ptrBacktrace s call = some (s', ips) ∧
      SpacesExact ((calls ++ [call]).map BacktraceCall.thread) s' ∧
      CallExact call.thread s s' := by
  obtain ⟨s, hrun, hready⟩ := spacesReady_run fun c hc => h c (List.mem_append_left _ hc)
  have hthreads : ∀ t ∈ calls.map BacktraceCall.thread, t ≠ 0 :=
    List.forall_mem_map.mpr fun c hc => h c (List.mem_append_left _ hc)
  have hcall := h call (List.mem_append_right _ List.mem_cons_self)
  obtain ⟨s', ips, hstep, hexact, hcallexact⟩ := hready.step hthreads hcall
  refine ⟨s, s', ips, hrun, hstep, ?_, hcallexact⟩
  rw [List.map_append]
  exact hexact

/-- Eleven threads, one after the other. -/
def elevenThreads : List BacktraceCall :=
  (List.range 11).map fun i => { thread := i + 1, size := 10, ip := 0x1000 }

/-- The second of them once more. -/
def secondAgain : BacktraceCall where
  thread := 2
  size := 10
  ip := 0x1000

/-- The first thread has been evicted, and the second one is still there. -/
theorem threadSpaces_lru_eleven :
    slotIds ((elevenThreads ++ [secondAgain]).map BacktraceCall.thread) =
        [2, 11, 10, 9, 8, 7, 6, 5, 4, 3] ∧
      ∃ s s' ips, runBacktraces elevenThreads = some s ∧
        ptrBacktrace s secondAgain = some (s', ips) ∧
        SpacesExact ((elevenThreads ++ [secondAgain]).map BacktraceCall.thread) s' ∧
        CallExact 2 s s' := by
  refine ⟨by decide, ?_⟩
  apply threadSpaces_lru elevenThreads secondAgain
  decide

end Memleax
