import Memleax.Tracer.System

/-!
# The breakpoints that stand

Which breakpoints the loop has set, whatever the threads do and in whatever
order their stops are reported: every entry is armed except the one of the
tracked call, and so is the return address of that call (`Standing`).

The invariant has two parts. `CodeInv` follows the breakpoints through the
requests that are under way; when the queue has run empty they fit the variables
of the loop. `TrapInv` says where a thread with a pending trap has been. The
tracked thread can only trap at a breakpoint that still stands, since no write
is under way while it runs; any other thread may report a return breakpoint that
is gone.

Nothing is said here about the words that the writes move around. They are the
subject of `TextInvariant`, for targets whose entries are at least a word apart.

A call whose return address is `0` is not tracked: `return_address == 0` is how
the loop says that there is no call.
-/

namespace Memleax

open Framework

/-! ## The tracked call -/

/-- The breakpoints that stand for the tracked call `k`. -/
structure Standing (k : Tracked) (c : Code) : Prop where
  idle : k.returnAddress = 0 → (∀ api, c.entryArmed api = true) ∧ c.returnArmed = none
  busy : k.returnAddress ≠ 0 → ∃ api, k.bp = some api ∧
    (∀ other, c.entryArmed other = true ↔ other ≠ api) ∧ c.returnArmed = some k.returnAddress
  trapByte : k.returnAddress ≠ 0 → c.text k.returnAddress = trapByte

section Code

variable {m : Monitor} {c : Code}

/-- The block under `if (return_address != 0)` arms all entries and nothing
else. -/
theorem Standing.recover (hs : Standing m.tracked c) {writes : List Write}
    (h : m.recover = some writes) :
    (∀ api, (writes.foldl Code.write c).entryArmed api = true) ∧
      (writes.foldl Code.write c).returnArmed = none := by
  by_cases hra : m.returnAddress = 0
  · rw [Monitor.recover, if_pos hra] at h
    obtain rfl := Option.some.inj h
    exact hs.idle hra
  · obtain ⟨api, hbp, harmed, hret⟩ := hs.busy hra
    rw [Monitor.recover, if_neg hra, show m.bp = _ from hbp, Option.map_some] at h
    obtain rfl := Option.some.inj h
    refine ⟨?_, rfl⟩
    intro other
    show Function.update c.entryArmed api true other = true
    by_cases heq : other = api
    · rw [heq, Function.update_self]
    · rw [Function.update_of_ne heq]
      exact (harmed other).mpr heq

theorem Standing.of_idle {k : Tracked} (harmed : ∀ api, c.entryArmed api = true)
    (hret : c.returnArmed = none) (hra : k.returnAddress = 0) : Standing k c :=
  ⟨fun _ => ⟨harmed, hret⟩, fun hne => absurd hra hne, fun hne => absurd hra hne⟩

/-- The two writes at a function entry. The trap byte at the return address is
written last. -/
theorem Standing.entry {bps : Breakpoints} (harmed : ∀ api, c.entryArmed api = true) (api : Api)
    {returnAddress : Word} (hra : returnAddress ≠ 0) {k : Tracked} (hbp : k.bp = some api)
    (haddr : k.returnAddress = returnAddress) :
    Standing k ((c.entryWrites bps api returnAddress).foldl Code.write c) := by
  subst haddr
  refine ⟨fun h0 => absurd h0 hra, fun _ => ⟨api, hbp, ?_, rfl⟩, ?_⟩
  · intro other
    show Function.update c.entryArmed api false other = true ↔ other ≠ api
    by_cases heq : other = api
    · simp [heq]
    · simp [heq, harmed other]
  · intro _
    show ptraceSetData _ k.returnAddress (trapCode _) k.returnAddress = Memleax.trapByte
    rw [ptraceSetData, Bytes.writeWord_of_within (Bytes.within_self (by decide) _), BitVec.sub_self]
    exact byteOf_trapCode_zero _

/-- The armed addresses, as the variables of the loop describe them. -/
theorem Standing.mem_armed_iff {bps : Breakpoints} {k : Tracked} (hs : Standing k c)
    {a : Word} :
    a ∈ c.armed bps ↔
      (∃ api, a = (bps api).entryAddress ∧ ¬ (k.returnAddress ≠ 0 ∧ k.bp = some api)) ∨
        (k.returnAddress ≠ 0 ∧ a = k.returnAddress) := by
  by_cases hra : k.returnAddress = 0
  · obtain ⟨harmed, hret⟩ := hs.idle hra
    simp only [Code.armed, Code.armedEntries, Set.mem_ofPred_eq, harmed, hret, hra]
    simp
  · obtain ⟨api, hbp, harmed, hret⟩ := hs.busy hra
    simp only [Code.armed, Code.armedEntries, Set.mem_ofPred_eq, harmed, hret, hbp,
      Option.some_inj]
    refine or_congr (exists_congr ?_) ⟨fun h => ⟨hra, h.symm⟩, fun h => h.2.symm⟩
    intro other
    rw [and_comm]
    refine and_congr_right fun _ => ⟨fun hne h => hne h.2.symm, fun h heq => h ⟨hra, heq.symm⟩⟩

end Code

/-! ## The system -/

/-- The breakpoints through the requests under way, and where the return
breakpoints have been. -/
structure CodeInv (s : System) : Prop where
  entries : ∀ api, (s.monitor.breakpoints api).entryAddress ≠ 0
  flow : ∃ (writes : List Write) (rest : List Request),
    s.queue = writes.map Request.write ++ rest ∧ NoWrites rest ∧
    Standing s.monitor.tracked (writes.foldl Code.write s.code)
  returned : ∀ a, s.code.returnArmed = some a → a ∈ s.code.returns
  nonzero : ∀ a ∈ s.code.returns, a ≠ 0
  sent : ∀ w, Request.write w ∈ s.queue → w.site = .setReturn → w.address ≠ 0

/-- A thread with a pending trap has executed an entry or a return breakpoint. -/
structure TrapAt (s : System) (ctx : Context) : Prop where
  entry : breakpointByEntry s.monitor.breakpoints ctx.regs.rip ≠ none → callReturnAddress ctx ≠ 0
  place : breakpointByEntry s.monitor.breakpoints ctx.regs.rip ≠ none ∨
    ctx.regs.rip ∈ s.code.returns

/-- Where the pending traps are. -/
structure TrapInv (s : System) : Prop where
  behind : ∀ t, s.status t = .pending (.stop .sigtrap false) → TrapAt s (pcUnwind (s.context t))
  caught : s.monitor.returnAddress ≠ 0 →
    s.status s.monitor.lastThread = .pending (.stop .sigtrap false) →
    (pcUnwind (s.context s.monitor.lastThread)).regs.rip ∈ s.code.armed s.monitor.breakpoints
  /-- no write is under way while the tracked thread runs -/
  still : s.monitor.returnAddress ≠ 0 → ¬ NoWrites s.queue →
    s.status s.monitor.lastThread = .stopped ∨ s.status s.monitor.lastThread = .pending .exit

structure TraceInv (s : System) : Prop extends CodeInv s, TrapInv s

/-- The conditions on the target: every `SIGTRAP` comes from a byte that
memleax has armed at that moment, and there are no child processes. -/
def System.TrapsArmed (s : System) : Label → Prop
  | .fetch _ ctx => s.code.text ctx.regs.rip = trapByte →
      ctx.regs.rip ∈ s.code.armed s.monitor.breakpoints
  | .signal _ signum _ => signum ≠ .sigtrap
  | .wait _ out => out.isTask = true
  | _ => True

/-- No hooked function is called with return address `0`. -/
def System.ReturnsNonzero (s : System) : Label → Prop
  | .fetch _ ctx => breakpointByEntry s.monitor.breakpoints ctx.regs.rip ≠ none →
      callReturnAddress ctx ≠ 0
  | _ => True

instance (s : System) : (label : Label) → Decidable (s.TrapsArmed label)
  | .fetch _ _ => inferInstanceAs (Decidable (_ → _))
  | .signal _ _ _ => inferInstanceAs (Decidable (_ ≠ _))
  | .wait _ _ => inferInstanceAs (Decidable (_ = _))
  | .clone _ _ _ | .exit _ | .interrupt _ | .waitFails _ | .issue =>
      inferInstanceAs (Decidable True)

instance (s : System) : (label : Label) → Decidable (s.ReturnsNonzero label)
  | .fetch _ _ => inferInstanceAs (Decidable (_ → _))
  | .signal _ _ _ | .clone _ _ _ | .exit _ | .interrupt _ | .wait _ _ | .waitFails _ | .issue =>
      inferInstanceAs (Decidable True)

/-- A step of a target that the loop is made for. -/
def System.Traces (s : System) (label : Label) : Prop :=
  s.TrapsArmed label ∧ s.ReturnsNonzero label

instance (s : System) (label : Label) : Decidable (s.Traces label) :=
  inferInstanceAs (Decidable (_ ∧ _))

section Step

variable {s s' : System}

theorem CodeInv.congr (h : CodeInv s) (hm : s'.monitor.tracked = s.monitor.tracked)
    (hb : s'.monitor.breakpoints = s.monitor.breakpoints) (hc : s'.code = s.code)
    (hq : s'.queue = s.queue) : CodeInv s' := by
  refine ⟨hb ▸ h.entries, ?_, hc ▸ h.returned, hc ▸ h.nonzero, hq ▸ h.sent⟩
  rw [hm, hc, hq]
  exact h.flow

theorem TrapAt.congr {ctx : Context} (h : TrapAt s ctx)
    (hb : s'.monitor.breakpoints = s.monitor.breakpoints)
    (hc : ∀ a ∈ s.code.returns, a ∈ s'.code.returns) : TrapAt s' ctx := by
  refine ⟨hb ▸ h.entry, ?_⟩
  rw [hb]
  exact h.place.imp_right (hc _)

/-- A step of one thread. The tracked one may not start to run while a write
is under way. -/
theorem TrapInv.setThread (h : TrapInv s) {t : Pid} {thread : Thread}
    (hbehind : thread.status = .pending (.stop .sigtrap false) →
      TrapAt s (pcUnwind thread.context) ∧
        (pcUnwind thread.context).regs.rip ∈ s.code.armed s.monitor.breakpoints)
    (hstill : s.monitor.returnAddress ≠ 0 → ¬ NoWrites s.queue → s.monitor.lastThread = t →
      thread.status = .stopped ∨ thread.status = .pending .exit) :
    TrapInv (s.setThread t thread) := by
  refine ⟨?_, ?_, ?_⟩
  · intro u hu
    by_cases heq : u = t
    · subst heq
      rw [System.status_setThread_self] at hu
      rw [System.context_setThread_self]
      exact (hbehind hu).1.congr rfl fun _ ha => ha
    · rw [System.status_setThread_of_ne _ _ heq] at hu
      rw [System.context_setThread_of_ne _ _ heq]
      exact (h.behind u hu).congr rfl fun _ ha => ha
  · intro hra hu
    have hlast : (s.setThread t thread).monitor.lastThread = s.monitor.lastThread := rfl
    rw [hlast] at hu ⊢
    by_cases heq : s.monitor.lastThread = t
    · rw [heq, System.status_setThread_self] at hu
      rw [heq, System.context_setThread_self]
      exact (hbehind hu).2
    · rw [System.status_setThread_of_ne _ _ heq] at hu
      rw [System.context_setThread_of_ne _ _ heq]
      exact h.caught hra hu
  · intro hra hwrites
    have hlast : (s.setThread t thread).monitor.lastThread = s.monitor.lastThread := rfl
    rw [hlast]
    by_cases heq : s.monitor.lastThread = t
    · rw [heq, System.status_setThread_self]
      exact hstill hra hwrites heq
    · rw [System.status_setThread_of_ne _ _ heq]
      exact h.still hra hwrites

/-- A running thread is not the tracked one of a write under way. -/
theorem TrapInv.setThread_running (h : TrapInv s) {t : Pid} {thread : Thread}
    (hrun : s.status t = .running ∨ s.status t = .unborn)
    (hbehind : thread.status = .pending (.stop .sigtrap false) →
      TrapAt s (pcUnwind thread.context) ∧
        (pcUnwind thread.context).regs.rip ∈ s.code.armed s.monitor.breakpoints) :
    TrapInv (s.setThread t thread) := by
  apply h.setThread hbehind
  intro hra hwrites heq
  have hstill := h.still hra hwrites
  rw [heq] at hstill
  rcases hrun with hrun | hrun <;> rw [hrun] at hstill <;> rcases hstill with h | h <;> cases h

/-- Between two iterations the breakpoints fit the variables of the loop. -/
theorem CodeInv.standing (h : CodeInv s) (hq : NoWrites s.queue) :
    Standing s.monitor.tracked s.code := by
  obtain ⟨writes, rest, hqueue, -, hs⟩ := h.flow
  cases writes with
  | nil => exact hs
  | cons w writes =>
      refine absurd ?_ (hq w)
      rw [hqueue]
      exact List.mem_cons_self

theorem Code.returns_write (c : Code) (w : Write) : ∀ a ∈ c.returns, a ∈ (c.write w).returns := by
  intro a ha
  simp only [Code.write]
  split
  · exact List.mem_cons_of_mem _ ha
  · exact ha

theorem writes_of_head {writes : List Write} {w : Write} {rest queue : List Request}
    (hrest : NoWrites rest)
    (h : .write w :: queue = writes.map Request.write ++ rest) :
    ∃ writes', writes = w :: writes' ∧ queue = writes'.map Request.write ++ rest := by
  cases writes with
  | nil =>
      refine absurd ?_ (hrest w)
      rw [show rest = .write w :: queue from h.symm]
      exact List.mem_cons_self
  | cons w' writes =>
      obtain ⟨hw, hqueue⟩ := List.cons.inj h
      cases hw
      exact ⟨writes, rfl, hqueue⟩

theorem noWrites_of_other {writes : List Write} {r : Request} {rest queue : List Request}
    (hrest : NoWrites rest) (h : r :: queue = writes.map Request.write ++ rest)
    (hother : ∀ w, r ≠ .write w) : NoWrites (r :: queue) ∧ NoWrites queue := by
  have hno : NoWrites (r :: queue) := by
    cases writes with
    | nil =>
        rw [h]
        exact hrest
    | cons w writes =>
        obtain ⟨hr, -⟩ := List.cons.inj h
        exact absurd hr (hother w)
  exact ⟨hno, fun w hw => hno w (List.mem_cons_of_mem _ hw)⟩

theorem CodeInv.issueWrite (h : CodeInv s) {w : Write} {queue : List Request}
    (hqueue : s.queue = .write w :: queue) :
    CodeInv { s with code := s.code.write w, queue := queue } := by
  have hsent : w.site = .setReturn → w.address ≠ 0 :=
    h.sent w (by rw [hqueue]; exact List.mem_cons_self)
  refine ⟨h.entries, ?_, ?_, ?_, ?_⟩
  · obtain ⟨writes, rest, heq, hrest, hs⟩ := h.flow
    obtain ⟨writes', rfl, hqueue'⟩ := writes_of_head hrest (hqueue.symm.trans heq)
    exact ⟨writes', rest, hqueue', hrest, hs⟩
  · intro a ha
    simp only [Code.write] at ha ⊢
    split at ha
    · cases ha
    · rename_i hsite
      rw [if_pos hsite]
      exact List.mem_cons.mpr (Or.inl (Option.some.inj ha).symm)
    all_goals
      rename_i hsite
      rw [if_neg fun hset => by cases hsite.symm.trans hset]
      exact h.returned a ha
  · intro a ha
    simp only [Code.write] at ha
    split at ha
    · rename_i hsite
      rcases List.mem_cons.mp ha with rfl | ha
      · exact hsent hsite
      · exact h.nonzero a ha
    · exact h.nonzero a ha
  · intro w' hw'
    exact h.sent w' (by rw [hqueue]; exact List.mem_cons_of_mem _ hw')

/-- A request that is no write leaves nothing but requests that are no writes. -/
theorem CodeInv.noWrites_of_head (h : CodeInv s) {r : Request} {queue : List Request}
    (hqueue : s.queue = r :: queue) (hother : ∀ w, r ≠ .write w) :
    NoWrites s.queue ∧ NoWrites queue := by
  obtain ⟨writes, rest, heq, hrest, -⟩ := h.flow
  rw [hqueue]
  exact noWrites_of_other hrest (hqueue.symm.trans heq) hother

theorem CodeInv.issueOther (h : CodeInv s) {r : Request} {queue : List Request}
    (hqueue : s.queue = r :: queue) (hother : ∀ w, r ≠ .write w) :
    CodeInv { s with queue := queue } := by
  obtain ⟨hno, hno'⟩ := h.noWrites_of_head hqueue hother
  exact ⟨h.entries, ⟨[], queue, rfl, hno', h.standing hno⟩, h.returned, h.nonzero,
    fun w hw => absurd hw (hno' w)⟩

/-- The block under `if (return_address != 0)` sets no return breakpoint. -/
theorem Monitor.recover_site {m : Monitor} {writes : List Write} (h : m.recover = some writes) :
    ∀ w ∈ writes, w.site ≠ .setReturn := by
  unfold Monitor.recover at h
  split at h
  · cases h
    simp
  · obtain ⟨api, -, rfl⟩ := Option.map_eq_some_iff.mp h
    simp

theorem noWrites_map_iff {writes : List Write} {rest : List Request} (hrest : NoWrites rest)
    {w : Write} : Request.write w ∈ writes.map Request.write ++ rest ↔ w ∈ writes := by
  rw [List.mem_append, or_iff_left (hrest w)]
  simp

/-- No trap is at address `0`. -/
theorem TraceInv.rip_ne_zero (h : TraceInv s) {ctx : Context} (hat : TrapAt s ctx) :
    ctx.regs.rip ≠ 0 := by
  rcases hat.place with hentry | hret
  · obtain ⟨api, hapi⟩ := Option.ne_none_iff_exists'.mp hentry
    rw [eq_of_breakpointByEntry hapi]
    exact h.entries api
  · exact h.nonzero _ hret

/-- A trap of the tracked thread is at its return address or at an entry. -/
theorem TraceInv.returnAddress_eq_zero (h : TraceInv s) {t : Pid} (hq : NoWrites s.queue)
    (hpending : s.status t = .pending (.stop .sigtrap false))
    (hlast : s.monitor.returnAddress ≠ 0 → s.monitor.lastThread = t)
    (hrip : (pcUnwind (s.context t)).regs.rip ≠ s.monitor.returnAddress)
    (hentry : breakpointByEntry s.monitor.breakpoints (pcUnwind (s.context t)).regs.rip = none) :
    s.monitor.returnAddress = 0 := by
  by_contra hra
  have hcaught := h.caught hra (by rw [hlast hra]; exact hpending)
  rw [hlast hra, (h.standing hq).mem_armed_iff] at hcaught
  rcases hcaught with ⟨api, heq, -⟩ | ⟨-, heq⟩
  · exact breakpointByEntry_eq_none_iff.mp hentry api heq
  · exact hrip heq

theorem TraceInv.codeInv_wait (h : TraceInv s) {t : Pid} {report : Report} (out : Outside)
    (hpending : s.status t = .pending report) (hwait : s.AtWaitpid) :
    CodeInv (s.wait t report out) := by
  have hq : NoWrites s.queue := by
    rw [hwait.2]
    exact noWrites_nil
  have hs := h.standing hq
  have hentries : ∀ api, ((s.wait t report out).monitor.breakpoints api).entryAddress ≠ 0 := by
    rw [show (s.wait t report out).monitor.breakpoints = _ from
      (s.monitor.turn_keeps s.code t (s.context t) out report).2]
    exact h.entries
  have hkind := s.monitor.turn_kind s.code t (s.context t) out report
  cases hkind with
  | quiet htracked hwrites hinvoked hphase =>
      exact ⟨hentries, ⟨[], _, rfl, hwrites, htracked ▸ hs⟩, h.returned, h.nonzero,
        fun w hw => absurd hw (hwrites w)⟩
  | atReturn writes rest api htrap hlast hrecover hbp hrip hrest hrequests htracked hinvoked
      hphase =>
      obtain ⟨harmed, hret⟩ := hs.recover hrecover
      refine ⟨hentries, ⟨writes, rest, hrequests, hrest, ?_⟩, h.returned, h.nonzero,
        fun w hw hsite => ?_⟩
      · exact .of_idle harmed hret (congrArg Tracked.returnAddress htracked)
      · rw [show (s.wait t _ out).queue = _ from hrequests] at hw
        exact absurd hsite (Monitor.recover_site hrecover w ((noWrites_map_iff hrest).mp hw))
  | atEntry writes rest api htrap hlast hrecover hrip hentry hrest hrequests htracked hinvoked
      hphase =>
      subst htrap
      obtain ⟨harmed, -⟩ := hs.recover hrecover
      have hra : callReturnAddress (s.context t) ≠ 0 :=
        (h.behind t hpending).entry (by rw [hentry]; nofun)
      -- the recovering writes first, then the two of the new call
      refine ⟨hentries, ⟨_, rest, hrequests, hrest, ?_⟩, h.returned, h.nonzero,
        fun w hw hsite => ?_⟩
      · rw [List.foldl_append]
        exact .entry harmed api hra (congrArg Tracked.bp htracked)
          (congrArg Tracked.returnAddress htracked)
      · rw [show (s.wait t _ out).queue = _ from hrequests] at hw
        rcases List.mem_append.mp ((noWrites_map_iff hrest).mp hw) with hw | hw
        · exact absurd hsite (Monitor.recover_site hrecover w hw)
        · simp only [Code.entryWrites, List.mem_cons, List.not_mem_nil, or_false] at hw
          rcases hw with rfl | rfl
          · cases hsite
          · exact hra
  | elsewhere writes rest htrap hlast hrecover hrip hentry hrest hrequests htracked hinvoked
      hphase =>
      subst htrap
      have hra := h.returnAddress_eq_zero hq hpending hlast hrip hentry
      obtain ⟨harmed, hret⟩ := hs.recover hrecover
      refine ⟨hentries, ⟨writes, rest, hrequests, hrest, ?_⟩, h.returned, h.nonzero,
        fun w hw hsite => ?_⟩
      · exact .of_idle harmed hret ((congrArg Tracked.returnAddress htracked).trans hra)
      · rw [show (s.wait t _ out).queue = _ from hrequests] at hw
        exact absurd hsite (Monitor.recover_site hrecover w ((noWrites_map_iff hrest).mp hw))

theorem TraceInv.trapInv_wait (h : TraceInv s) {t : Pid} {report : Report} (out : Outside)
    (hpending : s.status t = .pending report) (hwait : s.AtWaitpid) :
    TrapInv (s.wait t report out) := by
  have hq : NoWrites s.queue := by
    rw [hwait.2]
    exact noWrites_nil
  have hbps : (s.wait t report out).monitor.breakpoints = s.monitor.breakpoints :=
    (s.monitor.turn_keeps s.code t (s.context t) out report).2
  have hbehind : ∀ u, (s.wait t report out).status u = .pending (.stop .sigtrap false) →
      TrapAt (s.wait t report out) (pcUnwind ((s.wait t report out).context u)) := by
    intro u hu
    by_cases heq : u = t
    · subst heq
      exact absurd hu (s.not_pending_wait_self u report _ out)
    · rw [s.status_wait_of_ne report out heq] at hu
      rw [s.context_wait_of_ne report out heq]
      exact (h.behind u hu).congr hbps fun _ ha => ha
  -- the tracked call is the old one, none, or the one of the reported thread
  have hkind := s.monitor.turn_kind s.code t (s.context t) out report
  cases hkind with
  | quiet htracked hwrites hinvoked hphase =>
      have hlast : (s.wait t report out).monitor.lastThread = s.monitor.lastThread :=
        congrArg Tracked.lastThread htracked
      have hra : (s.wait t report out).monitor.returnAddress = s.monitor.returnAddress :=
        congrArg Tracked.returnAddress htracked
      refine ⟨hbehind, ?_, fun _ hno => absurd hwrites hno⟩
      intro hne hu
      rw [hlast] at hu ⊢
      by_cases heq : s.monitor.lastThread = t
      · rw [heq] at hu
        exact absurd hu (s.not_pending_wait_self t report _ out)
      · rw [s.status_wait_of_ne report out heq] at hu
        rw [s.context_wait_of_ne report out heq, hbps]
        exact h.caught (hra ▸ hne) hu
  | atReturn writes rest api htrap hlast hrecover hbp hrip hrest hrequests htracked hinvoked
      hphase =>
      have hra : (s.wait t report out).monitor.returnAddress = 0 :=
        congrArg Tracked.returnAddress htracked
      exact ⟨hbehind, fun hne => absurd hra hne, fun hne => absurd hra hne⟩
  | atEntry writes rest api htrap hlast hrecover hrip hentry hrest hrequests htracked hinvoked
      hphase =>
      have hlast : (s.wait t report out).monitor.lastThread = t :=
        congrArg Tracked.lastThread htracked
      -- the reported thread is the tracked one now, and it is stopped
      refine ⟨hbehind, ?_, fun _ _ => Or.inl ?_⟩
      · intro _ hu
        rw [hlast] at hu
        exact absurd hu (s.not_pending_wait_self t report _ out)
      · rw [hlast, s.status_wait_self, htrap]
        rfl
  | elsewhere writes rest htrap hlast hrecover hrip hentry hrest hrequests htracked hinvoked
      hphase =>
      subst htrap
      have hra : (s.wait t _ out).monitor.returnAddress = 0 :=
        (congrArg Tracked.returnAddress htracked).trans
          (h.returnAddress_eq_zero hq hpending hlast hrip hentry)
      exact ⟨hbehind, fun hne => absurd hra hne, fun hne => absurd hra hne⟩

theorem TraceInv.issueWrite (h : TraceInv s) {w : Write} {queue : List Request}
    (hqueue : s.queue = .write w :: queue) :
    TraceInv { s with code := s.code.write w, queue := queue } := by
  have hwrites : ¬ NoWrites s.queue := fun hno => hno w (by rw [hqueue]; exact List.mem_cons_self)
  refine ⟨h.toCodeInv.issueWrite hqueue, ?_, ?_, ?_⟩
  · intro u hu
    exact (h.behind u hu).congr rfl (s.code.returns_write w)
  · intro hra hu
    -- the tracked thread is stopped during a write
    rcases h.still hra hwrites with hst | hst
    · cases hst.symm.trans hu
    · cases hst.symm.trans hu
  · intro hra _
    exact h.still hra hwrites

theorem TraceInv.issueOther (h : TraceInv s) {r : Request} {queue : List Request}
    (hqueue : s.queue = r :: queue) (hother : ∀ w, r ≠ .write w) :
    TraceInv { s with queue := queue } := by
  refine ⟨h.toCodeInv.issueOther hqueue hother, ?_, h.caught, ?_⟩
  · intro u hu
    exact (h.behind u hu).congr rfl fun _ ha => ha
  · intro _ hwrites
    exact absurd (h.noWrites_of_head hqueue hother).2 hwrites

theorem TraceInv.resume (h : TraceInv s) (hno : NoWrites s.queue) (t : Pid) :
    TraceInv (s.resume t) := by
  unfold System.resume
  split
  · exact ⟨h.toCodeInv.congr rfl rfl rfl rfl,
      h.toTrapInv.setThread (fun hst => by cases hst) fun _ hwrites => absurd hno hwrites⟩
  · exact h

/-- **Every step keeps the invariant.** -/
theorem traceInv_step (h : TraceInv s) {label : Label} (hok : s.Traces label)
    (hstep : s.step label = some s') : TraceInv s' := by
  cases System.step_kind hstep with
  | trap t ctx hrun hbyte =>
      have harmed := hok.1 hbyte
      refine ⟨h.toCodeInv.congr rfl rfl rfl rfl,
        h.toTrapInv.setThread_running (Or.inl hrun) fun _ => ?_⟩
      rw [pcUnwind_trapped]
      refine ⟨⟨hok.2, ?_⟩, harmed⟩
      rcases harmed with ⟨api, -, heq⟩ | hret
      · exact Or.inl fun hnone => breakpointByEntry_eq_none_iff.mp hnone api heq
      · exact Or.inr (h.returned _ hret)
  | execute t ctx hrun hbyte => exact h
  | signal t signum ctx hrun =>
      refine ⟨h.toCodeInv.congr rfl rfl rfl rfl,
        h.toTrapInv.setThread_running (Or.inl hrun) fun hst => ?_⟩
      cases hst
      exact absurd rfl hok.1
  | clone t child ctx hrun hchild =>
      have hne : child ≠ t := by
        rintro rfl
        cases hrun.symm.trans hchild
      refine ⟨h.toCodeInv.congr rfl rfl rfl rfl, ?_⟩
      have hparent : TrapInv (s.setThread t ⟨.pending (.stop .sigtrap true), ctx⟩) :=
        h.toTrapInv.setThread_running (Or.inl hrun) nofun
      refine hparent.setThread_running (Or.inr ?_) nofun
      rw [System.status_setThread_of_ne _ _ hne]
      exact hchild
  | exit t hborn =>
      exact ⟨h.toCodeInv.congr rfl rfl rfl rfl,
        h.toTrapInv.setThread nofun fun _ _ _ => Or.inr rfl⟩
  | interrupt signum =>
      exact ⟨h.toCodeInv.congr rfl rfl rfl rfl,
        fun u hu => (h.behind u hu).congr rfl fun _ ha => ha, h.caught, h.still⟩
  | wait t report out hpending hwait =>
      exact ⟨h.codeInv_wait out hpending hwait, h.trapInv_wait out hpending hwait⟩
  | waitAgain hwait => exact h
  | waitError hwait =>
      exact ⟨h.toCodeInv.congr rfl rfl rfl rfl,
        fun u hu => (h.behind u hu).congr rfl fun _ ha => ha, h.caught, h.still⟩
  | issueWrite w queue hqueue => exact h.issueWrite hqueue
  | issueResume t signum queue hqueue =>
      exact (h.issueOther hqueue nofun).resume (h.noWrites_of_head hqueue nofun).2 t
  | issueOther r queue hqueue hother => exact h.issueOther hqueue hother

/-- `g_breakpoints` is filled once. -/
theorem step_breakpoints {label : Label} (hstep : s.step label = some s') :
    s'.monitor.breakpoints = s.monitor.breakpoints := by
  cases System.step_kind hstep with
  | wait t report out hpending hwait =>
      exact (s.monitor.turn_keeps s.code t (s.context t) out report).2
  | issueResume t signum queue hqueue =>
      unfold System.resume
      split <;> rfl
  | _ => rfl

end Step

section Begin

variable {symtabByName : Api → Word} {text : Bytes 64} {targetPid : Pid} {limits : Limits}
  {others : Pid → Bool} {s₀ s : System}

theorem traceInv_begin
    (hbegin : System.begin symtabByName text targetPid limits others = some s₀) :
    TraceInv s₀ := by
  have hpending := System.not_pending_begin hbegin
  obtain ⟨init, hinit, rfl⟩ := Option.map_eq_some_iff.mp hbegin
  obtain ⟨hentries, hsites, hret, harmed⟩ := breakpointInit_armed hinit
  have hrest : NoWrites [Request.resume targetPid none] := by simp [NoWrites]
  refine ⟨⟨fun api => ?_, ⟨init.writes, _, rfl, hrest, .of_idle harmed hret rfl⟩, fun a ha => ?_,
    fun a ha => ?_, fun w hw hsite => ?_⟩, fun t ht => absurd ht (hpending t _),
    fun hra => absurd rfl hra, fun hra => absurd rfl hra⟩
  · rw [(hentries api).1]
    exact (hentries api).2
  · cases ha
  · cases ha
  · exact absurd hsite (hsites w ((noWrites_map_iff hrest).mp hw))

/-- The runs of a target that the loop is made for. -/
theorem traceInv_reachable
    (hbegin : System.begin symtabByName text targetPid limits others = some s₀)
    (hs : Reachable System.step System.Traces s₀ s) : TraceInv s :=
  Reachable.invariant TraceInv hs (traceInv_begin hbegin)
    fun _ _ _ h hok hstep => traceInv_step h hok hstep

end Begin

end Memleax
