import Memleax.Tracer.Standing

/-!
# The text of the target

On a target whose entries are at least a word apart, the text is the original
one with a trap byte at exactly the breakpoints that stand. The word saved at a
return address may contain trap bytes of other entries; they stand for as long
as the call is tracked, so writing the word back is right (`SavedReturn`).

`PatchInv` follows the text through the requests that are under way: it is
`Patched` after every single write, and when the queue has run empty it fits the
variables of the loop (`Settled`).
-/

namespace Memleax

open Framework

/-! ## The text and the tracked call -/

/-- The text with the breakpoints that stand for the tracked call `k`. -/
structure Settled (orig : Bytes 64) (bps : Breakpoints) (k : Tracked) (c : Code) : Prop
    extends Standing k c where
  patched : c.Patched orig bps
  saved : k.returnAddress ≠ 0 → c.SavedReturn orig bps k.returnAddress k.returnCode

section Code

variable {orig : Bytes 64} {m : Monitor} {c : Code}

/-- The block under `if (return_address != 0)` keeps the text patched. -/
theorem Settled.recover_patched (hk : Hooked orig m.breakpoints)
    (hs : Settled orig m.breakpoints m.tracked c) {writes : List Write}
    (h : m.recover = some writes) :
    Throughout Code.write (Code.Patched orig m.breakpoints) c writes := by
  by_cases hra : m.returnAddress = 0
  · rw [Monitor.recover, if_pos hra] at h
    obtain rfl := Option.some.inj h
    exact hs.patched
  · obtain ⟨api, hbp, -, hret⟩ := hs.busy hra
    rw [Monitor.recover, if_neg hra, show m.bp = _ from hbp, Option.map_some] at h
    obtain rfl := Option.some.inj h
    have hp1 := hs.patched.recoverReturn hret (hs.saved hra)
    have hp2 : Code.Patched orig m.breakpoints (Code.write _ ⟨.resetEntry api, _, _⟩) :=
      hp1.armEntry hk rfl api rfl rfl rfl
    exact ⟨hs.patched, hp1, hp2⟩

/-- The two writes at a function entry, on an idle text. -/
theorem Settled.entry_patched {bps : Breakpoints} (hk : Hooked orig bps) (hp : c.Patched orig bps)
    (harmed : ∀ api, c.entryArmed api = true) (hret : c.returnArmed = none) (api : Api)
    {returnAddress : Word} (hra : returnAddress ≠ 0) {k : Tracked} (hbp : k.bp = some api)
    (haddr : k.returnAddress = returnAddress)
    (hcode : k.returnCode = c.returnCode bps api returnAddress) :
    Throughout Code.write (Code.Patched orig bps) c (c.entryWrites bps api returnAddress) ∧
      Settled orig bps k ((c.entryWrites bps api returnAddress).foldl Code.write c) := by
  set c' := c.write ⟨.recoverEntry api, (bps api).entryAddress, (bps api).entryCode⟩ with hc'
  have hp' : c'.Patched orig bps := hp.recoverEntry hk hret
  have hret' : c'.returnArmed = none := hret
  have hp'' := hp'.setReturn hret' returnAddress
  refine ⟨⟨hp, hp', hp''⟩, .entry harmed api hra hbp haddr, hp'', ?_⟩
  intro _
  have hall : c'.armed bps = c'.armedEntries bps := by
    refine Set.ext fun b => or_iff_left fun hb => ?_
    rw [hret'] at hb
    cases hb
  have htext : c'.text = planted orig trapByte (c'.armedEntries bps) := hall ▸ hp'
  rw [Code.SavedReturn, hcode, haddr]
  show ptraceGetData c'.text returnAddress = _
  rw [htext]
  rfl

theorem Settled.of_idle {bps : Breakpoints} {k : Tracked} {c : Code} (hp : c.Patched orig bps)
    (harmed : ∀ api, c.entryArmed api = true) (hret : c.returnArmed = none)
    (hra : k.returnAddress = 0) : Settled orig bps k c :=
  ⟨.of_idle harmed hret hra, hp, fun hne => absurd hra hne⟩

end Code

/-! ## The system -/

structure PatchInv (orig : Bytes 64) (s : System) : Prop where
  hooked : Hooked orig s.monitor.breakpoints
  patches : ∃ writes rest, s.queue = writes.map Request.write ++ rest ∧ NoWrites rest ∧
    Throughout Code.write (Code.Patched orig s.monitor.breakpoints) s.code writes ∧
    Settled orig s.monitor.breakpoints s.monitor.tracked (writes.foldl Code.write s.code)
  known : s.phase = .left .unknownBreakpoint → ∃ a ∈ s.code.returns, orig a = trapByte

structure TextInv (orig : Bytes 64) (s : System) : Prop extends TraceInv s, PatchInv orig s

section Step

variable {orig : Bytes 64} {s s' : System}

/-- A step of the threads alone. -/
theorem PatchInv.congr (h : PatchInv orig s) (hm : s'.monitor.tracked = s.monitor.tracked)
    (hb : s'.monitor.breakpoints = s.monitor.breakpoints) (hc : s'.code = s.code)
    (hq : s'.queue = s.queue) (hp : s'.phase = .left .unknownBreakpoint → s'.phase = s.phase) :
    PatchInv orig s' := by
  refine ⟨hb ▸ h.hooked, ?_, ?_⟩
  · rw [hb, hm, hc, hq]
    exact h.patches
  · intro hphase
    rw [hc]
    exact h.known (hp hphase ▸ hphase)

/-- Between two iterations the text fits the variables of the loop. -/
theorem PatchInv.settled (h : PatchInv orig s) (hq : NoWrites s.queue) :
    Settled orig s.monitor.breakpoints s.monitor.tracked s.code := by
  obtain ⟨writes, rest, hqueue, -, -, hs⟩ := h.patches
  cases writes with
  | nil => exact hs
  | cons w writes =>
      refine absurd ?_ (hq w)
      rw [hqueue]
      exact List.mem_cons_self

theorem PatchInv.issueWrite (h : PatchInv orig s) {w : Write} {queue : List Request}
    (hqueue : s.queue = .write w :: queue) :
    PatchInv orig { s with code := s.code.write w, queue := queue } := by
  refine ⟨h.hooked, ?_, ?_⟩
  · obtain ⟨writes, rest, heq, hrest, hall, hs⟩ := h.patches
    obtain ⟨writes', rfl, hqueue'⟩ := writes_of_head hrest (hqueue.symm.trans heq)
    exact ⟨writes', rest, hqueue', hrest, hall.2, hs⟩
  · intro hphase
    obtain ⟨a, ha, horig⟩ := h.known hphase
    exact ⟨a, s.code.returns_write w a ha, horig⟩

theorem TextInv.patchInv_issueOther (h : TextInv orig s) {r : Request} {queue : List Request}
    (hqueue : s.queue = r :: queue) (hother : ∀ w, r ≠ .write w) :
    PatchInv orig { s with queue := queue } := by
  obtain ⟨hno, hno'⟩ := h.noWrites_of_head hqueue hother
  have hs := h.settled hno
  exact ⟨h.hooked, ⟨[], queue, rfl, hno', hs.patched, hs⟩, h.known⟩

/-- One iteration of the loop keeps the text right. -/
theorem TextInv.patchInv_wait (h : TextInv orig s) {t : Pid} {report : Report} (out : Outside)
    (hpending : s.status t = .pending report) (hwait : s.AtWaitpid) :
    PatchInv orig (s.wait t report out) := by
  have hq : NoWrites s.queue := by
    rw [hwait.2]
    exact noWrites_nil
  have hs := h.settled hq
  have hbps : (s.wait t report out).monitor.breakpoints = s.monitor.breakpoints :=
    (s.monitor.turn_keeps s.code t (s.context t) out report).2
  have hhooked : Hooked orig (s.wait t report out).monitor.breakpoints := by
    rw [hbps]
    exact h.hooked
  have hkind := s.monitor.turn_kind s.code t (s.context t) out report
  cases hkind with
  | quiet htracked hwrites hinvoked hphase =>
      refine ⟨hhooked, ⟨[], _, rfl, hwrites, ?_, ?_⟩, fun hleft => absurd hleft hphase⟩
      · rw [hbps]
        exact hs.patched
      · rw [hbps]
        exact htracked ▸ hs
  | atReturn writes rest api htrap hlast hrecover hbp hrip hrest hrequests htracked hinvoked
      hphase =>
      have hall := hs.recover_patched h.hooked hrecover
      obtain ⟨harmed, hret⟩ := hs.toStanding.recover hrecover
      refine ⟨hhooked, ⟨writes, rest, hrequests, hrest, ?_, ?_⟩, fun hleft => absurd hleft hphase⟩
      · rw [hbps]
        exact hall
      · rw [hbps]
        exact .of_idle hall.last harmed hret (congrArg Tracked.returnAddress htracked)
  | atEntry writes rest api htrap hlast hrecover hrip hentry hrest hrequests htracked hinvoked
      hphase =>
      subst htrap
      have hall := hs.recover_patched h.hooked hrecover
      obtain ⟨harmed, hret⟩ := hs.toStanding.recover hrecover
      have hra : callReturnAddress (s.context t) ≠ 0 :=
        (h.behind t hpending).entry (by rw [hentry]; nofun)
      obtain ⟨hall', hs'⟩ := Settled.entry_patched h.hooked hall.last harmed hret api hra
        (congrArg Tracked.bp htracked) (congrArg Tracked.returnAddress htracked)
        (congrArg Tracked.returnCode htracked)
      refine ⟨hhooked, ⟨_, rest, hrequests, hrest, ?_, ?_⟩, fun hleft => absurd hleft hphase⟩
      · rw [hbps]
        exact hall.append hall'
      · rw [hbps, List.foldl_append]
        exact hs'
  | elsewhere writes rest htrap hlast hrecover hrip hentry hrest hrequests htracked hinvoked
      hphase =>
      subst htrap
      have hra := h.returnAddress_eq_zero hq hpending hlast hrip hentry
      have hall := hs.recover_patched h.hooked hrecover
      obtain ⟨harmed, hret⟩ := hs.toStanding.recover hrecover
      refine ⟨hhooked, ⟨writes, rest, hrequests, hrest, ?_, ?_⟩, ?_⟩
      · rw [hbps]
        exact hall
      · rw [hbps]
        exact .of_idle hall.last harmed hret ((congrArg Tracked.returnAddress htracked).trans hra)
      · intro hleft
        -- the byte of a return address that is no entry is the original one
        rw [Monitor.recover, if_pos hra] at hrecover
        cases hrecover
        have hbyte := (isBreakpoint_iff _ _).mp (hphase hleft)
        refine ⟨_, (h.behind t hpending).place.resolve_left (fun hne => hne hentry), ?_⟩
        rw [← hbyte]
        show _ = s.code.text _
        rw [show s.code.text = _ from hs.patched, planted_of_notMem]
        rw [hs.mem_armed_iff]
        rintro (⟨api, heq, -⟩ | ⟨hne, -⟩)
        · exact breakpointByEntry_eq_none_iff.mp hentry api heq
        · exact hne hra

theorem TextInv.patchInv_step (h : TextInv orig s) {label : Label}
    (hstep : s.step label = some s') : PatchInv orig s' := by
  cases System.step_kind hstep with
  | wait t report out hpending hwait => exact h.patchInv_wait out hpending hwait
  | waitError hwait =>
      refine h.toPatchInv.congr rfl rfl rfl rfl fun hphase => ?_
      cases hphase
  | issueWrite w queue hqueue => exact h.toPatchInv.issueWrite hqueue
  | issueResume t signum queue hqueue =>
      have hissued := h.patchInv_issueOther hqueue nofun
      unfold System.resume
      split
      · exact hissued.congr rfl rfl rfl rfl fun _ => rfl
      · exact hissued
  | issueOther r queue hqueue hother => exact h.patchInv_issueOther hqueue hother
  | _ => exact h.toPatchInv.congr rfl rfl rfl rfl fun _ => rfl

/-- **Every step keeps the text right.** -/
theorem textInv_step (h : TextInv orig s) {label : Label} (hok : s.Traces label)
    (hstep : s.step label = some s') : TextInv orig s' :=
  ⟨traceInv_step h.toTraceInv hok hstep, h.patchInv_step hstep⟩

end Step

section Begin

variable {symtabByName : Api → Word} {text : Bytes 64} {targetPid : Pid} {limits : Limits}
  {others : Pid → Bool} {s₀ s : System}

theorem textInv_begin
    (hbegin : System.begin symtabByName text targetPid limits others = some s₀)
    (hapart : ∀ api other, api ≠ other →
      ¬ Bytes.Within 8 (symtabByName api) (symtabByName other)) :
    TextInv text s₀ ∧ s₀.monitor.breakpoints = hookedBreakpoints symtabByName text := by
  have htrace := traceInv_begin hbegin
  obtain ⟨init, hinit, rfl⟩ := Option.map_eq_some_iff.mp hbegin
  obtain ⟨-, -, hret, harmed⟩ := breakpointInit_armed hinit
  obtain ⟨hbps, hk, hall⟩ := breakpointInit_patched hinit hapart
  have hrest : NoWrites [Request.resume targetPid none] := by simp [NoWrites]
  exact ⟨⟨htrace, hk, ⟨init.writes, _, rfl, hrest, hall, .of_idle hall.last harmed hret rfl⟩,
    fun hphase => by cases hphase⟩, hbps⟩

theorem textInv_reachable
    (hbegin : System.begin symtabByName text targetPid limits others = some s₀)
    (hapart : ∀ api other, api ≠ other →
      ¬ Bytes.Within 8 (symtabByName api) (symtabByName other))
    (hs : Reachable System.step System.Traces s₀ s) :
    TextInv text s ∧ s.monitor.breakpoints = hookedBreakpoints symtabByName text := by
  refine Reachable.invariant
    (fun s => TextInv text s ∧ s.monitor.breakpoints = hookedBreakpoints symtabByName text) hs
    (textInv_begin hbegin hapart) ?_
  rintro s label s' ⟨h, hbps⟩ hok hstep
  exact ⟨textInv_step h hok hstep, (step_breakpoints hstep).trans hbps⟩

/-- The addresses at which a trap byte has to stand while the call `k` is
tracked: every entry but the one of the call, and the return address. -/
def Tracked.traps (k : Tracked) (symtabByName : Api → Word) : Set Word :=
  { a | (∃ api, a = symtabByName api ∧ ¬ (k.returnAddress ≠ 0 ∧ k.bp = some api)) ∨
    (k.returnAddress ≠ 0 ∧ a = k.returnAddress) }

/-- The text, when no write is under way. -/
theorem TextInv.text_eq (h : TextInv text s)
    (hbps : s.monitor.breakpoints = hookedBreakpoints symtabByName text) (hq : NoWrites s.queue) :
    s.code.text = planted text trapByte (s.monitor.tracked.traps symtabByName) := by
  have hsettled := h.settled hq
  rw [show s.code.text = _ from hsettled.patched]
  apply congrArg (planted text trapByte)
  ext a
  rw [hsettled.mem_armed_iff, hbps]
  rfl

end Begin

end Memleax
