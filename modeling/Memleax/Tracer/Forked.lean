import Memleax.Tracer.Children
import Memleax.Tracer.Ending

/-!
# Children with a copy of the memory

The copy that `fork` makes holds the breakpoints that stand at that moment. The
loop cleans up the entries of the child and detaches it, but it does not know of
the return breakpoint in the copy; and when `g_signo` says `SIGALRM` it takes the
first stop of the child for its own timer and keeps the child traced.

The text of the target is the original one, but for trap bytes at entries and at
the return breakpoint (`Code.Sown`). That holds whatever traps the loop processes
and whatever child processes have been cleaned up in the memory of the target, and
it is what the copy is made of. `ForkInv` follows each copy from the fork to the
detachment.
-/

namespace Memleax

open Framework

/-! ## The text that is copied -/

/-- The places where a trap byte may stand. -/
def Code.sites (c : Code) (bps : Breakpoints) : Set Word :=
  { a | (∃ api, a = (bps api).entryAddress) ∨ c.returnArmed = some a }

/-- The text is the original one, but for trap bytes at some of these places. -/
def Code.Sown (orig : Bytes 64) (bps : Breakpoints) (c : Code) : Prop :=
  Framework.Sown orig trapByte (c.sites bps) c.text

/-- The loop knows of the return breakpoint, and its saved word has no other trap
bytes than those of entries. -/
structure Tied (orig : Bytes 64) (bps : Breakpoints) (k : Tracked) (c : Code) : Prop where
  known : ∀ a, c.returnArmed = some a → a = k.returnAddress ∧ a ≠ 0
  saved : k.returnAddress ≠ 0 → ∃ m,
    Framework.Sown orig trapByte { a | ∃ api, a = (bps api).entryAddress } m ∧
      k.returnCode = ptraceGetData m k.returnAddress

section Code

variable {orig : Bytes 64} {bps : Breakpoints} {c : Code} {k : Tracked}

theorem Tied.of_none (hret : c.returnArmed = none)
    (hsaved : k.returnAddress ≠ 0 → ∃ m,
      Framework.Sown orig trapByte { a | ∃ api, a = (bps api).entryAddress } m ∧
        k.returnCode = ptraceGetData m k.returnAddress) : Tied orig bps k c := by
  refine ⟨?_, hsaved⟩
  intro a ha
  rw [hret] at ha
  cases ha

theorem Code.sites_of_none (hret : c.returnArmed = none) :
    c.sites bps = { a | ∃ api, a = (bps api).entryAddress } := by
  ext a
  refine or_iff_left ?_
  rw [hret]
  simp

theorem Code.Patched.sown (h : c.Patched orig bps) : c.Sown orig bps := by
  intro b
  rw [show c.text = _ from h]
  by_cases hb : b ∈ c.armed bps
  · refine Or.inr ⟨?_, planted_of_mem hb⟩
    exact hb.imp_left fun ⟨api, _, heq⟩ => ⟨api, heq⟩
  · exact Or.inl (planted_of_notMem hb)

theorem Code.Sown.writeEntry (hk : Hooked orig bps) (hs : c.Sown orig bps) (api : Api) :
    Framework.Sown orig trapByte (c.sites bps)
      (ptraceSetData c.text (bps api).entryAddress (bps api).entryCode) := by
  rw [hk.code api]
  exact Sown.restore hs (Sown.refl orig trapByte ∅) (fun _ _ hb => hb.elim) fun _ _ hb => hb

theorem Code.Sown.resetEntry (hk : Hooked orig bps) (hs : c.Sown orig bps) (api : Api) :
    (c.write ⟨.resetEntry api, (bps api).entryAddress, trapCode (bps api).entryCode⟩).Sown
      orig bps := by
  show Framework.Sown orig trapByte (c.sites bps) (Bytes.writeWord c.text _ _)
  refine Sown.arm hs (Sown.refl orig trapByte ∅) (byteOf_trapCode_zero _) ?_
    (Or.inl ⟨api, rfl⟩) (fun _ _ hb => hb.elim) fun _ _ hb => hb
  intro j hj0 hj8
  rw [byteOf_trapCode_of_pos _ hj0 hj8, hk.code api]
  rfl

theorem Code.Sown.recoverReturn (hs : c.Sown orig bps) (ht : Tied orig bps k c)
    (hra : k.returnAddress ≠ 0) :
    (c.write ⟨.recoverReturn, k.returnAddress, k.returnCode⟩).Sown orig bps := by
  obtain ⟨m, hm, hcode⟩ := ht.saved hra
  show Framework.Sown orig trapByte _ (ptraceSetData c.text k.returnAddress k.returnCode)
  rw [hcode]
  refine Sown.restore hs hm (fun b _ hb => Or.inl hb) ?_
  intro b hw hb
  rcases hb with hb | hb
  · exact Or.inl hb
  · refine absurd ?_ hw
    rw [(ht.known b hb).1]
    exact Bytes.within_self (by decide) _

theorem Code.Sown.setReturn (hs : c.Sown orig bps) (hret : c.returnArmed = none)
    (address : Word) :
    (c.write ⟨.setReturn, address, trapCode (ptraceGetData c.text address)⟩).Sown orig bps := by
  have hs : Framework.Sown orig trapByte { a | ∃ api, a = (bps api).entryAddress } c.text := by
    rw [← Code.sites_of_none hret]
    exact hs
  show Framework.Sown orig trapByte _ (Bytes.writeWord c.text _ _)
  exact Sown.arm hs hs (byteOf_trapCode_zero _)
    (fun j hj0 hj8 => byteOf_trapCode_of_pos _ hj0 hj8) (Or.inr rfl)
    (fun b _ hb => Or.inl hb) fun b _ hb => Or.inl hb

/-- The block under `if (return_address != 0)`. -/
theorem Code.Sown.recover {m : Monitor} (hk : Hooked orig m.breakpoints)
    (hs : c.Sown orig m.breakpoints) (ht : Tied orig m.breakpoints m.tracked c)
    {writes : List Write} (h : m.recover = some writes) :
    Throughout Code.write (Code.Sown orig m.breakpoints) c writes ∧
      (writes.foldl Code.write c).returnArmed = none := by
  by_cases hra : m.returnAddress = 0
  · rw [Monitor.recover, if_pos hra] at h
    obtain rfl := Option.some.inj h
    refine ⟨hs, ?_⟩
    cases hret : c.returnArmed with
    | none => exact hret
    | some a =>
        obtain ⟨rfl, hne⟩ := ht.known a hret
        exact absurd hra hne
  · rw [Monitor.recover, if_neg hra] at h
    obtain ⟨api, -, rfl⟩ := Option.map_eq_some_iff.mp h
    have hs1 := hs.recoverReturn ht hra
    exact ⟨⟨hs, hs1, hs1.resetEntry hk api⟩, rfl⟩

theorem Code.Sown.entry (hk : Hooked orig bps) (hs : c.Sown orig bps)
    (hret : c.returnArmed = none) (api : Api) {returnAddress : Word} (hra : returnAddress ≠ 0)
    (haddr : k.returnAddress = returnAddress)
    (hcode : k.returnCode = c.returnCode bps api returnAddress) :
    Throughout Code.write (Code.Sown orig bps) c (c.entryWrites bps api returnAddress) ∧
      Tied orig bps k ((c.entryWrites bps api returnAddress).foldl Code.write c) := by
  set c' := c.write ⟨.recoverEntry api, (bps api).entryAddress, (bps api).entryCode⟩ with hc'
  have hs' : c'.Sown orig bps := hs.writeEntry hk api
  have hret' : c'.returnArmed = none := hret
  refine ⟨⟨hs, hs', hs'.setReturn hret' returnAddress⟩, ?_, ?_⟩
  · intro a ha
    cases ha
    exact ⟨haddr.symm, hra⟩
  · intro _
    refine ⟨c'.text, ?_, ?_⟩
    · rw [← Code.sites_of_none hret']
      exact hs'
    · rw [hcode, haddr]
      rfl

end Code

/-- Writing the original words back, entry by entry. -/
theorem cleanup_fold {orig : Bytes 64} {bps : Breakpoints} (hk : Hooked orig bps)
    (apis : List Api) (text : Bytes 64)
    (h : ∀ b, text b = orig b ∨ ∃ api ∈ apis, Bytes.Within 8 (bps api).entryAddress b) :
    apis.foldl (fun text api => ptraceSetData text (bps api).entryAddress (bps api).entryCode)
      text = orig := by
  induction apis generalizing text with
  | nil =>
      funext b
      exact (h b).resolve_right (by simp)
  | cons api apis ih =>
      rw [List.foldl_cons]
      apply ih
      intro b
      by_cases hw : Bytes.Within 8 (bps api).entryAddress b
      · refine Or.inl ?_
        rw [ptraceSetData, Bytes.writeWord_of_within hw, hk.code api]
        exact Bytes.byteOf_readWord_sub orig hw
      · rw [ptraceSetData, Bytes.writeWord_of_not_within hw]
        refine (h b).imp_right ?_
        rintro ⟨other, hother, hwithin⟩
        rcases List.mem_cons.mp hother with rfl | hother
        · exact absurd hwithin hw
        · exact ⟨other, hother, hwithin⟩

/-- `breakpoint_cleanup` on a text that differs from the original one near the
entries only. -/
theorem breakpointCleanup_eq {orig : Bytes 64} {bps : Breakpoints} (hk : Hooked orig bps)
    {text : Bytes 64}
    (h : ∀ b, text b = orig b ∨ ∃ api, Bytes.Within 8 (bps api).entryAddress b) :
    breakpointCleanup bps text = orig := by
  apply cleanup_fold hk
  intro b
  refine (h b).imp_right ?_
  rintro ⟨api, hw⟩
  exact ⟨api, api.mem_all, hw⟩

/-- One iteration keeps the text as it is described. -/
theorem Monitor.turn_sown {orig : Bytes 64} {m : Monitor} {c : Code}
    (hk : Hooked orig m.breakpoints) (hs : c.Sown orig m.breakpoints)
    (ht : Tied orig m.breakpoints m.tracked c) (pid : Pid) {report : Report} {ctx : Context}
    (out : Outside)
    (hra : report = .stop .sigtrap false →
      breakpointByEntry m.breakpoints (pcUnwind ctx).regs.rip ≠ none → callReturnAddress ctx ≠ 0) :
    ∃ (writes : List Write) (rest : List Request),
      (m.turn c pid report ctx out).requests = writes.map Request.write ++ rest ∧ NoWrites rest ∧
      Throughout Code.write (Code.Sown orig m.breakpoints) c writes ∧
      Tied orig m.breakpoints (m.turn c pid report ctx out).monitor.tracked
        (writes.foldl Code.write c) := by
  cases m.turn_kind c pid ctx out report with
  | quiet htracked hwrites =>
      refine ⟨[], _, rfl, hwrites, hs, ?_⟩
      rw [htracked]
      exact ht
  | atReturn writes rest api htrap hlast hrecover hbp hrip hrest hrequests htracked =>
      obtain ⟨hall, hret⟩ := hs.recover hk ht hrecover
      refine ⟨writes, rest, hrequests, hrest, hall, .of_none hret ?_⟩
      rw [htracked]
      exact fun hne => absurd rfl hne
  | atEntry writes rest api htrap hlast hrecover hrip hentry hrest hrequests htracked =>
      obtain ⟨hall, hret⟩ := hs.recover hk ht hrecover
      obtain ⟨hall', ht'⟩ := hall.last.entry hk hret api (hra htrap (by rw [hentry]; simp))
        (congrArg Tracked.returnAddress htracked) (congrArg Tracked.returnCode htracked)
      refine ⟨_, rest, hrequests, hrest, hall.append hall', ?_⟩
      rw [List.foldl_append]
      exact ht'
  | elsewhere writes rest htrap hlast hrecover hrip hentry hrest hrequests htracked =>
      obtain ⟨hall, hret⟩ := hs.recover hk ht hrecover
      refine ⟨writes, rest, hrequests, hrest, hall, .of_none hret ?_⟩
      rw [htracked]
      exact ht.saved

/-! ## The copies -/

namespace Family

/-- A thread of the target. -/
def IsTask (s : Family) (t : Pid) : Prop := s.child t = none ∧ s.sys.status t ≠ .unborn

end Family

/-- The copies from the fork to the detachment. -/
structure ForkInv (orig : Bytes 64) (s : Family) : Prop where
  hooked : Hooked orig s.sys.monitor.breakpoints
  flow : ∃ (writes : List Write) (rest : List Request),
    s.sys.queue = writes.map Request.write ++ rest ∧ NoWrites rest ∧
    Throughout Code.write (Code.Sown orig s.sys.monitor.breakpoints) s.sys.code writes ∧
    Tied orig s.sys.monitor.breakpoints s.sys.monitor.tracked
      (writes.foldl Code.write s.sys.code)
  writer : NoWrites s.sys.queue ∨ s.IsTask s.current
  pokes : ∀ pid address data, Request.writeChild pid address data ∈ s.sys.queue →
    ∃ api, address = (s.sys.monitor.breakpoints api).entryAddress ∧
      data = (s.sys.monitor.breakpoints api).entryCode
  detaches : ∀ pid, Request.detach pid ∈ s.sys.queue → s.sys.status pid ≠ .unborn ∧
    ∀ c, s.child pid = some c → c.handled = true
  resumes : Resumes s.IsTask s.sys.queue
  held : ∀ t ∈ s.sys.monitor.holdThreads, s.IsTask t
  /-- a child process that is traced does not run -/
  halted : ∀ t c, s.child t = some c → c.traced = true → s.sys.status t ≠ .running
  reports : ∀ t c report, s.child t = some c → s.sys.status t = .pending report →
    (report = .stop .sigstop false ∧ c.traced = true ∧ c.handled = false) ∨ report = .exit
  unique : ∀ t u i, s.space t = some i → s.space u = some i → t = u
  below : ∀ t i, s.space t = some i → i < s.fresh
  copied : ∀ t c i, s.child t = some c → c.forked = true → c.space = some i →
    c.handled = false → ∀ b, (s.copies i).text b = orig b ∨
      ∃ api, Bytes.Within 8 (s.sys.monitor.breakpoints api).entryAddress b
  cleaned : s.sys.phase = .loop → ∀ t c i, s.child t = some c → c.forked = true →
    c.space = some i → c.handled = true →
    (c.traced = false ∧ (s.copies i).text = orig) ∨
      ∃ pokes : List (Word × Word),
        s.sys.queue = pokes.map (fun poke => .writeChild t poke.1 poke.2) ++ [.detach t] ∧
          pokeAll pokes (s.copies i).text = orig

section Step

variable {orig : Bytes 64} {s s' : Family}

theorem Family.space_eq_some {t : Pid} {i : Nat} (h : s.space t = some i) :
    ∃ c, s.child t = some c ∧ c.space = some i :=
  Option.bind_eq_some_iff.mp h

theorem Family.IsTask.space {t : Pid} (h : s.IsTask t) : s.space t = none := by
  rw [Family.space, h.1]
  rfl

theorem ForkInv.child_eq_none (h : ForkInv orig s) {t : Pid} (hrun : s.sys.status t = .running)
    (htraced : s.traced t = true) : s.child t = none := by
  cases hchild : s.child t with
  | none => rfl
  | some c =>
      rw [Family.traced, hchild] at htraced
      exact absurd hrun (h.halted t c hchild htraced)

/-- Between two iterations nothing is under way. -/
theorem ForkInv.settled (h : ForkInv orig s) (hq : NoWrites s.sys.queue) :
    s.sys.code.Sown orig s.sys.monitor.breakpoints ∧
      Tied orig s.sys.monitor.breakpoints s.sys.monitor.tracked s.sys.code := by
  obtain ⟨writes, rest, hqueue, -, hall, ht⟩ := h.flow
  cases writes with
  | nil => exact ⟨hall, ht⟩
  | cons w writes =>
      refine absurd ?_ (hq w)
      rw [hqueue]
      exact List.mem_cons_self

theorem ForkInv.sown (h : ForkInv orig s) : s.sys.code.Sown orig s.sys.monitor.breakpoints := by
  obtain ⟨writes, rest, -, -, hall, -⟩ := h.flow
  exact hall.head

theorem ForkInv.setThread (h : ForkInv orig s) {t : Pid} {thread : Thread}
    (hborn : thread.status ≠ .unborn)
    (hhalted : ∀ c, s.child t = some c → (c.traced = true → thread.status ≠ .running) ∧
      ∀ report, thread.status = .pending report → report = .exit) :
    ForkInv orig (s.setThread t thread) := by
  have hstatus : ∀ u, (s.setThread t thread).sys.status u =
      if u = t then thread.status else s.sys.status u :=
    s.sys.status_setThread t thread
  have hkeep : ∀ u, s.sys.status u ≠ .unborn → (s.setThread t thread).sys.status u ≠ .unborn :=
    fun u hu => s.sys.born_setThread hborn hu
  have htask : ∀ u, s.IsTask u → (s.setThread t thread).IsTask u :=
    fun u hu => ⟨hu.1, hkeep u hu.2⟩
  refine ⟨h.hooked, h.flow, h.writer.imp_right (htask _), h.pokes, ?_, ?_, ?_, ?_, ?_, h.unique,
    h.below, h.copied, h.cleaned⟩
  · intro pid hpid
    exact ⟨hkeep pid (h.detaches pid hpid).1, (h.detaches pid hpid).2⟩
  · exact fun u signum hu => htask u (h.resumes u signum hu)
  · exact fun u hu => htask u (h.held u hu)
  · intro u c hchild htraced
    rw [hstatus]
    split
    · rename_i heq
      exact (hhalted c (heq ▸ hchild)).1 htraced
    · exact h.halted u c hchild htraced
  · intro u c report hchild hpending
    rw [hstatus] at hpending
    split at hpending
    · rename_i heq
      exact Or.inr ((hhalted c (heq ▸ hchild)).2 report hpending)
    · exact h.reports u c report hchild hpending

/-- The record `c` that a process or thread `u` has got in `s'`. -/
structure NewRecord (orig : Bytes 64) (s s' : Family) (u : Pid) (c : Child) : Prop where
  /-- its memory is a new one, or that of the target -/
  space : ∀ i, c.space = some i → i = s.fresh ∧ i < s'.fresh
  unhandled : c.forked = true → c.handled = false
  copied : c.forked = true → ∀ i, c.space = some i → ∀ b, (s'.copies i).text b = orig b ∨
    ∃ api, Bytes.Within 8 (s.sys.monitor.breakpoints api).entryAddress b
  halted : c.traced = true → s'.sys.status u ≠ .running
  reports : ∀ report, s'.sys.status u = .pending report →
    (report = .stop .sigstop false ∧ c.traced = true ∧ c.handled = false) ∨ report = .exit
  marks : s.sys.status u = .unborn ∨ ∃ c', s.child u = some c' ∧ c'.handled = c.handled

/-- A process or thread `u` that was none of the target's gets a new record. -/
theorem ForkInv.record (h : ForkInv orig s) {u : Pid} (hu : ¬ s.IsTask u)
    (hsys : s'.sys = { s.sys with threads := s'.sys.threads })
    (hcurrent : s'.current = s.current) (hchild : ∀ t, t ≠ u → s'.child t = s.child t)
    (hborn : ∀ t, s.sys.status t ≠ .unborn → s'.sys.status t ≠ .unborn)
    (hothers : ∀ t c, t ≠ u → s.child t = some c → s'.sys.status t = s.sys.status t)
    (hcopies : ∀ i, i < s.fresh → s'.copies i = s.copies i) (hfresh : s.fresh ≤ s'.fresh)
    (hnew : ∀ c, s'.child u = some c → NewRecord orig s s' u c) : ForkInv orig s' := by
  have hmonitor : s'.sys.monitor = s.sys.monitor := by rw [hsys]
  have hcode : s'.sys.code = s.sys.code := by rw [hsys]
  have hqueue : s'.sys.queue = s.sys.queue := by rw [hsys]
  have hphase : s'.sys.phase = s.sys.phase := by rw [hsys]
  have htask : ∀ t, s.IsTask t → s'.IsTask t := by
    intro t ht
    have hne : t ≠ u := by
      rintro rfl
      exact hu ht
    exact ⟨(hchild t hne).trans ht.1, hborn t ht.2⟩
  have hspace : ∀ t, t ≠ u → s'.space t = s.space t :=
    fun t hne => Family.space_congr (hchild t hne)
  have hspace_u : ∀ i, s'.space u = some i → i = s.fresh ∧ i < s'.fresh := by
    intro i hi
    obtain ⟨c, hc, hci⟩ := Family.space_eq_some hi
    exact (hnew c hc).space i hci
  constructor
  case hooked => exact hmonitor ▸ h.hooked
  case flow =>
    rw [hmonitor, hcode, hqueue]
    exact h.flow
  case writer =>
    rw [hqueue, hcurrent]
    exact h.writer.imp_right (htask _)
  case pokes =>
    rw [hmonitor, hqueue]
    exact h.pokes
  case detaches =>
    rw [hqueue]
    intro pid hpid
    obtain ⟨hpidborn, hhandled⟩ := h.detaches pid hpid
    refine ⟨hborn pid hpidborn, ?_⟩
    intro c hc
    by_cases heq : pid = u
    · subst heq
      rcases (hnew c hc).marks with hunborn | ⟨c', hc', hsame⟩
      · exact absurd hunborn hpidborn
      · rw [← hsame]
        exact hhandled c' hc'
    · exact hhandled c ((hchild pid heq).symm.trans hc)
  case resumes =>
    rw [hqueue]
    exact fun t signum ht => htask t (h.resumes t signum ht)
  case held =>
    rw [hmonitor]
    exact fun t ht => htask t (h.held t ht)
  case halted =>
    intro t c hc htraced
    by_cases heq : t = u
    · subst heq
      exact (hnew c hc).halted htraced
    · rw [hchild t heq] at hc
      rw [hothers t c heq hc]
      exact h.halted t c hc htraced
  case reports =>
    intro t c report hc hpending
    by_cases heq : t = u
    · subst heq
      exact (hnew c hc).reports report hpending
    · rw [hchild t heq] at hc
      rw [hothers t c heq hc] at hpending
      exact h.reports t c report hc hpending
  case unique =>
    -- the new copy has a number of its own
    have hother : ∀ t i, t ≠ u → s'.space t = some i → s'.space u = some i → False := by
      intro t i hne ht hui
      rw [hspace t hne] at ht
      have hlt := h.below t i ht
      rw [(hspace_u i hui).1] at hlt
      exact Nat.lt_irrefl _ hlt
    intro t v i ht hv
    by_cases ht' : t = u
    · by_cases hv' : v = u
      · rw [ht', hv']
      · exact (hother v i hv' hv (ht' ▸ ht)).elim
    · by_cases hv' : v = u
      · exact (hother t i ht' ht (hv' ▸ hv)).elim
      · exact h.unique t v i ((hspace t ht').symm.trans ht) ((hspace v hv').symm.trans hv)
  case below =>
    intro t i ht
    by_cases heq : t = u
    · subst heq
      exact (hspace_u i ht).2
    · rw [hspace t heq] at ht
      exact lt_of_lt_of_le (h.below t i ht) hfresh
  case copied =>
    intro t c i hc hforked hi hhandled
    rw [hmonitor]
    by_cases heq : t = u
    · subst heq
      exact (hnew c hc).copied hforked i hi
    · rw [hchild t heq] at hc
      rw [hcopies i (h.below t i ((Family.space_of_child hc).trans hi))]
      exact h.copied t c i hc hforked hi hhandled
  case cleaned =>
    rw [hphase, hqueue]
    intro hloop t c i hc hforked hi hhandled
    by_cases heq : t = u
    · subst heq
      cases ((hnew c hc).unhandled hforked).symm.trans hhandled
    · rw [hchild t heq] at hc
      rw [hcopies i (h.below t i ((Family.space_of_child hc).trans hi))]
      exact h.cleaned hloop t c i hc hforked hi hhandled

theorem ForkInv.create (h : ForkInv orig s) {t u : Pid} {ctx : Context} (ht : s.child t = none)
    (hunborn : s.sys.status u = .unborn) (hsys : s'.sys = (s.created t u ctx).sys)
    (hcurrent : s'.current = s.current) (hchild : ∀ v, v ≠ u → s'.child v = s.child v)
    (hcopies : ∀ i, i < s.fresh → s'.copies i = s.copies i) (hfresh : s.fresh ≤ s'.fresh)
    (hnew : ∀ c, s'.child u = some c →
      (∀ i, c.space = some i → i = s.fresh ∧ i < s'.fresh) ∧ c.traced = true ∧
      c.handled = false ∧ (c.forked = true → ∀ i, c.space = some i → ∀ b,
        (s'.copies i).text b = orig b ∨
          ∃ api, Bytes.Within 8 (s.sys.monitor.breakpoints api).entryAddress b)) :
    ForkInv orig s' := by
  have hstatus : ∀ v, s'.sys.status v = if v = u then .pending (.stop .sigstop false)
      else if v = t then .pending (.stop .sigtrap true) else s.sys.status v := by
    intro v
    rw [hsys]
    exact s.status_created t u ctx v
  refine h.record (u := u) (fun htask => htask.2 hunborn) ?_ hcurrent hchild ?_ ?_ hcopies hfresh ?_
  · rw [hsys]
    rfl
  · intro v hv
    rw [hsys]
    exact s.born_created t u ctx hv
  · intro v c hne hc
    rw [hstatus, if_neg hne, if_neg]
    rintro rfl
    cases ht.symm.trans hc
  · intro c hc
    obtain ⟨hspace, htraced, hhandled, hforked⟩ := hnew c hc
    have hu : s'.sys.status u = .pending (.stop .sigstop false) := by
      rw [hstatus, if_pos rfl]
    refine ⟨hspace, fun _ => hhandled, hforked, ?_, ?_, Or.inl hunborn⟩
    · rw [hu]
      simp
    · intro report hreport
      exact Or.inl ⟨Status.pending.inj (hreport.symm.trans hu), htraced, hhandled⟩

/-- `fork`, while no return breakpoint stands that the clean-up misses. -/
theorem ForkInv.fork (h : ForkInv orig s) {t u : Pid} {ctx : Context} (ht : s.child t = none)
    (hunborn : s.sys.status u = .unborn)
    (hreturn : ∀ a, s.sys.code.returnArmed = some a →
      (∃ api, Bytes.Within 8 (s.sys.monitor.breakpoints api).entryAddress a) ∨ orig a = trapByte) :
    ForkInv orig ((s.created t u ctx).newSpace u { space := none, forked := true }
      (s.codeAt (s.space t))) := by
  have hspace : s.space t = none := by
    rw [Family.space, ht]
    rfl
  refine h.create ht hunborn rfl rfl ?_ ?_ (Nat.le_succ _) ?_
  · exact fun v hne => Function.update_of_ne hne _ _
  · exact fun i hi => Function.update_of_ne (Nat.ne_of_lt hi) _ _
  · intro c hc
    have hc : some _ = some c := (Function.update_self u _ _).symm.trans hc
    cases hc
    refine ⟨?_, rfl, rfl, ?_⟩
    · intro i hi
      obtain rfl := Option.some.inj hi
      exact ⟨rfl, Nat.lt_succ_self _⟩
    · intro _ i hi b
      obtain rfl := Option.some.inj hi
      rw [show ((s.created t u ctx).newSpace u { space := none, forked := true }
        (s.codeAt (s.space t))).copies (s.created t u ctx).fresh = s.codeAt (s.space t) from
          Function.update_self _ _ _, hspace]
      rcases h.sown b with hb | ⟨⟨api, rfl⟩ | hret, hb⟩
      · exact Or.inl hb
      · exact Or.inr ⟨api, Bytes.within_self (by decide) _⟩
      · rcases hreturn b hret with hw | horig
        · exact Or.inr hw
        · exact Or.inl (hb.trans horig.symm)

theorem ForkInv.exec (h : ForkInv orig s) {t : Pid} {ctx : Context} {c : Child} {thread : Thread}
    (hchild : s.child t = some c) (hrun : s.sys.status t = .running)
    (hthread : thread =
      if c.traced then ⟨.pending (.stop .sigtrap false), ctx⟩ else ⟨.running, ctx⟩)
    (text : Bytes 64) :
    ForkInv orig ((s.setThread t thread).newSpace t { c with forked := false }
      { text := text }) := by
  have htraced : c.traced = false := by
    cases htraced : c.traced with
    | false => rfl
    | true => exact absurd hrun (h.halted t c hchild htraced)
  have hthread : thread = ⟨.running, ctx⟩ := by
    rw [hthread, htraced]
    rfl
  have hself : ((s.setThread t thread).newSpace t { c with forked := false }
      { text := text }).sys.status t = .running := by
    rw [hthread]
    exact System.status_setThread_self _ _ _
  refine h.record (u := t) ?_ rfl rfl ?_ ?_ ?_ ?_ (Nat.le_succ _) ?_
  · rintro ⟨hnone, -⟩
    cases hnone.symm.trans hchild
  · exact fun v hne => Function.update_of_ne hne _ _
  · intro v hv
    refine s.sys.born_setThread ?_ hv
    rw [hthread]
    simp
  · exact fun v c' hne _ => System.status_setThread_of_ne _ _ hne
  · exact fun i hi => Function.update_of_ne (Nat.ne_of_lt hi) _ _
  · intro c' hc'
    have hc' : some _ = some c' := (Function.update_self t _ _).symm.trans hc'
    cases hc'
    refine ⟨?_, by simp, by simp, ?_, ?_, Or.inr ⟨c, hchild, rfl⟩⟩
    · intro i hi
      obtain rfl := Option.some.inj hi
      exact ⟨rfl, Nat.lt_succ_self _⟩
    · intro htrue
      cases htraced.symm.trans htrue
    · intro report hreport
      cases hself.symm.trans hreport

/-- One iteration, by what it does to the text and to the threads of the target. -/
theorem ForkInv.wait_of (h : ForkInv orig s) {t : Pid} {report : Report} (out : Outside)
    (hwait : s.sys.AtWaitpid)
    (hflow : ∃ (writes : List Write) (rest : List Request),
      (s.turn t report out).requests = writes.map Request.write ++ rest ∧ NoWrites rest ∧
      Throughout Code.write (Code.Sown orig s.sys.monitor.breakpoints) s.sys.code writes ∧
      Tied orig s.sys.monitor.breakpoints (s.turn t report out).monitor.tracked
        (writes.foldl Code.write s.sys.code))
    (hwriter : NoWrites (s.turn t report out).requests ∨ s.IsTask t)
    (hpokes : ∀ pid address data,
      Request.writeChild pid address data ∈ (s.turn t report out).requests →
      ∃ api, address = (s.sys.monitor.breakpoints api).entryAddress ∧
        data = (s.sys.monitor.breakpoints api).entryCode)
    (hdetaches : ∀ pid, Request.detach pid ∈ (s.turn t report out).requests →
      pid = t ∧ report = .stop .sigstop false)
    (hresumes : Resumes s.IsTask (s.turn t report out).requests)
    (hheld : ∀ u ∈ (s.turn t report out).monitor.holdThreads, s.IsTask u)
    (hself : (s.turn t report out).phase = .loop → ∀ c i, s.child t = some c → c.forked = true →
      c.space = some i → report = .stop .sigstop false → ∃ pokes : List (Word × Word),
        (s.turn t report out).requests =
          pokes.map (fun poke => .writeChild t poke.1 poke.2) ++ [.detach t] ∧
          pokeAll pokes (s.copies i).text = orig) : ForkInv orig (s.wait t report out) := by
  have hbps : (s.wait t report out).sys.monitor.breakpoints = s.sys.monitor.breakpoints :=
    (s.sys.monitor.turn_keeps _ t (s.sys.context t) _ report).2
  have htask : ∀ u, s.IsTask u → (s.wait t report out).IsTask u := fun u hu =>
    ⟨(s.child_wait_eq_none_iff t report out u).mpr hu.1, s.born_wait t report out hu.2⟩
  have hqueue : (s.wait t report out).sys.queue = (s.turn t report out).requests := rfl
  constructor
  case hooked => exact hbps ▸ h.hooked
  case flow =>
    rw [hbps]
    exact hflow
  case writer => exact hwriter.imp_right (htask t)
  case pokes =>
    rw [hbps]
    exact hpokes
  case detaches =>
    intro pid hpid
    obtain ⟨rfl, rfl⟩ := hdetaches pid hpid
    refine ⟨?_, ?_⟩
    · rw [Family.status_wait_self]
      simp
    · intro c hc
      rw [Family.child_wait_self, if_pos rfl] at hc
      obtain ⟨c', -, rfl⟩ := Option.map_eq_some_iff.mp hc
      rfl
  case resumes => exact fun u signum hu => htask u (hresumes u signum hu)
  case held => exact fun u hu => htask u (hheld u hu)
  case halted =>
    intro u c hc htraced
    by_cases heq : u = t
    · rw [heq, Family.status_wait_self]
      split <;> simp
    · rw [Family.child_wait_of_ne _ _ _ heq] at hc
      rw [Family.status_wait_of_ne _ _ _ heq]
      exact h.halted u c hc htraced
  case reports =>
    intro u c r hc hr
    by_cases heq : u = t
    · rw [heq, Family.status_wait_self] at hr
      split at hr <;> cases hr
    · rw [Family.child_wait_of_ne _ _ _ heq] at hc
      rw [Family.status_wait_of_ne _ _ _ heq] at hr
      exact h.reports u c r hc hr
  case unique =>
    intro u v i hu hv
    rw [Family.space_wait] at hu hv
    exact h.unique u v i hu hv
  case below =>
    intro u i hu
    rw [Family.space_wait] at hu
    exact h.below u i hu
  case copied =>
    intro u c i hc hforked hi hhandled
    rw [hbps]
    by_cases heq : u = t
    · subst heq
      rw [Family.child_wait_self] at hc
      split at hc
      · obtain ⟨c', -, rfl⟩ := Option.map_eq_some_iff.mp hc
        cases hhandled
      · exact h.copied u c i hc hforked hi hhandled
    · rw [Family.child_wait_of_ne _ _ _ heq] at hc
      exact h.copied u c i hc hforked hi hhandled
  case cleaned =>
    -- what was cleaned up before the iteration has been detached
    have hbefore : ∀ u c i, s.child u = some c → c.forked = true → c.space = some i →
        c.handled = true → c.traced = false ∧ (s.copies i).text = orig := by
      intro u c i hc hforked hi hhandled
      refine (h.cleaned hwait.1 u c i hc hforked hi hhandled).resolve_right ?_
      rintro ⟨pokes, hpokes, -⟩
      rw [hwait.2] at hpokes
      exact absurd hpokes.symm (by simp)
    intro hloop u c i hc hforked hi hhandled
    by_cases heq : u = t
    · subst heq
      rw [Family.child_wait_self] at hc
      split at hc
      · rename_i hreport
        obtain ⟨c', hc', rfl⟩ := Option.map_eq_some_iff.mp hc
        exact Or.inr (hself hloop c' i hc' hforked hi hreport)
      · exact Or.inl (hbefore u c i hc hforked hi hhandled)
    · rw [Family.child_wait_of_ne _ _ _ heq] at hc
      exact Or.inl (hbefore u c i hc hforked hi hhandled)

/-- The iteration at the stop of a thread of the target. -/
theorem ForkInv.wait_task (h : ForkInv orig s) {t : Pid} {report : Report} (out : Outside)
    (hpending : s.sys.status t = .pending report) (hwait : s.sys.AtWaitpid)
    (hchild : s.child t = none)
    (hra : report = .stop .sigtrap false →
      breakpointByEntry s.sys.monitor.breakpoints (pcUnwind (s.sys.context t)).regs.rip ≠ none →
      callReturnAddress (s.sys.context t) ≠ 0) : ForkInv orig (s.wait t report out) := by
  have htask : s.IsTask t := ⟨hchild, by rw [hpending]; simp⟩
  have hspace := htask.space
  have hnone : NoChildren (s.turn t report out).requests := by
    refine (s.sys.monitor.turn_child _ t (s.sys.context t) _ report).resolve_right ?_
    rintro ⟨-, -, hfalse, -⟩
    rw [hchild] at hfalse
    cases hfalse
  obtain ⟨hs, ht⟩ := h.settled (by rw [hwait.2]; exact noWrites_nil)
  refine h.wait_of out hwait ?_ (Or.inr htask) ?_ ?_ ?_ ?_ ?_
  · rw [Family.turn, hspace]
    exact Monitor.turn_sown h.hooked hs ht t _ hra
  · intro pid address data hmem
    cases hnone _ hmem
  · intro pid hmem
    cases hnone _ hmem
  · intro u signum hu
    cases s.sys.monitor.turn_hold (s.codeAt (s.space t)) t (s.sys.context t)
        { out with isTask := (s.child t).isNone } report with
    | same hhold hresumes hreturn =>
        obtain ⟨rfl, -⟩ := hresumes u signum hu
        exact htask
    | push htrap hra hlast hhold htracked hrequests =>
        rw [Family.turn, hrequests] at hu
        cases hu
    | pop held rest htrap hlast hrip hbefore hhold hra hresumes hphase =>
        rcases hresumes u signum hu with rfl | ⟨rfl, -⟩
        · exact h.held u (by rw [hbefore]; exact List.mem_cons_self)
        · exact htask
  · intro u hu
    cases s.sys.monitor.turn_hold (s.codeAt (s.space t)) t (s.sys.context t)
        { out with isTask := (s.child t).isNone } report with
    | same hhold hresumes hreturn => exact h.held u (by rwa [Family.turn, hhold] at hu)
    | push htrap hra hlast hhold htracked hrequests =>
        rw [Family.turn, hhold] at hu
        rcases List.mem_cons.mp hu with rfl | hu
        · exact htask
        · exact h.held u hu
    | pop held rest htrap hlast hrip hbefore hhold hra hresumes hphase =>
        rw [Family.turn, hhold] at hu
        exact h.held u (by rw [hbefore]; exact List.mem_cons_of_mem _ hu)
  · intro _ c i hc
    cases hchild.symm.trans hc

/-- The iteration at the first stop of a child process. -/
theorem Monitor.turn_sigstop_child {m : Monitor} {out : Outside} (halarm : m.signo ≠ some .sigalrm)
    (htask : out.isTask = false) (code : Code) (pid : Pid) (event : Bool) (ctx : Context) :
    m.turn code pid (.stop .sigstop event) ctx out =
      if m.signo = none then { monitor := m, context := ctx, requests := m.detachChild pid }
      else { monitor := m, context := ctx, phase := .left .terminate } := by
  show m.onSigstop pid ctx out = _
  rw [Monitor.onSigstop, if_neg halarm, htask]
  by_cases hsigno : m.signo = none
  · rw [if_neg (not_not_intro hsigno), if_pos hsigno]
    rfl
  · rw [if_pos hsigno, if_neg hsigno]

theorem Monitor.pokeAll_detachChild (m : Monitor) (text : Bytes 64) :
    pokeAll (Api.all.map fun api => ((m.breakpoints api).entryAddress,
      (m.breakpoints api).entryCode)) text = breakpointCleanup m.breakpoints text := by
  unfold pokeAll breakpointCleanup
  rw [List.foldl_map]

theorem ForkInv.wait_child (h : ForkInv orig s) {t : Pid} {report : Report} (out : Outside)
    (hpending : s.sys.status t = .pending report) (hwait : s.sys.AtWaitpid) {c : Child}
    (hchild : s.child t = some c)
    (halarm : report = .stop .sigstop false → s.sys.monitor.signo ≠ some .sigalrm) :
    ForkInv orig (s.wait t report out) := by
  obtain ⟨hs, ht⟩ := h.settled (by rw [hwait.2]; exact noWrites_nil)
  have hisTask : (s.child t).isNone = false := by
    rw [hchild]
    rfl
  -- an iteration that sends nothing
  have hidle : ∀ phase, s.turn t report out =
      { monitor := s.sys.monitor, context := s.sys.context t, phase := phase } →
      (report = .stop .sigstop false → phase ≠ .loop) → ForkInv orig (s.wait t report out) := by
    intro phase hturn hphase
    refine h.wait_of out hwait ?_ ?_ ?_ ?_ ?_ ?_ ?_ <;> rw [hturn]
    · exact ⟨[], [], rfl, noWrites_nil, hs, ht⟩
    · exact Or.inl noWrites_nil
    · simp
    · simp
    · exact resumes_nil _
    · exact h.held
    · exact fun hloop _ _ _ _ _ hreport => absurd hloop (hphase hreport)
  rcases h.reports t c report hchild hpending with ⟨rfl, htraced, hhandled⟩ | rfl
  · have hturn : s.turn t (.stop .sigstop false) out = _ :=
      Monitor.turn_sigstop_child (halarm rfl) hisTask _ t false _
    by_cases hsigno : s.sys.monitor.signo = none
    · rw [if_pos hsigno] at hturn
      refine h.wait_of out hwait ?_ ?_ ?_ ?_ ?_ ?_ ?_ <;> rw [hturn]
      · exact ⟨[], _, rfl, by simp [NoWrites], hs, ht⟩
      · exact Or.inl (by simp [NoWrites, Monitor.detachChild])
      · intro pid address data hmem
        simp only [Monitor.detachChild, List.mem_append, List.mem_map, List.mem_singleton,
          reduceCtorEq, or_false] at hmem
        obtain ⟨api, -, hrequest⟩ := hmem
        cases hrequest
        exact ⟨api, rfl, rfl⟩
      · intro pid hmem
        simp only [Monitor.detachChild, List.mem_append, List.mem_map, List.mem_singleton,
          reduceCtorEq, and_false, exists_false, false_or, Request.detach.injEq] at hmem
        exact ⟨hmem, rfl⟩
      · intro u signum hu
        simp [Monitor.detachChild] at hu
      · exact h.held
      · intro _ c' i hc' hforked hi _
        obtain rfl := Option.some.inj (hchild.symm.trans hc')
        refine ⟨Api.all.map fun api => ((s.sys.monitor.breakpoints api).entryAddress,
          (s.sys.monitor.breakpoints api).entryCode), ?_, ?_⟩
        · rw [List.map_map]
          rfl
        · rw [Monitor.pokeAll_detachChild]
          exact breakpointCleanup_eq h.hooked (h.copied t c i hchild hforked hi hhandled)
    · rw [if_neg hsigno] at hturn
      exact hidle _ hturn fun _ => by simp
  · by_cases htarget : t ≠ s.sys.monitor.targetPid
    · refine hidle .loop ?_ (by simp)
      rw [Family.turn, Monitor.turn, if_pos htarget]
    · refine hidle (.left .targetExit) ?_ (by simp)
      rw [Family.turn, Monitor.turn, if_neg htarget]

/-- The clean-up of a child process begins with a request for it. -/
theorem ForkInv.cleaned_of_head (h : ForkInv orig s) {r : Request} {queue : List Request}
    (hqueue : s.sys.queue = r :: queue) (hr : r.childPid = none) (hloop : s.sys.phase = .loop)
    {t : Pid} {c : Child} {i : Nat} (hc : s.child t = some c) (hforked : c.forked = true)
    (hi : c.space = some i) (hhandled : c.handled = true) :
    c.traced = false ∧ (s.copies i).text = orig := by
  refine (h.cleaned hloop t c i hc hforked hi hhandled).resolve_right ?_
  rintro ⟨pokes, hpokes, -⟩
  rw [hqueue] at hpokes
  cases pokes with
  | nil =>
      obtain ⟨rfl, -⟩ := List.cons.inj hpokes
      cases hr
  | cons poke pokes =>
      obtain ⟨rfl, -⟩ := List.cons.inj hpokes
      cases hr

theorem ForkInv.issued (h : ForkInv orig s) {r : Request} {queue : List Request}
    (hqueue : s.sys.queue = r :: queue) (hr : r.childPid = none) {code : Code}
    (hflow : ∃ (writes : List Write) (rest : List Request),
      queue = writes.map Request.write ++ rest ∧ NoWrites rest ∧
      Throughout Code.write (Code.Sown orig s.sys.monitor.breakpoints) code writes ∧
      Tied orig s.sys.monitor.breakpoints s.sys.monitor.tracked (writes.foldl Code.write code)) :
    ForkInv orig { s with sys := { s.sys with code := code, queue := queue } } := by
  have hmem : ∀ r', r' ∈ queue → r' ∈ s.sys.queue := by
    rw [hqueue]
    exact fun r' => List.mem_cons_of_mem _
  refine ⟨h.hooked, hflow, ?_, ?_, ?_, ?_, h.held, h.halted, h.reports, h.unique, h.below,
    h.copied, ?_⟩
  · exact h.writer.imp_left fun hno w hw => hno w (hmem _ hw)
  · exact fun pid address data hpoke => h.pokes pid address data (hmem _ hpoke)
  · exact fun pid hpid => h.detaches pid (hmem _ hpid)
  · exact fun t signum ht => h.resumes t signum (hmem _ ht)
  · exact fun hloop t c i hc hforked hi hhandled =>
      Or.inl (h.cleaned_of_head hqueue hr hloop hc hforked hi hhandled)

/-- Without writes the rest of the queue leaves the text alone. -/
theorem ForkInv.flow_tail (h : ForkInv orig s) {r : Request} {queue : List Request}
    (hqueue : s.sys.queue = r :: queue) (hother : ∀ w, r ≠ .write w) :
    NoWrites queue ∧ s.sys.code.Sown orig s.sys.monitor.breakpoints ∧
      Tied orig s.sys.monitor.breakpoints s.sys.monitor.tracked s.sys.code := by
  obtain ⟨writes, rest, heq, hrest, -⟩ := h.flow
  obtain ⟨hno, hno'⟩ := noWrites_of_other hrest (hqueue.symm.trans heq) hother
  exact ⟨hno', h.settled (by rw [hqueue]; exact hno)⟩

theorem ForkInv.issueWrite (h : ForkInv orig s) {w : Write} {queue : List Request}
    (hqueue : s.sys.queue = .write w :: queue) :
    ForkInv orig (({ s with sys := { s.sys with queue := queue } } : Family).setCode
      (s.space s.current) ((s.codeAt (s.space s.current)).write w)) := by
  have hcurrent : s.IsTask s.current := by
    refine h.writer.resolve_left fun hno => hno w ?_
    rw [hqueue]
    exact List.mem_cons_self
  rw [hcurrent.space]
  apply h.issued hqueue rfl
  obtain ⟨writes, rest, heq, hrest, hall, ht⟩ := h.flow
  obtain ⟨writes', rfl, hqueue'⟩ := writes_of_head hrest (hqueue.symm.trans heq)
  exact ⟨writes', rest, hqueue', hrest, hall.2, ht⟩

theorem ForkInv.issueOther (h : ForkInv orig s) {r : Request} {queue : List Request}
    (hqueue : s.sys.queue = r :: queue) (hr : r.childPid = none) (hother : ∀ w, r ≠ .write w) :
    ForkInv orig { s with sys := { s.sys with queue := queue } } := by
  obtain ⟨hno, hs, ht⟩ := h.flow_tail hqueue hother
  exact h.issued hqueue hr ⟨[], queue, rfl, hno, hs, ht⟩

theorem ForkInv.issueResume (h : ForkInv orig s) {t : Pid} {signum : Option Signo}
    {queue : List Request} (hqueue : s.sys.queue = .resume t signum :: queue) :
    ForkInv orig { s with sys := { s.sys with queue := queue }.resume t } := by
  have hissued := h.issueOther hqueue rfl (by simp)
  have htask : s.IsTask t := h.resumes t signum (by rw [hqueue]; exact List.mem_cons_self)
  unfold System.resume
  split
  · refine hissued.setThread (t := t) (by simp) ?_
    intro c hc
    cases htask.1.symm.trans hc
  · exact hissued

theorem ForkInv.cleaned_cases (h : ForkInv orig s) {r : Request} {queue : List Request}
    (hqueue : s.sys.queue = r :: queue) (hloop : s.sys.phase = .loop) {t : Pid} {c : Child}
    {i : Nat} (hc : s.child t = some c) (hforked : c.forked = true) (hi : c.space = some i)
    (hhandled : c.handled = true) :
    (c.traced = false ∧ (s.copies i).text = orig) ∨
      (r = .detach t ∧ (s.copies i).text = orig) ∨
      ∃ (address data : Word) (pokes : List (Word × Word)), r = .writeChild t address data ∧
        queue = pokes.map (fun poke => .writeChild t poke.1 poke.2) ++ [.detach t] ∧
        pokeAll pokes (ptraceSetData (s.copies i).text address data) = orig := by
  rcases h.cleaned hloop t c i hc hforked hi hhandled with hdone | ⟨pokes, hpokes, htext⟩
  · exact Or.inl hdone
  · rw [hqueue] at hpokes
    cases pokes with
    | nil =>
        obtain ⟨rfl, -⟩ := List.cons.inj hpokes
        exact Or.inr (Or.inl ⟨rfl, htext⟩)
    | cons poke pokes =>
        obtain ⟨rfl, htail⟩ := List.cons.inj hpokes
        exact Or.inr (Or.inr ⟨poke.1, poke.2, pokes, rfl, htail, htext⟩)

theorem Hooked.ptraceSetData_self {bps : Breakpoints} (hk : Hooked orig bps) (api : Api) :
    ptraceSetData orig (bps api).entryAddress (bps api).entryCode = orig := by
  funext b
  by_cases hw : Bytes.Within 8 (bps api).entryAddress b
  · rw [ptraceSetData, Bytes.writeWord_of_within hw, hk.code api]
    exact Bytes.byteOf_readWord_sub orig hw
  · rw [ptraceSetData, Bytes.writeWord_of_not_within hw]

theorem ForkInv.writeChild (h : ForkInv orig s) {pid : Pid} {address data : Word}
    {queue : List Request} (hqueue : s.sys.queue = .writeChild pid address data :: queue) :
    ForkInv orig (s.writeChild queue pid address data) := by
  have hmem : ∀ r', r' ∈ queue → r' ∈ s.sys.queue := by
    rw [hqueue]
    exact fun r' => List.mem_cons_of_mem _
  obtain ⟨hno, hs, ht⟩ := h.flow_tail hqueue (by simp)
  obtain ⟨api, rfl, rfl⟩ := h.pokes pid address data (by rw [hqueue]; exact List.mem_cons_self)
  have hkept : ∀ (code : Code) (copies : Nat → Code),
      code.Sown orig s.sys.monitor.breakpoints → code.returnArmed = s.sys.code.returnArmed →
      (∀ t c i, s.child t = some c → c.forked = true → c.space = some i → c.handled = false →
        ∀ b, (copies i).text b = orig b ∨
          ∃ api, Bytes.Within 8 (s.sys.monitor.breakpoints api).entryAddress b) →
      (s.sys.phase = .loop → ∀ t c i, s.child t = some c → c.forked = true →
        c.space = some i → c.handled = true →
        (c.traced = false ∧ (copies i).text = orig) ∨
          ∃ pokes : List (Word × Word),
            queue = pokes.map (fun poke => .writeChild t poke.1 poke.2) ++ [.detach t] ∧
              pokeAll pokes (copies i).text = orig) →
      ForkInv orig
        { s with sys := { s.sys with code := code, queue := queue }, copies := copies } := by
    intro code copies hsown hret hcopied hcleaned
    refine ⟨h.hooked, ⟨[], queue, rfl, hno, hsown, ?_, ht.saved⟩, Or.inl hno, ?_, ?_, ?_, h.held,
      h.halted, h.reports, h.unique, h.below, hcopied, hcleaned⟩
    · intro a ha
      exact ht.known a (hret ▸ ha)
    · exact fun pid' address data hpoke => h.pokes pid' address data (hmem _ hpoke)
    · exact fun pid' hpid => h.detaches pid' (hmem _ hpid)
    · exact fun t signum hresume => h.resumes t signum (hmem _ hresume)
  unfold Family.writeChild
  cases hspace : s.space pid with
  | none =>
      refine hkept _ s.copies (hs.writeEntry h.hooked api) rfl h.copied ?_
      intro hloop t c i hc hforked hi hhandled
      rcases h.cleaned_cases hqueue hloop hc hforked hi hhandled with
        hdone | ⟨hr, -⟩ | ⟨address, data, pokes, hr, -⟩
      · exact Or.inl hdone
      · cases hr
      · cases hr
        cases hspace.symm.trans ((Family.space_of_child hc).trans hi)
  | some j =>
      refine hkept s.sys.code _ hs rfl ?_ ?_
      · intro t c i hc hforked hi hhandled b
        by_cases heq : i = j
        · subst heq
          rw [Function.update_self]
          by_cases hw : Bytes.Within 8 (s.sys.monitor.breakpoints api).entryAddress b
          · exact Or.inr ⟨api, hw⟩
          · refine (h.copied t c i hc hforked hi hhandled b).imp_left fun hb => ?_
            exact (Bytes.writeWord_of_not_within hw).trans hb
        · rw [Function.update_of_ne heq]
          exact h.copied t c i hc hforked hi hhandled b
      · intro hloop t c i hc hforked hi hhandled
        rcases h.cleaned_cases hqueue hloop hc hforked hi hhandled with
          ⟨htraced, htext⟩ | ⟨hr, -⟩ | ⟨address, data, pokes, hr, htail, htext⟩
        · refine Or.inl ⟨htraced, ?_⟩
          by_cases heq : i = j
          · subst heq
            rw [Function.update_self]
            show ptraceSetData (s.copies i).text _ _ = orig
            rw [htext]
            exact h.hooked.ptraceSetData_self api
          · rw [Function.update_of_ne heq]
            exact htext
        · cases hr
        · cases hr
          obtain rfl : i = j :=
            Option.some.inj (((Family.space_of_child hc).trans hi).symm.trans hspace)
          refine Or.inr ⟨pokes, htail, ?_⟩
          rw [Function.update_self]
          exact htext

theorem ForkInv.detach (h : ForkInv orig s) {pid : Pid} {queue : List Request}
    (hqueue : s.sys.queue = .detach pid :: queue) : ForkInv orig (s.detach queue pid) := by
  have hmem : ∀ r', r' ∈ queue → r' ∈ s.sys.queue := by
    rw [hqueue]
    exact fun r' => List.mem_cons_of_mem _
  obtain ⟨hno, hs, ht⟩ := h.flow_tail hqueue (by simp)
  obtain ⟨-, hhandled⟩ := h.detaches pid (by rw [hqueue]; exact List.mem_cons_self)
  obtain ⟨hmonitor, hcode, hrequests, hphase⟩ := s.detach_keeps queue pid
  have hstatus : ∀ u, u ≠ pid → (s.detach queue pid).sys.status u = s.sys.status u :=
    fun u hne => s.status_detach_of_ne queue pid hne
  have hself := s.status_detach_self queue pid
  have hself' := s.child_detach_self queue pid
  have hchild : ∀ u, u ≠ pid → (s.detach queue pid).child u = s.child u :=
    fun u hne => s.child_detach_of_ne queue pid hne
  have hspace := s.space_detach queue pid
  have htask : ∀ u, s.IsTask u → (s.detach queue pid).IsTask u := fun u hu =>
    ⟨s.child_detach_of_none queue pid hu.1, s.born_detach queue pid hu.2⟩
  constructor
  case hooked => exact hmonitor ▸ h.hooked
  case flow =>
    rw [hmonitor, hcode, hrequests]
    exact ⟨[], queue, rfl, hno, hs, ht⟩
  case writer =>
    rw [hrequests]
    exact Or.inl hno
  case pokes =>
    rw [hmonitor, hrequests]
    exact fun pid' address data hpoke => h.pokes pid' address data (hmem _ hpoke)
  case detaches =>
    rw [hrequests]
    intro pid' hpid'
    obtain ⟨hborn', hhandled'⟩ := h.detaches pid' (hmem _ hpid')
    refine ⟨s.born_detach queue pid hborn', ?_⟩
    intro c hc
    by_cases heq : pid' = pid
    · subst heq
      rw [hself'] at hc
      obtain ⟨c', hc', rfl⟩ := Option.map_eq_some_iff.mp hc
      exact hhandled c' hc'
    · exact hhandled' c ((hchild pid' heq).symm.trans hc)
  case resumes =>
    rw [hrequests]
    exact fun t signum hresume => htask t (h.resumes t signum (hmem _ hresume))
  case held =>
    rw [hmonitor]
    exact fun t hheld => htask t (h.held t hheld)
  case halted =>
    intro u c hc htraced
    by_cases heq : u = pid
    · subst heq
      rw [hself'] at hc
      obtain ⟨c', -, rfl⟩ := Option.map_eq_some_iff.mp hc
      cases htraced
    · rw [hstatus u heq]
      exact h.halted u c ((hchild u heq).symm.trans hc) htraced
  case reports =>
    intro u c report hc hreport
    by_cases heq : u = pid
    · subst heq
      rw [hself'] at hc
      obtain ⟨c', hc', rfl⟩ := Option.map_eq_some_iff.mp hc
      rcases hself with hrun | hsame
      · cases hrun.symm.trans hreport
      · rcases h.reports u c' report hc' (hsame.symm.trans hreport) with ⟨-, -, hfalse⟩ | hexit
        · cases (hhandled c' hc').symm.trans hfalse
        · exact Or.inr hexit
    · rw [hstatus u heq] at hreport
      exact h.reports u c report ((hchild u heq).symm.trans hc) hreport
  case unique =>
    intro u v i hu hv
    rw [hspace] at hu hv
    exact h.unique u v i hu hv
  case below =>
    intro u i hu
    rw [hspace] at hu
    exact h.below u i hu
  case copied =>
    intro u c i hc hforked hi hunhandled
    rw [hmonitor]
    by_cases heq : u = pid
    · subst heq
      rw [hself'] at hc
      obtain ⟨c', hc', rfl⟩ := Option.map_eq_some_iff.mp hc
      exact h.copied u c' i hc' hforked hi hunhandled
    · exact h.copied u c i ((hchild u heq).symm.trans hc) hforked hi hunhandled
  case cleaned =>
    rw [hphase]
    intro hloop u c i hc hforked hi hu
    refine Or.inl ?_
    by_cases heq : u = pid
    · subst heq
      rw [hself'] at hc
      obtain ⟨c', hc', rfl⟩ := Option.map_eq_some_iff.mp hc
      refine ⟨rfl, ?_⟩
      rcases h.cleaned_cases hqueue hloop hc' hforked hi hu with
        ⟨-, htext⟩ | ⟨-, htext⟩ | ⟨address, data, pokes, hr, -⟩
      · exact htext
      · exact htext
      · cases hr
    · rcases h.cleaned_cases hqueue hloop ((hchild u heq).symm.trans hc) hforked hi hu with
        hdone | ⟨hr, -⟩ | ⟨address, data, pokes, hr, -⟩
      · exact hdone
      · cases hr
        exact absurd rfl heq
      · cases hr

end Step

/-! ## The theorem -/

namespace Family

/-- The conditions on a run: a call has a return address; the first stop of a
child process is not taken for the timer; and at a fork no return breakpoint
stands outside the words that the clean-up writes. -/
def Forkable (text : Bytes 64) (s : Family) : FamilyLabel → Prop
  | .sys (.wait t _) =>
      (s.sys.Trapped t →
        breakpointByEntry s.sys.monitor.breakpoints (s.sys.instruction t).regs.rip ≠ none →
        callReturnAddress (s.sys.context t) ≠ 0) ∧
      (s.sys.status t = .pending (.stop .sigstop false) → s.child t ≠ none →
        s.sys.monitor.signo ≠ some .sigalrm)
  | .fork _ _ _ =>
      ∀ a, s.sys.code.returnArmed = some a →
        (∃ api, Bytes.Within 8 (s.sys.monitor.breakpoints api).entryAddress a) ∨
          text a = trapByte
  | _ => True

instance (text : Bytes 64) (s : Family) : (label : FamilyLabel) → Decidable (s.Forkable text label)
  | .sys (.wait _ _) => inferInstanceAs (Decidable ((_ → _ → _) ∧ (_ → _ → _)))
  | .fork _ _ _ =>
      decidable_of_iff ((s.sys.code.returnArmed.all fun a => decide
        ((∃ api ∈ Api.all, Bytes.Within 8 (s.sys.monitor.breakpoints api).entryAddress a) ∨
          text a = trapByte)) = true)
        (by
          rw [Option.all_eq_true]
          refine forall₂_congr fun a _ => ?_
          rw [decide_eq_true_eq]
          exact or_congr_left
            ⟨fun ⟨api, _, h⟩ => ⟨api, h⟩, fun ⟨api, h⟩ => ⟨api, api.mem_all, h⟩⟩)
  | .sys (.fetch _ _) | .sys (.signal _ _ _) | .sys (.clone _ _ _) | .sys (.exit _)
  | .sys (.interrupt _) | .sys (.waitFails _) | .sys .issue | .vfork _ _ _ | .exec _ _ _ =>
      inferInstanceAs (Decidable True)

/-- Every forked child process whose first stop has been processed is detached, and
has the original text. -/
def ReleasedClean (text : Bytes 64) (s : Family) : Prop :=
  ∀ t c i, s.child t = some c → c.forked = true → c.space = some i → c.handled = true →
    c.traced = false ∧ (s.copies i).text = text

end Family

section Theorem

variable {symtabByName : Api → Word} {text : Bytes 64} {targetPid : Pid} {limits : Limits}
  {others : Pid → Bool} {s₀ : System} {s s' : Family}

/-- **Every step keeps the copies clean.** -/
theorem forkInv_step (h : ForkInv text s) {label : FamilyLabel} (hok : s.Forkable text label)
    (hstep : s.step label = some s') : ForkInv text s' := by
  cases Family.step_kind hstep with
  | trap t ctx hrun hbyte htraced =>
      refine h.setThread (t := t) (by simp) fun c hc => ?_
      cases (h.child_eq_none hrun htraced).symm.trans hc
  | execute t ctx hrun hbyte => exact h
  | signal t signum ctx hrun htraced =>
      refine h.setThread (t := t) (by simp) fun c hc => ?_
      cases (h.child_eq_none hrun htraced).symm.trans hc
  | clone t u ctx hrun hunborn htraced =>
      have ht := h.child_eq_none hrun htraced
      refine h.create ht hunborn rfl rfl ?_ (fun _ _ => rfl) (Nat.le_refl _) ?_
      · exact fun v hne => Function.update_of_ne hne _ _
      · intro c hc
        have hc : (s.child t).map _ = some c := (Function.update_self u _ _).symm.trans hc
        rw [ht] at hc
        cases hc
  | fork t u ctx hrun hunborn htraced => exact h.fork (h.child_eq_none hrun htraced) hunborn hok
  | vfork t u ctx hrun hunborn htraced =>
      have ht := h.child_eq_none hrun htraced
      refine h.create ht hunborn rfl rfl ?_ (fun _ _ => rfl) (Nat.le_refl _) ?_
      · exact fun v hne => Function.update_of_ne hne _ _
      · intro c hc
        have hspace : s.space t = none := by
          rw [Family.space, ht]
          rfl
        have hc : some _ = some c := (Function.update_self u _ _).symm.trans hc
        cases hc
        rw [hspace]
        exact ⟨by simp, rfl, rfl, by simp⟩
  | exec t ctx text c hchild hrun thread hthread => exact h.exec hchild hrun hthread text
  | exit t hborn htraced =>
      refine h.setThread (t := t) (by simp) fun c hc => ⟨by simp, ?_⟩
      intro report hreport
      exact (Status.pending.inj hreport).symm
  | leave t hrun htraced => exact h.setThread (t := t) (by simp) fun c hc => ⟨by simp, by simp⟩
  | interrupt signum =>
      exact ⟨h.hooked, h.flow, h.writer, h.pokes, h.detaches, h.resumes, h.held, h.halted,
        h.reports, h.unique, h.below, h.copied, h.cleaned⟩
  | wait t report out hpending hwait =>
      obtain ⟨hra, halarm⟩ := hok
      cases hchild : s.child t with
      | none =>
          refine h.wait_task out hpending hwait hchild ?_
          rintro rfl hentry
          have htrapped : s.sys.Trapped t := hpending
          refine hra htrapped ?_
          rw [System.instruction_of_trapped htrapped]
          exact hentry
      | some c =>
          refine h.wait_child out hpending hwait hchild ?_
          rintro rfl
          exact halarm hpending (by rw [hchild]; simp)
  | waitAgain hwait => exact h
  | waitError hwait =>
      exact ⟨h.hooked, h.flow, h.writer, h.pokes, h.detaches, h.resumes, h.held, h.halted,
        h.reports, h.unique, h.below, h.copied, by simp⟩
  | issueWrite w queue hqueue => exact h.issueWrite hqueue
  | issueResume t signum queue hqueue => exact h.issueResume hqueue
  | issueAlarm seconds queue hqueue => exact h.issueOther hqueue rfl (by simp)
  | writeChild pid address data queue hqueue => exact h.writeChild hqueue
  | detach pid queue hqueue => exact h.detach hqueue

theorem forkInv_begin
    (hbegin : System.begin symtabByName text targetPid limits others = some s₀)
    (hapart : ∀ api other, api ≠ other →
      ¬ Bytes.Within 8 (symtabByName api) (symtabByName other)) :
    ForkInv text (.start s₀) := by
  obtain ⟨htarget, hstopped⟩ := System.status_begin hbegin
  have htask : (Family.start s₀).IsTask targetPid := by
    refine ⟨rfl, ?_⟩
    rw [show (Family.start s₀).sys.status targetPid = _ from hstopped]
    simp
  obtain ⟨init, hinit, rfl⟩ := Option.map_eq_some_iff.mp hbegin
  obtain ⟨-, -, hret, -⟩ := breakpointInit_armed hinit
  obtain ⟨-, hk, hall⟩ := breakpointInit_patched hinit hapart
  constructor
  case hooked => exact hk
  case flow =>
    refine ⟨init.writes, _, rfl, by simp [NoWrites], hall.imp fun _ => Code.Patched.sown,
      .of_none hret ?_⟩
    intro hra
    exact absurd rfl hra
  case writer => exact Or.inr htask
  case pokes =>
    intro pid address data hpoke
    simp [Family.start] at hpoke
  case detaches =>
    intro pid hpid
    simp [Family.start] at hpid
  case resumes =>
    intro t signum ht
    simp only [Family.start, List.mem_append, List.mem_map, reduceCtorEq, and_false, exists_false,
      List.mem_singleton, Request.resume.injEq, false_or] at ht
    rw [ht.1]
    exact htask
  case held =>
    intro t ht
    cases ht
  -- there are no child processes
  case halted =>
    intro t c hc
    cases hc
  case reports =>
    intro t c report hc
    cases hc
  case unique =>
    intro t u i ht
    cases ht
  case below =>
    intro t i ht
    cases ht
  case copied =>
    intro t c i hc
    cases hc
  case cleaned =>
    intro _ t c i hc
    cases hc

end Theorem

end Memleax
