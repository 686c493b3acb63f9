import Memleax.Tracer.Children
import Memleax.Tracer.TextInvariant
import Memleax.Tracer.Calls

/-!
# Children with the memory of the target

The clean-up of a child process writes its memory. After `fork` that is a copy;
after `vfork` it is the memory of the target, whose entries lose their trap bytes,
and no later step sets them again but the one of a call that is being tracked.

What the loop does for a child with a memory of its own does not reach the target.
Such a child may even stay traced and have its calls tracked: while that lasts
every thread of the target that traps is held. The target on its own
(`Family.target`) does not see the threads of that child, nor the writes for it,
nor its tracked call, and its text is right in the sense of `TextInvariant`.
-/

namespace Memleax

open Framework

def Request.isWrite : Request → Bool
  | .write _ => true
  | .resume _ _ | .alarm _ | .writeChild _ _ _ | .detach _ => false

theorem noWrites_filter (requests : List Request) :
    NoWrites (requests.filter fun r => !r.isWrite) := by
  intro w hw
  cases (List.mem_filter.mp hw).2

theorem NoWrites.filter_eq {requests : List Request} (h : NoWrites requests) :
    requests.filter (fun r => !r.isWrite) = requests := by
  refine List.filter_eq_self.mpr ?_
  intro r hr
  cases r with
  | write w => exact absurd hr (h w)
  | _ => rfl

namespace Family

/-- The variables of the loop, without a tracked call in another memory. -/
def ownMonitor (s : Family) : Monitor :=
  if s.space s.sys.monitor.lastThread = none then s.sys.monitor
  else { s.sys.monitor with returnAddress := 0 }

/-- The requests under way, without writes to another memory. -/
def ownQueue (s : Family) : List Request :=
  if s.space s.current = none then s.sys.queue else s.sys.queue.filter fun r => !r.isWrite

/-- The threads that have the memory of the target. -/
def ownThreads (s : Family) (t : Pid) : Thread :=
  if s.space t = none then s.sys.threads t else {}

/-- The target on its own. -/
def target (s : Family) : System :=
  { s.sys with monitor := s.ownMonitor, queue := s.ownQueue, threads := s.ownThreads }

section Target

variable {s s' : Family}

theorem ownMonitor_of_idle (h : s.sys.monitor.returnAddress = 0) :
    s.ownMonitor = s.sys.monitor := by
  unfold ownMonitor
  split
  · rfl
  · rw [← h]

theorem ownMonitor_of_shared (h : s.space s.sys.monitor.lastThread = none) :
    s.ownMonitor = s.sys.monitor := if_pos h

/-- A tracked call in another memory is none of the target's. -/
theorem ownMonitor_returnAddress (h : s.space s.sys.monitor.lastThread ≠ none) :
    s.ownMonitor.returnAddress = 0 := by
  rw [ownMonitor, if_neg h]

theorem ownMonitor_breakpoints : s.ownMonitor.breakpoints = s.sys.monitor.breakpoints := by
  unfold ownMonitor
  split <;> rfl

/-- What the tracked call of the target depends on. -/
theorem ownMonitor_tracked_congr (htracked : s'.sys.monitor.tracked = s.sys.monitor.tracked)
    (hspace : ∀ u, s'.space u = s.space u) : s'.ownMonitor.tracked = s.ownMonitor.tracked := by
  have hlast : s'.sys.monitor.lastThread = s.sys.monitor.lastThread :=
    congrArg Tracked.lastThread htracked
  unfold ownMonitor
  rw [hspace, hlast]
  split
  · exact htracked
  · exact congrArg (fun k : Tracked => { k with returnAddress := 0 }) htracked

theorem ownQueue_of_shared (h : s.space s.current = none) : s.ownQueue = s.sys.queue := if_pos h

theorem ownQueue_of_own (h : s.space s.current ≠ none) :
    s.ownQueue = s.sys.queue.filter fun r => !r.isWrite := if_neg h

theorem ownQueue_of_empty (h : s.sys.queue = []) : s.ownQueue = [] := by
  unfold ownQueue
  rw [h]
  split <;> rfl

theorem ownThreads_of_shared {t : Pid} (h : s.space t = none) :
    s.ownThreads t = s.sys.threads t := if_pos h

theorem ownThreads_of_own {t : Pid} (h : s.space t ≠ none) : s.ownThreads t = {} := if_neg h

theorem target_status_of_shared {t : Pid} (h : s.space t = none) :
    s.target.status t = s.sys.status t :=
  congrArg Thread.status (ownThreads_of_shared h)

theorem target_context_of_shared {t : Pid} (h : s.space t = none) :
    s.target.context t = s.sys.context t :=
  congrArg Thread.context (ownThreads_of_shared h)

theorem target_status_of_own {t : Pid} (h : s.space t ≠ none) : s.target.status t = .unborn :=
  congrArg Thread.status (ownThreads_of_own h)

/-- A step of a thread that the target sees. -/
theorem target_setThread_of_shared {t : Pid} (h : s.space t = none) (thread : Thread) :
    (s.setThread t thread).target = s.target.setThread t thread := by
  have hthreads : (s.setThread t thread).ownThreads =
      Function.update s.ownThreads t thread := by
    funext u
    by_cases hu : s.space u = none
    · refine (ownThreads_of_shared (s := s.setThread t thread) hu).trans ?_
      by_cases heq : u = t
      · rw [heq, Function.update_self]
        exact Function.update_self _ _ _
      · rw [Function.update_of_ne heq, ownThreads_of_shared hu]
        exact Function.update_of_ne heq _ _
    · have hne : u ≠ t := by
        rintro rfl
        exact hu h
      rw [Function.update_of_ne hne, ownThreads_of_own hu]
      exact ownThreads_of_own (s := s.setThread t thread) hu
  have htarget : (s.setThread t thread).target =
      { s.target with threads := (s.setThread t thread).ownThreads } := rfl
  rw [htarget, hthreads]
  rfl

/-- A step of a thread that it does not see. -/
theorem target_setThread_of_own {t : Pid} (h : s.space t ≠ none) (thread : Thread) :
    (s.setThread t thread).target = s.target := by
  have hthreads : (s.setThread t thread).ownThreads = s.ownThreads := by
    funext u
    by_cases hu : s.space u = none
    · have hne : u ≠ t := by
        rintro rfl
        exact h hu
      rw [ownThreads_of_shared hu]
      refine (ownThreads_of_shared (s := s.setThread t thread) hu).trans ?_
      exact Function.update_of_ne hne _ _
    · rw [ownThreads_of_own hu]
      exact ownThreads_of_own (s := s.setThread t thread) hu
  have htarget : (s.setThread t thread).target =
      { s.target with threads := (s.setThread t thread).ownThreads } := rfl
  rw [htarget, hthreads]
  rfl

end Target

end Family

/-! ## The text of the target -/

section Text

variable {orig : Bytes 64} {s s' : System}

theorem TextInv.congr (h : TextInv orig s) (htracked : s'.monitor.tracked = s.monitor.tracked)
    (hbps : s'.monitor.breakpoints = s.monitor.breakpoints) (hcode : s'.code = s.code)
    (hqueue : s'.queue = s.queue) (hthreads : s'.threads = s.threads)
    (hphase : s'.phase = .loop) : TextInv orig s' := by
  have hra : s'.monitor.returnAddress = s.monitor.returnAddress :=
    congrArg Tracked.returnAddress htracked
  have hlast : s'.monitor.lastThread = s.monitor.lastThread :=
    congrArg Tracked.lastThread htracked
  have hstatus : s'.status = s.status := by
    funext t
    rw [System.status, System.status, hthreads]
  have hcontext : s'.context = s.context := by
    funext t
    rw [System.context, System.context, hthreads]
  refine ⟨⟨h.toCodeInv.congr htracked hbps hcode hqueue, ?_, ?_, ?_⟩,
    h.toPatchInv.congr htracked hbps hcode hqueue (by rw [hphase]; simp)⟩
  · intro t ht
    rw [hstatus] at ht
    rw [hcontext]
    exact (h.behind t ht).congr hbps (by rw [hcode]; exact fun _ ha => ha)
  · rw [hra, hlast, hstatus, hcontext, hcode, hbps]
    exact h.caught
  · rw [hra, hlast, hstatus, hqueue]
    exact h.still

theorem TextInv.threads (h : TextInv orig s) {threads : Pid → Thread}
    (htrap : ∀ u, (threads u).status = .pending (.stop .sigtrap false) →
      threads u = s.threads u)
    (hstill : s.monitor.returnAddress ≠ 0 → ¬ NoWrites s.queue →
      (threads s.monitor.lastThread).status = .stopped ∨
        (threads s.monitor.lastThread).status = .pending .exit) :
    TextInv orig { s with threads := threads } := by
  refine ⟨⟨h.toCodeInv.congr rfl rfl rfl rfl, ?_, ?_, hstill⟩,
    h.toPatchInv.congr rfl rfl rfl rfl fun _ => rfl⟩
  · intro u hu
    have hsame := htrap u hu
    have hcontext : { s with threads := threads }.context u = s.context u :=
      congrArg Thread.context hsame
    rw [hcontext]
    exact (h.behind u ((congrArg Thread.status hsame).symm.trans hu)).congr rfl fun _ ha => ha
  · intro hra hu
    have hsame := htrap _ hu
    have hcontext : { s with threads := threads }.context s.monitor.lastThread =
        s.context s.monitor.lastThread := congrArg Thread.context hsame
    have hcaught := h.caught hra ((congrArg Thread.status hsame).symm.trans hu)
    rw [← hcontext] at hcaught
    exact hcaught

/-- Between two iterations with the same tracked call, or without one, the queue may
differ. -/
theorem TextInv.between (h : TextInv orig s) (hqueue : s.queue = []) (hno : NoWrites s'.queue)
    (htracked : s'.monitor.tracked = s.monitor.tracked ∨
      (s.monitor.returnAddress = 0 ∧ s'.monitor.returnAddress = 0))
    (hbps : s'.monitor.breakpoints = s.monitor.breakpoints) (hcode : s'.code = s.code)
    (hthreads : s'.threads = s.threads) (hphase : s'.phase = .loop) : TextInv orig s' := by
  have hs := h.settled (by rw [hqueue]; exact noWrites_nil)
  have hs' : Settled orig s'.monitor.breakpoints s'.monitor.tracked s'.code := by
    rw [hcode, hbps]
    rcases htracked with hsame | ⟨hra, hra'⟩
    · rw [hsame]
      exact hs
    · obtain ⟨harmed, hret⟩ := hs.idle hra
      exact .of_idle hs.patched harmed hret hra'
  have hstatus : s'.status = s.status := by
    funext t
    rw [System.status, System.status, hthreads]
  have hcontext : s'.context = s.context := by
    funext t
    rw [System.context, System.context, hthreads]
  refine ⟨⟨⟨hbps ▸ h.entries, ⟨[], _, rfl, hno, hs'.toStanding⟩, hcode ▸ h.returned,
    hcode ▸ h.nonzero, fun w hw => absurd hw (hno w)⟩, ?_, ?_, fun _ hwrites => absurd hno hwrites⟩,
    hbps ▸ h.hooked, ⟨[], _, rfl, hno, hs'.patched, hs'⟩, by rw [hphase]; simp⟩
  · intro u hu
    rw [hstatus] at hu
    rw [hcontext]
    exact (h.behind u hu).congr hbps (by rw [hcode]; exact fun _ ha => ha)
  · intro hra'
    rcases htracked with hsame | ⟨-, hzero⟩
    · have hra : s'.monitor.returnAddress = s.monitor.returnAddress :=
        congrArg Tracked.returnAddress hsame
      have hlast : s'.monitor.lastThread = s.monitor.lastThread :=
        congrArg Tracked.lastThread hsame
      rw [hra] at hra'
      rw [hlast, hstatus, hcontext, hcode, hbps]
      exact h.caught hra'
    · exact absurd hzero hra'

theorem TextInv.wait (h : TextInv orig s) {t : Pid} {report : Report} (out : Outside)
    (hpending : s.status t = .pending report) (hwait : s.AtWaitpid) :
    TextInv orig (s.wait t report out) :=
  ⟨⟨h.codeInv_wait out hpending hwait, h.trapInv_wait out hpending hwait⟩,
    h.patchInv_wait out hpending hwait⟩

end Text

/-- The target on its own, and what keeps the children apart from it. -/
structure SharedInv (orig : Bytes 64) (s : Family) : Prop where
  text : TextInv orig s.target
  /-- no child process with the memory of the target is cleaned up -/
  pokes : ∀ r ∈ s.sys.queue, ∀ pid, r.childPid = some pid →
    s.space pid ≠ none ∧ s.sys.status pid ≠ .unborn
  writer : NoWrites s.sys.queue ∨ s.space s.current ≠ none ∨ s.child s.current = none
  last : s.sys.monitor.returnAddress ≠ 0 →
    s.space s.sys.monitor.lastThread ≠ none ∨ s.child s.sys.monitor.lastThread = none
  current : s.sys.status s.current ≠ .unborn
  born : s.sys.monitor.returnAddress ≠ 0 → s.sys.status s.sys.monitor.lastThread ≠ .unborn

section Threads

variable {orig : Bytes 64} {s s' : Family}

/-- The thread of the tracked call stays where it is when a child process gets a
memory of its own. -/
theorem SharedInv.last_record (h : SharedInv orig s)
    (hchild : ∀ u, s.sys.status u ≠ .unborn →
      s'.child u = s.child u ∨ (s.child u ≠ none ∧ s'.space u ≠ none))
    (hra : s.sys.monitor.returnAddress ≠ 0) :
    (s'.space s.sys.monitor.lastThread ≠ none ∧ s.space s.sys.monitor.lastThread ≠ none) ∨
      (s'.child s.sys.monitor.lastThread = none ∧ s.child s.sys.monitor.lastThread = none) := by
  rcases hchild _ (h.born hra) with hsame | ⟨hne, hspace⟩
  · rw [Family.space_congr hsame, hsame]
    exact (h.last hra).imp (fun hown => ⟨hown, hown⟩) fun hnone => ⟨hnone, hnone⟩
  · exact Or.inl ⟨hspace, (h.last hra).resolve_right hne⟩

theorem SharedInv.ownMonitor_record (h : SharedInv orig s)
    (hmonitor : s'.sys.monitor = s.sys.monitor)
    (hchild : ∀ u, s.sys.status u ≠ .unborn →
      s'.child u = s.child u ∨ (s.child u ≠ none ∧ s'.space u ≠ none)) :
    s'.ownMonitor = s.ownMonitor := by
  by_cases hra : s.sys.monitor.returnAddress = 0
  · rw [Family.ownMonitor_of_idle hra, Family.ownMonitor_of_idle (by rw [hmonitor]; exact hra),
      hmonitor]
  · unfold Family.ownMonitor
    rw [hmonitor]
    rcases h.last_record hchild hra with ⟨hspace', hspace⟩ | ⟨hnone', hnone⟩
    · rw [if_neg hspace', if_neg hspace]
    · rw [Family.space, Family.space, hnone', hnone]

/-- The threads move, and a child process may get a memory of its own. -/
theorem SharedInv.record (h : SharedInv orig s)
    (hsys : s'.sys = { s.sys with threads := s'.sys.threads }) (hcurrent : s'.current = s.current)
    (hchild : ∀ u, s.sys.status u ≠ .unborn →
      s'.child u = s.child u ∨ (s.child u ≠ none ∧ s'.space u ≠ none))
    (hborn : ∀ u, s.sys.status u ≠ .unborn → s'.sys.status u ≠ .unborn)
    (htrap : ∀ u, s'.space u = none → s'.sys.status u = .pending (.stop .sigtrap false) →
      s.space u = none ∧ s'.sys.threads u = s.sys.threads u)
    (hstill : ∀ u, s.child u = none → s.sys.status u = .stopped ∨ s.sys.status u = .pending .exit →
      s'.sys.status u = .stopped ∨ s'.sys.status u = .pending .exit) : SharedInv orig s' := by
  have hmonitor : s'.sys.monitor = s.sys.monitor := by rw [hsys]
  have hqueue : s'.sys.queue = s.sys.queue := by rw [hsys]
  have hlast := h.last_record hchild
  have hownMonitor : s'.ownMonitor = s.ownMonitor := h.ownMonitor_record hmonitor hchild
  have hownQueue : s'.ownQueue = s.ownQueue := by
    unfold Family.ownQueue
    rw [hcurrent, hqueue]
    rcases hchild _ h.current with hsame | ⟨hne, hspace⟩
    · rw [Family.space_congr hsame]
    · rw [if_neg hspace]
      rcases h.writer with hno | hown | hnone
      · rw [hno.filter_eq, ite_self]
      · rw [if_neg hown]
      · exact absurd hnone hne
  have htarget : s'.target = { s.target with threads := s'.ownThreads } := by
    rw [Family.target, hownMonitor, hownQueue, hsys]
    rfl
  refine ⟨?_, ?_, ?_, ?_, ?_, ?_⟩
  · rw [htarget]
    apply h.text.threads
    · intro u hu
      by_cases hspace' : s'.space u = none
      · rw [Family.ownThreads_of_shared hspace'] at hu ⊢
        obtain ⟨hspace, hsame⟩ := htrap u hspace' hu
        exact hsame.trans (Family.ownThreads_of_shared hspace).symm
      · rw [Family.ownThreads_of_own hspace'] at hu
        cases hu
    · intro hra hwrites
      have hspace : s.space s.sys.monitor.lastThread = none := by
        by_contra hown
        exact hra (Family.ownMonitor_returnAddress hown)
      have hown : s.target.monitor = s.sys.monitor := Family.ownMonitor_of_shared hspace
      rw [hown] at hra ⊢
      obtain ⟨hnone', hnone⟩ := (hlast hra).resolve_left fun hboth => hboth.2 hspace
      have hspace' : s'.space s.sys.monitor.lastThread = none := by
        rw [Family.space, hnone']
        rfl
      rw [Family.ownThreads_of_shared hspace']
      apply hstill _ hnone
      have hbefore := h.text.still (by rw [hown]; exact hra) hwrites
      rw [hown, Family.target_status_of_shared hspace] at hbefore
      exact hbefore
  · rw [hqueue]
    intro r hr pid hpid
    obtain ⟨hspace, hpidborn⟩ := h.pokes r hr pid hpid
    refine ⟨?_, hborn pid hpidborn⟩
    rcases hchild pid hpidborn with hsame | ⟨-, hspace'⟩
    · rw [Family.space_congr hsame]
      exact hspace
    · exact hspace'
  · rw [hqueue, hcurrent]
    rcases hchild _ h.current with hsame | ⟨hne, hspace⟩
    · rw [Family.space_congr hsame, hsame]
      exact h.writer
    · exact Or.inr (Or.inl hspace)
  · rw [hmonitor]
    intro hra
    exact (hlast hra).imp And.left And.left
  · rw [hcurrent]
    exact hborn _ h.current
  · rw [hmonitor]
    exact fun hra => hborn _ (h.born hra)

theorem SharedInv.setThread (h : SharedInv orig s) {t : Pid} {thread : Thread}
    (hborn : thread.status ≠ .unborn)
    (htrap : s.space t = none → thread.status ≠ .pending (.stop .sigtrap false))
    (hstill : s.sys.status t = .running ∨ thread.status = .pending .exit) :
    SharedInv orig (s.setThread t thread) := by
  have hne : ∀ u, u ≠ t → (s.setThread t thread).sys.status u = s.sys.status u :=
    fun u hne => System.status_setThread_of_ne _ _ hne
  have hself : (s.setThread t thread).sys.status t = thread.status :=
    System.status_setThread_self _ _ _
  refine h.record rfl rfl (fun _ _ => Or.inl rfl) ?_ ?_ ?_
  · exact fun u hu => s.sys.born_setThread hborn hu
  · intro u hspace hu
    by_cases heq : u = t
    · subst heq
      exact absurd (hself.symm.trans hu) (htrap hspace)
    · exact ⟨hspace, Function.update_of_ne heq _ _⟩
  · intro u _ hu
    by_cases heq : u = t
    · subst heq
      rcases hstill with hrun | hexit
      · rw [hrun] at hu
        rcases hu with hu | hu <;> cases hu
      · exact Or.inr (hself.trans hexit)
    · rw [hne u heq]
      exact hu

/-- A thread with the memory of the target executes a trap byte. -/
theorem SharedInv.trap (h : SharedInv orig s) {t : Pid} {ctx : Context}
    (hrun : s.sys.status t = .running)
    (hbyte : (s.codeAt (s.space t)).text ctx.regs.rip = trapByte)
    (hok : s.space t = none → s.sys.Traces (.fetch t ctx)) :
    SharedInv orig (s.setThread t ⟨.pending (.stop .sigtrap false), ctx.trapped⟩) := by
  by_cases hspace : s.space t = none
  · rw [hspace] at hbyte
    have hstep : s.target.step (.fetch t ctx) =
        some (s.target.setThread t ⟨.pending (.stop .sigtrap false), ctx.trapped⟩) := by
      rw [System.step, if_pos ((Family.target_status_of_shared hspace).trans hrun)]
      exact if_pos hbyte
    have htraces : s.target.Traces (.fetch t ctx) := by
      have hbps : s.target.monitor.breakpoints = s.sys.monitor.breakpoints :=
        Family.ownMonitor_breakpoints
      rw [System.Traces, System.TrapsArmed, System.ReturnsNonzero, hbps]
      exact hok hspace
    -- the trap is one of the target's own
    have htext : TextInv orig
        (s.setThread t ⟨.pending (.stop .sigtrap false), ctx.trapped⟩).target := by
      rw [Family.target_setThread_of_shared hspace]
      exact textInv_step h.text htraces hstep
    have hborn : ∀ u, s.sys.status u ≠ .unborn →
        (s.setThread t ⟨.pending (.stop .sigtrap false), ctx.trapped⟩).sys.status u ≠ .unborn :=
      fun u hu => s.sys.born_setThread (by simp) hu
    exact ⟨htext, fun r hr pid hpid => ⟨(h.pokes r hr pid hpid).1,
      hborn pid (h.pokes r hr pid hpid).2⟩, h.writer, h.last, hborn _ h.current,
      fun hra => hborn _ (h.born hra)⟩
  · exact h.setThread (by simp) (fun hnone => absurd hnone hspace) (Or.inl hrun)

theorem SharedInv.create (h : SharedInv orig s) {t u : Pid} {ctx : Context}
    (hrun : s.sys.status t = .running) (hunborn : s.sys.status u = .unborn)
    (hsys : s'.sys = (s.created t u ctx).sys) (hcurrent : s'.current = s.current)
    (hchild : ∀ v, v ≠ u → s'.child v = s.child v) : SharedInv orig s' := by
  have hstatus : ∀ v, s'.sys.status v = if v = u then .pending (.stop .sigstop false)
      else if v = t then .pending (.stop .sigtrap true) else s.sys.status v := by
    intro v
    rw [hsys]
    exact s.status_created t u ctx v
  refine h.record ?_ hcurrent ?_ ?_ ?_ ?_
  · rw [hsys]
    rfl
  · intro v hv
    refine Or.inl (hchild v ?_)
    rintro rfl
    exact hv hunborn
  · intro v hv
    rw [hsys]
    exact s.born_created t u ctx hv
  · intro v hspace hv
    rw [hstatus] at hv
    split at hv
    · cases hv
    · rename_i hvu
      split at hv
      · cases hv
      · rename_i hvt
        refine ⟨(Family.space_congr (hchild v hvu)).symm.trans hspace, ?_⟩
        rw [hsys]
        exact (Function.update_of_ne hvu _ _).trans (Function.update_of_ne hvt _ _)
  · intro v _ hv
    have hvu : v ≠ u := by
      rintro rfl
      rw [hunborn] at hv
      rcases hv with hv | hv <;> cases hv
    have hvt : v ≠ t := by
      rintro rfl
      rw [hrun] at hv
      rcases hv with hv | hv <;> cases hv
    rw [hstatus, if_neg hvu, if_neg hvt]
    exact hv

theorem SharedInv.exec (h : SharedInv orig s) {t : Pid} {c : Child} {thread : Thread}
    (hchild : s.child t = some c) (hrun : s.sys.status t = .running)
    (hthread : thread.status ≠ .unborn) (text : Bytes 64) :
    SharedInv orig ((s.setThread t thread).newSpace t { c with forked := false }
      { text := text }) := by
  have hself : ((s.setThread t thread).newSpace t { c with forked := false }
      { text := text }).space t = some s.fresh := Family.space_newSpace_self _ _ _ _
  refine h.record rfl rfl ?_ ?_ ?_ ?_
  · intro u _
    by_cases heq : u = t
    · subst heq
      refine Or.inr ⟨by rw [hchild]; simp, ?_⟩
      rw [hself]
      simp
    · exact Or.inl (Function.update_of_ne heq _ _)
  · exact fun u hu => s.sys.born_setThread hthread hu
  · intro u hspace _
    by_cases heq : u = t
    · subst heq
      cases hself.symm.trans hspace
    · refine ⟨?_, Function.update_of_ne heq _ _⟩
      exact (Family.space_congr (Function.update_of_ne heq _ _)).symm.trans hspace
  · intro u hu hstill
    by_cases heq : u = t
    · subst heq
      cases hu.symm.trans hchild
    · rw [show (Family.sys _).status u = s.sys.status u from System.status_setThread_of_ne _ _ heq]
      exact hstill

end Threads

/-! ## The loop -/

theorem Monitor.turn_last (m : Monitor) (code : Code) (pid : Pid) (ctx : Context) (out : Outside)
    (report : Report) :
    ((m.turn code pid report ctx out).monitor.returnAddress = m.returnAddress ∧
      (m.turn code pid report ctx out).monitor.lastThread = m.lastThread) ∨
    (m.turn code pid report ctx out).monitor.returnAddress = 0 ∨
    (report = .stop .sigtrap false ∧
      (m.turn code pid report ctx out).monitor.lastThread = pid) := by
  cases m.turn_kind code pid ctx out report with
  | quiet htracked =>
      exact Or.inl ⟨congrArg Tracked.returnAddress htracked, congrArg Tracked.lastThread htracked⟩
  | atReturn writes rest api htrap hlast hrecover hbp hrip hrest hrequests htracked =>
      exact Or.inr (Or.inl (congrArg Tracked.returnAddress htracked))
  | atEntry writes rest api htrap hlast hrecover hrip hentry hrest hrequests htracked =>
      exact Or.inr (Or.inr ⟨htrap, congrArg Tracked.lastThread htracked⟩)
  | elsewhere writes rest htrap hlast hrecover hrip hentry hrest hrequests htracked =>
      exact Or.inl ⟨congrArg Tracked.returnAddress htracked, congrArg Tracked.lastThread htracked⟩

theorem Monitor.turn_quiet (m : Monitor) (code : Code) (pid : Pid) (ctx : Context) (out : Outside)
    {report : Report}
    (h : report ≠ .stop .sigtrap false ∨ (m.returnAddress ≠ 0 ∧ m.lastThread ≠ pid)) :
    (m.turn code pid report ctx out).monitor.tracked = m.tracked ∧
      NoWrites (m.turn code pid report ctx out).requests := by
  have hcontra : report = .stop .sigtrap false →
      (m.returnAddress ≠ 0 → m.lastThread = pid) → False := by
    intro htrap hlast
    rcases h with hne | ⟨hra, hne⟩
    · exact hne htrap
    · exact hne (hlast hra)
  cases m.turn_kind code pid ctx out report with
  | quiet htracked hwrites => exact ⟨htracked, hwrites⟩
  | atReturn writes rest api htrap hlast => exact (hcontra htrap hlast).elim
  | atEntry writes rest api htrap hlast => exact (hcontra htrap hlast).elim
  | elsewhere writes rest htrap hlast => exact (hcontra htrap hlast).elim

section Wait

variable {orig : Bytes 64} {s : Family} {t : Pid} {report : Report}

theorem Family.ownThreads_wait (s : Family) (t : Pid) (report : Report) (out : Outside) :
    (s.wait t report out).ownThreads =
      (s.setThread t (System.reported report (s.turn t report out).context)).ownThreads := by
  funext u
  unfold Family.ownThreads
  rw [Family.space_wait]
  rfl

theorem Family.ownMonitor_wait_breakpoints (out : Outside) :
    (s.wait t report out).ownMonitor.breakpoints = s.ownMonitor.breakpoints := by
  rw [Family.ownMonitor_breakpoints, Family.ownMonitor_breakpoints]
  exact (s.sys.monitor.turn_keeps _ t (s.sys.context t) _ report).2

/-- The iteration at a stop of a thread with another memory, or while a call in
another memory is tracked, leaves the target as it is. -/
theorem SharedInv.text_wait_of (h : SharedInv orig s) (out : Outside) (hwait : s.sys.AtWaitpid)
    (hno : NoWrites (s.wait t report out).ownQueue)
    (htracked : (s.wait t report out).ownMonitor.tracked = s.ownMonitor.tracked ∨
      (s.ownMonitor.returnAddress = 0 ∧ (s.wait t report out).ownMonitor.returnAddress = 0))
    (hphase : (s.wait t report out).sys.phase = .loop) :
    TextInv orig (s.wait t report out).target := by
  have hempty : s.ownQueue = [] := Family.ownQueue_of_empty hwait.2
  set thread := System.reported report (s.turn t report out).context with hthread
  have hstatus : thread.status ≠ .pending (.stop .sigtrap false) := by
    show (if report = .exit then Status.exited else .stopped) ≠ _
    split <;> simp
  have hreported : TextInv orig (s.setThread t thread).target := by
    by_cases hspace : s.space t = none
    · rw [Family.target_setThread_of_shared hspace]
      apply h.text.threads
      · intro u hu
        by_cases heq : u = t
        · rw [heq, Function.update_self] at hu
          exact absurd hu hstatus
        · exact Function.update_of_ne heq _ _
      · intro _ hwrites
        refine absurd ?_ hwrites
        rw [show s.target.queue = [] from hempty]
        exact noWrites_nil
    · rw [Family.target_setThread_of_own hspace]
      exact h.text
  exact hreported.between hempty hno htracked (Family.ownMonitor_wait_breakpoints out) rfl
    (Family.ownThreads_wait s t report out) hphase

/-- The iteration at a stop of a thread of the target is one of the target. -/
theorem SharedInv.text_wait_own (h : SharedInv orig s) (out : Outside)
    (hpending : s.sys.status t = .pending report) (hwait : s.sys.AtWaitpid)
    (hspace : s.space t = none)
    (hown : s.sys.monitor.returnAddress = 0 ∨ s.space s.sys.monitor.lastThread = none)
    (hphase : (s.wait t report out).sys.phase = .loop) :
    TextInv orig (s.wait t report out).target := by
  have hempty : s.ownQueue = [] := Family.ownQueue_of_empty hwait.2
  have hmonitor : s.ownMonitor = s.sys.monitor :=
    hown.elim Family.ownMonitor_of_idle Family.ownMonitor_of_shared
  have hcontext : s.target.context t = s.sys.context t := Family.target_context_of_shared hspace
  -- the loop does the same
  have hturn : s.target.monitor.turn s.target.code t report (s.target.context t)
      { out with isTask := (s.child t).isNone } = s.turn t report out := by
    rw [show s.target.monitor = s.ownMonitor from rfl, hmonitor, hcontext, Family.turn, hspace]
    rfl
  have hmonitor' : (s.wait t report out).ownMonitor = (s.turn t report out).monitor := by
    rcases s.sys.monitor.turn_last (s.codeAt (s.space t)) t (s.sys.context t)
      { out with isTask := (s.child t).isNone } report with ⟨hra, hlast⟩ | hra | ⟨-, hlast⟩
    · rcases hown with hzero | hshared
      · exact Family.ownMonitor_of_idle (s := s.wait t report out) (hra.trans hzero)
      · refine Family.ownMonitor_of_shared (s := s.wait t report out) ?_
        rw [Family.space_wait, show (s.wait t report out).sys.monitor.lastThread = _ from hlast]
        exact hshared
    · exact Family.ownMonitor_of_idle (s := s.wait t report out) hra
    · refine Family.ownMonitor_of_shared (s := s.wait t report out) ?_
      rw [Family.space_wait, show (s.wait t report out).sys.monitor.lastThread = _ from hlast]
      exact hspace
  have hqueue : (s.wait t report out).ownQueue = (s.turn t report out).requests := by
    refine if_pos ?_
    rw [Family.space_wait]
    exact hspace
  have hthreads : (s.wait t report out).ownThreads = Function.update s.ownThreads t
      (System.reported report (s.turn t report out).context) := by
    rw [Family.ownThreads_wait]
    exact congrArg System.threads (Family.target_setThread_of_shared hspace _)
  have htext := h.text.wait { out with isTask := (s.child t).isNone }
    ((Family.target_status_of_shared hspace).trans hpending) ⟨hwait.1, hempty⟩
  refine htext.congr ?_ ?_ rfl ?_ ?_ hphase
  · show (s.wait t report out).ownMonitor.tracked = (s.target.monitor.turn _ _ _ _ _).monitor.tracked
    rw [hmonitor', hturn]
  · show (s.wait t report out).ownMonitor.breakpoints =
      (s.target.monitor.turn _ _ _ _ _).monitor.breakpoints
    rw [hmonitor', hturn]
  · show (s.wait t report out).ownQueue = (s.target.monitor.turn _ _ _ _ _).requests
    rw [hqueue, hturn]
  · show (s.wait t report out).ownThreads = Function.update s.ownThreads t
      (System.reported report (s.target.monitor.turn _ _ _ _ _).context)
    rw [hthreads, hturn]

theorem Family.ownMonitor_idle (h : s.sys.monitor.returnAddress = 0) :
    s.ownMonitor.returnAddress = 0 := by
  rw [Family.ownMonitor_of_idle h]
  exact h

/-- The iteration at a stop of a thread with another memory. -/
theorem Family.ownMonitor_wait_of_own (hspace : s.space t ≠ none) (out : Outside) :
    (s.wait t report out).ownMonitor.tracked = s.ownMonitor.tracked ∨
      (s.ownMonitor.returnAddress = 0 ∧ (s.wait t report out).ownMonitor.returnAddress = 0) := by
  by_cases hquiet : report ≠ .stop .sigtrap false ∨
      (s.sys.monitor.returnAddress ≠ 0 ∧ s.sys.monitor.lastThread ≠ t)
  · exact Or.inl (Family.ownMonitor_tracked_congr (s.sys.monitor.turn_quiet _ t _ _ hquiet).1
      (s.space_wait t report out))
  · -- the tracked call is not one of the target, before and after
    obtain ⟨-, hself⟩ := not_or.mp hquiet
    have hidle : s.sys.monitor.returnAddress = 0 ∨ s.space s.sys.monitor.lastThread ≠ none := by
      by_cases hra : s.sys.monitor.returnAddress = 0
      · exact Or.inl hra
      · refine Or.inr ?_
        rw [not_not.mp fun hne => hself ⟨hra, hne⟩]
        exact hspace
    refine Or.inr ⟨hidle.elim Family.ownMonitor_idle Family.ownMonitor_returnAddress, ?_⟩
    rcases s.sys.monitor.turn_last (s.codeAt (s.space t)) t (s.sys.context t)
      { out with isTask := (s.child t).isNone } report with ⟨hra', hlast'⟩ | hra' | ⟨-, hlast'⟩
    · rcases hidle with hzero | hforeign
      · exact Family.ownMonitor_idle (s := s.wait t report out) (hra'.trans hzero)
      · refine Family.ownMonitor_returnAddress ?_
        rw [Family.space_wait, show (s.wait t report out).sys.monitor.lastThread = _ from hlast']
        exact hforeign
    · exact Family.ownMonitor_idle (s := s.wait t report out) hra'
    · refine Family.ownMonitor_returnAddress ?_
      rw [Family.space_wait, show (s.wait t report out).sys.monitor.lastThread = _ from hlast']
      exact hspace

/-- One iteration, at which no child process with the memory of the target is
cleaned up or has a trap. -/
theorem SharedInv.wait (h : SharedInv orig s) (out : Outside)
    (hpending : s.sys.status t = .pending report) (hwait : s.sys.AtWaitpid)
    (hshared : s.child t ≠ none → s.space t = none → report ≠ .stop .sigtrap false ∧
      ∀ event, report = .stop .sigstop event → s.sys.monitor.signo ≠ none)
    (hphase : (s.wait t report out).sys.phase = .loop) : SharedInv orig (s.wait t report out) := by
  have hborn : s.sys.status t ≠ .unborn := by
    rw [hpending]
    simp
  have hlast := s.sys.monitor.turn_last (s.codeAt (s.space t)) t (s.sys.context t)
    { out with isTask := (s.child t).isNone } report
  constructor
  case text =>
    by_cases hspace : s.space t = none
    · by_cases hown : s.sys.monitor.returnAddress = 0 ∨ s.space s.sys.monitor.lastThread = none
      · exact h.text_wait_own out hpending hwait hspace hown hphase
      · obtain ⟨hra, hforeign⟩ := not_or.mp hown
        have hne : s.sys.monitor.lastThread ≠ t := by
          rintro rfl
          exact hforeign hspace
        have hheld : report ≠ .stop .sigtrap false ∨
            (s.sys.monitor.returnAddress ≠ 0 ∧ s.sys.monitor.lastThread ≠ t) := Or.inr ⟨hra, hne⟩
        obtain ⟨htracked, hno⟩ := s.sys.monitor.turn_quiet (s.codeAt (s.space t)) t
          (s.sys.context t) { out with isTask := (s.child t).isNone } hheld
        refine h.text_wait_of out hwait ?_ (Or.inl (Family.ownMonitor_tracked_congr htracked (s.space_wait t report out))) hphase
        rw [Family.ownQueue_of_shared (s := s.wait t report out)
          ((s.space_wait t report out t).trans hspace)]
        exact hno
    · have hown' : (s.wait t report out).space t ≠ none := by
        rw [Family.space_wait]
        exact hspace
      refine h.text_wait_of out hwait ?_ ?_ hphase
      · rw [Family.ownQueue_of_own (s := s.wait t report out) hown']
        exact noWrites_filter _
      · exact Family.ownMonitor_wait_of_own hspace out
  case pokes =>
    intro r hr pid hpid
    rcases s.sys.monitor.turn_child (s.codeAt (s.space t)) t (s.sys.context t)
      { out with isTask := (s.child t).isNone } report with
      hnone | ⟨⟨event, hreport⟩, hsigno, htask, hturn⟩
    · cases (hnone r hr).symm.trans hpid
    · have hchild : s.child t ≠ none := by
        intro hnone
        rw [hnone] at htask
        cases htask
      have hr : r ∈ s.sys.monitor.detachChild t := by
        have hqueue : (s.wait t report out).sys.queue = s.sys.monitor.detachChild t :=
          congrArg Turn.requests hturn
        rwa [hqueue] at hr
      have hpid : pid = t := by
        rcases List.mem_append.mp hr with hr | hr
        · obtain ⟨api, -, rfl⟩ := List.mem_map.mp hr
          exact (Option.some.inj hpid).symm
        · cases List.mem_singleton.mp hr
          exact (Option.some.inj hpid).symm
      subst hpid
      refine ⟨?_, s.born_wait pid report out hborn⟩
      rw [Family.space_wait]
      intro hspace
      exact (hshared hchild hspace).2 event hreport hsigno
  case writer =>
    show NoWrites (s.turn t report out).requests ∨ (s.wait t report out).space t ≠ none ∨
      (s.wait t report out).child t = none
    rw [Family.space_wait, Family.child_wait_eq_none_iff]
    by_cases hspace : s.space t = none
    · by_cases hchild : s.child t = none
      · exact Or.inr (Or.inr hchild)
      · exact Or.inl (s.sys.monitor.turn_quiet _ t _ _ (Or.inl (hshared hchild hspace).1)).2
    · exact Or.inr (Or.inl hspace)
  case last =>
    intro hra'
    rw [Family.space_wait, Family.child_wait_eq_none_iff]
    rcases hlast with ⟨hra, hsame⟩ | hra | ⟨htrap, hself⟩
    · rw [show (s.wait t report out).sys.monitor.lastThread = _ from hsame]
      exact h.last fun hzero => hra' (hra.trans hzero)
    · exact absurd hra hra'
    · rw [show (s.wait t report out).sys.monitor.lastThread = _ from hself]
      by_cases hspace : s.space t = none
      · refine Or.inr (not_not.mp fun hchild => ?_)
        exact (hshared hchild hspace).1 htrap
      · exact Or.inl hspace
  case current => exact s.born_wait t report out hborn
  case born =>
    intro hra'
    rcases hlast with ⟨hra, hsame⟩ | hra | ⟨htrap, hself⟩
    · rw [show (s.wait t report out).sys.monitor.lastThread = _ from hsame]
      exact s.born_wait t report out (h.born fun hzero => hra' (hra.trans hzero))
    · exact absurd hra hra'
    · rw [show (s.wait t report out).sys.monitor.lastThread = _ from hself]
      exact s.born_wait t report out hborn

end Wait

/-! ## The requests -/

section Issue

variable {orig : Bytes 64} {s s' : Family} {queue : List Request}

def Family.withQueue (s : Family) (queue : List Request) : Family :=
  { s with sys := { s.sys with queue := queue } }

theorem Family.ownQueue_withQueue (s : Family) (queue : List Request) :
    (s.withQueue queue).ownQueue =
      if s.space s.current = none then queue else queue.filter fun r => !r.isWrite := rfl

theorem Family.ownQueue_cons {r : Request} (hqueue : s.sys.queue = r :: queue)
    (hother : ∀ w, r ≠ .write w) : s.ownQueue = r :: (s.withQueue queue).ownQueue := by
  have hr : (!r.isWrite) = true := by
    cases r with
    | write w => exact absurd rfl (hother w)
    | _ => rfl
  rw [Family.ownQueue_withQueue]
  by_cases hspace : s.space s.current = none
  · rw [Family.ownQueue_of_shared hspace, hqueue, if_pos hspace]
  · rw [Family.ownQueue_of_own hspace, hqueue, if_neg hspace]
    exact List.filter_cons_of_pos (p := fun r : Request => !r.isWrite) hr

/-- A request has been carried out. -/
theorem SharedInv.issue_of (h : SharedInv orig s) {r : Request} (hqueue : s.sys.queue = r :: queue)
    (htext : TextInv orig s'.target) (hmonitor : s'.sys.monitor = s.sys.monitor)
    (hrest : s'.sys.queue = queue) (hcurrent : s'.current = s.current)
    (hspace : ∀ u, s'.space u = s.space u) (hchild : ∀ u, s.child u = none → s'.child u = none)
    (hborn : ∀ u, s.sys.status u ≠ .unborn → s'.sys.status u ≠ .unborn) : SharedInv orig s' := by
  have hmem : ∀ r', r' ∈ queue → r' ∈ s.sys.queue := by
    rw [hqueue]
    exact fun r' => List.mem_cons_of_mem _
  refine ⟨htext, ?_, ?_, ?_, ?_, ?_⟩
  · rw [hrest]
    intro r' hr' pid hpid
    rw [hspace]
    exact (h.pokes r' (hmem r' hr') pid hpid).imp id (hborn pid)
  · rw [hrest, hcurrent, hspace]
    exact h.writer.imp (fun hno w hw => hno w (hmem _ hw)) (Or.imp_right (hchild _))
  · rw [hmonitor, hspace]
    exact fun hra => (h.last hra).imp_right (hchild _)
  · rw [hcurrent]
    exact hborn _ h.current
  · rw [hmonitor]
    exact fun hra => hborn _ (h.born hra)

theorem SharedInv.issueWrite (h : SharedInv orig s) {w : Write}
    (hqueue : s.sys.queue = .write w :: queue) :
    SharedInv orig ((s.withQueue queue).setCode (s.space s.current)
      ((s.codeAt (s.space s.current)).write w)) := by
  cases hspace : s.space s.current with
  | none =>
      have hown : s.target.queue = .write w :: queue :=
        (Family.ownQueue_of_shared hspace).trans hqueue
      refine h.issue_of hqueue ?_ rfl rfl rfl (fun _ => rfl) (fun _ hu => hu) fun _ hu => hu
      have hrest : (s.withQueue queue).ownQueue = queue := by
        rw [Family.ownQueue_withQueue, if_pos hspace]
      show TextInv orig { s.target with
        code := s.sys.code.write w, queue := (s.withQueue queue).ownQueue }
      rw [hrest]
      exact ⟨h.text.toTraceInv.issueWrite hown, h.text.toPatchInv.issueWrite hown⟩
  | some i =>
      refine h.issue_of hqueue ?_ rfl rfl rfl (fun _ => rfl) (fun _ hu => hu) fun _ hu => hu
      -- the target does not see the write
      have hown : s.space s.current ≠ none := by
        rw [hspace]
        simp
      have hrest : (s.withQueue queue).ownQueue = s.ownQueue := by
        rw [Family.ownQueue_withQueue, if_neg hown, Family.ownQueue_of_own hown, hqueue]
        rfl
      show TextInv orig { s.target with queue := (s.withQueue queue).ownQueue }
      rw [hrest]
      exact h.text

/-- A request that is no write, as the target sees it. -/
theorem SharedInv.text_issueOther (h : SharedInv orig s) {r : Request}
    (hqueue : s.sys.queue = r :: queue) (hother : ∀ w, r ≠ .write w) :
    TextInv orig (s.withQueue queue).target :=
  ⟨h.text.toTraceInv.issueOther (Family.ownQueue_cons hqueue hother) hother,
    h.text.patchInv_issueOther (Family.ownQueue_cons hqueue hother) hother⟩

theorem SharedInv.issueOther (h : SharedInv orig s) {r : Request}
    (hqueue : s.sys.queue = r :: queue) (hother : ∀ w, r ≠ .write w) :
    SharedInv orig (s.withQueue queue) :=
  h.issue_of hqueue (h.text_issueOther hqueue hother) rfl rfl rfl (fun _ => rfl) (fun _ hu => hu)
    fun _ hu => hu

theorem Family.target_resume_of_own {t : Pid} (h : s.space t ≠ none) :
    s.target.resume t = s.target := by
  rw [System.resume, Family.target_status_of_own h]
  exact if_neg (by simp)

/-- `ptrace_continue`, as the target sees it. -/
theorem Family.target_resume (s : Family) (t : Pid) :
    ({ s with sys := s.sys.resume t } : Family).target = s.target.resume t := by
  by_cases hspace : s.space t = none
  · unfold System.resume
    rw [Family.target_status_of_shared hspace, Family.target_context_of_shared hspace]
    split
    · exact Family.target_setThread_of_shared hspace _
    · rfl
  · rw [Family.target_resume_of_own hspace]
    unfold System.resume
    split
    · exact Family.target_setThread_of_own hspace _
    · rfl

theorem SharedInv.issueResume (h : SharedInv orig s) {t : Pid} {signum : Option Signo}
    (hqueue : s.sys.queue = .resume t signum :: queue) :
    SharedInv orig { s with sys := { s.sys with queue := queue }.resume t } := by
  obtain ⟨hmonitor, -, hrest, -⟩ := System.resume_keeps { s.sys with queue := queue } t
  refine h.issue_of hqueue ?_ hmonitor hrest rfl (fun _ => rfl) (fun _ hu => hu) ?_
  · have htarget := (s.withQueue queue).target_resume t
    have hstep : s.target.step .issue = some ((s.withQueue queue).target.resume t) := by
      rw [System.step, show s.target.queue = _ from Family.ownQueue_cons hqueue (by simp)]
      rfl
    have htraces : s.target.Traces .issue := ⟨trivial, trivial⟩
    rw [← htarget] at hstep
    exact textInv_step h.text htraces hstep
  · exact fun u hu => System.born_resume { s.sys with queue := queue } hu

theorem SharedInv.writeChild (h : SharedInv orig s) {pid : Pid} {address data : Word}
    (hqueue : s.sys.queue = .writeChild pid address data :: queue) :
    SharedInv orig (s.writeChild queue pid address data) := by
  have hspace := (h.pokes _ (by rw [hqueue]; exact List.mem_cons_self) pid rfl).1
  unfold Family.writeChild
  cases hpid : s.space pid with
  | none => exact absurd hpid hspace
  | some i =>
      exact h.issue_of hqueue (h.text_issueOther hqueue (by simp)) rfl rfl rfl (fun _ => rfl)
        (fun _ hu => hu) fun _ hu => hu

theorem SharedInv.detach (h : SharedInv orig s) {pid : Pid}
    (hqueue : s.sys.queue = .detach pid :: queue) : SharedInv orig (s.detach queue pid) := by
  have hpid := (h.pokes _ (by rw [hqueue]; exact List.mem_cons_self) pid rfl).1
  have hspace := s.space_detach queue pid
  obtain ⟨hmonitor, -, hrest, -⟩ := s.detach_keeps queue pid
  -- the target does not see that the child process runs
  have htarget : (s.detach queue pid).target = (s.withQueue queue).target.resume pid := by
    rw [← (s.withQueue queue).target_resume pid]
    have hmonitor' : (s.detach queue pid).ownMonitor =
        ({ s.withQueue queue with sys := (s.withQueue queue).sys.resume pid } :
          Family).ownMonitor := by
      unfold Family.ownMonitor
      rw [hspace]
      rfl
    have hqueue' : (s.detach queue pid).ownQueue =
        ({ s.withQueue queue with sys := (s.withQueue queue).sys.resume pid } :
          Family).ownQueue := by
      unfold Family.ownQueue
      rw [hspace]
      rfl
    have hthreads' : (s.detach queue pid).ownThreads =
        ({ s.withQueue queue with sys := (s.withQueue queue).sys.resume pid } :
          Family).ownThreads := by
      funext u
      unfold Family.ownThreads
      rw [hspace]
      rfl
    rw [Family.target, hmonitor', hqueue', hthreads']
    rfl
  have hunseen : (s.withQueue queue).target.resume pid = (s.withQueue queue).target :=
    Family.target_resume_of_own hpid
  refine h.issue_of hqueue ?_ hmonitor hrest rfl hspace ?_ ?_
  · rw [htarget, hunseen]
    exact h.text_issueOther hqueue (by simp)
  · exact fun u hu => s.child_detach_of_none queue pid hu
  · exact fun u hu => s.born_detach queue pid hu

end Issue

/-! ## The theorem -/

namespace Family

/-- The conditions on a run: the target is one that the loop is made for, and of a
child process that has the memory of the target no first stop is processed but
while `g_signo` is set, and no trap. -/
def Undisturbed (s : Family) : FamilyLabel → Prop
  | .sys (.wait t _) => s.child t ≠ none → s.space t = none →
      ¬ s.sys.Trapped t ∧
        ∀ event, s.sys.status t = .pending (.stop .sigstop event) → s.sys.monitor.signo ≠ none
  | label => s.Traces label

/-- The loop processes a trap of a thread of the target. -/
def OwnTrap (s : Family) : FamilyLabel → Prop
  | .sys (.wait t _) => s.child t = none ∧ s.sys.Trapped t
  | _ => False

instance (s : Family) : (label : FamilyLabel) → Decidable (s.Undisturbed label)
  | .sys (.wait _ _) => inferInstanceAs (Decidable (_ → _ → _ ∧ ∀ _ : Bool, _ → _))
  | .sys (.fetch t ctx) => inferInstanceAs (Decidable (s.Traces (.sys (.fetch t ctx))))
  | .sys (.signal t signum ctx) =>
      inferInstanceAs (Decidable (s.Traces (.sys (.signal t signum ctx))))
  | .sys (.clone _ _ _) | .sys (.exit _) | .sys (.interrupt _) | .sys (.waitFails _)
  | .sys .issue | .fork _ _ _ | .vfork _ _ _ | .exec _ _ _ => inferInstanceAs (Decidable True)

instance (s : Family) : (label : FamilyLabel) → Decidable (s.OwnTrap label)
  | .sys (.wait _ _) => inferInstanceAs (Decidable (_ ∧ _))
  | .sys (.fetch _ _) | .sys (.signal _ _ _) | .sys (.clone _ _ _) | .sys (.exit _)
  | .sys (.interrupt _) | .sys (.waitFails _) | .sys .issue | .fork _ _ _ | .vfork _ _ _
  | .exec _ _ _ => inferInstanceAs (Decidable False)

theorem phase_step {s s' : Family} {label : FamilyLabel} (hstep : s.step label = some s')
    (hphase : s'.sys.phase = .loop) : s.sys.phase = .loop := by
  cases step_kind hstep with
  | wait t report out hpending hwait => exact hwait.1
  | waitError hwait => exact hwait.1
  | issueWrite w queue hqueue =>
      rw [(setCode_keeps _ _ _).2.1] at hphase
      exact hphase
  | issueResume t signum queue hqueue =>
      exact (System.resume_keeps { s.sys with queue := queue } t).2.2.2.symm.trans hphase
  | writeChild pid address data queue hqueue =>
      rw [writeChild, (setCode_keeps _ _ _).2.1] at hphase
      exact hphase
  | detach pid queue hqueue => exact (s.detach_keeps queue pid).2.2.2.symm.trans hphase
  | _ => exact hphase

theorem step_breakpoints {s s' : Family} {label : FamilyLabel} (hstep : s.step label = some s') :
    s'.sys.monitor.breakpoints = s.sys.monitor.breakpoints := by
  cases step_kind hstep with
  | wait t report out hpending hwait =>
      exact (s.sys.monitor.turn_keeps _ t (s.sys.context t) _ report).2
  | issueWrite w queue hqueue => rw [(setCode_keeps _ _ _).1]
  | issueResume t signum queue hqueue =>
      rw [(System.resume_keeps { s.sys with queue := queue } t).1]
  | writeChild pid address data queue hqueue => rw [writeChild, (setCode_keeps _ _ _).1]
  | detach pid queue hqueue => rw [(s.detach_keeps queue pid).1]
  | _ => rfl

end Family

section Step

variable {orig : Bytes 64} {s s' : Family}

/-- **Every step keeps the text of the target right**, while the loop goes on. -/
theorem sharedInv_step (h : SharedInv orig s) {label : FamilyLabel} (hok : s.Undisturbed label)
    (hstep : s.step label = some s') (hphase : s'.sys.phase = .loop) : SharedInv orig s' := by
  cases Family.step_kind hstep with
  | trap t ctx hrun hbyte htraced => exact h.trap hrun hbyte hok
  | execute t ctx hrun hbyte => exact h
  | signal t signum ctx hrun htraced =>
      refine h.setThread (by simp) ?_ (Or.inl hrun)
      intro hspace heq
      cases heq
      exact (hok hspace).1 rfl
  | clone t u ctx hrun hunborn htraced =>
      exact h.create hrun hunborn rfl rfl fun v hne => Function.update_of_ne hne _ _
  | fork t u ctx hrun hunborn htraced =>
      exact h.create hrun hunborn rfl rfl fun v hne => Function.update_of_ne hne _ _
  | vfork t u ctx hrun hunborn htraced =>
      exact h.create hrun hunborn rfl rfl fun v hne => Function.update_of_ne hne _ _
  | exec t ctx text c hchild hrun thread hthread =>
      refine h.exec hchild hrun ?_ text
      rw [hthread]
      split <;> simp
  | exit t hborn htraced => exact h.setThread (by simp) (fun _ => by simp) (Or.inr rfl)
  | leave t hrun htraced => exact h.setThread (by simp) (fun _ => by simp) (Or.inl hrun)
  | interrupt signum =>
      refine ⟨?_, h.pokes, h.writer, h.last, h.current, h.born⟩
      refine h.text.congr (Family.ownMonitor_tracked_congr rfl fun _ => rfl) ?_ rfl rfl rfl hphase
      exact Family.ownMonitor_breakpoints.trans (Family.ownMonitor_breakpoints (s := s)).symm
  | wait t report out hpending hwait =>
      refine h.wait out hpending hwait ?_ hphase
      intro hchild hspace
      obtain ⟨htrapped, hsigstop⟩ := hok hchild hspace
      refine ⟨?_, ?_⟩
      · rintro rfl
        exact htrapped hpending
      · rintro event rfl
        exact hsigstop event hpending
  | waitAgain hwait => exact h
  | waitError hwait => cases hphase
  | issueWrite w queue hqueue => exact h.issueWrite hqueue
  | issueResume t signum queue hqueue => exact h.issueResume hqueue
  | issueAlarm seconds queue hqueue => exact h.issueOther hqueue (by simp)
  | writeChild pid address data queue hqueue => exact h.writeChild hqueue
  | detach pid queue hqueue => exact h.detach hqueue

/-- **Nothing but a trap of the target changes its tracked call**, as the target
sees it. -/
theorem SharedInv.tracked_step (h : SharedInv orig s) {label : FamilyLabel}
    (hok : s.Undisturbed label) (htrap : ¬ s.OwnTrap label) (hstep : s.step label = some s') :
    s'.ownMonitor.tracked = s.ownMonitor.tracked ∨
      (s.ownMonitor.returnAddress = 0 ∧ s'.ownMonitor.returnAddress = 0) := by
  -- the loop does not run, and no thread of the target gets another memory
  have hrecord : s'.sys.monitor = s.sys.monitor →
      (∀ u, s.sys.status u ≠ .unborn →
        s'.child u = s.child u ∨ (s.child u ≠ none ∧ s'.space u ≠ none)) →
      s'.ownMonitor.tracked = s.ownMonitor.tracked := by
    intro hmonitor hchild
    rw [h.ownMonitor_record hmonitor hchild]
  have hcreate : ∀ u, s.sys.status u = .unborn → s'.sys.monitor = s.sys.monitor →
      (∀ v, v ≠ u → s'.child v = s.child v) → s'.ownMonitor.tracked = s.ownMonitor.tracked := by
    intro u hunborn hmonitor hchild
    refine hrecord hmonitor fun v hv => Or.inl (hchild v ?_)
    rintro rfl
    exact hv hunborn
  cases Family.step_kind hstep with
  | trap t ctx hrun hbyte htraced => exact Or.inl (Family.ownMonitor_tracked_congr rfl fun _ => rfl)
  | execute t ctx hrun hbyte => exact Or.inl rfl
  | signal t signum ctx hrun htraced =>
      exact Or.inl (Family.ownMonitor_tracked_congr rfl fun _ => rfl)
  | clone t u ctx hrun hunborn htraced =>
      exact Or.inl (hcreate u hunborn rfl fun v hne => Function.update_of_ne hne _ _)
  | fork t u ctx hrun hunborn htraced =>
      exact Or.inl (hcreate u hunborn rfl fun v hne => Function.update_of_ne hne _ _)
  | vfork t u ctx hrun hunborn htraced =>
      exact Or.inl (hcreate u hunborn rfl fun v hne => Function.update_of_ne hne _ _)
  | exec t ctx text c hchild hrun thread hthread =>
      refine Or.inl (hrecord rfl fun u _ => ?_)
      by_cases heq : u = t
      · subst heq
        refine Or.inr ⟨by rw [hchild]; simp, ?_⟩
        rw [Family.space_newSpace_self]
        simp
      · exact Or.inl (Function.update_of_ne heq _ _)
  | exit t hborn htraced => exact Or.inl (Family.ownMonitor_tracked_congr rfl fun _ => rfl)
  | leave t hrun htraced => exact Or.inl (Family.ownMonitor_tracked_congr rfl fun _ => rfl)
  | interrupt signum => exact Or.inl (Family.ownMonitor_tracked_congr rfl fun _ => rfl)
  | wait t report out hpending hwait =>
      by_cases hspace : s.space t = none
      · have hquiet : report ≠ .stop .sigtrap false := by
          rintro rfl
          by_cases hchild : s.child t = none
          · exact htrap ⟨hchild, hpending⟩
          · exact (hok hchild hspace).1 hpending
        exact Or.inl (Family.ownMonitor_tracked_congr
          (s.sys.monitor.turn_quiet _ t _ _ (Or.inl hquiet)).1 (s.space_wait t report out))
      · exact Family.ownMonitor_wait_of_own hspace out
  | waitAgain hwait => exact Or.inl rfl
  | waitError hwait => exact Or.inl (Family.ownMonitor_tracked_congr rfl fun _ => rfl)
  | issueWrite w queue hqueue =>
      obtain ⟨hmonitor, -, hchild⟩ := (s.withQueue queue).setCode_keeps (s.space s.current)
        ((s.codeAt (s.space s.current)).write w)
      exact Or.inl (Family.ownMonitor_tracked_congr (congrArg Monitor.tracked hmonitor)
        fun u => Family.space_congr (congrFun hchild u))
  | issueResume t signum queue hqueue =>
      obtain ⟨hmonitor, -⟩ := System.resume_keeps { s.sys with queue := queue } t
      exact Or.inl (Family.ownMonitor_tracked_congr (congrArg Monitor.tracked hmonitor) fun _ => rfl)
  | issueAlarm seconds queue hqueue =>
      exact Or.inl (Family.ownMonitor_tracked_congr rfl fun _ => rfl)
  | writeChild pid address data queue hqueue =>
      obtain ⟨hmonitor, -, hchild⟩ := (s.withQueue queue).setCode_keeps (s.space pid)
        { s.codeAt (s.space pid) with
          text := ptraceSetData (s.codeAt (s.space pid)).text address data }
      exact Or.inl (Family.ownMonitor_tracked_congr (congrArg Monitor.tracked hmonitor)
        fun u => Family.space_congr (congrFun hchild u))
  | detach pid queue hqueue =>
      obtain ⟨hmonitor, -⟩ := s.detach_keeps queue pid
      exact Or.inl (Family.ownMonitor_tracked_congr (congrArg Monitor.tracked hmonitor)
        (s.space_detach queue pid))

end Step

section Theorem

variable {symtabByName : Api → Word} {text : Bytes 64} {targetPid : Pid} {limits : Limits}
  {others : Pid → Bool} {s₀ : System} {s s' : Family}

theorem sharedInv_begin
    (hbegin : System.begin symtabByName text targetPid limits others = some s₀)
    (hapart : ∀ api other, api ≠ other →
      ¬ Bytes.Within 8 (symtabByName api) (symtabByName other)) :
    SharedInv text (.start s₀) := by
  obtain ⟨htarget, hstopped⟩ := System.status_begin hbegin
  obtain ⟨htext, -⟩ := textInv_begin hbegin hapart
  have hborn : s₀.status s₀.monitor.targetPid ≠ .unborn := by
    rw [htarget, hstopped]
    simp
  obtain ⟨init, -, rfl⟩ := Option.map_eq_some_iff.mp hbegin
  refine ⟨htext, ?_, Or.inr (Or.inr rfl), fun _ => Or.inr rfl, hborn, fun hra => absurd rfl hra⟩
  have hno : NoChildren (init.writes.map Request.write ++ [.resume targetPid none]) :=
    (noChildren_writes init.writes).append (by simp [NoChildren, Request.childPid])
  intro r hr pid hpid
  cases (hno r hr).symm.trans hpid

/-- The run so far, while the loop goes on. -/
theorem sharedInv_reachable
    (hbegin : System.begin symtabByName text targetPid limits others = some s₀)
    (hapart : ∀ api other, api ≠ other →
      ¬ Bytes.Within 8 (symtabByName api) (symtabByName other))
    (hs : Reachable Family.step Family.Undisturbed (.start s₀) s) :
    (s.sys.phase = .loop → SharedInv text s) ∧
      s.sys.monitor.breakpoints = hookedBreakpoints symtabByName text := by
  refine Reachable.invariant
    (fun s => (s.sys.phase = .loop → SharedInv text s) ∧
      s.sys.monitor.breakpoints = hookedBreakpoints symtabByName text) hs
    ⟨fun _ => sharedInv_begin hbegin hapart, (textInv_begin hbegin hapart).2⟩ ?_
  rintro s label s' ⟨h, hbps⟩ hok hstep
  refine ⟨?_, (Family.step_breakpoints hstep).trans hbps⟩
  intro hphase
  exact sharedInv_step (h (Family.phase_step hstep hphase)) hok hstep hphase

/-- Without a tracked call every entry has its trap byte. -/
theorem Tracked.traps_of_idle {k : Tracked} (h : k.returnAddress = 0) :
    k.traps symtabByName = Set.range symtabByName := by
  ext a
  constructor
  · rintro (⟨api, rfl, -⟩ | ⟨hne, -⟩)
    · exact ⟨api, rfl⟩
    · exact absurd h hne
  · rintro ⟨api, rfl⟩
    exact Or.inl ⟨api, rfl, fun hbusy => hbusy.1 h⟩

/-- The text of the target when the loop waits. -/
theorem SharedInv.text_eq (h : SharedInv text s)
    (hbps : s.sys.monitor.breakpoints = hookedBreakpoints symtabByName text)
    (hwait : s.sys.AtWaitpid) :
    s.sys.code.text = planted text trapByte (s.ownMonitor.tracked.traps symtabByName) := by
  refine h.text.text_eq (Family.ownMonitor_breakpoints.trans hbps) ?_
  rw [show s.target.queue = _ from Family.ownQueue_of_empty hwait.2]
  exact noWrites_nil

/-- Nothing but a trap of the target changes which breakpoints have to stand in its
text. -/
theorem SharedInv.traps_step (h : SharedInv text s) {label : FamilyLabel}
    (hok : s.Undisturbed label) (htrap : ¬ s.OwnTrap label) (hstep : s.step label = some s') :
    s'.ownMonitor.tracked.traps symtabByName = s.ownMonitor.tracked.traps symtabByName := by
  rcases h.tracked_step hok htrap hstep with hsame | ⟨hra, hra'⟩
  · rw [hsame]
  · rw [Tracked.traps_of_idle (k := s.ownMonitor.tracked) hra,
      Tracked.traps_of_idle (k := s'.ownMonitor.tracked) hra']

/-- A stretch of a run without a trap of the target. -/
theorem traps_run
    (hbegin : System.begin symtabByName text targetPid limits others = some s₀)
    (hapart : ∀ api other, api ≠ other →
      ¬ Bytes.Within 8 (symtabByName api) (symtabByName other))
    (hs : Reachable Family.step Family.Undisturbed (.start s₀) s)
    (hs' : Reachable Family.step (fun s label => s.Undisturbed label ∧ ¬ s.OwnTrap label) s s') :
    Reachable Family.step Family.Undisturbed (.start s₀) s' ∧
      (s'.sys.phase = .loop →
        s'.ownMonitor.tracked.traps symtabByName = s.ownMonitor.tracked.traps symtabByName) := by
  induction hs' with
  | start => exact ⟨hs, fun _ => rfl⟩
  | step _ hok hnext ih =>
      obtain ⟨hreach, htraps⟩ := ih
      refine ⟨hreach.step hok.1 hnext, ?_⟩
      intro hphase'
      have hphase := Family.phase_step hnext hphase'
      have h := (sharedInv_reachable hbegin hapart hreach).1 hphase
      exact (h.traps_step hok.1 hok.2 hnext).trans (htraps hphase)

end Theorem

end Memleax
