import Memleax.Tracer.Detach
import Memleax.Tracer.Held

/-!
# After the loop

`main` cleans up the text and detaches through `g_target_pid`, whichever thread
was stopped when the loop was left, and the end of memleax releases all other
threads. A request takes effect only on a thread that is in a ptrace stop, and
the other threads go on meanwhile (`Ending`).

So it depends on the stop that ends the loop. At a stop of `g_target_pid` the
clean-up works. At a stop of another thread `g_target_pid` may be running, and
nothing is written. A thread that has executed a trap byte, and whose stop has
not been reported, is released behind it.
-/

namespace Memleax

open Framework

/-- In a ptrace stop, reported or not. -/
def Status.ptraceStopped : Status → Bool
  | .stopped | .pending (.stop _ _) => true
  | .unborn | .running | .pending .exit | .exited => false

/-- The thread `t` is in a ptrace stop. -/
def System.PtraceStopped (s : System) (t : Pid) : Prop := (s.status t).ptraceStopped = true

instance (s : System) (t : Pid) : Decidable (s.PtraceStopped t) :=
  inferInstanceAs (Decidable (_ = _))

/-- What `main` does after the loop. -/
inductive Final where
  /-- `ptrace_set_data(g_target_pid, address, data)` -/
  | poke (address data : Word)
  /-- `ptrace_detach(g_target_pid, 0)` -/
  | detach
  /-- memleax ends, and the kernel releases all its threads -/
  | finish
deriving DecidableEq, Repr

/-- `breakpoint_cleanup(g_target_pid)`, and the return code of a pending call. -/
def Monitor.cleanup (m : Monitor) : List (Word × Word) :=
  (Api.all.map fun api => ((m.breakpoints api).entryAddress, (m.breakpoints api).entryCode)) ++
    if m.returnAddress ≠ 0 then [(m.returnAddress, m.returnCode)] else []

/-- The writes `pokes`, one after the other. -/
def pokeAll (pokes : List (Word × Word)) (text : Bytes 64) : Bytes 64 :=
  pokes.foldl (fun text poke => ptraceSetData text poke.1 poke.2) text

/-- All of them make up the text that `Detach` is about. -/
theorem Monitor.pokeAll_cleanup (m : Monitor) (text : Bytes 64) :
    pokeAll m.cleanup text = m.detachText text := by
  unfold pokeAll Monitor.cleanup Monitor.detachText breakpointCleanup
  rw [List.foldl_append, List.foldl_map]
  split <;> rfl

def finals (pokes : List (Word × Word)) : List Final :=
  pokes.map (fun poke => .poke poke.1 poke.2) ++ [.detach, .finish]

namespace System

/-- A write takes effect only while `g_target_pid` is in a ptrace stop. -/
def poke (s : System) (address data : Word) : System :=
  if s.PtraceStopped s.monitor.targetPid then
    { s with code := { s.code with text := ptraceSetData s.code.text address data } }
  else s

/-- The thread as it is released from a ptrace stop. -/
def released (s : System) (t : Pid) : Thread :=
  if s.PtraceStopped t then ⟨.running, s.context t⟩ else s.threads t

def detach (s : System) : System := s.setThread s.monitor.targetPid (s.released s.monitor.targetPid)

def releaseAll (s : System) : System := { s with threads := s.released }

end System

structure Ending where
  sys : System
  /-- what `main` has still to do after the loop -/
  todo : Option (List Final) := none

inductive EndLabel where
  | sys (label : Label)
  /-- the loop is over and all its requests have been carried out -/
  | clean
  | advance

namespace Ending

def clean (e : Ending) : Option Ending :=
  match e.todo, e.sys.phase with
  | none, .left _ =>
      if e.sys.queue = [] then some { e with todo := some (finals e.sys.monitor.cleanup) } else none
  | _, _ => none

def advance (e : Ending) : Option Ending :=
  match e.todo with
  | some (.poke address data :: rest) => some ⟨e.sys.poke address data, some rest⟩
  | some (.detach :: rest) => some ⟨e.sys.detach, some rest⟩
  | some (.finish :: rest) => some ⟨e.sys.releaseAll, some rest⟩
  | some [] | none => none

def step (e : Ending) : EndLabel → Option Ending
  | .sys label => (e.sys.step label).map (⟨·, e.todo⟩)
  | .clean => e.clean
  | .advance => e.advance

end Ending

/-! ## What has to hold of the stop that ends the loop -/

/-- The exits of the loop at which the target goes on. -/
def Phase.ended : Phase → Bool
  | .left .terminate | .left .notEnoughMemory | .left .unknownBreakpoint | .left .tooMany => true
  | .left .waitError | .left .targetExit | .loop | .undefined => false

/-- If the loop is left at the stop of `t`, then that is `g_target_pid`, or
`g_target_pid` is in a ptrace stop from which the iteration does not wake it; and
no other thread has a trap that is not reported. -/
def System.EndsAt (s : System) (t : Pid) (out : Outside) : Prop :=
  ∀ s', s.step (.wait t out) = some s' → s'.phase.ended = true →
    (t = s.monitor.targetPid ∨
      (s.PtraceStopped s.monitor.targetPid ∧
        ¬ (s'.phase = .left .tooMany ∧ s.Trapped t ∧
          (s.instruction t).regs.rip = s.monitor.returnAddress ∧
          s.monitor.holdThreads.head? = some s.monitor.targetPid))) ∧
    ∀ u, u ≠ t → ¬ s.Trapped u

namespace Ending

/-- The conditions on a run: a target that the loop is made for, a loop that is
left at a good moment, no trap after that, and no entry that `Detach` leaves
armed. -/
def Orderly (symtabByName : Api → Word) (text : Bytes 64) (e : Ending) : EndLabel → Prop
  | .sys label =>
      e.sys.Traces label ∧ (∀ t out, label = .wait t out → e.sys.EndsAt t out) ∧
        ∀ t ctx, label = .fetch t ctx → e.sys.phase.ended = true →
          e.sys.code.text ctx.regs.rip ≠ trapByte
  | .clean =>
      e.sys.monitor.returnAddress ≠ 0 → ∀ api, e.sys.monitor.bp ≠ some api →
        Bytes.Within 8 e.sys.monitor.returnAddress (symtabByName api) →
        text (symtabByName api) = trapByte
  | .advance => True

/-- The next thing that `main` does releases `t`. -/
def Releases (e : Ending) (t : Pid) : Prop :=
  ∃ rest, (e.todo = some (.detach :: rest) ∧ t = e.sys.monitor.targetPid) ∨
    e.todo = some (.finish :: rest)

/-- Detaching is safe. -/
structure Safe (text : Bytes 64) (e : Ending) : Prop where
  /-- the clean-up and `ptrace_detach` are issued for a stopped thread -/
  stopped : ∀ next rest, e.todo = some (next :: rest) → next ≠ .finish →
    e.sys.PtraceStopped e.sys.monitor.targetPid
  /-- after the clean-up no breakpoint is left -/
  restored : ∀ rest, e.todo = some rest → (∀ address data, .poke address data ∉ rest) →
    e.sys.code.text = text
  /-- a thread that is released has been moved back -/
  moved : ∀ t, e.Releases t → ¬ e.sys.Trapped t

end Ending

theorem System.step_targetPid {s s' : System} {label : Label} (h : s.step label = some s') :
    s'.monitor.targetPid = s.monitor.targetPid := by
  cases System.step_kind h with
  | wait t report out hpending hwait => exact (s.monitor.turn_globals _ t _ _ report).1
  | issueResume t signum queue hqueue =>
      unfold System.resume
      split <;> rfl
  | _ => rfl

/-! ## The threads after the loop -/

namespace System

variable {s s' : System} {label : Label}

theorem alive_of_step (h : s.step label = some s') {u : Pid} (hu : s'.Alive u) : s.Alive u := by
  cases status_step h u with
  | same label hsame =>
      rw [Alive, hsame] at hu
      exact hu
  | trap ctx hrun hbyte hnew => exact alive_of_running hrun
  | signal signum ctx hrun hnew => exact alive_of_running hrun
  | creates child ctx hrun hnew => exact alive_of_running hrun
  | created t ctx hunborn hnew => simp [Alive, hunborn]
  | exit hborn hnew => exact absurd hnew hu.1
  | reported report out hpending hwait hnew =>
      have hreport : report ≠ .exit := by
        intro hexit
        rw [if_pos hexit] at hnew
        exact hu.2 hnew
      simp [Alive, hpending, hreport]
  | resumed signum queue hqueue hstopped hnew => simp [Alive, hstopped]

/-- A thread stays in its ptrace stop as long as it lives and nothing resumes it. -/
theorem ptraceStopped_step (h : s.step label = some s') {u : Pid} (hu : s.PtraceStopped u)
    (hresumes : Resumes (· ≠ u) s.queue) (halive : s'.Alive u) : s'.PtraceStopped u := by
  have hnot : ∀ {status : Status}, s.status u = status → status.ptraceStopped ≠ false := by
    rintro status rfl hfalse
    cases hfalse.symm.trans hu
  cases status_step h u with
  | same label hsame =>
      rw [PtraceStopped, hsame]
      exact hu
  | trap ctx hrun hbyte hnew => exact absurd rfl (hnot hrun)
  | signal signum ctx hrun hnew => exact absurd rfl (hnot hrun)
  | creates child ctx hrun hnew => exact absurd rfl (hnot hrun)
  | created t ctx hunborn hnew => exact absurd rfl (hnot hunborn)
  | exit hborn hnew => exact absurd hnew halive.1
  | reported report out hpending hwait hnew =>
      have hreport : report ≠ .exit := by
        rintro rfl
        exact hnot hpending rfl
      rw [PtraceStopped, hnew, if_neg hreport]
      rfl
  | resumed signum queue hqueue hstopped hnew =>
      have hne := hresumes u signum (by rw [hqueue]; exact List.mem_cons_self)
      exact absurd rfl hne

/-- No thread gets a trap that it has not had, unless it executes a trap byte. -/
theorem not_trapped_step (h : s.step label = some s') (hok : s.Traces label)
    (hfetch : ∀ t ctx, label = .fetch t ctx → s.code.text ctx.regs.rip ≠ trapByte) {u : Pid}
    (hu : ¬ s.Trapped u) : ¬ s'.Trapped u := by
  cases status_step h u with
  | same label hsame =>
      rw [Trapped, hsame]
      exact hu
  | trap ctx hrun hbyte hnew => exact absurd hbyte (hfetch u ctx rfl)
  | signal signum ctx hrun hnew =>
      intro htrapped
      cases hnew.symm.trans htrapped
      exact hok.1 rfl
  | creates child ctx hrun hnew => simp [Trapped, hnew]
  | created t ctx hunborn hnew => simp [Trapped, hnew]
  | exit hborn hnew => simp [Trapped, hnew]
  | reported report out hpending hwait hnew =>
      rw [Trapped, hnew]
      split <;> simp
  | resumed signum queue hqueue hstopped hnew => simp [Trapped, hnew]

theorem queue_step (h : s.step label = some s') (hphase : s.phase ≠ .loop) :
    s'.phase = s.phase ∧ s'.queue <:+ s.queue ∧ (s.queue = [] → s'.code = s.code) := by
  cases step_kind h with
  | wait t report out hpending hwait => exact absurd hwait.1 hphase
  | waitAgain hwait => exact absurd hwait.1 hphase
  | waitError hwait => exact absurd hwait.1 hphase
  | issueWrite w queue hqueue =>
      rw [hqueue]
      exact ⟨rfl, List.suffix_cons _ _, by simp⟩
  | issueResume t signum queue hqueue =>
      rw [hqueue]
      unfold resume
      split <;> exact ⟨rfl, List.suffix_cons _ _, by simp⟩
  | issueOther r queue hqueue hother =>
      rw [hqueue]
      exact ⟨rfl, List.suffix_cons _ _, by simp⟩
  | _ => exact ⟨rfl, List.suffix_rfl, fun _ => rfl⟩

end System

/-- `g_target_pid` is in a ptrace stop for good, and every thread that has executed
a trap byte has been moved back. -/
structure Ready (s : System) : Prop where
  stopped : s.Alive s.monitor.targetPid → s.PtraceStopped s.monitor.targetPid
  kept : Resumes (· ≠ s.monitor.targetPid) s.queue
  moved : ∀ t, ¬ s.Trapped t

section Ready

variable {s s' : System} {label : Label}

theorem Ready.step (h : Ready s) (hphase : s.phase ≠ .loop) (hstep : s.step label = some s')
    (hok : s.Traces label)
    (hfetch : ∀ t ctx, label = .fetch t ctx → s.code.text ctx.regs.rip ≠ trapByte) :
    Ready s' := by
  have htarget := System.step_targetPid hstep
  have hqueue := (System.queue_step hstep hphase).2.1
  refine ⟨?_, ?_, fun t => System.not_trapped_step hstep hok hfetch (h.moved t)⟩
  · rw [htarget]
    intro halive
    exact System.ptraceStopped_step hstep (h.stopped (System.alive_of_step hstep halive)) h.kept
      halive
  · rw [htarget]
    exact fun t signum ht => h.kept t signum (hqueue.subset ht)

theorem Monitor.turn_exit_ended (m : Monitor) (code : Code) (pid : Pid) (ctx : Context)
    (out : Outside) : (m.turn code pid .exit ctx out).phase.ended = false := by
  rw [Monitor.turn]
  split <;> rfl

/-- A loop that is left at a good moment leaves the threads ready. -/
theorem ready_wait (hk : HoldInv s) {t : Pid} {out : Outside}
    (hstep : s.step (.wait t out) = some s') (hends : s.EndsAt t out)
    (hended : s'.phase.ended = true) : Ready s' := by
  obtain ⟨hplace, hothers⟩ := hends s' hstep hended
  have htarget := System.step_targetPid hstep
  have hnotloop : s'.phase ≠ .loop := by
    intro hloop
    rw [hloop] at hended
    cases hended
  cases System.step_kind hstep with
  | wait t report out hpending hwait =>
      have hreport : report ≠ .exit := by
        rintro rfl
        have hfalse := s.monitor.turn_exit_ended s.code t (s.context t) out
        exact Bool.noConfusion (hended.symm.trans hfalse)
      have hself : (s.wait t report out).PtraceStopped t := by
        rw [System.PtraceStopped, System.status_wait_self, if_neg hreport]
        rfl
      refine ⟨?_, ?_, ?_⟩
      · intro _
        rw [htarget]
        by_cases heq : s.monitor.targetPid = t
        · rw [heq]
          exact hself
        · rw [System.PtraceStopped, System.status_wait_of_ne _ _ _ heq]
          exact (hplace.resolve_left (Ne.symm heq)).1
      · -- an iteration that ends the loop resumes at most the thread that it wakes
        rw [htarget]
        intro u signum hu
        cases s.monitor.turn_hold s.code t (s.context t) out report with
        | same hhold hresumes hreturn =>
            obtain ⟨-, -, hloop⟩ := hresumes u signum hu
            exact absurd hloop hnotloop
        | push htrap hra hlast hhold htracked hrequests =>
            rw [show (s.wait t report out).queue = _ from hrequests] at hu
            cases hu
        | pop held rest htrap hlast hrip hbefore hhold hra hresumes hphase =>
            subst htrap
            obtain rfl | ⟨-, hloop⟩ := hresumes u signum hu
            · rintro rfl
              rcases hplace with rfl | ⟨-, hwoken⟩
              · refine hk.not_held (System.alive_of_trapped hpending) ?_ ?_
                · rw [hpending]
                  simp
                · rw [hbefore]
                  exact List.mem_cons_self
              · refine hwoken ⟨hphase.resolve_left hnotloop, hpending, ?_, ?_⟩
                · rw [System.instruction_of_trapped hpending]
                  exact hrip
                · rw [hbefore]
                  rfl
            · exact absurd hloop hnotloop
      · intro u
        by_cases heq : u = t
        · subst heq
          exact System.not_pending_wait_self s u report _ out
        · rw [System.Trapped, System.status_wait_of_ne _ _ _ heq]
          exact hothers u heq

end Ready

/-! ## The clean-up -/

/-- How far `main` is, and what holds there. -/
inductive EndInv (s₀ : System) (text : Bytes 64) (e : Ending) : Prop
  | looping (htodo : e.todo = none) (hreach : Reachable System.step System.Traces s₀ e.sys)
      (hready : e.sys.phase.ended = true → Ready e.sys)
  | cleaning (pokes : List (Word × Word)) (htodo : e.todo = some (finals pokes))
      (hqueue : e.sys.queue = []) (hphase : e.sys.phase ≠ .loop)
      (hready : e.sys.phase.ended = true → Ready e.sys)
      (htext : e.sys.Alive e.sys.monitor.targetPid → e.sys.phase.ended = true →
        pokeAll pokes e.sys.code.text = text)
  | detached (rest : List Final) (htodo : e.todo = some rest)
      (hrest : rest = [.finish] ∨ rest = []) (hqueue : e.sys.queue = [])
      (hphase : e.sys.phase ≠ .loop) (hmoved : e.sys.phase.ended = true → ∀ t, ¬ e.sys.Trapped t)
      (htext : e.sys.Alive e.sys.monitor.targetPid → e.sys.phase.ended = true →
        e.sys.code.text = text)

section Released

variable {s : System} {t u : Pid}

theorem System.status_released (s : System) (t : Pid) :
    (s.released t).status = if s.PtraceStopped t then .running else s.status t := by
  unfold System.released
  split <;> rfl

theorem System.alive_of_released (h : (s.released t).status ≠ .pending .exit ∧
    (s.released t).status ≠ .exited) : s.Alive t := by
  rw [System.status_released] at h
  split at h
  · rename_i hstopped
    rw [System.Alive]
    constructor
    · intro heq
      rw [System.PtraceStopped, heq] at hstopped
      cases hstopped
    · intro heq
      rw [System.PtraceStopped, heq] at hstopped
      cases hstopped
  · exact h

theorem System.not_trapped_released (h : ¬ s.Trapped t) :
    (s.released t).status ≠ .pending (.stop .sigtrap false) := by
  rw [System.status_released]
  split
  · simp
  · exact h

theorem System.detach_status (s : System) (u : Pid) :
    s.detach.status u = if u = s.monitor.targetPid then (s.released u).status else s.status u := by
  unfold System.detach
  split
  · rename_i heq
    rw [heq, System.status_setThread_self]
  · rename_i hne
    exact System.status_setThread_of_ne _ _ hne

end Released

section Step

variable {symtabByName : Api → Word} {text : Bytes 64} {s₀ : System} {e e' : Ending}

theorem EndInv.poke (h : EndInv s₀ text e) {address data : Word} {rest : List Final}
    (htodo : e.todo = some (.poke address data :: rest)) :
    EndInv s₀ text ⟨e.sys.poke address data, some rest⟩ := by
  have hkeeps : ∀ s : System, (s.poke address data).threads = s.threads ∧
      (s.poke address data).monitor = s.monitor ∧ (s.poke address data).queue = s.queue ∧
      (s.poke address data).phase = s.phase := by
    intro s
    unfold System.poke
    split <;> exact ⟨rfl, rfl, rfl, rfl⟩
  obtain ⟨hthreads, hmonitor, hqueue', hphase'⟩ := hkeeps e.sys
  have hstatus : (e.sys.poke address data).status = e.sys.status := by
    funext t
    rw [System.status, System.status, hthreads]
  cases h with
  | looping htodo' => cases htodo'.symm.trans htodo
  | detached rest' htodo' hrest =>
      rw [Option.some.inj (htodo'.symm.trans htodo)] at hrest
      rcases hrest with hrest | hrest <;> cases hrest
  | cleaning pokes htodo' hqueue hphase hready htext =>
      have hfinals := Option.some.inj (htodo.symm.trans htodo')
      cases pokes with
      | nil => cases hfinals
      | cons poke pokes =>
          cases hfinals
          refine .cleaning pokes rfl (hqueue'.trans hqueue) (by rw [hphase']; exact hphase) ?_ ?_
          · intro hended
            obtain ⟨hstopped, hkept, hmoved⟩ := hready (hphase' ▸ hended)
            refine ⟨?_, ?_, ?_⟩
            · rw [System.Alive, System.PtraceStopped, hstatus, hmonitor]
              exact hstopped
            · rw [hmonitor, hqueue']
              exact hkept
            · intro t
              rw [System.Trapped, hstatus]
              exact hmoved t
          · intro halive hended
            rw [System.Alive, hstatus, hmonitor] at halive
            rw [hphase'] at hended
            rw [← htext halive hended, System.poke, if_pos ((hready hended).stopped halive)]
            rfl

theorem EndInv.detach (h : EndInv s₀ text e) {rest : List Final}
    (htodo : e.todo = some (.detach :: rest)) : EndInv s₀ text ⟨e.sys.detach, some rest⟩ := by
  cases h with
  | looping htodo' => cases htodo'.symm.trans htodo
  | detached rest' htodo' hrest =>
      rw [Option.some.inj (htodo'.symm.trans htodo)] at hrest
      rcases hrest with hrest | hrest <;> cases hrest
  | cleaning pokes htodo' hqueue hphase hready htext =>
      have hfinals := Option.some.inj (htodo.symm.trans htodo')
      cases pokes with
      | cons poke pokes => cases hfinals
      | nil =>
          cases hfinals
          refine .detached _ rfl (Or.inl rfl) hqueue hphase ?_ ?_
          · intro hended t
            rw [System.Trapped, System.detach_status]
            split
            · exact System.not_trapped_released ((hready hended).moved t)
            · exact (hready hended).moved t
          · intro halive hended
            refine htext ?_ hended
            rw [System.Alive, System.detach_status] at halive
            rw [show e.sys.detach.monitor = e.sys.monitor from rfl, if_pos rfl] at halive
            exact System.alive_of_released halive

theorem EndInv.finish (h : EndInv s₀ text e) {rest : List Final}
    (htodo : e.todo = some (.finish :: rest)) : EndInv s₀ text ⟨e.sys.releaseAll, some rest⟩ := by
  cases h with
  | looping htodo' => cases htodo'.symm.trans htodo
  | cleaning pokes htodo' =>
      have hfinals := Option.some.inj (htodo.symm.trans htodo')
      cases pokes <;> cases hfinals
  | detached rest' htodo' hrest hqueue hphase hmoved htext =>
      obtain rfl := Option.some.inj (htodo'.symm.trans htodo)
      rcases hrest with hrest | hrest
      · cases hrest
        refine .detached [] rfl (Or.inr rfl) hqueue hphase ?_ ?_
        · exact fun hended t => System.not_trapped_released (hmoved hended t)
        · exact fun halive hended => htext (System.alive_of_released halive) hended
      · cases hrest

theorem EndInv.advance (h : EndInv s₀ text e) (hstep : e.advance = some e') :
    EndInv s₀ text e' := by
  unfold Ending.advance at hstep
  split at hstep
  · rename_i address data rest htodo
    cases hstep
    exact h.poke htodo
  · rename_i rest htodo
    cases hstep
    exact h.detach htodo
  · rename_i rest htodo
    cases hstep
    exact h.finish htodo
  · cases hstep
  · cases hstep

theorem EndInv.sys (h : EndInv s₀ text e) (hhold : ∀ {s}, Reachable System.step System.Traces s₀ s →
      HoldInv s) {label : Label} {s' : System} (hstep : e.sys.step label = some s')
    (hok : e.Orderly symtabByName text (.sys label)) : EndInv s₀ text ⟨s', e.todo⟩ := by
  obtain ⟨htraces, hends, hfetch⟩ := hok
  have htarget := System.step_targetPid hstep
  cases h with
  | looping htodo hreach hready =>
      refine .looping htodo (hreach.step htraces hstep) ?_
      intro hended
      by_cases hwait : ∃ t out, label = .wait t out
      · obtain ⟨t, out, rfl⟩ := hwait
        exact ready_wait (hhold hreach) hstep (hends t out rfl) hended
      · have hphase : s'.phase = e.sys.phase := by
          cases System.step_kind hstep with
          | wait t report out => exact absurd ⟨t, out, rfl⟩ hwait
          | waitError => cases hended
          | issueResume t signum queue hqueue =>
              unfold System.resume
              split <;> rfl
          | _ => rfl
        have hleft : e.sys.phase ≠ .loop := by
          intro hloop
          rw [show (⟨s', e.todo⟩ : Ending).sys.phase = s'.phase from rfl, hphase, hloop] at hended
          cases hended
        have hended' : e.sys.phase.ended = true := hphase ▸ hended
        exact (hready hended').step hleft hstep htraces fun t ctx hl => hfetch t ctx hl hended'
  | cleaning pokes htodo hqueue hphase hready htext =>
      obtain ⟨hphase', hqueue', hcode⟩ := System.queue_step hstep hphase
      have hempty : s'.queue = [] := by
        rw [hqueue] at hqueue'
        exact List.suffix_nil.mp hqueue'
      refine .cleaning pokes htodo hempty (by rw [hphase']; exact hphase) ?_ ?_
      · intro hended
        have hended' : e.sys.phase.ended = true := hphase' ▸ hended
        exact (hready hended').step hphase hstep htraces fun t ctx hl => hfetch t ctx hl hended'
      · intro halive hended
        rw [hcode hqueue]
        rw [htarget] at halive
        exact htext (System.alive_of_step hstep halive) (hphase' ▸ hended)
  | detached rest htodo hrest hqueue hphase hmoved htext =>
      obtain ⟨hphase', hqueue', hcode⟩ := System.queue_step hstep hphase
      have hempty : s'.queue = [] := by
        rw [hqueue] at hqueue'
        exact List.suffix_nil.mp hqueue'
      refine .detached rest htodo hrest hempty (by rw [hphase']; exact hphase) ?_ ?_
      · intro hended t
        have hended' : e.sys.phase.ended = true := hphase' ▸ hended
        exact System.not_trapped_step hstep htraces (fun t ctx hl => hfetch t ctx hl hended')
          (hmoved hended' t)
      · intro halive hended
        rw [hcode hqueue]
        rw [htarget] at halive
        exact htext (System.alive_of_step hstep halive) (hphase' ▸ hended)

end Step

section Begin

variable {symtabByName : Api → Word} {text : Bytes 64} {targetPid : Pid} {limits : Limits}
  {others : Pid → Bool} {s₀ : System} {e e' : Ending}

/-- The clean-up begins with the pokes that restore the text. -/
theorem EndInv.clean (hbegin : System.begin symtabByName text targetPid limits others = some s₀)
    (hapart : ∀ api other, api ≠ other →
      ¬ Bytes.Within 8 (symtabByName api) (symtabByName other))
    (h : EndInv s₀ text e) (hok : e.Orderly symtabByName text .clean)
    (hstep : e.clean = some e') : EndInv s₀ text e' := by
  unfold Ending.clean at hstep
  split at hstep
  · rename_i why htodo hleft
    split at hstep
    · rename_i hqueue
      cases hstep
      cases h with
      | cleaning pokes htodo' => cases htodo.symm.trans htodo'
      | detached rest htodo' => cases htodo.symm.trans htodo'
      | looping htodo' hreach hready =>
          refine .cleaning _ rfl hqueue (by rw [hleft]; simp) hready ?_
          intro _ _
          obtain ⟨htext, hbps⟩ := textInv_reachable hbegin hapart hreach
          rw [Monitor.pokeAll_cleanup, htext.detachText_iff hqueue, hbps]
          exact hok
    · cases hstep
  · cases hstep

theorem endInv_reachable
    (hbegin : System.begin symtabByName text targetPid limits others = some s₀)
    (hapart : ∀ api other, api ≠ other →
      ¬ Bytes.Within 8 (symtabByName api) (symtabByName other))
    (hs : Reachable Ending.step (Ending.Orderly symtabByName text) ⟨s₀, none⟩ e) :
    EndInv s₀ text e := by
  have hhold : ∀ {s}, Reachable System.step System.Traces s₀ s → HoldInv s := fun hreach =>
    Reachable.invariant HoldInv hreach (holdInv_begin hbegin) fun _ _ _ h _ hstep =>
      holdInv_step h hstep
  refine Reachable.invariant (EndInv s₀ text) hs ?_ ?_
  · refine .looping rfl .start ?_
    obtain ⟨init, -, rfl⟩ := Option.map_eq_some_iff.mp hbegin
    simp [Phase.ended]
  · intro e label e' h hok hstep
    cases label with
    | sys label =>
        obtain ⟨s', hsys, rfl⟩ := Option.map_eq_some_iff.mp hstep
        exact h.sys hhold hsys hok
    | clean => exact h.clean hbegin hapart hok hstep
    | advance => exact h.advance hstep

/-- **Detaching is safe for every thread** in a run whose loop is left at a stop
of `g_target_pid`, or while that is stopped, with no trap unreported, and in which
no trap byte is executed after that. -/
theorem detach_safe
    (hbegin : System.begin symtabByName text targetPid limits others = some s₀)
    (hapart : ∀ api other, api ≠ other →
      ¬ Bytes.Within 8 (symtabByName api) (symtabByName other))
    (hs : Reachable Ending.step (Ending.Orderly symtabByName text) ⟨s₀, none⟩ e)
    (hended : e.sys.phase.ended = true) (halive : e.sys.Alive e.sys.monitor.targetPid) :
    e.Safe text := by
  cases endInv_reachable hbegin hapart hs with
  | looping htodo hreach hready =>
      refine ⟨?_, ?_, ?_⟩
      · intro next rest htodo'
        cases htodo.symm.trans htodo'
      · intro rest htodo'
        cases htodo.symm.trans htodo'
      · rintro t ⟨rest, ⟨htodo', -⟩ | htodo'⟩ <;> cases htodo.symm.trans htodo'
  | cleaning pokes htodo hqueue hphase hready htext =>
      refine ⟨?_, ?_, ?_⟩
      · exact fun _ _ _ _ => (hready hended).stopped halive
      · intro rest htodo' hnone
        obtain rfl := Option.some.inj (htodo.symm.trans htodo')
        cases pokes with
        | nil => exact htext halive hended
        | cons poke pokes => exact absurd List.mem_cons_self (hnone poke.1 poke.2)
      · exact fun t _ => (hready hended).moved t
  | detached rest htodo hrest hqueue hphase hmoved htext =>
      refine ⟨?_, fun _ _ _ => htext halive hended, fun t _ => hmoved hended t⟩
      intro next rest' htodo' hne
      rw [Option.some.inj (htodo.symm.trans htodo')] at hrest
      rcases hrest with hrest | hrest
      · cases hrest
        exact absurd rfl hne
      · cases hrest

end Begin

/-! ## One thread -/

namespace Ending

/-- A step of a target with `g_target_pid` as its only thread. -/
def Alone (e : Ending) : EndLabel → Prop
  | .sys (.clone _ _ _) => False
  | .sys (.fetch t ctx) =>
      e.sys.Traces (.fetch t ctx) ∧
        (e.sys.phase.ended = true → e.sys.code.text ctx.regs.rip ≠ trapByte)
  | .sys (.wait t out) => e.sys.Traces (.wait t out) ∧ t = e.sys.monitor.targetPid
  | .sys label => e.sys.Traces label
  | .clean => e.sys.monitor.returnAddress = 0
  | .advance => True

instance (e : Ending) : (label : EndLabel) → Decidable (e.Alone label)
  | .sys (.clone _ _ _) => inferInstanceAs (Decidable False)
  | .sys (.fetch _ _) => inferInstanceAs (Decidable (_ ∧ (_ → _)))
  | .sys (.wait _ _) => inferInstanceAs (Decidable (_ ∧ _))
  | .sys (.signal _ _ _) | .sys (.exit _) | .sys (.interrupt _) | .sys (.waitFails _)
  | .sys .issue => inferInstanceAs (Decidable (_ ∧ _))
  | .clean => inferInstanceAs (Decidable (_ = _))
  | .advance => inferInstanceAs (Decidable True)

variable {e e' : Ending} {label : EndLabel}

theorem unborn_of_alone (hok : e.Alone label) (hstep : e.step label = some e') :
    e'.sys.monitor.targetPid = e.sys.monitor.targetPid ∧
      ∀ u, e.sys.status u = .unborn → e'.sys.status u = .unborn := by
  have hreleased : ∀ u, e.sys.status u = .unborn → (e.sys.released u).status = .unborn := by
    intro u hu
    rw [System.status_released, if_neg]
    · exact hu
    · rw [System.PtraceStopped, hu]
      simp [Status.ptraceStopped]
  cases label with
  | sys label =>
      obtain ⟨s', hsys, rfl⟩ := Option.map_eq_some_iff.mp hstep
      refine ⟨System.step_targetPid hsys, fun u hu => System.unborn_step hsys ?_ hu⟩
      rintro t ctx rfl
      exact hok
  | clean =>
      rw [step, clean] at hstep
      split at hstep
      · split at hstep
        · cases hstep
          exact ⟨rfl, fun _ hu => hu⟩
        · cases hstep
      · cases hstep
  | advance =>
      rw [step, advance] at hstep
      split at hstep
      · cases hstep
        dsimp only
        unfold System.poke
        split <;> exact ⟨rfl, fun _ hu => hu⟩
      · cases hstep
        refine ⟨rfl, fun u hu => ?_⟩
        rw [System.detach_status]
        split
        · exact hreleased u hu
        · exact hu
      · cases hstep
        exact ⟨rfl, hreleased⟩
      · cases hstep
      · cases hstep

/-- So such a target is orderly, as long as it executes no trap byte at the end. -/
theorem orderly_of_alone {symtabByName : Api → Word} {text : Bytes 64}
    (hothers : ∀ u, u ≠ e.sys.monitor.targetPid → e.sys.status u = .unborn)
    (hok : e.Alone label) : e.Orderly symtabByName text label := by
  cases label with
  | sys label =>
      cases label with
      | clone t child ctx => exact hok.elim
      | fetch t ctx =>
          refine ⟨hok.1, by simp, ?_⟩
          rintro t' ctx' ⟨⟩
          exact hok.2
      | wait t out =>
          refine ⟨hok.1, ?_, by simp⟩
          rintro t' out' ⟨⟩ s' - -
          refine ⟨Or.inl hok.2, ?_⟩
          intro u hne
          rw [System.Trapped, hothers u (by rw [← hok.2]; exact hne)]
          simp
      | _ => exact ⟨hok, by simp, by simp⟩
  | clean => exact fun hne => absurd hok hne
  | advance => trivial

theorem reachable_of_alone {symtabByName : Api → Word} {text : Bytes 64} {s₀ : System}
    (hothers : ∀ u, u ≠ s₀.monitor.targetPid → s₀.status u = .unborn)
    (hs : Reachable step Alone ⟨s₀, none⟩ e) :
    Reachable step (Orderly symtabByName text) ⟨s₀, none⟩ e := by
  refine (Reachable.invariant (fun e => Reachable step (Orderly symtabByName text) ⟨s₀, none⟩ e ∧
    ∀ u, u ≠ e.sys.monitor.targetPid → e.sys.status u = .unborn) hs ⟨.start, hothers⟩ ?_).1
  rintro e label e' ⟨hreach, hunborn⟩ hok hstep
  obtain ⟨htarget, hkeep⟩ := unborn_of_alone hok hstep
  refine ⟨hreach.step (orderly_of_alone hunborn hok) hstep, ?_⟩
  rw [htarget]
  exact fun u hne => hkeep u (hunborn u hne)

end Ending

/-- Thread `t` gets the `SIGSTOP` that `signal_handler` sends on `SIGINT`. -/
def sigintAt (t : Pid) : List EndLabel :=
  [.sys (.interrupt .sigint), .sys (.signal t .sigstop (sampleContext 0x3000 0 0 0)),
    .sys (.wait t sampleOutside), .clean]

/-- A target with one thread is interrupted: its text is restored and it is
released. -/
theorem detach_safe_sigint :
    ∃ s₀ e, sampleBegin 1 = some s₀ ∧
      Reachable Ending.step (Ending.Orderly sampleSymtab sampleText) ⟨s₀, none⟩ e ∧
      e.todo = some [.detach, .finish] ∧ e.sys.phase = .left .terminate ∧
      e.Safe sampleText := by
  have hrun : ((sampleBegin 1).bind fun s₀ =>
      (feed Ending.step Ending.Alone ⟨s₀, none⟩ ((issues 5).map EndLabel.sys ++ sigintAt 1 ++
        List.replicate 4 .advance)).map fun e =>
          (e.todo, e.sys.phase, decide (e.sys.Alive e.sys.monitor.targetPid))) =
      some (some [.detach, .finish], .left .terminate, true) := by decide +kernel
  obtain ⟨s₀, e, hbegin, hreach, hobserved⟩ := Reachable.exists_of_run hrun
  simp only [Prod.mk.injEq, decide_eq_true_eq] at hobserved
  obtain ⟨htodo, hphase, halive⟩ := hobserved
  have hothers : ∀ u, u ≠ s₀.monitor.targetPid → s₀.status u = .unborn := by
    rw [sampleBegin, System.begin] at hbegin
    obtain ⟨init, -, rfl⟩ := Option.map_eq_some_iff.mp hbegin
    intro u hne
    have hone : ∀ n : Nat, n ≠ 1 → ¬ (n ≤ 1 ∧ n ≠ 0) := by omega
    have hother := hone u hne
    have hne : u ≠ 1 := hne
    simp [System.status, hne, hother]
  have horderly : Reachable Ending.step (Ending.Orderly sampleSymtab sampleText) ⟨s₀, none⟩ e :=
    Ending.reachable_of_alone hothers hreach
  exact ⟨s₀, e, hbegin, horderly, htodo, hphase,
    detach_safe hbegin sampleSymtab_apart horderly (by rw [hphase]; rfl) halive⟩

/-! ## Two threads -/

/-- A step of a target that the loop is made for. -/
def Ending.Traces (e : Ending) : EndLabel → Prop
  | .sys label => e.sys.Traces label
  | .clean | .advance => True

instance (e : Ending) : (label : EndLabel) → Decidable (e.Traces label)
  | .sys _ => inferInstanceAs (Decidable (_ ∧ _))
  | .clean | .advance => inferInstanceAs (Decidable True)

/-- Thread 2 gets the `SIGSTOP` while `g_target_pid` runs: nothing is written, and
`malloc` keeps its trap byte. Or `g_target_pid` gets it while thread 2 has executed
that byte: thread 2 is released behind it. -/
theorem detach_unsafe :
    (∃ s₀ e, sampleBegin 2 = some s₀ ∧ Reachable Ending.step Ending.Traces ⟨s₀, none⟩ e ∧
      e.sys.phase = .left .terminate ∧ e.sys.Alive e.sys.monitor.targetPid ∧
      e.todo = some [.detach, .finish] ∧ ¬ e.sys.PtraceStopped e.sys.monitor.targetPid ∧
      e.sys.code.text 0x1000 = trapByte ∧ ¬ e.Safe sampleText) ∧
    ∃ s₀ e, sampleBegin 2 = some s₀ ∧ Reachable Ending.step Ending.Traces ⟨s₀, none⟩ e ∧
      e.sys.phase = .left .terminate ∧ e.sys.Alive e.sys.monitor.targetPid ∧
      e.todo = some [.finish] ∧ e.sys.Trapped 2 ∧ ¬ e.Safe sampleText := by
  constructor
  · have hrun : ((sampleBegin 2).bind fun s₀ =>
        (feed Ending.step Ending.Traces ⟨s₀, none⟩ ((issues 5).map EndLabel.sys ++ sigintAt 2 ++
          List.replicate 4 .advance)).map fun e =>
            (e.todo, e.sys.phase, decide (e.sys.Alive e.sys.monitor.targetPid),
              decide (e.sys.PtraceStopped e.sys.monitor.targetPid), e.sys.code.text 0x1000)) =
        some (some [.detach, .finish], .left .terminate, true, false, trapByte) := by
      decide +kernel
    obtain ⟨s₀, e, hbegin, hreach, hobserved⟩ := Reachable.exists_of_run hrun
    simp only [Prod.mk.injEq, decide_eq_true_eq, decide_eq_false_iff_not] at hobserved
    obtain ⟨htodo, hphase, halive, hrunning, hbyte⟩ := hobserved
    refine ⟨s₀, e, hbegin, hreach, hphase, halive, htodo, hrunning, hbyte, ?_⟩
    intro hsafe
    exact hrunning (hsafe.stopped _ _ htodo (by simp))
  · have hrun : ((sampleBegin 2).bind fun s₀ =>
        (feed Ending.step Ending.Traces ⟨s₀, none⟩ ((issues 5).map EndLabel.sys ++
          .sys (.fetch 2 (sampleContext 0x1000 0x2000 0 16)) :: sigintAt 1 ++
          List.replicate 5 .advance)).map fun e =>
            (e.todo, e.sys.phase, decide (e.sys.Alive e.sys.monitor.targetPid),
              decide (e.sys.Trapped 2))) =
        some (some [.finish], .left .terminate, true, true) := by decide +kernel
    obtain ⟨s₀, e, hbegin, hreach, hobserved⟩ := Reachable.exists_of_run hrun
    simp only [Prod.mk.injEq, decide_eq_true_eq] at hobserved
    obtain ⟨htodo, hphase, halive, htrapped⟩ := hobserved
    refine ⟨s₀, e, hbegin, hreach, hphase, halive, htodo, htrapped, ?_⟩
    intro hsafe
    exact hsafe.moved 2 ⟨[], Or.inr htodo⟩ htrapped

end Memleax
