import Memleax.Framework.Runs
import Memleax.Tracer.Loop

/-!
# Attaching

What `main` does before `breakpoint_init`: it walks once through the directory
of the target's threads, attaches to each of them but `g_target_pid`, sets the
option by which new threads are traced from their first instruction on, and lets
them run on; `g_target_pid` comes last and stays stopped.

The threads go on all the while. A directory walk returns every thread that
exists from its beginning to its end; of a thread that is created during the walk
the outside decides whether it is `listed`. A thread that is traced with the
option hands tracing and option on to the threads it creates.
-/

namespace Memleax

open Framework

inductive TaskStatus where
  | unborn
  | running
  | stopped
  | exited
deriving DecidableEq, Repr

structure Task where
  status : TaskStatus := .unborn
  traced : Bool := false
  /-- `PTRACE_O_TRACECLONE` has been set -/
  traceChild : Bool := false
deriving DecidableEq, Repr

def Task.live (task : Task) : Bool := task.status == .running || task.status == .stopped

inductive AttachStage where
  /-- the first call of `proc_tasks` opens the directory -/
  | opendir
  /-- `proc_tasks` reads on -/
  | readdir
  | attach (t : Pid)
  | wait (t : Pid)
  /-- `ptrace_trace_child` -/
  | setOptions (t : Pid)
  /-- `ptrace_continue` -/
  | resume (t : Pid)
  | breakpointInit
  /-- `exit(4)` -/
  | failed
deriving DecidableEq, Repr

structure Attach where
  targetPid : Pid
  tasks : Pid → Task
  /-- the threads that have been created so far -/
  pids : List Pid
  /-- the names that the walk has still to return -/
  listed : List Pid := []
  stage : AttachStage := .opendir

inductive AttachLabel where
  | clone (t child : Pid) (listed : Bool)
  | exit (t : Pid)
  /-- `readdir` returns a name, or reaches the end -/
  | entry (t : Option Pid)
  | advance
deriving DecidableEq, Repr

namespace Attach

def live (s : Attach) (t : Pid) : Prop := (s.tasks t).live = true

instance (s : Attach) (t : Pid) : Decidable (s.live t) := inferInstanceAs (Decidable (_ = _))

def setTask (s : Attach) (t : Pid) (task : Task) : Attach :=
  { s with tasks := Function.update s.tasks t task }

/-- The walk has begun and is not over: `g_target_pid` is attached to after it. -/
def walking (s : Attach) : Bool :=
  match s.stage with
  | .readdir => true
  | .attach t | .wait t | .setOptions t | .resume t => t != s.targetPid
  | .opendir | .breakpointInit | .failed => false

/-- A name is added, and to the walk too if it is going to be returned. -/
def announce (s : Attach) (child : Pid) (listed : Bool) : Attach :=
  { s with
    pids := child :: s.pids
    listed := if listed then child :: s.listed else s.listed }

/-- A thread creates another one. With the option set both stop. -/
def clone (s : Attach) (t child : Pid) (listed : Bool) : Attach :=
  if (s.tasks t).traceChild then
    ((s.announce child listed).setTask t { s.tasks t with status := .stopped }).setTask child
      ⟨.stopped, true, true⟩
  else (s.announce child listed).setTask child ⟨.running, false, false⟩

/-- What `main` does at its stage, other than reading the directory. -/
def advance (s : Attach) : Option Attach :=
  match s.stage with
  | .opendir => some { s with listed := s.pids.filter (s.live ·), stage := .readdir }
  | .attach t =>
      if s.live t ∧ (s.tasks t).traced = false then
        some { s.setTask t { s.tasks t with traced := true } with stage := .wait t }
      else some { s with stage := .failed }
  | .wait t =>
      if (s.tasks t).status = .running then
        some { s.setTask t { s.tasks t with status := .stopped } with stage := .setOptions t }
      else some { s with stage := .setOptions t }
  | .setOptions t =>
      let next := if t = s.targetPid then AttachStage.breakpointInit else .resume t
      if (s.tasks t).status = .stopped then
        some { s.setTask t { s.tasks t with traceChild := true } with stage := next }
      else some { s with stage := next }
  | .resume t =>
      if (s.tasks t).status = .stopped then
        some { s.setTask t { s.tasks t with status := .running } with stage := .readdir }
      else some { s with stage := .readdir }
  | .readdir | .breakpointInit | .failed => none

def step (s : Attach) : AttachLabel → Option Attach
  | .clone t child listed =>
      if (s.tasks t).status = .running ∧ (s.tasks child).status = .unborn ∧
          (listed = true → s.walking = true) then
        some (s.clone t child listed)
      else none
  | .exit t => if s.live t then some (s.setTask t { s.tasks t with status := .exited }) else none
  | .entry (some t) =>
      if s.stage = .readdir ∧ t ∈ s.listed then
        some { s with
          listed := s.listed.erase t
          stage := if t = s.targetPid then .readdir else .attach t }
      else none
  | .entry none =>
      -- a thread that has been there all the time has been returned
      if s.stage = .readdir ∧ ∀ t ∈ s.listed, ¬ s.live t then
        some { s with stage := .attach s.targetPid }
      else none
  | .advance => s.advance

def start (targetPid : Pid) (others : List Pid) : Attach where
  targetPid := targetPid
  tasks := fun t => if t = targetPid ∨ t ∈ others then { status := .running } else {}
  pids := targetPid :: others

/-- Every thread that is created after the walk has begun is created by a thread
with the option set, or is returned by the walk. -/
def Covered (s : Attach) : AttachLabel → Prop
  | .clone t _ listed => s.stage = .opendir ∨ (s.tasks t).traceChild = true ∨ listed = true
  | _ => True

instance (s : Attach) : (label : AttachLabel) → Decidable (s.Covered label)
  | .clone _ _ _ => inferInstanceAs (Decidable (_ ∨ _))
  | .exit _ | .entry _ | .advance => inferInstanceAs (Decidable True)

/-! ## Every live thread is accounted for -/

/-- A thread is traced, or going to be. -/
def Accounted (s : Attach) (t : Pid) : Prop :=
  (s.tasks t).traced = true ∨ s.stage = .opendir ∨ s.stage = .failed ∨ s.stage = .attach t ∨
    (s.walking = true ∧ (t ∈ s.listed ∨ t = s.targetPid))

structure Inv (s : Attach) : Prop where
  created : ∀ t, s.live t → t ∈ s.pids
  accounted : ∀ t, s.live t → s.Accounted t

section Step

variable {s s' : Attach} {t u : Pid} {task : Task}

theorem tasks_setTask_self : (s.setTask t task).tasks t = task := by simp [setTask]

theorem tasks_setTask_of_ne (h : u ≠ t) : (s.setTask t task).tasks u = s.tasks u := by
  simp [setTask, h]

theorem live_of_running (h : (s.tasks t).status = .running) : s.live t := by
  simp [live, Task.live, h]

theorem live_of_stopped (h : (s.tasks t).status = .stopped) : s.live t := by
  simp [live, Task.live, h]

theorem Inv.setTask (h : Inv s) (hcreated : task.live = true → t ∈ s.pids)
    (haccounted : task.live = true → (s.setTask t task).Accounted t) : Inv (s.setTask t task) := by
  constructor
  · intro u hu
    by_cases heq : u = t
    · subst heq
      rw [live, tasks_setTask_self] at hu
      exact hcreated hu
    · rw [live, tasks_setTask_of_ne heq] at hu
      exact h.created u hu
  · intro u hu
    by_cases heq : u = t
    · subst heq
      rw [live, tasks_setTask_self] at hu
      exact haccounted hu
    · rw [live, tasks_setTask_of_ne heq] at hu
      have hacc := h.accounted u hu
      unfold Accounted at hacc ⊢
      rw [tasks_setTask_of_ne heq]
      exact hacc

theorem Inv.setStatus (h : Inv s) (hlive : s.live t)
    (htraced : task.traced = (s.tasks t).traced) : Inv (s.setTask t task) := by
  apply h.setTask
  · intro _
    exact h.created t hlive
  · intro _
    have hacc := h.accounted t hlive
    unfold Accounted at hacc ⊢
    rw [tasks_setTask_self, htraced]
    exact hacc

theorem Inv.goto (h : Inv s) {stage : AttachStage} (hopen : s.stage ≠ .opendir)
    (hfailed : s.stage ≠ .failed) (hattach : ∀ t, s.stage ≠ .attach t)
    (hwalk : s.walking = true → { s with stage := stage }.walking = true) :
    Inv { s with stage := stage } := by
  refine ⟨h.created, ?_⟩
  intro t ht
  rcases h.accounted t ht with htraced | hstage | hstage | hstage | ⟨hwalking, hname⟩
  · exact Or.inl htraced
  · exact absurd hstage hopen
  · exact absurd hstage hfailed
  · exact absurd hstage (hattach t)
  · exact Or.inr (Or.inr (Or.inr (Or.inr ⟨hwalk hwalking, hname⟩)))

theorem Inv.announce (h : Inv s) (child : Pid) (listed : Bool) :
    Inv (s.announce child listed) := by
  refine ⟨fun u hu => List.mem_cons_of_mem _ (h.created u hu), ?_⟩
  intro u hu
  rcases h.accounted u hu with htraced | hstage | hstage | hstage | ⟨hwalking, hname⟩
  · exact Or.inl htraced
  · exact Or.inr (Or.inl hstage)
  · exact Or.inr (Or.inr (Or.inl hstage))
  · exact Or.inr (Or.inr (Or.inr (Or.inl hstage)))
  · refine Or.inr (Or.inr (Or.inr (Or.inr ⟨hwalking, hname.imp_left ?_⟩)))
    intro hlisted
    show u ∈ if listed = true then child :: s.listed else s.listed
    split
    · exact List.mem_cons_of_mem _ hlisted
    · exact hlisted

/-- A new thread is traced at once, or its name is going to be returned. -/
theorem Inv.clone (h : Inv s) {child : Pid} {listed : Bool}
    (hrun : (s.tasks t).status = .running) (hlisted : listed = true → s.walking = true)
    (hok : s.Covered (.clone t child listed)) : Inv (s.clone t child listed) := by
  have hnew := h.announce child listed
  unfold Attach.clone
  by_cases hoption : (s.tasks t).traceChild = true
  · rw [if_pos hoption]
    have hlive : (s.announce child listed).live t := live_of_running hrun
    have hparent : Inv ((s.announce child listed).setTask t
        { s.tasks t with status := .stopped }) := hnew.setStatus hlive rfl
    refine hparent.setTask (fun _ => List.mem_cons_self) fun _ => Or.inl ?_
    rw [tasks_setTask_self]
  · rw [if_neg hoption]
    refine hnew.setTask (fun _ => List.mem_cons_self) fun _ => ?_
    rcases hok with hstage | htrace | hlist
    · exact Or.inr (Or.inl hstage)
    · exact absurd htrace hoption
    · refine Or.inr (Or.inr (Or.inr (Or.inr ⟨hlisted hlist, Or.inl ?_⟩)))
      show child ∈ if listed = true then child :: s.listed else s.listed
      rw [if_pos hlist]
      exact List.mem_cons_self

theorem Inv.attach (h : Inv s) (hstage : s.stage = .attach t) (hlive : s.live t) :
    Inv { s.setTask t { s.tasks t with traced := true } with stage := .wait t } := by
  constructor
  · intro u hu
    by_cases heq : u = t
    · rw [heq]
      exact h.created t hlive
    · have hu : (s.setTask t _).live u := hu
      rw [live, tasks_setTask_of_ne heq] at hu
      exact h.created u hu
  · intro u hu
    by_cases heq : u = t
    · subst heq
      exact Or.inl (by rw [tasks_setTask_self])
    · have hu : (s.setTask t _).live u := hu
      rw [live, tasks_setTask_of_ne heq] at hu
      rcases h.accounted u hu with htraced | hother | hother | hother | ⟨hwalking, hname⟩
      · refine Or.inl ?_
        show ((s.setTask t _).tasks u).traced = true
        rw [tasks_setTask_of_ne heq]
        exact htraced
      · cases hstage.symm.trans hother
      · cases hstage.symm.trans hother
      · cases hstage.symm.trans hother
        exact absurd rfl heq
      · refine Or.inr (Or.inr (Or.inr (Or.inr ⟨?_, hname⟩)))
        unfold walking at hwalking ⊢
        rw [hstage] at hwalking
        exact hwalking

theorem Inv.advance (h : Inv s) (hstep : s.advance = some s') : Inv s' := by
  unfold Attach.advance at hstep
  cases hstage : s.stage with
  | opendir =>
      rw [hstage] at hstep
      cases hstep
      refine ⟨h.created, fun t ht => Or.inr (Or.inr (Or.inr (Or.inr ⟨rfl, Or.inl ?_⟩)))⟩
      exact List.mem_filter.mpr ⟨h.created t ht, decide_eq_true ht⟩
  | attach t =>
      rw [hstage] at hstep
      dsimp only at hstep
      split at hstep
      · rename_i hlive
        cases hstep
        exact h.attach hstage hlive.1
      · cases hstep
        exact ⟨h.created, fun _ _ => Or.inr (Or.inr (Or.inl rfl))⟩
  | wait t =>
      have hwalk : s.walking = true →
          ({ s with stage := .setOptions t } : Attach).walking = true := by
        simp [walking, hstage]
      have hnext := h.goto (by rw [hstage]; simp) (by rw [hstage]; simp)
        (by rw [hstage]; simp) hwalk
      rw [hstage] at hstep
      dsimp only at hstep
      split at hstep
      · rename_i hrun
        cases hstep
        exact hnext.setStatus (live_of_running hrun) rfl
      · cases hstep
        exact hnext
  | setOptions t =>
      have hwalk : s.walking = true → ({ s with
          stage := if t = s.targetPid then .breakpointInit else .resume t } : Attach).walking =
            true := by
        intro hw
        have hne : t ≠ s.targetPid := by simpa [walking, hstage] using hw
        rw [if_neg hne]
        simpa [walking] using hne
      have hnext := h.goto (by rw [hstage]; simp) (by rw [hstage]; simp)
        (by rw [hstage]; simp) hwalk
      rw [hstage] at hstep
      dsimp only at hstep
      split at hstep
      · rename_i hstopped
        cases hstep
        exact hnext.setStatus (live_of_stopped hstopped) rfl
      · cases hstep
        exact hnext
  | resume t =>
      have hnext : Inv { s with stage := .readdir } := h.goto (by rw [hstage]; simp)
        (by rw [hstage]; simp) (by rw [hstage]; simp) fun _ => rfl
      rw [hstage] at hstep
      dsimp only at hstep
      split at hstep
      · rename_i hstopped
        cases hstep
        exact hnext.setStatus (live_of_stopped hstopped) rfl
      · cases hstep
        exact hnext
  | readdir =>
      rw [hstage] at hstep
      cases hstep
  | breakpointInit =>
      rw [hstage] at hstep
      cases hstep
  | failed =>
      rw [hstage] at hstep
      cases hstep

theorem Inv.traced_or_named (h : Inv s) (hstage : s.stage = .readdir) (hu : s.live u) :
    (s.tasks u).traced = true ∨ u ∈ s.listed ∨ u = s.targetPid := by
  rcases h.accounted u hu with htraced | hother | hother | hother | ⟨-, hname⟩
  · exact Or.inl htraced
  · cases hstage.symm.trans hother
  · cases hstage.symm.trans hother
  · cases hstage.symm.trans hother
  · exact Or.inr hname

theorem Inv.entry (h : Inv s) (hstage : s.stage = .readdir) (t : Pid) :
    Inv { s with
      listed := s.listed.erase t
      stage := if t = s.targetPid then .readdir else .attach t } := by
  refine ⟨h.created, ?_⟩
  intro u hu
  rcases h.traced_or_named hstage hu with htraced | hname
  · exact Or.inl htraced
  · by_cases hmain : t = s.targetPid
    · -- `g_target_pid` is passed over
      refine Or.inr (Or.inr (Or.inr (Or.inr ⟨?_, ?_⟩)))
      · rw [if_pos hmain]
        rfl
      · by_cases heq : u = t
        · exact Or.inr (heq.trans hmain)
        · exact hname.imp_left (List.mem_erase_of_ne heq).mpr
    · by_cases heq : u = t
      · refine Or.inr (Or.inr (Or.inr (Or.inl ?_)))
        rw [if_neg hmain, heq]
      · refine Or.inr (Or.inr (Or.inr (Or.inr ⟨?_, ?_⟩)))
        · rw [if_neg hmain]
          simpa [walking] using hmain
        · exact hname.imp_left (List.mem_erase_of_ne heq).mpr

/-- The end of the walk: only `g_target_pid` is left. -/
theorem Inv.finish (h : Inv s) (hstage : s.stage = .readdir)
    (hall : ∀ t ∈ s.listed, ¬ s.live t) : Inv { s with stage := .attach s.targetPid } := by
  refine ⟨h.created, ?_⟩
  intro u hu
  rcases h.traced_or_named hstage hu with htraced | hname
  · exact Or.inl htraced
  · rcases hname with hlisted | rfl
    · exact absurd hu (hall u hlisted)
    · exact Or.inr (Or.inr (Or.inr (Or.inl rfl)))

theorem inv_step (h : Inv s) {label : AttachLabel} (hok : s.Covered label)
    (hstep : s.step label = some s') : Inv s' := by
  cases label with
  | clone t child listed =>
      rw [step] at hstep
      split at hstep
      · rename_i hrun
        cases hstep
        exact h.clone hrun.1 hrun.2.2 hok
      · cases hstep
  | exit t =>
      rw [step] at hstep
      split at hstep
      · rename_i hlive
        cases hstep
        exact h.setStatus hlive rfl
      · cases hstep
  | entry name =>
      cases name with
      | some t =>
          rw [step] at hstep
          split at hstep
          · rename_i hread
            cases hstep
            exact h.entry hread.1 t
          · cases hstep
      | none =>
          rw [step] at hstep
          split at hstep
          · rename_i hread
            cases hstep
            exact h.finish hread.1 hread.2
          · cases hstep
  | advance => exact h.advance hstep

end Step

theorem inv_start (targetPid : Pid) (others : List Pid) : Inv (start targetPid others) := by
  refine ⟨?_, fun _ _ => Or.inr (Or.inl rfl)⟩
  intro t ht
  by_cases hmem : t = targetPid ∨ t ∈ others
  · exact List.mem_cons.mpr hmem
  · simp [live, start, hmem, Task.live] at ht

end Attach

/-- **Every thread is traced before the first trap byte is written**, in the runs
in which no thread without the option creates a thread that the walk misses. -/
theorem every_thread_traced {targetPid : Pid} {others : List Pid} {s : Attach}
    (hs : Reachable Attach.step Attach.Covered (.start targetPid others) s)
    (hinit : s.stage = .breakpointInit) (t : Pid) (hlive : s.live t) :
    (s.tasks t).traced = true := by
  have hinv : Attach.Inv s := Reachable.invariant Attach.Inv hs (Attach.inv_start targetPid others)
    fun _ _ _ h hok hstep => Attach.inv_step h hok hstep
  rcases hinv.accounted t hlive with htraced | hstage | hstage | hstage | ⟨hwalking, -⟩
  · exact htraced
  · cases hinit.symm.trans hstage
  · cases hinit.symm.trans hstage
  · cases hinit.symm.trans hstage
  · unfold Attach.walking at hwalking
    rw [hinit] at hwalking
    cases hwalking

/-- `g_target_pid` creates thread 2 between the end of the walk and the attach. -/
def lateClone : List AttachLabel :=
  [.advance, .entry (some 1), .entry none, .clone 1 2 false, .advance, .advance, .advance]

theorem untraced_thread_at_init :
    ∃ s, Reachable Attach.step (fun _ _ => True) (.start 1 []) s ∧ s.stage = .breakpointInit ∧
      s.live 2 ∧ (s.tasks 2).traced = false := by
  have hrun : ((some ()).bind fun _ =>
      (feed Attach.step (fun _ _ => True) (.start 1 []) lateClone).map fun s =>
        (s.stage, s.tasks 2)) = some (.breakpointInit, ⟨.running, false, false⟩) := by decide
  obtain ⟨-, s, -, hreach, hs⟩ := Reachable.exists_of_run hrun
  obtain ⟨hstage, htask⟩ := Prod.mk.inj hs
  refine ⟨s, hreach, hstage, ?_, ?_⟩
  · rw [Attach.live, htask]
    rfl
  · rw [htask]

/-- Thread 2 is attached to and creates thread 3, which is traced at once. -/
def coveredClone : List AttachLabel :=
  [.advance, .entry (some 1), .entry (some 2), .advance, .advance, .advance, .advance,
    .clone 2 3 false, .entry none, .advance, .advance, .advance]

theorem every_thread_traced_coveredClone :
    ∃ s, Reachable Attach.step Attach.Covered (.start 1 [2]) s ∧ s.stage = .breakpointInit ∧
      s.live 3 ∧ ∀ t, s.live t → (s.tasks t).traced = true := by
  have hrun : ((some ()).bind fun _ =>
      (feed Attach.step Attach.Covered (.start 1 [2]) coveredClone).map fun s =>
        (s.stage, decide (s.live 3))) = some (.breakpointInit, true) := by decide
  obtain ⟨-, s, -, hreach, hs⟩ := Reachable.exists_of_run hrun
  obtain ⟨hstage, hlive⟩ := Prod.mk.inj hs
  exact ⟨s, hreach, hstage, of_decide_eq_true hlive, every_thread_traced hreach hstage⟩

end Memleax
