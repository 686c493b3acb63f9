import Memleax.Framework.Programs
import Memleax.Tracer.TextInvariant

/-!
# What the target notices

The target has been a source of labels so far. Here it is a program: its threads
execute the instructions of the text, whichever processor that is, they are
given signals and they create threads. `Hosted` runs it under memleax. A trap
moves a thread behind the trap byte, memleax writes the registers of the stopped
thread back, and a thread executes nothing while it is stopped.

`transparent` says that the program does not notice: whatever state the threads
and the data get into, the program on its own, with its original text, could have
got into it by the same instructions. The trap bytes may not lie inside of an
instruction that is executed.
-/

namespace Memleax

open Framework

variable {κ : Type*}

/-- What a thread and the data become: all registers, and the data. -/
abbrev Outcome (κ : Type*) := (Regs × κ) × Bytes 64

/-- The system with its target. `rest` are the registers that memleax does not look at. -/
structure Hosted (κ : Type*) where
  sys : System
  regs : Pid → Regs
  rest : Pid → κ
  data : Bytes 64

/-- A label of the system, with what it leads to in the target. -/
inductive HostedMove (κ : Type*) where
  /-- `after` is what the instruction does, unless it is a trap byte -/
  | fetch (t : Pid) (after : Outcome κ)
  | signal (t : Pid) (signum : Signo)
  | clone (t child : Pid) (after : Outcome κ) (born : Regs × κ)
  | exit (t : Pid)
  | interrupt (signum : Signo)
  | wait (t : Pid) (out : Outside)
  | waitFails (eintr : Bool)
  /-- `after` is what the delivery does, if a signal is delivered -/
  | issue (after : Outcome κ)

theorem PatchInv.patched {orig : Bytes 64} {s : System} (h : PatchInv orig s) :
    s.code.Patched orig s.monitor.breakpoints := by
  rcases h.patches with ⟨writes, rest, -, -, hall, -⟩
  exact hall.head

namespace Hosted

def context (h : Hosted κ) (t : Pid) : Context := ⟨h.regs t, h.data⟩

/-- All registers of a thread, and the data. -/
def state (h : Hosted κ) (t : Pid) : Outcome κ := ((h.regs t, h.rest t), h.data)

def label (h : Hosted κ) : HostedMove κ → Label
  | .fetch t _ => .fetch t (h.context t)
  | .signal t signum => .signal t signum (h.context t)
  | .clone t child after _ => .clone t child ⟨after.1.1, after.2⟩
  | .exit t => .exit t
  | .interrupt signum => .interrupt signum
  | .wait t out => .wait t out
  | .waitFails eintr => .waitFails eintr
  | .issue _ => .issue

def put (h : Hosted κ) (t : Pid) (after : Outcome κ) : Hosted κ :=
  { h with
    regs := Function.update h.regs t after.1.1
    rest := Function.update h.rest t after.1.2
    data := after.2 }

/-- The signal that the next request delivers, if any. -/
def delivery (h : Hosted κ) : Option (Pid × Signo) :=
  match h.sys.queue with
  | .resume t (some signum) :: _ => if h.sys.status t = .stopped then some (t, signum) else none
  | _ => none

/-- What a move leaves of the target, when the system gets into `sys`. -/
def effect (h : Hosted κ) (sys : System) : HostedMove κ → Hosted κ
  | .fetch t after =>
      if h.sys.code.text (h.regs t).rip = trapByte then
        { h with
          sys := sys
          regs := Function.update h.regs t { h.regs t with rip := (h.regs t).rip + 1 } }
      else { h with sys := sys }.put t after
  | .clone t child after born => ({ h with sys := sys }.put t after).put child (born, after.2)
  | .wait t _ =>
      -- `ptrace_set_regs`
      if h.sys.status t = .pending (.stop .sigtrap false) then
        { h with sys := sys, regs := Function.update h.regs t (sys.context t).regs }
      else { h with sys := sys }
  | .issue after =>
      match h.delivery with
      | some (t, _) => { h with sys := sys }.put t after
      | none => { h with sys := sys }
  | .signal _ _ | .exit _ | .interrupt _ | .waitFails _ => { h with sys := sys }

def step (h : Hosted κ) (move : HostedMove κ) : Option (Hosted κ) :=
  (h.sys.step (h.label move)).map fun sys => h.effect sys move

/-- The target does what the processor lets it do, and no trap byte of memleax lies inside
of an instruction. -/
def Acts (processor : Processor 64 (Regs × κ) (Bytes 64) Signo) (h : Hosted κ) : HostedMove κ → Prop
  | .fetch t after => h.sys.code.text (h.regs t).rip ≠ trapByte →
      processor.executes h.sys.code.text (h.state t) after ∧
        ∀ a ∈ processor.span h.sys.code.text (h.regs t, h.rest t),
          a ∈ h.sys.code.armed h.sys.monitor.breakpoints → a = (h.regs t).rip
  | .clone t _ after born => processor.creates (h.state t) after born
  | .issue after => ∀ t signum, h.delivery = some (t, signum) →
      processor.delivers signum (h.state t) after
  | _ => True

/-- A move of a target that the loop is made for. -/
def Allowed (processor : Processor 64 (Regs × κ) (Bytes 64) Signo) (h : Hosted κ)
    (move : HostedMove κ) : Prop :=
  h.sys.Traces (h.label move) ∧ h.Acts processor move

/-! ## What the program sees -/

/-- The thread has not been created yet, or has ended. -/
def Gone (h : Hosted κ) (t : Pid) : Prop :=
  h.sys.status t = .unborn ∨ h.sys.status t = .exited ∨ h.sys.status t = .pending .exit

instance (h : Hosted κ) (t : Pid) : Decidable (h.Gone t) :=
  inferInstanceAs (Decidable (_ ∨ _))

/-- The registers, before the trap byte if a trap is pending. -/
def unwound (h : Hosted κ) (t : Pid) : Regs :=
  if h.sys.status t = .pending (.stop .sigtrap false) then
    { h.regs t with rip := (h.regs t).rip - 1 }
  else h.regs t

def process (h : Hosted κ) : Process Pid (Regs × κ) (Bytes 64) where
  threads t := if h.Gone t then none else some (h.unwound t, h.rest t)
  data := h.data

/-- What memleax has read are the registers. -/
def Seen (h : Hosted κ) : Prop :=
  ∀ t, h.sys.status t = .pending (.stop .sigtrap false) → (h.sys.context t).regs = h.regs t

theorem effect_sys (h : Hosted κ) (sys : System) (move : HostedMove κ) :
    (h.effect sys move).sys = sys := by
  cases move with
  | fetch t after =>
      rw [effect]
      split <;> rfl
  | wait t out =>
      rw [effect]
      split <;> rfl
  | issue after =>
      rw [effect]
      split <;> rfl
  | _ => rfl

section Step

variable {h h' : Hosted κ} {text : Bytes 64} {t u : Pid}

theorem threads_congr (hstatus : h'.sys.status u = h.sys.status u) (hregs : h'.regs u = h.regs u)
    (hrest : h'.rest u = h.rest u) : h'.process.threads u = h.process.threads u := by
  simp only [process, Gone, unwound, hstatus, hregs, hrest]

theorem threads_eq (hgone : ¬ h.Gone u)
    (htrap : h.sys.status u ≠ .pending (.stop .sigtrap false)) :
    h.process.threads u = some (h.regs u, h.rest u) := by
  simp only [process, if_neg hgone, unwound, if_neg htrap]

theorem threads_of_running (hrun : h.sys.status u = .running) :
    h.process.threads u = some (h.regs u, h.rest u) := by
  refine threads_eq ?_ ?_ <;> simp [Gone, hrun]

/-- The processes agree if they agree on one thread and nothing else has moved. -/
theorem process_eq (hself : h'.process.threads t = h.process.threads t)
    (hdata : h'.data = h.data)
    (hother : ∀ u, u ≠ t → h'.sys.status u = h.sys.status u ∧ h'.regs u = h.regs u ∧
      h'.rest u = h.rest u) : h'.process = h.process := by
  refine Process.ext ?_ hdata
  ext u : 1
  by_cases heq : u = t
  · rw [heq, hself]
  · obtain ⟨hstatus, hregs, hrest⟩ := hother u heq
    exact threads_congr hstatus hregs hrest

/-- A thread has moved, and with it the data. -/
theorem process_put {after : Outcome κ} (hself : h'.process.threads t = some after.1)
    (hdata : h'.data = after.2)
    (hother : ∀ u, u ≠ t → h'.sys.status u = h.sys.status u ∧ h'.regs u = h.regs u ∧
      h'.rest u = h.rest u) : h'.process = h.process.put t after := by
  refine Process.ext ?_ hdata
  ext u : 1
  show _ = Function.update h.process.threads t (some after.1) u
  by_cases heq : u = t
  · rw [heq, hself, Function.update_self]
  · obtain ⟨hstatus, hregs, hrest⟩ := hother u heq
    rw [Function.update_of_ne heq, threads_congr hstatus hregs hrest]

variable (processor : Processor 64 (Regs × κ) (Bytes 64) Signo)

/-- The program stays where it is, or makes a step of its own. -/
def Follows (text : Bytes 64) (h h' : Hosted κ) : Prop :=
  h'.process = h.process ∨ ∃ event : Event Pid (Regs × κ) (Bytes 64) Signo,
    h.process.Allowed processor text event ∧ h.process.step event = some h'.process

/-- What memleax has read of the other threads are still their registers. -/
theorem Seen.of_ne (hseen : h.Seen)
    (hself : h'.sys.status t = .pending (.stop .sigtrap false) →
      (h'.sys.context t).regs = h'.regs t)
    (hother : ∀ u, u ≠ t → h'.sys.status u = h.sys.status u ∧
      h'.sys.context u = h.sys.context u ∧ h'.regs u = h.regs u) : h'.Seen := by
  intro u hu
  by_cases heq : u = t
  · subst heq
    exact hself hu
  · obtain ⟨hstatus, hcontext, hregs⟩ := hother u heq
    rw [hcontext, hregs]
    exact hseen u (hstatus ▸ hu)

theorem follows_fetch (hseen : h.Seen)
    (hpatched : h.sys.code.Patched text h.sys.monitor.breakpoints)
    {after : Outcome κ} (hok : h.Allowed processor (.fetch t after))
    (hstep : h.step (.fetch t after) = some h') : h'.Seen ∧ Follows processor text h h' := by
  obtain ⟨sys, hsys, rfl⟩ := Option.map_eq_some_iff.mp hstep
  change h.sys.step (.fetch t (h.context t)) = some sys at hsys
  cases System.step_kind hsys with
  | trap _ _ hrun hbyte =>
      change h.sys.code.text (h.regs t).rip = trapByte at hbyte
      rw [effect, if_pos hbyte]
      constructor
      · refine hseen.of_ne (t := t) ?_ ?_
        · intro _
          rw [System.context_setThread_self]
          show _ = Function.update h.regs t _ t
          rw [Function.update_self]
          rfl
        · intro u heq
          exact ⟨System.status_setThread_of_ne _ _ heq, System.context_setThread_of_ne _ _ heq,
            Function.update_of_ne heq _ _⟩
      · left
        refine process_eq (t := t) ?_ rfl ?_
        · rw [threads_of_running hrun]
          simp [process, Gone, unwound]
        · intro u heq
          exact ⟨System.status_setThread_of_ne _ _ heq, Function.update_of_ne heq _ _, rfl⟩
  | execute _ _ hrun hbyte =>
      change h.sys.code.text (h.regs t).rip ≠ trapByte at hbyte
      rcases hok.2 hbyte with ⟨hexec, hclear⟩
      rw [effect, if_neg hbyte]
      constructor
      · refine hseen.of_ne (t := t) ?_ ?_
        · intro htrap
          cases hrun.symm.trans htrap
        · intro u heq
          exact ⟨rfl, rfl, Function.update_of_ne heq _ _⟩
      · right
        refine ⟨.execute t after, ?_, ?_⟩
        · intro r hr
          rw [threads_of_running hrun] at hr
          obtain rfl := Option.some.inj hr
          rw [show h.sys.code.text = _ from hpatched] at hexec hclear hbyte
          refine processor.executes_planted ?_ hexec
          intro a ha harmed
          -- only the byte at the program counter could be armed, and it is no trap byte
          obtain rfl := hclear a ha harmed
          exact hbyte (planted_of_mem harmed)
        · rw [Process.step, threads_of_running hrun, Option.map_some]
          refine congrArg some (process_put ?_ rfl ?_).symm
          · refine (threads_of_running (h := h.put t after) hrun).trans ?_
            simp [put]
          · intro u heq
            exact ⟨rfl, Function.update_of_ne heq _ _, Function.update_of_ne heq _ _⟩

/-- A stop for a signal, before it is delivered. -/
theorem follows_signal (hseen : h.Seen) {signum : Signo}
    (hok : h.Allowed processor (.signal t signum)) (hstep : h.step (.signal t signum) = some h') :
    h'.Seen ∧ Follows processor text h h' := by
  obtain ⟨sys, hsys, rfl⟩ := Option.map_eq_some_iff.mp hstep
  change h.sys.step (.signal t signum (h.context t)) = some sys at hsys
  have hnot : signum ≠ .sigtrap := hok.1.1
  have hpending : Status.pending (.stop signum false) ≠ .pending (.stop .sigtrap false) := by
    rintro ⟨⟩
    exact hnot rfl
  cases System.step_kind hsys with
  | signal _ _ _ hrun =>
      constructor
      · refine hseen.of_ne (t := t) ?_ ?_
        · intro htrap
          exact absurd ((System.status_setThread_self _ _ _).symm.trans htrap) hpending
        · intro u heq
          exact ⟨System.status_setThread_of_ne _ _ heq, System.context_setThread_of_ne _ _ heq, rfl⟩
      · left
        refine process_eq (t := t) ?_ rfl ?_
        · rw [threads_of_running hrun]
          refine threads_eq ?_ ?_
          · simp [Gone, effect]
          · rw [effect, System.status_setThread_self]
            exact hpending
        · intro u heq
          exact ⟨System.status_setThread_of_ne _ _ heq, rfl, rfl⟩

theorem follows_clone (hseen : h.Seen) {child : Pid} {after : Outcome κ} {born : Regs × κ}
    (hok : h.Allowed processor (.clone t child after born))
    (hstep : h.step (.clone t child after born) = some h') :
    h'.Seen ∧ Follows processor text h h' := by
  obtain ⟨sys, hsys, rfl⟩ := Option.map_eq_some_iff.mp hstep
  change h.sys.step (.clone t child ⟨after.1.1, after.2⟩) = some sys at hsys
  cases System.step_kind hsys with
  | clone _ _ _ hrun hchild =>
      have hne : t ≠ child := by
        rintro rfl
        cases hrun.symm.trans hchild
      set parent : Thread := ⟨.pending (.stop .sigtrap true), ⟨after.1.1, after.2⟩⟩ with hparent
      set first : Thread := ⟨.pending (.stop .sigstop false), ⟨after.1.1, after.2⟩⟩ with hfirst
      have hstatus : ∀ u, u ≠ t → u ≠ child →
          ((h.sys.setThread t parent).setThread child first).status u = h.sys.status u := by
        intro u ht hc
        rw [System.status_setThread_of_ne _ _ hc, System.status_setThread_of_ne _ _ ht]
      have hself : ((h.sys.setThread t parent).setThread child first).status t =
          .pending (.stop .sigtrap true) := by
        rw [System.status_setThread_of_ne _ _ hne, System.status_setThread_self]
      have hborn : ((h.sys.setThread t parent).setThread child first).status child =
          .pending (.stop .sigstop false) := System.status_setThread_self _ _ _
      constructor
      · intro u hu
        by_cases ht : u = t
        · subst ht
          cases hself.symm.trans hu
        · by_cases hc : u = child
          · subst hc
            cases hborn.symm.trans hu
          · have hregs : ((h.put t after).put child (born, after.2)).regs u = h.regs u := by
              simp [put, ht, hc]
            refine Eq.trans ?_ ((hseen u ((hstatus u ht hc).symm.trans hu)).trans hregs.symm)
            show (((h.sys.setThread t parent).setThread child first).context u).regs = _
            rw [System.context_setThread_of_ne _ _ hc, System.context_setThread_of_ne _ _ ht]
      · right
        refine ⟨.create t child after born, ?_, ?_⟩
        · intro r hr
          rw [threads_of_running hrun] at hr
          obtain rfl := Option.some.inj hr
          exact hok.2
        · have hnone : h.process.threads child = none := if_pos (Or.inl hchild)
          rw [Process.step, hnone, Option.isNone_none, if_pos rfl, threads_of_running hrun,
            Option.map_some]
          refine congrArg some (Process.ext ?_ rfl)
          ext u : 1
          show Function.update (Function.update h.process.threads t (some after.1)) child
            (some born) u = _
          by_cases hc : u = child
          · subst hc
            rw [Function.update_self]
            refine Eq.symm ((threads_eq ?_ ?_).trans ?_)
            · simp [Gone, effect, put, hborn]
            · exact fun htrap => by cases hborn.symm.trans htrap
            · simp [effect, put]
          · rw [Function.update_of_ne hc]
            by_cases ht : u = t
            · subst ht
              rw [Function.update_self]
              refine Eq.symm ((threads_eq ?_ ?_).trans ?_)
              · simp [Gone, effect, put, hself]
              · exact fun htrap => by cases hself.symm.trans htrap
              · simp [effect, put, hc]
            · rw [Function.update_of_ne ht]
              refine (threads_congr (hstatus u ht hc) ?_ ?_).symm
              · simp [effect, put, hc, ht]
              · simp [effect, put, hc, ht]

theorem follows_exit (hseen : h.Seen) (hstep : h.step (.exit t) = some h') :
    h'.Seen ∧ Follows processor text h h' := by
  obtain ⟨sys, hsys, rfl⟩ := Option.map_eq_some_iff.mp hstep
  change h.sys.step (.exit t) = some sys at hsys
  cases System.step_kind hsys with
  | exit _ hborn =>
      constructor
      · refine hseen.of_ne (t := t) ?_ ?_
        · intro htrap
          cases (System.status_setThread_self _ _ _).symm.trans htrap
        · intro u heq
          exact ⟨System.status_setThread_of_ne _ _ heq, System.context_setThread_of_ne _ _ heq, rfl⟩
      · right
        refine ⟨.exit t, trivial, congrArg some (Process.ext ?_ rfl)⟩
        ext u : 1
        show Function.update h.process.threads t none u = _
        by_cases heq : u = t
        · subst heq
          rw [Function.update_self]
          refine (if_pos ?_).symm
          exact Or.inr (Or.inr (System.status_setThread_self _ _ _))
        · rw [Function.update_of_ne heq]
          refine Eq.symm (threads_congr ?_ rfl rfl)
          exact System.status_setThread_of_ne _ _ heq

/-- An iteration of the loop. A trap is undone; nothing else is written back. -/
theorem follows_wait (hseen : h.Seen) {out : Outside} (hstep : h.step (.wait t out) = some h') :
    h'.Seen ∧ Follows processor text h h' := by
  obtain ⟨sys, hsys, rfl⟩ := Option.map_eq_some_iff.mp hstep
  change h.sys.step (.wait t out) = some sys at hsys
  cases System.step_kind hsys with
  | wait _ report _ hpending hwait =>
      have hstatus := System.status_wait_self h.sys t report out
      have hregs : ∀ u, u ≠ t →
          (h.effect (h.sys.wait t report out) (.wait t out)).regs u = h.regs u := by
        intro u heq
        rw [effect]
        split
        · exact Function.update_of_ne heq _ _
        · rfl
      have hsys := h.effect_sys (h.sys.wait t report out) (.wait t out)
      have hrest : (h.effect (h.sys.wait t report out) (.wait t out)).rest = h.rest := by
        rw [effect]
        split <;> rfl
      have hdata : (h.effect (h.sys.wait t report out) (.wait t out)).data = h.data := by
        rw [effect]
        split <;> rfl
      constructor
      · refine hseen.of_ne (t := t) ?_ ?_
        · intro htrap
          rw [hsys] at htrap
          exact absurd htrap (System.not_pending_wait_self _ _ _ _ _)
        · intro u heq
          rw [hsys]
          exact ⟨System.status_wait_of_ne _ _ _ heq, System.context_wait_of_ne _ _ _ heq,
            hregs u heq⟩
      · left
        refine process_eq (t := t) ?_ hdata ?_
        · by_cases htrap : report = .stop .sigtrap false
          · rw [htrap] at hpending hstatus
            have hback : (h.effect (h.sys.wait t report out) (.wait t out)).regs t =
                { h.regs t with rip := (h.regs t).rip - 1 } := by
              rw [effect, if_pos hpending]
              show Function.update h.regs t _ t = _
              rw [Function.update_self, System.context_wait_self, ← hseen t hpending, htrap]
              rfl
            have hstopped : (h.effect (h.sys.wait t report out) (.wait t out)).sys.status t =
                .stopped := by
              rw [hsys, htrap, hstatus]
              rfl
            refine (threads_eq ?_ ?_).trans ?_
            · simp [Gone, hstopped]
            · rw [hstopped]
              nofun
            · rw [hback, hrest]
              simp [process, Gone, unwound, hpending]
          · have hkept : (h.effect (h.sys.wait t report out) (.wait t out)).regs t = h.regs t := by
              rw [effect, hpending, if_neg]
              rintro ⟨⟩
              exact htrap rfl
            simp only [process, Gone, unwound, hsys, hrest, hkept, hstatus, hpending]
            by_cases hexit : report = .exit
            · simp [hexit]
            · simp [hexit, htrap]
        · intro u heq
          rw [hsys, hrest]
          exact ⟨System.status_wait_of_ne _ _ _ heq, hregs u heq, rfl⟩

/-- A request is carried out. A thread is resumed where it has been stopped, or in the
handler of the signal that it is given. -/
theorem follows_issue (hseen : h.Seen) {after : Outcome κ}
    (hok : h.Allowed processor (.issue after)) (hstep : h.step (.issue after) = some h') :
    h'.Seen ∧ Follows processor text h h' := by
  obtain ⟨sys, hsys, rfl⟩ := Option.map_eq_some_iff.mp hstep
  change h.sys.step .issue = some sys at hsys
  rw [System.step] at hsys
  cases hqueue : h.sys.queue with
  | nil =>
      rw [hqueue] at hsys
      cases hsys
  | cons r queue =>
      rw [hqueue] at hsys
      obtain rfl := Option.some.inj hsys
      -- only a resumed thread changes
      have hstill : h.delivery = none →
          (∀ u, (h.sys.issue queue r).status u = h.sys.status u) →
          (∀ u, (h.sys.issue queue r).context u = h.sys.context u) →
          (h.effect (h.sys.issue queue r) (.issue after)).Seen ∧
            Follows processor text h (h.effect (h.sys.issue queue r) (.issue after)) := by
        intro hnone hstatus hcontext
        rw [effect, hnone]
        constructor
        · intro u hu
          exact (congrArg Context.regs (hcontext u)).trans (hseen u ((hstatus u).symm.trans hu))
        · left
          refine Process.ext ?_ rfl
          ext u : 1
          exact threads_congr (hstatus u) rfl rfl
      cases r with
      | write w => exact hstill (by rw [delivery, hqueue]) (fun _ => rfl) fun _ => rfl
      | alarm seconds => exact hstill (by rw [delivery, hqueue]) (fun _ => rfl) fun _ => rfl
      | writeChild pid address data =>
          exact hstill (by rw [delivery, hqueue]) (fun _ => rfl) fun _ => rfl
      | detach pid => exact hstill (by rw [delivery, hqueue]) (fun _ => rfl) fun _ => rfl
      | resume t signum =>
          by_cases hstopped : h.sys.status t = .stopped
          · have hissue : h.sys.issue queue (.resume t signum) =
                { h.sys with queue := queue }.setThread t ⟨.running, h.sys.context t⟩ :=
              if_pos hstopped
            have hself : (h.sys.issue queue (.resume t signum)).status t = .running := by
              rw [hissue]
              exact System.status_setThread_self _ _ _
            have hother : ∀ u, u ≠ t →
                (h.sys.issue queue (.resume t signum)).status u = h.sys.status u ∧
                (h.sys.issue queue (.resume t signum)).context u = h.sys.context u := by
              intro u heq
              rw [hissue]
              exact ⟨System.status_setThread_of_ne _ _ heq, System.context_setThread_of_ne _ _ heq⟩
            have hbefore : h.process.threads t = some (h.regs t, h.rest t) := by
              refine threads_eq ?_ ?_ <;> simp [Gone, hstopped]
            cases signum with
            | none =>
                have hnone : h.delivery = none := by rw [delivery, hqueue]
                rw [effect, hnone]
                constructor
                · refine hseen.of_ne (t := t) (fun htrap => ?_) fun u heq => ?_
                  · cases hself.symm.trans htrap
                  · exact ⟨(hother u heq).1, (hother u heq).2, rfl⟩
                · left
                  refine process_eq (t := t) ?_ rfl fun u heq => ⟨(hother u heq).1, rfl, rfl⟩
                  rw [hbefore]
                  exact threads_of_running hself
            | some signum =>
                have hsome : h.delivery = some (t, signum) := by
                  rw [delivery, hqueue]
                  exact if_pos hstopped
                rw [effect, hsome]
                constructor
                · refine hseen.of_ne (t := t) (fun htrap => ?_) fun u heq => ?_
                  · cases hself.symm.trans htrap
                  · exact ⟨(hother u heq).1, (hother u heq).2, Function.update_of_ne heq _ _⟩
                · right
                  refine ⟨.deliver t signum after, ?_, ?_⟩
                  · intro r hr
                    rw [hbefore] at hr
                    obtain rfl := Option.some.inj hr
                    exact hok.2 t signum hsome
                  · rw [Process.step, hbefore, Option.map_some]
                    refine congrArg some (process_put ?_ rfl fun u heq => ?_).symm
                    · refine (threads_of_running hself).trans ?_
                      simp [put]
                    · exact ⟨(hother u heq).1, Function.update_of_ne heq _ _,
                        Function.update_of_ne heq _ _⟩
          · have hissue : h.sys.issue queue (.resume t signum) = { h.sys with queue := queue } :=
              if_neg hstopped
            rw [hissue] at hstill ⊢
            refine hstill ?_ (fun _ => rfl) fun _ => rfl
            rw [delivery, hqueue]
            cases signum with
            | none => rfl
            | some signum => exact if_neg hstopped

/-- **Every move** is a step of the program on its own, or none. -/
theorem follows_step (hseen : h.Seen)
    (hpatched : h.sys.code.Patched text h.sys.monitor.breakpoints) {move : HostedMove κ}
    (hok : h.Allowed processor move) (hstep : h.step move = some h') :
    h'.Seen ∧ Follows processor text h h' := by
  cases move with
  | fetch t after => exact follows_fetch processor hseen hpatched hok hstep
  | signal t signum => exact follows_signal processor hseen hok hstep
  | clone t child after born => exact follows_clone processor hseen hok hstep
  | exit t => exact follows_exit processor hseen hstep
  | interrupt signum =>
      obtain ⟨sys, hsys, rfl⟩ := Option.map_eq_some_iff.mp hstep
      obtain rfl := Option.some.inj hsys
      exact ⟨hseen, Or.inl rfl⟩
  | wait t out => exact follows_wait processor hseen hstep
  | waitFails eintr =>
      obtain ⟨sys, hsys, rfl⟩ := Option.map_eq_some_iff.mp hstep
      change h.sys.step (.waitFails eintr) = some sys at hsys
      cases System.step_kind hsys with
      | waitAgain => exact ⟨hseen, Or.inl rfl⟩
      | waitError => exact ⟨hseen, Or.inl rfl⟩
  | issue after => exact follows_issue processor hseen hok hstep

end Step

theorem sys_reachable {processor : Processor 64 (Regs × κ) (Bytes 64) Signo} {h₀ h : Hosted κ}
    (h' : Reachable step (Allowed processor) h₀ h) :
    Reachable System.step System.Traces h₀.sys h.sys := by
  refine h'.project (fun h => h.sys) ?_
  intro h move h'' hok hstep
  obtain ⟨sys, hsys, rfl⟩ := Option.map_eq_some_iff.mp hstep
  refine ⟨h.label move, hok.1, ?_⟩
  rw [effect_sys]
  exact hsys

/-- The target at the beginning. -/
def begin (s₀ : System) (regs : Pid → Regs) (rest : Pid → κ) (data : Bytes 64) : Hosted κ :=
  ⟨s₀, regs, rest, data⟩

end Hosted

/-- A processor that knows only `nop`, on a machine where others write the data. -/
def nopProcessor : Processor 64 (Regs × Unit) (Bytes 64) Signo where
  span _ r := {r.1.rip}
  executes text before after :=
    text before.1.1.rip = 0x90 ∧ after.1.1 = { before.1.1 with rip := before.1.1.rip + 1 }
  executes_congr := by
    rintro text text' r d after hspan ⟨hbyte, hafter⟩
    exact ⟨hspan _ rfl ▸ hbyte, hafter⟩
  delivers _ _ _ := True
  creates _ _ _ := True

/-- The moves of the sample, so that they can be tested. -/
def NopAllowed (h : Hosted Unit) (move : HostedMove Unit) : Prop :=
  h.sys.Traces (h.label move) ∧
    match move with
    | .fetch t after => h.sys.code.text (h.regs t).rip ≠ trapByte →
        h.sys.code.text (h.regs t).rip = 0x90 ∧
          after.1.1 = { h.regs t with rip := (h.regs t).rip + 1 }
    | _ => True

instance (h : Hosted Unit) : (move : HostedMove Unit) → Decidable (NopAllowed h move)
  | .fetch _ _ => inferInstanceAs (Decidable (_ ∧ (_ → _)))
  | .signal _ _ | .clone _ _ _ _ | .exit _ | .interrupt _ | .wait _ _ | .waitFails _ | .issue _ =>
      inferInstanceAs (Decidable (_ ∧ True))

theorem NopAllowed.allowed {h : Hosted Unit} {move : HostedMove Unit} (hok : NopAllowed h move) :
    h.Allowed nopProcessor move := by
  refine ⟨hok.1, ?_⟩
  cases move with
  | fetch t after => exact fun hbyte => ⟨hok.2 hbyte, fun a ha _ => ha⟩
  | clone t child after born => trivial
  | issue after => exact fun _ _ _ => trivial
  | _ => trivial

def nopData : Bytes 64 := ptraceSetData (fun _ => 0) 0x8000 0x2000

/-- The registers at `rip`. -/
def nopRegs (rip : Word) : Regs := { rip := rip, rdi := 16, rsp := 0x8000 }

/-- The target goes into `malloc`, is stopped there and goes on. -/
def nopRun : List (HostedMove Unit) :=
  List.replicate 5 (.issue ((nopRegs 0, ()), nopData)) ++
    [.fetch 1 ((nopRegs 0x1000, ()), nopData), .fetch 1 ((nopRegs 0, ()), nopData),
      .wait 1 sampleOutside] ++
    List.replicate 4 (.issue ((nopRegs 0, ()), nopData)) ++
    [.fetch 1 ((nopRegs 0x1001, ()), nopData)]

end Memleax
