import Mathlib.Order.Interval.Finset.Nat
import Memleax.Tracer.Held

/-!
# The room for held threads

`hold_threads` has 1000 elements and nothing counts them. A held thread is stopped and
not reported again, so the held threads and the one that is to be held are different
threads of the target, and none of them is the tracked one. If there are no more than
1000 of these a hold writes inside the array; with one more it may not
(`hold_queue_iff`).

A held thread that ends stays in the array (`System.HoldOk`).
-/

namespace Memleax

open Framework

/-! ## The queue -/

/-- The thread has been created and has not ended. -/
def System.Lives (s : System) (t : Pid) : Prop := s.status t ≠ .unborn ∧ s.Alive t

/-- No more than `n` threads live besides `last_thread`. -/
def System.Crowd (n : Nat) (s : System) : Prop :=
  ∀ ts : Finset Pid, (∀ t ∈ ts, s.Lives t ∧ t ≠ s.monitor.lastThread) → ts.card ≤ n

/-- Thread `t` has trapped while another one is in a function. -/
def System.Foreign (s : System) (t : Pid) : Prop :=
  s.Trapped t ∧ s.monitor.returnAddress ≠ 0 ∧ s.monitor.lastThread ≠ t

/-- No held thread ends, and no more than `n` threads live besides the tracked one when
another one is to be held. -/
def System.HoldOk (n : Nat) (s : System) : Label → Prop
  | .exit t => t ∉ s.monitor.holdThreads
  | .wait t _ => s.Foreign t → s.Crowd n
  | _ => True

/-- What is to hold of `hold_threads[0 .. hold_thread_num)`. -/
structure HoldRight (s : System) : Prop where
  nodup : s.monitor.holdThreads.Nodup
  stopped : ∀ t ∈ s.monitor.holdThreads, s.status t = .stopped
  last : s.monitor.returnAddress ≠ 0 → s.monitor.lastThread ∉ s.monitor.holdThreads
  room : s.monitor.holdThreads.length ≤ holdMax

/-- What is to hold of a step. -/
structure System.HoldStepRight (s : System) (label : Label) (s' : System) : Prop where
  /-- a push writes inside the array -/
  push : ∀ t out, label = .wait t out → s.Foreign t →
    s.monitor.holdThreads.length < holdMax ∧
      s'.monitor.holdThreads = t :: s.monitor.holdThreads
  /-- a wake-up pops a thread that is stopped -/
  pop : ∀ held rest, s.monitor.holdThreads = held :: rest → s'.monitor.holdThreads = rest →
    s.status held = .stopped ∧ s'.status held = .stopped

/-- The queue is right in every run in which no more than `n` threads live besides the
tracked one. -/
def HoldSafe (n : Nat) : Prop :=
  ∀ (symtabByName : Api → Word) (text : Bytes 64) (targetPid : Pid) (limits : Limits)
    (others : Pid → Bool) (s₀ s : System),
    System.begin symtabByName text targetPid limits others = some s₀ →
    Reachable System.step (System.HoldOk n) s₀ s →
    HoldRight s ∧ ∀ label s', s.HoldOk n label → s.step label = some s' →
      s.HoldStepRight label s'

/-! ## Holding a thread -/

section Foreign

variable {s s' : System} {t : Pid} {n : Nat}

theorem System.wait_foreign (h : s.Foreign t) (hroom : s.monitor.holdThreads.length < holdMax)
    (out : Outside) :
    (s.wait t (.stop .sigtrap false) out).monitor =
        { s.monitor with holdThreads := t :: s.monitor.holdThreads } ∧
      (s.wait t (.stop .sigtrap false) out).AtWaitpid := by
  have hturn : s.monitor.turn s.code t (.stop .sigtrap false) (s.context t) out =
      { monitor := { s.monitor with holdThreads := t :: s.monitor.holdThreads }
        context := pcUnwind (s.context t) } := by
    show s.monitor.onSigtrap s.code t (s.context t) out = _
    rw [Monitor.onSigtrap]
    dsimp only
    rw [if_pos ⟨h.2.1, h.2.2⟩, if_pos hroom]
  simp only [System.wait, System.AtWaitpid, hturn, and_self]

theorem System.wait_foreign_full (h : s.Foreign t)
    (hfull : ¬ s.monitor.holdThreads.length < holdMax) (out : Outside) :
    (s.wait t (.stop .sigtrap false) out).phase = .undefined := by
  have hturn : s.monitor.turn s.code t (.stop .sigtrap false) (s.context t) out =
      { monitor := s.monitor, context := pcUnwind (s.context t), phase := .undefined } := by
    show s.monitor.onSigtrap s.code t (s.context t) out = _
    rw [Monitor.onSigtrap]
    dsimp only
    rw [if_pos ⟨h.2.1, h.2.2⟩, if_neg hfull]
  simp only [System.wait, hturn]

theorem System.lives_step {label : Label} (hstep : s.step label = some s') {u : Pid}
    (hne : label ≠ .exit u) (h : s.Lives u) : s'.Lives u :=
  ⟨fun hunborn => h.1 (System.unborn_of_step hstep hunborn), System.alive_step hstep hne h.2⟩

theorem System.lives_of_trapped (h : s.Trapped t) : s.Lives t := by
  refine ⟨?_, System.alive_of_trapped h⟩
  intro hunborn
  cases hunborn.symm.trans h

/-- **There is room for one more**: the held threads and the new one are different, and
none is the tracked one. -/
theorem HoldInv.room_for (h : HoldInv s) (hlives : ∀ u ∈ s.monitor.holdThreads, s.Lives u)
    (ht : s.Foreign t) (hcrowd : s.Crowd n) : s.monitor.holdThreads.length < n := by
  have hnot : t ∉ s.monitor.holdThreads := by
    refine h.not_held (System.alive_of_trapped ht.1) ?_
    rw [show s.status t = _ from ht.1]
    simp
  have hnodup : (t :: s.monitor.holdThreads).Nodup := List.nodup_cons.mpr ⟨hnot, h.nodup⟩
  have hcard := hcrowd (t :: s.monitor.holdThreads).toFinset (by
    intro u hu
    rcases List.mem_cons.mp (List.mem_toFinset.mp hu) with rfl | hu
    · exact ⟨System.lives_of_trapped ht.1, Ne.symm ht.2.2⟩
    · refine ⟨hlives u hu, ?_⟩
      rintro rfl
      exact h.last ht.2.1 hu)
  rw [List.toFinset_card_of_nodup hnodup, List.length_cons] at hcard
  exact hcard

end Foreign

/-! ## Runs -/

/-- The invariant of such runs. -/
structure QueueInv (s : System) : Prop extends HoldInv s where
  lives : ∀ t ∈ s.monitor.holdThreads, s.Lives t
  room : s.monitor.holdThreads.length ≤ holdMax

section Runs

variable {s s' : System} {label : Label} {n : Nat}

theorem QueueInv.holdRight (h : QueueInv s) : HoldRight s where
  nodup := h.nodup
  stopped t ht := h.stopped t ht (h.lives t ht).2
  last := h.last
  room := h.room

theorem queueInv_begin {symtabByName : Api → Word} {text : Bytes 64} {targetPid : Pid}
    {limits : Limits} {others : Pid → Bool} {s₀ : System}
    (hbegin : System.begin symtabByName text targetPid limits others = some s₀) : QueueInv s₀ := by
  have hhold : s₀.monitor.holdThreads = [] := by
    obtain ⟨init, -, rfl⟩ := Option.map_eq_some_iff.mp hbegin
    rfl
  refine { holdInv_begin hbegin with lives := ?_, room := ?_ }
  · rw [hhold]
    intro t ht
    cases ht
  · rw [hhold]
    exact Nat.zero_le _

theorem QueueInv.step_right (h : QueueInv s) (hn : n ≤ holdMax) (hok : s.HoldOk n label)
    (hstep : s.step label = some s') : s.HoldStepRight label s' := by
  constructor
  · rintro t out rfl hforeign
    have hroom := lt_of_lt_of_le (h.room_for h.lives hforeign (hok hforeign)) hn
    refine ⟨hroom, ?_⟩
    cases System.step_kind hstep with
    | wait t report out hpending hwait =>
        cases hpending.symm.trans hforeign.1
        rw [(System.wait_foreign hforeign hroom out).1]
  · intro held rest hbefore hafter
    have hheld : s.status held = .stopped :=
      h.holdRight.stopped held (by rw [hbefore]; exact List.mem_cons_self)
    refine ⟨hheld, ?_⟩
    have hlength : s'.monitor.holdThreads.length < s.monitor.holdThreads.length := by
      rw [hbefore, hafter]
      exact Nat.lt_succ_self _
    cases System.step_hold hstep with
    | same hhold =>
        rw [hhold] at hlength
        exact absurd hlength (lt_irrefl _)
    | push t out hlabel htrapped hra hlast hhold =>
        rw [hhold, List.length_cons] at hlength
        omega
    | pop t out held' rest' hlabel htrapped =>
        subst hlabel
        have hne : held ≠ t := by
          rintro rfl
          cases hheld.symm.trans htrapped
        exact (System.status_step_wait hstep hne).trans hheld

/-- **Every step keeps the queue.** -/
theorem queueInv_step (h : QueueInv s) (hn : n ≤ holdMax) (hok : s.HoldOk n label)
    (hstep : s.step label = some s') : QueueInv s' := by
  have hlives : ∀ u ∈ s.monitor.holdThreads, s'.Lives u := by
    intro u hu
    refine System.lives_step hstep ?_ (h.lives u hu)
    rintro rfl
    exact hok hu
  refine { holdInv_step h.toHoldInv hstep with lives := ?_, room := ?_ }
  · cases System.step_hold hstep with
    | same hhold =>
        rw [hhold]
        exact hlives
    | push t out hlabel htrapped hra hlast hhold =>
        subst hlabel
        rw [hhold]
        intro u hu
        rcases List.mem_cons.mp hu with rfl | hu
        · exact System.lives_step hstep (by rintro ⟨⟩) (System.lives_of_trapped htrapped)
        · exact hlives u hu
    | pop t out held rest hlabel htrapped hlast hrip hbefore hhold =>
        rw [hhold]
        intro u hu
        exact hlives u (by rw [hbefore]; exact List.mem_cons_of_mem _ hu)
  · cases System.step_hold hstep with
    | same hhold =>
        rw [hhold]
        exact h.room
    | push t out hlabel htrapped hra hlast hhold =>
        have hpush := (h.step_right hn hok hstep).push t out hlabel ⟨htrapped, hra, hlast⟩
        rw [hhold, List.length_cons]
        exact hpush.1
    | pop t out held rest hlabel htrapped hlast hrip hbefore hhold =>
        have hroom := h.room
        rw [hbefore, List.length_cons] at hroom
        rw [hhold]
        omega

end Runs

theorem holdSafe_of_le {n : Nat} (hn : n ≤ holdMax) : HoldSafe n := by
  intro symtabByName text targetPid limits others s₀ s hbegin hs
  have h : QueueInv s := by
    refine hs.invariant QueueInv (queueInv_begin hbegin) ?_
    intro s label s' h hok hstep
    exact queueInv_step h hn hok hstep
  refine ⟨h.holdRight, ?_⟩
  intro label s' hok hstep
  exact h.step_right hn hok hstep

/-! ## One thread too many

Thread 1 calls `malloc`, and the threads from 2 to 1002 come to the entry of `free`
meanwhile, one after the other. -/

/-- `k` threads are held, and the next ones still run. -/
structure Gathered (k : Nat) (s : System) : Prop where
  waiting : s.AtWaitpid
  hold : s.monitor.holdThreads.length = k
  returnAddress : s.monitor.returnAddress ≠ 0
  last : s.monitor.lastThread = 1
  entry : s.code.text 0x1100 = trapByte
  running : ∀ t : Nat, k + 1 < t → t ≤ holdMax + 2 → s.status t = .running
  unborn : ∀ t : Nat, t = 0 ∨ holdMax + 2 < t → s.status t = .unborn

/-- The registers of a thread at the entry of `free`. -/
def atFree : Context := sampleContext 0x1100 0x2100 0 0

section Gathered

variable {k : Nat} {s : System}

theorem Gathered.trap (h : Gathered k s) (hk : k ≤ holdMax) :
    s.step (.fetch (k + 2) atFree) =
      some (s.setThread (k + 2) ⟨.pending (.stop .sigtrap false), atFree.trapped⟩) := by
  have hrun : s.status (k + 2) = .running := h.running (k + 2) (by omega) (by omega)
  rw [System.step, if_pos hrun]
  exact if_pos h.entry

theorem Gathered.foreign (h : Gathered k s) :
    (s.setThread (k + 2) ⟨.pending (.stop .sigtrap false), atFree.trapped⟩).Foreign (k + 2) := by
  refine ⟨System.status_setThread_self _ _ _, h.returnAddress, ?_⟩
  show s.monitor.lastThread ≠ k + 2
  rw [h.last]
  exact show (1 : Nat) ≠ k + 2 by omega

theorem Gathered.crowd (h : Gathered k s) (hk : k ≤ holdMax) :
    (s.setThread (k + 2) ⟨.pending (.stop .sigtrap false), atFree.trapped⟩).Crowd
      (holdMax + 1) := by
  intro ts hts
  have hsub : ts ⊆ Finset.Icc 2 (holdMax + 2) := by
    intro (t : Nat) ht
    obtain ⟨⟨hborn, -⟩, hlast⟩ := hts t ht
    have hne : t ≠ 1 := fun h1 => hlast (h1.trans h.last.symm)
    have hrange : 2 ≤ t ∧ t ≤ holdMax + 2 := by
      by_contra hout
      have hother : t ≠ k + 2 := by omega
      rw [System.status_setThread_of_ne _ _ hother] at hborn
      exact hborn (h.unborn t (by omega))
    exact Finset.mem_Icc.mpr hrange
  calc ts.card ≤ (Finset.Icc 2 (holdMax + 2)).card := Finset.card_le_card hsub
    _ = holdMax + 1 := by rw [Nat.card_Icc]; omega

theorem Gathered.hold_next (h : Gathered k s) (hk : k < holdMax) :
    ∃ s', Reachable System.step (System.HoldOk (holdMax + 1)) s s' ∧ Gathered (k + 1) s' := by
  have htrap := h.trap hk.le
  have hforeign := h.foreign
  have hcrowd := h.crowd hk.le
  set s₁ := s.setThread (k + 2) ⟨.pending (.stop .sigtrap false), atFree.trapped⟩ with hs₁
  have hlength : s₁.monitor.holdThreads.length = k := h.hold
  obtain ⟨hmonitor, hwaiting⟩ := System.wait_foreign hforeign (by omega) sampleOutside
  have hwait : s₁.step (.wait (k + 2) sampleOutside) =
      some (s₁.wait (k + 2) (.stop .sigtrap false) sampleOutside) := by
    rw [System.step, show s₁.status (k + 2) = _ from hforeign.1]
    exact if_pos h.waiting
  have hother : ∀ t, t ≠ k + 2 →
      (s₁.wait (k + 2) (.stop .sigtrap false) sampleOutside).status t = s.status t := by
    intro t ht
    rw [System.status_wait_of_ne _ _ _ ht, hs₁, System.status_setThread_of_ne _ _ ht]
  have hok : s₁.HoldOk (holdMax + 1) (.wait (k + 2) sampleOutside) := fun _ => hcrowd
  refine ⟨_, (Reachable.start.step trivial htrap).step hok hwait, ?_⟩
  refine ⟨hwaiting, ?_, ?_, ?_, h.entry, ?_, ?_⟩
  · rw [hmonitor]
    exact congrArg Nat.succ hlength
  · rw [hmonitor]
    exact h.returnAddress
  · rw [hmonitor]
    exact h.last
  · intro t ht hle
    rw [hother t (by omega)]
    exact h.running t (by omega) hle
  · intro t ht
    rw [hother t (by omega)]
    exact h.unborn t ht

end Gathered

/-- The steps of memleax and of thread 1, none of which holds it. -/
def System.FirstOnly (s : System) : Label → Prop
  | .fetch t _ => t = 1
  | .wait t _ => t = 1 ∧ s.monitor.returnAddress = 0
  | .issue => True
  | _ => False

instance (s : System) : (label : Label) → Decidable (s.FirstOnly label)
  | .fetch _ _ => inferInstanceAs (Decidable (_ = _))
  | .wait _ _ => inferInstanceAs (Decidable (_ ∧ _))
  | .issue => inferInstanceAs (Decidable True)
  | .signal _ _ _ | .clone _ _ _ | .exit _ | .interrupt _ | .waitFails _ =>
      inferInstanceAs (Decidable False)

theorem System.FirstOnly.holdOk {s : System} {label : Label} (h : s.FirstOnly label) (n : Nat) :
    s.HoldOk n label := by
  cases label with
  | wait t out => exact fun hforeign => absurd h.2 hforeign.2.1
  | exit t => exact h.elim
  | _ => trivial

theorem System.FirstOnly.status_eq {s₀ s : System} (hs : Reachable System.step System.FirstOnly s₀ s)
    {u : Pid} (hu : u ≠ 1) (hstopped : s₀.status u ≠ .stopped) : s.status u = s₀.status u := by
  refine hs.invariant (fun s => s.status u = s₀.status u) rfl ?_
  intro s label s' h hok hstep
  cases System.status_step hstep u with
  | same label hsame => exact hsame.trans h
  | trap ctx hrun hbyte hnew => exact absurd hok hu
  | reported report out hpending hwait hnew => exact absurd hok.1 hu
  | resumed signum queue hqueue hstop hnew => exact absurd (h.symm.trans hstop) hstopped
  | signal signum ctx hrun hnew => exact hok.elim
  | creates child ctx hrun hnew => exact hok.elim
  | created t ctx hunborn hnew => exact hok.elim
  | exit hborn hnew => exact hok.elim

/-- Nobody is held when the call of thread 1 has been taken up. -/
theorem gathered_zero :
    ∃ s₀ s, sampleBegin (holdMax + 2) = some s₀ ∧
      Reachable System.step (System.HoldOk (holdMax + 1)) s₀ s ∧ Gathered 0 s := by
  have hrun : ((sampleBegin (holdMax + 2)).bind fun s₀ =>
      (feed System.step System.FirstOnly s₀ (sampleCall 0x2000)).map fun s =>
        (decide s.AtWaitpid, s.monitor.holdThreads, s.monitor.returnAddress,
          s.monitor.lastThread, s.code.text 0x1100)) = some (true, [], 0x2000, 1, trapByte) := by
    decide +kernel
  obtain ⟨s₀, s, hbegin, hreach, hobserved⟩ := Reachable.exists_of_run hrun
  simp only [Prod.mk.injEq, decide_eq_true_eq] at hobserved
  obtain ⟨hwait, hhold, hra, hlast, hentry⟩ := hobserved
  have hstatus (u : Nat) (hu : u ≠ 1) :
      s₀.status u = if u ≤ holdMax + 2 ∧ u ≠ 0 then .running else .unborn := by
    rw [sampleBegin, System.begin] at hbegin
    obtain ⟨init, -, rfl⟩ := Option.map_eq_some_iff.mp hbegin
    simp only [System.status, if_neg hu, decide_eq_true_eq]
    split <;> rfl
  refine ⟨s₀, s, hbegin, hreach.mono fun s label hok => hok.holdOk _, hwait, ?_, ?_, hlast, hentry,
    ?_, ?_⟩
  · rw [hhold, List.length_nil]
  · rw [hra]
    decide
  · intro t ht hle
    have hother : t ≠ 1 := by omega
    have hbefore := hstatus t hother
    rw [if_pos ⟨hle, by omega⟩] at hbefore
    rw [System.FirstOnly.status_eq hreach hother (by rw [hbefore]; simp), hbefore]
  · intro t ht
    have hother : t ≠ 1 := by
      have hmax : holdMax = 1000 := rfl
      omega
    have hbefore := hstatus t hother
    rw [if_neg (by omega)] at hbefore
    rw [System.FirstOnly.status_eq hreach hother (by rw [hbefore]; simp), hbefore]

theorem gathered_reachable {k : Nat} (hk : k ≤ holdMax) :
    ∃ s₀ s, sampleBegin (holdMax + 2) = some s₀ ∧
      Reachable System.step (System.HoldOk (holdMax + 1)) s₀ s ∧ Gathered k s := by
  induction k with
  | zero => exact gathered_zero
  | succ k ih =>
      obtain ⟨s₀, s, hbegin, hs, hgathered⟩ := ih (by omega)
      obtain ⟨s', hs', hnext⟩ := hgathered.hold_next hk
      exact ⟨s₀, s', hbegin, hs.trans hs', hnext⟩

/-- 1000 threads are held, and one more has trapped and is going to be reported. -/
theorem hold_queue_full (out : Outside) :
    ∃ s₀ s s', sampleBegin (holdMax + 2) = some s₀ ∧
      Reachable System.step (System.HoldOk (holdMax + 1)) s₀ s ∧ s.Foreign (holdMax + 2) ∧
      s.Crowd (holdMax + 1) ∧ s.monitor.holdThreads.length = holdMax ∧
      s.step (.wait (holdMax + 2) out) = some s' ∧ s'.phase = .undefined := by
  obtain ⟨s₀, s, hbegin, hs, h⟩ := gathered_reachable (le_refl holdMax)
  have htrap := h.trap (le_refl holdMax)
  have hforeign := h.foreign
  have hcrowd := h.crowd (le_refl holdMax)
  set s₁ := s.setThread (holdMax + 2) ⟨.pending (.stop .sigtrap false), atFree.trapped⟩
  have hlength : s₁.monitor.holdThreads.length = holdMax := h.hold
  have hok : s.HoldOk (holdMax + 1) (.fetch (holdMax + 2) atFree) := trivial
  refine ⟨s₀, s₁, s₁.wait (holdMax + 2) (.stop .sigtrap false) out, hbegin, hs.step hok htrap,
    hforeign, hcrowd, hlength, ?_, System.wait_foreign_full hforeign (by omega) out⟩
  rw [System.step, show s₁.status (holdMax + 2) = _ from hforeign.1]
  exact if_pos h.waiting

theorem System.HoldOk.mono {n n' : Nat} (hn : n ≤ n') {s : System} {label : Label}
    (h : s.HoldOk n label) : s.HoldOk n' label := by
  cases label with
  | wait t out =>
      intro hforeign ts hts
      exact (h hforeign ts hts).trans hn
  | exit t => exact h
  | _ => trivial

/-- **The queue is right** in every run in which no held thread ends, if 1000 threads at
most live besides the tracked one when another one is to be held, and not with more of
them. -/
theorem hold_queue_iff (n : Nat) : HoldSafe n ↔ n ≤ holdMax := by
  constructor
  · intro hsafe
    by_contra hmore
    obtain ⟨s₀, s, s', hbegin, hs, hforeign, hcrowd, hlength, hstep, -⟩ :=
      hold_queue_full sampleOutside
    have hmono : ∀ s label, System.HoldOk (holdMax + 1) s label → System.HoldOk n s label :=
      fun _ _ hok => hok.mono (by omega)
    have hok : s.HoldOk (holdMax + 1) (.wait (holdMax + 2) sampleOutside) := fun _ => hcrowd
    have hright := (hsafe _ _ _ _ _ s₀ s hbegin (hs.mono hmono)).2 _ s' (hmono _ _ hok) hstep
    have hroom := (hright.push _ _ rfl hforeign).1
    omega
  · exact holdSafe_of_le

/-- A thread is held beyond the end of `hold_threads`. -/
theorem hold_queue_overflows :
    ∃ s₀ s s', sampleBegin 1002 = some s₀ ∧
      Reachable System.step (System.HoldOk 1001) s₀ s ∧ s.monitor.holdThreads.length = 1000 ∧
      s.step (.wait 1002 sampleOutside) = some s' ∧ s'.phase = .undefined ∧
      ¬ s.HoldStepRight (.wait 1002 sampleOutside) s' := by
  obtain ⟨s₀, s, s', hbegin, hs, hforeign, -, hlength, hstep, hphase⟩ :=
    hold_queue_full sampleOutside
  refine ⟨s₀, s, s', hbegin, hs, hlength, hstep, hphase, ?_⟩
  intro hright
  have hroom := (hright.push _ _ rfl hforeign).1
  omega

end Memleax
