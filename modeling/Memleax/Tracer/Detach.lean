import Memleax.Tracer.TextInvariant

/-!
# Detaching

After the loop `breakpoint_cleanup` writes the original words over the four
entries, and when a call is pending the word saved at its return address is
written back last. That word was read while the other three entries were armed:
an entry among the 8 bytes from the return address on gets its trap byte back,
after it had been cleaned up.
-/

namespace Memleax

open Framework

variable {symtabByName : Api → Word} {text : Bytes 64} {targetPid : Pid} {limits : Limits}
  {others : Pid → Bool} {s₀ s : System}

/-- Each entry that is cleaned up clears its window. -/
theorem cleanup_planted {orig : Bytes 64} {bps : Breakpoints} (hk : Hooked orig bps)
    (apis : List Api) (A : Set Word) :
    apis.foldl (fun text api => ptraceSetData text (bps api).entryAddress (bps api).entryCode)
        (planted orig trapByte A) =
      planted orig trapByte
        { b | b ∈ A ∧ ∀ api ∈ apis, ¬ Bytes.Within 8 (bps api).entryAddress b } := by
  induction apis generalizing A with
  | nil => simp
  | cons api apis ih =>
      have hfirst : ptraceSetData (planted orig trapByte A) (bps api).entryAddress
          (bps api).entryCode =
          planted orig trapByte { b | b ∈ A ∧ ¬ Bytes.Within 8 (bps api).entryAddress b } := by
        rw [ptraceSetData, hk.entryCode_eq api]
        refine planted_restore ?_ ?_
        · intro b hw
          exact iff_of_false (fun hb => hb.2 hw) (Set.notMem_empty b)
        · intro b hw
          exact and_iff_left hw
      rw [List.foldl_cons, hfirst, ih]
      apply congrArg (planted orig trapByte)
      ext b
      simp only [Set.mem_ofPred_eq, List.forall_mem_cons, and_assoc]

/-- The text that is left behind: trap bytes at the entries, other than the one
of the pending call, in the window of its return address. -/
theorem detachText_eq {orig : Bytes 64} {m : Monitor} {c : Code} (hk : Hooked orig m.breakpoints)
    (hs : Settled orig m.breakpoints m.tracked c) :
    m.detachText c.text = planted orig trapByte
      { b | m.returnAddress ≠ 0 ∧ Bytes.Within 8 m.returnAddress b ∧
        ∃ api, m.bp ≠ some api ∧ b = (m.breakpoints api).entryAddress } := by
  rw [Monitor.detachText, breakpointCleanup, show c.text = _ from hs.patched, cleanup_planted hk]
  have hentry : ∀ api, Bytes.Within 8 (m.breakpoints api).entryAddress
      (m.breakpoints api).entryAddress := fun api => Bytes.within_self (by decide) _
  by_cases hra : m.returnAddress = 0
  · rw [if_neg (not_not_intro hra)]
    apply congrArg (planted orig trapByte)
    ext b
    refine iff_of_false ?_ fun hb => hb.1 hra
    rintro ⟨hb, hclear⟩
    rcases hs.mem_armed_iff.mp hb with ⟨api, rfl, -⟩ | ⟨hne, -⟩
    · exact hclear api api.mem_all (hentry api)
    · exact hne hra
  · rw [if_pos hra]
    obtain ⟨api, hbp, harmed, hret⟩ := hs.busy hra
    have hsaved := hs.saved hra
    have hbp : m.bp = some api := hbp
    have hcode : m.returnCode = _ := hsaved
    rw [ptraceSetData, hcode]
    refine planted_restore ?_ ?_
    · intro b hw
      -- inside the window: the entries that were armed when the word was read
      constructor
      · rintro ⟨-, -, other, hne, rfl⟩
        exact ⟨other, (harmed other).mpr fun heq => hne (by rw [hbp, heq]), rfl⟩
      · rintro ⟨other, hother, rfl⟩
        refine ⟨hra, hw, other, ?_, rfl⟩
        rw [hbp]
        exact fun heq => (harmed other).mp hother (Option.some.inj heq).symm
    · intro b hw
      -- outside: what the cleanup has left
      refine iff_of_false (fun hb => hw hb.2.1) ?_
      rintro ⟨hb, hclear⟩
      rcases hs.mem_armed_iff.mp hb with ⟨other, rfl, -⟩ | ⟨-, rfl⟩
      · exact hclear other other.mem_all (hentry other)
      · exact hw (Bytes.within_self (by decide) _)

/-- When the text that is left behind is the original one. -/
theorem TextInv.detachText_iff (h : TextInv text s) (hqueue : s.queue = []) :
    s.monitor.detachText s.code.text = text ↔
      (s.monitor.returnAddress ≠ 0 → ∀ api, s.monitor.bp ≠ some api →
        Bytes.Within 8 s.monitor.returnAddress (s.monitor.breakpoints api).entryAddress →
        text (s.monitor.breakpoints api).entryAddress = trapByte) := by
  have hsettled := h.settled (by rw [hqueue]; exact noWrites_nil)
  rw [detachText_eq h.hooked hsettled, planted_eq_self_iff]
  constructor
  · intro hall hra api hne hw
    exact hall _ ⟨hra, hw, api, hne, rfl⟩
  · rintro hall b ⟨hra, hw, api, hne, rfl⟩
    exact hall hra api hne hw

/-- **Detach restores the code bytes** in a state of a run exactly when no call
is pending, or no entry but its own lies in the window of its return address
with an original byte other than `0xCC`. Throughout the run every trap is one of
an armed byte, no child is forked and no hooked call returns to address `0`
(`System.Traces`). -/
theorem detach_restores_iff
    (hbegin : System.begin symtabByName text targetPid limits others = some s₀)
    (hapart : ∀ api other, api ≠ other →
      ¬ Bytes.Within 8 (symtabByName api) (symtabByName other))
    (hs : Reachable System.step System.Traces s₀ s) (hqueue : s.queue = []) :
    s.monitor.detachText s.code.text = text ↔
      (s.monitor.returnAddress ≠ 0 → ∀ api, s.monitor.bp ≠ some api →
        Bytes.Within 8 s.monitor.returnAddress (symtabByName api) →
        text (symtabByName api) = trapByte) := by
  obtain ⟨h, hbps⟩ := textInv_reachable hbegin hapart hs
  rw [h.detachText_iff hqueue, hbps]
  rfl

/-- A call that returns to four bytes before the entry of `free` is pending:
`free` keeps its trap byte. -/
theorem detach_leaves_trap_byte :
    ∃ s₀ s, sampleBegin 1 = some s₀ ∧ Reachable System.step System.Traces s₀ s ∧ s.AtWaitpid ∧
      s.monitor.detachText s.code.text ≠ sampleText := by
  have hrun : ((sampleBegin 1).bind fun s₀ =>
      (feed System.step System.Traces s₀ (sampleCall 0x10FC)).map fun s =>
        (decide s.AtWaitpid, s.monitor.detachText s.code.text 0x1100)) = some (true, 0xCC) := by
    decide +kernel
  obtain ⟨s₀, s, hbegin, hreach, hs⟩ := Reachable.exists_of_run hrun
  simp only [Prod.mk.injEq, decide_eq_true_eq] at hs
  obtain ⟨hwait, hbyte⟩ := hs
  refine ⟨s₀, s, hbegin, hreach, hwait, ?_⟩
  intro htext
  rw [htext] at hbyte
  revert hbyte
  decide

/-- A pending call that returns far from the entries. -/
theorem detach_restores_sampleCall :
    ∃ s₀ s, sampleBegin 1 = some s₀ ∧ Reachable System.step System.Traces s₀ s ∧
      s.monitor.returnAddress = 0x2000 ∧ s.monitor.detachText s.code.text = sampleText := by
  have hrun : ((sampleBegin 1).bind fun s₀ =>
      (feed System.step System.Traces s₀ (sampleCall 0x2000)).map fun s =>
        (decide s.AtWaitpid, s.monitor.returnAddress)) = some (true, 0x2000) := by decide +kernel
  obtain ⟨s₀, s, hbegin, hreach, hs⟩ := Reachable.exists_of_run hrun
  simp only [Prod.mk.injEq, decide_eq_true_eq] at hs
  obtain ⟨hwait, hra⟩ := hs
  refine ⟨s₀, s, hbegin, hreach, hra, ?_⟩
  apply (detach_restores_iff hbegin sampleSymtab_apart hreach hwait.2).mpr
  intro _ api _ hw
  rw [hra] at hw
  revert hw
  cases api <;> decide

end Memleax
