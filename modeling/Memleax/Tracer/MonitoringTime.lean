import Memleax.Tracer.FinalReport

/-!
# The end of `main`

When the loop has been left, `main` compares the time for which it has monitored with `-e`.
If that is shorter, it says so, the report is left out and the status is 2.

`short_run_hides_nothing` says that nothing is lost by this, whatever the threads of the
target do: as long as the clock does not run backwards, no block can have got old by then, so
no line about a leak has been printed and the report would be empty.
-/

namespace Memleax

open Framework

/-- What `main` prints after the loop. -/
inductive EndLine where
  /-- "Your monitoring time is too short." -/
  | tooShort (memoryExpire : Int)
  | report (line : ReportLine)
deriving DecidableEq, Repr

/-- The end of `main`, with its status. The clock is read for the test (`now`) and once more
by the report (`later`). -/
def mainEnd (qsort : (CallstackId → CallstackId → CInt) → List CallstackId → List CallstackId)
    (grants : Word → Bool) (lim : Limits) (begun now later : Int) (s : Store) :
    Option (Nat × List EndLine) :=
  if now - begun < lim.expire then some (2, [.tooShort lim.expire])
  else (callstackReport qsort grants s later).map fun lines => (0, lines.map .report)

/-! ## Stores in which nothing has expired -/

/-- The line is about a block that has got old, or about the number of them. -/
def Message.leaky : Message → Bool
  | .allocReturnsNull _ => false
  | _ => true

/-- Every block has been created at `begun` or later, and none has expired. -/
structure Store.Young (begun : Int) (s : Store) : Prop where
  born : ∀ b ∈ s.stored, begun ≤ (s.block b).create
  unexpired : ∀ b ∈ s.recorded, (s.block b).expired = false
  noneOld : s.expire = []
  silent : ∀ m ∈ s.out, m.leaky = false

/-- Blocks are created at `begun` or later, and each sweep comes before they can be old. -/
def Op.Soon (begun : Int) : Op → Prop
  | .call _ _ _ _ env => begun ≤ env.now
  | .sweep now lim => now - begun < lim.expire

section Young

variable {begun : Int} {s : Store}

theorem Store.Young.init (begun : Int) : Young begun {} where
  born := fun _ hb => absurd hb List.not_mem_nil
  unexpired := fun _ hb => absurd hb List.not_mem_nil
  noneOld := rfl
  silent := fun _ hm => absurd hm List.not_mem_nil

/-- The callstacks do not matter. -/
theorem Store.Young.table (h : s.Young begun) (table : CallstackTable) :
    Young begun { s with table := table } :=
  ⟨h.born, h.unexpired, h.noneOld, h.silent⟩

theorem Store.Young.link (hp : Placed s) (h : s.Young begun) {mb : Memblock}
    (hcreate : begun ≤ mb.create) (hnew : mb.expired = false) : (s.link mb).Young begun where
  born := by
    intro b hb
    rcases mem_stored_link.mp hb with rfl | hb
    · rwa [link_block_fresh]
    · rw [link_block_of_mem hp hb]
      exact h.born b hb
  unexpired := by
    intro b hb
    by_cases hfresh : b = s.fresh
    · rw [hfresh, link_block_fresh, hnew]
    · have hlt : b < s.fresh + 1 := List.mem_range.mp hb
      have hold : b ∈ s.recorded :=
        mem_recorded.mpr (Nat.lt_of_le_of_ne (Nat.le_of_lt_succ hlt) hfresh)
      show (Function.update s.block s.fresh mb b).expired = false
      rw [Function.update_of_ne hfresh]
      exact h.unexpired b hold
  noneOld := h.noneOld
  silent := h.silent

theorem Store.Young.delete (hp : Placed s) (h : s.Young begun) {b : BlockId} (hb : b ∈ s.stored)
    (now : Int) : (s.delete now b).Young begun where
  born := fun x hx => h.born x ((mem_stored_delete hp).mp hx).2
  unexpired := h.unexpired
  noneOld := by rw [Store.delete_expire, h.noneOld, List.erase_nil]
  silent := by
    have hyoung := h.unexpired b (hp.mem_recorded hb)
    have hout : (s.delete now b).out = s.out := by
      simp [Store.delete, Store.unlink, hyoung]
    rw [hout]
    exact h.silent

theorem Store.Young.resize (h : s.Young begun) (b : BlockId) (size : Word) :
    (s.resize b size).Young begun where
  born := by
    intro x hx
    rw [(resize_block x).2.1]
    exact h.born x hx
  unexpired := by
    intro x hx
    rw [(resize_block x).2.2.1]
    exact h.unexpired x hx
  noneOld := h.noneOld
  silent := h.silent

theorem Store.Young.memblockNew (hs : Consistent s) (h : s.Young begun) {env : Env}
    (hnow : begun ≤ env.now) (pointer size : Word) :
    (memblockNew s env pointer size).2.Young begun := by
  unfold Memleax.memblockNew
  split
  · have hsilent : ∀ c, ∀ m ∈ s.out ++ [.allocReturnsNull c], m.leaky = false := by
      intro c m hm
      rcases List.mem_append.mp hm with hm | hm
      · exact h.silent m hm
      · rw [List.mem_singleton.mp hm]
        rfl
    exact ⟨h.born, h.unexpired, h.noneOld, hsilent _⟩
  · split
    · exact h
    · split
      · exact h.table _
      · rename_i cs table hcs
        have hs' := consistent_lookup hs env
        rw [hcs] at hs'
        exact (h.table table).link hs'.toPlaced hnow rfl

theorem Store.Young.memblockDelete (hp : Placed s) (h : s.Young begun) (now : Int)
    (pointer : Word) : (memblockDelete s now (memblockSearch s pointer)).Young begun := by
  cases hb : memblockSearch s pointer with
  | none => exact h
  | some b => exact h.delete hp (hp.mem_stored_of_search hb) now

/-- The head of the active list is too young, so the sweep stops there. -/
theorem Store.Young.memblockExpire (h : s.Young begun) {now : Int} {lim : Limits}
    (hnow : now - begun < lim.expire) : (memblockExpire s now lim).2 = s := by
  unfold Memleax.memblockExpire
  cases hact : s.active with
  | nil => rfl
  | cons b rest =>
      have hborn := h.born b (List.mem_append_left _ (by simp [hact]))
      rw [memblockExpireLoop]
      dsimp only
      rw [if_pos (by omega)]

/-- **One operation.** -/
theorem Store.Young.step (hs : Consistent s) (h : s.Young begun) {op : Op} (hop : op.Soon begun) :
    (s.step op).Young begun := by
  cases op with
  | sweep now lim =>
      show (Memleax.memblockExpire s now lim).2.Young begun
      rw [h.memblockExpire hop]
      exact h
  | call api ret arg1 arg2 env =>
      cases api with
      | malloc => exact h.memblockNew hs hop ret arg1
      | calloc => exact h.memblockNew hs hop ret (arg1 * arg2)
      | free => exact h.memblockDelete hs.toPlaced env.freeNow arg1
      | realloc =>
          show (bphRealloc s env ret arg1 arg2).2.Young begun
          unfold bphRealloc
          split
          · cases memblockSearch s arg1 with
            | none => exact h
            | some b => exact h.resize b arg2
          · have hs' := consistent_step hs (.call .free 0 arg1 0 env)
            exact (h.memblockDelete hs.toPlaced env.freeNow arg1).memblockNew hs' hop ret arg2

theorem young_run {ops : List Op} (hops : ∀ op ∈ ops, op.Soon begun) :
    (Store.run ops).Young begun := by
  induction ops using List.reverseRecOn with
  | nil => exact .init begun
  | append_singleton ops op ih =>
      rw [List.forall_mem_append, List.forall_mem_singleton] at hops
      rw [Store.run_append_single]
      exact (ih hops.1).step (consistent_run ops) hops.2

theorem Store.Young.everExpired (h : s.Young begun) (c : CallstackId) : s.everExpired c = 0 := by
  rw [Store.everExpired, List.countP_eq_zero]
  intro b hb
  rw [h.unexpired b (List.mem_of_mem_filter hb)]
  exact Bool.false_ne_true

/-- There is nothing to report. -/
theorem report_of_young {qsort : (CallstackId → CallstackId → CInt) → List CallstackId →
      List CallstackId} (hqsort : Sorts qsort) {grants : Word → Bool} (hgrants : Granting grants)
    {ops : List Op} (h : (Store.run ops).Young begun) (later : Int) :
    callstackReport qsort grants (Store.run ops) later = some [.noExpired] := by
  have hs := consistent_run ops
  have hleaks : ∀ c, (Store.run ops).leaks c = 0 := fun c =>
    Nat.le_zero.mp (h.everExpired c ▸ leaks_le_everExpired hs.toPlaced c)
  have hcmp := cmpExact hs (totalled_run ops) fun c => by rw [h.everExpired]; decide
  have hroom : (Store.run ops).leakingCallstacks.length ≤ arrayCapacity := by
    have hnil : (Store.run ops).leakingCallstacks = [] := by
      simp [Store.leakingCallstacks, hleaks]
    rw [hnil]
    exact Nat.zero_le _
  rcases callstackReport_eq hqsort hgrants hs.toPlaced hcmp (hashed_run ops) hroom later with
    ⟨l, -, hmem, -, hreport⟩
  have hnil : l = [] := List.eq_nil_iff_forall_not_mem.mpr fun c hc => (hmem c).mp hc (hleaks c)
  rw [hreport, if_pos hnil]

end Young

/-! ## The runs of the system -/

/-- What the clock shows in an iteration lies between `begun` and `now`. -/
structure Outside.Between (begun now : Int) (out : Outside) : Prop where
  created : begun ≤ out.env.now
  swept : out.sweepNow ≤ now

/-- The operations of a ledger that is kept for less than `-e` seconds. -/
theorem Ledger.soon {bps : Breakpoints} {lim : Limits} {begun now : Int} {l : Ledger}
    (hshort : now - begun < lim.expire)
    (hl : Reachable (Ledger.step lim) (fun _ => Answered bps (Outside.Between begun now)) {} l) :
    ∀ op ∈ l.history, op.Soon begun := by
  refine Reachable.invariant (fun l => ∀ op ∈ l.history, op.Soon begun) hl ?_ ?_
  · exact fun _ hop => absurd hop List.not_mem_nil
  · intro l round l' h hanswered hstep
    have hsweep : ∀ (l : Ledger) t, (∀ op ∈ l.history, op.Soon begun) → t ≤ now →
        ∀ op ∈ (l.sweep lim t).history, op.Soon begun := by
      intro l t h ht op hop
      rcases List.mem_append.mp hop with hop | hop
      · exact h op hop
      · rw [List.mem_singleton.mp hop]
        show t - begun < lim.expire
        omega
    unfold Ledger.step at hstep
    split at hstep
    · cases round with
      | sweep t =>
          obtain rfl := Option.some.inj hstep
          rcases hanswered with ⟨out, hout, rfl⟩
          exact hsweep l out.sweepNow h hout.swept
      | call inv env t =>
          rcases hanswered with ⟨out, hout, rfl, rfl⟩
          obtain rfl := Option.some.inj hstep
          have hcall : ∀ op ∈ (l.call inv { out.env with
              ips := (bps inv.api).entryAddress :: out.env.ips }).history, op.Soon begun := by
            intro op hop
            rcases List.mem_append.mp hop with hop | hop
            · exact h op hop
            · rw [List.mem_singleton.mp hop]
              exact hout.created
          split
          · exact hsweep _ _ hcall hout.swept
          · exact hcall
    · cases hstep

/-- **A monitoring time that is too short hides nothing.** In any run of the system, with
whatever threads and in whatever order, that takes less than `-e` seconds, `main` ends with 2
and its notice. By then nothing has been printed about a leak, no block has been found old,
and the report that is left out would have been empty. The clock does not run backwards. -/
theorem short_run_hides_nothing
    {qsort : (CallstackId → CallstackId → CInt) → List CallstackId → List CallstackId}
    (hqsort : Sorts qsort) {grants : Word → Bool} (hgrants : Granting grants)
    {symtabByName : Api → Word} {text : Bytes 64} {targetPid : Pid} {lim : Limits}
    {others : Pid → Bool} {s₀ s : System} {begun now : Int}
    (hbegin : System.begin symtabByName text targetPid lim others = some s₀)
    (hs : Reachable System.step (System.Told (Outside.Between begun now)) s₀ s) (later : Int)
    {lines : List EndLine}
    (hend : mainEnd qsort grants lim begun now later s.monitor.store = some (2, lines)) :
    lines = [.tooShort lim.expire] ∧ (∀ m ∈ s.monitor.store.out, m.leaky = false) ∧
      s.monitor.store.expire = [] ∧
      callstackReport qsort grants s.monitor.store later = some [.noExpired] := by
  have hshort : now - begun < lim.expire := by
    by_contra hlong
    rw [mainEnd, if_neg hlong] at hend
    obtain ⟨_, -, hzero⟩ := Option.map_eq_some_iff.mp hend
    cases congrArg Prod.fst hzero
  rw [mainEnd, if_pos hshort] at hend
  obtain ⟨l, hl, hkept⟩ := Reachable.simulate (fun _ _ _ _ h hok hstep => h.step hok hstep) hs
    (System.kept_begin hbegin)
  have hyoung := young_run (Ledger.soon hshort hl)
  rw [hkept.store, (Ledger.historic hl).1.store]
  exact ⟨(congrArg Prod.snd (Option.some.inj hend)).symm, hyoung.silent, hyoung.noneOld,
    report_of_young hqsort hgrants hyoung later⟩

instance (begun now : Int) (out : Outside) : Decidable (out.Between begun now) :=
  decidable_of_iff (begun ≤ out.env.now ∧ out.sweepNow ≤ now)
    ⟨fun h => ⟨h.1, h.2⟩, fun h => ⟨h.created, h.swept⟩⟩

instance (begun now : Int) (s : System) :
    (label : Label) → Decidable (s.Told (Outside.Between begun now) label)
  | .wait _ out => inferInstanceAs (Decidable (out.Between begun now))
  | .fetch _ _ | .signal _ _ _ | .clone _ _ _ | .exit _ | .interrupt _ | .waitFails _ | .issue =>
      inferInstanceAs (Decidable True)

/-- `calloc` has returned a block, and the target is left after four seconds. -/
theorem short_run_hides_nothing_callocReturns :
    ∃ s₀ s : System, sampleBegin 1 = some s₀ ∧ s.log = [⟨1, .malloc, 0x5000, 16, 0⟩] ∧
      mainEnd sortedBy ptrdiffGrants defaultLimits 0 4 4 s.monitor.store =
        some (2, [.tooShort 10]) ∧
      callstackReport sortedBy ptrdiffGrants s.monitor.store 4 = some [.noExpired] := by
  have hrun : ((sampleBegin 1).bind fun s₀ =>
      (feed Traced.step
        (fun s m => s.NestMove m ∧ s.sys.Told (Outside.Between 0 4) (m.label s.sys)) (.start s₀)
        callocReturns).map fun s => s.sys.log) =
      some [⟨1, .malloc, 0x5000, 16, 0⟩] := by decide +kernel
  obtain ⟨s₀, s, hbegin, hreach, hlog⟩ := Reachable.exists_of_run hrun
  have hs : Reachable System.step (System.Told (Outside.Between 0 4)) s₀ s.sys :=
    hreach.project Traced.sys fun s m _ hok hstep =>
      ⟨m.label s.sys, hok.2, (Traced.step_eq_some hstep).2.1⟩
  have hend : mainEnd sortedBy ptrdiffGrants defaultLimits 0 4 4 s.sys.monitor.store =
      some (2, [.tooShort 10]) := rfl
  obtain ⟨-, -, -, hreport⟩ := short_run_hides_nothing sorts_sortedBy granting_ptrdiffGrants
    hbegin hs 4 hend
  exact ⟨s₀, s.sys, hbegin, hlog, hend, hreport⟩

end Memleax
