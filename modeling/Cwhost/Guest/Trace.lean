import Cwhost.Guest.Call

/-!
# Tracing and the return of an import

With tracing off, a handler bound with `inline=True` runs inside `_trap_hook` and the `blr` of the
slot returns from it. With tracing on, the same trap stops the emulation and `run` calls the handler
and goes on at LR.

* `importReturn`: both ways, from the trap to the next guest instruction, out of the parts of
  `emuLoop` and `runLoop` (`emuLoop_of_inline`, `runLoop_of_stop`).
* `tracing_transparent_iff`: **they meet exactly when LR holds the return address of `run`**, that
  is when no guest instruction follows. Otherwise `run` puts the return address in LR, and the `blr`
  leaves LR as it is.
-/

namespace Cwhost.Machine

open Lib

variable {M : ByteMemory} {H : Type} (em : Emulator M H) (callee : CallFn M H)

/-! ## From the trap to the next instruction -/

/-- The registers and the memory at the next guest instruction, unless the emulation ends there. -/
def nextInstruction (stop : BitVec 32) : Run M H (Option (Regs × Guest M)) := do
  let s ← get
  if s.world.regs.pc = stop then return none
  return some (s.world.regs, s.world.guest)

/-- From the code hook at `address` to the next guest instruction, nothing when `run` returns
without one. -/
def importReturn (inner : Option Int) (stop : BitVec 32) (deadline : Option Nat)
    (address : BitVec 32) : Run M H (Option (Regs × Guest M)) := do
  if ← trapHook em callee inner address then
    match ← serveTrap em callee inner (some stop) address with
    | none => return none
    | some current =>
      let _ ← startAt em deadline current
      nextInstruction stop
  else
    blr
    nextInstruction stop

variable {em callee}

/-- Where the guest goes on, from PC. -/
theorem nextInstruction_spec (stop : BitVec 32) {E : Stop → Machine M H → Prop}
    (s : Machine M H) :
    wp (nextInstruction stop) (fun next _ => if s.world.regs.pc = stop then next = none else
      next = some (s.world.regs, s.world.guest)) E s := by
  unfold nextInstruction
  rw [wp_bind, wp_get]
  by_cases hpc : s.world.regs.pc = stop
  · rw [if_pos hpc, wp_pure, if_pos hpc]
  · rw [if_neg hpc, wp_pure, if_neg hpc]

/-- With an inline handler, the emulation goes on where `importReturn` ends. -/
theorem emuLoop_of_inline {inner : Option Int} {stop address : BitVec 32}
    {timeout : Option Nat} {steps : Nat} {s s₁ s₂ s₃ : Machine M H}
    (hpc : s.world.regs.pc ≠ stop) (hseg : segment em timeout s = .ok (.trap address) s₁)
    (hhook : trapHook em callee inner address s₁ = .ok false s₂) (hblr : blr s₂ = .ok () s₃) :
    emuLoop em callee inner stop timeout (steps + 1) s =
      emuLoop em callee inner stop timeout steps s₃ := by
  rw [emuLoop, bind_of_ok (get_eq s), if_neg hpc, bind_of_ok hseg]
  dsimp only
  rw [bind_of_ok hhook, if_neg Bool.false_ne_true, bind_of_ok hblr]

/-- Without one, `run` starts it again from where `importReturn` does. -/
theorem runLoop_of_stop {inner : Option Int} {stop : Option (BitVec 32)}
    {address current next : BitVec 32} {deadline timeout : Option Nat} {steps : Nat}
    {s s₁ s₂ s₃ : Machine M H} (hstart : startAt em deadline current s = .ok timeout s₁)
    (hemu : emuLoop em callee inner (stop.getD 0) timeout (steps + 1) s₁ = .ok () s₂)
    (hpending : s₂.world.pending = some address)
    (hserve : serveTrap em callee inner stop address s₂ = .ok (some next) s₃) :
    runLoop em callee inner stop deadline (steps + 1) current s =
      runLoop em callee inner stop deadline steps next s₃ := by
  rw [runLoop, bind_of_ok hstart, bind_of_ok hemu, bind_of_ok (get_eq s₂), hpending]
  dsimp only
  rw [bind_of_ok hserve]

/-! ## The two ways -/

/-- Tracing turned on, whatever has been traced so far. -/
def traced (trace : List TraceRecord) (seq : Nat) (current : Option TraceRecord)
    (file : Option (List TraceRecord)) (s : Machine M H) : Machine M H :=
  { s with world := { s.world with
      trace := some trace, traceSeq := seq, traceCurrent := current, traceFile := file } }

/-- A trap bound by `on_trap(…, inline=True)`. -/
def InlineTrap (s : Machine M H) (address : BitVec 32) (handler : Nat) : Prop :=
  ∃ name, s.world.traps.get? address = some name ∧ name ∈ s.world.inlineHandlers ∧
    s.world.handlers.get? name = some handler

/-- The handler changes neither LR nor PC. -/
def KeepsLink (em : Emulator M H) (callee : CallFn M H) (handler : Nat) : Prop :=
  ∀ s : Machine M H, wp ((em.body handler).exec callee)
    (fun _ s' => s'.world.regs.lr = s.world.regs.lr ∧ s'.world.regs.pc = s.world.regs.pc)
    (fun _ _ => True) s

theorem exposeCaller_lr (s : Machine M H) :
    wp exposeCaller (fun _ s' => s'.world.regs.lr = s.world.regs.lr) (fun _ _ => True) s := by
  unfold exposeCaller
  rw [wp_bind, wp_get]
  cases s.callTvectors.getLast? with
  | none => rfl
  | some tvector => rfl

theorem runHandler_lr {handler : Nat} (hlink : KeepsLink em callee handler) (inner : Option Int)
    (s : Machine M H) :
    wp (runHandler em callee inner handler)
      (fun _ s' => s'.world.regs.lr = s.world.regs.lr) (fun _ _ => True) s := by
  unfold runHandler
  rw [wp_bind]
  refine wp_mono (exposeCaller_lr s) (fun _ s₁ h₁ => ?_) fun _ _ _ => trivial
  unfold noteStart
  rw [wp_bind, wp_modify]
  exact wp_mono (hlink _) (fun _ _ h₂ => h₂.1.trans h₁) fun _ _ _ => trivial

/-- Untraced, the guest goes on with LR as it was. -/
theorem importReturn_untraced {handler : Nat} {inner : Option Int} {stop address : BitVec 32}
    {deadline : Option Nat} {s : Machine M H} (hoff : s.world.trace = none)
    (htrap : InlineTrap s address handler) (hlink : KeepsLink em callee handler) :
    wp (importReturn em callee inner stop deadline address)
      (fun off _ => if s.world.regs.lr = stop then off = none else
        ∃ regs guest, off = some (regs, guest) ∧ regs.lr = s.world.regs.lr)
      (fun _ _ => True) s := by
  obtain ⟨name, hname, hmem, hhandler⟩ := htrap
  have hfilter : (s.world.traps.get? address).filter
      (fun name => decide (name ∈ s.world.inlineHandlers)) = some name := by
    rw [hname]
    simp [hmem]
  unfold importReturn
  rw [wp_bind]
  have hhook : wp (trapHook em callee inner address)
      (fun stopped s' => stopped = false ∧ s'.world.regs.lr = s.world.regs.lr)
      (fun _ _ => True) s := by
    unfold trapHook
    rw [wp_bind, wp_get]
    dsimp only
    rw [hoff, hfilter]
    dsimp only
    rw [hhandler]
    dsimp only
    rw [wp_bind]
    exact wp_mono (runHandler_lr hlink inner s) (fun _ _ h => ⟨rfl, h⟩) fun _ _ _ => trivial
  refine wp_mono hhook ?_ fun _ _ _ => trivial
  rintro _ s₁ ⟨rfl, hlr⟩
  rw [if_neg Bool.false_ne_true, wp_bind]
  show wp (nextInstruction stop) _ _ { s₁ with world := { s₁.world with regs := _ } }
  refine wp_mono (nextInstruction_spec stop _) (fun next _ hnext => ?_) fun _ _ h => h
  rw [← hlr]
  by_cases hstop : s₁.world.regs.lr = stop
  · rw [if_pos hstop] at hnext ⊢
    exact hnext
  · rw [if_neg hstop] at hnext ⊢
    exact ⟨_, _, hnext, rfl⟩

/-- Work on the world that leaves the registers alone. -/
theorem modifyWorld_regs {f : World M H → World M H} (hf : ∀ w, (f w).regs = w.regs)
    (s : Machine M H) :
    wp (modifyWorld f) (fun _ s' => s'.world.regs = s.world.regs) (fun _ _ => True) s :=
  hf s.world

theorem traceEntry_regs (name : Str) (address oldLr : BitVec 32) (s : Machine M H) :
    wp (traceEntry name address oldLr) (fun _ s' => s'.world.regs = s.world.regs)
      (fun _ _ => True) s := by
  unfold traceEntry
  rw [wp_bind, wp_get, wp_ite]
  refine ⟨fun _ => modifyWorld_regs (fun w => ?_) s, fun _ => rfl⟩
  cases w.trace <;> rfl

theorem traceResult_regs (s : Machine M H) :
    wp traceResult (fun _ s' => s'.world.regs = s.world.regs) (fun _ _ => True) s := by
  unfold traceResult
  rw [wp_bind, wp_get, wp_ite]
  refine ⟨fun _ => modifyWorld_regs (fun w => ?_) s, fun _ => rfl⟩
  cases w.traceCurrent <;> rfl

theorem readClock_regs (em : Emulator M H) (s : Machine M H) :
    wp (readClock em) (fun _ s' => s'.world.regs = s.world.regs) (fun _ _ => True) s := rfl

theorem checkDeadline_regs (deadline : Option Nat) (s : Machine M H) :
    wp (checkDeadline em deadline) (fun _ s' => s'.world.regs = s.world.regs)
      (fun _ _ => True) s := by
  cases deadline with
  | none => rfl
  | some deadline =>
    unfold checkDeadline
    rw [wp_bind]
    refine wp_mono (readClock_regs em s) (fun now s' hs' => ?_) fun _ _ h => h
    rw [wp_ite]
    exact ⟨fun _ => trivial, fun _ => hs'⟩

theorem remaining_regs (deadline : Option Nat) (s : Machine M H) :
    wp (remaining em deadline) (fun _ s' => s'.world.regs = s.world.regs)
      (fun _ _ => True) s := by
  cases deadline with
  | none => rfl
  | some deadline => exact readClock_regs em s

/-- `run` with a pending inline trap puts its return address in LR. -/
theorem serveTrap_lr {handler : Nat} {inner : Option Int} {stop address : BitVec 32}
    {s : Machine M H} (htrap : InlineTrap s address handler)
    (hlink : KeepsLink em callee handler) :
    wp (serveTrap em callee inner (some stop) address)
      (fun resumed s' => ∀ current, resumed = some current →
        current = s.world.regs.lr ∧ current ≠ stop ∧ s'.world.regs.lr = stop)
      (fun _ _ => True) s := by
  obtain ⟨name, hname, -, hhandler⟩ := htrap
  unfold serveTrap
  rw [wp_ite]
  refine ⟨fun _ => by simp, fun _ => ?_⟩
  rw [wp_bind, wp_get, hname]
  dsimp only
  rw [hhandler]
  dsimp only
  rw [wp_bind]
  refine wp_mono (traceEntry_regs name address _ s) (fun _ s₁ h₁ => ?_) fun _ _ h => h
  rw [wp_bind]
  refine wp_mono (runHandler_lr hlink inner s₁) (fun _ s₂ h₂ => ?_) fun _ _ h => h
  rw [wp_bind]
  refine wp_mono (traceResult_regs s₂) (fun _ s₃ h₃ => ?_) fun _ _ h => h
  have hlr : s₃.world.regs.lr = s.world.regs.lr := by rw [h₃, h₂, h₁]
  unfold resumeAt
  rw [wp_bind, wp_get]
  dsimp only
  rw [if_pos hlr, wp_bind]
  show wp (if s₃.world.regs.lr = stop then _ else _) _ _ { s₃ with world := _ }
  rw [wp_ite]
  refine ⟨fun _ => by simp, fun hne => ?_⟩
  rintro _ ⟨⟩
  exact ⟨hlr, hne, rfl⟩

theorem startAt_regs (deadline : Option Nat) (current : BitVec 32) (s : Machine M H) :
    wp (startAt em deadline current)
      (fun _ s' => s'.world.regs = { s.world.regs with pc := current }) (fun _ _ => True) s := by
  unfold startAt
  rw [wp_bind]
  refine wp_mono (checkDeadline_regs deadline s) (fun _ s₁ h₁ => ?_) fun _ _ h => h
  rw [wp_bind]
  show wp (remaining em deadline >>= _) _ _ { s₁ with world := { s₁.world with pending := none } }
  rw [wp_bind]
  refine wp_mono (remaining_regs deadline _) (fun timeout s₂ h₂ => ?_) fun _ _ h => h
  show { s₂.world.regs with pc := current } = _
  rw [h₂, h₁]

/-- Traced, it goes on with the return address of `run` in LR. -/
theorem importReturn_traced {handler : Nat} {inner : Option Int} {stop address : BitVec 32}
    {deadline : Option Nat} {s : Machine M H} (hon : s.world.trace.isSome)
    (htrap : InlineTrap s address handler) (hlink : KeepsLink em callee handler) :
    wp (importReturn em callee inner stop deadline address)
      (fun on _ => ∀ regs guest, on = some (regs, guest) →
        s.world.regs.lr ≠ stop ∧ regs.lr = stop)
      (fun _ _ => True) s := by
  obtain ⟨trace, htrace⟩ := Option.isSome_iff_exists.mp hon
  have hhook : trapHook em callee inner address s =
      .ok true { s with world := { s.world with pending := some address } } := by
    unfold trapHook
    rw [bind_of_ok (get_eq s), htrace]
    rfl
  unfold importReturn
  rw [wp_bind, wp_iff_of_ok hhook, if_pos rfl, wp_bind]
  refine wp_mono (serveTrap_lr (s := { s with world := _ }) htrap hlink) ?_ fun _ _ h => h
  intro resumed s₁ hresumed
  cases resumed with
  | none => simp
  | some current =>
    obtain ⟨hcurrent, hne, hlr⟩ := hresumed current rfl
    dsimp only
    rw [wp_bind]
    refine wp_mono (startAt_regs deadline current s₁) (fun _ s₂ h₂ => ?_) fun _ _ h => h
    refine wp_mono (nextInstruction_spec stop s₂) (fun next _ hnext => ?_) fun _ _ h => h
    have hpc : s₂.world.regs.pc ≠ stop := by
      rw [h₂]
      exact hne
    rw [if_neg hpc] at hnext
    intro regs guest hsome
    rw [hnext] at hsome
    cases hsome
    rw [h₂]
    exact ⟨hcurrent ▸ hne, hlr⟩

/-- **Tracing is transparent exactly when** LR is the return address already. -/
theorem tracing_transparent_iff {inner : Option Int} {stop address : BitVec 32}
    {deadline : Option Nat} {handler : Nat} {s s₁ s₂ : Machine M H} {trace : List TraceRecord}
    {seq : Nat} {current : Option TraceRecord} {file : Option (List TraceRecord)}
    {off on : Option (Regs × Guest M)} (hoff : s.world.trace = none)
    (htrap : InlineTrap s address handler) (hlink : KeepsLink em callee handler)
    (huntraced : importReturn em callee inner stop deadline address s = .ok off s₁)
    (htraced : importReturn em callee inner stop deadline address
      (s.traced trace seq current file) = .ok on s₂) :
    off = on ↔ s.world.regs.lr = stop := by
  have hon : (s.traced trace seq current file).world.trace.isSome := rfl
  have huntraced := wp_of_ok (importReturn_untraced hoff htrap hlink) huntraced
  have htraced := wp_of_ok (importReturn_traced hon htrap hlink) htraced
  by_cases hlr : s.world.regs.lr = stop
  · rw [if_pos hlr] at huntraced
    have hon : on = none := by
      rw [Option.eq_none_iff_forall_not_mem]
      rintro ⟨regs, guest⟩ hmem
      exact (htraced regs guest hmem).1 hlr
    rw [huntraced, hon]
    exact iff_of_true rfl hlr
  · rw [if_neg hlr] at huntraced
    obtain ⟨regs, guest, rfl, hregs⟩ := huntraced
    refine iff_of_false (fun heq => hlr ?_) hlr
    rw [← hregs, (htraced regs guest heq.symm).2]

/-! ## An import behind `bctrl` -/

/-- A handler that returns at once. -/
def smallEmulator : Emulator ByteMemory.flat Unit where
  exec _ _ regs guest := (regs, guest, .stopped)
  monotonic now := now
  body _ := .ret

/-- The name of the return slot. -/
def returnName : Str := ['_', '_', 'r', 'e', 't', 'u', 'r', 'n', '_', '_']

/-- The machine at a trap bound inline, with LR at `link`. -/
def smallMachine (link : BitVec 32) : Machine ByteMemory.flat Unit where
  world := {
    regs := ⟨fun _ => 0, fun _ => 0, 0x28000004, link, 0, 0, 0, 0, 0⟩
    guest := ⟨ByteMemory.blank⟩
    trapNext := 2
    traps := (Dict.empty.set 0x28000000 returnName).set 0x28000004 ['f']
    trapAddresses := (Dict.empty.set returnName 0x28000000).set ['f'] 0x28000004
    handlers := Dict.empty.set ['f'] 0
    inlineHandlers := [['f']]
    pending := none
    returnSlot := some 0x28000000
    trace := none
    traceSeq := 0
    traceCurrent := none
    traceFile := none
    now := 0
    host := () }
  callTvectors := [0x1000]
  starts := []

theorem smallMachine_inlineTrap (link : BitVec 32) :
    InlineTrap (smallMachine link) 0x28000004 0 := ⟨['f'], rfl, List.mem_singleton.mpr rfl, rfl⟩

theorem smallEmulator_keepsLink (callee : CallFn ByteMemory.flat Unit) :
    KeepsLink smallEmulator callee 0 := fun _ => ⟨rfl, rfl⟩

/-- At the return address, neither goes on. -/
theorem tracing_transparent_iff_atReturn : ∃ off on s₁ s₂,
    importReturn smallEmulator (call smallEmulator 1) (some 0x1000) 0x28000000 none 0x28000004
      (smallMachine 0x28000000) = .ok off s₁ ∧
    importReturn smallEmulator (call smallEmulator 1) (some 0x1000) 0x28000000 none 0x28000004
      ((smallMachine 0x28000000).traced [] 0 none (some [])) = .ok on s₂ ∧ off = on := by
  obtain ⟨off, s₁, hoff⟩ : ∃ off s₁, importReturn smallEmulator (call smallEmulator 1)
      (some 0x1000) 0x28000000 none 0x28000004 (smallMachine 0x28000000) = .ok off s₁ :=
    ⟨_, _, rfl⟩
  obtain ⟨on, s₂, hon⟩ : ∃ on s₂, importReturn smallEmulator (call smallEmulator 1)
      (some 0x1000) 0x28000000 none 0x28000004
      ((smallMachine 0x28000000).traced [] 0 none (some [])) = .ok on s₂ := ⟨_, _, rfl⟩
  exact ⟨off, on, s₁, s₂, hoff, hon, (tracing_transparent_iff rfl
    (smallMachine_inlineTrap 0x28000000) (smallEmulator_keepsLink _) hoff hon).mpr rfl⟩

/-- **Tracing is visible**: where LR is behind the call, the guest goes on with another LR. -/
theorem tracing_observed : ¬ ∀ (handler : Nat) (s s₁ s₂ : Machine ByteMemory.flat Unit)
    (stop address : BitVec 32) (off on : Option (Regs × Guest ByteMemory.flat)),
    s.world.trace = none → InlineTrap s address handler →
    KeepsLink smallEmulator (call smallEmulator 1) handler →
    importReturn smallEmulator (call smallEmulator 1) (some 0x1000) stop none address s =
      .ok off s₁ →
    importReturn smallEmulator (call smallEmulator 1) (some 0x1000) stop none address
      (s.traced [] 0 none (some [])) = .ok on s₂ → off = on := by
  intro hall
  have heq := hall 0 (smallMachine 0x2000) _ _ 0x28000000 0x28000004 _ _ rfl
    (smallMachine_inlineTrap 0x2000) (smallEmulator_keepsLink _) rfl rfl
  have hlr := congrArg (Option.map fun next => next.1.lr) heq
  exact absurd hlr (by decide)

end Cwhost.Machine
