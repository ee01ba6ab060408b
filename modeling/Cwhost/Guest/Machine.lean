import Cwhost.Guest
import Cwhost.Lib.Dict

/-!
# The emulated machine (`guest.py`: traps, `run`, `call`)

`Guest.memory` is the memory side; here are the registers and the control flow. Unicorn is not part
of the repository: its registers are a plain register file (`Regs`), and the guest code is any
function (`Emulator.exec`) from the state of the processor to the state at the next event, a trap
or the end of the emulation. Handlers are Python functions of the host: a `HostProg` may do anything
to the machine except touch the list of active calls, and may call back into the guest, to any
depth, and go on after a call that raised.

* `Regs.restore_save`: `restore_regs` undoes everything since `save_regs`.
* `HostProg.exec`, `emuLoop`, `trapHook`, `serveTrap`, `runLoop`, `callWith`: the control flow.
  Loops and nesting are bounded by a number of steps (`Stop.outOfSteps` beyond it).

Source: `guest.py`, `save_regs`, `restore_regs`, `alloc_trap_slot`, `on_trap`, `_trap_hook`, `run`,
`call`.

Out of scope: the instructions of the processor (`Emulator.exec` is any function), and the trace
files.
-/

namespace Cwhost

open Lib

/-! ## Registers -/

/-- The register file. -/
@[ext] structure Regs where
  gpr : Fin 32 → BitVec 32
  fpr : Fin 32 → BitVec 64
  pc : BitVec 32
  lr : BitVec 32
  ctr : BitVec 32
  cr : BitVec 32
  xer : BitVec 32
  msr : BitVec 32
  fpscr : BitVec 32

/-- The dictionary `save_regs` makes. -/
structure SavedRegs where
  gpr : List (BitVec 32)
  fpr : List (BitVec 64)
  pc : BitVec 32
  lr : BitVec 32
  ctr : BitVec 32
  cr : BitVec 32
  xer : BitVec 32
  msr : BitVec 32
  fpscr : BitVec 32

namespace Regs

/-- `set_gpr`, for a register that exists. -/
def setGpr (n : Nat) (value : BitVec 32) (r : Regs) : Regs :=
  { r with gpr := fun i => if i.val = n then value else r.gpr i }

/-- `reg_write` of a floating-point register. -/
def setFpr (n : Nat) (value : BitVec 64) (r : Regs) : Regs :=
  { r with fpr := fun i => if i.val = n then value else r.fpr i }

/-- `save_regs`, for bindings that have FPSCR. -/
def save (r : Regs) : SavedRegs where
  gpr := List.ofFn r.gpr
  fpr := List.ofFn r.fpr
  pc := r.pc
  lr := r.lr
  ctr := r.ctr
  cr := r.cr
  xer := r.xer
  msr := r.msr
  fpscr := r.fpscr

/-- `restore_regs`. -/
def restore (state : SavedRegs) (r : Regs) : Regs :=
  let r := state.gpr.zipIdx.foldl (fun r e => r.setGpr e.2 e.1) r
  let r := state.fpr.zipIdx.foldl (fun r e => r.setFpr e.2 e.1) r
  { r with
    pc := state.pc
    lr := state.lr
    ctr := state.ctr
    cr := state.cr
    xer := state.xer
    msr := state.msr
    fpscr := state.fpscr }

/-- Writing the values of a list to consecutive places. -/
theorem foldl_write {n : Nat} {α : Type} (l : List α) (k : Nat) (f : Fin n → α) :
    (l.zipIdx k).foldl (fun f e => fun i => if i.val = e.2 then e.1 else f i) f =
      fun i => if k ≤ i.val then (l[i.val - k]?).getD (f i) else f i := by
  induction l generalizing k f with
  | nil => simp
  | cons v l ih =>
    rw [List.zipIdx_cons, List.foldl_cons, ih]
    funext i
    simp only
    by_cases hlt : k + 1 ≤ i.val
    · have hsub : i.val - k = (i.val - (k + 1)) + 1 := by omega
      rw [hsub, List.getElem?_cons_succ, if_pos hlt, if_neg (by omega), if_pos (by omega)]
    · rw [if_neg hlt]
      by_cases hk : i.val = k
      · rw [if_pos hk, if_pos (by omega), hk, Nat.sub_self]
        rfl
      · rw [if_neg hk, if_neg (by omega)]

/-- Writing all places. -/
theorem foldl_write_ofFn {n : Nat} {α : Type} (f g : Fin n → α) :
    (List.ofFn f).zipIdx.foldl (fun f e => fun i => if i.val = e.2 then e.1 else f i) g = f := by
  rw [foldl_write]
  funext i
  rw [if_pos (Nat.zero_le _), Nat.sub_zero, List.getElem?_ofFn, dif_pos i.isLt]
  rfl

theorem foldl_setGpr (l : List (BitVec 32 × Nat)) (r : Regs) :
    l.foldl (fun r e => r.setGpr e.2 e.1) r =
      { r with gpr := l.foldl (fun f e => fun i => if i.val = e.2 then e.1 else f i) r.gpr } := by
  induction l generalizing r with
  | nil => rfl
  | cons e l ih => exact ih _

theorem foldl_setFpr (l : List (BitVec 64 × Nat)) (r : Regs) :
    l.foldl (fun r e => r.setFpr e.2 e.1) r =
      { r with fpr := l.foldl (fun f e => fun i => if i.val = e.2 then e.1 else f i) r.fpr } := by
  induction l generalizing r with
  | nil => rfl
  | cons e l ih => exact ih _

/-- **Restoring** what was saved brings every register back, whatever happened in between. -/
theorem restore_save (r r' : Regs) : restore r.save r' = r := by
  unfold restore save
  simp only [foldl_setGpr, foldl_setFpr, foldl_write_ofFn]

end Regs

/-! ## The machine -/

/-- An entry of `trace`. -/
structure TraceRecord where
  seq : Nat
  name : Str
  pc : BitVec 32
  lr : BitVec 32
  args : List (BitVec 32)
  result : Option (BitVec 32)

/-- Everything but the list of active calls. A handler is known by a number; `host` is the state of
the rest of the host, `now` counts the readings of the clock and the stretches of guest code. -/
structure World (M : ByteMemory) (H : Type) where
  regs : Regs
  guest : Guest M
  trapNext : Nat
  traps : Dict (BitVec 32) Str
  trapAddresses : Dict Str (BitVec 32)
  handlers : Dict Str Nat
  inlineHandlers : List Str
  pending : Option (BitVec 32)
  returnSlot : Option (BitVec 32)
  trace : Option (List TraceRecord)
  traceSeq : Nat
  traceCurrent : Option TraceRecord
  traceFile : Option (List TraceRecord)
  now : Nat
  host : H

/-- The machine. `starts` is not in the source: it records, for each handler that was started, the
descriptor of the innermost call at that moment and what `r12` held. -/
structure Machine (M : ByteMemory) (H : Type) where
  world : World M H
  callTvectors : List Int
  starts : List (Option Int × BitVec 32)

/-- What a handler does. -/
inductive HostProg (W : Type) where
  /-- The handler returns. -/
  | ret
  | raise (e : Exc)
  /-- Change the world. -/
  | act (change : W → W) (next : HostProg W)
  /-- Go on as the world is. -/
  | look (next : W → HostProg W)
  /-- `guest.call`, and what to do with its result or exception. -/
  | call (tvector : Int) (args : List Int) (timeout : Option Nat)
    (next : Except Exc (BitVec 32) → HostProg W)

/-- Why a computation has no value. -/
inductive Stop
  | raised (e : Exc)
  /-- Not an exception: more steps are needed to know. -/
  | outOfSteps
  deriving DecidableEq

/-- What ends a stretch of guest code. -/
inductive Event
  /-- The code hook at a trap slot. -/
  | trap (address : BitVec 32)
  /-- `emu_start` returns: a timeout, or the end of the emulation. -/
  | stopped
  /-- `emu_start` raises `UcError`. -/
  | fault
  deriving DecidableEq

/-- The parts outside the repository: the processor on the guest's code, the host's clock, and the
handlers. -/
structure Emulator (M : ByteMemory) (H : Type) where
  /-- A stretch of guest code, from the given registers and memory to the next event. -/
  exec : Nat → Option Nat → Regs → Guest M → Regs × Guest M × Event
  /-- `time.monotonic()` in microseconds. -/
  monotonic : Nat → Nat
  body : Nat → HostProg (World M H)

section Machine

variable {M : ByteMemory} {H : Type}

/-- A method of `Guest`. -/
abbrev Run (M : ByteMemory) (H α : Type) := EStateM Stop (Machine M H) α

namespace Machine

/-- Work on the world. -/
def modifyWorld (f : World M H → World M H) : Run M H Unit :=
  modify fun s => { s with world := f s.world }

/-- Work on the registers. -/
def modifyRegs (f : Regs → Regs) : Run M H Unit :=
  modifyWorld fun w => { w with regs := f w.regs }

/-- Access to the memory. -/
def onMemory {α : Type} (x : EStateM Exc (Guest M) α) : Run M H α :=
  mapError Stop.raised (zoom (fun s : Machine M H => s.world.guest)
    (fun s g => { s with world := { s.world with guest := g } }) x)

/-- `raise`. -/
def raise_ {α : Type} (e : Exc) : Run M H α := throw (.raised e)

/-- `try: … except Exception as e`, as a value. -/
def attempt {α : Type} (x : Run M H α) : Run M H (Except Exc α) := fun s =>
  match x s with
  | .ok a s' => .ok (.ok a) s'
  | .error (.raised e) s' => .ok (.error e) s'
  | .error .outOfSteps s' => .error .outOfSteps s'

/-- `try: … finally: …`. -/
def tryFinally {α : Type} (x : Run M H α) (f : Machine M H → Machine M H) : Run M H α := fun s =>
  match x s with
  | .ok a s' => .ok a (f s')
  | .error (.raised e) s' => .error (.raised e) (f s')
  | .error .outOfSteps s' => .error .outOfSteps s'

/-- An integer as an address. -/
def addr (value : Int) : Nat := (value % 2 ^ 32).toNat

/-- `alloc_trap_slot`. -/
def allocTrapSlot (name : Str) : Run M H (BitVec 32) := do
  let s ← get
  match s.world.trapAddresses.get? name with
  | some address => return address
  | none =>
    if s.world.trapNext ≥ Guest.trapSize / 4 then
      raise_ (.hostError "guest trap page exhausted")
    let address := BitVec.ofNat 32 (Guest.trapBase + s.world.trapNext * 4)
    modifyWorld fun w => { w with
      trapNext := w.trapNext + 1
      traps := w.traps.set address name
      trapAddresses := w.trapAddresses.set name address }
    onMemory (Guest.w32 address.toNat 0x4E800020)
    return address

/-- `time.monotonic()`. -/
def readClock (em : Emulator M H) : Run M H Nat := do
  let s ← get
  modifyWorld fun w => { w with now := w.now + 1 }
  return em.monotonic s.world.now

/-- `if self._call_tvectors: self.set_gpr(12, self._call_tvectors[-1])`. -/
def exposeCaller : Run M H Unit := do
  let s ← get
  match s.callTvectors.getLast? with
  | some tvector => modifyRegs (Regs.setGpr 12 (BitVec.ofInt 32 tvector))
  | none => return

/-- Note that a handler starts, while the call of `inner` is the innermost. -/
def noteStart (inner : Option Int) : Run M H Unit :=
  modify fun s => { s with starts := s.starts ++ [(inner, s.world.regs.gpr 12)] }

/-- `_trace_trap`. -/
def traceTrap (name : Str) (address : BitVec 32) (args : List (BitVec 32)) (lr : BitVec 32) :
    Run M H Unit :=
  modifyWorld fun w =>
    match w.trace with
    | none => w
    | some trace =>
      let entry := ⟨w.traceSeq, name, address, lr, args, none⟩
      { w with
        traceSeq := w.traceSeq + 1
        trace := some (trace ++ [entry])
        traceCurrent := some entry }

/-- `_finish_trace`. The entry of `trace` and the current one are the same object. -/
def finishTrace (result : BitVec 32) : Run M H Unit :=
  modifyWorld fun w =>
    match w.traceCurrent with
    | none => w
    | some entry =>
      let done := { entry with result := some result }
      { w with
        trace := w.trace.map fun l => l.map fun e => if e.seq = entry.seq then done else e
        traceFile := w.traceFile.map fun lines => lines ++ [done]
        traceCurrent := none }

/-- The function that serves `guest.call`. -/
abbrev CallFn (M : ByteMemory) (H : Type) :=
  Int → List Int → Option Nat → Run M H (BitVec 32)

end Machine

open Machine

/-- A handler, with `callee` for its calls of the guest. -/
def HostProg.exec (callee : CallFn M H) : HostProg (World M H) → Run M H Unit
  | .ret => return
  | .raise e => raise_ e
  | .act change next => do
    modifyWorld change
    next.exec callee
  | .look next => do
    let s ← get
    (next s.world).exec callee
  | .call tvector args timeout next => do
    let result ← attempt (callee tvector args timeout)
    (next result).exec callee

namespace Machine

variable (em : Emulator M H) (callee : CallFn M H)

/-- A handler at its start and its run, as both trap paths have it. -/
def runHandler (inner : Option Int) (handler : Nat) : Run M H Unit := do
  exposeCaller
  noteStart inner
  (em.body handler).exec callee

/-- `_trap_hook`, and whether it has stopped the emulation. -/
def trapHook (inner : Option Int) (address : BitVec 32) : Run M H Bool := do
  let s ← get
  let name := s.world.traps.get? address
  match s.world.trace, name.filter fun name => decide (name ∈ s.world.inlineHandlers) with
  | none, some name =>
    match s.world.handlers.get? name with
    | none => raise_ (.hostError s!"no handler bound for inline trap {String.ofList name}")
    | some handler =>
      runHandler em callee inner handler
      return false
  | _, _ =>
    modifyWorld fun w => { w with pending := some address }
    return true

/-- The `blr` of a trap slot. -/
def blr : Run M H Unit := modifyRegs fun r => { r with pc := r.lr }

/-- A stretch of guest code. -/
def segment (timeout : Option Nat) : Run M H Event := do
  let s ← get
  let (regs, guest, event) := em.exec s.world.now timeout s.world.regs s.world.guest
  modifyWorld fun w => { w with regs := regs, guest := guest, now := w.now + 1 }
  return event

/-- `emu_start` after it has set PC: it runs up to the address `stop`. -/
def emuLoop (inner : Option Int) (stop : BitVec 32) (timeout : Option Nat) : Nat → Run M H Unit
  | 0 => throw .outOfSteps
  | steps + 1 => do
    let s ← get
    if s.world.regs.pc = stop then return
    match ← segment em timeout with
    | .stopped => return
    | .fault => raise_ .ucError
    | .trap address =>
      if ← trapHook em callee inner address then return
      blr
      emuLoop inner stop timeout steps

/-- `run` before a handler: the trace, if there is one. -/
def traceEntry (name : Str) (address oldLr : BitVec 32) : Run M H Unit := do
  let s ← get
  if s.world.trace.isSome then
    let args := (List.range 8).map fun i => s.world.regs.gpr (Fin.ofNat 32 (3 + i))
    traceTrap name address args oldLr

/-- `run` after a handler: the trace, if there is one. -/
def traceResult : Run M H Unit := do
  let s ← get
  if s.world.trace.isSome then
    finishTrace (s.world.regs.gpr 3)

/-- The end of an import in `run`: where to go on, or nowhere when `run` returns. A handler that
leaves LR alone gets the return address in LR instead. -/
def resumeAt (stop : Option (BitVec 32)) (oldLr : BitVec 32) :
    Run M H (Option (BitVec 32)) := do
  let s ← get
  let current := s.world.regs.lr
  match stop with
  | none => return some current
  | some stop =>
    if current = oldLr then
      modifyRegs fun r => { r with lr := stop }
    if current = stop then return none
    return some current

/-- What `run` does about a pending trap: where to go on, or nowhere when `run` returns. -/
def serveTrap (inner : Option Int) (stop : Option (BitVec 32)) (address : BitVec 32) :
    Run M H (Option (BitVec 32)) := do
  if stop = some address then return none
  let s ← get
  match s.world.traps.get? address with
  | none => raise_ (.hostError s!"unallocated trap slot {hex address.toNat}")
  | some name =>
    match s.world.handlers.get? name with
    | none => raise_ (.hostError s!"no handler bound for import {String.ofList name}")
    | some handler =>
      let oldLr := s.world.regs.lr
      traceEntry name address oldLr
      runHandler em callee inner handler
      traceResult
      resumeAt stop oldLr

/-- The deadline of `run`. -/
def checkDeadline (deadline : Option Nat) : Run M H Unit :=
  match deadline with
  | none => return
  | some deadline => do
    if (← readClock em) ≥ deadline then
      let s ← get
      raise_ (.hostError s!"guest execution timed out at {hex s.world.regs.pc.toNat}")

/-- The time left, for `emu_start`. -/
def remaining (deadline : Option Nat) : Run M H (Option Nat) :=
  match deadline with
  | none => return none
  | some deadline => do
    let now ← readClock em
    return some (max 1 (deadline - now))

/-- The head of the loop of `run`, up to `emu_start`, with the timeout for it. -/
def startAt (deadline : Option Nat) (current : BitVec 32) : Run M H (Option Nat) := do
  checkDeadline em deadline
  modifyWorld fun w => { w with pending := none }
  let timeout ← remaining em deadline
  modifyRegs fun r => { r with pc := current }
  return timeout

/-- The loop of `run`, from the address `current` on. -/
def runLoop (inner : Option Int) (stop : Option (BitVec 32)) (deadline : Option Nat) :
    Nat → BitVec 32 → Run M H Unit
  | 0, _ => throw .outOfSteps
  | steps + 1, current => do
    let timeout ← startAt em deadline current
    emuLoop em callee inner (stop.getD 0) timeout (steps + 1)
    let s ← get
    match s.world.pending with
    | none => return
    | some address =>
      match ← serveTrap em callee inner stop address with
      | none => return
      | some current => runLoop inner stop deadline steps current

/-- The deadline, from the timeout. -/
def deadlineAfter (timeout : Option Nat) : Run M H (Option Nat) :=
  match timeout with
  | none => return none
  | some timeout => do
    let now ← readClock em
    return some (now + timeout)

/-- `Guest.run`, in at most `steps` steps of each loop. -/
def run (steps : Nat) (inner : Option Int) (pc : BitVec 32) (stop : Option (BitVec 32))
    (timeout : Option Nat) : Run M H Unit := do
  let deadline ← deadlineAfter em timeout
  runLoop em callee inner stop deadline steps pc

/-- `_return_slot`, allocated at the first call. -/
def returnSlot : Run M H (BitVec 32) := do
  let s ← get
  match s.world.returnSlot with
  | some slot => return slot
  | none =>
    let slot ← allocTrapSlot ['_', '_', 'r', 'e', 't', 'u', 'r', 'n', '_', '_']
    modifyWorld fun w => { w with returnSlot := some slot }
    return slot

/-- The body of the `try` of `call`. -/
def callBody (steps : Nat) (tvector : Int) (args : List Int) (timeout : Option Nat)
    (oldR1 newR1 : BitVec 32) : Run M H (BitVec 32) := do
  let code ← onMemory (Guest.u32 (addr tvector))
  let toc ← onMemory (Guest.u32 (addr (tvector + 4)))
  modifyRegs (Regs.setGpr 2 (BitVec.ofNat 32 toc))
  modifyRegs (Regs.setGpr 12 (BitVec.ofInt 32 tvector))
  modifyRegs fun r => args.zipIdx.foldl (fun r e => r.setGpr (3 + e.2) (BitVec.ofInt 32 e.1)) r
  modifyRegs (Regs.setGpr 1 newR1)
  onMemory (Guest.w32 newR1.toNat oldR1.toNat)
  let slot ← returnSlot
  modifyRegs fun r => { r with lr := slot }
  modifyRegs fun r => { r with pc := BitVec.ofNat 32 code }
  run em callee steps (some tvector) (BitVec.ofNat 32 code) (some slot) timeout
  let s ← get
  return s.world.regs.gpr 3

/-- `call` around the body of its `try`, which has the registers of the caller: `save_regs`, the
descriptor on the list, and both undone in `finally`. -/
def preserving {α : Type} (tvector : Int) (body : Regs → Run M H α) : Run M H α := do
  let s ← get
  modify fun s => { s with callTvectors := s.callTvectors ++ [tvector] }
  tryFinally (body s.world.regs) fun s' => { s' with
    callTvectors := s'.callTvectors.dropLast
    world := { s'.world with regs := s'.world.regs.restore s.world.regs.save } }

/-- `Guest.call`, with `callee` for the calls made below it. -/
def callWith (steps : Nat) : CallFn M H := fun tvector args timeout =>
  if args.length > 8 then
    raise_ (.hostError "guest.call accepts at most eight integer arguments")
  else
    preserving tvector fun regs =>
      callBody em callee steps tvector args timeout (regs.gpr 1)
        ((regs.gpr 1 - 64) &&& ~~~(0xF : BitVec 32))

/-- **`Guest.call`**, with at most `steps` steps of each loop and as many calls inside each
other. -/
def call (em : Emulator M H) : Nat → CallFn M H
  | 0 => fun _ _ _ => throw .outOfSteps
  | steps + 1 => callWith em (call em steps) (steps + 1)

end Machine

end Machine

/-! ## The arguments of a routine -/

/-- The first argument of a routine of the host, in r3. -/
abbrev Regs.first (r : Regs) : Nat := (r.gpr 3).toNat

/-- The second one, in r4. -/
abbrev Regs.second (r : Regs) : Nat := (r.gpr 4).toNat

end Cwhost
