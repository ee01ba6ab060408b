import Cwhost.Guest

/-!
# The clocks a compilation observes (`carbon/system.py`, `config.py`, `Node.mod_time`)

`CWHOST_TIMESTAMP` replaces the wall clock and the modification times, `CWHOST_TZ_OFFSET` the
timezone. What the host itself answers is `HostClocks`: one answer for each reading, so that
two runs can differ in every one of them. The arguments of a shim are the ones `guest.args`
unpacks.

Results:
* `perform_clocks_eq`: with a fixed time, every operation but `TickCount` reads no host clock.
* `run_clock_independent_iff`: with a fixed time, the observations of a sequence of operations
  do not depend on the host's clocks **iff** `TickCount` is not among the operations.
* `tickCount_observes_monotonic`: `TickCount` shows the monotonic clock although the time is
  fixed.
-/

namespace Cwhost

open Lib

/-! ## Configuration -/

/-- The process environment, and the `int(str)` that reads it. -/
structure Environ where
  get : Str → Option Str
  int : Str → Option Int

namespace Config

/-- `_int_env(name, default)`. -/
def intEnv (env : Environ) (name : Str) (default : Option Str) : Except Exc Int :=
  match (env.get name).or default with
  | none => throw (.hostError s!"{String.ofList name} is not set")
  | some raw =>
    match env.int raw with
    | some value => return value
    | none => throw (.hostError s!"invalid {String.ofList name}: {pyRepr raw}")

/-- `tz_offset()`. -/
def tzOffset (env : Environ) : Except Exc Int :=
  intEnv env "CWHOST_TZ_OFFSET".toList (some ['0'])

/-- `fixed_time()`. -/
def fixedTime (env : Environ) : Except Exc (Option (Int × Int)) :=
  match env.get "CWHOST_TIMESTAMP".toList with
  | none => return none
  | some _ => do
    let stamp ← intEnv env "CWHOST_TIMESTAMP".toList none
    let tz ← tzOffset env
    return some (stamp, tz)

end Config

/-! ## The operations -/

/-- What the host answers to the `n`-th reading of its clocks. -/
structure HostClocks where
  /-- `int(time.time())`. -/
  time : Nat → Int
  /-- `int(time.monotonic() * 60)`. -/
  monotonic : Nat → Int
  /-- `int(path.stat().st_mtime)`, or the text of the `OSError`. -/
  mtime : Nat → Str → Except String Int

/-- `MAC_EPOCH`. -/
def macEpoch : Int := 2082844800

namespace Carbon

variable {M : ByteMemory}

/-- What a shim hands back: its Python value, and the word it leaves in `r3`. -/
structure Returned where
  value : Int
  r3 : Nat
  deriving DecidableEq, Repr

/-- `_ret(guest, value)`. -/
def ret (value : Int) : Returned := ⟨value, (value % 2 ^ 32).toNat⟩

/-- `GetDateTime`, at the reading `n` of the clocks. -/
def getDateTime (env : Environ) (host : HostClocks) (n output : Nat) :
    EStateM Exc (Guest M) Returned := do
  let fixed ← MonadExcept.ofExcept (Config.fixedTime env)
  let value := match fixed with
    | none => host.time n
    | some fixed => fixed.1
  Guest.w32 output ((value + macEpoch) % 2 ^ 32).toNat
  return ret 0

/-- `_UTC_SECONDS_MASK`. -/
def utcSecondsMask : Int := 2 ^ 48 - 1

/-- `ConvertUTCToLocalDateTime`. -/
def convertUTCToLocalDateTime (env : Environ) (source destination : Nat) :
    EStateM Exc (Guest M) Returned := do
  let high ← Guest.u16 source
  let low ← Guest.u32 (source + 2)
  let fraction ← Guest.u16 (source + 6)
  let tz ← MonadExcept.ofExcept (Config.tzOffset env)
  let loc := ((high * 2 ^ 32 + low : Nat) : Int) + tz
  if ¬ (0 ≤ loc ∧ loc ≤ utcSecondsMask) then
    throw (.hostError "ConvertUTCToLocalDateTime: timezone offset overflows UTCDateTime")
  Guest.w16 destination (loc.toNat / 2 ^ 32)
  Guest.w32 (destination + 2) (loc.toNat % 2 ^ 32)
  Guest.w16 (destination + 6) fraction
  return ret 0

/-- `TickCount`, at the reading `n` of the clocks. -/
def tickCount (host : HostClocks) (n : Nat) : EStateM Exc (Guest M) Returned :=
  return ret (host.monotonic n % 2 ^ 32)

/-- `Node.mod_time` of the node at `path`, at the reading `n` of the clocks. -/
def modTime (env : Environ) (host : HostClocks) (n : Nat) (path : Str) :
    EStateM Exc (Guest M) Int := do
  let fixed ← MonadExcept.ofExcept (Config.fixedTime env)
  match fixed with
  | some fixed => return fixed.1 + macEpoch
  | none =>
    match host.mtime n path with
    | .ok mtime => return mtime + macEpoch
    | .error text => throw (.hostError s!"cannot stat {String.ofList path}: {text}")

/-! ## Runs -/

/-- A clock-reading operation, with its arguments. -/
inductive ClockOp
  | getDateTime (output : Nat)
  | convertUTCToLocalDateTime (source destination : Nat)
  | tickCount
  | modTime (path : Str)
  deriving DecidableEq

/-- What an operation hands to its caller. -/
inductive Answer
  | shim (returned : Returned)
  | modTime (value : Int)
  deriving DecidableEq

/-- One operation. -/
def perform (env : Environ) (host : HostClocks) (n : Nat) :
    ClockOp → EStateM Exc (Guest M) Answer
  | .getDateTime output => .shim <$> getDateTime env host n output
  | .convertUTCToLocalDateTime source destination =>
    .shim <$> convertUTCToLocalDateTime env source destination
  | .tickCount => .shim <$> tickCount host n
  | .modTime path => .modTime <$> modTime env host n path

/-- An answer or an exception. -/
def outcome {σ α : Type} : EStateM.Result Exc σ α → Except Exc α
  | .ok a _ => .ok a
  | .error e _ => .error e

/-- A run from the reading `n` on: after each operation, what it answered and the memory it
left. An operation that raises does not end the run. -/
def run (env : Environ) (host : HostClocks) :
    Nat → List ClockOp → Guest M → List (Except Exc Answer × Guest M)
  | _, [], _ => []
  | n, op :: ops, g =>
    let result := perform env host n op g
    (outcome result, endState result) :: run env host (n + 1) ops (endState result)

/-! ## What the operations read -/

/-- `CWHOST_TIMESTAMP` is set, and it and the timezone are valid integers. -/
structure FixedClocks (env : Environ) (stamp tz : Int) : Prop where
  timestamp : ∃ raw, env.get "CWHOST_TIMESTAMP".toList = some raw ∧ env.int raw = some stamp
  tzOffset : env.int ((env.get "CWHOST_TZ_OFFSET".toList).getD ['0']) = some tz

theorem intEnv_eq {env : Environ} {name raw : Str} {default : Option Str} {value : Int}
    (hraw : (env.get name).or default = some raw) (hint : env.int raw = some value) :
    Config.intEnv env name default = .ok value := by
  unfold Config.intEnv
  rw [hraw]
  simp only
  rw [hint]
  rfl

theorem FixedClocks.fixedTime_eq {env : Environ} {stamp tz : Int} (h : FixedClocks env stamp tz) :
    Config.fixedTime env = .ok (some (stamp, tz)) := by
  obtain ⟨raw, hraw, hint⟩ := h.timestamp
  have htz : Config.tzOffset env = .ok tz := by
    refine intEnv_eq ?_ h.tzOffset
    cases env.get "CWHOST_TZ_OFFSET".toList <;> rfl
  have hstamp : Config.intEnv env "CWHOST_TIMESTAMP".toList none = .ok stamp :=
    intEnv_eq (by rw [hraw]; rfl) hint
  unfold Config.fixedTime
  rw [hraw]
  simp only [hstamp, htz]
  rfl

/-- **With a fixed time no operation but `TickCount` reads a host clock.** -/
theorem perform_clocks_eq {env : Environ} {stamp tz : Int} (h : FixedClocks env stamp tz)
    (host host' : HostClocks) (n n' : Nat) {op : ClockOp} (hop : op ≠ .tickCount) :
    (perform env host n op : EStateM Exc (Guest M) Answer) = perform env host' n' op := by
  cases op with
  | getDateTime output =>
    simp only [perform, getDateTime, h.fixedTime_eq]
    rfl
  | convertUTCToLocalDateTime source destination => rfl
  | tickCount => exact absurd rfl hop
  | modTime path =>
    simp only [perform, modTime, h.fixedTime_eq]
    rfl

/-- What `TickCount` answers is what the monotonic clock shows. -/
theorem outcome_tickCount (env : Environ) (host : HostClocks) (n : Nat) (g : Guest M) :
    outcome (perform env host n .tickCount g) = .ok (.shim (ret (host.monotonic n % 2 ^ 32))) :=
  rfl

/-- A monotonic clock stopped at `ticks`; every other clock at its origin. -/
def stoppedAt (ticks : Int) : HostClocks where
  time _ := 0
  monotonic _ := ticks
  mtime _ _ := .ok 0

theorem run_eq_of_tickCount_notMem {env : Environ} {stamp tz : Int}
    (h : FixedClocks env stamp tz) (host host' : HostClocks) {ops : List ClockOp}
    (hops : .tickCount ∉ ops) (n : Nat) (g : Guest M) :
    run env host n ops g = run env host' n ops g := by
  induction ops generalizing n g with
  | nil => rfl
  | cons op ops ih =>
    rw [List.mem_cons, not_or] at hops
    simp only [run]
    rw [perform_clocks_eq h host host' n n fun he => hops.1 he.symm, ih hops.2]

theorem tickCount_notMem_of_run_eq (env : Environ) {ops : List ClockOp} {n : Nat} {g : Guest M}
    (hrun : run env (stoppedAt 0) n ops g = run env (stoppedAt 1) n ops g) :
    .tickCount ∉ ops := by
  induction ops generalizing n g with
  | nil => exact List.not_mem_nil
  | cons op ops ih =>
    simp only [run, List.cons.injEq, Prod.mk.injEq] at hrun
    obtain ⟨⟨hans, hst⟩, hrest⟩ := hrun
    rw [← hst] at hrest
    refine List.not_mem_cons_of_ne_of_not_mem ?_ (ih hrest)
    rintro rfl
    rw [outcome_tickCount, outcome_tickCount] at hans
    simp only [stoppedAt, Except.ok.injEq, Answer.shim.injEq, ret, Returned.mk.injEq] at hans
    exact absurd hans.1 (by decide)

/-- **A fixed time fixes what is observed exactly where `TickCount` is not called**: over every
sequence of operations from every memory, all hosts give the same answers and memories iff
`TickCount` is not in the sequence. -/
theorem run_clock_independent_iff {env : Environ} {stamp tz : Int} (h : FixedClocks env stamp tz)
    (ops : List ClockOp) (g : Guest M) :
    (∀ host host' : HostClocks, run env host 0 ops g = run env host' 0 ops g) ↔
      .tickCount ∉ ops :=
  ⟨fun hall => tickCount_notMem_of_run_eq env (hall _ _),
    fun hops host host' => run_eq_of_tickCount_notMem h host host' hops 0 g⟩

/-- A string of digits, read as a number. -/
def decimal (s : Str) : Option Int :=
  if s ≠ [] ∧ s.all Char.isDigit then
    some (s.foldl (fun v c => v * 10 + (c.toNat - '0'.toNat : Nat)) 0)
  else none

/-- The environment of `CWHOST_TIMESTAMP=1056470160 CWHOST_TZ_OFFSET=7200`. -/
def pinnedEnviron : Environ where
  get name :=
    if name = "CWHOST_TIMESTAMP".toList then some "1056470160".toList
    else if name = "CWHOST_TZ_OFFSET".toList then some "7200".toList
    else none
  int := decimal

theorem pinnedEnviron_fixed : FixedClocks pinnedEnviron 1056470160 7200 :=
  ⟨⟨"1056470160".toList, by decide, by decide⟩, by decide⟩

theorem run_clock_independent_iff_pinned :
    FixedClocks pinnedEnviron 1056470160 7200 ∧
      ((∀ host host' : HostClocks,
        run pinnedEnviron host 0 [.getDateTime 0x1000, .modTime ['m']]
            (⟨ByteMemory.blank⟩ : Guest ByteMemory.flat) =
          run pinnedEnviron host' 0 [.getDateTime 0x1000, .modTime ['m']] ⟨ByteMemory.blank⟩) ↔
        .tickCount ∉ [ClockOp.getDateTime 0x1000, ClockOp.modTime ['m']]) :=
  ⟨pinnedEnviron_fixed, run_clock_independent_iff pinnedEnviron_fixed _ _⟩

/-- **`TickCount` shows the monotonic clock although the time is fixed**: two hosts that differ
in nothing else get different answers. -/
theorem tickCount_observes_monotonic :
    FixedClocks pinnedEnviron 1056470160 7200 ∧
      run pinnedEnviron (stoppedAt 0) 0 [.tickCount]
          (⟨ByteMemory.blank⟩ : Guest ByteMemory.flat) ≠
        run pinnedEnviron (stoppedAt 1) 0 [.tickCount] ⟨ByteMemory.blank⟩ :=
  ⟨pinnedEnviron_fixed, fun h => absurd (List.mem_singleton_self _)
    (tickCount_notMem_of_run_eq pinnedEnviron h)⟩

end Carbon

end Cwhost
