import Cwhost.Guest.Machine

/-!
# `Guest.call` restores the caller

Whatever the guest code and the handlers do, however deep the calls are nested and however a run
ends.

* `Keeps`: the list of active calls is the same, and every handler started since saw the descriptor
  of the innermost call in `r12`.
* `Frame inner x`: started while `inner` is the innermost call, `x` keeps both. One rule for each
  construct, then one lemma for each method, by induction on the steps of the loops.
* `call_restores`: **when a call returns or raises, every register and the list of active calls are
  what they were**, and the handlers saw the descriptors.
-/

namespace Cwhost.Machine

open Lib

variable {M : ByteMemory} {H : Type}

/-! ## Frames -/

/-- The handler that started saw the innermost call in `r12`. -/
def SawCaller (start : Option Int × BitVec 32) : Prop :=
  ∀ tvector, start.1 = some tvector → start.2 = BitVec.ofInt 32 tvector

/-- What a method leaves alone. -/
structure Keeps (s s' : Machine M H) : Prop where
  callTvectors : s'.callTvectors = s.callTvectors
  starts : ∃ new, s'.starts = s.starts ++ new ∧ ∀ start ∈ new, SawCaller start

theorem Keeps.refl (s : Machine M H) : Keeps s s :=
  ⟨rfl, [], by rw [List.append_nil], fun _ h => absurd h List.not_mem_nil⟩

theorem Keeps.trans {s s' s'' : Machine M H} (h : Keeps s s') (h' : Keeps s' s'') :
    Keeps s s'' := by
  obtain ⟨hc, new, hs, hn⟩ := h
  obtain ⟨hc', new', hs', hn'⟩ := h'
  refine ⟨hc'.trans hc, new ++ new', by rw [hs', hs, List.append_assoc], fun start hmem => ?_⟩
  rcases List.mem_append.mp hmem with hmem | hmem
  · exact hn start hmem
  · exact hn' start hmem

/-- A change of the world only. -/
theorem Keeps.of_world {s : Machine M H} (w : World M H) : Keeps s { s with world := w } :=
  ⟨rfl, [], by rw [List.append_nil], fun _ h => absurd h List.not_mem_nil⟩

/-- While `inner` is the innermost call, `x` keeps the calls and the handlers see them. -/
def Frame (inner : Option Int) {α : Type} (x : Run M H α) : Prop :=
  ∀ s : Machine M H, s.callTvectors.getLast? = inner →
    wp x (fun _ s' => Keeps s s') (fun stop s' => stop ≠ .outOfSteps → Keeps s s') s

section Rules

variable {inner : Option Int} {α β : Type}

theorem frame_pure (a : α) : Frame inner (pure a : Run M H α) := by
  intro s _
  exact Keeps.refl s

theorem frame_raise (e : Exc) : Frame inner (raise_ e : Run M H α) := by
  intro s _ _
  exact Keeps.refl s

theorem frame_outOfSteps : Frame inner (throw .outOfSteps : Run M H α) := by
  intro s _ h
  exact absurd rfl h

theorem frame_bind {x : Run M H α} {f : α → Run M H β} (hx : Frame inner x)
    (hf : ∀ a, Frame inner (f a)) : Frame inner (x >>= f) := by
  intro s hs
  rw [wp_bind]
  refine wp_mono (hx s hs) (fun a s₁ h₁ => ?_) fun _ _ h => h
  have hs₁ : s₁.callTvectors.getLast? = inner := by rw [h₁.callTvectors, hs]
  exact wp_mono (hf a s₁ hs₁) (fun _ _ h₂ => h₁.trans h₂) fun _ _ h₂ hstop => h₁.trans (h₂ hstop)

theorem frame_get {f : Machine M H → Run M H β} (hf : ∀ s, Frame inner (f s)) :
    Frame inner (get >>= f) := by
  intro s hs
  rw [wp_bind, wp_get]
  exact hf s s hs

theorem frame_ite {p : Prop} [Decidable p] {x y : Run M H α} (hx : Frame inner x)
    (hy : Frame inner y) : Frame inner (if p then x else y) := by
  split
  · exact hx
  · exact hy

theorem frame_modifyWorld (f : World M H → World M H) : Frame inner (modifyWorld f) := by
  intro s _
  exact Keeps.of_world (f s.world)

theorem frame_modifyRegs (f : Regs → Regs) :
    Frame inner (modifyRegs f : Run M H Unit) := frame_modifyWorld _

theorem frame_onMemory (x : EStateM Exc (Guest M) α) :
    Frame inner (onMemory x : Run M H α) := by
  intro s _
  unfold onMemory
  rw [wp_mapError, wp_zoom]
  exact wp_mono (wp_self x s.world.guest) (fun _ _ _ => Keeps.of_world _)
    fun _ _ _ _ => Keeps.of_world _

/-- The rule of `attempt`. -/
theorem wp_attempt {x : Run M H α} {Q : Except Exc α → Machine M H → Prop}
    {E : Stop → Machine M H → Prop} {s : Machine M H}
    (h : wp x (fun a s' => Q (.ok a) s')
      (fun stop s' => (∀ e, stop = .raised e → Q (.error e) s') ∧
        (stop = .outOfSteps → E .outOfSteps s')) s) :
    wp (attempt x) Q E s := by
  unfold wp at h
  unfold wp attempt
  cases hx : x s with
  | ok a s' =>
    rw [hx] at h
    exact h
  | error stop s' =>
    rw [hx] at h
    cases stop with
    | raised e => exact h.1 e rfl
    | outOfSteps => exact h.2 rfl

/-- The rule of `tryFinally`. -/
theorem wp_tryFinally {x : Run M H α} {f : Machine M H → Machine M H}
    {Q : α → Machine M H → Prop} {E : Stop → Machine M H → Prop} {s : Machine M H}
    (h : wp x (fun a s' => Q a (f s'))
      (fun stop s' => (∀ e, stop = .raised e → E stop (f s')) ∧
        (stop = .outOfSteps → E stop s')) s) :
    wp (tryFinally x f) Q E s := by
  unfold wp at h
  unfold wp tryFinally
  cases hx : x s with
  | ok a s' =>
    rw [hx] at h
    exact h
  | error stop s' =>
    rw [hx] at h
    cases stop with
    | raised e => exact h.1 e rfl
    | outOfSteps => exact h.2 rfl

theorem frame_attempt {x : Run M H α} (hx : Frame inner x) : Frame inner (attempt x) := by
  intro s hs
  refine wp_attempt (wp_mono (hx s hs) (fun _ _ h => h) fun stop s' h => ⟨?_, ?_⟩)
  · rintro e rfl
    exact h (by simp)
  · intro _ habsurd
    exact absurd rfl habsurd

end Rules

/-! ## The methods -/

variable {em : Emulator M H} {callee : CallFn M H}

/-- The calls made below keep the frame, whatever call is the innermost. -/
def FramedCallee (callee : CallFn M H) : Prop :=
  ∀ inner tvector args timeout, Frame inner (callee tvector args timeout)

theorem frame_exec (hcallee : FramedCallee callee) (inner : Option Int)
    (p : HostProg (World M H)) : Frame inner (p.exec callee) := by
  induction p with
  | ret => exact frame_pure ()
  | raise e => exact frame_raise e
  | act change next ih => exact frame_bind (frame_modifyWorld change) fun _ => ih
  | look next ih => exact frame_get fun s => ih s.world
  | call tvector args timeout next ih =>
    exact frame_bind (frame_attempt (hcallee inner tvector args timeout)) fun result => ih result

/-- `exposeCaller` puts the innermost descriptor in `r12` and changes nothing else but it. -/
theorem exposeCaller_spec {inner : Option Int} {s : Machine M H}
    (hs : s.callTvectors.getLast? = inner) :
    wp exposeCaller (fun _ s' => ∃ w, s' = { s with world := w } ∧
      ∀ tvector, inner = some tvector → w.regs.gpr 12 = BitVec.ofInt 32 tvector)
      (fun _ _ => False) s := by
  subst hs
  unfold exposeCaller
  rw [wp_bind, wp_get]
  cases hlast : s.callTvectors.getLast? with
  | none => exact ⟨s.world, rfl, by simp⟩
  | some tvector =>
    refine ⟨_, rfl, ?_⟩
    rintro _ ⟨⟩
    rfl

/-- **A handler starts with the innermost descriptor in `r12`.** -/
theorem frame_runHandler (hcallee : FramedCallee callee) (inner : Option Int) (handler : Nat) :
    Frame inner (runHandler em callee inner handler) := by
  intro s hs
  unfold runHandler
  rw [wp_bind]
  refine wp_mono (exposeCaller_spec hs) ?_ (fun _ _ h => h.elim)
  rintro _ _ ⟨w, rfl, hw⟩
  unfold noteStart
  rw [wp_bind, wp_modify]
  have hnoted : Keeps s { s with world := w, starts := s.starts ++ [(inner, w.regs.gpr 12)] } :=
    ⟨rfl, [(inner, w.regs.gpr 12)], rfl, fun start hmem => by
      rw [List.mem_singleton.mp hmem]
      exact hw⟩
  exact wp_mono (frame_exec hcallee inner _ _ hs) (fun _ _ h => hnoted.trans h)
    fun _ _ h hstop => hnoted.trans (h hstop)

theorem frame_trapHook (hcallee : FramedCallee callee) (inner : Option Int)
    (address : BitVec 32) : Frame inner (trapHook em callee inner address) := by
  unfold trapHook
  refine frame_get fun s => ?_
  have hstop : Frame inner (do
      modifyWorld fun w => { w with pending := some address }
      return true : Run M H Bool) := frame_bind (frame_modifyWorld _) fun _ => frame_pure _
  dsimp only
  split
  · split
    · exact frame_raise _
    · exact frame_bind (frame_runHandler hcallee inner _) fun _ => frame_pure _
  · exact hstop

theorem frame_segment (inner : Option Int) (timeout : Option Nat) :
    Frame inner (segment em timeout) :=
  frame_get fun _ => frame_bind (frame_modifyWorld _) fun _ => frame_pure _

/-- A stretch of guest code and its traps, by induction on the steps. -/
theorem frame_emuLoop (hcallee : FramedCallee callee) (inner : Option Int) (stop : BitVec 32)
    (timeout : Option Nat) (steps : Nat) :
    Frame inner (emuLoop em callee inner stop timeout steps) := by
  induction steps with
  | zero => exact frame_outOfSteps
  | succ steps ih =>
    unfold emuLoop
    refine frame_get fun s => frame_ite (frame_pure _) ?_
    refine frame_bind (frame_segment inner timeout) fun event => ?_
    cases event with
    | stopped => exact frame_pure _
    | fault => exact frame_raise _
    | trap address =>
      refine frame_bind (frame_trapHook hcallee inner address) fun stopped => ?_
      exact frame_ite (frame_pure _) (frame_bind (frame_modifyRegs _) fun _ => ih)

theorem frame_resumeAt (inner : Option Int) (stop : Option (BitVec 32)) (oldLr : BitVec 32) :
    Frame inner (resumeAt stop oldLr : Run M H (Option (BitVec 32))) := by
  refine frame_get fun s => ?_
  cases stop with
  | none => exact frame_pure _
  | some stop =>
    have hend : Frame inner (if s.world.regs.lr = stop then pure none
        else pure (some s.world.regs.lr) : Run M H (Option (BitVec 32))) :=
      frame_ite (frame_pure _) (frame_pure _)
    exact frame_ite (frame_bind (frame_modifyRegs _) fun _ => hend) hend

theorem frame_serveTrap (hcallee : FramedCallee callee) (inner : Option Int)
    (stop : Option (BitVec 32)) (address : BitVec 32) :
    Frame inner (serveTrap em callee inner stop address) := by
  unfold serveTrap
  refine frame_ite (frame_pure _) (frame_get fun s => ?_)
  split
  · exact frame_raise _
  split
  · exact frame_raise _
  · refine frame_bind (frame_get fun s => ?_) fun _ => ?_
    · exact frame_ite (frame_modifyWorld _) (frame_pure _)
    refine frame_bind (frame_runHandler hcallee inner _) fun _ => ?_
    refine frame_bind (frame_get fun s => ?_) fun _ => ?_
    · exact frame_ite (frame_modifyWorld _) (frame_pure _)
    exact frame_resumeAt inner stop _

theorem frame_readClock (inner : Option Int) : Frame inner (readClock em) :=
  frame_get fun _ => frame_bind (frame_modifyWorld _) fun _ => frame_pure _

theorem frame_checkDeadline (inner : Option Int) (deadline : Option Nat) :
    Frame inner (checkDeadline em deadline) := by
  cases deadline with
  | none => exact frame_pure ()
  | some deadline =>
    refine frame_bind (frame_readClock inner) fun now => frame_ite ?_ (frame_pure ())
    exact frame_get fun _ => frame_raise _

theorem frame_remaining (inner : Option Int) (deadline : Option Nat) :
    Frame inner (remaining em deadline) := by
  cases deadline with
  | none => exact frame_pure none
  | some deadline => exact frame_bind (frame_readClock inner) fun _ => frame_pure _

theorem frame_startAt (inner : Option Int) (deadline : Option Nat) (current : BitVec 32) :
    Frame inner (startAt em deadline current) := by
  refine frame_bind (frame_checkDeadline inner deadline) fun _ => ?_
  refine frame_bind (frame_modifyWorld _) fun _ => ?_
  refine frame_bind (frame_remaining inner deadline) fun timeout => ?_
  exact frame_bind (frame_modifyRegs _) fun _ => frame_pure timeout

/-- The loop of `run`, by induction on the steps. -/
theorem frame_runLoop (hcallee : FramedCallee callee) (inner : Option Int)
    (stop : Option (BitVec 32)) (deadline : Option Nat) (steps : Nat) (current : BitVec 32) :
    Frame inner (runLoop em callee inner stop deadline steps current) := by
  induction steps generalizing current with
  | zero => exact frame_outOfSteps
  | succ steps ih =>
    unfold runLoop
    refine frame_bind (frame_startAt inner deadline current) fun timeout => ?_
    refine frame_bind (frame_emuLoop hcallee inner _ timeout _) fun _ => frame_get fun s => ?_
    split
    · exact frame_pure ()
    refine frame_bind (frame_serveTrap hcallee inner stop _) fun resumed => ?_
    split
    · exact frame_pure ()
    · exact ih _

theorem frame_run (hcallee : FramedCallee callee) (steps : Nat) (inner : Option Int)
    (pc : BitVec 32) (stop : Option (BitVec 32)) (timeout : Option Nat) :
    Frame inner (run em callee steps inner pc stop timeout) := by
  refine frame_bind ?_ fun deadline => frame_runLoop hcallee inner stop deadline steps pc
  cases timeout with
  | none => exact frame_pure none
  | some timeout => exact frame_bind (frame_readClock inner) fun _ => frame_pure _

theorem frame_allocTrapSlot (inner : Option Int) (name : Str) :
    Frame inner (allocTrapSlot name : Run M H (BitVec 32)) := by
  refine frame_get fun s => ?_
  split
  · exact frame_pure _
  · have hrest : Frame inner (do
        let address := BitVec.ofNat 32 (Guest.trapBase + s.world.trapNext * 4)
        modifyWorld fun w => { w with
          trapNext := w.trapNext + 1
          traps := w.traps.set address name
          trapAddresses := w.trapAddresses.set name address }
        onMemory (Guest.w32 address.toNat 0x4E800020)
        return address : Run M H (BitVec 32)) :=
      frame_bind (frame_modifyWorld _) fun _ =>
        frame_bind (frame_onMemory _) fun _ => frame_pure _
    exact frame_ite (frame_bind (frame_raise _) fun _ => hrest) hrest

theorem frame_returnSlot (inner : Option Int) :
    Frame inner (returnSlot : Run M H (BitVec 32)) := by
  refine frame_get fun s => ?_
  split
  · exact frame_pure _
  · exact frame_bind (frame_allocTrapSlot inner _) fun _ =>
      frame_bind (frame_modifyWorld _) fun _ => frame_pure _

/-- The body of `call`: while it runs its descriptor is the innermost. -/
theorem frame_callBody (hcallee : FramedCallee callee) (steps : Nat) (tvector : Int)
    (args : List Int) (timeout : Option Nat) (oldR1 newR1 : BitVec 32) :
    Frame (some tvector) (callBody em callee steps tvector args timeout oldR1 newR1) := by
  unfold callBody
  refine frame_bind (frame_onMemory _) fun code => frame_bind (frame_onMemory _) fun toc => ?_
  refine frame_bind (frame_modifyRegs _) fun _ => frame_bind (frame_modifyRegs _) fun _ => ?_
  refine frame_bind (frame_modifyRegs _) fun _ => frame_bind (frame_modifyRegs _) fun _ => ?_
  refine frame_bind (frame_onMemory _) fun _ => frame_bind (frame_returnSlot _) fun slot => ?_
  refine frame_bind (frame_modifyRegs _) fun _ => frame_bind (frame_modifyRegs _) fun _ => ?_
  exact frame_bind (frame_run hcallee steps _ _ _ timeout) fun _ => frame_get fun _ => frame_pure _

/-! ## The call -/

/-- What `call` leaves as it was, however it ends. -/
structure Restored (s s' : Machine M H) : Prop extends Keeps s s' where
  regs : s'.world.regs = s.world.regs

/-- **The `finally` block** undoes what the body did to the registers and takes the descriptor off
again. -/
theorem preserving_restores {α : Type} {tvector : Int} {body : Regs → Run M H α}
    (hbody : ∀ regs, Frame (some tvector) (body regs)) (s : Machine M H) :
    wp (preserving tvector body) (fun _ s' => Restored s s')
      (fun stop s' => stop ≠ .outOfSteps → Restored s s') s := by
  have hundone {s' : Machine M H}
      (h : Keeps { s with callTvectors := s.callTvectors ++ [tvector] } s') :
      Restored s { s' with
        callTvectors := s'.callTvectors.dropLast
        world := { s'.world with regs := s'.world.regs.restore s.world.regs.save } } := by
    obtain ⟨hcalls, hstarts⟩ := h
    refine ⟨⟨?_, hstarts⟩, Regs.restore_save _ _⟩
    show s'.callTvectors.dropLast = s.callTvectors
    rw [hcalls, List.dropLast_concat]
  unfold preserving
  rw [wp_bind, wp_get, wp_bind, wp_modify]
  refine wp_tryFinally (wp_mono (hbody s.world.regs _ (by simp)) ?_ ?_)
  · intro _ s' h
    exact hundone h
  · intro stop s' h
    refine ⟨?_, ?_⟩
    · rintro e rfl _
      exact hundone (h (by simp))
    · intro hout hstop
      exact absurd hout hstop

/-- **One call**, given that the calls below it keep the frame. -/
theorem callWith_restores (hcallee : FramedCallee callee) (steps : Nat) (tvector : Int)
    (args : List Int) (timeout : Option Nat) (s : Machine M H) :
    wp (callWith em callee steps tvector args timeout) (fun _ s' => Restored s s')
      (fun stop s' => stop ≠ .outOfSteps → Restored s s') s := by
  unfold callWith
  split
  · intro _
    exact ⟨Keeps.refl s, rfl⟩
  · exact preserving_restores (fun regs => frame_callBody hcallee steps tvector args timeout _ _) s

/-- The calls at any depth, by induction on it. -/
theorem call_restored (steps : Nat) (tvector : Int) (args : List Int) (timeout : Option Nat)
    (s : Machine M H) :
    wp (call em steps tvector args timeout) (fun _ s' => Restored s s')
      (fun stop s' => stop ≠ .outOfSteps → Restored s s') s := by
  induction steps generalizing tvector args timeout s with
  | zero => exact fun h => absurd rfl h
  | succ steps ih =>
    refine callWith_restores (fun inner tvector args timeout s _ => ?_) _ tvector args timeout s
    exact wp_mono (ih tvector args timeout s) (fun _ _ h => h.toKeeps)
      fun _ _ h hstop => (h hstop).toKeeps

/-- **`Guest.call` restores the caller.** Whether it returns or raises, every register is what it
was at entry and so is the list of active calls, and every handler started in between, at any depth,
had the descriptor of the innermost call in `r12`. -/
theorem call_restores (em : Emulator M H) (steps : Nat) (tvector : Int) (args : List Int)
    (timeout : Option Nat) (s : Machine M H) :
    wp (call em steps tvector args timeout)
      (fun _ s' => s'.world.regs = s.world.regs ∧ s'.callTvectors = s.callTvectors ∧
        ∃ new, s'.starts = s.starts ++ new ∧ ∀ start ∈ new, SawCaller start)
      (fun stop s' => ∀ e, stop = .raised e →
        s'.world.regs = s.world.regs ∧ s'.callTvectors = s.callTvectors ∧
        ∃ new, s'.starts = s.starts ++ new ∧ ∀ start ∈ new, SawCaller start) s := by
  refine wp_mono (call_restored steps tvector args timeout s) (fun _ s' h => ?_) ?_
  · exact ⟨h.regs, h.callTvectors, h.starts⟩
  · rintro _ s' h e rfl
    have hrestored := h (by simp)
    exact ⟨hrestored.regs, hrestored.callTvectors, hrestored.starts⟩

end Cwhost.Machine
