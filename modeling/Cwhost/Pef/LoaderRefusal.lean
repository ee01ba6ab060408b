import Cwhost.Pef.LoaderRegions

/-!
# Loading into a memory that refuses

`asked` collects the ranges on a memory that grants everything. The emulator refuses a range that
meets a mapped one.

* `Lockstep`: on the refusing memory a computation does the same, or ends in the emulator's error
  where the ranges asked for are no longer apart. `lockstep_composes`: so does what is put together
  of such computations.
* `load_lockstep`, `load_fits`: **when the sizes fit, `load` maps all the ranges it asks for.**
-/

namespace Cwhost.Pef

open Lib

/-- The same guest on a memory that refuses what is mapped. -/
def refusing (g : Guest ByteMemory.granting) : Guest ByteMemory.paged :=
  ⟨(g.uc : ByteMemory.Paged)⟩

/-- The same end on that memory. -/
def refusingEnd {α : Type} : EStateM.Result Exc (Guest ByteMemory.granting) α →
    EStateM.Result Exc (Guest ByteMemory.paged) α
  | .ok a g => .ok a (refusing g)
  | .error e g => .error e (refusing g)

/-- `y` does what `x` does, up to the first range that is not clear of the others. -/
structure Lockstep {α : Type} (x : EStateM Exc (Guest ByteMemory.granting) α)
    (y : EStateM Exc (Guest ByteMemory.paged) α) : Prop where
  grows : ∀ g, ∃ l, requests (endState (x g)) = l ++ requests g
  run : ∀ g, y (refusing g) = refusingEnd (x g) ∨
    (∃ g', y (refusing g) = .error .ucError g') ∧ ¬ Apart (requests (endState (x g)))

namespace Lockstep

variable {α β : Type}

/-- A computation that does not look at the guest. -/
theorem of_const {x : EStateM Exc (Guest ByteMemory.granting) α}
    {y : EStateM Exc (Guest ByteMemory.paged) α} (hstate : ∀ g, endState (x g) = g)
    (hrun : ∀ g, y (refusing g) = refusingEnd (x g)) : Lockstep x y where
  grows g := ⟨[], by rw [hstate, List.nil_append]⟩
  run g := Or.inl (hrun g)

theorem pure (a : α) : Lockstep (Pure.pure a) (Pure.pure a) :=
  of_const (fun _ => rfl) fun _ => rfl

theorem throw (e : Exc) : Lockstep (α := α) (MonadExcept.throw e) (MonadExcept.throw e) := by
  constructor
  · exact fun _ => ⟨[], rfl⟩
  · exact fun _ => Or.inl rfl

theorem ofExcept (x : Except Exc α) :
    Lockstep (MonadExcept.ofExcept x) (MonadExcept.ofExcept x) := by
  cases x with
  | ok a => exact pure a
  | error e => exact of_const (fun _ => rfl) fun _ => rfl

theorem bind {x : EStateM Exc (Guest ByteMemory.granting) α}
    {y : EStateM Exc (Guest ByteMemory.paged) α}
    {f : α → EStateM Exc (Guest ByteMemory.granting) β}
    {h : α → EStateM Exc (Guest ByteMemory.paged) β} (hx : Lockstep x y)
    (hf : ∀ a, Lockstep (f a) (h a)) : Lockstep (x >>= f) (y >>= h) := by
  constructor
  · intro g
    obtain ⟨l, hl⟩ := hx.grows g
    cases hrun : x g with
    | error e g' =>
      rw [hrun] at hl
      rw [bind_of_error f hrun]
      exact ⟨l, hl⟩
    | ok a g' =>
      rw [hrun] at hl
      obtain ⟨l', hl'⟩ := (hf a).grows g'
      refine ⟨l' ++ l, ?_⟩
      rw [bind_of_ok hrun, hl', List.append_assoc]
      exact congrArg (l' ++ ·) hl
  · intro g
    rcases hx.run g with hsame | ⟨⟨g', herror⟩, hover⟩
    · cases hrun : x g with
      | error e g' =>
        rw [hrun] at hsame
        rw [bind_of_error f hrun, bind_of_error h hsame]
        exact Or.inl rfl
      | ok a g' =>
        rw [hrun] at hsame
        rw [bind_of_ok hrun, bind_of_ok hsame]
        exact (hf a).run g'
    · refine Or.inr ⟨⟨g', bind_of_error h herror⟩, fun happart => hover ?_⟩
      -- What was asked for before still was at the end.
      cases hrun : x g with
      | error e g₁ =>
        rw [bind_of_error f hrun] at happart
        exact happart
      | ok a g₁ =>
        rw [bind_of_ok hrun] at happart
        obtain ⟨l, hl⟩ := (hf a).grows g₁
        rw [hl] at happart
        exact happart.of_append

theorem write (addr : Nat) (data : List UInt8) :
    Lockstep (Guest.write addr data) (Guest.write addr data) := by
  constructor
  · intro g
    exact ⟨[], wp_endState (write_asks addr data g)⟩
  · intro g
    left
    have hrefusing : ByteMemory.paged.memWrite (refusing g).uc (addr % 2 ^ 32) data =
        ByteMemory.granting.memWrite g.uc (addr % 2 ^ 32) data := rfl
    simp only [Guest.write, bind_of_ok (get_eq _)]
    rw [hrefusing]
    cases ByteMemory.granting.memWrite g.uc (addr % 2 ^ 32) data with
    | none => rfl
    | some uc => rfl

/-- A range that is not free meets a region. -/
theorem not_apart_of_not_free {uc : ByteMemory.Paged} {a n : Nat} (h : uc.free a n = false) :
    ¬ Apart ((a, n) :: uc.regions) := by
  intro happart
  obtain ⟨r, hr, hmeets⟩ := List.all_eq_false.mp h
  have hclear := (List.pairwise_cons.mp happart.clear).1 r hr
  refine hmeets (decide_eq_true ?_)
  rcases hclear with h | h
  · exact Or.inr (Or.inr h)
  · exact Or.inr (Or.inl h)

theorem map (addr : Nat) {size : Nat} {perms : Str} (hsize : size ≠ 0)
    (hperms : perms ⊆ ['r', 'w', 'x']) :
    Lockstep (Guest.map addr size perms) (Guest.map addr size perms) := by
  constructor
  · intro g
    exact ⟨[pages addr size], wp_endState (wp_mono (map_asks hsize hperms g) (fun _ _ h => h)
      fun _ _ h => h.elim)⟩
  · intro g
    have hgranted : Guest.map addr size perms g =
        .ok () ⟨(⟨pages addr size :: requests g, g.uc.at_⟩ : ByteMemory.Paged)⟩ := by
      simp only [Guest.map, if_neg hsize, if_neg (not_not.mpr hperms)]
      rfl
    cases hfree : g.uc.free (pages addr size).1 (pages addr size).2 with
    | false =>
      have hmem : ByteMemory.paged.memMap (refusing g).uc (pages addr size).1
          (pages addr size).2 = none := by
        rw [← Bool.not_eq_true] at hfree
        exact if_neg hfree
      unfold pages at hmem
      refine Or.inr ⟨⟨refusing g, ?_⟩, ?_⟩
      · simp only [Guest.map, if_neg hsize, if_neg (not_not.mpr hperms), bind_of_ok (get_eq _)]
        rw [hmem]
        rfl
      · rw [hgranted]
        exact not_apart_of_not_free hfree
    | true =>
      have hmem : ByteMemory.paged.memMap (refusing g).uc (pages addr size).1
          (pages addr size).2 = some ⟨pages addr size :: requests g, g.uc.at_⟩ := if_pos hfree
      unfold pages at hmem
      refine Or.inl ?_
      rw [hgranted]
      simp only [Guest.map, if_neg hsize, if_neg (not_not.mpr hperms), bind_of_ok (get_eq _)]
      rw [hmem]
      rfl

end Lockstep

theorem lockstep_composes : Composes fun x y => Lockstep x y where
  pure := Lockstep.pure
  throw := Lockstep.throw
  ofExcept := Lockstep.ofExcept
  bind := Lockstep.bind
  write := Lockstep.write

/-! ## `load` -/

theorem loadSections_lockstep (p : PEF) (sections : List Section) :
    Lockstep (loadSections p sections) (loadSections p sections) := by
  induction sections with
  | nil => exact .pure _
  | cons s rest ih =>
    rw [loadSections, loadSections]
    by_cases hsize : s.totalSize = 0
    · rw [if_neg (not_not.mpr hsize), if_neg (not_not.mpr hsize)]
      exact ih
    · rw [if_pos hsize, if_pos hsize, mapImage, mapImage, if_pos hsize, if_pos hsize]
      refine .bind (.map _ hsize ?_) fun _ => .bind (.ofExcept _) fun _ => ?_
      · split <;> decide
      · exact .bind (.write _ _) fun _ => ih

/-- **`load` on a memory that refuses** does the same up to the first range that is not clear. -/
theorem load_lockstep (container : List UInt8) (imports : Dict Str Nat) :
    Lockstep (load container imports) (load container imports) := by
  rw [load, load]
  refine .bind (.ofExcept _) fun p => ?_
  have hone : max container.length 1 ≠ 0 := by omega
  have hdescriptors :
      Lockstep (mapDescriptors p.imports.length) (mapDescriptors p.imports.length) := by
    rw [mapDescriptors, mapDescriptors]
    by_cases hn : p.imports.length = 0
    · rw [if_neg (not_not.mpr hn), if_neg (not_not.mpr hn)]
      exact .pure _
    · rw [if_pos hn, if_pos hn]
      exact .map _ (Nat.mul_ne_zero hn (by decide)) (by decide)
  split
  case' h_1 => refine .bind (.throw _) fun _ => ?_
  all_goals
    refine .bind (loadSections_lockstep p _) fun _ => .bind (.map _ hone (by decide)) fun _ => ?_
    refine .bind (.write _ _) fun _ => .bind hdescriptors fun _ => ?_
    refine .bind (lockstep_composes.bindImports _ _ _ _) fun _ => ?_
    refine .bind (lockstep_composes.relocateSections _ _) fun _ => ?_
    refine .bind (lockstep_composes.protectSections _) fun _ => ?_
    exact .bind (.ofExcept _) fun _ => .pure _

/-- **When the sizes fit** the emulator refuses nothing: what is mapped is what was asked for. -/
theorem load_fits {p : PEF} {container : List UInt8} {imports : Dict Str Nat}
    (hinit : PEF.init container = .ok p) (hbound : missing p imports = [])
    (hfits : Fits p container.length) :
    load container imports (refusing sessionGuest) =
      refusingEnd (load container imports sessionGuest) := by
  rcases (load_lockstep container imports).run sessionGuest with h | ⟨-, hover⟩
  · exact h
  · exact absurd ((asked_apart hinit hbound).mpr ((places_fit hinit _).mpr hfits)) hover

end Cwhost.Pef
