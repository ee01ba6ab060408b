import Cwhost.Lib.ByteMemory

/-!
# Mapping and writing, one after the other

* `ByteMemory.Strict`: a memory that refuses to map what is mapped and to write where nothing is.
  `ByteMemory.paged` is one. `ByteMemory.granting` is not: it grants every mapping and keeps what it
  was asked for.
* `lastByte`: the byte that a list of writes leaves at an address, that of the last one to cover it.
* `Does.byte`: **after any sequence of mappings and writes a strict memory holds the last bytes
  written**, and where nothing was written what it held before.
* `Keeps`: mapping a range and writing inside it leaves everything else as it was.
-/

namespace Cwhost.Lib

namespace ByteMemory

/-- A memory without silent failures. -/
structure Strict (M : ByteMemory) : Prop where
  map_fresh : ∀ {s s' : M.State} {a n : Nat}, M.memMap s a n = some s' →
    ∀ x, a ≤ x → x < a + n → ¬ M.mapped s x
  write_backed : ∀ {s s' : M.State} {a : Nat} {bs : List UInt8}, M.memWrite s a bs = some s' →
    ∀ x, a ≤ x → x < a + bs.length → M.mapped s x

/-- A memory made of regions, and a byte for each address. -/
structure Paged where
  regions : List (Nat × Nat)
  at_ : Nat → UInt8

namespace Paged

/-- The address lies in a region. -/
def isMapped (s : Paged) (x : Nat) : Bool :=
  s.regions.any fun r => decide (r.1 ≤ x ∧ x < r.1 + r.2)

/-- Every address of `[a, a + n)` is mapped. -/
def covers (s : Paged) (a n : Nat) : Bool := (List.range n).all fun i => s.isMapped (a + i)

theorem covers_iff {s : Paged} {a n : Nat} :
    s.covers a n = true ↔ ∀ x, a ≤ x → x < a + n → s.isMapped x = true := by
  rw [covers, List.all_eq_true]
  constructor
  · intro h x h1 h2
    have hx := h (x - a) (List.mem_range.mpr (by omega))
    rwa [Nat.add_sub_cancel' h1] at hx
  · intro h i hi
    have hi := List.mem_range.mp hi
    exact h (a + i) (Nat.le_add_right a i) (by omega)

/-- The range meets no region. -/
def free (s : Paged) (a n : Nat) : Bool :=
  s.regions.all fun r => decide (r.2 = 0 ∨ r.1 + r.2 ≤ a ∨ a + n ≤ r.1)

end Paged

/-- The memory made of regions as a `ByteMemory`. -/
def paged : ByteMemory where
  State := Paged
  mapped s x := s.isMapped x = true
  byte s x := s.at_ x
  memMap s a n := if s.free a n then some { s with regions := (a, n) :: s.regions } else none
  memRead s a n :=
    if s.covers a n then some ((List.range n).map fun i => s.at_ (a + i)) else none
  memWrite s a bs :=
    if s.covers a bs.length then
      some { s with at_ := fun x => if a ≤ x then (bs[x - a]?).getD (s.at_ x) else s.at_ x }
    else none
  map_mapped {s s' a n} h x := by
    split at h
    · cases h
      simp only [Paged.isMapped, List.any_cons, Bool.or_eq_true, decide_eq_true_eq]
      exact Or.comm
    · cases h
  map_byte {s s' a n} h x _ := by
    split at h
    · cases h
      rfl
    · cases h
  read_mapped h := if_pos (Paged.covers_iff.mpr h)
  write_ok h := ⟨_, if_pos (Paged.covers_iff.mpr h)⟩
  write_mapped {s s' a bs} h x := by
    split at h
    · cases h
      exact Iff.rfl
    · cases h
  write_byte {s s' a bs} h x := by
    split at h
    · cases h
      rfl
    · cases h

/-- The memory that grants every mapping: its regions are the ranges it was asked for, the latest
first. -/
def granting : ByteMemory where
  State := Paged
  mapped s x := s.isMapped x = true
  byte s x := s.at_ x
  memMap s a n := some { s with regions := (a, n) :: s.regions }
  memRead := paged.memRead
  memWrite := paged.memWrite
  map_mapped {s s' a n} h x := by
    cases h
    simp only [Paged.isMapped, List.any_cons, Bool.or_eq_true, decide_eq_true_eq]
    exact Or.comm
  map_byte {s s' a n} h x _ := by
    cases h
    rfl
  read_mapped := paged.read_mapped
  write_ok := paged.write_ok
  write_mapped := paged.write_mapped
  write_byte := paged.write_byte

theorem paged_strict : paged.Strict where
  map_fresh {s s' a n} h x h1 h2 hx := by
    have h : (if Paged.free s a n then some _ else none) = some s' := h
    split at h
    · rename_i hfree
      obtain ⟨r, hr, hin⟩ := List.any_eq_true.mp hx
      have hin := of_decide_eq_true hin
      have hout := of_decide_eq_true (List.all_eq_true.mp hfree r hr)
      omega
    · cases h
  write_backed {s s' a bs} h := by
    have h : (if Paged.covers s a bs.length then some _ else none) = some s' := h
    split at h
    · rename_i hcovers
      exact Paged.covers_iff.mp hcovers
    · cases h

end ByteMemory

/-! ## The last byte written -/

/-- What one write has for the address. -/
def byteOf (w : Nat × List UInt8) (x : Nat) : Option UInt8 :=
  if w.1 ≤ x then w.2[x - w.1]? else none

/-- The byte of the last write that covers the address. -/
def lastByte : List (Nat × List UInt8) → Nat → Option UInt8
  | [], _ => none
  | w :: ws, x => (lastByte ws x).or (byteOf w x)

theorem byteOf_eq_none_iff {w : Nat × List UInt8} {x : Nat} :
    byteOf w x = none ↔ ¬ (w.1 ≤ x ∧ x < w.1 + w.2.length) := by
  unfold byteOf
  split
  · rw [List.getElem?_eq_none_iff]
    omega
  · simp only [true_iff]
    omega

theorem lastByte_append (ws ws' : List (Nat × List UInt8)) (x : Nat) :
    lastByte (ws ++ ws') x = (lastByte ws' x).or (lastByte ws x) := by
  induction ws with
  | nil => simp [lastByte]
  | cons w ws ih =>
    rw [List.cons_append, lastByte, lastByte, ih, Option.or_assoc]

/-- An address that some write covers has a last byte. -/
theorem lastByte_of_mem {ws : List (Nat × List UInt8)} {w : Nat × List UInt8} {x : Nat}
    (hw : w ∈ ws) (h1 : w.1 ≤ x) (h2 : x < w.1 + w.2.length) : ∃ b, lastByte ws x = some b := by
  induction ws with
  | nil => cases hw
  | cons w' ws ih =>
    rw [lastByte]
    cases hlast : lastByte ws x with
    | some b => exact ⟨b, rfl⟩
    | none =>
      rcases List.mem_cons.mp hw with rfl | hw
      · rw [Option.none_or, byteOf, if_pos h1]
        exact ⟨_, List.getElem?_eq_getElem (by omega)⟩
      · obtain ⟨b, hb⟩ := ih hw
        rw [hlast] at hb
        cases hb

/-- An address that no write covers has no last byte. -/
theorem lastByte_eq_none {ws : List (Nat × List UInt8)} {x : Nat}
    (h : ∀ w ∈ ws, ¬ (w.1 ≤ x ∧ x < w.1 + w.2.length)) : lastByte ws x = none := by
  induction ws with
  | nil => rfl
  | cons w ws ih =>
    rw [lastByte, ih fun w' hw' => h w' (List.mem_cons_of_mem _ hw'), Option.none_or,
      byteOf_eq_none_iff]
    exact h w List.mem_cons_self

/-- The byte of the one write that covers the address. -/
theorem lastByte_of_disjoint {ws : List (Nat × List UInt8)} {w : Nat × List UInt8} {x : Nat}
    (hw : w ∈ ws) (h : ∀ w' ∈ ws, w' ≠ w → ¬ (w'.1 ≤ x ∧ x < w'.1 + w'.2.length))
    (hx : w.1 ≤ x) : lastByte ws x = w.2[x - w.1]? := by
  induction ws with
  | nil => cases hw
  | cons w' ws ih =>
    have hrest := fun v hv => h v (List.mem_cons_of_mem _ hv)
    have hself : byteOf w x = w.2[x - w.1]? := if_pos hx
    rw [lastByte]
    by_cases hmem : w ∈ ws
    · rw [ih hmem hrest]
      by_cases heq : w' = w
      · rw [heq, hself, Option.or_self]
      · rw [byteOf_eq_none_iff.mpr (h w' List.mem_cons_self heq), Option.or_none]
    · rw [(List.mem_cons.mp hw).resolve_right hmem] at hself ⊢
      rw [lastByte_eq_none fun v hv => hrest v hv fun heq => hmem (heq ▸ hv), Option.none_or, hself]

/-! ## Mappings and writes -/

namespace ByteMemory

variable {M : ByteMemory}

/-- The contents of a range, byte by byte. -/
theorem bytes_eq_iff {s : M.State} {a n : Nat} {data : List UInt8} (hlen : data.length = n) :
    bytes s a n = data ↔ ∀ k, k < n → some (M.byte s (a + k)) = data[k]? := by
  have hget : ∀ k, k < n → (bytes s a n)[k]? = some (M.byte s (a + k)) := fun k hk => by
    rw [bytes, List.getElem?_map, List.getElem?_range hk]
    rfl
  constructor
  · rintro rfl k hk
    exact (hget k hk).symm
  · intro h
    refine List.ext_getElem? fun k => ?_
    by_cases hk : k < n
    · rw [hget k hk, h k hk]
    · rw [List.getElem?_eq_none (by rw [bytes_length]; omega), List.getElem?_eq_none (by omega)]

/-- `s'` is reached from `s` by mappings and the writes `ws`, in this order. -/
inductive Does (M : ByteMemory) : M.State → List (Nat × List UInt8) → M.State → Prop
  | refl (s : M.State) : Does M s [] s
  | map {s s₁ s' : M.State} {a n : Nat} {ws : List (Nat × List UInt8)} :
    M.memMap s a n = some s₁ → Does M s₁ ws s' → Does M s ws s'
  | write {s s₁ s' : M.State} {a : Nat} {bs : List UInt8} {ws : List (Nat × List UInt8)} :
    M.memWrite s a bs = some s₁ → Does M s₁ ws s' → Does M s ((a, bs) :: ws) s'

namespace Does

variable {s s₁ s' : M.State} {ws ws' : List (Nat × List UInt8)}

theorem trans (h : Does M s ws s₁) (h' : Does M s₁ ws' s') : Does M s (ws ++ ws') s' := by
  induction h with
  | refl _ => exact h'
  | map hm _ ih => exact .map hm (ih h')
  | write hw _ ih => exact .write hw (ih h')

theorem mapped (h : Does M s ws s') {x : Nat} (hx : M.mapped s x) : M.mapped s' x := by
  induction h with
  | refl _ => exact hx
  | map hm _ ih => exact ih ((M.map_mapped hm x).mpr (Or.inl hx))
  | write hw _ ih => exact ih ((M.write_mapped hw x).mpr hx)

/-- **What is in memory** after mappings and writes. -/
theorem byte (hM : M.Strict) (h : Does M s ws s') {x : Nat} :
    (∀ b, lastByte ws x = some b → M.mapped s' x ∧ M.byte s' x = b) ∧
      (M.mapped s x → lastByte ws x = none → M.byte s' x = M.byte s x) := by
  induction h with
  | refl _ =>
    refine ⟨fun b hb => ?_, fun _ _ => rfl⟩
    cases hb
  | map hm _ ih =>
    refine ⟨ih.1, fun hx hnone => ?_⟩
    rw [ih.2 ((M.map_mapped hm x).mpr (Or.inl hx)) hnone, M.map_byte hm x hx]
  | @write s s₁ s' a bs ws hw hrest ih =>
    have hkept : byteOf (a, bs) x = none → M.byte s₁ x = M.byte s x := fun hout =>
      byte_write_of_not_has hw (byteOf_eq_none_iff.mp hout)
    refine ⟨fun b hb => ?_, fun hx hnone => ?_⟩
    · rw [lastByte, Option.or_eq_some_iff] at hb
      rcases hb with hb | ⟨hnone, hb⟩
      · exact ih.1 b hb
      · have hin : a ≤ x ∧ x < a + bs.length := by
          by_contra hout
          rw [byteOf_eq_none_iff.mpr hout] at hb
          cases hb
        have hmapped := (M.write_mapped hw x).mpr (hM.write_backed hw x hin.1 hin.2)
        refine ⟨hrest.mapped hmapped, ?_⟩
        rw [byteOf, if_pos hin.1] at hb
        rw [ih.2 hmapped hnone, M.write_byte hw, if_pos hin.1, hb, Option.getD_some]
    · rw [lastByte, Option.or_eq_none_iff] at hnone
      rw [ih.2 ((M.write_mapped hw x).mpr hx) hnone.1, hkept hnone.2]

end Does

/-! ## What stays -/

/-- Everything that was mapped still is, with its bytes. -/
structure Keeps (M : ByteMemory) (s s' : M.State) : Prop where
  mapped : ∀ x, M.mapped s x → M.mapped s' x
  byte : ∀ x, M.mapped s x → M.byte s' x = M.byte s x

theorem Keeps.refl (s : M.State) : Keeps M s s := ⟨fun _ h => h, fun _ _ => rfl⟩

theorem Keeps.trans {s s₁ s' : M.State} (h : Keeps M s s₁) (h' : Keeps M s₁ s') : Keeps M s s' :=
  ⟨fun x hx => h'.mapped x (h.mapped x hx),
    fun x hx => (h'.byte x (h.mapped x hx)).trans (h.byte x hx)⟩

/-- **Mapping a range and writing inside it** keeps everything else. -/
theorem Does.keeps (hM : M.Strict) {s s₁ s' : M.State} {a n : Nat} {ws : List (Nat × List UInt8)}
    (hm : M.memMap s a n = some s₁) (h : Does M s₁ ws s')
    (hin : ∀ w ∈ ws, a ≤ w.1 ∧ w.1 + w.2.length ≤ a + n) : Keeps M s s' := by
  have hfree : ∀ x, M.mapped s x → lastByte ws x = none := fun x hx =>
    lastByte_eq_none fun w hw hcovers => by
      have := hin w hw
      exact hM.map_fresh hm x (by omega) (by omega) hx
  have hstill : ∀ x, M.mapped s x → M.mapped s₁ x := fun x hx =>
    (M.map_mapped hm x).mpr (Or.inl hx)
  refine ⟨fun x hx => h.mapped (hstill x hx), fun x hx => ?_⟩
  rw [(h.byte hM).2 (hstill x hx) (hfree x hx), M.map_byte hm x hx]

end ByteMemory

end Cwhost.Lib
