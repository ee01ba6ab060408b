import Cwhost.Lib.ByteMemory

/-!
# Adding to the words of a byte string

`addAt data off value` adds to the big-endian 32-bit word at `off`, modulo `2 ^ 32`. A list of
sites and a value for each site are the patches of a byte string, made one after the other; a word
may be patched many times.

* `addAt_comm`: patches of words that do not overlap commute, patches of one word add up.
* `patchAll_patchAll`: where no two sites overlap unless they are equal, **patching with some values
  and then with others is patching with the sums**.
* `patchAll_zero`: patching with zeros changes nothing.
-/

namespace Cwhost.Lib

/-- Add `value` to the big-endian word at `off`. -/
def addAt (data : List UInt8) (off : Nat) (value : Int) : List UInt8 :=
  data.take off ++ toBE 4 ((beNat ((data.drop off).take 4) + value) % 2 ^ 32).toNat ++
    data.drop (off + 4)

/-- Patch every site `(off, source)` in turn with the value `eval source`. -/
def patchAll {S : Type} (eval : S → Int) (sites : List (Nat × S)) (data : List UInt8) :
    List UInt8 :=
  sites.foldl (fun data site => addAt data site.1 (eval site.2)) data

/-- The bytes of a number are determined by it. -/
theorem toBE_beNat (bs : List UInt8) : toBE bs.length (beNat bs) = bs := by
  induction bs with
  | nil => rfl
  | cons b bs ih =>
    have hlt : beNat bs < 256 ^ bs.length := by
      rw [← ih, beNat_toBE, toBE_length]
      exact Nat.mod_lt _ (Nat.pow_pos (by decide))
    have hpos : 0 < 256 ^ bs.length := Nat.pow_pos (by decide)
    rw [List.length_cons, toBE, beNat_cons]
    have hdiv : (b.toNat * 256 ^ bs.length + beNat bs) / 256 ^ bs.length = b.toNat := by
      rw [Nat.add_comm, Nat.add_mul_div_right _ _ hpos, Nat.div_eq_of_lt hlt, Nat.zero_add]
    have hmod : ∀ w n m, toBE w (n * 256 ^ w + m) = toBE w m := by
      intro w n m
      induction w generalizing n with
      | zero => rfl
      | succ w ihw =>
        have hw : 0 < 256 ^ w := Nat.pow_pos (by decide)
        have hsplit : n * 256 ^ (w + 1) + m = n * 256 * 256 ^ w + m := by
          rw [Nat.pow_succ]
          ring
        rw [toBE, toBE, hsplit, ihw, Nat.add_comm, Nat.add_mul_div_right _ _ hw]
        congr 1
        apply UInt8.toNat_inj.mp
        simp only [UInt8.toNat_ofNat']
        omega
    rw [hdiv, hmod, ih, UInt8.ofNat_toNat]

/-! ## One patch -/

/-- A patch of the word between `a` and `b`. -/
theorem addAt_append {a w b : List UInt8} (hw : w.length = 4) (value : Int) :
    addAt (a ++ w ++ b) a.length value = a ++ toBE 4 ((beNat w + value) % 2 ^ 32).toNat ++ b := by
  have htake : (a ++ w ++ b).take a.length = a := by
    rw [List.append_assoc, List.take_left]
  have hword : ((a ++ w ++ b).drop a.length).take 4 = w := by
    rw [List.append_assoc, List.drop_left, List.take_left' hw]
  have hdrop : (a ++ w ++ b).drop (a.length + 4) = b :=
    List.drop_left' (by rw [List.length_append, hw])
  unfold addAt
  rw [htake, hword, hdrop]

/-- The parts of a byte string around one of its words. -/
theorem split_word {data : List UInt8} {off : Nat} (h : off + 4 ≤ data.length) :
    ∃ a w b, data = a ++ w ++ b ∧ a.length = off ∧ w.length = 4 := by
  refine ⟨data.take off, (data.drop off).take 4, data.drop (off + 4), ?_, ?_, ?_⟩
  · rw [List.append_assoc, ← List.drop_drop, List.take_append_drop, List.take_append_drop]
  · rw [List.length_take]
    omega
  · rw [List.length_take, List.length_drop]
    omega

@[simp] theorem addAt_length {data : List UInt8} {off : Nat} (h : off + 4 ≤ data.length)
    (value : Int) : (addAt data off value).length = data.length := by
  obtain ⟨a, w, b, rfl, rfl, hw⟩ := split_word h
  rw [addAt_append hw]
  simp [hw]

/-- **Two patches of one word** add up. -/
theorem addAt_addAt {data : List UInt8} {off : Nat} (h : off + 4 ≤ data.length) (x y : Int) :
    addAt (addAt data off x) off y = addAt data off (x + y) := by
  obtain ⟨a, w, b, rfl, rfl, hw⟩ := split_word h
  have hnonneg : 0 ≤ ((beNat w : Int) + x) % 2 ^ 32 := Int.emod_nonneg _ (by decide)
  have hlt : ((beNat w : Int) + x) % 2 ^ 32 < 2 ^ 32 := Int.emod_lt_of_pos _ (by decide)
  have hfit : (((beNat w : Int) + x) % 2 ^ 32).toNat < 256 ^ 4 := by omega
  rw [addAt_append hw, addAt_append (toBE_length 4 _), addAt_append hw, beNat_toBE_of_lt hfit,
    Int.toNat_of_nonneg hnonneg, Int.emod_add_emod, Int.add_assoc]

/-- A patch by zero. -/
theorem addAt_zero {data : List UInt8} {off : Nat} (h : off + 4 ≤ data.length) :
    addAt data off 0 = data := by
  obtain ⟨a, w, b, rfl, rfl, hw⟩ := split_word h
  have hword := toBE_beNat w
  rw [hw] at hword
  have hlt : beNat w < 256 ^ 4 := by
    rw [← hword, beNat_toBE]
    exact Nat.mod_lt _ (by decide)
  have hmod : ((beNat w : Int) + 0) % 2 ^ 32 = (beNat w : Int) := by
    rw [Int.add_zero]
    exact Int.emod_eq_of_lt (by omega) (by omega)
  rw [addAt_append hw, hmod, Int.toNat_natCast, hword]

theorem addAt_comm_of_le {data : List UInt8} {p q : Nat} (hpq : p + 4 ≤ q)
    (hq : q + 4 ≤ data.length) (x y : Int) :
    addAt (addAt data p x) q y = addAt (addAt data q y) p x := by
  obtain ⟨front, v, c, rfl, rfl, hv⟩ := split_word hq
  obtain ⟨a, w, b, rfl, rfl, hw⟩ := split_word hpq
  -- The string is `a ++ w ++ b ++ v ++ c`, with the two words `w` and `v`.
  have hp : ∀ rest, addAt (a ++ w ++ b ++ rest) a.length x =
      a ++ toBE 4 ((beNat w + x) % 2 ^ 32).toNat ++ b ++ rest := by
    intro rest
    rw [List.append_assoc _ b, addAt_append hw, ← List.append_assoc]
  have hlen : (a ++ w ++ b).length =
      (a ++ toBE 4 ((beNat w + x) % 2 ^ 32).toNat ++ b).length := by
    simp [hw]
  rw [addAt_append hv, List.append_assoc _ v, hp, List.append_assoc _ (toBE 4 _) c, hp,
    ← List.append_assoc, ← List.append_assoc, hlen, addAt_append hv]

/-- **Patches of words that do not overlap unless they are the same commute.** -/
theorem addAt_comm {data : List UInt8} {p q : Nat} (hpq : p = q ∨ p + 4 ≤ q ∨ q + 4 ≤ p)
    (hp : p + 4 ≤ data.length) (hq : q + 4 ≤ data.length) (x y : Int) :
    addAt (addAt data p x) q y = addAt (addAt data q y) p x := by
  rcases hpq with rfl | h | h
  · rw [addAt_addAt hp, addAt_addAt hp, Int.add_comm]
  · exact addAt_comm_of_le h hq x y
  · exact (addAt_comm_of_le h hp y x).symm

/-! ## Many patches -/

/-- The sites lie inside `size` bytes, and two of them overlap only where they are equal. -/
structure Apart {S : Type} (size : Nat) (sites : List (Nat × S)) : Prop where
  inside : ∀ p ∈ sites, p.1 + 4 ≤ size
  apart : ∀ p ∈ sites, ∀ q ∈ sites, p.1 = q.1 ∨ p.1 + 4 ≤ q.1 ∨ q.1 + 4 ≤ p.1

section

variable {S : Type} {size : Nat} {sites : List (Nat × S)} {data : List UInt8}

theorem Apart.tail {site : Nat × S} (h : Apart size (site :: sites)) : Apart size sites :=
  ⟨fun p hp => h.inside p (List.mem_cons_of_mem _ hp),
    fun p hp q hq => h.apart p (List.mem_cons_of_mem _ hp) q (List.mem_cons_of_mem _ hq)⟩

/-- A patch moves past the patches after it. -/
theorem addAt_patchAll {site : Nat × S} (h : Apart data.length (site :: sites)) (eval : S → Int)
    (value : Int) :
    addAt (patchAll eval sites data) site.1 value =
      patchAll eval sites (addAt data site.1 value) := by
  induction sites generalizing data with
  | nil => rfl
  | cons next sites ih =>
    have hsite := h.inside site List.mem_cons_self
    have hnext := h.inside next (List.mem_cons_of_mem _ List.mem_cons_self)
    have hcomm := addAt_comm (h.apart next (List.mem_cons_of_mem _ List.mem_cons_self) site
      List.mem_cons_self) hnext hsite (eval next.2) value
    have hrest : Apart (addAt data next.1 (eval next.2)).length (site :: sites) := by
      rw [addAt_length hnext]
      exact ⟨fun p hp => h.inside p (List.mem_cons.mpr ((List.mem_cons.mp hp).imp id
          (List.mem_cons_of_mem _))),
        fun p hp q hq => h.apart p (List.mem_cons.mpr ((List.mem_cons.mp hp).imp id
          (List.mem_cons_of_mem _))) q (List.mem_cons.mpr ((List.mem_cons.mp hq).imp id
          (List.mem_cons_of_mem _)))⟩
    show addAt (patchAll eval sites (addAt data next.1 (eval next.2))) site.1 value =
      patchAll eval sites (addAt (addAt data site.1 value) next.1 (eval next.2))
    rw [ih hrest, hcomm]

/-- **Patching twice is patching with the sums.** -/
theorem patchAll_patchAll (h : Apart data.length sites) {eval eval' sum : S → Int}
    (hsum : ∀ site ∈ sites, sum site.2 = eval site.2 + eval' site.2) :
    patchAll eval' sites (patchAll eval sites data) = patchAll sum sites data := by
  induction sites generalizing data with
  | nil => rfl
  | cons site sites ih =>
    have hin := h.inside site List.mem_cons_self
    have hfirst : Apart (addAt data site.1 (eval site.2)).length (site :: sites) := by
      rwa [addAt_length hin]
    have hboth : Apart (addAt data site.1 (sum site.2)).length sites := by
      rw [addAt_length hin]
      exact h.tail
    calc patchAll eval' (site :: sites) (patchAll eval (site :: sites) data)
        = patchAll eval' sites (addAt (patchAll eval sites (addAt data site.1 (eval site.2)))
            site.1 (eval' site.2)) := rfl
      _ = patchAll eval' sites (patchAll eval sites
            (addAt (addAt data site.1 (eval site.2)) site.1 (eval' site.2))) := by
          rw [addAt_patchAll hfirst]
      _ = patchAll eval' sites (patchAll eval sites (addAt data site.1 (sum site.2))) := by
          rw [addAt_addAt hin, hsum site List.mem_cons_self]
      _ = patchAll sum (site :: sites) data :=
          ih hboth fun p hp => hsum p (List.mem_cons_of_mem _ hp)

theorem patchAll_length (h : ∀ p ∈ sites, p.1 + 4 ≤ data.length) (eval : S → Int) :
    (patchAll eval sites data).length = data.length := by
  induction sites generalizing data with
  | nil => rfl
  | cons site sites ih =>
    have hin := h site List.mem_cons_self
    show (patchAll eval sites (addAt data site.1 (eval site.2))).length = _
    rw [ih fun p hp => by
      rw [addAt_length hin]
      exact h p (List.mem_cons_of_mem _ hp), addAt_length hin]

/-- **Patching is injective.** -/
theorem patchAll_injective {data' : List UInt8} (h : ∀ p ∈ sites, p.1 + 4 ≤ data.length)
    (hlen : data.length = data'.length) {eval : S → Int}
    (heq : patchAll eval sites data = patchAll eval sites data') : data = data' := by
  induction sites generalizing data data' with
  | nil => exact heq
  | cons site sites ih =>
    have hin := h site List.mem_cons_self
    have hin' := hin
    rw [hlen] at hin'
    have hstep : addAt data site.1 (eval site.2) = addAt data' site.1 (eval site.2) := by
      refine ih (fun p hp => ?_) ?_ heq
      · rw [addAt_length hin]
        exact h p (List.mem_cons_of_mem _ hp)
      · rw [addAt_length hin, addAt_length hin', hlen]
    rw [← addAt_zero hin, ← addAt_zero hin', ← Int.add_right_neg (eval site.2), ← addAt_addAt hin,
      ← addAt_addAt hin', hstep]

theorem patchAll_zero (h : ∀ p ∈ sites, p.1 + 4 ≤ data.length) {eval : S → Int}
    (hzero : ∀ site ∈ sites, eval site.2 = 0) : patchAll eval sites data = data := by
  induction sites generalizing data with
  | nil => rfl
  | cons site sites ih =>
    have hin := h site List.mem_cons_self
    show patchAll eval sites (addAt data site.1 (eval site.2)) = data
    rw [hzero site List.mem_cons_self, addAt_zero hin]
    exact ih (fun p hp => h p (List.mem_cons_of_mem _ hp))
      fun p hp => hzero p (List.mem_cons_of_mem _ hp)

end

end Cwhost.Lib
