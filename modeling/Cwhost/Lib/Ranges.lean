import Mathlib.Algebra.BigOperators.Group.Finset.Piecewise
import Mathlib.Algebra.GroupWithZero.Nat
import Mathlib.Data.List.Sort
import Mathlib.Order.Interval.Finset.Nat

/-!
# Lists of address ranges

A range `(start, size)` covers the addresses `start, …, start + size - 1`. A list of ranges is
`Separated` when its ranges have positive size, stand in address order and leave a gap between
neighbours. A separated list is a normal form for the set of addresses it covers.

* `Separated.ext`: two separated lists with the same covered addresses are equal.
* `insertRange_spec`: sorting a range into a separated list and merging what touches
  (`coalesce`) gives a separated list, with that range added to the covered addresses.
* `Separated.replace`, `carve_covers`: taking a part out of one range keeps the list separated
  and removes exactly that part.
* `sum_sizes`: the sizes add up to the number of covered addresses, with multiplicity.
-/

namespace Cwhost.Lib

/-- `(start, size)`. -/
abbrev Range := Nat × Nat

/-- `x` lies in the range. -/
def Has (r : Range) (x : Nat) : Prop := r.1 ≤ x ∧ x < r.1 + r.2

instance (r : Range) (x : Nat) : Decidable (Has r x) := inferInstanceAs (Decidable (_ ∧ _))

/-- `x` lies in some range of the list. -/
def Covers (l : List Range) (x : Nat) : Prop := ∃ r ∈ l, Has r x

instance (l : List Range) (x : Nat) : Decidable (Covers l x) :=
  inferInstanceAs (Decidable (∃ r ∈ l, Has r x))

/-- The number of ranges of the list that `x` lies in. -/
def hits (l : List Range) (x : Nat) : Nat := l.countP fun r => decide (Has r x)

/-- Positive ranges in address order, with a gap between any two. -/
structure Separated (l : List Range) : Prop where
  pos : ∀ r ∈ l, 0 < r.2
  gaps : l.Pairwise fun r s => r.1 + r.2 < s.1

theorem covers_nil (x : Nat) : ¬ Covers [] x := by
  rintro ⟨_, h, _⟩
  exact absurd h List.not_mem_nil

theorem covers_cons {r : Range} {l : List Range} {x : Nat} :
    Covers (r :: l) x ↔ Has r x ∨ Covers l x := by
  simp [Covers]

theorem covers_append {l₁ l₂ : List Range} {x : Nat} :
    Covers (l₁ ++ l₂) x ↔ Covers l₁ x ∨ Covers l₂ x := by
  simp only [Covers, List.mem_append, or_and_right, exists_or]

theorem separated_nil : Separated [] := ⟨fun _ h => absurd h List.not_mem_nil, List.Pairwise.nil⟩

theorem separated_cons {r : Range} {l : List Range} :
    Separated (r :: l) ↔ 0 < r.2 ∧ (∀ s ∈ l, r.1 + r.2 < s.1) ∧ Separated l := by
  constructor
  · rintro ⟨hp, hg⟩
    rw [List.pairwise_cons] at hg
    exact ⟨hp r List.mem_cons_self, hg.1, fun s hs => hp s (List.mem_cons_of_mem _ hs), hg.2⟩
  · rintro ⟨h0, h1, hp, hg⟩
    refine ⟨fun s hs => ?_, List.pairwise_cons.mpr ⟨h1, hg⟩⟩
    rcases List.mem_cons.mp hs with rfl | hs
    · exact h0
    · exact hp s hs

theorem separated_append {l₁ l₂ : List Range} :
    Separated (l₁ ++ l₂) ↔
      Separated l₁ ∧ Separated l₂ ∧ ∀ r ∈ l₁, ∀ s ∈ l₂, r.1 + r.2 < s.1 := by
  constructor
  · rintro ⟨hp, hg⟩
    obtain ⟨h1, h2, h3⟩ := List.pairwise_append.mp hg
    exact ⟨⟨fun r hr => hp r (List.mem_append_left _ hr), h1⟩,
      ⟨fun r hr => hp r (List.mem_append_right _ hr), h2⟩, h3⟩
  · rintro ⟨⟨p1, g1⟩, ⟨p2, g2⟩, h3⟩
    refine ⟨fun r hr => ?_, List.pairwise_append.mpr ⟨g1, g2, h3⟩⟩
    rcases List.mem_append.mp hr with hr | hr
    · exact p1 r hr
    · exact p2 r hr

/-! ## A separated list is determined by what it covers -/

/-- Nothing after the head is covered before the end of its gap. -/
theorem not_covers_of_le {l : List Range} {b x : Nat} (h : ∀ s ∈ l, b < s.1) (hx : x ≤ b) :
    ¬ Covers l x := by
  rintro ⟨s, hs, h1, -⟩
  have := h s hs
  omega

theorem covers_tail {r : Range} {l : List Range} (h : Separated (r :: l)) (x : Nat) :
    Covers l x ↔ Covers (r :: l) x ∧ r.1 + r.2 ≤ x := by
  obtain ⟨-, hlt, -⟩ := separated_cons.mp h
  rw [covers_cons]
  constructor
  · intro hc
    refine ⟨Or.inr hc, ?_⟩
    by_contra hx
    exact not_covers_of_le hlt (by omega) hc
  · rintro ⟨h1 | h1, hx⟩
    · exact absurd h1.2 (by omega)
    · exact h1

/-- **The normal form**: separated lists that cover the same addresses are equal. -/
theorem Separated.ext : ∀ {l₁ l₂ : List Range}, Separated l₁ → Separated l₂ →
    (∀ x, Covers l₁ x ↔ Covers l₂ x) → l₁ = l₂
  | [], [], _, _, _ => rfl
  | [], r :: l, _, h₂, h => by
    have hr : Covers (r :: l) r.1 :=
      ⟨r, List.mem_cons_self, le_refl _, by have := h₂.pos r List.mem_cons_self; omega⟩
    exact absurd ((h r.1).mpr hr) (covers_nil _)
  | r :: l, [], h₁, _, h => by
    have hr : Covers (r :: l) r.1 :=
      ⟨r, List.mem_cons_self, le_refl _, by have := h₁.pos r List.mem_cons_self; omega⟩
    exact absurd ((h r.1).mp hr) (covers_nil _)
  | r :: l, s :: m, h₁, h₂, h => by
    obtain ⟨hr, hrl, hl⟩ := separated_cons.mp h₁
    obtain ⟨hs, hsm, hm⟩ := separated_cons.mp h₂
    -- The first covered address is the first start on both sides.
    have hstart : ∀ {a b : Range} {k n : List Range}, 0 < a.2 → (∀ u ∈ n, b.1 + b.2 < u.1) →
        (Covers (a :: k) a.1 → Covers (b :: n) a.1) → b.1 ≤ a.1 := by
      intro a b k n ha hn hc
      rcases covers_cons.mp (hc ⟨a, List.mem_cons_self, le_refl _, by omega⟩) with
        h' | ⟨u, hu, h', -⟩
      · exact h'.1
      · have := hn u hu
        omega
    have e1 : r.1 = s.1 :=
      le_antisymm (hstart hs hrl (h s.1).mpr) (hstart hr hsm (h r.1).mp)
    -- The first uncovered address after it ends both heads.
    have hend : ∀ {a b : Range} {k n : List Range}, a.1 = b.1 → (∀ u ∈ k, a.1 + a.2 < u.1) →
        (Covers (b :: n) (a.1 + a.2) → Covers (a :: k) (a.1 + a.2)) → b.2 ≤ a.2 := by
      intro a b k n hab hk hc
      by_contra hlt
      rcases covers_cons.mp (hc ⟨b, List.mem_cons_self, by omega, by omega⟩) with h' | h'
      · exact absurd h'.2 (by omega)
      · exact not_covers_of_le hk (le_refl _) h'
    have e2 : r.2 = s.2 :=
      le_antisymm (hend e1.symm hsm (h _).mp) (hend e1 hrl (h _).mpr)
    have e : r = s := Prod.ext e1 e2
    subst e
    have htail : ∀ x, Covers l x ↔ Covers m x := fun x => by
      rw [covers_tail h₁, covers_tail h₂, h x]
    rw [Separated.ext hl hm htail]

/-- **A covered run lies in one range** of a separated list: the gaps are not covered. -/
theorem Separated.run_in_range {l : List Range} (hs : Separated l) {a n : Nat} (hn : 0 < n)
    (hrun : ∀ x, Has (a, n) x → Covers l x) : ∃ r ∈ l, r.1 ≤ a ∧ a + n ≤ r.1 + r.2 := by
  obtain ⟨r, hr, ha⟩ := hrun a ⟨le_refl a, Nat.lt_add_of_pos_right hn⟩
  refine ⟨r, hr, ha.1, ?_⟩
  by_contra hlt
  -- The first address after `r` would be covered by another range.
  have hend : Has (a, n) (r.1 + r.2) := ⟨le_of_lt ha.2, Nat.lt_of_not_le hlt⟩
  obtain ⟨s, hsl, hx⟩ := hrun _ hend
  have hne : r ≠ s := by
    rintro rfl
    exact absurd hx.2 (lt_irrefl _)
  have : Std.Symm fun r s : Range => r.1 + r.2 < s.1 ∨ s.1 + s.2 < r.1 := ⟨fun _ _ => Or.symm⟩
  have hapart : l.Pairwise fun r s => r.1 + r.2 < s.1 ∨ s.1 + s.2 < r.1 :=
    hs.gaps.imp Or.inl
  rcases hapart.forall hr hsl hne with h | h
  · exact absurd hx.1 (Nat.not_le.mpr h)
  · have := hx.2
    omega

/-! ## Merging a sorted list -/

/-- Add a range to a separated list whose starts are not above it: extend the last range when
the two touch or overlap, append otherwise. -/
def absorb (merged : List Range) (current : Range) : List Range :=
  match merged.getLast? with
  | some previous =>
    if current.1 ≤ previous.1 + previous.2 then
      merged.dropLast ++
        [(previous.1, max (previous.1 + previous.2) (current.1 + current.2) - previous.1)]
    else merged ++ [current]
  | none => merged ++ [current]

/-- Merge the touching ranges of a list sorted by start. -/
def coalesce (l : List Range) : List Range := l.foldl absorb []

theorem absorb_spec {merged : List Range} (hm : Separated merged) {c : Range} (hc : 0 < c.2)
    (hle : ∀ r ∈ merged, r.1 ≤ c.1) :
    Separated (absorb merged c) ∧ (∀ r ∈ absorb merged c, r.1 ≤ c.1) ∧
      ∀ x, Covers (absorb merged c) x ↔ Covers merged x ∨ Has c x := by
  rcases List.eq_nil_or_concat merged with rfl | ⟨l, p, rfl⟩
  · refine ⟨separated_cons.mpr ⟨hc, fun _ h => absurd h List.not_mem_nil, separated_nil⟩, ?_, ?_⟩
    · simp [absorb]
    · intro x
      simp [absorb, Covers]
  · rw [List.concat_eq_append] at hm hle ⊢
    obtain ⟨hl, hp, hlp⟩ := separated_append.mp hm
    have hp0 : 0 < p.2 := hp.pos p List.mem_cons_self
    have hpc : p.1 ≤ c.1 := hle p (List.mem_append_right _ List.mem_cons_self)
    have habs : absorb (l ++ [p]) c =
        if c.1 ≤ p.1 + p.2 then l ++ [(p.1, max (p.1 + p.2) (c.1 + c.2) - p.1)]
        else l ++ [p] ++ [c] := by
      unfold absorb
      rw [List.getLast?_append, List.dropLast_concat]
      rfl
    rw [habs]
    split
    · rename_i htouch
      refine ⟨separated_append.mpr ⟨hl, separated_cons.mpr ⟨by simp only; omega,
        fun _ h => absurd h List.not_mem_nil, separated_nil⟩, fun r hr s hs => ?_⟩,
        fun r hr => ?_, fun x => ?_⟩
      · rw [List.mem_singleton.mp hs]
        exact hlp r hr p List.mem_cons_self
      · rcases List.mem_append.mp hr with hr | hr
        · exact hle r (List.mem_append_left _ hr)
        · rw [List.mem_singleton.mp hr]
          exact hpc
      · rw [covers_append, covers_append, covers_cons, covers_cons, or_assoc]
        refine or_congr_right ?_
        simp only [Has, covers_nil, or_false]
        omega
    · rename_i hgap
      refine ⟨separated_append.mpr ⟨hm, separated_cons.mpr ⟨hc,
        fun _ h => absurd h List.not_mem_nil, separated_nil⟩, fun r hr s hs => ?_⟩,
        fun r hr => ?_, fun x => ?_⟩
      · rw [List.mem_singleton.mp hs]
        rcases List.mem_append.mp hr with hr | hr
        · have := hlp r hr p List.mem_cons_self
          omega
        · rw [List.mem_singleton.mp hr]
          omega
      · rcases List.mem_append.mp hr with hr | hr
        · exact hle r hr
        · rw [List.mem_singleton.mp hr]
      · rw [covers_append, covers_cons]
        simp only [covers_nil, or_false]

theorem foldl_absorb_spec (l : List Range) {acc : List Range} (ha : Separated acc)
    (hp : ∀ r ∈ l, 0 < r.2) (hs : l.Pairwise fun r s => r.1 ≤ s.1)
    (hle : ∀ r ∈ acc, ∀ s ∈ l, r.1 ≤ s.1) :
    Separated (l.foldl absorb acc) ∧
      ∀ x, Covers (l.foldl absorb acc) x ↔ Covers acc x ∨ Covers l x := by
  induction l generalizing acc with
  | nil => exact ⟨ha, fun x => by simp [Covers]⟩
  | cons c l ih =>
    rw [List.pairwise_cons] at hs
    obtain ⟨h1, h2, h3⟩ := absorb_spec ha (hp c List.mem_cons_self)
      fun r hr => hle r hr c List.mem_cons_self
    obtain ⟨h4, h5⟩ := ih h1 (fun r hr => hp r (List.mem_cons_of_mem _ hr)) hs.2
      fun r hr s hs' => (h2 r hr).trans (hs.1 s hs')
    refine ⟨h4, fun x => ?_⟩
    rw [List.foldl_cons, h5 x, h3 x, covers_cons, or_assoc]

/-- Merging a sorted list of positive ranges separates it and covers the same addresses. -/
theorem coalesce_spec {l : List Range} (hp : ∀ r ∈ l, 0 < r.2)
    (hs : l.Pairwise fun r s => r.1 ≤ s.1) :
    Separated (coalesce l) ∧ ∀ x, Covers (coalesce l) x ↔ Covers l x := by
  obtain ⟨h1, h2⟩ := foldl_absorb_spec l separated_nil hp hs fun _ h => absurd h List.not_mem_nil
  refine ⟨h1, fun x => ?_⟩
  rw [coalesce, h2 x]
  simp [covers_nil]

/-! ## Inserting a range -/

/-- Lexicographic order of `(start, size)` pairs. -/
def LexLE (r s : Range) : Prop := r.1 < s.1 ∨ (r.1 = s.1 ∧ r.2 ≤ s.2)

instance : DecidableRel LexLE := fun r s =>
  inferInstanceAs (Decidable (r.1 < s.1 ∨ (r.1 = s.1 ∧ r.2 ≤ s.2)))

instance : Std.Total LexLE := ⟨fun r s => by unfold LexLE; omega⟩

instance : IsTrans Range LexLE := ⟨fun r s t => by unfold LexLE; omega⟩

/-- Append a range, sort, and merge what touches. -/
def insertRange (l : List Range) (r : Range) : List Range :=
  coalesce ((l ++ [r]).insertionSort LexLE)

/-- **Inserting a range** keeps the list separated and adds the range to what it covers. -/
theorem insertRange_spec {l : List Range} (hl : Separated l) {r : Range} (hr : 0 < r.2) :
    Separated (insertRange l r) ∧ ∀ x, Covers (insertRange l r) x ↔ Covers l x ∨ Has r x := by
  have hperm : ((l ++ [r]).insertionSort LexLE).Perm (l ++ [r]) := List.perm_insertionSort _ _
  have hpos : ∀ s ∈ (l ++ [r]).insertionSort LexLE, 0 < s.2 := fun s hs => by
    rcases List.mem_append.mp (hperm.mem_iff.mp hs) with h | h
    · exact hl.pos s h
    · rw [List.mem_singleton.mp h]
      exact hr
  have hsort : ((l ++ [r]).insertionSort LexLE).Pairwise fun r s => r.1 ≤ s.1 :=
    (List.pairwise_insertionSort LexLE _).imp fun h => by unfold LexLE at h; omega
  obtain ⟨h1, h2⟩ := coalesce_spec hpos hsort
  refine ⟨h1, fun x => ?_⟩
  rw [insertRange, h2 x]
  simp only [Covers, hperm.mem_iff, List.mem_append, List.mem_singleton, or_and_right, exists_or,
    exists_eq_left]

/-! ## Taking a part out of a range -/

/-- Replacing one range by separated ranges inside it keeps the list separated. -/
theorem Separated.replace {pre post mid : List Range} {r : Range}
    (h : Separated (pre ++ r :: post)) (hmid : Separated mid)
    (hin : ∀ q ∈ mid, r.1 ≤ q.1 ∧ q.1 + q.2 ≤ r.1 + r.2) : Separated (pre ++ mid ++ post) := by
  obtain ⟨hpre, hrp, hlt⟩ := separated_append.mp h
  obtain ⟨-, hrpost, hpost⟩ := separated_cons.mp hrp
  refine separated_append.mpr ⟨separated_append.mpr ⟨hpre, hmid, fun a ha q hq => ?_⟩, hpost,
    fun a ha s hs => ?_⟩
  · have h1 := hlt a ha r List.mem_cons_self
    have h2 := hin q hq
    omega
  · rcases List.mem_append.mp ha with ha | ha
    · exact hlt a ha s (List.mem_cons_of_mem _ hs)
    · have h1 := hin a ha
      have h2 := hrpost s hs
      omega

/-- What is left of `(start, available)` without `amount` bytes from offset `lead` on. -/
def leftover (start available lead amount : Nat) : List Range :=
  (if lead ≠ 0 then [(start, lead)] else []) ++
    if available - lead - amount ≠ 0 then
      [(start + lead + amount, available - lead - amount)]
    else []

theorem leftover_spec (start : Nat) {available lead amount : Nat}
    (h : lead + amount ≤ available) (ha : 0 < amount) :
    Separated (leftover start available lead amount) ∧
      (∀ q ∈ leftover start available lead amount,
        start ≤ q.1 ∧ q.1 + q.2 ≤ start + available) ∧
      ∀ x, Covers (leftover start available lead amount) x ↔
        Has (start, available) x ∧ ¬ Has (start + lead, amount) x := by
  unfold leftover
  split <;> split <;>
    refine ⟨?_, ?_, fun x => ?_⟩ <;>
    simp only [List.nil_append, List.append_nil, List.cons_append, separated_cons, separated_nil,
      List.mem_cons, List.not_mem_nil, or_false, forall_eq_or_imp, forall_eq, covers_cons,
      covers_nil, Has, false_implies, implies_true, and_true, false_iff] <;>
    omega

/-- **Carving** `amount` bytes out of one range of a separated list. -/
theorem carve_spec {pre post : List Range} {start available lead amount : Nat}
    (hs : Separated (pre ++ (start, available) :: post)) (h : lead + amount ≤ available)
    (ha : 0 < amount) :
    Separated (pre ++ leftover start available lead amount ++ post) ∧
      ∀ x, Covers (pre ++ leftover start available lead amount ++ post) x ↔
        Covers (pre ++ (start, available) :: post) x ∧ ¬ Has (start + lead, amount) x := by
  obtain ⟨h1, h2, h3⟩ := leftover_spec start h ha
  refine ⟨hs.replace h1 h2, fun x => ?_⟩
  obtain ⟨-, hrp, hlt⟩ := separated_append.mp hs
  obtain ⟨-, hrpost, -⟩ := separated_cons.mp hrp
  simp only [covers_append, covers_cons, h3 x]
  -- Only the carved range meets the carved part.
  have hpre : Covers pre x → ¬ Has (start + lead, amount) x := by
    rintro ⟨a, ha', hax⟩ hx
    have := hlt a ha' _ List.mem_cons_self
    simp only [Has] at hax hx this
    omega
  have hpost : Covers post x → ¬ Has (start + lead, amount) x := by
    rintro ⟨a, ha', hax⟩ hx
    have := hrpost a ha'
    simp only [Has] at hax hx this
    omega
  tauto

/-! ## Counting -/

theorem hits_cons (r : Range) (l : List Range) (x : Nat) :
    hits (r :: l) x = hits l x + if Has r x then 1 else 0 := by
  simp only [hits, List.countP_cons, decide_eq_true_eq]

theorem hits_perm {l m : List Range} (h : l.Perm m) (x : Nat) : hits l x = hits m x :=
  h.countP_eq _

theorem hits_pos_iff {l : List Range} {x : Nat} : 0 < hits l x ↔ Covers l x := by
  simp [hits, Covers, List.countP_pos_iff]

/-- A separated list covers no address twice. -/
theorem Separated.hits_eq {l : List Range} (h : Separated l) (x : Nat) :
    hits l x = if Covers l x then 1 else 0 := by
  induction l with
  | nil => simp [hits, Covers]
  | cons r l ih =>
    obtain ⟨-, hlt, hl⟩ := separated_cons.mp h
    rw [hits_cons, ih hl]
    by_cases hr : Has r x
    · have hnot : ¬ Covers l x := not_covers_of_le hlt (by have := hr.2; omega)
      rw [if_neg hnot, if_pos hr, if_pos (covers_cons.mpr (Or.inl hr))]
    · rw [if_neg hr, Nat.add_zero]
      exact if_congr (by rw [covers_cons]; tauto) rfl rfl

/-- Ranges that share no address are pairwise disjoint. -/
theorem pairwise_disjoint_of_hits_le {l : List Range} (h : ∀ x, hits l x ≤ 1) :
    l.Pairwise fun r s => ∀ x, ¬ (Has r x ∧ Has s x) := by
  induction l with
  | nil => exact List.Pairwise.nil
  | cons r l ih =>
    refine List.pairwise_cons.mpr ⟨fun s hs x hx => ?_, ih fun x => ?_⟩
    · have h1 := h x
      have h2 : 0 < hits l x := hits_pos_iff.mpr ⟨s, hs, hx.2⟩
      rw [hits_cons, if_pos hx.1] at h1
      omega
    · have := h x
      rw [hits_cons] at this
      omega

open Finset in
/-- The sizes of ranges inside `[lo, hi)` add up to the hits of its addresses. -/
theorem sum_sizes {lo hi : Nat} {l : List Range} (h : ∀ r ∈ l, lo ≤ r.1 ∧ r.1 + r.2 ≤ hi) :
    (l.map Prod.snd).sum = ∑ x ∈ Ico lo hi, hits l x := by
  induction l with
  | nil => simp [hits]
  | cons r l ih =>
    have hr := h r List.mem_cons_self
    have hcard : ∑ x ∈ Ico lo hi, (if Has r x then 1 else 0) = r.2 := by
      rw [← card_filter]
      have : (Ico lo hi).filter (fun x => Has r x) = Ico r.1 (r.1 + r.2) := by
        ext x
        rw [Finset.mem_filter, Finset.mem_Ico, Finset.mem_Ico]
        unfold Has
        omega
      rw [this, Nat.card_Ico]
      omega
    simp only [List.map_cons, List.sum_cons, hits_cons, sum_add_distrib, hcard]
    rw [ih fun s hs => h s (List.mem_cons_of_mem _ hs), add_comm]

end Cwhost.Lib
