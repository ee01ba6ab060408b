import Mathlib.Data.List.Dedup
import Mathlib.Data.List.Infix

/-!
# Directory trees

A path is the list of its names from the innermost outwards: the directory of `name :: dir` is
`dir`, the root is `[]`, and the ancestors of a path are its suffixes. A `DirTree κ α β` gives the
entry at each path: attributes `α`, and the bytes `β` of a file or no content for a directory.
That the root is a directory, and that every entry stands in a directory, are fields, so a tree
with a dangling entry cannot be built.

* `put`, `remove`, `move`, `update`: the changes, each with the condition that keeps the fields.
* `mem_names`: the names of a directory.
* `has_put`, `has_remove`, `has_move`: what a change does to the set of entries.
-/

namespace Cwhost.Lib

/-- An entry of a directory. -/
structure Entry (α β : Type) where
  attrs : α
  /-- The content of a file; a directory has none. -/
  content : Option β

namespace Entry

variable {α β : Type}

/-- An entry without content is a directory. -/
def isDir (e : Entry α β) : Bool := e.content.isNone

end Entry

/-- A finite directory tree. -/
structure DirTree (κ α β : Type) where
  look : List κ → Option (Entry α β)
  /-- Paths among which all entries are. -/
  support : List (List κ)
  look_support : ∀ {p e}, look p = some e → p ∈ support
  look_root : ∃ e, look [] = some e ∧ e.isDir = true
  look_dir : ∀ {n d e}, look (n :: d) = some e → ∃ e', look d = some e' ∧ e'.isDir = true

namespace DirTree

variable {κ α β : Type}

/-- There is an entry at `p`. -/
def has (t : DirTree κ α β) (p : List κ) : Bool := (t.look p).isSome

/-- There is a directory at `p`. -/
def isDir (t : DirTree κ α β) (p : List κ) : Bool := (t.look p).any Entry.isDir

theorem isDir_iff {t : DirTree κ α β} {p : List κ} :
    t.isDir p = true ↔ ∃ e, t.look p = some e ∧ e.isDir = true := by
  rw [isDir, Option.any_eq_true_iff_get]
  constructor
  · rintro ⟨h, he⟩
    exact ⟨_, Option.some_get h |>.symm, he⟩
  · rintro ⟨e, he, hd⟩
    refine ⟨by rw [he]; rfl, ?_⟩
    simpa only [he, Option.get_some] using hd

theorem has_iff {t : DirTree κ α β} {p : List κ} : t.has p = true ↔ ∃ e, t.look p = some e :=
  Option.isSome_iff_exists

theorem has_of_isDir {t : DirTree κ α β} {p : List κ} (h : t.isDir p = true) : t.has p = true := by
  obtain ⟨e, he, -⟩ := isDir_iff.mp h
  exact has_iff.mpr ⟨e, he⟩

/-- An entry stands in a directory. -/
theorem isDir_of_has {t : DirTree κ α β} {n : κ} {d : List κ} (h : t.has (n :: d) = true) :
    t.isDir d = true := by
  obtain ⟨e, he⟩ := has_iff.mp h
  exact isDir_iff.mpr (t.look_dir he)

/-- The ancestors of an entry are there. -/
theorem has_of_suffix {t : DirTree κ α β} {p q : List κ} (hs : q <:+ p) (h : t.has p = true) :
    t.has q = true := by
  induction p with
  | nil =>
    rw [List.suffix_nil.mp hs]
    exact h
  | cons n d ih =>
    rcases List.suffix_cons_iff.mp hs with rfl | hs
    · exact h
    · exact ih hs (has_of_isDir (isDir_of_has h))

/-- The tree of its root directory alone. -/
def bare (attrs : α) : DirTree κ α β where
  look
    | [] => some ⟨attrs, none⟩
    | _ :: _ => none
  support := [[]]
  look_support {p _} h := by
    cases p with
    | nil => exact List.mem_singleton_self []
    | cons _ _ => cases h
  look_root := ⟨_, rfl, rfl⟩
  look_dir h := by cases h

section Decidable

variable [DecidableEq κ]

/-- The name that puts `p` into the directory `d`. -/
def nameIn (t : DirTree κ α β) (d : List κ) : List κ → Option κ
  | [] => none
  | n :: d' => if d' = d ∧ t.has (n :: d') = true then some n else none

theorem nameIn_eq_some_iff {t : DirTree κ α β} {d p : List κ} {n : κ} :
    t.nameIn d p = some n ↔ p = n :: d ∧ t.has p = true := by
  cases p with
  | nil => simp [nameIn]
  | cons m d' =>
    rw [nameIn]
    split
    · rename_i h
      rw [Option.some.injEq, List.cons.injEq]
      exact ⟨fun hm => ⟨⟨hm, h.1⟩, h.2⟩, fun hm => hm.1.1⟩
    · rename_i h
      constructor
      · intro hm
        cases hm
      · rintro ⟨hm, hp⟩
        exact absurd ⟨(List.cons.inj hm).2, hp⟩ h

/-- The names of the entries of `d`, each once. -/
def names (t : DirTree κ α β) (d : List κ) : List κ := (t.support.filterMap (t.nameIn d)).dedup

theorem nodup_names (t : DirTree κ α β) (d : List κ) : (t.names d).Nodup := List.nodup_dedup _

theorem mem_names {t : DirTree κ α β} {d : List κ} {n : κ} :
    n ∈ t.names d ↔ t.has (n :: d) = true := by
  rw [names, List.mem_dedup, List.mem_filterMap]
  constructor
  · rintro ⟨p, -, hp⟩
    obtain ⟨rfl, h⟩ := nameIn_eq_some_iff.mp hp
    exact h
  · intro h
    obtain ⟨e, he⟩ := has_iff.mp h
    exact ⟨_, t.look_support he, nameIn_eq_some_iff.mpr ⟨rfl, h⟩⟩

theorem names_eq_nil_iff {t : DirTree κ α β} {d : List κ} :
    t.names d = [] ↔ ∀ n, t.has (n :: d) = false := by
  rw [List.eq_nil_iff_forall_not_mem]
  exact forall_congr' fun n => by rw [mem_names, Bool.not_eq_true]

/-- Without a child there is nothing below. -/
theorem has_append_of_names_nil {t : DirTree κ α β} {d : List κ} (h : t.names d = []) :
    ∀ {r : List κ}, r ≠ [] → t.has (r ++ d) = false
  | [], hr => absurd rfl hr
  | [n], _ => names_eq_nil_iff.mp h n
  | n :: m :: r, _ => by
    have ih := has_append_of_names_nil h (List.cons_ne_nil m r)
    refine Bool.eq_false_iff.mpr fun hn => ?_
    have hm : t.has (m :: r ++ d) = true := has_of_isDir (isDir_of_has hn)
    exact absurd (hm.symm.trans ih) (by decide)

/-! ## Changes -/

/-- `e` may be written at `p`: into a directory, and not a file over a directory. -/
structure CanPut (t : DirTree κ α β) (p : List κ) (e : Entry α β) : Prop where
  ne_root : p ≠ []
  dir : t.isDir p.tail = true
  kind : t.isDir p = true → e.isDir = true

/-- Write the entry at `p`. -/
def put (t : DirTree κ α β) (p : List κ) (e : Entry α β) (h : t.CanPut p e) : DirTree κ α β where
  look q := if q = p then some e else t.look q
  support := p :: t.support
  look_support := by
    intro q e' hq
    split at hq
    · rename_i hqp
      exact hqp ▸ List.mem_cons_self
    · exact List.mem_cons_of_mem _ (t.look_support hq)
  look_root := by
    rw [if_neg (Ne.symm h.ne_root)]
    exact t.look_root
  look_dir := by
    intro n d e' hq
    have hd : t.isDir d = true := by
      split at hq
      · rename_i hqp
        have := h.dir
        rw [← hqp] at this
        exact this
      · exact isDir_iff.mpr (t.look_dir hq)
    split
    · rename_i hdp
      exact ⟨e, rfl, h.kind (hdp ▸ hd)⟩
    · exact isDir_iff.mp hd

/-- Remove the entry at `p`, which has no children. -/
def remove (t : DirTree κ α β) (p : List κ) (hp : p ≠ []) (h : t.names p = []) :
    DirTree κ α β where
  look q := if q = p then none else t.look q
  support := t.support
  look_support := by
    intro q e hq
    split at hq
    · cases hq
    · exact t.look_support hq
  look_root := by
    rw [if_neg (Ne.symm hp)]
    exact t.look_root
  look_dir := by
    intro n d e hq
    split at hq
    · cases hq
    · rw [if_neg]
      · exact t.look_dir hq
      · rintro rfl
        have := names_eq_nil_iff.mp h n
        rw [has_iff.mpr ⟨e, hq⟩] at this
        cases this

/-- `src` may move to `dst`: an entry, not onto itself or below itself, into a directory, and over
nothing that has children. -/
structure CanMove (t : DirTree κ α β) (src dst : List κ) : Prop where
  has_src : t.has src = true
  dir : t.isDir dst.tail = true
  not_below : ¬ src <:+ dst
  empty : t.names dst = []

theorem CanMove.dst_ne_root {t : DirTree κ α β} {src dst : List κ} (h : t.CanMove src dst) :
    dst ≠ [] := by
  rintro rfl
  cases src with
  | nil => exact h.not_below (List.suffix_refl _)
  | cons n d =>
    have hnil := names_eq_nil_iff.mp h.empty
    obtain ⟨q, m, hq⟩ := List.eq_nil_or_concat (n :: d) |>.resolve_left (List.cons_ne_nil n d)
    have hm : t.has [m] = true := has_of_suffix ⟨q, by rw [hq, List.concat_eq_append]⟩ h.has_src
    rw [hnil m] at hm
    cases hm

/-- What a path under `dst` was before the move. -/
def origin (src dst q : List κ) : List κ := q.take (q.length - dst.length) ++ src

omit [DecidableEq κ] in
@[simp] theorem origin_append (src dst r : List κ) : origin src dst (r ++ dst) = r ++ src := by
  rw [origin, List.length_append, Nat.add_sub_cancel, List.take_left']
  rfl

/-- The entries after the move. -/
def moved (t : DirTree κ α β) (src dst q : List κ) : Option (Entry α β) :=
  if dst <:+ q then t.look (origin src dst q) else if src <:+ q then none else t.look q

/-- Move `src`, with all that is below it, to `dst`. -/
def move (t : DirTree κ α β) (src dst : List κ) (h : t.CanMove src dst) : DirTree κ α β where
  look := t.moved src dst
  support := t.support ++ t.support.map fun p => p.take (p.length - src.length) ++ dst
  look_support := by
    intro q e hq
    rw [moved] at hq
    split at hq
    · rename_i hdst
      obtain ⟨r, rfl⟩ := hdst
      rw [origin_append] at hq
      refine List.mem_append_right _ (List.mem_map.mpr ⟨_, t.look_support hq, ?_⟩)
      rw [List.length_append, Nat.add_sub_cancel, List.take_left']
      rfl
    · split at hq
      · cases hq
      · exact List.mem_append_left _ (t.look_support hq)
  look_root := by
    have hdst : ¬ dst <:+ [] := fun hs => h.dst_ne_root (List.suffix_nil.mp hs)
    have hsrc : ¬ src <:+ [] := by
      intro hs
      exact h.not_below (List.suffix_nil.mp hs ▸ List.nil_suffix)
    rw [moved, if_neg hdst, if_neg hsrc]
    exact t.look_root
  look_dir := by
    intro n d e hq
    rw [moved] at hq
    split at hq
    · rename_i hdst
      rcases List.suffix_cons_iff.mp hdst with rfl | hd
      · have htail : t.isDir d = true := h.dir
        have hdst' : ¬ n :: d <:+ d := fun hs => by
          have := hs.length_le
          rw [List.length_cons] at this
          omega
        have hsrc' : ¬ src <:+ d := fun hs => h.not_below (hs.trans (List.suffix_cons n d))
        rw [moved, if_neg hdst', if_neg hsrc']
        exact isDir_iff.mp htail
      · obtain ⟨r, rfl⟩ := hd
        rw [← List.cons_append, origin_append, List.cons_append] at hq
        rw [moved, if_pos (List.suffix_append r dst), origin_append]
        exact t.look_dir hq
    · rename_i hdst
      split at hq
      · cases hq
      · rename_i hsrc
        have hdst' : ¬ dst <:+ d := fun hs => hdst (hs.trans (List.suffix_cons n d))
        have hsrc' : ¬ src <:+ d := fun hs => hsrc (hs.trans (List.suffix_cons n d))
        rw [moved, if_neg hdst', if_neg hsrc']
        exact t.look_dir hq

/-- Change the attributes of the entry at `p`, if there is one. -/
def setAttrs (t : DirTree κ α β) (p : List κ) (f : α → α) : DirTree κ α β where
  look q := if q = p then (t.look q).map fun e => { e with attrs := f e.attrs } else t.look q
  support := t.support
  look_support := by
    intro q e hq
    split at hq
    · obtain ⟨e', he', -⟩ := Option.map_eq_some_iff.mp hq
      exact t.look_support he'
    · exact t.look_support hq
  look_root := by
    obtain ⟨e, he, hd⟩ := t.look_root
    split
    · exact ⟨{ e with attrs := f e.attrs }, by rw [he]; rfl, hd⟩
    · exact ⟨e, he, hd⟩
  look_dir := by
    intro n d e hq
    have hd : ∃ e', t.look d = some e' ∧ e'.isDir = true := by
      split at hq
      · obtain ⟨e', he', -⟩ := Option.map_eq_some_iff.mp hq
        exact t.look_dir he'
      · exact t.look_dir hq
    obtain ⟨e', he', hd'⟩ := hd
    split
    · exact ⟨{ e' with attrs := f e'.attrs }, by rw [he']; rfl, hd'⟩
    · exact ⟨e', he', hd'⟩

/-! ## The entries after a change -/

theorem look_put {t : DirTree κ α β} {p : List κ} {e : Entry α β} (h : t.CanPut p e)
    (q : List κ) : (t.put p e h).look q = if q = p then some e else t.look q := rfl

theorem look_setAttrs (t : DirTree κ α β) (p : List κ) (f : α → α) (q : List κ) :
    (t.setAttrs p f).look q =
      if q = p then (t.look q).map fun e => { e with attrs := f e.attrs } else t.look q := rfl

theorem has_put {t : DirTree κ α β} {p : List κ} {e : Entry α β} (h : t.CanPut p e)
    (q : List κ) : (t.put p e h).has q = (decide (q = p) || t.has q) := by
  by_cases hq : q = p
  · simp [has, put, hq]
  · simp [has, put, hq]

theorem has_remove {t : DirTree κ α β} {p : List κ} (hp : p ≠ []) (h : t.names p = [])
    (q : List κ) : (t.remove p hp h).has q = (decide (q ≠ p) && t.has q) := by
  by_cases hq : q = p
  · simp [has, remove, hq]
  · simp [has, remove, hq]

/-- After a move the entries below `dst` are those that were below `src`, where there are none. -/
theorem has_move {t : DirTree κ α β} {src dst : List κ} (h : t.CanMove src dst) (q : List κ) :
    (t.move src dst h).has q =
      if dst <:+ q then t.has (origin src dst q) else !decide (src <:+ q) && t.has q := by
  show (t.moved src dst q).isSome = _
  rw [moved]
  split
  · rfl
  · by_cases hsrc : src <:+ q
    · simp [hsrc]
    · simp [hsrc, has]

@[simp] theorem has_setAttrs (t : DirTree κ α β) (p : List κ) (f : α → α) (q : List κ) :
    (t.setAttrs p f).has q = t.has q := by
  show (if q = p then _ else _ : Option _).isSome = _
  split
  · rw [Option.isSome_map]
    rfl
  · rfl

end Decidable

end DirTree

end Cwhost.Lib
