import Cwhost.Resources.Chain
import Cwhost.Resources.ForkLayout

/-!
# Closing another file (`resources.py`, `ResourceChain.close`)

`close` makes the last file of the opening order the current one, also when the file that was closed
is another than the current one. A caller that has selected an older file with `use` then searches
from a file it has not selected.

* `visited`, `source`: the files a search visits, and the one it answers from.
* `without_visited`: where the current file stays, a search visits the files it visited before,
  without the closed one.
* `close_kept_iff`: in every run, closing another file keeps the current one, and every answer that
  did not come from the closed file, **exactly when the current file is the most recently opened of
  those that stay**.
-/

namespace Cwhost.Resources

open Lib

namespace ResourceChain

/-- The refnums a search visits, in order. -/
def visited (c : ResourceChain) : List Nat :=
  match c.current with
  | none => []
  | some current => (c.order.take (c.order.idxOf current + 1)).reverse

/-- The file a search for the resource answers from. -/
def source (c : ResourceChain) (code : List UInt8) (id : Int) : Option Nat :=
  c.visited.find? fun r => (c.payload? code id r).isSome

/-- The chain after `close`. -/
def without (c : ResourceChain) (r : Nat) : ResourceChain :=
  { c with
    files := c.files.erase r
    nodes := c.nodes.erase r
    order := c.order.erase r
    current := (c.order.erase r).getLast? }

/-- What `get_ind_string` does with the file it has found. -/
def indStringAt (c : ResourceChain) (listId index : Int) (refnum : Nat) :
    Except Exc (List UInt8) := do
  let fork ← c.check refnum
  let strings ← fork.strList listId
  match strings[(index - 1).toNat]? with
  | some string => return string
  | none => throw (.hostError s!"STR# {listId} has no string {index}")

end ResourceChain

/-- After `c'` took the place of `c`: the current file is the same, and so is every answer that did
not come from the file `r`. -/
structure Kept (c c' : ResourceChain) (r : Nat) : Prop where
  current : c'.current = c.current
  get1 : ∀ resourceType id, c'.get1 resourceType id = c.get1 resourceType id
  get : ∀ resourceType id,
    (∀ code, typeBytes resourceType = .ok code → c.source code id ≠ some r) →
      c'.get resourceType id = c.get resourceType id
  getIndString : ∀ listId index,
    (1 ≤ index → c.source ResourceFork.strListCode listId ≠ some r) →
      c'.getIndString listId index = c.getIndString listId index

/-! ## Lists -/

/-- The part of a list up to an element, without another one. -/
theorem take_idxOf_erase {l : List Nat} {x r : Nat} (hx : x ∈ l) (hne : x ≠ r) :
    (l.erase r).take ((l.erase r).idxOf x + 1) = (l.take (l.idxOf x + 1)).erase r := by
  induction l with
  | nil => exact absurd hx List.not_mem_nil
  | cons a l ih =>
    by_cases hax : a = x
    · subst hax
      have herase : (a :: l).erase r = a :: l.erase r := List.erase_cons_tail (by simpa using hne)
      rw [herase, List.idxOf_cons_self, List.idxOf_cons_self]
      simp [hne]
    · have hxl : x ∈ l := (List.mem_cons.mp hx).resolve_left (Ne.symm hax)
      rw [List.idxOf_cons_ne l hax, List.take_succ_cons]
      by_cases har : a = r
      · subst har
        rw [List.erase_cons_head, List.erase_cons_head]
      · have hb : ¬ (a == r) = true := by simpa using har
        rw [List.erase_cons_tail hb, List.erase_cons_tail hb, List.idxOf_cons_ne _ hax,
          List.take_succ_cons, ih hxl]

/-- Dropping an element that a search does not answer changes no answer. -/
theorem find?_filter_ne {l : List Nat} {p p' : Nat → Bool} {r : Nat} (h : l.find? p ≠ some r)
    (hp' : ∀ q, q ≠ r → p' q = p q) : (l.filter fun q => q ≠ r).find? p' = l.find? p := by
  induction l with
  | nil => rfl
  | cons a l ih =>
    by_cases hp : p a
    · have har : a ≠ r := by
        rintro rfl
        exact h (List.find?_cons_of_pos hp)
      rw [List.filter_cons_of_pos (by simpa using har), List.find?_cons_of_pos hp,
        List.find?_cons_of_pos (by rwa [hp' a har])]
    · rw [List.find?_cons_of_neg hp] at h ⊢
      rw [← ih h]
      by_cases har : a = r
      · rw [List.filter_cons_of_neg (by simpa using har)]
      · rw [List.filter_cons_of_pos (by simpa using har),
          List.find?_cons_of_neg (by rwa [hp' a har])]

theorem findSome?_eq_find? {β : Type} (f : Nat → Option β) (l : List Nat) :
    l.findSome? f = (l.find? fun q => (f q).isSome).bind f := by
  induction l with
  | nil => rfl
  | cons a l ih =>
    cases hf : f a with
    | none =>
      rw [List.findSome?_cons, hf, List.find?_cons_of_neg (by simp [hf])]
      exact ih
    | some b => rw [List.findSome?_cons, hf, List.find?_cons_of_pos (by simp [hf]),
        Option.bind_some, hf]

/-- The last one of a list sorted by opening time. -/
theorem getLast?_eq_some_iff_latest {handed : List (Option Nat)} {l : List Nat} {x : Nat}
    (hs : SortedBy handed l) (hx : x ∈ l) :
    l.getLast? = some x ↔ ∀ q ∈ l, openedAt handed q ≤ openedAt handed x := by
  obtain ⟨front, last, rfl⟩ := List.eq_nil_or_concat' l |>.resolve_left (List.ne_nil_of_mem hx)
  rw [List.getLast?_concat, Option.some.injEq]
  have hlast : ∀ q ∈ front, openedAt handed q < openedAt handed last := fun q hq =>
    (List.pairwise_append.mp hs).2.2 q hq last (List.mem_singleton_self last)
  constructor
  · rintro rfl q hq
    rcases List.mem_append.mp hq with hq | hq
    · exact (hlast q hq).le
    · rw [List.mem_singleton.mp hq]
  · intro h
    rcases List.mem_append.mp hx with hfront | hx
    · have hle := h last (by simp)
      exact absurd (hlast x hfront) hle.not_gt
    · exact (List.mem_singleton.mp hx).symm

/-! ## The chain without a file -/

variable {c : ResourceChain} {r current : Nat}

theorem searched_visited (hc : Consistent c) (hcur : c.current = some current) :
    c.searched current = .ok c.visited ∧ ∀ q ∈ c.visited, q ∈ c.files.keys := by
  obtain ⟨index, hindex, hsearched, hopen⟩ := searched_eq hc hcur
  have hidx : c.order.idxOf current = index := by
    rw [List.idxOf_eq_getD_idxOf?, hindex, Option.getD_some]
  have hvisited : c.visited = (c.order.take (index + 1)).reverse := by
    rw [ResourceChain.visited, hcur, ← hidx]
  rw [hvisited]
  exact ⟨hsearched, hopen⟩

theorem close_eq (hc : Consistent c) (hr : r ∈ c.files.keys) :
    close (r : Int) c = .ok () (c.without r) := by
  obtain ⟨fork, -, hcheck⟩ := check_of_mem hr
  have horder : ¬ r ∉ c.order := not_not.mpr ((hc.files r).mpr hr)
  have hspec : wp (close (r : Int)) (fun _ c' => c' = c.without r) (fun _ _ => False) c := by
    simp only [close, wp_bind, wp_get, wp_discard, hcheck]
    simp only [wp_set, wp_ite, wp_bind, wp_modify, Int.toNat_natCast]
    exact ⟨fun h => absurd h horder, fun _ => rfl⟩
  obtain ⟨_, _, hclose, rfl⟩ := wp_exists_ok hspec
  exact hclose

theorem payload?_without (code : List UInt8) (id : Int) {q : Nat} (hq : q ≠ r) :
    (c.without r).payload? code id q = c.payload? code id q := by
  rw [ResourceChain.payload?, ResourceChain.payload?]
  exact congrArg (Option.bind · _) (Dict.get?_erase_of_ne c.files hq)

theorem check_without {q : Nat} (hq : q ≠ r) : (c.without r).check q = c.check q := by
  have hfind : (c.without r).files.find? (q : Int) = c.files.find? (q : Int) := by
    rw [Dict.find?_natCast, Dict.find?_natCast]
    exact Dict.get?_erase_of_ne c.files hq
  rw [ResourceChain.check, ResourceChain.check, hfind]

/-- **Where the current file stays**, a search visits the same files but the closed one. -/
theorem without_visited (hc : Consistent c) (hcur : c.current = some current) (hne : current ≠ r)
    (hstay : (c.without r).current = some current) :
    (c.without r).visited = c.visited.filter fun q => q ≠ r := by
  have hmem := hc.current_mem current hcur
  have hnodup : (c.order.take (c.order.idxOf current + 1)).Nodup :=
    hc.nodup.sublist (List.take_sublist _ _)
  rw [ResourceChain.visited, ResourceChain.visited, hstay, hcur]
  simp only
  rw [show (c.without r).order = c.order.erase r from rfl, take_idxOf_erase hmem hne,
    hnodup.erase_eq_filter, List.filter_reverse]
  exact congrArg List.reverse (List.filter_congr fun q _ => by rw [bne, beq_eq_decide, decide_not])

theorem without_consistent (hc : Consistent c) : Consistent (c.without r) :=
  (Effect.closed r).consistent hc

/-- A search visits the current file first. -/
theorem visited_head (hc : Consistent c) (hcur : c.current = some current) :
    c.visited.head? = some current := by
  have hmem := hc.current_mem current hcur
  have hlt := List.idxOf_lt_length_of_mem hmem
  rw [ResourceChain.visited, hcur]
  simp only
  rw [List.head?_reverse, List.getLast?_take, if_neg (by omega), Nat.add_sub_cancel,
    List.getElem?_eq_getElem hlt, List.getElem_idxOf]
  rfl

/-! ## The answers -/

/-- **What `get` answers**: the payload of the source. -/
theorem get_source (hc : Consistent c) {resourceType : TypeCode} {code : List UInt8}
    (hcode : typeBytes resourceType = .ok code) (id : Int) :
    c.get resourceType id = .ok ((c.source code id).bind (c.payload? code id)) := by
  rw [ResourceChain.get, ResourceChain.source]
  cases hcur : c.current with
  | none =>
    rw [ResourceChain.visited, hcur]
    rfl
  | some current =>
    obtain ⟨hsearched, hopen⟩ := searched_visited hc hcur
    rw [← findSome?_eq_find?, ← getFrom_eq hcode id hopen]
    show (c.searched current >>= _) = _
    rw [hsearched]
    rfl

/-- What `get` raises for a type that is none. -/
theorem get_error (hc : Consistent c) (hcur : c.current = some current) {resourceType : TypeCode}
    {e : Exc} (hcode : typeBytes resourceType = .error e) (id : Int) :
    c.get resourceType id = .error e := by
  obtain ⟨hsearched, hopen⟩ := searched_visited hc hcur
  have hhead := visited_head hc hcur
  rw [ResourceChain.get, hcur]
  show (c.searched current >>= _) = _
  rw [hsearched]
  cases hvisited : c.visited with
  | nil =>
    rw [hvisited] at hhead
    cases hhead
  | cons q rest =>
    rw [hvisited] at hopen
    obtain ⟨fork, -, hcheck⟩ := check_of_mem (hopen q List.mem_cons_self)
    show c.getFrom resourceType id (q :: rest) = _
    rw [ResourceChain.getFrom, hcheck]
    show (fork.get resourceType id >>= _) = _
    rw [ResourceFork.get, hcode]
    rfl

/-- The loop of `get_ind_string` works on the first file that has the list. -/
theorem indStringFrom_find (listId index : Int) {refnums : List Nat}
    (hopen : ∀ q ∈ refnums, q ∈ c.files.keys) :
    c.indStringFrom listId index refnums =
      match refnums.find? fun q => (c.payload? ResourceFork.strListCode listId q).isSome with
      | none => throw (.hostError s!"missing STR# resource {listId}")
      | some q => c.indStringAt listId index q := by
  induction refnums with
  | nil => rfl
  | cons q rest ih =>
    obtain ⟨fork, hget, hcheck⟩ := check_of_mem (hopen q List.mem_cons_self)
    have hpay : c.payload? ResourceFork.strListCode listId q =
        (fork.typed ResourceFork.strListCode).get? listId := by
      rw [ResourceChain.payload?, hget]
      rfl
    rw [ResourceChain.indStringFrom, hcheck]
    simp only [bind, Except.bind]
    rw [ResourceFork.get_of_typeBytes rfl]
    cases hfound : (fork.typed ResourceFork.strListCode).get? listId with
    | none =>
      rw [List.find?_cons_of_neg (by simp [hpay, hfound])]
      exact ih fun q hq => hopen q (List.mem_cons_of_mem _ hq)
    | some payload =>
      rw [List.find?_cons_of_pos (by simp [hpay, hfound])]
      simp only
      rw [ResourceChain.indStringAt, hcheck]
      rfl

/-- **What `get_ind_string` answers** is a matter of the source. -/
theorem getIndString_source (hc : Consistent c) (hcur : c.current = some current)
    {listId index : Int} (hindex : 1 ≤ index) :
    c.getIndString listId index =
      match c.source ResourceFork.strListCode listId with
      | none => throw (.hostError s!"missing STR# resource {listId}")
      | some q => c.indStringAt listId index q := by
  obtain ⟨hsearched, hopen⟩ := searched_visited hc hcur
  rw [ResourceChain.source, ← indStringFrom_find listId index hopen, ResourceChain.getIndString,
    if_neg (by omega), hcur]
  show (c.searched current >>= _) = _
  rw [hsearched]
  rfl

/-- The source of a resource that the closed file did not answer. -/
theorem source_without (hc : Consistent c) (hcur : c.current = some current) (hne : current ≠ r)
    (hstay : (c.without r).current = some current) {code : List UInt8} {id : Int}
    (h : c.source code id ≠ some r) : (c.without r).source code id = c.source code id := by
  rw [ResourceChain.source, without_visited hc hcur hne hstay]
  exact find?_filter_ne h fun q hq => by rw [payload?_without code id hq]

theorem indStringAt_without {listId index : Int} {q : Nat} (hq : q ≠ r) :
    (c.without r).indStringAt listId index q = c.indStringAt listId index q := by
  rw [ResourceChain.indStringAt, ResourceChain.indStringAt, check_without hq]

/-- **Where the current file stays**, so do the answers. -/
theorem kept_of_current (hc : Consistent c) (hcur : c.current = some current) (hne : current ≠ r)
    (hstay : (c.without r).current = some current) : Kept c (c.without r) r := by
  have hc' := without_consistent (r := r) hc
  refine ⟨by rw [hstay, hcur], fun resourceType id => ?_, fun resourceType id h => ?_,
    fun listId index h => ?_⟩
  · rw [ResourceChain.get1, ResourceChain.get1, hstay, hcur]
    simp only
    rw [check_without hne]
  · cases hcode : typeBytes resourceType with
    | error e => rw [get_error hc hcur hcode, get_error hc' hstay hcode]
    | ok code =>
      have hsource := h code hcode
      rw [get_source hc hcode, get_source hc' hcode, source_without hc hcur hne hstay hsource]
      cases hq : c.source code id with
      | none => rfl
      | some q =>
        have hqr : q ≠ r := fun heq => hsource (heq ▸ hq)
        rw [Option.bind_some, Option.bind_some, payload?_without code id hqr]
  · by_cases hindex : index < 1
    · rw [ResourceChain.getIndString, ResourceChain.getIndString, if_pos hindex, if_pos hindex]
    have hsource := h (by omega)
    rw [getIndString_source hc hcur (by omega), getIndString_source hc' hstay (by omega),
      source_without hc hcur hne hstay hsource]
    cases hq : c.source ResourceFork.strListCode listId with
    | none => rfl
    | some q =>
      have hqr : q ≠ r := fun heq => hsource (heq ▸ hq)
      exact indStringAt_without hqr

/-! ## The result -/

/-- The current file is the most recently opened of the files other than `r`. -/
def LatestOther (h : History) (r : Nat) : Prop :=
  ∃ current, h.chain.current = some current ∧
    ∀ q ∈ h.chain.files.keys, q ≠ r → openedAt h.handed q ≤ openedAt h.handed current

/-- **Closing another file**, in every run: the current file and the answers that did not come from
the closed one are kept exactly when the current file is the most recently opened of the others. -/
theorem close_kept_iff (vfs : Nat) (ops : List ChainOp) (r : Nat)
    (hopen : r ∈ (History.run vfs ops).chain.files.keys)
    (hother : (History.run vfs ops).chain.current ≠ some r) :
    wp (close (r : Int)) (fun _ c' => Kept (History.run vfs ops).chain c' r) (fun _ _ => False)
        (History.run vfs ops).chain ↔
      LatestOther (History.run vfs ops) r := by
  have hi := History.run_inv vfs ops
  generalize History.run vfs ops = h at hopen hother hi ⊢
  rw [wp_iff_of_ok (close_eq hi.consistent hopen)]
  cases hcur : h.chain.current with
  | none =>
    rw [hi.consistent.current_none.mp hcur] at hopen
    exact absurd hopen List.not_mem_nil
  | some current =>
    have hne : current ≠ r := fun heq => hother (by rw [hcur, heq])
    have hmem := hi.consistent.current_mem current hcur
    have hstays : (h.chain.without r).current = some current ↔ LatestOther h r := by
      have hsorted : SortedBy h.handed (h.chain.order.erase r) :=
        hi.sorted.sublist List.erase_sublist
      rw [show (h.chain.without r).current = (h.chain.order.erase r).getLast? from rfl,
        getLast?_eq_some_iff_latest hsorted (hi.consistent.nodup.mem_erase_iff.mpr ⟨hne, hmem⟩)]
      constructor
      · intro hall
        refine ⟨current, hcur, fun q hq hqr => hall q ?_⟩
        exact hi.consistent.nodup.mem_erase_iff.mpr ⟨hqr, (hi.consistent.files q).mpr hq⟩
      · rintro ⟨current', hcur', hall⟩ q hq
        rw [hcur] at hcur'
        cases hcur'
        have hq := hi.consistent.nodup.mem_erase_iff.mp hq
        exact hall q ((hi.consistent.files q).mp hq.2) hq.1
    rw [← hstays]
    constructor
    · intro hkept
      rw [hkept.current, hcur]
    · exact kept_of_current hi.consistent hcur hne

/-- A fork with the resource -3 of type `STR `. -/
def oneResource : List UInt8 :=
  [0, 0, 0, 16, 0, 0, 0, 22, 0, 0, 0, 6, 0, 0, 0, 52,
   0, 0, 0, 2, 7, 8,
   0, 0, 0, 16, 0, 0, 0, 22, 0, 0, 0, 6, 0, 0, 0, 52,
   0, 0, 0, 0, 0, 0, 0, 0, 0, 28, 0, 50,
   0, 0, 0x53, 0x54, 0x52, 0x20, 0, 0, 0, 10,
   0xFF, 0xFD, 0, 0, 0x20, 0, 0, 0, 0, 0, 0, 0,
   1, 0x41]

/-- Three files that hold the same fork are opened, and the first one is selected. -/
def threeOpened : List ChainOp :=
  let node : Vfs.Node := ⟨0, [['r']], .host, 0⟩
  [.open_ node (.ok oneResource), .open_ node (.ok oneResource),
    .open_ node (.ok oneResource), .use 1]

/-- Closing the second file makes the third one current. -/
theorem threeOpened_close :
    2 ∈ (History.run 0 threeOpened).chain.files.keys ∧
      (History.run 0 threeOpened).chain.current = some 1 ∧
      ¬ wp (close 2) (fun _ c' => Kept (History.run 0 threeOpened).chain c' 2)
        (fun _ _ => False) (History.run 0 threeOpened).chain := by
  have hopen : 2 ∈ (History.run 0 threeOpened).chain.files.keys := by decide
  have hlast : ((History.run 0 threeOpened).chain.without 2).current = some 3 := by decide
  have hcur : (History.run 0 threeOpened).chain.current = some 1 := by decide
  refine ⟨hopen, hcur, fun h => ?_⟩
  have hclose := close_eq (History.run_inv 0 threeOpened).consistent hopen
  have hkept := (wp_iff_of_ok hclose).mp h
  rw [hkept.current, hcur] at hlast
  cases hlast

/-- Two files are opened; the second one is the current one, and closing the first keeps it. -/
theorem close_kept_iff_two :
    wp (close 1)
        (fun _ c' => Kept (History.run 0 (threeOpened.take 2)).chain c' 1) (fun _ _ => False)
        (History.run 0 (threeOpened.take 2)).chain ↔
      LatestOther (History.run 0 (threeOpened.take 2)) 1 :=
  close_kept_iff 0 (threeOpened.take 2) 1 (by decide) (by decide)

end Cwhost.Resources
