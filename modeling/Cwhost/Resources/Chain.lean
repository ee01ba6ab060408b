import Cwhost.Resources.Fork
import Cwhost.Vfs.Nodes

/-!
# The chain of open resource files (`resources.py`, `ResourceChain`)

Four pieces of state: the forks and the nodes by refnum, the refnums in opening order, and the
current one. A refnum is the smallest that is free, so it comes back after a close, and numeric
order says nothing about opening order.

* `Consistent`: the four pieces agree.
* `openedAt`: when a refnum was last handed out, read off the history of the calls.
* `History.run_inv`: along every run, `order` is the open files by opening time.
* `run_searches`: **every run keeps the chain consistent, and `get` finds the most recently opened
  file, among those opened no later than the current one, that has the resource.**
-/

namespace Cwhost.Resources

open Lib Vfs

/-- `ResourceChain`; `vfs` is the identity of its VFS. -/
structure ResourceChain where
  vfs : Nat
  files : Dict Nat ResourceFork
  nodes : Dict Nat Node
  order : List Nat
  current : Option Nat

/-- A method of `ResourceChain`. -/
abbrev ChainM := EStateM Exc ResourceChain

/-- `ResourceChain.__init__`. -/
def ResourceChain.init (vfs : Nat) : ResourceChain := ⟨vfs, .empty, .empty, [], none⟩

/-- The loop of `open` from `refnum` on. As many steps as there are files lead to a free one. -/
def freeRefnum (files : Dict Nat ResourceFork) : Nat → Nat → Nat
  | 0, refnum => refnum
  | steps + 1, refnum =>
    if refnum ∈ files.keys then freeRefnum files steps (refnum + 1) else refnum

/-- `ResourceChain.open`; `fork` is what the node's `resource_fork()` answers at this moment. -/
def open_ (node : Node) (fork : Except Exc (List UInt8)) : ChainM Nat := do
  let c ← get
  if node.vfs ≠ c.vfs then throw (.hostError "resource node belongs to another VFS")
  let refnum := freeRefnum c.files c.files.items.length 1
  let data ← MonadExcept.ofExcept fork
  let file ← MonadExcept.ofExcept (parse data)
  set { c with
    files := c.files.set refnum file
    nodes := c.nodes.set refnum node
    order := c.order ++ [refnum]
    current := some refnum }
  return refnum

namespace ResourceChain

variable (c : ResourceChain)

/-- `_check`. -/
def check (refnum : Int) : Except Exc ResourceFork :=
  match c.files.find? refnum with
  | some fork => return fork
  | none => throw (.hostError s!"unknown resource file {refnum}")

/-- `ResourceChain.get1`. -/
def get1 (resourceType : TypeCode) (resourceId : Int) : Except Exc (Option (List UInt8)) :=
  match c.current with
  | none => return none
  | some current => do
    let fork ← c.check current
    fork.get resourceType resourceId

/-- The refnums a search visits: the current file and those before it, backwards. -/
def searched (current : Nat) : Except Exc (List Nat) :=
  match c.order.idxOf? current with
  | some index => return (c.order.take (index + 1)).reverse
  | none => throw .valueError

/-- The loop of `get`. -/
def getFrom (resourceType : TypeCode) (resourceId : Int) :
    List Nat → Except Exc (Option (List UInt8))
  | [] => return none
  | refnum :: rest => do
    let fork ← c.check refnum
    match ← fork.get resourceType resourceId with
    | some payload => return some payload
    | none => getFrom resourceType resourceId rest

/-- `ResourceChain.get`. -/
def get (resourceType : TypeCode) (resourceId : Int) : Except Exc (Option (List UInt8)) :=
  match c.current with
  | none => return none
  | some current => do
    let refnums ← c.searched current
    c.getFrom resourceType resourceId refnums

/-- The loop of `get_ind_string`. -/
def indStringFrom (listId index : Int) : List Nat → Except Exc (List UInt8)
  | [] => throw (.hostError s!"missing STR# resource {listId}")
  | refnum :: rest => do
    let fork ← c.check refnum
    match ← fork.get (.bytes ResourceFork.strListCode) listId with
    | none => indStringFrom listId index rest
    | some _ => do
      let strings ← fork.strList listId
      match strings[(index - 1).toNat]? with
      | some string => return string
      | none => throw (.hostError s!"STR# {listId} has no string {index}")

/-- `ResourceChain.get_ind_string`. -/
def getIndString (listId index : Int) : Except Exc (List UInt8) :=
  if index < 1 then throw (.hostError s!"STR# index is 1-based, got {index}")
  else
    match c.current with
    | none => throw (.hostError "no current resource file")
    | some current => do
      let refnums ← c.searched current
      c.indStringFrom listId index refnums

end ResourceChain

/-- `ResourceChain.use`. -/
def use (refnum : Int) : ChainM Unit := do
  let c ← get
  discard (MonadExcept.ofExcept (c.check refnum))
  set { c with current := some refnum.toNat }

/-- `ResourceChain.close`. -/
def close (refnum : Int) : ChainM Unit := do
  let c ← get
  discard (MonadExcept.ofExcept (c.check refnum))
  let r := refnum.toNat
  set { c with files := c.files.erase r, nodes := c.nodes.erase r }
  if r ∉ c.order then throw .valueError
  modify fun c => { c with
    order := c.order.erase r
    current := (c.order.erase r).getLast? }

/-! ## Runs -/

/-- A call that changes the chain. -/
inductive ChainOp
  | open_ (node : Node) (fork : Except Exc (List UInt8))
  | use (refnum : Int)
  | close (refnum : Int)

/-- The call, and the refnum it hands out. -/
def perform : ChainOp → ChainM (Option Nat)
  | .open_ node fork => some <$> open_ node fork
  | .use refnum => do
    use refnum
    return none
  | .close refnum => do
    close refnum
    return none

/-- A chain, and what the calls so far have handed out, the last call first. -/
structure History where
  chain : ResourceChain
  handed : List (Option Nat)

/-- One call, whether it returns or raises. -/
def History.step (h : History) (op : ChainOp) : History :=
  match perform op h.chain with
  | .ok refnum c => ⟨c, refnum :: h.handed⟩
  | .error _ c => ⟨c, none :: h.handed⟩

/-- A run from the empty chain. -/
def History.run (vfs : Nat) (ops : List ChainOp) : History :=
  ops.foldl History.step ⟨.init vfs, []⟩

/-- The number of the last call that handed out `r`, 0 if there is none. -/
def openedAt : List (Option Nat) → Nat → Nat
  | [], _ => 0
  | refnum :: rest, r => if refnum = some r then rest.length + 1 else openedAt rest r

/-- The four pieces of state agree. -/
structure Consistent (c : ResourceChain) : Prop where
  nodup : c.order.Nodup
  files : ∀ r, r ∈ c.order ↔ r ∈ c.files.keys
  nodes : ∀ r, r ∈ c.order ↔ r ∈ c.nodes.keys
  current_none : c.current = none ↔ c.files.keys = []
  current_mem : ∀ r, c.current = some r → r ∈ c.order

/-- `order` lists the refnums by opening time. -/
def SortedBy (handed : List (Option Nat)) (order : List Nat) : Prop :=
  order.Pairwise fun a b => openedAt handed a < openedAt handed b

/-! ## One call -/

theorem freeRefnum_taken {files : Dict Nat ResourceFork} {steps refnum : Nat}
    (h : freeRefnum files steps refnum ∈ files.keys) :
    ∀ r, refnum ≤ r → r ≤ refnum + steps → r ∈ files.keys := by
  induction steps generalizing refnum with
  | zero =>
    intro r h1 h2
    have : r = refnum := by omega
    rwa [this]
  | succ steps ih =>
    unfold freeRefnum at h
    split at h
    · rename_i hmem
      intro r h1 h2
      by_cases hr : r = refnum
      · rwa [hr]
      · exact ih h r (by omega) (by omega)
    · rename_i hmem
      exact absurd h hmem

/-- **`open` finds a free refnum**: the files cannot take one more refnum than there are. -/
theorem freeRefnum_free (files : Dict Nat ResourceFork) :
    freeRefnum files files.items.length 1 ∉ files.keys := by
  intro h
  have htaken := freeRefnum_taken h
  have hsub : List.range' 1 (files.items.length + 1) ⊆ files.keys := by
    intro r hr
    rw [List.mem_range'_1] at hr
    exact htaken r (by omega) (by omega)
  have hlen := (List.subperm_of_subset List.nodup_range' hsub).length_le
  rw [List.length_range', Dict.keys, List.length_map] at hlen
  omega

/-- What a call that returns has done. -/
inductive Effect (c : ResourceChain) : Option Nat → ResourceChain → Prop
  | opened (node : Node) (file : ResourceFork) (r : Nat) (fresh : r ∉ c.files.keys) :
    Effect c (some r) { c with
      files := c.files.set r file
      nodes := c.nodes.set r node
      order := c.order ++ [r]
      current := some r }
  | used (r : Nat) (known : r ∈ c.files.keys) : Effect c none { c with current := some r }
  | closed (r : Nat) : Effect c none { c with
      files := c.files.erase r
      nodes := c.nodes.erase r
      order := c.order.erase r
      current := (c.order.erase r).getLast? }

/-- The exceptions of a call: its own are `HostError`; `resource_fork` may raise another. -/
def Raised (op : ChainOp) (e : Exc) : Prop :=
  e.isHostError = true ∨ ∃ node, op = .open_ node (.error e)

theorem check_cases (c : ResourceChain) (refnum : Int) :
    (∃ fork, c.check refnum = .ok fork ∧ refnum.toNat ∈ c.files.keys) ∨
      ∃ e, c.check refnum = .error e ∧ e.isHostError = true := by
  unfold ResourceChain.check
  cases h : c.files.find? refnum with
  | none => exact .inr ⟨_, rfl, rfl⟩
  | some fork =>
    have hget := (Dict.find?_eq_some h).1
    exact .inl ⟨fork, rfl, List.mem_map_of_mem (Dict.get?_eq_some_iff.mp hget)⟩

/-- **What one call does.** One that raises leaves the chain as it was. -/
theorem perform_effect {c : ResourceChain} (hc : Consistent c) (op : ChainOp) :
    wp (perform op) (Effect c) (fun e c' => c' = c ∧ Raised op e) c := by
  cases op with
  | open_ node fork =>
    simp only [perform, open_, wp_map, wp_bind, wp_get, wp_ite, wp_throw]
    refine ⟨fun _ => ⟨trivial, .inl rfl⟩, fun _ => ?_⟩
    refine wp_ofExcept (fun data _ => ?_) fun e he => ⟨rfl, .inr ⟨node, by rw [he]⟩⟩
    refine wp_ofExcept (fun file _ => ?_) fun e he => ⟨rfl, .inl (parse_raisesHost data e he)⟩
    exact .opened node file _ (freeRefnum_free c.files)
  | use refnum =>
    simp only [perform, use, wp_bind, wp_get, wp_discard]
    rcases check_cases c refnum with ⟨fork, hfork, hmem⟩ | ⟨e, he, hhost⟩
    · rw [hfork]
      exact .used _ hmem
    · rw [he]
      exact ⟨rfl, .inl hhost⟩
  | close refnum =>
    simp only [perform, close, wp_bind, wp_get, wp_discard]
    rcases check_cases c refnum with ⟨fork, hfork, hmem⟩ | ⟨e, he, hhost⟩
    · rw [hfork]
      -- The refnum is in `order` since it is a key of `files`.
      have horder : ¬ refnum.toNat ∉ c.order := not_not.mpr ((hc.files _).mpr hmem)
      simp only [wp_set, wp_ite, wp_bind, wp_modify]
      exact ⟨fun h => absurd h horder, fun _ => .closed _⟩
    · rw [he]
      exact ⟨rfl, .inl hhost⟩

/-! ## The invariant -/

theorem init_consistent (vfs : Nat) : Consistent (.init vfs) where
  nodup := List.nodup_nil
  files _ := Iff.rfl
  nodes _ := Iff.rfl
  current_none := Iff.intro (fun _ => rfl) fun _ => rfl
  current_mem r h := by cases h

theorem mem_keys_set {ν : Type} (d : Dict Nat ν) (k : Nat) (v : ν) (r : Nat) :
    r ∈ (d.set k v).keys ↔ r = k ∨ r ∈ d.keys := by
  rw [← not_iff_not, ← Dict.get?_eq_none_iff, Dict.get?_set, not_or, ← Dict.get?_eq_none_iff]
  by_cases hr : r = k
  · simp [hr]
  · simp [hr]

theorem mem_keys_erase {ν : Type} (d : Dict Nat ν) (k r : Nat) :
    r ∈ (d.erase k).keys ↔ r ≠ k ∧ r ∈ d.keys := by
  rw [← not_iff_not, ← Dict.get?_eq_none_iff, Dict.get?_erase, not_and, ← Dict.get?_eq_none_iff]
  by_cases hr : r = k
  · simp [hr]
  · simp [hr]

theorem check_cast {c : ResourceChain} {refnum : Int} {fork : ResourceFork}
    (h : c.check refnum = .ok fork) : (refnum.toNat : Int) = refnum := by
  unfold ResourceChain.check at h
  cases hfind : c.files.find? refnum with
  | none =>
    rw [hfind] at h
    cases h
  | some fork' => exact (Dict.find?_eq_some hfind).2

/-- **Which files are open** after a call that returns: also the one it hands out, and no longer the
one it closes. -/
theorem perform_keys (c : ResourceChain) (op : ChainOp) :
    wp (perform op) (fun result c' => ∀ r : Nat, r ∈ c'.files.keys ↔
      (result = some r ∨ r ∈ c.files.keys) ∧ op ≠ .close r) (fun _ _ => True) c := by
  cases op with
  | open_ node fork =>
    simp only [perform, open_, wp_map, wp_bind, wp_get, wp_ite, wp_throw]
    refine ⟨fun _ => trivial, fun _ => ?_⟩
    refine wp_ofExcept (fun data _ => ?_) fun _ _ => trivial
    refine wp_ofExcept (fun file _ r => ?_) fun _ _ => trivial
    rw [mem_keys_set, Option.some.injEq, eq_comm (a := r)]
    exact ⟨fun h => ⟨h, by simp⟩, fun h => h.1⟩
  | use refnum =>
    simp only [perform, use, wp_bind, wp_get, wp_discard]
    refine wp_ofExcept (fun fork _ r => ?_) fun _ _ => trivial
    exact ⟨fun h => ⟨.inr h, by simp⟩, fun h => h.1.resolve_left (by simp)⟩
  | close refnum =>
    simp only [perform, close, wp_bind, wp_get, wp_discard]
    refine wp_ofExcept (fun fork hfork => ?_) fun _ _ => trivial
    have hcast := check_cast hfork
    simp only [wp_set, wp_ite, wp_bind, wp_modify, wp_throw]
    refine ⟨fun _ => trivial, fun _ r => ?_⟩
    rw [mem_keys_erase, ne_eq, ne_eq, ChainOp.close.injEq]
    constructor
    · rintro ⟨hne, hr⟩
      exact ⟨.inr hr, by omega⟩
    · rintro ⟨hr, hne⟩
      exact ⟨by omega, hr.resolve_left (by simp)⟩

/-- **A call keeps the four pieces in agreement.** -/
theorem Effect.consistent {c c' : ResourceChain} {refnum : Option Nat} (hc : Consistent c)
    (h : Effect c refnum c') : Consistent c' := by
  cases h with
  | opened node file r fresh =>
    have hnew : r ∉ c.order := fun h => fresh ((hc.files r).mp h)
    refine ⟨?_, fun q => ?_, fun q => ?_, ?_, fun q hq => ?_⟩
    · exact List.nodup_append.mpr ⟨hc.nodup, List.nodup_singleton r, by
        rintro a ha b hb rfl
        exact hnew (List.mem_singleton.mp hb ▸ ha)⟩
    · rw [mem_keys_set, List.mem_append, List.mem_singleton, hc.files, or_comm]
    · rw [mem_keys_set, List.mem_append, List.mem_singleton, hc.nodes, or_comm]
    · have hmem : r ∈ (c.files.set r file).keys := (mem_keys_set _ _ _ _).mpr (.inl rfl)
      constructor
      · intro h
        cases h
      · intro h
        rw [h] at hmem
        exact absurd hmem List.not_mem_nil
    · cases hq
      exact List.mem_append_right _ (List.mem_singleton_self r)
  | used r known =>
    refine ⟨hc.nodup, hc.files, hc.nodes, ?_, fun q hq => ?_⟩
    · constructor
      · intro h
        cases h
      · intro h
        rw [h] at known
        exact absurd known List.not_mem_nil
    · cases hq
      exact (hc.files r).mpr known
  | closed r =>
    refine ⟨hc.nodup.erase r, fun q => ?_, fun q => ?_, ?_, fun q hq => ?_⟩
    · rw [mem_keys_erase, hc.nodup.mem_erase_iff, hc.files]
    · rw [mem_keys_erase, hc.nodup.mem_erase_iff, hc.nodes]
    · rw [List.getLast?_eq_none_iff, List.eq_nil_iff_forall_not_mem, List.eq_nil_iff_forall_not_mem]
      refine forall_congr' fun q => not_congr ?_
      rw [mem_keys_erase, hc.nodup.mem_erase_iff, hc.files]
    · exact List.mem_of_getLast? hq

theorem openedAt_le (handed : List (Option Nat)) (r : Nat) : openedAt handed r ≤ handed.length := by
  induction handed with
  | nil => exact Nat.le_refl 0
  | cons refnum rest ih =>
    unfold openedAt
    split
    · exact Nat.le_refl _
    · exact Nat.le_succ_of_le ih

/-- A call that hands out nothing changes no opening time. -/
theorem openedAt_none (handed : List (Option Nat)) :
    openedAt (none :: handed) = openedAt handed := by
  funext r
  rw [openedAt, if_neg (by simp)]

/-- **A call keeps `order` sorted by opening time.** -/
theorem Effect.sorted {c c' : ResourceChain} {refnum : Option Nat} {handed : List (Option Nat)}
    (hc : Consistent c) (hs : SortedBy handed c.order) (h : Effect c refnum c') :
    SortedBy (refnum :: handed) c'.order := by
  cases h with
  | opened node file r fresh =>
    have hold : ∀ a ∈ c.order, openedAt (some r :: handed) a = openedAt handed a := by
      intro a ha
      have hne : (some r : Option Nat) ≠ some a := by
        rintro heq
        cases heq
        exact fresh ((hc.files r).mp ha)
      rw [openedAt, if_neg hne]
    have hnew : openedAt (some r :: handed) r = handed.length + 1 := by
      rw [openedAt, if_pos rfl]
    refine List.pairwise_append.mpr ⟨?_, List.pairwise_singleton _ _, fun a ha b hb => ?_⟩
    · refine hs.imp_of_mem fun {a b} ha hb hab => ?_
      rw [hold a ha, hold b hb]
      exact hab
    · rw [List.mem_singleton.mp hb, hold a ha, hnew]
      exact Nat.lt_succ_of_le (openedAt_le handed a)
  | used r known =>
    unfold SortedBy
    rw [openedAt_none]
    exact hs
  | closed r =>
    unfold SortedBy
    rw [openedAt_none]
    exact List.Pairwise.sublist List.erase_sublist hs

/-- What holds along every run. -/
structure History.Inv (h : History) : Prop where
  consistent : Consistent h.chain
  sorted : SortedBy h.handed h.chain.order

theorem History.step_inv {h : History} (hi : h.Inv) (op : ChainOp) : (h.step op).Inv := by
  have heffect := perform_effect hi.consistent op
  unfold History.step
  cases hp : perform op h.chain with
  | ok refnum c =>
    have he := wp_of_ok heffect hp
    exact ⟨he.consistent hi.consistent, he.sorted hi.consistent hi.sorted⟩
  | error e c =>
    obtain ⟨rfl, -⟩ := wp_of_error heffect hp
    refine ⟨hi.consistent, ?_⟩
    unfold SortedBy
    rw [openedAt_none]
    exact hi.sorted

/-- **Every run** keeps the chain consistent and `order` sorted by opening time. -/
theorem History.run_inv (vfs : Nat) (ops : List ChainOp) : (History.run vfs ops).Inv := by
  have hall : ∀ h : History, h.Inv → (ops.foldl History.step h).Inv := by
    induction ops with
    | nil => exact fun h hi => hi
    | cons op ops ih => exact fun h hi => ih _ (History.step_inv hi op)
  exact hall _ ⟨init_consistent vfs, List.Pairwise.nil⟩

/-! ## The searches -/

/-- The payload an open file has for a resource. -/
def ResourceChain.payload? (c : ResourceChain) (code : List UInt8) (id : Int) (r : Nat) :
    Option (List UInt8) :=
  (c.files.get? r).bind fun fork => (fork.typed code).get? id

theorem check_of_mem {c : ResourceChain} {r : Nat} (h : r ∈ c.files.keys) :
    ∃ fork, c.files.get? r = some fork ∧ c.check r = .ok fork := by
  cases hget : c.files.get? r with
  | none => exact absurd h (Dict.get?_eq_none_iff.mp hget)
  | some fork =>
    refine ⟨fork, rfl, ?_⟩
    unfold ResourceChain.check
    rw [Dict.find?_natCast, hget]
    rfl

/-- **The loop of `get`** answers the first payload on its way. -/
theorem getFrom_eq {c : ResourceChain} {resourceType : TypeCode} {code : List UInt8}
    (hcode : typeBytes resourceType = .ok code) (id : Int) {refnums : List Nat}
    (hopen : ∀ r ∈ refnums, r ∈ c.files.keys) :
    c.getFrom resourceType id refnums = .ok (refnums.findSome? (c.payload? code id)) := by
  induction refnums with
  | nil => rfl
  | cons r rest ih =>
    obtain ⟨fork, hget, hcheck⟩ := check_of_mem (hopen r List.mem_cons_self)
    have hpay : c.payload? code id r = (fork.typed code).get? id := by
      rw [ResourceChain.payload?, hget]
      rfl
    rw [ResourceChain.getFrom, hcheck, List.findSome?_cons, hpay]
    show (fork.get resourceType id >>= _) = _
    rw [ResourceFork.get_of_typeBytes hcode]
    cases hfind : (fork.typed code).get? id with
    | some payload => rfl
    | none => exact ih fun q hq => hopen q (List.mem_cons_of_mem _ hq)

/-- In a list sorted by opening time, the files opened no later than `current` are those up to
its place. -/
theorem mem_searched {handed : List (Option Nat)} {order : List Nat} (hs : SortedBy handed order)
    {current index : Nat} (hindex : order.idxOf? current = some index) (r : Nat) :
    r ∈ (order.take (index + 1)).reverse ↔
      r ∈ order ∧ openedAt handed r ≤ openedAt handed current := by
  obtain ⟨hlt, hget, -⟩ := List.idxOf?_eq_some_iff.mp hindex
  have hcur : order[index] = current := hget
  have hsorted := List.pairwise_iff_getElem.mp hs
  rw [List.mem_reverse, List.mem_take_iff_getElem]
  constructor
  · rintro ⟨i, hi, rfl⟩
    refine ⟨List.getElem_mem _, ?_⟩
    rcases Nat.lt_or_ge i index with h | h
    · have := hsorted i index (by omega) hlt h
      rw [hcur] at this
      exact Nat.le_of_lt this
    · have : i = index := by omega
      subst this
      rw [hcur]
  · rintro ⟨hmem, hle⟩
    obtain ⟨i, hi, rfl⟩ := List.mem_iff_getElem.mp hmem
    refine ⟨i, ?_, rfl⟩
    by_contra hgt
    have := hsorted index i hlt hi (by omega)
    rw [hcur] at this
    omega

/-- The files a search may answer from. -/
def Searchable (h : History) (r : Nat) : Prop :=
  r ∈ h.chain.files.keys ∧
    ∃ current, h.chain.current = some current ∧ openedAt h.handed r ≤ openedAt h.handed current

/-- **What `get` is for**: the payload of the most recently opened of the searchable files that
has the resource. -/
def MostRecent (h : History) (code : List UInt8) (id : Int) : Option (List UInt8) → Prop
  | some payload => ∃ r, Searchable h r ∧ h.chain.payload? code id r = some payload ∧
      ∀ q, Searchable h q → openedAt h.handed r < openedAt h.handed q →
        h.chain.payload? code id q = none
  | none => ∀ r, Searchable h r → h.chain.payload? code id r = none

theorem findSome?_mostRecent {h : History} (hi : h.Inv) {current index : Nat}
    (hcur : h.chain.current = some current)
    (hindex : h.chain.order.idxOf? current = some index) (code : List UInt8) (id : Int) :
    MostRecent h code id
      ((h.chain.order.take (index + 1)).reverse.findSome? (h.chain.payload? code id)) := by
  have hmem : ∀ r, Searchable h r ↔ r ∈ (h.chain.order.take (index + 1)).reverse := by
    intro r
    rw [mem_searched hi.sorted hindex, hi.consistent.files]
    constructor
    · rintro ⟨hr, c, hc, hle⟩
      rw [hcur] at hc
      cases hc
      exact ⟨hr, hle⟩
    · rintro ⟨hr, hle⟩
      exact ⟨hr, current, hcur, hle⟩
  cases hfind : (h.chain.order.take (index + 1)).reverse.findSome? (h.chain.payload? code id) with
  | none =>
    intro r hr
    exact List.findSome?_eq_none_iff.mp hfind r ((hmem r).mp hr)
  | some payload =>
    obtain ⟨before, r, after, hsplit, hr, hbefore⟩ := List.findSome?_eq_some_iff.mp hfind
    have hback : (h.chain.order.take (index + 1)).reverse.Pairwise
        fun a b => openedAt h.handed b < openedAt h.handed a :=
      List.pairwise_reverse.mpr (hi.sorted.sublist (List.take_sublist _ _))
    rw [hsplit] at hback hmem
    refine ⟨r, (hmem r).mpr (by simp), hr, fun q hq hlt => ?_⟩
    rcases List.mem_append.mp ((hmem q).mp hq) with hq | hq
    · exact hbefore q hq
    · -- The files after `r` on the way were opened before it.
      rcases List.mem_cons.mp hq with rfl | hq
      · exact absurd hlt (Nat.lt_irrefl _)
      · have := List.rel_of_pairwise_cons (List.pairwise_append.mp hback).2.1 hq
        omega

/-- The search list of a consistent chain. -/
theorem searched_eq {c : ResourceChain} (hc : Consistent c) {current : Nat}
    (hcur : c.current = some current) :
    ∃ index, c.order.idxOf? current = some index ∧
      c.searched current = .ok (c.order.take (index + 1)).reverse ∧
      ∀ r ∈ (c.order.take (index + 1)).reverse, r ∈ c.files.keys := by
  cases hindex : c.order.idxOf? current with
  | none =>
    exact absurd (hc.current_mem current hcur) (List.idxOf?_eq_none_iff.mp hindex)
  | some index =>
    refine ⟨index, rfl, ?_, fun r hr => ?_⟩
    · rw [ResourceChain.searched, hindex]
      rfl
    · exact (hc.files r).mp (List.mem_of_mem_take (List.mem_reverse.mp hr))

/-- **`get` answers from the most recently opened file.** -/
theorem get_mostRecent {h : History} (hi : h.Inv) {resourceType : TypeCode} {code : List UInt8}
    (hcode : typeBytes resourceType = .ok code) (id : Int) :
    ∃ answer, h.chain.get resourceType id = .ok answer ∧ MostRecent h code id answer := by
  unfold ResourceChain.get
  cases hcur : h.chain.current with
  | none =>
    refine ⟨none, rfl, ?_⟩
    rintro r ⟨-, current, hsome, -⟩
    rw [hcur] at hsome
    cases hsome
  | some current =>
    obtain ⟨index, hindex, hsearched, hopen⟩ := searched_eq hi.consistent hcur
    refine ⟨_, ?_, findSome?_mostRecent hi hcur hindex code id⟩
    show (h.chain.searched current >>= _) = _
    rw [hsearched]
    exact getFrom_eq hcode id hopen

/-! ## String lists -/

/-- A string with its length byte. -/
def pascal (string : List UInt8) : List UInt8 := UInt8.ofNat string.length :: string

/-- The strings a `STR#` resource holds: a count, and the strings one after another. -/
structure StringList (payload : List UInt8) (strings : List (List UInt8)) : Prop where
  header : 2 ≤ payload.length
  count : strings.length = be payload 0 2
  short : ∀ string ∈ strings, string.length < 2 ^ 8
  consecutive : Sits payload 2 (strings.flatMap pascal)

theorem readStrings_sits {payload : List UInt8} {resourceId : Int} {count index position : Nat}
    {strings : List (List UInt8)}
    (h : ResourceFork.readStrings payload resourceId count index position = .ok strings) :
    strings.length = count ∧ (∀ string ∈ strings, string.length < 2 ^ 8) ∧
      Sits payload position (strings.flatMap pascal) := by
  induction count generalizing index position strings with
  | zero =>
    cases h
    exact ⟨rfl, by simp, List.nil_prefix⟩
  | succ count ih =>
    unfold ResourceFork.readStrings at h
    simp only at h
    split at h
    · cases h
    split at h
    · cases h
    obtain ⟨rest, hrest, h⟩ := bind_eq_ok h
    cases h
    rename_i hin hend
    obtain ⟨hlen, hshort, hsits⟩ := ih hrest
    have hbyte := (payload.getD position 0).toNat_lt
    have hstring : (slice payload (position + 1)
        (position + 1 + (payload.getD position 0).toNat)).length =
        (payload.getD position 0).toNat := by
      rw [slice, List.length_take, List.length_drop]
      omega
    refine ⟨by rw [List.length_cons, hlen], ?_, ?_⟩
    · intro string hmem
      rcases List.mem_cons.mp hmem with rfl | hmem
      · rw [hstring]
        exact hbyte
      · exact hshort string hmem
    · rw [List.flatMap_cons, Sits.append_iff]
      constructor
      · rw [pascal, hstring, UInt8.ofNat_toNat]
        refine ⟨(payload.drop (position + 1)).drop (payload.getD position 0).toNat, ?_⟩
        rw [slice, Nat.add_sub_cancel_left, List.cons_append, List.take_append_drop]
        rw [List.getD_eq_getElem?_getD, List.getElem?_eq_getElem (by omega), Option.getD_some,
          ← List.drop_eq_getElem_cons]
      · rw [pascal, List.length_cons, hstring]
        rwa [show position + 1 + (payload.getD position 0).toNat =
          position + ((payload.getD position 0).toNat + 1) by omega] at hsits

theorem strList_spec {fork : ResourceFork} {id : Int} {strings : List (List UInt8)}
    (h : fork.strList id = .ok strings) :
    ∃ payload, (fork.typed ResourceFork.strListCode).get? id = some payload ∧
      StringList payload strings := by
  unfold ResourceFork.strList at h
  obtain ⟨found, hfound, h⟩ := bind_eq_ok h
  rw [ResourceFork.get_of_typeBytes rfl, Except.ok.injEq] at hfound
  cases hget : (fork.typed ResourceFork.strListCode).get? id with
  | none =>
    rw [← hfound, hget] at h
    cases h
  | some payload =>
    rw [← hfound, hget] at h
    change (if payload.length < 2 then _ else _) = _ at h
    split at h
    · cases h
    · rename_i hlen
      obtain ⟨hcount, hshort, hsits⟩ := readStrings_sits h
      exact ⟨payload, rfl, by omega, hcount, hshort, hsits⟩

/-- **The loop of `get_ind_string`** stops where the loop of `get` does. -/
theorem indStringFrom_spec {c : ResourceChain} {listId index : Int} {refnums : List Nat}
    (hopen : ∀ r ∈ refnums, r ∈ c.files.keys) {string : List UInt8}
    (h : c.indStringFrom listId index refnums = .ok string) :
    ∃ payload strings,
      refnums.findSome? (c.payload? ResourceFork.strListCode listId) = some payload ∧
        StringList payload strings ∧ strings[(index - 1).toNat]? = some string := by
  induction refnums with
  | nil => cases h
  | cons r rest ih =>
    obtain ⟨fork, hget, hcheck⟩ := check_of_mem (hopen r List.mem_cons_self)
    have hpay : c.payload? ResourceFork.strListCode listId r =
        (fork.typed ResourceFork.strListCode).get? listId := by
      rw [ResourceChain.payload?, hget]
      rfl
    rw [ResourceChain.indStringFrom, hcheck] at h
    obtain ⟨fork', hfork, h⟩ := bind_eq_ok h
    cases hfork
    obtain ⟨found, hfound, h⟩ := bind_eq_ok h
    rw [ResourceFork.get_of_typeBytes rfl, Except.ok.injEq] at hfound
    rw [List.findSome?_cons, hpay]
    cases hfind : (fork.typed ResourceFork.strListCode).get? listId with
    | none =>
      rw [← hfound, hfind] at h
      exact ih (fun q hq => hopen q (List.mem_cons_of_mem _ hq)) h
    | some payload =>
      rw [← hfound, hfind] at h
      obtain ⟨strings, hstrings, h⟩ := bind_eq_ok h
      obtain ⟨payload', hget', hlist⟩ := strList_spec hstrings
      rw [hfind] at hget'
      cases hget'
      refine ⟨payload, strings, rfl, hlist, ?_⟩
      cases hat : strings[(index - 1).toNat]? with
      | none =>
        rw [hat] at h
        cases h
      | some string' =>
        rw [hat] at h
        cases h
        rfl

/-- **`get_ind_string` answers a string of the list that `get` finds.** -/
theorem getIndString_spec {h : History} (hi : h.Inv) {listId index : Int} {string : List UInt8}
    (hret : h.chain.getIndString listId index = .ok string) :
    1 ≤ index ∧ ∃ payload strings,
      h.chain.get (.bytes ResourceFork.strListCode) listId = .ok (some payload) ∧
        StringList payload strings ∧ strings[(index - 1).toNat]? = some string := by
  unfold ResourceChain.getIndString at hret
  split at hret
  · cases hret
  rename_i hindex
  refine ⟨by omega, ?_⟩
  cases hcur : h.chain.current with
  | none =>
    rw [hcur] at hret
    cases hret
  | some current =>
    rw [hcur] at hret
    obtain ⟨place, -, hsearched, hopen⟩ := searched_eq hi.consistent hcur
    change (h.chain.searched current >>= _) = _ at hret
    rw [hsearched] at hret
    obtain ⟨payload, strings, hfind, hlist, hat⟩ := indStringFrom_spec hopen hret
    refine ⟨payload, strings, ?_, hlist, hat⟩
    rw [ResourceChain.get, hcur]
    show (h.chain.searched current >>= _) = _
    rw [hsearched]
    show h.chain.getFrom _ _ _ = _
    rw [getFrom_eq rfl listId hopen, hfind]

/-! ## The result -/

/-- **The chain over all runs.** After any calls, whether they returned or raised, the four pieces
agree and `order` is sorted by opening time; a further call that raises changes nothing, and one
that opens a file hands out a refnum that is free; after one that returns the open files are those
that were open and the one it hands out, without the one it closes; `get` answers from the most
recently opened file up to the current one, and `get_ind_string` a string of the list `get` finds.
-/
theorem run_searches (vfs : Nat) (ops : List ChainOp) :
    (History.run vfs ops).Inv ∧
      (∀ op e c, perform op (History.run vfs ops).chain = .error e c →
        c = (History.run vfs ops).chain ∧ Raised op e) ∧
      (∀ op r c, perform op (History.run vfs ops).chain = .ok (some r) c →
        r ∉ (History.run vfs ops).chain.files.keys ∧ r ∈ c.files.keys) ∧
      (∀ op result c, perform op (History.run vfs ops).chain = .ok result c →
        ∀ r : Nat, r ∈ c.files.keys ↔
          (result = some r ∨ r ∈ (History.run vfs ops).chain.files.keys) ∧ op ≠ .close r) ∧
      (∀ resourceType code id, typeBytes resourceType = .ok code →
        ∃ answer, (History.run vfs ops).chain.get resourceType id = .ok answer ∧
          MostRecent (History.run vfs ops) code id answer) ∧
      ∀ listId index string,
        (History.run vfs ops).chain.getIndString listId index = .ok string →
          1 ≤ index ∧ ∃ payload strings,
            (History.run vfs ops).chain.get (.bytes ResourceFork.strListCode) listId =
                .ok (some payload) ∧
              StringList payload strings ∧ strings[(index - 1).toNat]? = some string := by
  have hi := History.run_inv vfs ops
  refine ⟨hi, fun op e c hp => ?_, fun op r c hp => ?_,
    fun op result c hp => wp_of_ok (perform_keys _ op) hp,
    fun resourceType code id hcode => get_mostRecent hi hcode id,
    fun listId index string hret => getIndString_spec hi hret⟩
  · have hraised := wp_of_error (perform_effect hi.consistent op) hp
    exact hraised
  · cases wp_of_ok (perform_effect hi.consistent op) hp with
    | opened node file r fresh => exact ⟨fresh, (mem_keys_set _ _ _ _).mpr (.inl rfl)⟩

end Cwhost.Resources
