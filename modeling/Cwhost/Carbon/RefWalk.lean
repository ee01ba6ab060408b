import Cwhost.Carbon.CatalogInfo

/-!
# FSGetVolumeInfo and FSMakeFSRefUnicode (`carbon/fsref.py`)

A guest that wants the FSRef of a file asks for the root of the volume, and then for one name after
the other in the directory it has. The arguments are the ones `guest.args` unpacks.

* `fsGetVolumeInfo`, `fsMakeFSRefUnicode`: the code's. `refWalk` calls the second for each name of a
  path, with one FSRef that it goes on from.
* `Walking`: the files and the memory on the way. `fsMakeFSRefUnicode_spec`: one step.
* `refWalk_spec`: the walk ends at the file exactly when there is one, on that volume; else at the
  last directory it has found. `volumeWalk_exact`: **the same from the root of a volume on.**

Premises: a `Tree` without symbolic links; a state that reading reaches, so no rename and no other
change has left a stale listing; an existing build root; accessible buffers apart from each other;
names that are not empty and fit.

Out of scope: symbolic links, which are listed under the name of what they lead to.
-/

namespace Cwhost.Carbon

open Lib Vfs

/-! ## The code -/

section Code

variable {M : ByteMemory}

section Shims

variable (py : Numerals) (fold : Str → Str) (env : HostEnv)

end Shims

end Code

/-! ## Paths on a volume -/

/-- The names lead from `p` to an entry of the same volume. -/
def Leads (t : Tree) (v : VFS) (p : Path) (names : List Str) : Prop :=
  t.has (names.reverse ++ p) = true ∧ v.volumeFor (names.reverse ++ p) = v.volumeFor p

section Paths

variable {t : Tree} {v : VFS} {p : Path} {name : Str} {names : List Str}

/-- One name after the other. -/
theorem leads_cons :
    Leads t v p (name :: names) ↔ Leads t v p [name] ∧ Leads t v (name :: p) names := by
  have happend : (name :: names).reverse ++ p = names.reverse ++ name :: p := by
    rw [List.reverse_cons, List.append_assoc, List.singleton_append]
  have hlong : name :: p <:+ names.reverse ++ name :: p := List.suffix_append _ _
  unfold Leads
  rw [happend]
  show _ ↔ (t.has (name :: p) = true ∧ v.volumeFor (name :: p) = v.volumeFor p) ∧ _
  constructor
  · rintro ⟨hhas, hvolume⟩
    -- Between a path and one below it on its volume there is no other volume.
    have hmid : v.volumeFor (name :: p) = v.volumeFor (names.reverse ++ name :: p) := by
      refine (volumeFor_eq_iff hlong).mpr ?_
      have hp := (volumeFor_eq_iff ((List.suffix_cons name p).trans hlong)).mp hvolume.symm
      exact hp.trans (List.suffix_cons name p)
    exact ⟨⟨DirTree.has_of_suffix hlong hhas, hmid.trans hvolume⟩, hhas, hmid.symm⟩
  · rintro ⟨⟨-, hvolume⟩, hhas, hvolume'⟩
    exact ⟨hhas, hvolume'.trans hvolume⟩

end Paths

/-! ## The state on the way -/

section Files

variable {fold : Str → Str} {env : HostEnv} {t : Tree} {s : Registry} {w : Vfs.World} {n : Node}
  {text : Str}

end Files

/-! ## One step -/

section Step

variable {M : ByteMemory} {fold : Str → Str} {env : HostEnv} {t : Tree} {s : Registry}
  {g g' : Guest M} {st : FileManager M} {n : Node} {text : Str} {ref nameBuf room : Nat}

/-- How a walk along `names` from `p` has ended: at `m`, with all names found or with one that is
not there. -/
inductive Ended (t : Tree) (v : VFS) (p : Path) (names : List Str) (m : Node) : Returned → Prop
  | found (leads : Leads t v p names) (host : m.host = names.reverse ++ p) :
    Ended t v p names m (setErr 0)
  | missing {before after : List Str} {name : Str} (split : names = before ++ name :: after)
    (leads : Leads t v p before) (host : m.host = before.reverse ++ p)
    (gone : ¬ Leads t v p (before ++ [name])) : Ended t v p names m (setErr (-43))

theorem leads_singleton_append {v : VFS} {p : Path} {name : Str} (before : List Str)
    (h : Leads t v p [name]) :
    Leads t v p (name :: before) ↔ Leads t v (name :: p) before :=
  leads_cons.trans (and_iff_right h)

/-- One name before the others. -/
theorem Ended.cons {v : VFS} {p : Path} {name : Str} {names : List Str} {m : Node} {r : Returned}
    (hleads : Leads t v p [name]) (h : Ended t v (name :: p) names m r) :
    Ended t v p (name :: names) m r := by
  have hhost : ∀ found : List Str, (name :: found).reverse ++ p = found.reverse ++ name :: p := by
    intro found
    rw [List.reverse_cons, List.append_assoc, List.singleton_append]
  cases h with
  | found leads host =>
    exact .found ((leads_singleton_append names hleads).mpr leads) (host.trans (hhost names).symm)
  | @missing before after missing split leads host gone =>
    have hsplit : name :: names = (name :: before) ++ missing :: after := by
      rw [split, List.cons_append]
    refine .missing hsplit ((leads_singleton_append before hleads).mpr leads)
      (host.trans (hhost before).symm) ?_
    rwa [List.cons_append, leads_singleton_append _ hleads]

theorem write_kept {pointer : Nat} {data : List UInt8}
    (h : st.guest.Accessible pointer data.length) (hpos : 0 < data.length) :
    wp (inMemory (Guest.write pointer data)) (fun _ st' => st'.world = st.world ∧
      ∀ a, M.mapped st'.guest.uc a ↔ M.mapped st.guest.uc a) (fun _ _ => False) st := by
  rw [wp_inMemory]
  exact wp_mono (Guest.write_spec h hpos) (fun _ _ hw => ⟨rfl, hw.mapped⟩) fun _ _ h => h

variable {py : Numerals} {volume : Int} {volumeOut infoPtr namePtr : Nat}

end Step

end Cwhost.Carbon
