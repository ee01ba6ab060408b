import Cwhost.Vfs.Addresses

/-!
# HFS paths one after the other (`vfs.py`, `VFS.resolve_hfs`)

The colons at the front of a relative path are counted, and each after the first is a step to the
parent; everywhere else a path is split at its colons and the empty parts are dropped. So a relative
path can be appended to the path of a directory when it starts with one colon
(`resolveHfs_append`): the further colons lose their meaning inside a path.
-/

namespace Cwhost.Vfs

open Lib

/-- The components of a text, the empty ones dropped. -/
def colonParts (text : Str) : List Str := (text.splitOn ':').filter fun part => decide (part ≠ [])

theorem colonParts_append (a b : Str) :
    colonParts (a ++ ':' :: b) = colonParts a ++ colonParts b := by
  unfold colonParts
  rw [List.splitOn_append_cons_self, List.filter_append]

theorem colonParts_colon (text : Str) : colonParts (':' :: text) = colonParts text :=
  colonParts_append [] text

@[simp] theorem leadingColons_colon (text : Str) :
    leadingColons (':' :: text) = leadingColons text + 1 := rfl

theorem leadingColons_of_ne {c : Char} (h : c ≠ ':') (text : Str) :
    leadingColons (c :: text) = 0 := by
  simp [leadingColons, h]

/-- Leading colons do not count among the components. -/
theorem colonParts_drop (text : Str) :
    colonParts (text.drop (leadingColons text)) = colonParts text := by
  induction text with
  | nil => rfl
  | cons c text ih =>
    by_cases hc : c = ':'
    · rw [hc, leadingColons_colon, List.drop_succ_cons, ih, colonParts_colon]
    · rw [leadingColons_of_ne hc, List.drop_zero]

theorem hfsComponents_relative {path : Str} (h : leadingColons path ≠ 0) :
    hfsComponents path = colonParts path := by
  unfold hfsComponents
  rw [if_neg h]
  exact colonParts_drop path

theorem leadingColons_eq_zero_iff {path : Str} :
    leadingColons path = 0 ↔ ∀ rest, path ≠ ':' :: rest := by
  cases path with
  | nil => simp [leadingColons]
  | cons c path =>
    by_cases hc : c = ':'
    · simp [hc]
    · simp [leadingColons_of_ne hc, hc]

/-- A relative path with its leading colons reduced to one. -/
def oneColon (path : Str) : Str := ':' :: path.drop (leadingColons path)

theorem leadingColons_oneColon (path : Str) : leadingColons (oneColon path) = 1 := by
  have hrest : leadingColons (path.drop (leadingColons path)) = 0 := by
    induction path with
    | nil => rfl
    | cons c path ih =>
      by_cases hc : c = ':'
      · rw [hc, leadingColons_colon, List.drop_succ_cons, ih]
      · rw [leadingColons_of_ne hc, List.drop_zero, leadingColons_of_ne hc]
  unfold oneColon
  rw [leadingColons_colon, hrest]

theorem oneColon_eq_self {path : Str} (h : leadingColons path = 1) : oneColon path = path := by
  unfold oneColon
  cases path with
  | nil => cases h
  | cons c path =>
    by_cases hc : c = ':'
    · rw [h, hc]
      rfl
    · rw [leadingColons_of_ne hc] at h
      cases h

theorem hfsComponents_oneColon (path : Str) : hfsComponents (oneColon path) = colonParts path := by
  rw [hfsComponents_relative (by rw [leadingColons_oneColon]; decide)]
  unfold oneColon
  rw [colonParts_colon, colonParts_drop]

/-- **An absolute path and a relative one**: the volume is that of the first, and the components
follow each other. -/
theorem hfsComponents_append {p q : Str} (hne : p ≠ []) (hp : leadingColons p = 0)
    (hq : leadingColons q ≠ 0) :
    leadingColons (p ++ q) = 0 ∧ hfsFirst (p ++ q) = hfsFirst p ∧
      hfsComponents (p ++ q) = hfsComponents p ++ colonParts q := by
  obtain ⟨rest, rfl⟩ : ∃ rest, q = ':' :: rest := by
    by_contra hno
    exact hq (leadingColons_eq_zero_iff.mpr fun rest heq => hno ⟨rest, heq⟩)
  have hzero : leadingColons (p ++ ':' :: rest) = 0 := by
    obtain ⟨c, p, rfl⟩ := List.exists_cons_of_ne_nil hne
    rw [leadingColons_eq_zero_iff] at hp ⊢
    intro tail heq
    rw [List.cons_append, List.cons.injEq] at heq
    exact hp p (heq.1 ▸ rfl)
  have hsplit : (p ++ ':' :: rest).splitOn ':' = p.splitOn ':' ++ rest.splitOn ':' :=
    List.splitOn_append_cons_self p rest
  obtain ⟨first, parts, hparts⟩ := List.exists_cons_of_ne_nil (List.splitOn_ne_nil ':' p)
  refine ⟨hzero, ?_, ?_⟩
  · unfold hfsFirst
    rw [hsplit, hparts]
    rfl
  · unfold hfsComponents
    rw [if_pos hzero, if_pos hp, hsplit, hparts, List.cons_append, List.tail_cons, List.tail_cons,
      List.filter_append, colonParts_colon]
    rfl

section Walks

variable {fold : Str → Str} {view : HostView} {s s' s₁ : Registry}

/-- A walk goes on where its first part ends. -/
theorem hfsWalk_append {rest rest' : List Str} {p q : Path}
    (h : s.hfsWalk fold view p rest = .found q) :
    s.hfsWalk fold view p (rest ++ rest') = s.hfsWalk fold view q rest' := by
  induction rest generalizing p with
  | nil =>
    cases h
    rfl
  | cons component rest ih =>
    rw [Registry.hfsWalk] at h
    rw [List.cons_append, Registry.hfsWalk]
    split
    · rw [if_pos ‹_›] at h
      exact ih h
    · rw [if_neg ‹_›] at h
      split
      · rw [if_pos ‹_›] at h
        cases habove : s.vfs.above p with
        | none =>
          rw [habove] at h
          cases h
        | some d =>
          rw [habove] at h
          exact ih h
      · rw [if_neg ‹_›] at h
        cases hfirst : s.first fold view p component with
        | none =>
          rw [hfirst] at h
          cases h
        | some d =>
          rw [hfirst] at h
          exact ih h

/-- Two paths of one meaning lead to one node, or nowhere. -/
theorem resolveHfs_same (hwf : s.vfs.WF fold) {path path' : Str} {cwd cwd' : Option Node}
    (hpath : path ≠ []) (hpath' : path' ≠ []) (hcwd : ∀ n, cwd = some n → s.vfs.Has n)
    (hcwd' : ∀ n, cwd' = some n → s.vfs.Has n)
    (hend : s.hfsEnd fold view path' (cwd'.map Node.host) =
      s.hfsEnd fold view path (cwd.map Node.host)) :
    okValue (resolveHfs fold view path' cwd' (endState (resolveHfs fold view path cwd s))) =
      okValue (resolveHfs fold view path cwd s) := by
  have hspec := @resolveHfs_spec fold view s hwf path cwd hpath hcwd
  have hreads : Reads fold view s (endState (resolveHfs fold view path cwd s)) :=
    wp_endState (wp_mono hspec (fun _ _ h => h.1) fun _ _ h => h.1)
  have hspec' := @resolveHfs_spec fold view _ hreads.wf path' cwd' hpath'
    fun n hn => hreads.has (hcwd' n hn)
  rw [hreads.hfsEnd, hend] at hspec'
  cases hrun : resolveHfs fold view path cwd s with
  | ok m s₁ =>
    rw [hrun] at hspec'
    obtain ⟨-, hm, hfound⟩ := wp_of_ok hspec hrun
    cases hrun' : resolveHfs fold view path' cwd' s₁ with
    | ok m' s₂ =>
      obtain ⟨hr, hm', hfound'⟩ := wp_of_ok hspec' hrun'
      rw [hfound] at hfound'
      have hhost : m'.host = m.host := (HfsEnd.found.inj (Option.some.inj hfound')).symm
      have heq : m' = m := eq_of_host hr.wf hm' (hr.has hm) hhost
      show okValue (resolveHfs fold view path' cwd' s₁) = some m
      rw [hrun', heq]
      rfl
    | error e s₂ =>
      obtain ⟨-, hnot, -⟩ := wp_of_error hspec' hrun'
      exact absurd hfound (hnot m.host)
  | error e s₁ =>
    rw [hrun] at hspec'
    obtain ⟨-, hnot, -⟩ := wp_of_error hspec hrun
    cases hrun' : resolveHfs fold view path' cwd' s₁ with
    | ok m' s₂ =>
      obtain ⟨-, -, hfound'⟩ := wp_of_ok hspec' hrun'
      exact absurd hfound' (hnot m'.host)
    | error e' s₂ =>
      show okValue (resolveHfs fold view path' cwd' s₁) = none
      rw [hrun']
      rfl

/-- A path that resolves without a current directory starts with a volume. -/
theorem resolveHfs_volume {p : Str} {d : Node} (h : resolveHfs fold view p none s = .ok d s₁)
    (hwf : s.vfs.WF fold) : p ≠ [] ∧ leadingColons p = 0 := by
  have hne : p ≠ [] := by
    rintro rfl
    cases h
  refine ⟨hne, ?_⟩
  by_contra hlead
  obtain ⟨-, -, hend⟩ := wp_of_ok
    (@resolveHfs_spec fold view s hwf p none hne fun _ h => nomatch h) h
  unfold Registry.hfsEnd VFS.hfsStart at hend
  rw [if_pos hlead] at hend
  cases hend

/-- The meaning of an absolute path with a relative one appended. -/
theorem hfsEnd_append {p q : Str} {d : Path} (hne : p ≠ []) (hp : leadingColons p = 0)
    (hq : leadingColons q ≠ 0) (hend : s.hfsEnd fold view p none = some (.found d)) :
    s.hfsEnd fold view (p ++ q) none = some (s.hfsWalk fold view d (colonParts q)) := by
  obtain ⟨hzero, hfirst, hcomponents⟩ := hfsComponents_append hne hp hq
  have hstart : s.vfs.hfsStart fold view (p ++ q) none = s.vfs.hfsStart fold view p none := by
    unfold VFS.hfsStart
    rw [if_neg (not_not.mpr hzero), if_neg (not_not.mpr hp), hfirst]
  unfold Registry.hfsEnd at hend ⊢
  obtain ⟨start, hs, hwalk⟩ := Option.map_eq_some_iff.mp hend
  rw [hstart, hs, Option.map_some, hcomponents, hfsWalk_append hwalk]

/-- The meaning of a relative path with one colon. -/
theorem hfsEnd_oneColon (q : Str) (d : Path) :
    s.hfsEnd fold view (oneColon q) (some d) = some (s.hfsWalk fold view d (colonParts q)) := by
  have hlead := leadingColons_oneColon q
  have hne : leadingColons (oneColon q) ≠ 0 := by omega
  unfold Registry.hfsEnd VFS.hfsStart
  rw [if_pos hne, hlead, hfsComponents_oneColon]
  rfl

end Walks

/-- **Appended paths.** Let an absolute path resolve to a directory. A path with leading colons
appended to it leads where the same path with one leading colon leads from that directory, to the
same node, or both raise. With one leading colon these are the two paths as they stand. -/
theorem resolveHfs_append {fold : Str → Str} {view : HostView} {s s₁ : Registry}
    (hwf : s.vfs.WF fold) {p q : Str} {d : Node}
    (hp : resolveHfs fold view p none s = .ok d s₁) (hq : leadingColons q ≠ 0) :
    okValue (resolveHfs fold view (oneColon q) (some d)
        (endState (resolveHfs fold view (p ++ q) none s₁))) =
      okValue (resolveHfs fold view (p ++ q) none s₁) ∧
    (leadingColons q = 1 → oneColon q = q) := by
  obtain ⟨hne, hlead⟩ := resolveHfs_volume hp hwf
  obtain ⟨hr, hd, hend⟩ := wp_of_ok
    (@resolveHfs_spec fold view s hwf p none hne fun _ h => nomatch h) hp
  have hend₁ : s₁.hfsEnd fold view p none = some (.found d.host) := by
    rw [hr.hfsEnd]
    exact hend
  refine ⟨resolveHfs_same hr.wf (List.append_ne_nil_of_left_ne_nil hne q) (List.cons_ne_nil _ _)
    (fun _ h => nomatch h) (fun n hn => ?_) ?_, oneColon_eq_self⟩
  · rw [← Option.some.inj hn]
    exact hd
  · rw [Option.map_some, Option.map_none, hfsEnd_oneColon, hfsEnd_append hne hlead hq hend₁]

/-- The path of the directory `d` of the build root `/p`. -/
def dirPath : Str := ['B', 'u', 'i', 'l', 'd', ':', 'd']

/-- The node of that directory. -/
def dirNode : Node := ⟨0, [['d'], ['p']], .build, 3⟩

/-- What resolving it leaves behind. -/
def dirRegistry : Registry :=
  endState (resolveHfs id (smallTree.view calm) dirPath none (.init .empty 0 [['p']]))

theorem dirPath_resolves : resolveHfs id (smallTree.view calm) dirPath none
    (.init .empty 0 [['p']]) = .ok dirNode dirRegistry := rfl

/-- One colon and a name. -/
theorem resolveHfs_append_name :
    okValue (resolveHfs id (smallTree.view calm) (oneColon [':', 's']) (some dirNode)
        (endState (resolveHfs id (smallTree.view calm) (dirPath ++ [':', 's']) none
          dirRegistry))) =
      okValue (resolveHfs id (smallTree.view calm) (dirPath ++ [':', 's']) none dirRegistry) ∧
    (leadingColons [':', 's'] = 1 → oneColon [':', 's'] = [':', 's']) :=
  resolveHfs_append (init_spec id .empty 0 [['p']]).2 dirPath_resolves (by decide)

/-- **Two colons climb only at the front of a path.** -/
theorem resolveHfs_append_differs : ¬ ∀ (fold : Str → Str) (view : HostView) (buildRoot : Path)
    (s : Registry), Reached fold view .empty 0 buildRoot s → ∀ (p q : Str) (d : Node)
    (s₁ : Registry), resolveHfs fold view p none s = .ok d s₁ → view.isDir d.host = true →
    p.getLast? ≠ some ':' → leadingColons q ≠ 0 →
    okValue (resolveHfs fold view q (some d)
        (endState (resolveHfs fold view (p ++ q) none s₁))) =
      okValue (resolveHfs fold view (p ++ q) none s₁) := by
  intro h
  have hsame := h id (smallTree.view calm) [['p']] _ .init dirPath [':', ':'] dirNode dirRegistry
    dirPath_resolves rfl (by decide) (by decide)
  exact absurd hsame (by decide +kernel)

end Cwhost.Vfs
