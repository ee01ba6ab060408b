import Cwhost.Cli.Flags

/-!
# Host and panel arguments separate (`cli/flags.py`)

`arguments_separate`: the arguments that `from_flags` hands back are the ones it would hand back
alone, the others set the same panels alone, and so the panels depend on nothing but the tokens
consumed. The reason is that a flag which may go without its operand (`-ansi`) never takes another
flag for one.
-/

namespace Cwhost.Cli

open Lib

/-- The command line without the tokens at the given positions. -/
def without (argv : List Str) (left : List (Str × Nat)) : List Str :=
  (argv.zipIdx.filter fun t => t.2 ∉ left.map Prod.snd).map Prod.fst

variable {py : Texts}

/-- A run over tokens under their positions is a run over the tokens. -/
theorem fromFlags_of_scans {l c h : List (Str × Nat)} {u : CompilerPanels → CompilerPanels}
    (hrun : Scans Prod.fst (takesOf py) dashed l c h u) :
    fromFlags py (l.map Prod.fst) = .ok (u .defaults, h.map Prod.fst) := by
  have hmap := scan_map id (takesOf py) dashed Prod.fst l [] .defaults
  rw [fromFlags]
  refine hmap.trans ?_
  exact congrArg _ (hrun.scan_eq .defaults [])

/-- The tokens consumed are the ones at the other positions. -/
theorem without_eq {argv : List Str} {c left : List (Str × Nat)}
    {u : CompilerPanels → CompilerPanels}
    (hrun : Scans Prod.fst (takesOf py) dashed argv.zipIdx c left u) :
    without argv left = c.map Prod.fst := by
  have hnodup : (argv.zipIdx.map Prod.snd).Nodup := by
    rw [List.zipIdx_map_snd]
    exact List.nodup_range'
  rw [without, hrun.interleaved.filter_eq hnodup]

/-- **Host and panel arguments separate.** What is left over is left over again, without an effect;
the rest alone sets the same panels and leaves nothing; equal rests set equal panels. -/
theorem arguments_separate (py : Texts)
    (hdash : ∀ s, dashed (py.fold s) = true → dashed s = true) :
    (∀ argv panels rest, fromFlags py argv = .ok (panels, rest) →
      rest.Sublist argv ∧ fromFlags py rest = .ok (.defaults, rest) ∧
      ∃ left, fromFlagsAt py argv = .ok (panels, left) ∧ left.Sublist argv.zipIdx ∧
        left.map Prod.fst = rest ∧ fromFlags py (without argv left) = .ok (panels, [])) ∧
    ∀ argv argv' panels panels' left left', fromFlagsAt py argv = .ok (panels, left) →
      fromFlagsAt py argv' = .ok (panels', left') → without argv left = without argv' left' →
      panels = panels' := by
  have hflags : ∀ k, takesOf py k ≠ none → dashed k = true := dashed_of_takesOf hdash
  -- What was consumed sets the panels of the whole.
  have halone : ∀ {argv c left u},
      Scans Prod.fst (takesOf py) dashed argv.zipIdx c left u →
        fromFlags py (without argv left) = .ok (u .defaults, []) := by
    intro argv c left u hrun
    rw [without_eq hrun]
    exact fromFlags_of_scans (hrun.consumed_again hflags)
  constructor
  · intro argv panels rest h
    rw [fromFlags_eq] at h
    obtain ⟨⟨panels', left⟩, hat, heq⟩ := map_eq_ok h
    obtain ⟨rfl, rfl⟩ := Prod.mk.inj heq
    obtain ⟨c, u, hrun, rfl⟩ := scan_eq_ok_iff.mp hat
    have hsub := hrun.interleaved.left_sublist
    refine ⟨?_, fromFlags_of_scans hrun.left_again, left, hat, hsub, rfl, halone hrun⟩
    have hmap := hsub.map Prod.fst
    rwa [List.zipIdx_map_fst] at hmap
  · intro argv argv' panels panels' left left' h h' hsame
    obtain ⟨c, u, hrun, rfl⟩ := scan_eq_ok_iff.mp h
    obtain ⟨c', u', hrun', rfl⟩ := scan_eq_ok_iff.mp h'
    have heq := halone hrun
    rw [hsame, halone hrun'] at heq
    exact (Prod.mk.inj (Except.ok.inj heq)).1.symm

/-- `-ansi` goes without its operand in front of a host argument and, once that is gone, in front
of another flag. -/
theorem arguments_separate_ansi : ∃ panels left,
    fromFlagsAt asciiTexts
        ["-ansi".toList, "-c".toList, "a.c".toList, "-opt".toList, "all".toList] =
      .ok (panels, left) ∧
    left.map Prod.fst = ["-c".toList, "a.c".toList] ∧
    fromFlags asciiTexts
        (without ["-ansi".toList, "-c".toList, "a.c".toList, "-opt".toList, "all".toList] left) =
      .ok (panels, []) := by
  obtain ⟨-, -, left, hat, -, hleft, halone⟩ :=
    (arguments_separate asciiTexts asciiTexts_dash).1
      ["-ansi".toList, "-c".toList, "a.c".toList, "-opt".toList, "all".toList] _
      ["-c".toList, "a.c".toList] rfl
  exact ⟨_, left, hat, hleft, halone⟩

end Cwhost.Cli
