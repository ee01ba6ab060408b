import Cwhost.Cli.Flags

/-!
# The last warning option wins (`cli/flags.py`)

A command line made of `-w NAME`, `-w noNAME`, and complete flags for the other panels.

* `scan_parts`: each field of the warnings panel is what the last pair naming it says, under any of
  its aliases.
* `last_wins_iff`: **unless one of the pairs is `-w notinlined`**: the prefix `no` is split off
  before the name is looked up, and what remains is no name.
-/

namespace Cwhost.Cli

open Lib

/-- A part of a command line. -/
inductive Part
  | pair (flag value name : Str) (on : Bool)
  | other (flag : Str) (operands : List Str)

namespace Part

/-- The tokens of a part. -/
def tokens : Part → List Str
  | pair flag value _ _ => [flag, value]
  | other flag operands => flag :: operands

/-- `-w NAME` or `-w noNAME` in any letter case; or a complete flag of another panel that is
accepted on its own. -/
def Valid (py : Texts) : Part → Prop
  | pair flag value name on =>
    flag.map Char.toLower ∈ ["-w".toList, "-warning".toList] ∧ name ∈ aliases.map Prod.fst ∧
      value.map Char.toLower = if on then name else "no".toList ++ name
  | other flag operands => ∃ row, rowOf py flag = some row ∧ row.isWarnings = false ∧
      row.takes.Operands dashed operands ∧
      ∃ panels, fromFlags py (flag :: operands) = .ok (panels, [])

/-- The part is `-w notinlined`. -/
def IsNotinlined : Part → Prop
  | pair _ _ name on => name = "notinlined".toList ∧ on = true
  | other _ _ => False

/-- What the part sets a field to. -/
def sets (field : Warning) : Part → Option Bool
  | pair _ _ name on => if aliases.lookup name = some field then some on else none
  | other _ _ => none

end Part

/-- What the last part that names a field sets it to. -/
def lastSet (parts : List Part) (field : Warning) : Option Bool :=
  (parts.filterMap (Part.sets field)).getLast?

/-- A field after the parts, from its value before. -/
def after (parts : List Part) (field : Warning) (before : Int) : Int :=
  match lastSet parts field with
  | some on => flagged on
  | none => before

/-! ## One field of the panel -/

theorem Warning.get_set (field other : Warning) (value : Int) (p : CWarningsPanel) :
    other.get (field.set value p) = if field = other then value else other.get p := by
  by_cases hsame : field = other
  · rw [if_pos hsame, hsame]
    cases other <;> rfl
  · rw [if_neg hsame]
    cases field <;> cases other <;> first | rfl | exact absurd rfl hsame

/-! ## The names -/

/-- Only `notinlined` begins like a negation. -/
theorem aliases_prefix : ∀ name ∈ aliases.map Prod.fst, name ≠ "notinlined".toList →
    "no".toList.isPrefixOf name = false := by
  decide

theorem aliases_ascii : ∀ name ∈ aliases.map Prod.fst, ∀ c ∈ name, c.toNat < 128 := by
  have hall : (aliases.map Prod.fst).all (fun name => name.all fun c => c.toNat < 128) = true := by
    decide
  simpa only [List.all_eq_true, decide_eq_true_eq] using hall

theorem aliases_ascii_no : ∀ c ∈ "no".toList, c.toNat < 128 := by
  simp

theorem aliases_found : ∀ name ∈ aliases.map Prod.fst, (aliases.lookup name).isSome = true := by
  decide

variable {py : Texts}

/-- Text in any letter case folds as its ASCII lower case does. -/
theorem fold_of_toLower (hascii : ∀ s, (∀ c ∈ s, c.toNat < 128) → py.fold s = s.map Char.toLower)
    {text lower : Str} (h : text.map Char.toLower = lower) (hlower : ∀ c ∈ lower, c.toNat < 128) :
    py.fold text = lower := by
  rw [hascii text fun c hc => ?_, h]
  have hc' := hlower _ (h ▸ List.mem_map_of_mem hc)
  rw [toNat_toLower] at hc'
  by_cases hupper : 0x41 ≤ c.toNat ∧ c.toNat ≤ 0x5A
  · omega
  · rwa [if_neg hupper] at hc'

theorem setWarning_ok {name : Str} {field : Warning} (value : Int)
    (h : aliases.lookup (py.fold name) = some field) :
    setWarning py name value = .ok fun w => field.set value w := by
  rw [setWarning, h]
  rfl

/-- The operand of a pair folds as its name does, with the prefix of a negation. -/
theorem warningOption_of_pair
    (hascii : ∀ s, (∀ c ∈ s, c.toNat < 128) → py.fold s = s.map Char.toLower)
    {value name : Str} {on : Bool} (hname : name ∈ aliases.map Prod.fst)
    (hvalue : value.map Char.toLower = if on then name else "no".toList ++ name)
    (hnot : ¬ (name = "notinlined".toList ∧ on = true)) :
    ∃ field, aliases.lookup name = some field ∧
      warningOption py value = .ok fun w => field.set (flagged on) w := by
  obtain ⟨field, hfield⟩ := Option.isSome_iff_exists.mp (aliases_found name hname)
  refine ⟨field, hfield, ?_⟩
  have hletters := aliases_ascii name hname
  cases on with
  | true =>
    have hfold : py.fold value = name := fold_of_toLower hascii hvalue hletters
    have hprefix : "no".toList.isPrefixOf (py.fold value) = false := by
      rw [hfold]
      exact aliases_prefix name hname fun heq => hnot ⟨heq, rfl⟩
    simp only [warningOption, hprefix]
    exact setWarning_ok _ (hfold ▸ hfield)
  | false =>
    have hfold : py.fold value = "no".toList ++ name := by
      refine fold_of_toLower hascii hvalue fun c hc => ?_
      rcases List.mem_append.mp hc with hc | hc
      · exact aliases_ascii_no c hc
      · exact hletters c hc
    have hprefix : "no".toList.isPrefixOf (py.fold value) = true := by
      rw [hfold]
      rfl
    have hrest : py.fold (value.drop 2) = name := by
      refine fold_of_toLower hascii ?_ hletters
      rw [List.map_drop, hvalue]
      rfl
    simp only [warningOption, hprefix]
    exact setWarning_ok _ (hrest.symm ▸ hfield)

/-- **`notinlined` is taken for a negation.** -/
theorem warningOption_notinlined
    (hascii : ∀ s, (∀ c ∈ s, c.toNat < 128) → py.fold s = s.map Char.toLower)
    {value : Str} (hvalue : value.map Char.toLower = "notinlined".toList) :
    ∃ e, warningOption py value = .error e := by
  have hfold : py.fold value = "notinlined".toList := fold_of_toLower hascii hvalue (by simp)
  have hprefix : "no".toList.isPrefixOf (py.fold value) = true := by
    rw [hfold]
    rfl
  have hrest : py.fold (value.drop 2) = "tinlined".toList := by
    refine fold_of_toLower hascii ?_ (by simp)
    rw [List.map_drop, hvalue]
    rfl
  have hunknown : aliases.lookup "tinlined".toList = none := rfl
  simp only [warningOption, hprefix, if_true, setWarning, hrest, hunknown]
  exact ⟨_, rfl⟩

/-! ## One part -/

theorem takesOf_pair (hascii : ∀ s, (∀ c ∈ s, c.toNat < 128) → py.fold s = s.map Char.toLower)
    {flag : Str} (hflag : flag.map Char.toLower ∈ ["-w".toList, "-warning".toList]) :
    takesOf py flag = some ((Row.warnings ["-w", "-warning"]
      (needing flag (warningOption py))).takes) := by
  have hfold : py.fold flag = "-w".toList ∨ py.fold flag = "-warning".toList := by
    rcases List.mem_cons.mp hflag with h | h
    · exact .inl (fold_of_toLower hascii h (by simp))
    · exact .inr (fold_of_toLower hascii (List.mem_singleton.mp h) (by simp))
  rcases hfold with hfold | hfold
  · rw [takesOf, rowOf, hfold]
    rfl
  · rw [takesOf, rowOf, hfold]
    rfl

/-- The head of a part is a flag. -/
theorem Part.Valid.head (hascii : ∀ s, (∀ c ∈ s, c.toNat < 128) → py.fold s = s.map Char.toLower)
    {part : Part} (h : part.Valid py) : ∀ t ∈ part.tokens.head?, takesOf py t ≠ none := by
  intro t ht
  cases part with
  | pair flag value name on =>
    cases ht
    rw [takesOf_pair hascii h.1]
    exact Option.some_ne_none _
  | other flag operands =>
    cases ht
    obtain ⟨row, hrow, -⟩ := h
    rw [takesOf, hrow]
    exact Option.some_ne_none _

/-- **One part**: it is consumed, and sets the field it names. -/
theorem Part.Valid.scans
    (hascii : ∀ s, (∀ c ∈ s, c.toNat < 128) → py.fold s = s.map Char.toLower)
    {part : Part} (h : part.Valid py) (hnot : ¬ part.IsNotinlined) :
    ∃ u, Scans id (takesOf py) dashed part.tokens part.tokens [] u ∧
      ∀ p field, field.get (u p).warnings = after [part] field (field.get p.warnings) := by
  cases part with
  | pair flag value name on =>
    obtain ⟨hflag, hname, hvalue⟩ := h
    obtain ⟨field, hfield, hact⟩ := warningOption_of_pair hascii hname hvalue hnot
    refine ⟨_, .operand (takesOf_pair hascii hflag) (congrArg _ hact) .nil, fun p other => ?_⟩
    have hset := Warning.get_set field other (flagged on) p.warnings
    by_cases hsame : field = other
    · subst hsame
      rw [if_pos rfl] at hset
      simp only [after, lastSet, List.filterMap_cons, Part.sets, hfield, if_true,
        List.filterMap_nil, List.getLast?_singleton]
      exact hset
    · rw [if_neg hsame] at hset
      have hother : aliases.lookup name ≠ some other := by
        rw [hfield]
        exact fun heq => hsame (Option.some.inj heq)
      simp only [after, lastSet, List.filterMap_cons, Part.sets, hother, if_false,
        List.filterMap_nil, List.getLast?_nil]
      exact hset
  | other flag operands =>
    obtain ⟨row, hrow, hpanel, hoperands, panels, hok⟩ := h
    obtain ⟨c, u, hrun, -⟩ := scan_eq_ok_iff.mp hok
    have htakes : takesOf py flag = some row.takes := by rw [takesOf, hrow]; rfl
    obtain ⟨hrun, hgives⟩ := hrun.single htakes (by rwa [List.map_id])
    refine ⟨u, hrun, fun p field => ?_⟩
    cases row with
    | warnings names takes => cases hpanel
    | compiler names takes | optimizer names takes | codeGen names takes =>
      obtain ⟨v, rfl⟩ := hgives.of_lift
      rfl

/-! ## The command line -/

theorem after_cons (part : Part) (parts : List Part) (field : Warning) (before : Int) :
    after (part :: parts) field before = after parts field (after [part] field before) := by
  unfold after lastSet
  rw [List.filterMap_cons]
  cases hpart : part.sets field with
  | none => simp [hpart]
  | some on =>
    rw [List.getLast?_cons]
    cases (parts.filterMap (Part.sets field)).getLast? with
    | none => simp [hpart]
    | some last => rfl

/-- No part begins with an operand. -/
theorem parts_dashed (hdash : ∀ s, dashed (py.fold s) = true → dashed s = true)
    (hascii : ∀ s, (∀ c ∈ s, c.toNat < 128) → py.fold s = s.map Char.toLower)
    {parts : List Part} (hvalid : ∀ part ∈ parts, part.Valid py) :
    ∀ t ∈ (parts.flatMap Part.tokens).head?, dashed t = true := by
  intro t ht
  cases parts with
  | nil => cases ht
  | cons part parts =>
    refine dashed_of_takesOf hdash t ((hvalid part (List.mem_cons_self ..)).head hascii t ?_)
    cases part <;> exact ht

/-- **The parts in order**: each field is what the last part that names it sets it to. -/
theorem scan_parts (hdash : ∀ s, dashed (py.fold s) = true → dashed s = true)
    (hascii : ∀ s, (∀ c ∈ s, c.toNat < 128) → py.fold s = s.map Char.toLower)
    {parts : List Part} (hvalid : ∀ part ∈ parts, part.Valid py)
    (hnot : ∀ part ∈ parts, ¬ part.IsNotinlined) (p : CompilerPanels) :
    ∃ p', scan id (takesOf py) dashed (parts.flatMap Part.tokens) p [] = .ok (p', []) ∧
      ∀ field : Warning, field.get p'.warnings = after parts field (field.get p.warnings) := by
  induction parts generalizing p with
  | nil => exact ⟨p, rfl, fun _ => rfl⟩
  | cons part parts ih =>
    obtain ⟨hpart, hparts⟩ := List.forall_mem_cons.mp hvalid
    obtain ⟨hnotPart, hnotParts⟩ := List.forall_mem_cons.mp hnot
    obtain ⟨u, hrun, hset⟩ := hpart.scans hascii hnotPart
    obtain ⟨p', hscan, hfields⟩ := ih hparts hnotParts (u p)
    refine ⟨p', ?_, fun field => ?_⟩
    · rw [List.flatMap_cons, hrun.scan_append rfl (parts_dashed hdash hascii hparts), hscan]
    · rw [hfields, hset, after_cons part parts]

/-- **The pair `-w notinlined` is refused**, wherever it stands. -/
theorem scan_notinlined (hdash : ∀ s, dashed (py.fold s) = true → dashed s = true)
    (hascii : ∀ s, (∀ c ∈ s, c.toNat < 128) → py.fold s = s.map Char.toLower)
    {parts : List Part} (hvalid : ∀ part ∈ parts, part.Valid py) {bad : Part} (hbad : bad ∈ parts)
    (hnotinlined : bad.IsNotinlined) (p : CompilerPanels) :
    ∃ e, scan id (takesOf py) dashed (parts.flatMap Part.tokens) p [] = .error e := by
  induction parts generalizing p with
  | nil => cases hbad
  | cons part parts ih =>
    obtain ⟨hpart, hparts⟩ := List.forall_mem_cons.mp hvalid
    by_cases hfirst : part.IsNotinlined
    · cases part with
      | other flag operands => cases hfirst
      | pair flag value name on =>
        obtain ⟨rfl, rfl⟩ := hfirst
        obtain ⟨hflag, -, hvalue⟩ := hpart
        obtain ⟨e, he⟩ := warningOption_notinlined hascii hvalue
        refine ⟨e, ?_⟩
        have htakes := takesOf_pair hascii hflag
        simp only [List.flatMap_cons, Part.tokens, List.cons_append, scan, id_eq, htakes,
          Row.takes, needing, Takes.lift, he]
        rfl
    · obtain ⟨u, hrun, -⟩ := hpart.scans hascii hfirst
      have hrest : bad ∈ parts :=
        (List.mem_cons.mp hbad).resolve_left fun heq => hfirst (heq ▸ hnotinlined)
      obtain ⟨e, he⟩ := ih hparts hrest (u p)
      refine ⟨e, ?_⟩
      rw [List.flatMap_cons, hrun.scan_append rfl (parts_dashed hdash hascii hparts), he]

/-- **The last warning option wins, iff none of them is `-w notinlined`.** -/
theorem last_wins_iff (py : Texts) (hdash : ∀ s, dashed (py.fold s) = true → dashed s = true)
    (hascii : ∀ s, (∀ c ∈ s, c.toNat < 128) → py.fold s = s.map Char.toLower)
    (parts : List Part) (hvalid : ∀ part ∈ parts, part.Valid py) :
    (∃ panels rest, fromFlags py (parts.flatMap Part.tokens) = .ok (panels, rest) ∧
      ∀ field : Warning, field.get panels.warnings =
        match (parts.filterMap (Part.sets field)).getLast? with
        | some on => if on then 1 else 0
        | none => field.get CompilerPanels.defaults.warnings) ↔
      ∀ part ∈ parts, ¬ part.IsNotinlined := by
  constructor
  · rintro ⟨panels, rest, hok, -⟩ bad hbad hnotinlined
    obtain ⟨e, he⟩ := scan_notinlined hdash hascii hvalid hbad hnotinlined .defaults
    cases hok.symm.trans he
  · intro hnot
    obtain ⟨panels, hok, hfields⟩ := scan_parts hdash hascii hvalid hnot .defaults
    exact ⟨panels, [], hok, hfields⟩

/-- The alias that is an option of its own is refused. -/
theorem notinlined_refused :
    (Part.pair "-w".toList "notinlined".toList "notinlined".toList true).Valid asciiTexts ∧
      fromFlags asciiTexts ["-w".toList, "notinlined".toList] =
        .error ⟨"unknown warning option: 'tinlined'"⟩ := by
  refine ⟨⟨by decide, by decide, rfl⟩, by decide⟩

/-- A pair, a flag of another panel and a later pair for the same field. -/
theorem last_wins_unusedvar : ∃ panels rest,
    fromFlags asciiTexts ["-w".toList, "UnusedVar".toList, "-ansi".toList, "-W".toList,
        "NoUnusedVar".toList] = .ok (panels, rest) ∧
      panels.warnings.warnUnusedvar = 0 := by
  obtain ⟨panels, rest, hok, hfields⟩ := (last_wins_iff asciiTexts asciiTexts_dash (fun _ _ => rfl)
    [.pair "-w".toList "UnusedVar".toList "unusedvar".toList true, .other "-ansi".toList [],
      .pair "-W".toList "NoUnusedVar".toList "unusedvar".toList false] (by
        refine List.forall_mem_cons.mpr ⟨⟨by decide, by decide, rfl⟩,
          List.forall_mem_cons.mpr ⟨⟨_, rfl, rfl, .inl rfl, _, rfl⟩,
            List.forall_mem_singleton.mpr ⟨by decide, by decide, rfl⟩⟩⟩)).mpr (by
        refine List.forall_mem_cons.mpr ⟨fun h => absurd h.1 (by decide),
          List.forall_mem_cons.mpr ⟨id, List.forall_mem_singleton.mpr fun h =>
            absurd h.1 (by decide)⟩⟩)
  exact ⟨panels, rest, hok, hfields .unusedvar⟩

end Cwhost.Cli
