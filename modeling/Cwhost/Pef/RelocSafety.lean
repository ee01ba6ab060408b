import Cwhost.Lib.Instrumented
import Cwhost.Lib.Layout
import Cwhost.Pef.RelocRefines

/-!
# What relocating touches (`pef.py`, `apply_relocations`)

The interpreter once more, with a check at every index the source takes (of the words, the section,
the deltas and the imports, in tokens and in replayed tokens) and a record of the positions at which
it has added. It does what `applyRelocations` does (`relocate_mirrors`): no check ever fails, the
section keeps its length, and bytes change only inside the words at the recorded positions
(`applyRelocations_safe`).
-/

namespace Cwhost.Pef

open Lib

namespace Checked

/-- The interpreter's state, and the positions `add_word` has added at, latest first. -/
structure Run where
  state : RelocState
  adds : List Nat
  deriving DecidableEq, Repr

/-- A step of the interpreter with its record. -/
abbrev RunM := EStateM Exc Run

/-- A step that adds nothing. -/
def modifyState (f : RelocState → RelocState) : RunM Unit :=
  modify fun r => { r with state := f r.state }

/-- `pos += n`. -/
def advance (n : Nat) : RunM Unit := modifyState fun s => { s with pos := s.pos + n }

/-- `items[index]`, with the check of the language. -/
def item {α : Type} (items : List α) (index : Nat) : RunM α :=
  match items[index]? with
  | some value => pure value
  | none => throw .indexError

/-- `add_word`: `unpack_from`, then `pack_into`, each with its own check. -/
def addWord (value : Int) : RunM Unit := do
  let r ← get
  let pos := r.state.pos
  let image := r.state.section_
  if pos + 4 > image.length then
    throw (.hostError s!"relocation position out of range: {hex pos}")
  if pos + 4 > image.length then throw .structError
  let old := beNat ((image.drop pos).take 4)
  let new := ((old + value) % 2 ^ 32).toNat
  if pos + 4 > image.length ∨ 2 ^ 32 ≤ new then throw .structError
  let image := image.take pos ++ toBE 4 new ++ image.drop (pos + 4)
  set { state := { r.state with section_ := image }, adds := pos :: r.adds : Run }

/-- `delta`. -/
def delta (env : RelocEnv) (index : Nat) : RunM Int := do
  if index ≥ env.sectionDeltas.length then
    throw (.hostError s!"relocation references section {index}")
  item env.sectionDeltas index

/-- `imp`. -/
def imp (env : RelocEnv) (index : Nat) : RunM Int := do
  if index ≥ env.imports.length then
    throw (.hostError s!"relocation references import {index}")
  item env.imports index

/-- `execute` with `repeating=True`. -/
def executeRepeating (env : RelocEnv) (words : List Nat) (token : Token) : RunM Unit := do
  let word ← item words token.offset
  let low9 := word &&& 0x1FF
  match token.kind with
  | .skip =>
    advance (4 * (word >>> 6 &&& 0xFF))
    timesM (word &&& 0x3F) do
      addWord (← get).state.currentD
      advance 4
  | .c =>
    let value := (← get).state.currentC
    timesM (low9 + 1) do
      addWord value
      advance 4
  | .d =>
    let value := (← get).state.currentD
    timesM (low9 + 1) do
      addWord value
      advance 4
  | .tv12 =>
    timesM (low9 + 1) do
      addWord (← get).state.currentC
      advance 4
      addWord (← get).state.currentD
      advance 4
      advance 4
  | .tv8 =>
    timesM (low9 + 1) do
      addWord (← get).state.currentC
      advance 4
      addWord (← get).state.currentD
      advance 4
  | .vtable8 =>
    timesM (low9 + 1) do
      addWord (← get).state.currentD
      advance 8
  | .importRun =>
    timesM (low9 + 1) do
      let value ← imp env (← get).state.importIndex
      addWord value
      modifyState fun s => { s with importIndex := s.importIndex + 1 }
      advance 4
  | .smImport =>
    let value ← imp env low9
    addWord value
    modifyState fun s => { s with importIndex := low9 + 1 }
    advance 4
  | .smC =>
    let value ← delta env low9
    modifyState fun s => { s with currentC := value }
  | .smD =>
    let value ← delta env low9
    modifyState fun s => { s with currentD := value }
  | .smSection =>
    let value ← delta env low9
    addWord value
    advance 4
  | .incr => advance ((word &&& 0xFFF) + 1)
  | .smRepeat | .lgRepeat => throw nestedRepeat
  | .setPosition =>
    let next ← item words (token.offset + 1)
    modifyState fun s => { s with pos := (word &&& 0x3FF) <<< 16 ||| next }
  | .lgImport =>
    let next ← item words (token.offset + 1)
    let index := (word &&& 0x3FF) <<< 16 ||| next
    let value ← imp env index
    addWord value
    modifyState fun s => { s with importIndex := index + 1 }
    advance 4
  | .lgSection =>
    let subop := word >>> 6 &&& 0xF
    let next ← item words (token.offset + 1)
    let index := (word &&& 0x3F) <<< 16 ||| next
    if subop = 0 then do
      let value ← delta env index
      addWord value
      advance 4
    else if subop = 1 then do
      let value ← delta env index
      modifyState fun s => { s with currentC := value }
    else if subop = 2 then do
      let value ← delta env index
      modifyState fun s => { s with currentD := value }
    else throw (.hostError s!"unknown long relocation section sub-op {subop}")

/-- The loop over `reversed(history)`. -/
def selectBlock (blockWords : Nat) : List Token → List Token → Nat → RunM (List Token)
  | [], selected, total =>
    if total ≠ blockWords then
      throw (.hostError "relocation repeat has no complete preceding block")
    else pure selected
  | prior :: earlier, selected, total =>
    let selected := prior :: selected
    let total := total + prior.length
    if total = blockWords then pure selected
    else if total > blockWords then
      throw (.hostError "relocation repeat splits an instruction")
    else selectBlock blockWords earlier selected total

/-- `for prior in selected: execute(prior, repeating=True)`. -/
def replay (env : RelocEnv) (words : List Nat) : List Token → RunM Unit
  | [] => pure ()
  | prior :: selected => do
    executeRepeating env words prior
    replay env words selected

/-- The repeat branch of `execute`. -/
def executeRepeat (env : RelocEnv) (words : List Nat) (history : List Token)
    (blockWords repeatCount : Nat) : RunM Unit := do
  let selected ← selectBlock blockWords history.reverse [] 0
  timesM repeatCount (replay env words selected)

/-- `execute` with `repeating=False`. -/
def execute (env : RelocEnv) (words : List Nat) (history : List Token) (token : Token) :
    RunM Unit :=
  match token.kind with
  | .smRepeat => do
    let word ← item words token.offset
    executeRepeat env words history ((word >>> 8 &&& 0xF) + 1) ((word &&& 0xFF) + 1)
  | .lgRepeat => do
    let word ← item words token.offset
    if token.length ≠ 2 then throw (.hostError "malformed long relocation repeat")
    else do
      let next ← item words (token.offset + 1)
      executeRepeat env words history ((word >>> 6 &&& 0xF) + 1) ((word &&& 0x3F) <<< 16 ||| next)
  | _ => executeRepeating env words token

theorem decodeKind_pos {word length : Nat} {kind : Kind}
    (h : decodeKind word = some (kind, length)) : 0 < length := by
  rw [decodeKind_length h]
  cases kind <;> exact Nat.succ_pos _

/-- The token at word `offset`, at least a word long. -/
def decode (words : List Nat) (offset : Nat) : RunM { token : Token // 0 < token.length } := do
  let word ← item words offset
  match hk : decodeKind word with
  | none => throw (.hostError s!"unknown relocation opcode {hex06 word}")
  | some (kind, length) =>
    if offset + length > words.length then
      throw (.hostError s!"truncated relocation instruction at word {offset}")
    else pure ⟨{ offset := offset, length := length, kind := kind }, decodeKind_pos hk⟩

/-- The main loop, from word `offset` on. -/
def relocLoop (env : RelocEnv) (words : List Nat) (offset : Nat) (history : List Token) :
    RunM Unit :=
  if offset < words.length then do
    let token ← decode words offset
    execute env words history token.1
    relocLoop env words (offset + token.1.length) (history ++ [token.1])
  else pure ()
termination_by words.length - offset
decreasing_by
  have := token.2
  omega

/-- The body of `apply_relocations`. -/
def relocate (stream : List UInt8) (env : RelocEnv) : RunM Unit := do
  if stream.length % 2 ≠ 0 then
    throw (.hostError "relocation stream has an odd byte length")
  relocLoop env (streamWords stream) 0 []

/-! ## What one access does -/

/-- Of the bytes of `image`, only words at recorded positions have changed. -/
structure Covered (image : List UInt8) (r : Run) : Prop where
  length : r.state.section_.length = image.length
  inside : ∀ p ∈ r.adds, p + 4 ≤ image.length
  changed : ∀ i, r.state.section_[i]? ≠ image[i]? → ∃ p ∈ r.adds, p ≤ i ∧ i < p + 4

/-- `x` relocates as `y` does, and fails with `HostError` only. -/
abbrev Relocates {α : Type} (image : List UInt8) (x : RunM α) (y : RelocM α) : Prop :=
  Mirrors Run.state (Covered image) (fun e => e.isHostError = true) x y

variable {image : List UInt8} {words : List Nat} {env : RelocEnv}

/-- Adding to a word inside the section. -/
theorem Covered.add {r : Run} (h : Covered image r) {bytes : List UInt8} (hbytes : bytes.length = 4)
    (hpos : r.state.pos + 4 ≤ r.state.section_.length) :
    Covered image
      { state := { r.state with
          section_ := assign r.state.section_ r.state.pos (r.state.pos + 4) bytes }
        adds := r.state.pos :: r.adds } := by
  rw [← hbytes] at hpos ⊢
  refine ⟨(assign_length hpos).trans h.length, ?_, ?_⟩
  · intro p hp
    rcases List.mem_cons.mp hp with rfl | hp
    · rw [← h.length, ← hbytes]
      exact hpos
    · exact h.inside p hp
  · intro i hi
    by_cases hin : r.state.pos ≤ i ∧ i < r.state.pos + 4
    · exact ⟨r.state.pos, List.mem_cons_self, hin⟩
    · rw [getElem?_assign hpos (by omega)] at hi
      obtain ⟨p, hp, hcover⟩ := h.changed i hi
      exact ⟨p, List.mem_cons_of_mem _ hp, hcover⟩

/-- What `add_word` stores. -/
def sum (s : RelocState) (value : Int) : Nat :=
  ((beNat ((s.section_.drop s.pos).take 4) + value) % 2 ^ 32).toNat

theorem sum_lt (s : RelocState) (value : Int) : sum s value < 2 ^ 32 := by
  unfold sum
  omega

theorem addWord_inside {value : Int} {s : RelocState} (hpos : ¬s.pos + 4 > s.section_.length) :
    Pef.addWord value s = .ok ()
      { s with section_ := assign s.section_ s.pos (s.pos + 4) (toBE 4 (sum s value)) } := by
  unfold Pef.addWord
  rw [bind_of_ok (get_eq s), if_neg hpos]
  rfl

theorem addWord_outside {value : Int} {s : RelocState} (hpos : s.pos + 4 > s.section_.length) :
    Pef.addWord value s =
      .error (.hostError s!"relocation position out of range: {hex s.pos}") s := by
  unfold Pef.addWord
  rw [bind_of_ok (get_eq s), if_pos hpos]
  rfl

theorem addWord_mirrors (value : Int) : Relocates image (addWord value) (Pef.addWord value) := by
  intro r hr
  unfold addWord
  rw [wp_bind, wp_get]
  by_cases hpos : r.state.pos + 4 > r.state.section_.length
  · rw [if_pos hpos, addWord_outside hpos]
    exact ⟨⟨rfl, rfl⟩, hr⟩
  · have hsum : ¬(r.state.pos + 4 > r.state.section_.length ∨ 2 ^ 32 ≤ sum r.state value) :=
      not_or.mpr ⟨hpos, Nat.not_le.mpr (sum_lt _ _)⟩
    rw [if_neg hpos, if_neg hpos, addWord_inside hpos]
    refine (congrArg (fun x => wp x _ _ r) (if_neg hsum)).mpr ?_
    exact ⟨rfl, hr.add (toBE_length 4 _) (Nat.le_of_not_lt hpos)⟩

/-- A step that adds nothing. -/
theorem modifyState_mirrors {f : RelocState → RelocState}
    (hf : ∀ s, (f s).section_ = s.section_) :
    Relocates image (modifyState f) (modify f) := by
  refine Mirrors.modify (fun r => rfl) fun r hr => ⟨?_, hr.inside, ?_⟩
  · exact (congrArg List.length (hf r.state)).trans hr.length
  · intro i hi
    rw [hf] at hi
    exact hr.changed i hi

theorem advance_mirrors (n : Nat) : Relocates image (advance n) (Pef.advance n) :=
  modifyState_mirrors fun _ => rfl

/-- An index inside the list. -/
theorem item_bind {α β : Type} {items : List α} {index : Nat} {a : α}
    (h : items[index]? = some a) {f : α → RunM β} {y : RelocM β}
    (hf : Relocates image (f a) y) : Relocates image (item items index >>= f) y := by
  unfold item
  rw [h]
  exact hf

theorem word_bind {β : Type} {offset : Nat} (h : offset < words.length) {f : Nat → RunM β}
    {y : RelocM β} (hf : Relocates image (f (wordAt words offset)) y) :
    Relocates image (item words offset >>= f) y := by
  refine item_bind ?_ hf
  rw [wordAt, List.getD_eq_getElem?_getD, List.getElem?_eq_getElem h, Option.getD_some]

theorem delta_mirrors (index : Nat) :
    Relocates image (delta env index) (Pef.delta env index) := by
  unfold delta Pef.delta
  by_cases h : index ≥ env.sectionDeltas.length
  · rw [if_pos h, List.getElem?_eq_none h]
    exact Mirrors.throw rfl
  · rw [if_neg h, item, List.getElem?_eq_getElem (Nat.lt_of_not_le h)]
    exact Mirrors.pure _

theorem imp_mirrors (index : Nat) : Relocates image (imp env index) (Pef.imp env index) := by
  unfold imp Pef.imp
  by_cases h : index ≥ env.imports.length
  · rw [if_pos h, List.getElem?_eq_none h]
    exact Mirrors.throw rfl
  · rw [if_neg h, item, List.getElem?_eq_getElem (Nat.lt_of_not_le h)]
    exact Mirrors.pure _

/-! ## What one instruction does -/

/-- A token whose words lie in the stream. -/
structure TokenOk (words : List Nat) (token : Token) : Prop where
  length : token.length = token.kind.wordCount
  inside : token.offset + token.length ≤ words.length

theorem addMove_mirrors (value : Int) (n : Nat) :
    Relocates image (do addWord value; advance n) (do Pef.addWord value; Pef.advance n) :=
  (addWord_mirrors value).bind fun _ _ => advance_mirrors n

theorem addImport_mirrors (value : Int) (f : Nat → Nat) :
    Relocates image
      (do
        addWord value
        modifyState fun s => { s with importIndex := f s.importIndex }
        advance 4)
      (do
        Pef.addWord value
        modify fun s => { s with importIndex := f s.importIndex }
        Pef.advance 4) := by
  refine (addWord_mirrors value).bind fun _ _ => Mirrors.bind ?_ fun _ _ => advance_mirrors 4
  exact modifyState_mirrors fun _ => rfl

/-- Both current deltas in turn. -/
theorem addPair_mirrors {x : RunM Unit} {y : RelocM Unit} (hxy : Relocates image x y) :
    Relocates image
      (do
        addWord (← get).state.currentC
        advance 4
        addWord (← get).state.currentD
        x)
      (do
        Pef.addWord (← get).currentC
        Pef.advance 4
        Pef.addWord (← get).currentD
        y) :=
  Mirrors.get_bind fun _ => (addWord_mirrors _).bind fun _ _ =>
    (advance_mirrors 4).bind fun _ _ => Mirrors.get_bind fun _ =>
      (addWord_mirrors _).bind fun _ _ => hxy

/-- A token inside the stream: one case for each kind. -/
theorem executeRepeating_mirrors {token : Token} (h : TokenOk words token) :
    Relocates image (executeRepeating env words token)
      (Pef.executeRepeating env words token) := by
  obtain ⟨hlen, hin⟩ := h
  have hone : 1 ≤ token.kind.wordCount := by cases token.kind <;> decide
  unfold executeRepeating Pef.executeRepeating
  refine word_bind (by omega) ?_
  cases hk : token.kind <;> simp only [hk, Kind.wordCount] at hlen <;> dsimp only
  case skip =>
    refine (advance_mirrors _).bind fun _ _ => Mirrors.timesM ?_ _
    exact Mirrors.get_bind fun _ => addMove_mirrors _ 4
  case c => exact Mirrors.get_bind fun _ => Mirrors.timesM (addMove_mirrors _ 4) _
  case d => exact Mirrors.get_bind fun _ => Mirrors.timesM (addMove_mirrors _ 4) _
  case tv12 =>
    refine Mirrors.timesM (addPair_mirrors ?_) _
    exact (advance_mirrors 4).bind fun _ _ => advance_mirrors 4
  case tv8 => exact Mirrors.timesM (addPair_mirrors (advance_mirrors 4)) _
  case vtable8 => exact Mirrors.timesM (Mirrors.get_bind fun _ => addMove_mirrors _ 8) _
  case importRun =>
    refine Mirrors.timesM (Mirrors.get_bind fun _ => (imp_mirrors _).bind fun value _ => ?_) _
    exact addImport_mirrors value (· + 1)
  case smImport =>
    exact (imp_mirrors _).bind fun value _ => addImport_mirrors value fun _ => _
  case smC => exact (delta_mirrors _).bind fun _ _ => modifyState_mirrors fun _ => rfl
  case smD => exact (delta_mirrors _).bind fun _ _ => modifyState_mirrors fun _ => rfl
  case smSection => exact (delta_mirrors _).bind fun value _ => addMove_mirrors value 4
  case incr => exact advance_mirrors _
  case smRepeat => exact Mirrors.throw rfl
  case lgRepeat => exact Mirrors.throw rfl
  case setPosition => exact word_bind (by omega) (modifyState_mirrors fun _ => rfl)
  case lgImport =>
    refine word_bind (by omega) ((imp_mirrors _).bind fun value _ => ?_)
    exact addImport_mirrors value fun _ => _
  case lgSection =>
    refine word_bind (by omega) (Mirrors.ite (fun _ => ?_) fun _ => Mirrors.ite (fun _ => ?_)
      fun _ => Mirrors.ite (fun _ => ?_) fun _ => Mirrors.throw rfl)
    · exact (delta_mirrors _).bind fun value _ => addMove_mirrors value 4
    · exact (delta_mirrors _).bind fun _ _ => modifyState_mirrors fun _ => rfl
    · exact (delta_mirrors _).bind fun _ _ => modifyState_mirrors fun _ => rfl

/-! ## Repeats and the main loop -/

theorem selectBlock_mirrors (blockWords : Nat) : ∀ (earlier selected : List Token) (total : Nat),
    Relocates image (selectBlock blockWords earlier selected total)
      (Pef.selectBlock blockWords earlier selected total)
  | [], selected, _ =>
    Mirrors.ite (fun _ => Mirrors.throw rfl) fun _ => Mirrors.pure selected
  | _ :: earlier, _, _ =>
    Mirrors.ite (fun _ => Mirrors.pure _) fun _ => Mirrors.ite (fun _ => Mirrors.throw rfl)
      fun _ => selectBlock_mirrors blockWords earlier _ _

/-- A block is made of tokens of the history. -/
theorem selectBlock_mem {blockWords : Nat} {block : List Token} {s s' : RelocState} :
    ∀ {earlier selected : List Token} {total : Nat},
      Pef.selectBlock blockWords earlier selected total s = .ok block s' →
        ∀ token ∈ block, token ∈ earlier ∨ token ∈ selected
  | [], selected, total, h, token, ht => by
    rw [Pef.selectBlock] at h
    split at h
    · cases h
    · cases h
      exact Or.inr ht
  | prior :: earlier, selected, total, h, token, ht => by
    rw [Pef.selectBlock] at h
    have hcons : token ∈ prior :: selected → token ∈ prior :: earlier ∨ token ∈ selected := by
      intro hmem
      rcases List.mem_cons.mp hmem with rfl | hmem
      · exact Or.inl List.mem_cons_self
      · exact Or.inr hmem
    split at h
    · cases h
      exact hcons ht
    · split at h
      · cases h
      · rcases selectBlock_mem h token ht with hmem | hmem
        · exact Or.inl (List.mem_cons_of_mem _ hmem)
        · exact hcons hmem

theorem replay_mirrors : ∀ {selected : List Token}, (∀ token ∈ selected, TokenOk words token) →
    Relocates image (replay env words selected) (Pef.replay env words selected)
  | [], _ => Mirrors.pure ()
  | prior :: _, h =>
    (executeRepeating_mirrors (h prior List.mem_cons_self)).bind fun _ _ =>
      replay_mirrors fun token ht => h token (List.mem_cons_of_mem _ ht)

/-- Replaying tokens of the history. -/
theorem executeRepeat_mirrors {history : List Token} (h : ∀ token ∈ history, TokenOk words token)
    (blockWords repeatCount : Nat) :
    Relocates image (executeRepeat env words history blockWords repeatCount)
      (Pef.executeRepeat env words history blockWords repeatCount) := by
  refine (selectBlock_mirrors blockWords _ _ _).bind ?_
  rintro _ ⟨s, s', hselect⟩
  refine Mirrors.timesM (replay_mirrors fun token ht => ?_) repeatCount
  rcases selectBlock_mem hselect token ht with hmem | hmem
  · exact h token (List.mem_reverse.mp hmem)
  · cases hmem

theorem execute_mirrors {history : List Token} {token : Token}
    (hhistory : ∀ token ∈ history, TokenOk words token) (h : TokenOk words token) :
    Relocates image (execute env words history token)
      (Pef.execute env words history token) := by
  obtain ⟨hlen, hin⟩ := h
  unfold execute Pef.execute
  cases hk : token.kind
  case smRepeat =>
    simp only [hk, Kind.wordCount] at hlen
    exact word_bind (by omega) (executeRepeat_mirrors hhistory _ _)
  case lgRepeat =>
    simp only [hk, Kind.wordCount] at hlen
    refine word_bind (by omega) (Mirrors.ite (fun hne => absurd hlen hne) fun _ => ?_)
    exact word_bind (by omega) (executeRepeat_mirrors hhistory _ _)
  all_goals exact executeRepeating_mirrors ⟨hlen, hin⟩

/-- The token the main loop decodes, or the error it raises. -/
theorem decode_mirrors {offset : Nat} (h : offset < words.length)
    {f : { token : Token // 0 < token.length } → RunM Unit} {y : RelocM Unit}
    (hunknown : decodeKind (wordAt words offset) = none →
      y = throw (.hostError s!"unknown relocation opcode {hex06 (wordAt words offset)}"))
    (htruncated : ∀ kind length, decodeKind (wordAt words offset) = some (kind, length) →
      offset + length > words.length →
        y = throw (.hostError s!"truncated relocation instruction at word {offset}"))
    (htoken : ∀ kind length (hk : decodeKind (wordAt words offset) = some (kind, length)),
      offset + length ≤ words.length →
        Relocates image (f ⟨⟨offset, length, kind⟩, decodeKind_pos hk⟩) y) :
    Relocates image (decode words offset >>= f) y := by
  unfold decode
  rw [bind_assoc]
  refine word_bind h ?_
  split
  · rw [hunknown ‹_›]
    exact Mirrors.throw rfl
  · rename_i kind length hk
    split
    · rw [htruncated kind length hk ‹_›]
      exact Mirrors.throw rfl
    · exact htoken kind length hk (Nat.le_of_not_lt ‹_›)

theorem relocLoop_mirrors {offset : Nat} {history : List Token}
    (hhistory : ∀ token ∈ history, TokenOk words token) :
    Relocates image (relocLoop env words offset history)
      (Pef.relocLoop env words (words.drop offset) offset history) := by
  rw [relocLoop]
  by_cases h : offset < words.length
  · obtain ⟨word, rest, hdrop⟩ : ∃ word rest, words.drop offset = word :: rest :=
      List.exists_cons_of_ne_nil (by simpa using h)
    obtain ⟨hword, hrest⟩ := wordAt_of_drop hdrop
    have hlen : rest.length + 1 = words.length - offset := by
      rw [← List.length_cons, ← hdrop, List.length_drop]
    rw [if_pos h, hdrop, Pef.relocLoop]
    refine decode_mirrors h ?_ ?_ ?_
    · rw [hword]
      intro hk
      rw [hk]
    · rw [hword]
      intro kind length hk hlong
      have hlength := decodeKind_length hk
      have htwo : length = 2 := by cases kind <;> simp only [Kind.wordCount] at hlength <;> omega
      have hnil : rest = [] := List.length_eq_zero_iff.mp (by omega)
      rw [hk, hnil]
      exact if_pos htwo
    · rw [hword]
      intro kind length hk hin
      have hlength := decodeKind_length hk
      have hok : TokenOk words ⟨offset, length, kind⟩ := ⟨hlength, hin⟩
      have hpos := decodeKind_pos hk
      have hloop : Relocates image
          (relocLoop env words (offset + length) (history ++ [⟨offset, length, kind⟩]))
          (Pef.relocLoop env words (words.drop (offset + length)) (offset + length)
            (history ++ [⟨offset, length, kind⟩])) := by
        refine relocLoop_mirrors fun token ht => ?_
        rcases List.mem_append.mp ht with ht | ht
        · exact hhistory token ht
        · exact List.mem_singleton.mp ht ▸ hok
      rw [hk]
      by_cases htwo : length = 2
      · obtain ⟨next, rest', rfl⟩ : ∃ next rest', rest = next :: rest' :=
          List.exists_cons_of_length_pos (by omega)
        have hrest' : words.drop (offset + 2) = rest' := (wordAt_of_drop hrest).2
        subst htwo
        rw [hrest'] at hloop
        exact (execute_mirrors hhistory hok).bind fun _ _ => hloop
      · have hone : length = 1 := by
          cases kind <;> simp only [Kind.wordCount] at hlength <;> omega
        subst hone
        rw [hrest] at hloop
        exact (execute_mirrors hhistory hok).bind fun _ _ => hloop
  · rw [if_neg h, List.drop_eq_nil_of_le (Nat.le_of_not_lt h), Pef.relocLoop]
    exact Mirrors.pure ()
termination_by words.length - offset

/-- **The checked interpreter is the interpreter**: no check of the language ever fails. -/
theorem relocate_mirrors (stream : List UInt8) (env : RelocEnv) :
    Relocates image (relocate stream env) (Pef.relocate stream env) := by
  unfold relocate Pef.relocate
  refine Mirrors.ite (fun _ => Mirrors.throw rfl) fun _ => ?_
  exact relocLoop_mirrors fun _ h => nomatch h

/-- `apply_relocations`, with the record of its additions. -/
def applyRelocations (image stream : List UInt8) (env : RelocEnv) (initialC initialD : Int) :
    EStateM.Result Exc Run Unit :=
  relocate stream env { state := .initial image initialC initialD, adds := [] }

/-- **Relocation is memory-safe and local.** For every stream, section, deltas and imports it ends
normally or with `HostError`, the section keeps its length, the additions are to words inside it,
and a byte changes only in one of those words; the result is that of `apply_relocations`. -/
theorem applyRelocations_safe (image stream : List UInt8) (env : RelocEnv)
    (initialC initialD : Int) :
    ∃ r : Run, Covered image r ∧
      (Checked.applyRelocations image stream env initialC initialD = .ok () r ∧
          Pef.applyRelocations image stream env initialC initialD = .ok () r.state ∨
        ∃ e, e.isHostError = true ∧
          Checked.applyRelocations image stream env initialC initialD = .error e r ∧
          Pef.applyRelocations image stream env initialC initialD = .error e r.state) := by
  have hstart : Covered image { state := .initial image initialC initialD, adds := [] } :=
    ⟨rfl, (fun _ h => nomatch h), fun _ h => absurd rfl h⟩
  have hrun := relocate_mirrors stream env _ hstart
  cases hx : relocate stream env { state := .initial image initialC initialD, adds := [] } with
  | ok a r =>
    obtain ⟨hplain, hcovered⟩ := (wp_iff_of_ok hx).mp hrun
    exact ⟨r, hcovered, Or.inl ⟨hx, hplain⟩⟩
  | error e r =>
    obtain ⟨⟨hplain, he⟩, hcovered⟩ := (wp_iff_of_error hx).mp hrun
    exact ⟨r, hcovered, Or.inr ⟨e, he, hx, hplain⟩⟩

end Checked

end Cwhost.Pef
