import Cwhost.Pef.RelocReference
import Mathlib.Data.List.Forall2
import Mathlib.Data.Option.Basic

/-!
# The relocation interpreter refines its repeat-free meaning

The interpreter's history and the decoded prefix are the same list: `Decodes` relates a token to
the instruction it stands for, and the induction over the stream keeps the history related to
the instructions decoded so far.

* `okState_executeRepeating`: a token does what its instruction means.
* `selectBlock_spec`: the tokens a repeat selects are the block of the reference.
* `okState_relocLoop`: the main loop from any point on.
* `decode_eq`: the bytes decode to the instructions that the interpreter finds in the words.
* `applyRelocations_refines`: success and the resulting section are those of the reference.
-/

namespace Cwhost.Pef

open Lib

variable {env : RelocEnv} {words : List Nat}

/-- The instruction of kind `kind` with first word `word` and, if it has one, second word
`next`. -/
def instrOf (kind : Kind) (word next : Nat) : Option Instr :=
  let low9 := word &&& 0x1FF
  match kind with
  | .skip => some (.plain (.skip (word >>> 6 &&& 0xFF) (word &&& 0x3F)) false)
  | .c => some (.plain (.byC (low9 + 1)) false)
  | .d => some (.plain (.byD (low9 + 1)) false)
  | .tv12 => some (.plain (.tv12 (low9 + 1)) false)
  | .tv8 => some (.plain (.tv8 (low9 + 1)) false)
  | .vtable8 => some (.plain (.vtable8 (low9 + 1)) false)
  | .importRun => some (.plain (.importRun (low9 + 1)) false)
  | .smImport => some (.plain (.importAt low9) false)
  | .smC => some (.plain (.setC low9) false)
  | .smD => some (.plain (.setD low9) false)
  | .smSection => some (.plain (.addSection low9) false)
  | .incr => some (.plain (.incr ((word &&& 0xFFF) + 1)) false)
  | .smRepeat => some (.again ((word >>> 8 &&& 0xF) + 1) ((word &&& 0xFF) + 1) false)
  | .setPosition => some (.plain (.setPosition ((word &&& 0x3FF) <<< 16 ||| next)) true)
  | .lgImport => some (.plain (.importAt ((word &&& 0x3FF) <<< 16 ||| next)) true)
  | .lgRepeat => some (.again ((word >>> 6 &&& 0xF) + 1) ((word &&& 0x3F) <<< 16 ||| next) true)
  | .lgSection =>
    let index := (word &&& 0x3F) <<< 16 ||| next
    match word >>> 6 &&& 0xF with
    | 0 => some (.plain (.addSection index) true)
    | 1 => some (.plain (.setC index) true)
    | 2 => some (.plain (.setD index) true)
    | _ => none

/-- The instructions that the interpreter finds in the words of a stream; `none` for a bad opcode or
a truncated last instruction. -/
def decodeStream : List Nat → Option (List Instr)
  | [] => some []
  | word :: rest =>
    match decodeKind word with
    | none => none
    | some (kind, length) =>
      if length = 2 then
        match rest with
        | [] => none
        | next :: rest' => (instrOf kind word next).bind fun i => (decodeStream rest').map (i :: ·)
      else (instrOf kind word 0).bind fun i => (decodeStream rest).map (i :: ·)

/-- The token stands for the instruction. -/
structure Decodes (words : List Nat) (token : Token) (i : Instr) : Prop where
  instr : instrOf token.kind (wordAt words token.offset) (wordAt words (token.offset + 1)) = some i
  length : token.length = i.words

/-! ## Single tokens -/

/-- Adding a word and then any change of the state. -/
theorem okState_addWord {f : RelocState → RelocState} {rest : RelocM Unit}
    (hrest : ∀ s, okState (rest s) = some (f s)) (value : Int) (s : RelocState) :
    okState ((addWord value >>= fun _ => rest) s) = (addMove value 0 s).map f := by
  simp only [addWord, okState_seq, okState_get, addMove, bind_assoc]
  by_cases h : s.pos + 4 > s.section_.length
  · rw [if_pos h, if_neg (by omega)]
    rfl
  · rw [if_neg h, if_pos (by omega)]
    exact hrest _

/-- Moving on after a word was added. -/
theorem addMove_map (value : Int) (gap : Nat) (s : RelocState) :
    (addMove value 0 s).map (fun t => { t with pos := t.pos + gap }) = addMove value gap s := by
  unfold addMove
  split
  · rfl
  · rfl

theorem okState_addWord_advance (value : Int) (gap : Nat) (s : RelocState) :
    okState ((addWord value >>= fun _ => advance gap) s) = addMove value gap s :=
  (okState_addWord (fun _ => rfl) value s).trans (addMove_map value gap s)

theorem okState_addWord_twice (value : Int) (s : RelocState) :
    okState ((do addWord value; advance 4; advance 4) s) = addMove value 8 s :=
  (okState_addWord (fun _ => rfl) value s).trans (addMove_map value 8 s)

theorem okState_addWord_seq {β : Type} (value : Int) (gap : Nat) (f : RelocM β) (s : RelocState) :
    okState ((do addWord value; advance gap; f) s) =
      (addMove value gap s).bind fun s => okState (f s) := by
  rw [← okState_addWord_advance value gap s, ← okState_seq, bind_assoc]

theorem okState_imp {β : Type} (index : Nat) (f : Int → RelocM β) (s : RelocState) :
    okState ((imp env index >>= f) s) =
      env.imports[index]?.bind fun value => okState (f value s) := by
  rw [imp]
  cases env.imports[index]? <;> rfl

theorem okState_delta {β : Type} (index : Nat) (f : Int → RelocM β) (s : RelocState) :
    okState ((delta env index >>= f) s) =
      env.sectionDeltas[index]?.bind fun value => okState (f value s) := by
  rw [delta]
  cases env.sectionDeltas[index]? <;> rfl

/-- Adding a word and updating the import index, in the order of the source. -/
theorem okState_addWord_import (value : Int) (g : Nat → Nat) (s : RelocState) :
    okState ((do
        addWord value
        modify fun s : RelocState => { s with importIndex := g s.importIndex }
        advance 4) s) =
      (addMove value 4 s).map fun t => { t with importIndex := g t.importIndex } := by
  rw [← addMove_map, Option.map_map]
  exact okState_addWord (fun _ => rfl) value s

theorem okState_setC (index : Nat) (s : RelocState) :
    okState ((do
        let value ← delta env index
        modify fun s : RelocState => { s with currentC := value }) s) =
      step env s (.setC index) :=
  (okState_delta index _ s).trans Option.map_eq_bind.symm

theorem okState_setD (index : Nat) (s : RelocState) :
    okState ((do
        let value ← delta env index
        modify fun s : RelocState => { s with currentD := value }) s) =
      step env s (.setD index) :=
  (okState_delta index _ s).trans Option.map_eq_bind.symm

theorem okState_addSection (index : Nat) (s : RelocState) :
    okState ((do
        let value ← delta env index
        addWord value
        advance 4) s) =
      step env s (.addSection index) := by
  refine (okState_delta index _ s).trans (congrArg _ (funext fun value => ?_))
  exact okState_addWord_advance value 4 s

/-- **A token does what its instruction means**; a repeat inside a repeat fails. -/
theorem okState_executeRepeating {token : Token} {i : Instr} (hd : Decodes words token i)
    (s : RelocState) :
    okState (executeRepeating env words token s) = i.plain?.bind (step env s) := by
  obtain ⟨hi, -⟩ := hd
  obtain ⟨offset, length, kind⟩ := token
  simp only at hi
  cases kind with
  | skip =>
    cases hi
    simp only [executeRepeating, Instr.plain?, Option.bind_some, step]
    rw [okState_seq, advance, okState_modify, Option.bind_some]
    refine okState_timesM_of (fun t => ?_) _ _
    exact okState_addWord_advance t.currentD 4 t
  | c =>
    cases hi
    simp only [executeRepeating, Instr.plain?, Option.bind_some, step]
    exact okState_timesM_of (fun t => okState_addWord_advance s.currentC 4 t) _ s
  | d =>
    cases hi
    simp only [executeRepeating, Instr.plain?, Option.bind_some, step]
    exact okState_timesM_of (fun t => okState_addWord_advance s.currentD 4 t) _ s
  | tv12 =>
    cases hi
    simp only [executeRepeating, Instr.plain?, Option.bind_some, step]
    refine okState_timesM_of (fun t => ?_) _ s
    refine (okState_addWord_seq t.currentC 4 _ t).trans (congrArg _ (funext fun u => ?_))
    exact okState_addWord_twice u.currentD u
  | tv8 =>
    cases hi
    simp only [executeRepeating, Instr.plain?, Option.bind_some, step]
    refine okState_timesM_of (fun t => ?_) _ s
    refine (okState_addWord_seq t.currentC 4 _ t).trans (congrArg _ (funext fun u => ?_))
    exact okState_addWord_advance u.currentD 4 u
  | vtable8 =>
    cases hi
    simp only [executeRepeating, Instr.plain?, Option.bind_some, step]
    refine okState_timesM_of (fun t => ?_) _ s
    exact okState_addWord_advance t.currentD 8 t
  | importRun =>
    cases hi
    simp only [executeRepeating, Instr.plain?, Option.bind_some, step]
    refine okState_timesM_of (fun t => ?_) _ s
    refine (okState_imp t.importIndex _ t).trans (congrArg _ (funext fun value => ?_))
    exact okState_addWord_import value (· + 1) t
  | smImport =>
    cases hi
    simp only [executeRepeating, Instr.plain?, Option.bind_some, step]
    refine (okState_imp _ _ s).trans (congrArg _ (funext fun value => ?_))
    exact okState_addWord_import value (fun _ => _) s
  | lgImport =>
    cases hi
    simp only [executeRepeating, Instr.plain?, Option.bind_some, step]
    refine (okState_imp _ _ s).trans (congrArg _ (funext fun value => ?_))
    exact okState_addWord_import value (fun _ => _) s
  | smC =>
    cases hi
    exact okState_setC _ s
  | smD =>
    cases hi
    exact okState_setD _ s
  | smSection =>
    cases hi
    exact okState_addSection _ s
  | incr => cases hi; rfl
  | setPosition => cases hi; rfl
  | smRepeat | lgRepeat => cases hi; rfl
  | lgSection =>
    simp only [executeRepeating]
    simp only [instrOf] at hi
    split at hi
    · rename_i hsub
      cases hi
      rw [if_pos hsub]
      exact okState_addSection _ s
    · rename_i hsub
      cases hi
      rw [if_neg (by omega), if_pos hsub]
      exact okState_setC _ s
    · rename_i hsub
      cases hi
      rw [if_neg (by omega), if_neg (by omega), if_pos hsub]
      exact okState_setD _ s
    · exact absurd hi (by simp)

/-- A token whose kind has no instruction fails. -/
theorem okState_executeRepeating_none {token : Token}
    (hi : instrOf token.kind (wordAt words token.offset) (wordAt words (token.offset + 1)) = none)
    (s : RelocState) : okState (executeRepeating env words token s) = none := by
  obtain ⟨offset, length, kind⟩ := token
  cases kind <;> simp only [instrOf, reduceCtorEq] at hi
  simp only [executeRepeating]
  split at hi
  · exact absurd hi (by simp)
  · exact absurd hi (by simp)
  · exact absurd hi (by simp)
  · rename_i h0 h1 h2
    rw [if_neg h0, if_neg h1, if_neg h2]
    rfl

/-! ## Repeats -/

/-- Replaying tokens folds their instructions, and fails at the first repeat among them. -/
theorem okState_replay {selected : List Token} {block : List Instr}
    (h : List.Forall₂ (Decodes words) selected block) (s : RelocState) :
    okState (replay env words selected s) =
      (block.mapM Instr.plain?).bind fun ps => ps.foldlM (step env) s := by
  induction h generalizing s with
  | nil => rfl
  | @cons token i selected block hd hrest ih =>
    rw [replay, okState_seq, okState_executeRepeating hd, List.mapM_cons]
    simp only [ih]
    cases i.plain? with
    | none => rfl
    | some p =>
      cases block.mapM Instr.plain? with
      | none => exact Option.bind_fun_none _
      | some ps => rfl

/-- `count` replays fold `count` copies. -/
theorem times_foldlM (ps : List Plain) (count : Nat) (s : RelocState) :
    times (fun s => ps.foldlM (step env) s) count s =
      (List.replicate count ps).flatten.foldlM (step env) s := by
  induction count generalizing s with
  | zero => rfl
  | succ count ih =>
    rw [times, List.replicate_succ, List.flatten_cons, List.foldlM_append]
    exact congrArg _ (funext ih)

theorem times_none {σ : Type} {f : σ → Option σ} (h : ∀ s, f s = none) {n : Nat} (hn : n ≠ 0)
    (s : σ) : times f n s = none := by
  obtain ⟨m, rfl⟩ := Nat.exists_eq_succ_of_ne_zero hn
  rw [times, h s]
  rfl

/-- Replaying a block `count` times folds its copies. -/
theorem okState_replays {selected : List Token} {block : List Instr}
    (hd : List.Forall₂ (Decodes words) selected block) (count : Nat) (s : RelocState) :
    okState (timesM count (replay env words selected) s) =
      (copies block count).bind fun ps => ps.foldlM (step env) s := by
  rw [okState_timesM_of (okState_replay hd), copies]
  by_cases h0 : count = 0
  · rw [if_pos h0, h0]
    rfl
  · rw [if_neg h0]
    cases block.mapM Instr.plain? with
    | none => exact times_none (fun _ => rfl) h0 s
    | some ps => exact times_foldlM ps count s

/-- **The selected tokens** stand for the block of the reference, and there are none exactly
when there is no such block. -/
theorem selectBlock_spec {n : Nat} : ∀ {r : List Token} {rb : List Instr},
    List.Forall₂ (Decodes words) r rb → ∀ {selected : List Token} {sb : List Instr} {total : Nat},
    List.Forall₂ (Decodes words) selected sb → total = (sb.map Instr.words).sum → total < n →
    (∃ selected' block, (∀ s, selectBlock n r selected total s = .ok selected' s) ∧
      List.Forall₂ (Decodes words) selected' block ∧
      blockBefore n (rb.reverse ++ sb) = some block) ∨
    ((∀ s, okState (selectBlock n r selected total s) = none) ∧
      blockBefore n (rb.reverse ++ sb) = none)
  | _, _, .nil, selected, sb, total, _, htot, hlt => by
    refine Or.inr ⟨fun s => ?_, ?_⟩
    · rw [selectBlock, if_pos (by omega)]
      rfl
    · rw [List.reverse_nil, List.nil_append]
      cases hb : blockBefore n sb with
      | none => rfl
      | some b =>
        obtain ⟨hsuf, hsum⟩ := blockBefore_eq_some_iff.mp hb
        have := sum_words_le_of_suffix hsuf
        omega
  | token :: r, i :: rb, .cons hd hrest, selected, sb, total, hsel, htot, hlt => by
    have hwhole : (i :: rb).reverse ++ sb = rb.reverse ++ i :: sb := by
      rw [List.reverse_cons, List.append_assoc]
      rfl
    have hsum : total + token.length = ((i :: sb).map Instr.words).sum := by
      rw [List.map_cons, List.sum_cons, htot, hd.length, Nat.add_comm]
    have hsuf : i :: sb <:+ rb.reverse ++ i :: sb := List.suffix_append _ _
    rw [hwhole]
    simp only [selectBlock]
    by_cases heq : total + token.length = n
    · refine Or.inl ⟨token :: selected, i :: sb, fun s => ?_, .cons hd hsel,
        blockBefore_eq_some_iff.mpr ⟨hsuf, by omega⟩⟩
      rw [if_pos heq]
      rfl
    · by_cases hgt : total + token.length > n
      · refine Or.inr ⟨fun s => ?_, @blockBefore_eq_none _ _ sb (i :: sb)
          (fun t ht => ?_) (by omega) (by omega)⟩
        · rw [if_neg heq, if_pos hgt]
          rfl
        · rcases List.suffix_or_suffix_of_suffix ht hsuf with h | h
          · rcases List.suffix_cons_iff.mp h with rfl | h
            · exact Or.inr (List.suffix_refl _)
            · exact Or.inl h
          · exact Or.inr h
      · rw [if_neg heq, if_neg hgt]
        exact selectBlock_spec hrest (.cons hd hsel) hsum (by omega)

/-- **A repeat** folds the copies of its block. -/
theorem okState_executeRepeat {history : List Token} {before : List Instr}
    (hh : List.Forall₂ (Decodes words) history before) {n : Nat} (hn : 0 < n) (count : Nat)
    (s : RelocState) :
    okState (executeRepeat env words history n count s) =
      ((blockBefore n before).bind fun block => copies block count).bind
        fun ps => ps.foldlM (step env) s := by
  have hrev := List.forall₂_reverse_iff.mpr hh
  have hspec := selectBlock_spec hrev .nil rfl hn
  rw [List.reverse_reverse, List.append_nil, List.map_nil, List.sum_nil] at hspec
  rw [executeRepeat, okState_bind]
  rcases hspec with ⟨selected, block, hsel, hblock, hb⟩ | ⟨hsel, hb⟩
  · rw [hsel s, hb]
    exact okState_replays hblock count s
  · have hs := hsel s
    rw [hb]
    cases hr : selectBlock n history.reverse [] 0 s with
    | ok a s' => rw [hr] at hs; exact absurd hs (by simp [okState])
    | error e s' => rfl

/-! ## The main loop -/

/-- The number of words of the instructions of a kind. -/
def Kind.wordCount : Kind → Nat
  | .setPosition | .lgImport | .lgRepeat | .lgSection => 2
  | _ => 1

/-- One comparison of a chain that yields a value. -/
theorem ite_some_cases {α : Type} {c : Prop} [Decidable c] {a b : α} {x : Option α}
    (h : (if c then some a else x) = some b) : (c ∧ a = b) ∨ x = some b := by
  by_cases hc : c
  · rw [if_pos hc] at h
    exact Or.inl ⟨hc, Option.some.inj h⟩
  · rw [if_neg hc] at h
    exact Or.inr h

/-- One comparison of a chain that yields nothing. -/
theorem ite_some_eq_none {α : Type} {c : Prop} [Decidable c] {a : α} {x : Option α} :
    (if c then some a else x) = none ↔ ¬ c ∧ x = none := by
  by_cases hc : c
  · rw [if_pos hc]
    exact iff_of_false (Option.some_ne_none a) fun h => h.1 hc
  · rw [if_neg hc]
    exact (and_iff_right hc).symm

theorem decodeKind_length {word length : Nat} {kind : Kind}
    (h : decodeKind word = some (kind, length)) : length = kind.wordCount := by
  simp only [decodeKind] at h
  repeat
    rcases ite_some_cases h with ⟨-, h⟩ | h
    · cases h
      rfl
  cases h

theorem instrOf_words {kind : Kind} {word next : Nat} {i : Instr}
    (h : instrOf kind word next = some i) : i.words = kind.wordCount := by
  cases kind with
  | lgSection =>
    simp only [instrOf] at h
    split at h <;> cases h <;> rfl
  | _ => cases h; rfl

/-- A kind of one word does not look at the next one. -/
theorem instrOf_next {kind : Kind} (hk : kind.wordCount ≠ 2) (word next : Nat) :
    instrOf kind word next = instrOf kind word 0 := by
  cases kind <;> first | rfl | exact absurd rfl hk

theorem instrOf_short {kind : Kind} (hk : kind.wordCount ≠ 2) (word : Nat) :
    ∃ i, instrOf kind word 0 = some i := by
  cases kind <;> first | exact ⟨_, rfl⟩ | exact absurd rfl hk

theorem execute_of_plain {token : Token} (history : List Token)
    (h1 : token.kind ≠ .smRepeat) (h2 : token.kind ≠ .lgRepeat) :
    execute env words history token = executeRepeating env words token := by
  unfold execute
  cases hk : token.kind <;> first | rfl | exact absurd hk h1 | exact absurd hk h2

/-- **One step of the main loop** is the fold of what its instruction stands for. -/
theorem okState_execute {history : List Token} {before : List Instr}
    (hh : List.Forall₂ (Decodes words) history before) {token : Token} {i : Instr}
    (hd : Decodes words token i) (s : RelocState) :
    okState (execute env words history token s) =
      (expandOne before i).bind fun ps => ps.foldlM (step env) s := by
  have hi := hd.instr
  by_cases h1 : token.kind = .smRepeat
  · rw [h1] at hi
    cases hi
    simp only [execute, h1]
    exact okState_executeRepeat hh (Nat.succ_pos _) _ s
  by_cases h2 : token.kind = .lgRepeat
  · have hl := hd.length
    rw [h2] at hi
    cases hi
    simp only [execute, h2]
    rw [if_neg (by rw [hl]; simp [Instr.words])]
    exact okState_executeRepeat hh (Nat.succ_pos _) _ s
  rw [execute_of_plain history h1 h2, okState_executeRepeating hd]
  cases i with
  | plain p wide => exact (bind_pure (step env s p)).symm
  | again n count wide =>
    exfalso
    cases hk : token.kind <;> rw [hk] at hi h1 h2 <;>
      first
      | exact h1 rfl
      | exact h2 rfl
      | cases hi
      | (simp only [instrOf] at hi; split at hi <;> cases hi)

theorem okState_execute_none {history : List Token} {token : Token}
    (hi : instrOf token.kind (wordAt words token.offset) (wordAt words (token.offset + 1)) = none)
    (s : RelocState) : okState (execute env words history token s) = none := by
  rw [execute_of_plain history (fun h => by rw [h] at hi; cases hi)
    (fun h => by rw [h] at hi; cases hi)]
  exact okState_executeRepeating_none hi s

/-- Folding the head of a stream and then the rest of it. -/
theorem fold_cons (before : List Instr) (i : Instr) (rest : Option (List Instr)) (s : RelocState) :
    (((expandOne before i).bind fun ps => ps.foldlM (step env) s).bind fun s' =>
      rest.bind fun is => (expand (before ++ [i]) is).bind fun ps => ps.foldlM (step env) s') =
    (rest.map (i :: ·)).bind fun is => (expand before is).bind fun ps =>
      ps.foldlM (step env) s := by
  cases rest with
  | none => exact Option.bind_fun_none _
  | some is =>
    simp only [Option.bind_some, Option.map_some, expand]
    cases expandOne before i with
    | none => rfl
    | some ps =>
      cases expand (before ++ [i]) is with
      | none => exact Option.bind_fun_none _
      | some qs =>
        simp only [Option.bind_some, Option.map_some]
        exact (List.foldlM_append (m := Option)).symm

theorem wordAt_of_drop {offset word : Nat} {rest : List Nat}
    (h : words.drop offset = word :: rest) :
    wordAt words offset = word ∧ words.drop (offset + 1) = rest := by
  refine ⟨?_, ?_⟩
  · have := @List.getElem?_drop Nat words offset 0
    rw [h, Nat.add_zero] at this
    rw [wordAt, List.getD_eq_getElem?_getD, ← this]
    rfl
  · rw [← List.tail_drop, h, List.tail_cons]

/-- **The main loop**, from any point of the stream on, folds the rest of the reference. -/
theorem okState_relocLoop (env : RelocEnv) (words : List Nat) : ∀ (rest : List Nat) {offset : Nat}
    {history : List Token} {before : List Instr}, words.drop offset = rest →
    List.Forall₂ (Decodes words) history before → ∀ s : RelocState,
    okState (relocLoop env words rest offset history s) =
      (decodeStream rest).bind fun is => (expand before is).bind fun ps =>
        ps.foldlM (step env) s
  | [], _, _, _, _, _, _ => rfl
  | word :: rest, offset, history, before, hrest, hh, s => by
    obtain ⟨hword, hdrop⟩ := wordAt_of_drop hrest
    rw [relocLoop.eq_def, decodeStream.eq_def]
    simp only
    cases hk : decodeKind word with
    | none => rfl
    | some kl =>
      obtain ⟨kind, length⟩ := kl
      have hlen := decodeKind_length hk
      simp only
      by_cases h2 : length = 2
      · rw [if_pos h2, if_pos h2]
        cases rest with
        | nil => rfl
        | cons next rest' =>
          obtain ⟨hnext, hdrop'⟩ := wordAt_of_drop hdrop
          simp only [okState_seq]
          cases hi : instrOf kind word next with
          | none =>
            rw [okState_execute_none (by simp only [hword, hnext, hi])]
            rfl
          | some i =>
            have hd : Decodes words ⟨offset, length, kind⟩ i :=
              ⟨by simp only [hword, hnext, hi], hlen.trans (instrOf_words hi).symm⟩
            have ih := okState_relocLoop env words rest' hdrop'
              (List.rel_append hh (.cons hd .nil))
            rw [okState_execute hh hd, funext ih]
            exact fold_cons before i (decodeStream rest') s
      · rw [if_neg h2, if_neg h2]
        simp only [okState_seq]
        have hnext := @instrOf_next kind (hlen ▸ h2) word (wordAt words (offset + 1))
        cases hi : instrOf kind word 0 with
        | none =>
          rw [okState_execute_none (by simp only [hword, hnext, hi])]
          rfl
        | some i =>
          have hd : Decodes words ⟨offset, length, kind⟩ i :=
            ⟨by simp only [hword, hnext, hi], hlen.trans (instrOf_words hi).symm⟩
          have ih := okState_relocLoop env words rest hdrop (List.rel_append hh (.cons hd .nil))
          rw [okState_execute hh hd, funext ih]
          exact fold_cons before i (decodeStream rest) s
termination_by rest => rest.length
decreasing_by all_goals (subst_vars; simp <;> omega)

/-- The state before the first instruction. -/
def RelocState.initial (image : List UInt8) (initialC initialD : Int) : RelocState :=
  { section_ := image, pos := 0, importIndex := 0, currentC := initialC, currentD := initialD }

/-! ## The words and the bytes of a stream -/

theorem and_mask (word n : Nat) : word &&& (2 ^ n - 1) = word % 2 ^ n :=
  Nat.and_two_pow_sub_one_eq_mod word n

/-- The second word below the low bits of the first one. -/
theorem shift_or_next (high : Nat) {next : Nat} (h : next < 65536) :
    high <<< 16 ||| next = high * 65536 + next := by
  have hlt : next < 2 ^ 16 := h
  rw [← Nat.shiftLeft_add_eq_or_of_lt hlt, Nat.shiftLeft_eq]

/-- The words that begin an instruction of a kind. -/
def Kind.range : Kind → Nat × Nat
  | .skip => (0, 0x4000)
  | .c => (0x4000, 0x4200)
  | .d => (0x4200, 0x4400)
  | .tv12 => (0x4400, 0x4600)
  | .tv8 => (0x4600, 0x4800)
  | .vtable8 => (0x4800, 0x4A00)
  | .importRun => (0x4A00, 0x4C00)
  | .smImport => (0x6000, 0x6200)
  | .smC => (0x6200, 0x6400)
  | .smD => (0x6400, 0x6600)
  | .smSection => (0x6600, 0x6800)
  | .incr => (0x8000, 0x9000)
  | .smRepeat => (0x9000, 0xA000)
  | .setPosition => (0xA000, 0xA400)
  | .lgImport => (0xA400, 0xA800)
  | .lgRepeat => (0xB000, 0xB400)
  | .lgSection => (0xB400, 0xB800)

theorem decodeKind_range {word length : Nat} {kind : Kind} (hw : word < 65536)
    (h : decodeKind word = some (kind, length)) : kind.range.1 ≤ word ∧ word < kind.range.2 := by
  simp only [decodeKind, Nat.shiftRight_eq_div_pow, Nat.reducePow] at h
  iterate 17
    rcases ite_some_cases h with ⟨hc, h⟩ | h
    · cases h
      simp only [Kind.range]
      omega
  cases h

/-- Between the ranges of the kinds there are no instructions. -/
theorem decode_unknown {word : Nat} (hw : word < 65536) (h : decodeKind word = none) (next : Nat) :
    shortInstr word = none ∧ longInstr word next = none := by
  simp only [decodeKind, Nat.shiftRight_eq_div_pow, Nat.reducePow, ite_some_eq_none] at h
  constructor
  · have hgap : (0x4C00 ≤ word ∧ word < 0x6000) ∨ (0x6800 ≤ word ∧ word < 0x8000) ∨
        0xA000 ≤ word := by omega
    rcases hgap with hgap | hgap | hgap
    all_goals simp (disch := omega) only [shortInstr, if_pos, if_neg]
  · have hgap : word < 0xA000 ∨ (0xA800 ≤ word ∧ word < 0xB000) ∨ 0xB800 ≤ word := by omega
    rcases hgap with hgap | hgap | hgap
    all_goals simp (disch := omega) only [longInstr, if_pos, if_neg]

/-- An instruction of one word is the one the interpreter executes. -/
theorem shortInstr_eq {word : Nat} {kind : Kind} (hk : kind.wordCount ≠ 2)
    (hr : kind.range.1 ≤ word ∧ word < kind.range.2) :
    shortInstr word = instrOf kind word 0 := by
  obtain ⟨hlow, hhigh⟩ := hr
  have h6 : word &&& 0x3F = word % 64 := and_mask word 6
  have h8 : word &&& 0xFF = word % 256 := and_mask word 8
  have h9 : word &&& 0x1FF = word % 512 := and_mask word 9
  have h12 : word &&& 0xFFF = word % 4096 := and_mask word 12
  have hskip : word >>> 6 &&& 0xFF = word / 64 % 256 := by
    rw [Nat.shiftRight_eq_div_pow]
    exact and_mask _ 8
  have hblock : word >>> 8 &&& 0xF = word / 256 % 16 := by
    rw [Nat.shiftRight_eq_div_pow]
    exact and_mask _ 4
  -- The range decides every comparison of the chain.
  cases kind <;> first | exact absurd rfl hk | simp only [Kind.range] at hlow hhigh
  all_goals
    simp (disch := omega) only [shortInstr, if_pos, if_neg]
    simp only [instrOf, h6, h8, h9, h12, hskip, hblock]

/-- No instruction of one word begins like one of two. -/
theorem shortInstr_wide {word : Nat} {kind : Kind} (hk : kind.wordCount = 2)
    (hr : kind.range.1 ≤ word) : shortInstr word = none := by
  cases kind <;> first | exact absurd hk (by decide) | simp only [Kind.range] at hr
  all_goals simp (disch := omega) only [shortInstr, if_neg]

/-- An instruction of two words is the one the interpreter executes. -/
theorem longInstr_eq {word next : Nat} {kind : Kind} (hk : kind.wordCount = 2)
    (hr : kind.range.1 ≤ word ∧ word < kind.range.2) (hn : next < 65536) :
    longInstr word next = instrOf kind word next := by
  obtain ⟨hlow, hhigh⟩ := hr
  have h6 : word &&& 0x3F = word % 64 := and_mask word 6
  have h10 : word &&& 0x3FF = word % 1024 := and_mask word 10
  have hfield : word >>> 6 &&& 0xF = word / 64 % 16 := by
    rw [Nat.shiftRight_eq_div_pow]
    exact and_mask _ 4
  cases kind <;> first | exact absurd hk (by decide) | simp only [Kind.range] at hlow hhigh
  case lgSection =>
    simp only [instrOf, h6, hfield, shift_or_next _ hn]
    split
    · simp (disch := omega) only [longInstr, if_pos, if_neg]
    · simp (disch := omega) only [longInstr, if_pos, if_neg]
    · simp (disch := omega) only [longInstr, if_pos, if_neg]
    · rename_i h0 h1 h2
      have hbad : 0xB4C0 ≤ word := by
        by_contra hlt
        have hsub : word / 64 % 16 = 0 ∨ word / 64 % 16 = 1 ∨ word / 64 % 16 = 2 := by omega
        rcases hsub with h | h | h
        · exact h0 h
        · exact h1 h
        · exact h2 h
      simp (disch := omega) only [longInstr, if_neg]
  all_goals
    simp (disch := omega) only [longInstr, if_pos, if_neg]
    simp only [instrOf, h6, h10, hfield, shift_or_next _ hn]

theorem wordOf_lt (hi lo : UInt8) : wordOf hi lo < 65536 := by
  have h₁ := hi.toNat_lt
  have h₂ := lo.toNat_lt
  unfold wordOf
  omega

/-- A word more does not change the parity of a stream. -/
theorem length_word_mod_two (hi lo : UInt8) (rest : List UInt8) :
    (hi :: lo :: rest).length % 2 = rest.length % 2 := by
  rw [List.length_cons, List.length_cons]
  omega

theorem streamWords_cons (hi lo : UInt8) (rest : List UInt8) :
    streamWords (hi :: lo :: rest) = wordOf hi lo :: streamWords rest := rfl

/-- **The instructions of the bytes** are those the interpreter finds in the words. -/
theorem decode_eq : ∀ stream : List UInt8,
    decode stream = if stream.length % 2 ≠ 0 then none else decodeStream (streamWords stream)
  | [] => rfl
  | [_] => rfl
  | hi :: lo :: rest => by
    rw [length_word_mod_two, streamWords_cons, decode.eq_def, decodeStream.eq_def]
    dsimp only
    have hw := wordOf_lt hi lo
    cases hk : decodeKind (wordOf hi lo) with
    | none =>
      rw [(decode_unknown hw hk 0).1]
      dsimp only
      rw [ite_self]
      match rest with
      | [] => rfl
      | [_] => rfl
      | hi' :: lo' :: rest' =>
        dsimp only
        rw [(decode_unknown hw hk _).2]
        rfl
    | some kl =>
      obtain ⟨kind, length⟩ := kl
      have hlen := decodeKind_length hk
      have hr := decodeKind_range hw hk
      dsimp only
      by_cases h2 : length = 2
      · rw [if_pos h2, shortInstr_wide (hlen.symm.trans h2) hr.1]
        dsimp only
        match rest with
        | [] => rfl
        | [_] => rfl
        | hi' :: lo' :: rest' =>
          rw [length_word_mod_two, streamWords_cons]
          dsimp only
          rw [longInstr_eq (hlen.symm.trans h2) hr (wordOf_lt hi' lo'),
            decode_eq rest']
          by_cases hpar : rest'.length % 2 ≠ 0
          · rw [if_pos hpar, if_pos hpar]
            exact Option.bind_fun_none _
          · rw [if_neg hpar, if_neg hpar]
      · have hone : kind.wordCount ≠ 2 := fun h => h2 (hlen.trans h)
        obtain ⟨i, hi⟩ := instrOf_short hone (wordOf hi lo)
        rw [if_neg h2, shortInstr_eq hone hr, decode_eq rest, hi]
        by_cases hpar : rest.length % 2 ≠ 0
        · rw [if_pos hpar, if_pos hpar]
          rfl
        · rw [if_neg hpar, if_neg hpar]
          rfl

/-- The repeat-free list of a stream. -/
def streamPlains (stream : List UInt8) : Option (List Plain) :=
  (decode stream).bind fun is => expand [] is

/-- The whole run is the fold of its repeat-free list. -/
theorem okState_applyRelocations (image stream : List UInt8) (env : RelocEnv)
    (initialC initialD : Int) :
    okState (applyRelocations image stream env initialC initialD) =
      (streamPlains stream).bind fun ps =>
        ps.foldlM (step env) (.initial image initialC initialD) := by
  rw [applyRelocations, relocate, streamPlains, decode_eq]
  by_cases h : stream.length % 2 ≠ 0
  · rw [if_pos h, if_pos h]
    rfl
  · rw [if_neg h, if_neg h, Option.bind_assoc]
    exact okState_relocLoop env (streamWords stream) (streamWords stream) List.drop_zero .nil _

/-- **The interpreter refines the reference**: for every section image, stream and environment
it succeeds exactly when decoding, expanding and folding does, with the same section. -/
theorem applyRelocations_refines (image stream : List UInt8) (env : RelocEnv)
    (initialC initialD : Int) :
    (okState (applyRelocations image stream env initialC initialD)).map RelocState.section_ =
      reference image stream env initialC initialD := by
  rw [okState_applyRelocations, streamPlains, reference]
  cases decode stream with
  | none => rfl
  | some is =>
    cases hx : expand [] is with
    | none => simp [hx]
    | some ps =>
      simp only [Option.bind_some, Option.bind_eq_bind, hx]
      exact Option.map_eq_bind

end Cwhost.Pef
