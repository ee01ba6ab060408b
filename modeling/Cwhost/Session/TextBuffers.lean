import Cwhost.Session.HostSession

/-!
# Texts in the scratch region (`session.py`, `_text_pointer`; `pluginlib.py`)

`_text_pointer` takes the memory of a text from the scratch region, whose pointer only ever goes up.
`CWReleaseFileText` takes the text out of `_text_buffers` and gives no memory back.

* `textPointer_spec`, `release_spec`: one text.
* `loadAndRelease_spec`: a sequence of texts, each released before the next one is loaded.
* `texts_fit_iff`: so such a sequence is loaded exactly when all its texts together fit in what is
  left of the region.
-/

namespace Cwhost.HostSession

open Lib

variable {M : ByteMemory} {l : HostSession M} {ctx : Nat}

/-! ## The region -/

/-- `SCRATCH_BASE + SCRATCH_SIZE`. -/
def scratchEnd : Nat := Guest.scratchBase + Guest.scratchSize

/-- **The scratch region between two texts**: it is mapped, the pointer is inside it, and every text
that is still recorded lies below the pointer. -/
structure Ready (ctx : Nat) (l : HostSession M) : Prop where
  context : l.session.ctxPtr = some ctx
  mapped : ByteMemory.MappedRange l.guest.uc Guest.scratchBase Guest.scratchSize
  base : Guest.scratchBase ≤ l.scratch
  inside : l.scratch ≤ scratchEnd
  below : ∀ ptr data, l.textBuffers.get? ptr = some data → ptr + data.length < l.scratch

/-- Where the pointer stands after a text, its terminator included. -/
def textStop (scratch : Nat) (data : List UInt8) : Nat :=
  Guest.alignUp scratch 4 + (data.length + 1)

theorem le_textStop (scratch : Nat) (data : List UInt8) : scratch ≤ textStop scratch data :=
  Nat.le_add_right_of_le (Guest.le_alignUp scratch (by decide))

/-- Where the pointer stands after a sequence of texts. -/
def scratchAfter (scratch : Nat) (texts : List (List UInt8)) : Nat :=
  texts.foldl textStop scratch

/-- The error of a full region. -/
def exhausted : Exc := .hostError "guest scratch allocation exhausted"

/-- What a text that fits changes: the pointer and the record, and bytes of the guest. -/
structure TextLoaded (l l' : HostSession M) (ptr : Nat) (data : List UInt8) : Prop where
  ptr_eq : ptr = Guest.alignUp l.scratch 4
  context : l'.session.ctxPtr = l.session.ctxPtr
  mapped : ∀ x, M.mapped l'.guest.uc x ↔ M.mapped l.guest.uc x
  scratch : l'.scratch = textStop l.scratch data
  buffers : l'.textBuffers = l.textBuffers.set ptr data

/-- `alloc` for a text takes the next multiple of four, or the region is full. -/
theorem alloc_spec (n : Nat) (l : HostSession M) :
    wp (alloc (n + 1) 4)
      (fun ptr l' => Guest.alignUp l.scratch 4 + (n + 1) ≤ scratchEnd ∧
        ptr = Guest.alignUp l.scratch 4 ∧
        l' = { l with scratch := Guest.alignUp l.scratch 4 + (n + 1) })
      (fun e _ => scratchEnd < Guest.alignUp l.scratch 4 + (n + 1) ∧ e = exhausted) l := by
  rw [alloc, if_neg (by decide), wp_bind, wp_get, Nat.max_eq_left (Nat.le_add_left 1 n)]
  dsimp only
  by_cases hfull : Guest.alignUp l.scratch 4 + (n + 1) > Guest.scratchBase + Guest.scratchSize
  · rw [if_pos hfull]
    exact ⟨hfull, rfl⟩
  · rw [if_neg hfull]
    exact ⟨Nat.le_of_not_gt hfull, rfl, rfl⟩

theorem scratchEnd_lt : scratchEnd < 2 ^ 32 := by decide

/-- Writing inside the region succeeds and keeps the mapping. -/
theorem write_inside {g : Guest M} {addr : Nat} {data : List UInt8}
    (hm : ByteMemory.MappedRange g.uc Guest.scratchBase Guest.scratchSize)
    (hbase : Guest.scratchBase ≤ addr) (hend : addr + data.length ≤ scratchEnd)
    (hdata : data ≠ []) :
    wp (Guest.write addr data) (fun _ g' => ∀ x, M.mapped g'.uc x ↔ M.mapped g.uc x)
      (fun _ _ => False) g := by
  have hacc : g.Accessible addr data.length :=
    ⟨fun x h1 h2 => hm x (hbase.trans h1) (h2.trans_le hend), (hend.trans scratchEnd_lt.le)⟩
  exact wp_mono (Guest.write_spec hacc (List.length_pos_iff.mpr hdata))
    (fun _ _ hw => hw.mapped) fun _ _ h => h

/-- The end of `_text_pointer`: the terminator, and the record. -/
theorem recordText_spec {l₁ : HostSession M} {ptr : Nat} {data : List UInt8} (h : Ready ctx l)
    (hptr : ptr = Guest.alignUp l.scratch 4) (hfits : textStop l.scratch data ≤ scratchEnd)
    (hmapped : ∀ x, M.mapped l₁.guest.uc x ↔ M.mapped l.guest.uc x)
    (hctx : l₁.session.ctxPtr = l.session.ctxPtr) (hscratch : l₁.scratch = textStop l.scratch data)
    (hbuffers : l₁.textBuffers = l.textBuffers) :
    wp (do
      onGuest (Guest.w8 (ptr + data.length) 0)
      modify fun l : HostSession M => { l with textBuffers := l.textBuffers.set ptr data }
      return ptr) (fun ptr l' => TextLoaded l l' ptr data) (fun _ _ => False) l₁ := by
  have hregion : ByteMemory.MappedRange l₁.guest.uc Guest.scratchBase Guest.scratchSize :=
    fun x h1 h2 => (hmapped x).mpr (h.mapped x h1 h2)
  have hbase : Guest.scratchBase ≤ ptr + data.length := by
    rw [hptr]
    exact Nat.le_add_right_of_le (h.base.trans (Guest.le_alignUp l.scratch (by decide)))
  have hend : ptr + data.length + (toBE 1 (0 % 2 ^ 8)).length ≤ scratchEnd := by
    rw [hptr, Nat.add_assoc]
    exact hfits
  rw [wp_bind, wp_onGuest, Guest.w8]
  refine wp_mono (write_inside hregion hbase hend (List.cons_ne_nil _ _)) (fun _ g hg => ?_)
    fun _ _ hf => hf
  rw [wp_bind, wp_modify, wp_pure]
  refine ⟨hptr, hctx, fun x => (hg x).trans (hmapped x), hscratch, ?_⟩
  show (l₁.withGuest g).textBuffers.set ptr data = _
  rw [textBuffers_withGuest, hbuffers]

/-- **Loading a text**: it fits and is put at the pointer, or the region is full. -/
theorem textPointer_spec (h : Ready ctx l) (data : List UInt8) :
    wp (textPointer data)
      (fun ptr l' => textStop l.scratch data ≤ scratchEnd ∧ TextLoaded l l' ptr data)
      (fun e _ => scratchEnd < textStop l.scratch data ∧ e = exhausted) l := by
  rw [textPointer, wp_bind]
  refine wp_mono (alloc_spec data.length l) ?_ fun _ _ he => he
  rintro ptr l₁ ⟨hfits, hptr, rfl⟩
  have hbase : Guest.scratchBase ≤ ptr := by
    rw [hptr]
    exact h.base.trans (Guest.le_alignUp l.scratch (by decide))
  have hend : ptr + data.length ≤ scratchEnd := by omega
  by_cases hdata : data = []
  · rw [if_neg (not_not.mpr hdata)]
    exact wp_mono (recordText_spec h hptr hfits (fun _ => Iff.rfl) rfl rfl rfl)
      (fun _ _ hl => ⟨hfits, hl⟩) fun _ _ hf => hf.elim
  · rw [if_pos hdata, wp_bind, wp_onGuest]
    refine wp_mono (write_inside h.mapped hbase hend hdata) (fun _ g hg => ?_)
      fun _ _ hf => hf.elim
    exact wp_mono (recordText_spec h hptr hfits hg rfl rfl rfl)
      (fun _ _ hl => ⟨hfits, hl⟩) fun _ _ hf => hf.elim

/-- **Releasing a text** that has just been loaded leaves the record as it was before. -/
theorem release_spec {l' : HostSession M} {ptr : Nat} {data : List UInt8} (h : Ready ctx l)
    (hfits : textStop l.scratch data ≤ scratchEnd) (hl : TextLoaded l l' ptr data) :
    wp (cwReleaseFileText ctx ptr)
      (fun _ l'' => Ready ctx l'' ∧ l''.scratch = textStop l.scratch data ∧
        l''.textBuffers = l.textBuffers) (fun _ _ => False) l' := by
  have hnew : l.textBuffers.get? ptr = none := by
    cases hget : l.textBuffers.get? ptr with
    | none => rfl
    | some old =>
      have hbelow := h.below ptr old hget
      have hle := Guest.le_alignUp l.scratch (show 0 < 4 by decide)
      rw [← hl.ptr_eq] at hle
      omega
  have hbuffers : (l'.textBuffers).erase ptr = l.textBuffers := by
    rw [hl.buffers, Dict.erase_set_of_get?_eq_none data hnew]
  have hcheck : Session.checkContext ctx l'.session = .ok () l'.session := by
    rw [Session.checkContext, bind_of_ok (get_eq _), hl.context, h.context, if_neg (by simp)]
    rfl
  rw [cwReleaseFileText, checkContext, onSession, wp_bind, wp_zoom, wp_iff_of_ok hcheck, wp_modify]
  refine ⟨⟨hl.context.trans h.context, fun x h1 h2 => (hl.mapped x).mpr (h.mapped x h1 h2), ?_, ?_,
    ?_⟩, hl.scratch, hbuffers⟩
  · show Guest.scratchBase ≤ l'.scratch
    rw [hl.scratch]
    exact h.base.trans (le_textStop _ _)
  · show l'.scratch ≤ scratchEnd
    rw [hl.scratch]
    exact hfits
  · intro old kept hget
    have hbelow := h.below old kept (hbuffers ▸ hget)
    show old + kept.length < l'.scratch
    rw [hl.scratch]
    exact hbelow.trans_le (le_textStop _ _)

/-! ## Sequences -/

/-- Texts loaded one after the other, each released before the next. -/
def loadAndRelease (ctx : Nat) : List (List UInt8) → EStateM Exc (HostSession M) Unit
  | [] => pure ()
  | data :: texts => do
    let ptr ← textPointer data
    cwReleaseFileText ctx ptr
    loadAndRelease ctx texts

/-- Every text costs its length and its terminator. -/
theorem sum_le_scratchAfter (texts : List (List UInt8)) (scratch : Nat) :
    scratch + (texts.map fun data => data.length + 1).sum ≤ scratchAfter scratch texts := by
  induction texts generalizing scratch with
  | nil => exact Nat.le_refl _
  | cons data texts ih =>
    have hrest := ih (textStop scratch data)
    have hpad := Guest.le_alignUp scratch (show 0 < 4 by decide)
    rw [List.map_cons, List.sum_cons]
    show _ ≤ scratchAfter (textStop scratch data) texts
    unfold textStop at hrest ⊢
    omega

/-- **A sequence of texts**: all fit and the record is as before, or the region is full. -/
theorem loadAndRelease_spec (texts : List (List UInt8)) (h : Ready ctx l) :
    wp (loadAndRelease ctx texts)
      (fun _ l' => scratchAfter l.scratch texts ≤ scratchEnd ∧ Ready ctx l' ∧
        l'.scratch = scratchAfter l.scratch texts ∧ l'.textBuffers = l.textBuffers)
      (fun e _ => scratchEnd < scratchAfter l.scratch texts ∧ e = exhausted) l := by
  induction texts generalizing l with
  | nil => exact ⟨h.inside, h, rfl, rfl⟩
  | cons data texts ih =>
    rw [loadAndRelease, wp_bind]
    refine wp_mono (textPointer_spec h data) ?_ fun e l' he => ?_
    · rintro ptr l' ⟨hfits, hl⟩
      rw [wp_bind]
      refine wp_mono (release_spec h hfits hl) ?_ fun _ _ h => h.elim
      rintro - l'' ⟨hready, hscratch, hbuffers⟩
      have hrest := ih hready
      rw [hscratch, hbuffers] at hrest
      exact hrest
    · exact ⟨he.1.trans_le ((Nat.le_add_right _ _).trans (sum_le_scratchAfter texts _)), he.2⟩

/-- Texts that are longer together than the region do not fit. -/
theorem exhausted_of_sum_gt {texts : List (List UInt8)} (h : Ready ctx l)
    (hsum : scratchEnd < l.scratch + (texts.map fun data => data.length + 1).sum) :
    ∃ l', loadAndRelease ctx texts l = .error exhausted l' := by
  have hspec := loadAndRelease_spec texts h
  cases hrun : loadAndRelease ctx texts l with
  | ok u l' =>
    have hend := wp_of_ok hspec hrun
    exact absurd ((sum_le_scratchAfter texts l.scratch).trans hend.1) (Nat.not_le_of_gt hsum)
  | error e l' =>
    have hend := wp_of_error hspec hrun
    exact ⟨l', congrArg (EStateM.Result.error · l') hend.2⟩

/-- **Released text is not reused**: texts that are loaded and released one after the other are all
loaded exactly when what they take of the scratch region, each from the next multiple of four on and
with its terminator, fits in the region as if none had been released. Nothing else fails, and the
record of the texts is as before. -/
theorem texts_fit_iff (h : Ready ctx l) (texts : List (List UInt8)) :
    ((∃ l', loadAndRelease ctx texts l = .ok () l') ↔
      scratchAfter l.scratch texts ≤ scratchEnd) ∧
    (∀ e l', loadAndRelease ctx texts l = .error e l' → e = exhausted) ∧
    ∀ l', loadAndRelease ctx texts l = .ok () l' →
      l'.scratch = scratchAfter l.scratch texts ∧ l'.textBuffers = l.textBuffers := by
  have hspec := loadAndRelease_spec texts h
  refine ⟨⟨?_, fun hfits => ?_⟩, ?_, ?_⟩
  · rintro ⟨l', hok⟩
    have hend := wp_of_ok hspec hok
    exact hend.1
  · cases hrun : loadAndRelease ctx texts l with
    | ok u l' => exact ⟨l', rfl⟩
    | error e l' =>
      have hend := wp_of_error hspec hrun
      exact absurd hfits (Nat.not_le_of_gt hend.1)
  · intro e l' herror
    have hend := wp_of_error hspec herror
    exact hend.2
  · intro l' hok
    have hend := wp_of_ok hspec hok
    exact hend.2.2

/-! ## A session whose texts do not fit -/

/-- A new session with its context. -/
def opened (heap : Heap M) (panels : List (Str × List UInt8)) : HostSession M :=
  let l := new heap panels
  { l with
    scratch := Guest.scratchBase + 64
    session := { l.session with ctxPtr := some Guest.scratchBase } }

theorem opened_scratch (heap : Heap M) (panels : List (Str × List UInt8)) :
    (opened heap panels).scratch = Guest.scratchBase + 64 := rfl

/-- It is the one that the first two steps of `load` leave. -/
theorem opened_eq (heap : Heap M) (panels : List (Str × List UInt8)) :
    (alloc 64 4 >>= fun ctx => onSession (modify fun s => { s with ctxPtr := some ctx }))
      (new heap panels) = .ok ⟨⟩ (opened heap panels) := by
  have haligned : Guest.alignUp (new heap panels).scratch 4 = Guest.scratchBase := by
    show Guest.alignUp Guest.scratchBase 4 = Guest.scratchBase
    decide
  have hspec := alloc_spec 63 (new heap panels)
  rw [haligned] at hspec
  cases hrun : alloc 64 4 (new heap panels) with
  | error e l' =>
    have hfull := wp_of_error hspec hrun
    exact absurd hfull.1 (by decide)
  | ok ptr l' =>
    obtain ⟨-, rfl, rfl⟩ := wp_of_ok hspec hrun
    rw [bind_of_ok hrun]
    rfl

/-- **A new session with its context is ready.** -/
theorem opened_ready {heap : Heap M} {g g' : Guest M} (panels : List (Str × List UInt8))
    (hnew : newHeap g = .ok heap g') : Ready Guest.scratchBase (opened heap panels) where
  context := rfl
  mapped := by
    have hm := wp_of_ok (newHeap_maps g) hnew
    exact hm.2
  base := Nat.le_add_right _ _
  inside := by
    rw [opened_scratch]
    decide
  below ptr data h := by cases h

/-- Two texts of five bytes fit. -/
theorem texts_fit_iff_two :
    ∃ l', loadAndRelease Guest.scratchBase [[1, 2, 3, 4, 5], [6, 7, 8, 9, 10]]
      (opened freshHeap []) = .ok () l' := by
  refine (texts_fit_iff (opened_ready [] newHeap_fresh) _).1.mpr ?_
  rw [opened_scratch]
  decide

/-- A text of 1 MiB. -/
def mebibyte : List UInt8 := List.replicate (2 ^ 20) 0

theorem length_mebibyte : mebibyte.length = 2 ^ 20 := List.length_replicate

theorem sixteen_too_long {text : List UInt8} (h : text.length = 2 ^ 20) :
    scratchEnd < Guest.scratchBase + 64 +
      ((List.replicate 16 text).map fun data => data.length + 1).sum := by
  rw [List.map_replicate, List.sum_replicate_nat, h]
  decide

/-- **Sixteen texts of 1 MiB** do not fit, although each is released before the next is loaded. -/
theorem sixteen_mebibytes :
    newHeap { uc := (⟨[], fun _ => 0⟩ : ByteMemory.Paged) } = .ok freshHeap freshHeap.guest ∧
      mebibyte.length ≤ 2 ^ 20 ∧
      ∃ l', loadAndRelease Guest.scratchBase (List.replicate 16 mebibyte) (opened freshHeap []) =
        .error (.hostError "guest scratch allocation exhausted") l' := by
  refine ⟨newHeap_fresh, Nat.le_of_eq length_mebibyte, ?_⟩
  refine exhausted_of_sum_gt (opened_ready [] newHeap_fresh) ?_
  -- `rw`, not `show`: comparing the sums by evaluation would count the bytes one by one
  rw [opened_scratch]
  exact sixteen_too_long length_mebibyte

end Cwhost.HostSession
