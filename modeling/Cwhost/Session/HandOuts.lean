import Cwhost.Session.LoadFile

/-!
# What was handed out in the scratch region (`session.py`, `pluginlib.py`)

Texts of files, license tokens and secret preferences are put into the scratch region, and a table
of the session remembers where. The plug-in keeps the addresses and reads there much later.

* `FileHost.Call`: the callbacks that hand something out, the one that takes a text back, and
  stores of the plug-in elsewhere in memory.
* `Held`: everything the tables remember is in memory.
* `Lasting`: from one state to a later one, nothing below the scratch pointer has changed.
* `run_held`: **both hold along every run**, however its calls end.

Premises (`Call.Legal`): the records and slots that the plug-in hands over, and its own stores, are
off the scratch region.
-/

namespace Cwhost

open Lib Vfs

variable {M : ByteMemory}

/-! ## Guest memory off the region -/

/-- A range without a byte in the scratch region. -/
def Elsewhere (addr n : Nat) : Prop :=
  addr + n ≤ Guest.scratchBase ∨ HostSession.scratchEnd ≤ addr ∧ addr + n ≤ 2 ^ 32

theorem Elsewhere.sub {a n b m : Nat} (h : Elsewhere a n) (h1 : a ≤ b) (h2 : b + m ≤ a + n) :
    Elsewhere b m := by
  unfold Elsewhere at h ⊢
  omega

/-- The scratch region is the same. -/
structure Spared (g g' : Guest M) : Prop where
  mapped : ∀ x, M.mapped g'.uc x ↔ M.mapped g.uc x
  bytes : ∀ x, Guest.scratchBase ≤ x → x < HostSession.scratchEnd → g'.byte x = g.byte x

theorem spared_steps : Steps fun g g' : Guest M => Spared g g' where
  refl _ := ⟨fun _ => Iff.rfl, fun _ _ _ => rfl⟩
  trans h h' := ⟨fun x => (h'.mapped x).trans (h.mapped x),
    fun x h1 h2 => (h'.bytes x h1 h2).trans (h.bytes x h1 h2)⟩

/-- Reading. -/
theorem read_spared (addr n : Nat) :
    Along Spared (Guest.read addr n : EStateM Exc (Guest M) (List UInt8)) :=
  .bind spared_steps (.get spared_steps) fun g => by
    cases M.memRead g.uc (addr % 2 ^ 32) n with
    | some data => exact .pure spared_steps _
    | none => exact .throw spared_steps _

/-- Writing elsewhere. -/
theorem write_spared {addr n : Nat} {data : List UInt8} (h : Elsewhere addr n)
    (hlen : data.length = n) :
    Along Spared (Guest.write addr data : EStateM Exc (Guest M) Unit) := by
  refine .of_wp fun g => wp_mono (Guest.write_any g addr data) (fun _ g' hw => ?_) fun _ g' he => ?_
  · refine ⟨hw.mapped, fun x h1 h2 => hw.frame x fun hx => ?_⟩
    have hx1 := hx.1
    have hx2 := hx.2
    have hend : HostSession.scratchEnd = Guest.scratchBase + Guest.scratchSize := rfl
    have hsize : Guest.scratchBase + Guest.scratchSize < 2 ^ 32 := by decide
    simp only at hx1 hx2
    unfold Elsewhere at h
    omega
  · rw [he]
    exact spared_steps.refl g

theorem w32_spared {addr : Nat} (h : Elsewhere addr 4) (value : Nat) :
    Along Spared (Guest.w32 addr value : EStateM Exc (Guest M) Unit) :=
  write_spared h (toBE_length 4 _)

/-- What a field is encoded to has its size. -/
theorem Built.encodeField_length {py : Numerals} {s : Struct} (hs : Built py s)
    {entry : LayoutEntry Struct} (hentry : entry ∈ s.layout) {value : Value} {raw : List UInt8}
    (h : encodeField py s.name entry.type entry.typ value = .ok raw) :
    raw.length = entry.typ.size := by
  have hfield := hs.field hentry value
  cases hform : fieldForm py entry.type entry.typ value with
  | none =>
    rw [hform] at hfield
    obtain ⟨e, he⟩ := hfield
    cases h.symm.trans he
  | some form =>
    rw [hform] at hfield
    obtain ⟨raw', hraw, hlen, -⟩ := hfield
    cases h.symm.trans hraw
    exact hlen

/-- A field of a record elsewhere. -/
theorem writeField_spared {py : Numerals} {s : Struct} (hs : Built py s) {addr : Nat}
    (h : Elsewhere addr s.size) (field : Str) (value : Value) :
    Along Spared (s.writeField py addr field value : EStateM Exc (Guest M) Unit) := by
  unfold Struct.writeField
  cases hfind : s.layout.find? fun entry => decide (entry.field = field) with
  | none => exact .throw spared_steps _
  | some entry =>
    have hentry : entry ∈ s.layout := List.mem_of_find?_eq_some hfind
    have hinside := hs.inside hentry
    have hplace : Elsewhere (addr + entry.offset) entry.typ.size :=
      h.sub (Nat.le_add_right addr _) (by omega)
    refine .of_wp fun g => ?_
    rw [wp_bind]
    refine wp_ofExcept (fun raw henc => ?_) fun e _ => spared_steps.refl g
    exact (write_spared hplace (hs.encodeField_length hentry henc)).wp g

namespace HostSession

variable {l l' : HostSession M} {ctx : Nat}

/-! ## What the tables remember -/

/-- The bytes are in the region, below the pointer. -/
structure BytesAt (l : HostSession M) (addr : Nat) (data : List UInt8) : Prop where
  base : Guest.scratchBase ≤ addr
  below : addr + data.length ≤ l.scratch
  held : ByteMemory.bytes l.guest.uc addr data.length = data

/-- The word of a secret preference is the address of the panel's bytes. -/
def SecretAt (l : HostSession M) (name : Str) (word : Nat) : Prop :=
  ∃ data block, l.session.panels.lookup name = some data ∧
    BytesAt l word (toBE 4 (block % 2 ^ 32)) ∧ BytesAt l block data

/-- **Everything the tables remember is in memory.** -/
structure Held (ctx : Nat) (l : HostSession M) : Prop extends Ready ctx l where
  texts : ∀ ptr data, l.textBuffers.get? ptr = some data → BytesAt l ptr (data ++ [0])
  tokens : ∀ slot token, l.licenseTokens.get? slot = some token →
    BytesAt l token (toBE 4 (0x4C494345 % 2 ^ 32))
  secrets : ∀ name word, l.secretWords.get? name = some word → SecretAt l name word

/-- Nothing below the pointer has changed; a token or a word stays the one it was. -/
structure Kept (l l' : HostSession M) : Prop where
  context : l'.session.ctxPtr = l.session.ctxPtr
  panels : l'.session.panels = l.session.panels
  mapped : ∀ x, M.mapped l'.guest.uc x ↔ M.mapped l.guest.uc x
  pointer : l.scratch ≤ l'.scratch
  inside : l.scratch ≤ scratchEnd → l'.scratch ≤ scratchEnd
  bytes : ∀ x, Guest.scratchBase ≤ x → x < l.scratch → l'.guest.byte x = l.guest.byte x
  tokens : ∀ slot token, l.licenseTokens.get? slot = some token →
    l'.licenseTokens.get? slot = some token
  secrets : ∀ name word, l.secretWords.get? name = some word →
    l'.secretWords.get? name = some word

theorem kept_steps : Steps fun l l' : HostSession M => Kept l l' where
  refl _ := ⟨rfl, rfl, fun _ => Iff.rfl, Nat.le_refl _, id, fun _ _ _ => rfl, fun _ _ => id,
    fun _ _ => id⟩
  trans h h' := {
    context := h'.context.trans h.context
    panels := h'.panels.trans h.panels
    mapped := fun x => (h'.mapped x).trans (h.mapped x)
    pointer := h.pointer.trans h'.pointer
    inside := h'.inside ∘ h.inside
    bytes := fun x h1 h2 => (h'.bytes x h1 (h2.trans_le h.pointer)).trans (h.bytes x h1 h2)
    tokens := fun slot token => h'.tokens slot token ∘ h.tokens slot token
    secrets := fun name word => h'.secrets name word ∘ h.secrets name word }

theorem BytesAt.kept {addr : Nat} {data : List UInt8} (h : BytesAt l addr data)
    (hk : Kept l l') : BytesAt l' addr data where
  base := h.base
  below := h.below.trans hk.pointer
  held := by
    rw [← h.held, ByteMemory.bytes_length]
    exact ByteMemory.bytes_congr fun x h1 h2 =>
      hk.bytes x (h.base.trans h1) (h2.trans_le h.below)

theorem SecretAt.kept {name : Str} {word : Nat} (h : SecretAt l name word) (hk : Kept l l') :
    SecretAt l' name word := by
  obtain ⟨data, block, hpanel, hword, hblock⟩ := h
  exact ⟨data, block, hk.panels ▸ hpanel, hword.kept hk, hblock.kept hk⟩

/-- **A later state**, where every new entry of a table is in memory. -/
theorem Held.later (h : Held ctx l) (hk : Kept l l')
    (htexts : ∀ ptr data, l'.textBuffers.get? ptr = some data →
      l.textBuffers.get? ptr = some data ∨ BytesAt l' ptr (data ++ [0]))
    (htokens : ∀ slot token, l'.licenseTokens.get? slot = some token →
      l.licenseTokens.get? slot = some token ∨
        BytesAt l' token (toBE 4 (0x4C494345 % 2 ^ 32)))
    (hsecrets : ∀ name word, l'.secretWords.get? name = some word →
      l.secretWords.get? name = some word ∨ SecretAt l' name word) : Held ctx l' := by
  have htext : ∀ ptr data, l'.textBuffers.get? ptr = some data → BytesAt l' ptr (data ++ [0]) :=
    fun ptr data hget =>
      (htexts ptr data hget).elim (fun hold => (h.texts ptr data hold).kept hk) id
  refine ⟨⟨hk.context.trans h.context, fun x h1 h2 => (hk.mapped x).mpr (h.mapped x h1 h2),
    h.base.trans hk.pointer, hk.inside h.inside, fun ptr data hget => ?_⟩, htext, ?_, ?_⟩
  · have hbelow := (htext ptr data hget).below
    rw [List.length_append, List.length_singleton] at hbelow
    omega
  · exact fun slot token hget =>
      (htokens slot token hget).elim (fun hold => (h.tokens slot token hold).kept hk) id
  · exact fun name word hget =>
      (hsecrets name word hget).elim (fun hold => (h.secrets name word hold).kept hk) id

/-- From a state that is held to one that is, with everything handed out as it was. -/
def Lasting (ctx : Nat) (l l' : HostSession M) : Prop := Held ctx l → Held ctx l' ∧ Kept l l'

theorem lasting_steps (ctx : Nat) : Steps (Lasting (M := M) ctx) where
  refl l h := ⟨h, kept_steps.refl l⟩
  trans h h' hl := by
    obtain ⟨h₁, hk₁⟩ := h hl
    obtain ⟨h₂, hk₂⟩ := h' h₁
    exact ⟨h₂, kept_steps.trans hk₁ hk₂⟩

/-! ## The callbacks -/

/-- Work in guest memory off the region. -/
theorem onGuest_lasting {α : Type} {x : EStateM Exc (Guest M) α} (h : Along Spared x) :
    Along (Lasting ctx) (onGuest x) := by
  have hspared : ∀ (l : HostSession M) (g : Guest M), Spared l.guest g →
      Lasting ctx l (l.withGuest g) := by
    intro l g hg hl
    have hk : Kept l (l.withGuest g) := ⟨rfl, rfl, hg.mapped, Nat.le_refl _, id,
      fun x h1 h2 => hg.bytes x h1 (h2.trans_le hl.inside), fun _ _ => id, fun _ _ => id⟩
    exact ⟨hl.later hk (fun _ _ => .inl) (fun _ _ => .inl) fun _ _ => .inl, hk⟩
  refine .of_wp fun l => wp_onGuest.mpr ?_
  exact wp_mono (h.wp l.guest) (fun _ g hg => hspared l g hg) fun _ g hg => hspared l g hg

theorem checkContext_lasting (context : Nat) :
    Along (Lasting ctx) (checkContext context : EStateM Exc (HostSession M) Unit) := by
  refine .of_wp fun l => ?_
  rw [checkContext, onSession, wp_zoom]
  exact Session.checkContext_wp (fun _ => (lasting_steps ctx).refl l) fun _ =>
    (lasting_steps ctx).refl l

theorem cstr_lasting (ptr : Nat) :
    Along (Lasting ctx) (cstr ptr : EStateM Exc (HostSession M) (List UInt8)) := by
  have hs := lasting_steps (M := M) ctx
  have hloop : ∀ start fuel ptr data, Along (Lasting ctx)
      (cstrLoop start fuel ptr data : EStateM Exc (HostSession M) (List UInt8)) := by
    intro start fuel
    induction fuel with
    | zero => exact fun ptr data => .throw hs _
    | succ fuel ih =>
      exact fun ptr data =>
        .bind hs (onGuest_lasting (.bind spared_steps (read_spared ptr 1) fun _ =>
          .pure spared_steps _)) fun _ => .ite (.pure hs _) (ih _ _)
  exact .ite (.pure hs _) (hloop _ _ _ _)

/-- `alloc` moves the pointer behind the block, or changes nothing. -/
theorem alloc_moves (size : Nat) (l : HostSession M) :
    wp (alloc size 4)
      (fun ptr l' => ptr = Guest.alignUp l.scratch 4 ∧ ptr + max size 1 ≤ scratchEnd ∧
        l' = { l with scratch := ptr + max size 1 })
      (fun _ l' => l' = l) l := by
  rw [alloc, if_neg (by decide), wp_bind, wp_get]
  dsimp only
  rw [wp_ite]
  exact ⟨fun _ => rfl, fun hfull => ⟨rfl, Nat.le_of_not_gt hfull, rfl⟩⟩

/-- The pointer alone. -/
theorem Held.moved (h : Held ctx l) {stop : Nat} (hle : l.scratch ≤ stop)
    (hend : stop ≤ scratchEnd) : Held ctx { l with scratch := stop } ∧
      Kept l { l with scratch := stop } := by
  have hk : Kept l { l with scratch := stop } := ⟨rfl, rfl, fun _ => Iff.rfl, hle, fun _ => hend,
    fun _ _ _ => rfl, fun _ _ => id, fun _ _ => id⟩
  exact ⟨h.later hk (fun _ _ => .inl) (fun _ _ => .inl) fun _ _ => .inl, hk⟩

/-- **Filling a new block** changes nothing below it. -/
theorem Held.write (h : Held ctx l) {addr : Nat} {data : List UInt8} {l₁ : HostSession M}
    (hk : Kept l l₁) (h₁ : Held ctx l₁) (hle : l.scratch ≤ addr)
    (hend : addr + data.length ≤ l₁.scratch)
    (htexts : l₁.textBuffers = l.textBuffers) (htokens : l₁.licenseTokens = l.licenseTokens)
    (hsecrets : l₁.secretWords = l.secretWords) :
    wp (onGuest (Guest.write addr data))
      (fun _ l₂ => l₂ = l₁.withGuest l₂.guest ∧ Held ctx l₂ ∧ Kept l l₂ ∧ BytesAt l₂ addr data)
      (fun _ _ => False) l₁ := by
  rw [wp_onGuest]
  have hregion : l₁.guest.Accessible Guest.scratchBase Guest.scratchSize :=
    ⟨h₁.mapped, scratchEnd_lt.le⟩
  have hbase := h.base.trans hle
  have hstop : addr + data.length ≤ scratchEnd := hend.trans h₁.inside
  refine wp_mono (Guest.write_within hregion hbase hstop) (fun _ g hw => ?_) fun _ _ he => he
  have hkept : Kept l (l₁.withGuest g) := {
    context := hk.context
    panels := hk.panels
    mapped := fun x => (hw.mapped x).trans (hk.mapped x)
    pointer := hk.pointer
    inside := hk.inside
    bytes := fun x h1 h2 => (hw.frame x fun hx => by have := hx.1; omega).trans (hk.bytes x h1 h2)
    tokens := hk.tokens
    secrets := hk.secrets }
  refine ⟨rfl, h.later hkept ?_ ?_ ?_, hkept, hbase, hend, hw.data_eq⟩
  · exact fun ptr data hget => .inl (htexts ▸ hget)
  · exact fun slot token hget => .inl (htokens ▸ hget)
  · exact fun name word hget => .inl (hsecrets ▸ hget)

/-- It is enough to look at states that are held. -/
theorem lasting_of {α : Type} {x : EStateM Exc (HostSession M) α}
    (h : ∀ l, Held ctx l → wp x (fun _ l' => Held ctx l' ∧ Kept l l')
      (fun _ l' => Held ctx l' ∧ Kept l l') l) : Along (Lasting ctx) x := by
  intro l hl
  exact wp_endState (I := fun l' => Held ctx l' ∧ Kept l l') (h l hl)

/-- The next step from a held state. -/
theorem lasting_then {α : Type} {x : EStateM Exc (HostSession M) α} {l₁ : HostSession M}
    (h : Along (Lasting ctx) x) (h₁ : Held ctx l₁ ∧ Kept l l₁) :
    wp x (fun _ l' => Held ctx l' ∧ Kept l l') (fun _ l' => Held ctx l' ∧ Kept l l') l₁ := by
  have hnext : ∀ l', Lasting ctx l₁ l' → Held ctx l' ∧ Kept l l' := fun l' hl' =>
    ⟨(hl' h₁.1).1, kept_steps.trans h₁.2 (hl' h₁.1).2⟩
  exact wp_mono (h.wp l₁) (fun _ l' hl' => hnext l' hl') fun _ l' hl' => hnext l' hl'

/-- **A text.** -/
theorem textPointer_lasting (data : List UInt8) :
    Along (Lasting ctx) (textPointer data : EStateM Exc (HostSession M) Nat) := by
  refine lasting_of fun l hl => ?_
  have hle := Guest.le_alignUp l.scratch (show 0 < 4 by decide)
  by_cases hfits : textStop l.scratch data ≤ scratchEnd
  · obtain ⟨g, hrun, hw⟩ := textPointer_eq hl.toReady hfits
    have hlen : (data ++ [0]).length = data.length + 1 := List.length_append
    have hk : Kept l (l.withText g data) := ⟨rfl, rfl, hw.mapped, le_textStop _ _,
      fun _ => hfits, fun x _ h2 => hw.frame x fun hx => by have := hx.1; omega,
      fun _ _ => id, fun _ _ => id⟩
    refine (wp_iff_of_ok hrun).mpr ⟨hl.later hk (fun ptr data' hget => ?_)
      (fun _ _ => .inl) fun _ _ => .inl, hk⟩
    by_cases hptr : ptr = Guest.alignUp l.scratch 4
    · subst hptr
      have hdata : data = data' := Option.some.inj ((Dict.get?_set_self _ _ _).symm.trans hget)
      subst hdata
      exact .inr ⟨hl.base.trans hle, by rw [hlen]; exact Nat.le_refl _, hw.data_eq⟩
    · exact .inl ((Dict.get?_set_of_ne _ _ hptr).symm.trans hget)
  · rw [textPointer, wp_bind]
    refine wp_mono (alloc_moves _ l) (fun ptr l' h => absurd ?_ hfits) fun _ l' h => ?_
    · have hmax := Nat.le_max_left (data.length + 1) 1
      rw [h.1] at h
      exact le_trans (Nat.add_le_add_left hmax _) h.2.1
    · rw [h]
      exact ⟨hl, kept_steps.refl l⟩

/-- **A text is taken back.** -/
theorem releaseFileText_lasting (context ptr : Nat) :
    Along (Lasting ctx) (cwReleaseFileText context ptr : EStateM Exc (HostSession M) Unit) := by
  refine .bind (lasting_steps ctx) (checkContext_lasting context) fun _ => .modify fun l hl => ?_
  have hk : Kept l { l with textBuffers := l.textBuffers.erase ptr } := ⟨rfl, rfl,
    fun _ => Iff.rfl, Nat.le_refl _, id, fun _ _ _ => rfl, fun _ _ => id, fun _ _ => id⟩
  refine ⟨hl.later hk (fun old data hget => .inl ?_) (fun _ _ => .inl) fun _ _ => .inl, hk⟩
  have hget' : (l.textBuffers.erase ptr).get? old = some data := hget
  rw [Dict.get?_erase] at hget'
  split at hget'
  · cases hget'
  · exact hget'

/-- An address handed out in a word of the plug-in. -/
theorem output_lasting {addr : Nat} (h : Elsewhere addr 4) (value : Nat) :
    Along (Lasting ctx) (onGuest (Guest.w32 addr value) : EStateM Exc (HostSession M) Unit) :=
  onGuest_lasting (w32_spared h value)

/-- A new token is remembered. -/
theorem Held.token (h : Held ctx l) {slot token : Nat} (hnone : l.licenseTokens.get? slot = none)
    (hat : BytesAt l token (toBE 4 (0x4C494345 % 2 ^ 32))) :
    Held ctx { l with licenseTokens := l.licenseTokens.set slot token } ∧
      Kept l { l with licenseTokens := l.licenseTokens.set slot token } := by
  have hk : Kept l { l with licenseTokens := l.licenseTokens.set slot token } := by
    refine ⟨rfl, rfl, fun _ => Iff.rfl, Nat.le_refl _, id, fun _ _ _ => rfl,
      fun other old hget => ?_, fun _ _ => id⟩
    have hne : other ≠ slot := by
      rintro rfl
      cases hnone.symm.trans hget
    exact (Dict.get?_set_of_ne _ _ hne).trans hget
  refine ⟨h.later hk (fun _ _ => .inl) (fun other old hget => ?_) fun _ _ => .inl, hk⟩
  by_cases hother : other = slot
  · subst hother
    have hold : token = old := Option.some.inj ((Dict.get?_set_self _ _ _).symm.trans hget)
    subst hold
    exact .inr (hat.kept hk)
  · exact .inl ((Dict.get?_set_of_ne _ _ hother).symm.trans hget)

/-- A new word of a secret preference is remembered. -/
theorem Held.secret (h : Held ctx l) {name : Str} {word : Nat}
    (hnone : l.secretWords.get? name = none) (hat : SecretAt l name word) :
    Held ctx { l with secretWords := l.secretWords.set name word } ∧
      Kept l { l with secretWords := l.secretWords.set name word } := by
  have hk : Kept l { l with secretWords := l.secretWords.set name word } := by
    refine ⟨rfl, rfl, fun _ => Iff.rfl, Nat.le_refl _, id, fun _ _ _ => rfl, fun _ _ => id,
      fun other old hget => ?_⟩
    have hne : other ≠ name := by
      rintro rfl
      cases hnone.symm.trans hget
    exact (Dict.get?_set_of_ne _ _ hne).trans hget
  refine ⟨h.later hk (fun _ _ => .inl) (fun _ _ => .inl) fun other old hget => ?_, hk⟩
  by_cases hother : other = name
  · subst hother
    have hold : word = old := Option.some.inj ((Dict.get?_set_self _ _ _).symm.trans hget)
    subst hold
    exact .inr (hat.kept hk)
  · exact .inl ((Dict.get?_set_of_ne _ _ hother).symm.trans hget)

/-- **A license token.** -/
theorem checkoutLicense_lasting {slot : Nat} (context : Nat) (h : slot = 0 ∨ Elsewhere slot 4) :
    Along (Lasting ctx) (cwCheckoutLicense context slot : EStateM Exc (HostSession M) Unit) := by
  have hs := lasting_steps (M := M) ctx
  refine .bind hs (checkContext_lasting context) fun _ => ?_
  by_cases hslot : slot = 0
  · rw [if_neg (not_not.mpr hslot)]
    exact .pure hs _
  rw [if_pos hslot]
  have hout := h.resolve_left hslot
  refine lasting_of fun l hl => ?_
  have hsame : Held ctx l ∧ Kept l l := ⟨hl, kept_steps.refl l⟩
  rw [wp_bind, wp_get]
  cases hget : l.licenseTokens.get? slot with
  | some token => exact lasting_then (output_lasting hout token) hsame
  | none =>
    dsimp only
    rw [wp_bind]
    refine wp_mono (alloc_moves 4 l) ?_ fun _ l' he => he ▸ hsame
    rintro token l₁ ⟨rfl, hend, rfl⟩
    have hle := Guest.le_alignUp l.scratch (show 0 < 4 by decide)
    obtain ⟨h₁, hk₁⟩ := hl.moved (hle.trans (Nat.le_add_right _ 4)) hend
    rw [wp_bind]
    refine wp_mono (hl.write hk₁ h₁ hle (Nat.le_of_eq (by rw [toBE_length]; rfl)) rfl rfl rfl) ?_
      fun _ _ he => he.elim
    rintro _ l₂ ⟨hl₂, h₂, hk₂, hat⟩
    have hnone : l₂.licenseTokens.get? slot = none := by
      rw [hl₂]
      exact hget
    obtain ⟨h₃, hk₃⟩ := h₂.token hnone hat
    rw [wp_bind, wp_modify]
    exact lasting_then (output_lasting hout _) ⟨h₃, kept_steps.trans hk₂ hk₃⟩

/-- **The word of a secret preference**, made when it is asked for first. -/
theorem secretPointer_lasting (name : Str) :
    Along (Lasting ctx) (secretPointer name : EStateM Exc (HostSession M) Nat) := by
  refine lasting_of fun l hl => ?_
  have hsame : Held ctx l ∧ Kept l l := ⟨hl, kept_steps.refl l⟩
  rw [secretPointer, wp_bind, wp_get]
  cases hget : l.secretWords.get? name with
  | some word => exact hsame
  | none =>
    dsimp only
    rw [newSecretPointer, wp_bind, wp_get]
    cases hpanel : l.session.panels.lookup name with
    | none => exact hsame
    | some data =>
      dsimp only
      rw [wp_bind]
      refine wp_mono (alloc_moves _ l) ?_ fun _ l' he => he ▸ hsame
      rintro block l₁ ⟨hblock, hend, rfl⟩
      have hle : l.scratch ≤ block := by
        rw [hblock]
        exact Guest.le_alignUp l.scratch (by decide)
      have hmax := Nat.le_max_right 1 data.length
      have hmax' := Nat.le_max_left (max 1 data.length) 1
      obtain ⟨h₁, hk₁⟩ := hl.moved (hle.trans (Nat.le_add_right block _)) hend
      -- Behind the block with the bytes of the panel.
      have hrest : ∀ l₂ : HostSession M, Held ctx l₂ → Kept l l₂ → BytesAt l₂ block data →
          l₂.secretWords = l.secretWords → wp (do
            let word ← alloc 4 4
            onGuest (Guest.w32 word block)
            modify fun l : HostSession M => { l with secretWords := l.secretWords.set name word }
            return word) (fun _ l' => Held ctx l' ∧ Kept l l')
            (fun _ l' => Held ctx l' ∧ Kept l l') l₂ := by
        intro l₂ h₂ hk₂ hat hwords
        rw [wp_bind]
        refine wp_mono (alloc_moves 4 l₂) ?_ fun _ l' he => he ▸ ⟨h₂, hk₂⟩
        rintro word l₃ ⟨hword, hend₃, rfl⟩
        have hle₃ : l₂.scratch ≤ word := by
          rw [hword]
          exact Guest.le_alignUp l₂.scratch (by decide)
        obtain ⟨h₃, hk₃⟩ := h₂.moved (hle₃.trans (Nat.le_add_right word _)) hend₃
        rw [wp_bind]
        refine wp_mono (h₂.write hk₃ h₃ hle₃ (Nat.le_of_eq (by rw [toBE_length]; rfl)) rfl rfl rfl)
          ?_ fun _ _ he => he.elim
        rintro _ l₄ ⟨hl₄, h₄, hk₄, hat₄⟩
        have hnone : l₄.secretWords.get? name = none := by
          rw [hl₄]
          exact hwords ▸ hget
        have hpanels : l₄.session.panels.lookup name = some data := by
          rw [hk₄.panels, hk₂.panels, hpanel]
        obtain ⟨h₅, hk₅⟩ := h₄.secret hnone ⟨data, block, hpanels, hat₄, hat.kept hk₄⟩
        exact ⟨h₅, kept_steps.trans hk₂ (kept_steps.trans hk₄ hk₅)⟩
      by_cases hdata : data = []
      · rw [if_neg (not_not.mpr hdata)]
        subst hdata
        exact hrest _ h₁ hk₁ ⟨hl.base.trans hle, Nat.le_add_right _ _, rfl⟩ rfl
      · rw [if_pos hdata, wp_bind]
        have hstop : block + data.length ≤ block + max (max 1 data.length) 1 := by omega
        refine wp_mono (hl.write hk₁ h₁ hle hstop rfl rfl rfl) ?_ fun _ _ he => he.elim
        rintro _ l₂ ⟨hl₂, h₂, hk₂, hat⟩
        refine hrest l₂ h₂ hk₂ hat ?_
        rw [hl₂]
        rfl

end HostSession

namespace FileHost

variable {s s' : FileHost M} {ctx : Nat}

/-! ## Numbers of files -/

/-- The files are numbered in the order in which they were asked for. -/
def Numbered (ids : Dict Nat Nat) : Prop := ids.values = List.range ids.items.length

/-- Two files have different numbers. -/
theorem Numbered.injective {ids : Dict Nat Nat} (h : Numbered ids) {a b number : Nat}
    (ha : ids.get? a = some number) (hb : ids.get? b = some number) : a = b := by
  have hnodup : (ids.items.map Prod.snd).Nodup := by
    rw [show ids.items.map Prod.snd = _ from h]
    exact List.nodup_range
  have hpair := List.inj_on_of_nodup_map hnodup (Dict.get?_eq_some_iff.mp ha)
    (Dict.get?_eq_some_iff.mp hb) rfl
  exact congrArg Prod.fst hpair

/-- Asking for a file keeps the numbers there are. -/
theorem Numbered.withNumber {ids : Dict Nat Nat} (h : Numbered ids) (n : Node) :
    Numbered (withNumber ids n) ∧ ∀ k number, ids.get? k = some number →
      (FileHost.withNumber ids n).get? k = some number := by
  unfold FileHost.withNumber
  cases hget : ids.get? n.id with
  | some number => exact ⟨h, fun _ _ => id⟩
  | none =>
    have hnot := Dict.get?_eq_none_iff.mp hget
    refine ⟨?_, fun k number hk => ?_⟩
    · show (ids.set n.id ids.items.length).items.map Prod.snd =
        List.range (ids.set n.id ids.items.length).items.length
      have hvalues : ids.items.map Prod.snd = List.range ids.items.length := h
      rw [Dict.set_items_of_notMem _ hnot, List.map_append, List.length_append, hvalues,
        List.length_singleton, List.range_succ]
      rfl
    · have hne : k ≠ n.id := by
        rintro rfl
        cases hget.symm.trans hk
      exact (Dict.get?_set_of_ne _ _ hne).trans hk

/-! ## Runs -/

/-- What happens to the region: a callback, or stores of the plug-in. -/
inductive Call
  | findAndLoadFile (env : HostEnv) (context filenamePtr infoPtr : Nat)
  | getMainFileText (env : HostEnv) (context textOut lengthOut : Nat)
  | releaseFileText (context ptr : Nat)
  | checkoutLicense (context slot : Nat)
  | secretGetNamedPreferences (context namePtr output : Nat)
  | stores (addr : Nat) (data : List UInt8)

/-- What the plug-in hands over, and where it stores, is off the region. -/
def Call.Legal : Call → Prop
  | .findAndLoadFile _ _ _ infoPtr => Elsewhere infoPtr cwFileInfo.size
  | .getMainFileText _ _ textOut lengthOut => Elsewhere textOut 4 ∧ Elsewhere lengthOut 4
  | .releaseFileText .. => True
  | .checkoutLicense _ slot => slot = 0 ∨ Elsewhere slot 4
  | .secretGetNamedPreferences _ _ output => Elsewhere output 4
  | .stores addr data => Elsewhere addr data.length

variable (py : Numerals) (fold : Str → Str)

/-- `CWSecretGetNamedPreferences`. -/
def cwSecretGetNamedPreferences (context namePtr output : Nat) :
    EStateM Exc (HostSession M) Unit := do
  HostSession.checkContext context
  let name ← HostSession.cstr namePtr
  let pointer ← HostSession.secretPointer (decodeMacRoman name)
  HostSession.onGuest (Guest.w32 output pointer)

/-- The call itself. -/
def Call.run : Call → FileHostM M Unit
  | .findAndLoadFile env context filenamePtr infoPtr =>
    discard (cwFindAndLoadFile py fold env context filenamePtr infoPtr)
  | .getMainFileText env context textOut lengthOut =>
    cwGetMainFileText fold env context textOut lengthOut
  | .releaseFileText context ptr => onHost (HostSession.cwReleaseFileText context ptr)
  | .checkoutLicense context slot => onHost (HostSession.cwCheckoutLicense context slot)
  | .secretGetNamedPreferences context namePtr output =>
    onHost (cwSecretGetNamedPreferences context namePtr output)
  | .stores addr data => onGuest (Guest.write addr data)

/-- The session after a run of calls, each of which ends in any way. -/
def after (calls : List Call) (s : FileHost M) : FileHost M :=
  calls.foldl (fun s call => endState (call.run py fold s)) s

/-- **What lasts** from a state to a later one. -/
structure Lasts (ctx : Nat) (s s' : FileHost M) : Prop where
  held : HostSession.Held ctx s'.host
  kept : HostSession.Kept s.host s'.host
  numbered : Numbered s'.fileIds
  numbers : ∀ k number, s.fileIds.get? k = some number → s'.fileIds.get? k = some number

/-- The relation of the parts. -/
def Going (ctx : Nat) (s s' : FileHost M) : Prop :=
  HostSession.Held ctx s.host → Numbered s.fileIds → Lasts ctx s s'

theorem going_steps (ctx : Nat) : Steps (Going (M := M) ctx) where
  refl s h hn := ⟨h, HostSession.kept_steps.refl _, hn, fun _ _ => id⟩
  trans h h' hs hn := by
    have h₁ := h hs hn
    have h₂ := h' h₁.held h₁.numbered
    exact ⟨h₂.held, HostSession.kept_steps.trans h₁.kept h₂.kept, h₂.numbered,
      fun k number => h₂.numbers k number ∘ h₁.numbers k number⟩

theorem onHost_going {α : Type} {x : EStateM Exc (HostSession M) α}
    (h : Along (HostSession.Lasting ctx) x) : Along (Going ctx) (onHost x) := by
  have hgoing : ∀ (s : FileHost M) l', HostSession.Lasting ctx s.host l' →
      Going ctx s { s with host := l' } := fun s l' hl hs hn =>
    ⟨(hl hs).1, (hl hs).2, hn, fun _ _ => id⟩
  refine .of_wp fun s => ?_
  rw [onHost, wp_zoom]
  exact wp_mono (h.wp s.host) (fun _ l' hl => hgoing s l' hl) fun _ l' hl => hgoing s l' hl

theorem onGuest_going {α : Type} {x : EStateM Exc (Guest M) α} (h : Along Spared x) :
    Along (Going ctx) (onGuest x) := onHost_going (HostSession.onGuest_lasting h)

theorem onSearch_going {α : Type} (x : FindM α) :
    Along (Going (M := M) ctx) (onSearch x) :=
  .zoom fun _ _ h hn => ⟨h, HostSession.kept_steps.refl _, hn, fun _ _ => id⟩

theorem onWorld_going {α : Type} (x : WorldM α) :
    Along (Going (M := M) ctx) (onWorld x) :=
  .zoom fun _ _ h hn => ⟨h, HostSession.kept_steps.refl _, hn, fun _ _ => id⟩

theorem fileId_going (n : Node) : Along (Going (M := M) ctx) (fileId n) := by
  intro s hs hn
  rw [fileId_eq]
  exact ⟨hs, HostSession.kept_steps.refl _, (hn.withNumber n).1, (hn.withNumber n).2⟩

variable {py fold}

theorem loadFound_going (hpy : py.OnAscii) {infoPtr : Nat} (h : Elsewhere infoPtr cwFileInfo.size)
    (env : HostEnv) (n : Node) :
    Along (Going (M := M) ctx) (loadFound py fold env n infoPtr) := by
  have hg := going_steps (M := M) ctx
  have hwrite : ∀ field value, Along (Going (M := M) ctx) (writeInfo py infoPtr field value) :=
    fun field value => onGuest_going (writeField_spared (cwFileInfo_built hpy) h _ _)
  exact .bind hg (onWorld_going _) fun data =>
    .bind hg (onHost_going (HostSession.textPointer_lasting data)) fun ptr =>
    .bind hg (hwrite _ _) fun _ => .bind hg (hwrite _ _) fun _ => .bind hg (hwrite _ _) fun _ =>
    .bind hg (fileId_going n) fun number => .bind hg (hwrite _ _) fun _ =>
    .bind hg (onSearch_going _) fun items => .bind hg (hwrite _ _) fun _ => .pure hg 0

/-- **One call**, however it ends. -/
theorem Call.going (hpy : py.OnAscii) (call : Call) (h : call.Legal) :
    Along (Going (M := M) ctx) (call.run py fold) := by
  have hg := going_steps (M := M) ctx
  have hcheck : ∀ context, Along (Going (M := M) ctx) (onHost (HostSession.checkContext context)) :=
    fun context => onHost_going (HostSession.checkContext_lasting context)
  cases call with
  | findAndLoadFile env context filenamePtr infoPtr =>
    refine .discard (.bind hg (hcheck context) fun _ =>
      .bind hg (onHost_going (HostSession.cstr_lasting filenamePtr)) fun filename =>
      .bind hg (onGuest_going (.bind spared_steps (read_spared infoPtr _) fun _ =>
        .ofExcept spared_steps _)) fun info => .bind hg (.get hg) fun s =>
      .bind hg (onSearch_going _) fun found => ?_)
    cases found with
    | none => exact .pure hg _
    | some n => exact loadFound_going hpy h env n
  | getMainFileText env context textOut lengthOut =>
    refine .bind hg (hcheck context) fun _ => .bind hg (.bind hg (.get hg) fun s => ?_) fun data =>
      .bind hg (onHost_going (HostSession.textPointer_lasting data)) fun ptr =>
      .bind hg (onGuest_going (w32_spared h.1 _)) fun _ => onGuest_going (w32_spared h.2 _)
    cases s.search.files with
    | nil => exact .pure hg _
    | cons n _ => exact onWorld_going _
  | releaseFileText context ptr => exact onHost_going (HostSession.releaseFileText_lasting _ _)
  | checkoutLicense context slot => exact onHost_going (HostSession.checkoutLicense_lasting _ h)
  | secretGetNamedPreferences context namePtr output =>
    exact onHost_going (.bind (HostSession.lasting_steps ctx) (HostSession.checkContext_lasting _)
      fun _ => .bind (HostSession.lasting_steps ctx) (HostSession.cstr_lasting _) fun name =>
      .bind (HostSession.lasting_steps ctx) (HostSession.secretPointer_lasting _) fun word =>
      HostSession.output_lasting h word)
  | stores addr data => exact onGuest_going (write_spared h rfl)

/-- **Everything handed out stays in memory.** Along every run of callbacks and stores that keep
off the scratch region, however each call ends: each text that was not taken back, each license
token and each secret preference that the tables remember is in memory at its place, no byte below
the scratch pointer changes, a token, a word and the number of a file stay what they were, and no
two files have one number. -/
theorem run_held (hpy : py.OnAscii) {calls : List Call} (hlegal : ∀ call ∈ calls, call.Legal)
    (h : HostSession.Held ctx s.host) (hn : Numbered s.fileIds) :
    Lasts ctx s (after py fold calls s) ∧
      ∀ a b number, (after py fold calls s).fileIds.get? a = some number →
        (after py fold calls s).fileIds.get? b = some number → a = b := by
  have hrun : Lasts ctx s (after py fold calls s) := by
    induction calls generalizing s with
    | nil => exact (going_steps ctx).refl s h hn
    | cons call calls ih =>
      have hcall : Going ctx s (endState (call.run py fold s)) :=
        call.going hpy (hlegal call List.mem_cons_self) s
      exact (going_steps ctx).trans hcall
        (fun hs hids => ih (fun c hc => hlegal c (List.mem_cons_of_mem _ hc)) hs hids) h hn
  exact ⟨hrun, fun _ _ _ => hrun.numbered.injective⟩

/-- A file is loaded, a token is taken, and the record of the file is overwritten. -/
def threeCalls : List Call :=
  [.findAndLoadFile calm Guest.scratchBase 0x1000 0x2000,
    .checkoutLicense Guest.scratchBase 0x3000, .stores 0x2000 [1, 2]]

/-- These calls, in a session over the small tree. -/
theorem run_held_three :
    Lasts Guest.scratchBase namedHost (after asciiNumerals id threeCalls namedHost) ∧
      ∀ a b number, (after asciiNumerals id threeCalls namedHost).fileIds.get? a = some number →
        (after asciiNumerals id threeCalls namedHost).fileIds.get? b = some number → a = b := by
  have hbelow : ∀ a n, a + n ≤ Guest.scratchBase → Elsewhere a n := fun _ _ h => .inl h
  refine run_held asciiNumerals_onAscii (fun call hcall => ?_)
    ⟨namedHost_ready, (fun _ _ h => by cases h), (fun _ _ h => by cases h),
      (fun _ _ h => by cases h)⟩ rfl
  simp only [threeCalls, List.mem_cons, List.not_mem_nil, or_false] at hcall
  rcases hcall with rfl | rfl | rfl
  · exact hbelow _ _ (by decide)
  · exact .inr (hbelow _ _ (by decide))
  · exact hbelow _ _ (by decide)

end FileHost

end Cwhost
