import Cwhost.Abi.Struct

/-!
# Layouts do not overlap, and unpacking undoes packing

* `Placed`: the fields laid out so far are in order, apart, aligned and below the cursor. The loop
  of the constructor keeps it (`layOut_placed`).
* `Carries`: an encoding of the right length that decodes to a given value; for a scalar
  (`scalar_carries`), for a list of them (`elements_carries`), for a whole structure
  (`Built.carries`), by induction on how it was built (`Built.packs`).
* `Built.pack_nested`, `Built.writeField_nested`: a structure nested in another one.
* `Struct.codec`: **what packing writes, unpacking reads**, with the default for every field that
  was left out.
-/

namespace Cwhost

open Lib

variable {py : Numerals}

/-! ## Layouts -/

theorem le_alignUp (value : Nat) {align : Nat} (h : 0 < align) : value ≤ alignUp value align :=
  Guest.le_alignUp value h

theorem dvd_alignUp (value align : Nat) : align ∣ alignUp value align := Nat.dvd_mul_left _ _

/-- The fields laid out so far. -/
structure Placed (py : Numerals) (cap : Nat) (layout : List (LayoutEntry Struct)) (cursor : Nat) :
    Prop where
  names : (layout.map LayoutEntry.field).Nodup
  ordered : layout.Pairwise fun a b => a.offset + a.typ.size ≤ b.offset
  inside : ∀ entry ∈ layout, entry.offset + entry.typ.size ≤ cursor
  aligned : ∀ entry ∈ layout, entry.typ.align ∣ entry.offset
  resolved : ∀ entry ∈ layout, resolveType py entry.type cap = .ok entry.typ

theorem Placed.nil (py : Numerals) (cap : Nat) : Placed py cap [] 0 :=
  ⟨List.nodup_nil, .nil, by simp, by simp, by simp⟩

/-- One more field at the next aligned offset. -/
theorem Placed.snoc {cap cursor : Nat} {layout : List (LayoutEntry Struct)} {field : Str}
    {typ : Typ} {type : FieldType Struct} (h : Placed py cap layout cursor)
    (hfield : field ∉ layout.map LayoutEntry.field) (hpos : 0 < typ.align)
    (hresolved : resolveType py type cap = .ok typ) :
    Placed py cap (layout ++ [⟨field, alignUp cursor typ.align, typ, type⟩])
      (alignUp cursor typ.align + typ.size) := by
  have hcursor := le_alignUp cursor hpos
  have hinside (entry) (hmem : entry ∈ layout) :
      entry.offset + entry.typ.size ≤ alignUp cursor typ.align :=
    (h.inside entry hmem).trans hcursor
  constructor
  case names =>
    rw [List.map_append, List.nodup_append]
    refine ⟨h.names, List.nodup_singleton _, ?_⟩
    rintro a ha b hb rfl
    rw [List.mem_singleton.mp hb] at ha
    exact hfield ha
  case ordered =>
    rw [List.pairwise_append]
    refine ⟨h.ordered, List.pairwise_singleton _ _, ?_⟩
    intro a ha b hb
    rw [List.mem_singleton.mp hb]
    exact hinside a ha
  case inside =>
    refine List.forall_mem_append.mpr ⟨fun entry hmem => ?_, List.forall_mem_singleton.mpr ?_⟩
    · have := hinside entry hmem
      omega
    · exact Nat.le_refl _
  case aligned =>
    exact List.forall_mem_append.mpr
      ⟨h.aligned, List.forall_mem_singleton.mpr (dvd_alignUp cursor typ.align)⟩
  case resolved =>
    exact List.forall_mem_append.mpr ⟨h.resolved, List.forall_mem_singleton.mpr hresolved⟩

/-- **The loop of the constructor** lays the declared fields out in order. -/
theorem layOut_placed {name : Str} {cap : Nat} {fields : List (Str × FieldType Struct)}
    {layout layout' : List (LayoutEntry Struct)} {cursor cursor' : Nat}
    (hpos : ∀ field ∈ fields, ∀ typ, resolveType py field.2 cap = .ok typ → 0 < typ.align)
    (h : Placed py cap layout cursor)
    (hrun : layOut py name cap fields layout cursor = .ok (layout', cursor')) :
    Placed py cap layout' cursor' ∧
      layout'.map (fun entry => (entry.field, entry.type)) =
        layout.map (fun entry => (entry.field, entry.type)) ++ fields := by
  induction fields generalizing layout cursor with
  | nil =>
    cases hrun
    exact ⟨h, (List.append_nil _).symm⟩
  | cons field rest ih =>
    obtain ⟨field, type⟩ := field
    rw [layOut] at hrun
    split at hrun
    · cases hrun
    rename_i hfield
    obtain ⟨typ, htyp, hrun⟩ := bind_eq_ok hrun
    have hplaced := h.snoc hfield (hpos _ List.mem_cons_self typ htyp) htyp
    obtain ⟨hdone, hnames⟩ := ih (fun f hf => hpos f (List.mem_cons_of_mem _ hf)) hplaced hrun
    refine ⟨hdone, ?_⟩
    rw [hnames, List.map_append, List.append_assoc]
    rfl

theorem capOf_pos (packing : Str) : 0 < capOf packing := by
  unfold capOf
  split <;> decide

theorem resolveType_align_pos {type : FieldType Struct} {cap : Nat} {typ : Typ} (hcap : 0 < cap)
    (hinner : ∀ inner, type = .struct inner → 0 < inner.align)
    (h : resolveType py type cap = .ok typ) : 0 < typ.align := by
  have hmin (base : Scalar) : 0 < min base.align cap := Nat.lt_min.mpr ⟨base.align_pos, hcap⟩
  unfold resolveType at h
  split at h
  · cases h
    exact hinner _ rfl
  · split at h
    · split at h
      · cases h
      · split at h
        · cases h
        · cases h
          exact hmin _
    · split at h
      · cases h
      · cases h
        exact hmin _

/-- **What the constructor builds**: the declared fields, laid out in a size that is a multiple of
the cap. -/
theorem Struct.init_placed {name packing : Str} {fields : List (Str × FieldType Struct)}
    {s : Struct}
    (hinner : ∀ field inner, (field, FieldType.struct inner) ∈ fields → 0 < inner.align)
    (h : Struct.init py name packing fields = .ok s) :
    s.align = capOf packing ∧ capOf packing ∣ s.size ∧
      s.layout.map (fun entry => (entry.field, entry.type)) = fields ∧
      Placed py (capOf packing) s.layout s.size := by
  unfold Struct.init at h
  split at h
  · cases h
  obtain ⟨⟨layout, cursor⟩, hloop, hs⟩ := bind_eq_ok h
  cases hs
  have hpos : ∀ field ∈ fields, ∀ typ,
      resolveType py field.2 (capOf packing) = .ok typ → 0 < typ.align := by
    rintro ⟨field, type⟩ hmem typ htyp
    refine resolveType_align_pos (capOf_pos packing) (fun inner heq => ?_) htyp
    exact hinner field inner (heq ▸ hmem)
  obtain ⟨hplaced, hfields⟩ := layOut_placed hpos (Placed.nil py _) hloop
  refine ⟨rfl, dvd_alignUp _ _, hfields, hplaced.names, hplaced.ordered, fun entry hmem => ?_,
    hplaced.aligned, hplaced.resolved⟩
  exact (hplaced.inside entry hmem).trans (le_alignUp cursor (capOf_pos packing))

theorem Built.align_pos {s : Struct} (h : Built py s) : 0 < s.align := by
  induction h with
  | init nested accepted ih =>
    rw [(Struct.init_placed ih accepted).1]
    exact capOf_pos _

theorem Built.placed {s : Struct} (hs : Built py s) : Placed py s.align s.layout s.size := by
  cases hs with
  | init nested accepted =>
    obtain ⟨halign, -, -, hplaced⟩ :=
      Struct.init_placed (fun field inner hmem => (nested field inner hmem).align_pos) accepted
    rw [halign]
    exact hplaced

/-- **Induction on how a structure was built**: from the nested structures of its layout. -/
theorem Built.layout_induction {P : Struct → Prop}
    (step : ∀ s, Built py s → (∀ entry ∈ s.layout, ∀ inner, entry.type = .struct inner →
      Built py inner ∧ P inner) → P s)
    {s : Struct} (hs : Built py s) : P s := by
  induction hs with
  | @init name packing fields s nested accepted ih =>
    obtain ⟨-, -, hfields, -⟩ :=
      Struct.init_placed (fun field inner hmem => (nested field inner hmem).align_pos) accepted
    refine step s (.init nested accepted) fun entry hentry inner htype => ?_
    have hmem : (entry.field, FieldType.struct inner) ∈ fields := by
      rw [← hfields, ← htype]
      exact List.mem_map_of_mem hentry
    exact ⟨nested entry.field inner hmem, ih entry.field inner hmem⟩

theorem Built.inner {s : Struct} (hs : Built py s) :
    ∀ entry ∈ s.layout, ∀ inner, entry.type = .struct inner → Built py inner :=
  Built.layout_induction (fun _ _ hinner entry hentry inner htype =>
    (hinner entry hentry inner htype).1) hs

/-! ## Scalars -/

/-- An encoding of `size` bytes that decodes to `value`. -/
def Carries {α : Type} (encoded : Except Exc (List UInt8)) (size : Nat)
    (decode : List UInt8 → Except Exc α) (value : α) : Prop :=
  ∃ raw, encoded = .ok raw ∧ raw.length = size ∧ decode raw = .ok value

/-- The canonical values of a scalar in its range: 0 or 1, four bytes, or a number. -/
def Scalar.Canonical (kind : Scalar) (value : Value) : Prop :=
  if kind = .ostype then ∃ raw, value = .bytes raw ∧ raw.length = 4
  else if kind = .boolean then value = .int 0 ∨ value = .int 1
  else if kind.signed then
    ∃ v, value = .int v ∧ -2 ^ (8 * kind.size - 1) ≤ v ∧ v < 2 ^ (8 * kind.size - 1)
  else ∃ v, value = .int v ∧ 0 ≤ v ∧ v < 2 ^ (8 * kind.size)

theorem pow_bytes (size : Nat) : ((256 ^ size : Nat) : Int) = 2 ^ (8 * size) := by
  rw [show 256 = 2 ^ 8 from rfl, ← Nat.pow_mul]
  push_cast
  rfl

theorem toBytes_signed {size : Nat} {v : Int} (hsize : 0 < size)
    (hlow : -2 ^ (8 * size - 1) ≤ v) (hhigh : v < 2 ^ (8 * size - 1)) :
    ∃ raw, toBytes size true v = .ok raw ∧ raw.length = size ∧
      signed (8 * raw.length) (beNat raw) = v := by
  have hlt : (v % 2 ^ (8 * size)).toNat < 256 ^ size := by
    have hpos : (0 : Int) < 2 ^ (8 * size) := Int.pow_pos (by decide)
    have hmod := Int.emod_lt_of_pos v hpos
    have hcast := pow_bytes size
    omega
  refine ⟨toBE size (v % 2 ^ (8 * size)).toNat, ?_, toBE_length _ _, ?_⟩
  · unfold toBytes
    rw [if_pos rfl, if_pos ⟨hlow, hhigh⟩]
    rfl
  · rw [toBE_length, beNat_toBE_of_lt hlt]
    exact signed_eq (by omega) hlow hhigh

theorem toBytes_unsigned {size : Nat} {v : Int} (hlow : 0 ≤ v) (hhigh : v < 2 ^ (8 * size)) :
    ∃ raw, toBytes size false v = .ok raw ∧ raw.length = size ∧ (beNat raw : Int) = v := by
  have hlt : v.toNat < 256 ^ size := by
    have hcast := pow_bytes size
    omega
  refine ⟨toBE size v.toNat, ?_, toBE_length _ _, ?_⟩
  · unfold toBytes
    rw [if_neg Bool.false_ne_true, if_pos ⟨hlow, hhigh⟩]
    rfl
  · rw [beNat_toBE_of_lt hlt]
    exact Int.toNat_of_nonneg hlow

/-- A Boolean is one byte. -/
theorem boolean_carries {v : Int} (h : v = 0 ∨ v = 1) :
    Carries (scalarEncode py .boolean (.int v)) 1 (scalarDecode .boolean) (.int v) := by
  rcases h with rfl | rfl
  · exact ⟨[0], rfl, rfl, rfl⟩
  · exact ⟨[1], rfl, rfl, rfl⟩

/-- **Scalars** come back. -/
theorem scalar_carries (py : Numerals) {kind : Scalar} {value : Value} (h : kind.Canonical value) :
    Carries (scalarEncode py kind value) kind.size (scalarDecode kind) value := by
  unfold Scalar.Canonical at h
  by_cases hos : kind = .ostype
  · subst hos
    obtain ⟨raw, rfl, hlen⟩ := h
    refine ⟨raw, ?_, hlen, rfl⟩
    show osTypeBytes raw = .ok raw
    unfold osTypeBytes
    rw [if_neg (not_not.mpr hlen)]
    rfl
  rw [if_neg hos] at h
  by_cases hbool : kind = .boolean
  · subst hbool
    rcases h with rfl | rfl
    · exact boolean_carries (.inl rfl)
    · exact boolean_carries (.inr rfl)
  rw [if_neg hbool] at h
  unfold scalarEncode
  rw [if_neg hos, if_neg hbool]
  by_cases hsigned : kind.signed = true
  · rw [if_pos hsigned] at h
    obtain ⟨v, rfl, hlow, hhigh⟩ := h
    obtain ⟨raw, hraw, hlen, hv⟩ := toBytes_signed kind.size_pos hlow hhigh
    refine ⟨raw, hsigned ▸ hraw, hlen, ?_⟩
    unfold scalarDecode
    rw [if_neg hos, if_neg hbool, if_pos hsigned, hv]
    rfl
  · rw [if_neg hsigned] at h
    obtain ⟨v, rfl, hlow, hhigh⟩ := h
    obtain ⟨raw, hraw, hlen, hv⟩ := toBytes_unsigned hlow hhigh
    rw [Bool.not_eq_true] at hsigned
    refine ⟨raw, hsigned ▸ hraw, hlen, ?_⟩
    unfold scalarDecode
    rw [if_neg hos, if_neg hbool, hsigned, if_neg Bool.false_ne_true, hv]
    rfl

/-! ## Arrays -/

/-- Consecutive parts of one size are the chunks of the whole. -/
theorem chunks_flatten {size : Nat} (hsize : 0 < size) {raws : List (List UInt8)}
    (h : ∀ raw ∈ raws, raw.length = size) : chunks size raws.flatten = raws := by
  have hdrop : raws.flatten.drop 0 = raws.flatten ++ [] := by rw [List.drop_zero, List.append_nil]
  have hcount : (raws.flatten.length + size - 1) / size = raws.length := by
    rw [length_flatten_of_size h, Nat.add_sub_assoc hsize, Nat.mul_add_div hsize,
      Nat.div_eq_of_lt (by omega), Nat.add_zero]
  unfold chunks
  rw [hcount]
  conv_rhs => rw [← chunks_eq raws hdrop h]
  simp only [Nat.zero_add, Nat.add_mul, Nat.one_mul]

/-- **Arrays of scalars** come back, element by element. -/
theorem elements_carries (py : Numerals) {kind : Scalar} {items : List Value}
    (h : ∀ item ∈ items, kind.Canonical item) :
    ∃ raws, items.mapM (scalarEncode py kind) = .ok raws ∧ raws.length = items.length ∧
      (∀ raw ∈ raws, raw.length = kind.size) ∧ raws.mapM (scalarDecode kind) = .ok items := by
  induction items with
  | nil => exact ⟨[], rfl, rfl, by simp, rfl⟩
  | cons item items ih =>
    obtain ⟨raw, hraw, hlen, hdec⟩ := scalar_carries py (h item List.mem_cons_self)
    obtain ⟨raws, hraws, hlens, hsizes, hdecs⟩ := ih fun i hi => h i (List.mem_cons_of_mem _ hi)
    refine ⟨raw :: raws, ?_, congrArg (· + 1) hlens, List.forall_mem_cons.mpr ⟨hlen, hsizes⟩, ?_⟩
    · rw [List.mapM_cons, hraw, hraws]
      rfl
    · rw [List.mapM_cons, hdec, hdecs]
      rfl

/-- The canonical values of a type that is no structure. -/
def Typ.Canonical (typ : Typ) (value : Value) : Prop :=
  match typ.kind with
  | .scalar base => base.Canonical value
  | .array .u8 count => ∃ raw, value = .bytes raw ∧ raw.length = count
  | .array base count => ∃ items, value = .list items ∧ items.length = count ∧
      ∀ item ∈ items, base.Canonical item
  | .struct => False

/-- Zero, canonically: an OSType is four bytes also inside an array. -/
def Scalar.zero (kind : Scalar) : Value :=
  if kind = .ostype then .bytes (List.replicate 4 0) else .int 0

/-- The value of a field that was left out. -/
def Typ.zero (typ : Typ) : Value :=
  match typ.kind with
  | .scalar base => base.zero
  | .array .u8 count => .bytes (List.replicate count 0)
  | .array base count => .list (List.replicate count base.zero)
  | .struct => .dict []

theorem Scalar.zero_canonical (kind : Scalar) : kind.Canonical kind.zero := by
  unfold Scalar.Canonical Scalar.zero
  by_cases hos : kind = .ostype
  · rw [if_pos hos, if_pos hos]
    exact ⟨_, rfl, rfl⟩
  rw [if_neg hos, if_neg hos]
  by_cases hbool : kind = .boolean
  · rw [if_pos hbool]
    exact .inl rfl
  rw [if_neg hbool]
  split
  · have hpos : (0 : Int) < 2 ^ (8 * kind.size - 1) := Int.pow_pos (by decide)
    exact ⟨0, rfl, by omega, hpos⟩
  · exact ⟨0, rfl, Int.le_refl 0, Int.pow_pos (by decide)⟩

/-- A type that is no structure has the size of its elements. -/
def Typ.Sized (typ : Typ) : Prop :=
  match typ.kind with
  | .scalar base => typ.size = base.size
  | .array base count => typ.size = base.size * count
  | .struct => False

theorem resolveType_sized {declared : Str} {cap : Nat} {typ : Typ}
    (h : resolveType py (.text declared) cap = .ok typ) : typ.Sized := by
  unfold resolveType at h
  dsimp only at h
  split at h
  · split at h
    · cases h
    · split at h
      · cases h
      · cases h
        rfl
  · split at h
    · cases h
    · cases h
      rfl

theorem Typ.Sized.not_struct {typ : Typ} (h : typ.Sized) : typ.kind ≠ .struct := by
  intro hkind
  unfold Typ.Sized at h
  rw [hkind] at h
  exact h

/-- A list of elements comes back. -/
theorem list_carries {base : Scalar} {count : Nat} {items : List Value} (align : Nat)
    (hbase : base ≠ .u8) (hlen : items.length = count)
    (h : ∀ item ∈ items, base.Canonical item) :
    Carries (encodeValue py ⟨base.size * count, align, .array base count⟩ (.list items))
      (base.size * count) (decodeValue ⟨base.size * count, align, .array base count⟩)
      (.list items) := by
  obtain ⟨raws, henc, hraws, hsizes, hdec⟩ := elements_carries py h
  refine ⟨raws.flatten, ?_, ?_, ?_⟩
  · have hcheck : encodeValue py ⟨base.size * count, align, .array base count⟩ (.list items) =
        if items.length ≠ count then
          throw (.hostError s!"expected {count} array elements, got {items.length}")
        else List.flatten <$> items.mapM (scalarEncode py base) := by
      cases base <;> rfl
    rw [hcheck, if_neg (not_not.mpr hlen), henc]
    rfl
  · rw [length_flatten_of_size hsizes, hraws, hlen]
  · have hchunks : decodeValue ⟨base.size * count, align, .array base count⟩ raws.flatten =
        .list <$> (chunks base.size raws.flatten).mapM (scalarDecode base) := by
      cases base <;> first | rfl | exact absurd rfl hbase
    rw [hchunks, chunks_flatten base.size_pos hsizes, hdec]
    rfl

/-- **Values that are no structures** come back. -/
theorem value_carries {typ : Typ} {value : Value} (hsized : typ.Sized)
    (h : typ.Canonical value) :
    Carries (encodeValue py typ value) typ.size (decodeValue typ) value := by
  obtain ⟨size, align, kind⟩ := typ
  cases kind with
  | scalar base =>
    cases hsized
    exact scalar_carries py h
  | array base count =>
    cases hsized
    by_cases hbase : base = .u8
    · subst hbase
      obtain ⟨raw, rfl, hlen⟩ := h
      refine ⟨raw, ?_, by rw [hlen]; exact (Nat.one_mul count).symm, rfl⟩
      show (if raw.length ≠ count then throw _ else pure raw : Except Exc (List UInt8)) = .ok raw
      rw [if_neg (not_not.mpr hlen)]
      rfl
    · have hitems : ∃ items, value = .list items ∧ items.length = count ∧
          ∀ item ∈ items, base.Canonical item := by
        cases base <;> first | exact h | exact absurd rfl hbase
      obtain ⟨items, rfl, hlen, hitems⟩ := hitems
      exact list_carries align hbase hlen hitems
  | struct => exact hsized.elim

theorem Typ.zero_canonical {typ : Typ} (h : typ.Sized) : typ.Canonical typ.zero := by
  obtain ⟨size, align, kind⟩ := typ
  cases kind with
  | scalar base => exact base.zero_canonical
  | array base count =>
    have hitems : ∃ items, Value.list (List.replicate count base.zero) = .list items ∧
        items.length = count ∧ ∀ item ∈ items, base.Canonical item := by
      refine ⟨_, rfl, List.length_replicate, fun item hmem => ?_⟩
      rw [List.eq_of_mem_replicate hmem]
      exact base.zero_canonical
    cases base <;> first | exact hitems | exact ⟨_, rfl, List.length_replicate⟩
  | struct => exact h.elim

theorem mapM_replicate {ε α β : Type} {f : α → Except ε β} {a b : α} (h : f a = f b) (n : Nat) :
    (List.replicate n a).mapM f = (List.replicate n b).mapM f := by
  induction n with
  | zero => rfl
  | succ n ih =>
    rw [List.replicate_succ, List.replicate_succ, List.mapM_cons, List.mapM_cons, h, ih]

/-- The default is encoded as zero is. -/
theorem encodeValue_default {typ : Typ} (h : typ.Sized) :
    encodeValue py typ (defaultValue typ) = encodeValue py typ typ.zero := by
  obtain ⟨size, align, kind⟩ := typ
  cases kind with
  | scalar base => cases base <;> rfl
  | array base count =>
    by_cases hos : base = .ostype
    · subst hos
      have hzero : scalarEncode py .ostype (.int 0) =
          scalarEncode py .ostype (.bytes (List.replicate 4 0)) := rfl
      show (if (List.replicate count (Value.int 0)).length ≠ count then throw _ else
          List.flatten <$> (List.replicate count (Value.int 0)).mapM (scalarEncode py .ostype)) =
        if (List.replicate count Scalar.ostype.zero).length ≠ count then throw _ else
          List.flatten <$> (List.replicate count Scalar.ostype.zero).mapM (scalarEncode py .ostype)
      rw [List.length_replicate, List.length_replicate, mapM_replicate hzero]
      rfl
    · cases base <;> first | rfl | exact absurd rfl hos
  | struct => exact h.elim

/-! ## Structures -/

mutual

/-- The assignments the codec is for: to some of the fields, canonical values in their range. -/
def Struct.Canonical : Struct → List (Str × Value) → Prop
  | ⟨_, _, layout, _, _⟩, values =>
    (∀ key ∈ values.map Prod.fst, key ∈ layout.map LayoutEntry.field) ∧
      canonicalFields layout values

/-- The values of the fields of a list. -/
def canonicalFields : List (LayoutEntry Struct) → List (Str × Value) → Prop
  | [], _ => True
  | ⟨field, _, typ, type⟩ :: rest, values =>
    (∀ value, values.lookup field = some value → canonicalField type typ value) ∧
      canonicalFields rest values

/-- The value of one field. -/
def canonicalField : FieldType Struct → Typ → Value → Prop
  | .text _, typ, value => typ.Canonical value
  | .struct inner, _, value => ∃ values, value = .dict values ∧ inner.Canonical values

end

mutual

/-- The assignment with zero for every field that was left out, fields in declaration order. -/
def Struct.completed : Struct → List (Str × Value) → List (Str × Value)
  | ⟨_, _, layout, _, _⟩, values => completedFields layout values

/-- The fields of a list. -/
def completedFields : List (LayoutEntry Struct) → List (Str × Value) → List (Str × Value)
  | [], _ => []
  | ⟨field, _, typ, type⟩ :: rest, values =>
    (field, completedField type typ (values.lookup field)) :: completedFields rest values

/-- One field. -/
def completedField : FieldType Struct → Typ → Option Value → Value
  | .text _, typ, value => value.getD typ.zero
  | .struct inner, _, some (.dict values) => .dict (inner.completed values)
  | .struct inner, _, _ => .dict (inner.completed [])

end

theorem canonicalFields_iff {layout : List (LayoutEntry Struct)} {values : List (Str × Value)} :
    canonicalFields layout values ↔ ∀ entry ∈ layout, ∀ value,
      values.lookup entry.field = some value → canonicalField entry.type entry.typ value := by
  induction layout with
  | nil => simp [canonicalFields]
  | cons entry rest ih => simp [canonicalFields, ih]

/-- Leaving out everything is canonical. -/
theorem Struct.canonical_nil (s : Struct) : s.Canonical [] := by
  obtain ⟨name, packing, layout, align, size⟩ := s
  refine ⟨by simp, canonicalFields_iff.mpr fun entry _ value h => ?_⟩
  cases h

/-- **The loop of `_pack_bytes`** leaves every field where the layout has it. -/
theorem packFields_spec {name : Str} {layout : List (LayoutEntry Struct)}
    {values : List (Str × Value)} {target : List UInt8}
    (hordered : layout.Pairwise fun a b => a.offset + a.typ.size ≤ b.offset)
    (hinside : ∀ entry ∈ layout, entry.offset + entry.typ.size ≤ target.length)
    (hfields : ∀ entry ∈ layout, Carries (encodeField py name entry.type entry.typ
      ((values.lookup entry.field).getD (defaultValue entry.typ))) entry.typ.size
      (decodeField name entry.type entry.typ)
      (completedField entry.type entry.typ (values.lookup entry.field))) :
    ∃ raw, packFields py name layout target values = .ok raw ∧ raw.length = target.length ∧
      (∀ entry ∈ layout, ∃ bytes, Sits raw entry.offset bytes ∧ bytes.length = entry.typ.size ∧
        decodeField name entry.type entry.typ bytes =
          .ok (completedField entry.type entry.typ (values.lookup entry.field))) ∧
      ∀ off part, Sits target off part → (∀ entry ∈ layout, off + part.length ≤ entry.offset) →
        Sits raw off part := by
  induction layout generalizing target with
  | nil => exact ⟨target, rfl, rfl, by simp, fun _ _ h _ => h⟩
  | cons entry rest ih =>
    obtain ⟨field, offset, typ, type⟩ := entry
    obtain ⟨hhead, hrest⟩ := List.pairwise_cons.mp hordered
    obtain ⟨bytes, henc, hbytes, hdec⟩ := hfields _ List.mem_cons_self
    have hin : offset + bytes.length ≤ target.length := by
      rw [hbytes]
      exact hinside _ List.mem_cons_self
    have hlength := assign_length hin
    obtain ⟨raw, hraw, hlen, hsits, hkept⟩ := @ih
      (assign target offset (offset + bytes.length) bytes) hrest
      (fun e he => by rw [hlength]; exact hinside e (List.mem_cons_of_mem _ he))
      fun e he => hfields e (List.mem_cons_of_mem _ he)
    refine ⟨raw, ?_, hlen.trans hlength, ?_, ?_⟩
    · show (encodeField py name type typ _ >>= _) = _
      rw [henc]
      dsimp only at hbytes
      rw [← hbytes]
      exact hraw
    · refine List.forall_mem_cons.mpr ⟨⟨bytes, ?_, hbytes, hdec⟩, hsits⟩
      refine hkept offset bytes (Sits.assign_self hin) fun e he => ?_
      rw [hbytes]
      exact hhead e he
    · intro off part hpart hbefore
      refine hkept off part ?_ fun e he => hbefore e (List.mem_cons_of_mem _ he)
      exact Sits.assign_before hin hpart (hbefore _ List.mem_cons_self)

/-- **Packing encodes every field.** -/
theorem packFields_encoded {name : Str} {layout : List (LayoutEntry Struct)}
    {values : List (Str × Value)} {target raw : List UInt8}
    (h : packFields py name layout target values = .ok raw) : ∀ entry ∈ layout, ∃ bytes,
      encodeField py name entry.type entry.typ
        ((values.lookup entry.field).getD (defaultValue entry.typ)) = .ok bytes := by
  induction layout generalizing target with
  | nil => simp
  | cons entry rest ih =>
    obtain ⟨bytes, henc, hrest⟩ := bind_eq_ok h
    exact List.forall_mem_cons.mpr ⟨⟨bytes, henc⟩, ih hrest⟩

/-- **The loop of `_unpack_bytes`** reads what sits where the layout has it. -/
theorem unpackFields_spec {name : Str} {layout : List (LayoutEntry Struct)}
    {values : List (Str × Value)} {raw : List UInt8}
    (h : ∀ entry ∈ layout, ∃ bytes, Sits raw entry.offset bytes ∧ bytes.length = entry.typ.size ∧
      decodeField name entry.type entry.typ bytes =
        .ok (completedField entry.type entry.typ (values.lookup entry.field))) :
    unpackFields name layout raw = .ok (completedFields layout values) := by
  induction layout with
  | nil => rfl
  | cons entry rest ih =>
    obtain ⟨field, offset, typ, type⟩ := entry
    obtain ⟨bytes, hsits, hlen, hdec⟩ := h _ List.mem_cons_self
    have hrest := ih fun e he => h e (List.mem_cons_of_mem _ he)
    have hslice : slice raw offset (offset + typ.size) = bytes := hsits.slice_eq_of_length hlen
    show (decodeField name type typ (slice raw offset (offset + typ.size)) >>= _) = _
    rw [hslice, hdec]
    show (unpackFields name rest raw >>= _) = _
    rw [hrest]
    rfl

/-- A field that is no structure. -/
theorem text_carries {name declared : Str} {typ : Typ} {value : Option Value}
    (hsized : typ.Sized) (h : ∀ v, value = some v → typ.Canonical v) :
    Carries (encodeField py name (.text declared) typ (value.getD (defaultValue typ))) typ.size
      (decodeField name (.text declared) typ) (completedField (.text declared) typ value) := by
  have hcarries : Carries (encodeValue py typ (value.getD (defaultValue typ))) typ.size
      (decodeValue typ) (value.getD typ.zero) := by
    cases value with
    | none =>
      rw [Option.getD_none, Option.getD_none, encodeValue_default hsized]
      exact value_carries hsized (Typ.zero_canonical hsized)
    | some v => exact value_carries hsized (h v rfl)
  obtain ⟨raw, henc, hlen, hdec⟩ := hcarries
  refine ⟨raw, ?_, hlen, ?_⟩
  · unfold encodeField
    rw [if_neg hsized.not_struct, henc]
  · unfold decodeField completedField
    rw [if_neg hsized.not_struct, hdec]

/-- A field that is a structure, if the structure comes back. -/
theorem struct_carries {name : Str} {inner : Struct} {align : Nat} {value : Option Value}
    (hinner : ∀ values, inner.Canonical values →
      Carries (inner.packBytes py (List.replicate inner.size 0) values) inner.size
        inner.unpackBytes (inner.completed values))
    (h : ∀ v, value = some v → canonicalField (.struct inner) ⟨inner.size, align, .struct⟩ v) :
    Carries (encodeField py name (.struct inner) ⟨inner.size, align, .struct⟩
        (value.getD (defaultValue ⟨inner.size, align, .struct⟩))) inner.size
      (decodeField name (.struct inner) ⟨inner.size, align, .struct⟩)
      (completedField (.struct inner) ⟨inner.size, align, .struct⟩ value) := by
  have hdict : ∃ values, value.getD (.dict []) = .dict values ∧ inner.Canonical values ∧
      completedField (.struct inner) ⟨inner.size, align, .struct⟩ value =
        .dict (inner.completed values) := by
    cases value with
    | none => exact ⟨[], rfl, inner.canonical_nil, rfl⟩
    | some v =>
      obtain ⟨values, rfl, hvalues⟩ := h v rfl
      exact ⟨values, rfl, hvalues, rfl⟩
  obtain ⟨values, hvalue, hcanonical, hcompleted⟩ := hdict
  obtain ⟨raw, henc, hlen, hdec⟩ := hinner values hcanonical
  refine ⟨raw, ?_, hlen, ?_⟩
  · show encodeField py name (.struct inner) _ (value.getD (.dict [])) = _
    rw [hvalue]
    exact henc
  · rw [hcompleted]
    show Value.dict <$> inner.unpackBytes raw = _
    rw [hdec]
    rfl

/-- The check for unknown names passes. -/
theorem checkFields_ok {name : Str} {layout : List (LayoutEntry Struct)}
    {values : List (Str × Value)}
    (h : ∀ key ∈ values.map Prod.fst, key ∈ layout.map LayoutEntry.field) :
    checkFields name layout values = .ok () := by
  have hnone : (values.map Prod.fst).filter
      (fun key => decide (key ∉ layout.map LayoutEntry.field)) = [] := by
    rw [List.filter_eq_nil_iff]
    intro key hkey
    simpa using h key hkey
  unfold checkFields
  rw [hnone]
  rfl

/-- The field of a name. -/
theorem find_of_nodup {layout : List (LayoutEntry Struct)}
    (hnames : (layout.map LayoutEntry.field).Nodup) {entry : LayoutEntry Struct}
    (h : entry ∈ layout) :
    layout.find? (fun e => decide (e.field = entry.field)) = some entry := by
  induction layout with
  | nil => cases h
  | cons first rest ih =>
    rw [List.map_cons, List.nodup_cons] at hnames
    rw [List.find?_cons]
    rcases List.mem_cons.mp h with rfl | hrest
    · rw [decide_eq_true rfl]
    · have hne : first.field ≠ entry.field := fun heq =>
        hnames.1 (heq ▸ List.mem_map_of_mem hrest)
      rw [decide_eq_false hne]
      exact ih hnames.2 hrest

/-- The parts of a packed structure, each of which decodes to its field. -/
def Struct.Parts (s : Struct) (values : List (Str × Value)) (raw : List UInt8) : Prop :=
  ∀ entry ∈ s.layout, ∃ bytes, Sits raw entry.offset bytes ∧ bytes.length = entry.typ.size ∧
    decodeField s.name entry.type entry.typ bytes =
      .ok (completedField entry.type entry.typ (values.lookup entry.field))

/-- A structure comes back if its parts do. -/
theorem Struct.Parts.unpackBytes {s : Struct} {values : List (Str × Value)} {raw : List UInt8}
    (h : s.Parts values raw) (hlen : raw.length = s.size) :
    s.unpackBytes raw = .ok (s.completed values) := by
  obtain ⟨name, packing, layout, align, size⟩ := s
  dsimp only [Struct.size] at hlen
  show (if raw.length < size then _ else unpackFields name layout raw) = _
  rw [if_neg (by omega)]
  exact unpackFields_spec h

/-- **Packing puts every field in its place**, by induction on how the structure was built. -/
theorem Built.packs {s : Struct} (hs : Built py s) {values : List (Str × Value)}
    (h : s.Canonical values) :
    ∃ raw, s.packBytes py (List.replicate s.size 0) values = .ok raw ∧ raw.length = s.size ∧
      s.Parts values raw := by
  refine Built.layout_induction (P := fun s => ∀ values, s.Canonical values →
    ∃ raw, s.packBytes py (List.replicate s.size 0) values = .ok raw ∧ raw.length = s.size ∧
      s.Parts values raw) (fun s hs ih values h => ?_) hs values h
  have hplaced := hs.placed
  obtain ⟨name, packing, layout, align, size⟩ := s
  obtain ⟨hnames, hcanonical⟩ := h
  have hentries : ∀ entry ∈ layout, Carries (encodeField py name entry.type entry.typ
      ((values.lookup entry.field).getD (defaultValue entry.typ))) entry.typ.size
      (decodeField name entry.type entry.typ)
      (completedField entry.type entry.typ (values.lookup entry.field)) := by
    intro entry hmem
    have hresolved := hplaced.resolved entry hmem
    have hvalue := canonicalFields_iff.mp hcanonical entry hmem
    have hinner := ih entry hmem
    obtain ⟨field, offset, typ, type⟩ := entry
    cases type with
    | text declared => exact text_carries (resolveType_sized hresolved) hvalue
    | struct inner =>
      cases hresolved
      refine struct_carries (fun values hvalues => ?_) hvalue
      obtain ⟨raw, hraw, hlen, hparts⟩ := (hinner inner rfl).2 values hvalues
      exact ⟨raw, hraw, hlen, hparts.unpackBytes hlen⟩
  have hinside : ∀ entry ∈ layout,
      entry.offset + entry.typ.size ≤ (List.replicate size (0 : UInt8)).length := by
    rw [List.length_replicate]
    exact hplaced.inside
  obtain ⟨raw, hraw, hlen, hsits, -⟩ := packFields_spec hplaced.ordered hinside hentries
  rw [List.length_replicate] at hlen
  refine ⟨raw, ?_, hlen, hsits⟩
  show (checkFields name layout values >>= fun _ => packFields py name layout _ values) = _
  rw [checkFields_ok hnames]
  exact hraw

/-- **Structures** come back. -/
theorem Built.carries {s : Struct} (hs : Built py s) {values : List (Str × Value)}
    (h : s.Canonical values) :
    Carries (s.packBytes py (List.replicate s.size 0) values) s.size s.unpackBytes
      (s.completed values) := by
  obtain ⟨raw, hraw, hlen, hparts⟩ := hs.packs h
  exact ⟨raw, hraw, hlen, hparts.unpackBytes hlen⟩

theorem Built.names {s : Struct} (hs : Built py s) : (s.layout.map LayoutEntry.field).Nodup :=
  hs.placed.names

/-- What the layout of a built structure says of a nested one. -/
theorem Built.nested {s : Struct} (hs : Built py s) {entry : LayoutEntry Struct}
    (hentry : entry ∈ s.layout) {inner : Struct} (htype : entry.type = .struct inner) :
    Built py inner ∧ entry.typ = ⟨inner.size, inner.align, .struct⟩ ∧
      entry.offset + inner.size ≤ s.size := by
  have hresolved := hs.placed.resolved entry hentry
  have hinside := hs.placed.inside entry hentry
  rw [htype] at hresolved
  have htyp : entry.typ = ⟨inner.size, inner.align, .struct⟩ := (Except.ok.inj hresolved).symm
  rw [htyp] at hinside
  exact ⟨hs.inner entry hentry inner htype, htyp, hinside⟩

/-- The value is of the kind that the type is for: a number, or bytes. -/
def Typ.takes (typ : Typ) : Value → Bool
  | .int _ =>
    match typ.kind with
    | .scalar base => decide (base ≠ .ostype ∧ base ≠ .boolean)
    | _ => false
  | .bytes _ =>
    match typ.kind with
    | .array .u8 _ => true
    | _ => false
  | _ => false

/-- The field is given such a value. -/
def LayoutEntry.takes (values : List (Str × Value)) (entry : LayoutEntry Struct) : Bool :=
  match entry.type, values.lookup entry.field with
  | .text _, some value => decide (entry.typ.kind ≠ .struct) && entry.typ.takes value
  | _, _ => false

theorem toBytes_range {size : Nat} {isSigned : Bool} {v : Int} {raw : List UInt8}
    (h : toBytes size isSigned v = .ok raw) :
    if isSigned = true then -2 ^ (8 * size - 1) ≤ v ∧ v < 2 ^ (8 * size - 1)
    else 0 ≤ v ∧ v < 2 ^ (8 * size) := by
  unfold toBytes at h
  split at h
  · rename_i hsigned
    rw [if_pos hsigned]
    split at h
    · assumption
    · cases h
  · rename_i hsigned
    rw [if_neg hsigned]
    split at h
    · assumption
    · cases h

/-- A number is encoded only in its range. -/
theorem scalar_canonical {kind : Scalar} (hos : kind ≠ .ostype) (hbool : kind ≠ .boolean) {v : Int}
    {raw : List UInt8} (h : scalarEncode py kind (.int v) = .ok raw) : kind.Canonical (.int v) := by
  unfold scalarEncode at h
  rw [if_neg hos, if_neg hbool] at h
  change toBytes kind.size kind.signed v = .ok raw at h
  have hrange := toBytes_range h
  unfold Scalar.Canonical
  rw [if_neg hos, if_neg hbool]
  split
  · rename_i hsigned
    rw [if_pos hsigned] at hrange
    exact ⟨v, rfl, hrange⟩
  · rename_i hsigned
    rw [if_neg hsigned] at hrange
    exact ⟨v, rfl, hrange⟩

/-- **Only canonical values are encoded.** -/
theorem Typ.canonical_of_encoded {typ : Typ} {value : Value} (htakes : typ.takes value = true)
    {raw : List UInt8} (h : encodeValue py typ value = .ok raw) : typ.Canonical value := by
  obtain ⟨size, align, kind⟩ := typ
  unfold Typ.takes at htakes
  cases value with
  | int v =>
    cases kind with
    | scalar base =>
      obtain ⟨hos, hbool⟩ := of_decide_eq_true htakes
      exact scalar_canonical hos hbool h
    | array base count => cases htakes
    | struct => cases htakes
  | bytes data =>
    cases kind with
    | scalar base => cases htakes
    | array base count =>
      cases base with
      | u8 =>
        change (if data.length ≠ count then _ else _ : Except Exc (List UInt8)) = .ok raw at h
        split at h
        · cases h
        · rename_i hlen
          exact ⟨data, rfl, not_not.mp hlen⟩
      | _ => cases htakes
    | struct => cases htakes
  | str text => cases htakes
  | list items => cases htakes
  | dict items => cases htakes

/-- **A record of numbers and bytes** is packed only with canonical values. -/
theorem Struct.canonical_of_packed {s : Struct} {values : List (Str × Value)}
    (hkeys : ∀ key ∈ values.map Prod.fst, key ∈ s.layout.map LayoutEntry.field)
    (htakes : s.layout.all (LayoutEntry.takes values) = true) {target raw : List UInt8}
    (h : s.packBytes py target values = .ok raw) : s.Canonical values := by
  obtain ⟨name, packing, layout, align, size⟩ := s
  obtain ⟨_, -, h⟩ := bind_eq_ok h
  refine ⟨hkeys, canonicalFields_iff.mpr fun entry hentry value hvalue => ?_⟩
  obtain ⟨bytes, henc⟩ := packFields_encoded h entry hentry
  have htake := List.all_eq_true.mp htakes entry hentry
  unfold LayoutEntry.takes at htake
  rw [hvalue] at htake henc
  cases htype : entry.type with
  | struct inner =>
    rw [htype] at htake
    cases htake
  | text declared =>
    rw [htype] at htake henc
    obtain ⟨hkind, htake⟩ := Bool.and_eq_true_iff.mp htake
    unfold encodeField at henc
    rw [if_neg (of_decide_eq_true hkind)] at henc
    exact Typ.canonical_of_encoded htake henc

/-! ## In guest memory -/

section Memory

variable {M : ByteMemory} {g : Guest M} {addr : Nat}

/-- A structure is read where its bytes are. -/
theorem Struct.unpack_of_bytes {s : Struct} {raw : List UInt8} {values : List (Str × Value)}
    (hbytes : ByteMemory.bytes g.uc (addr % 2 ^ 32) s.size = raw)
    (hmapped : ByteMemory.MappedRange g.uc (addr % 2 ^ 32) s.size)
    (hdec : s.unpackBytes raw = .ok values) : s.unpack addr g = .ok values g := by
  have hread : Guest.read addr s.size g = .ok raw g := by
    unfold Guest.read
    rw [bind_of_ok (get_eq g), ByteMemory.memRead_eq hmapped, hbytes]
    rfl
  unfold Struct.unpack
  rw [bind_of_ok hread, hdec]
  rfl

/-- No value is named like a parameter. -/
theorem no_packParameter {keys : List Str} (h : ∀ key ∈ keys, key ∉ packParameters) :
    keys.find? (fun key => decide (key ∈ packParameters)) = none := by
  rw [List.find?_eq_none]
  intro key hkey
  simpa using h key hkey

/-- Packing writes the bytes of the structure. -/
theorem Struct.pack_eq {s : Struct} {values : List (Str × Value)} {raw : List UInt8}
    (hraw : s.packBytes py (List.replicate s.size 0) values = .ok raw)
    (hnames : ∀ key ∈ values.map Prod.fst, key ∉ packParameters) :
    s.pack py addr values g = Guest.write addr raw g := by
  unfold Struct.pack
  rw [no_packParameter hnames]
  dsimp only
  rw [hraw]
  rfl

/-- Values that cannot be packed. -/
theorem Struct.pack_stops {s : Struct} {values : List (Str × Value)}
    (hnames : ∀ key ∈ values.map Prod.fst, key ∉ packParameters)
    (hnot : ∀ raw, s.packBytes py (List.replicate s.size 0) values ≠ .ok raw) :
    wp (s.pack py addr values) (fun _ _ => False) (fun _ g' => g' = g) g := by
  unfold Struct.pack
  rw [no_packParameter hnames]
  dsimp only
  rw [wp_bind]
  exact wp_ofExcept (fun raw hraw => absurd hraw (hnot raw)) fun _ _ => rfl

/-- What a successful `pack` has done: the bytes it has written decode to the values. -/
structure Struct.Packed (s : Struct) (g g' : Guest M) (addr : Nat) (values : List (Str × Value))
    (raw : List UInt8) : Prop where
  written : Guest.Written g g' (addr % 2 ^ 32) raw
  length : raw.length = s.size
  decodes : s.unpackBytes raw = .ok (s.completed values)

/-- **Packing canonical values.** -/
theorem Built.pack_packed {s : Struct} (hs : Built py s) {values : List (Str × Value)}
    (h : s.Canonical values) (hnames : ∀ key ∈ values.map Prod.fst, key ∉ packParameters)
    (hmapped : ByteMemory.MappedRange g.uc (addr % 2 ^ 32) s.size) :
    ∃ g' raw, s.pack py addr values g = .ok () g' ∧ s.Packed g g' addr values raw := by
  obtain ⟨raw, hraw, hlen, hdec⟩ := hs.carries h
  rw [← hlen] at hmapped
  obtain ⟨_, g', hwrite, hwritten⟩ := wp_exists_ok (Guest.write_written hmapped)
  exact ⟨g', raw, (Struct.pack_eq hraw hnames).trans hwrite, hwritten, hlen, hdec⟩

/-- **A record of numbers and bytes**: packing it says whether the values are canonical. -/
theorem Built.pack_exact {s : Struct} (hs : Built py s) {values : List (Str × Value)}
    (hkeys : ∀ key ∈ values.map Prod.fst, key ∈ s.layout.map LayoutEntry.field)
    (htakes : s.layout.all (LayoutEntry.takes values) = true)
    (hnames : ∀ key ∈ values.map Prod.fst, key ∉ packParameters)
    (hmapped : ByteMemory.MappedRange g.uc (addr % 2 ^ 32) s.size) :
    wp (s.pack py addr values)
      (fun _ g' => s.Canonical values ∧ ∃ raw, s.Packed g g' addr values raw)
      (fun _ _ => ¬ s.Canonical values) g := by
  by_cases h : s.Canonical values
  · obtain ⟨g', raw, hpack, hpacked⟩ := hs.pack_packed h hnames hmapped
    exact (wp_iff_of_ok hpack).mpr ⟨h, raw, hpacked⟩
  · refine wp_mono (Struct.pack_stops hnames fun raw hraw => ?_) (fun _ _ hfalse => hfalse.elim)
      fun _ _ _ => h
    exact h (Struct.canonical_of_packed hkeys htakes hraw)

/-- A structure is read where it was packed, as long as its bytes are left alone. -/
theorem Struct.Packed.unpack {s : Struct} {values : List (Str × Value)} {raw : List UInt8}
    {g₁ g₂ : Guest M} (h : s.Packed g g₁ addr values raw)
    (hmapped : ByteMemory.MappedRange g₂.uc (addr % 2 ^ 32) s.size)
    (hkept : ∀ x, Has (addr % 2 ^ 32, s.size) x → g₂.byte x = g₁.byte x) :
    s.unpack addr g₂ = .ok (s.completed values) g₂ := by
  have hbytes := h.written.data_eq
  rw [h.length] at hbytes
  refine Struct.unpack_of_bytes ?_ hmapped h.decodes
  rw [← hbytes]
  exact ByteMemory.bytes_congr fun x h1 h2 => hkept x ⟨h1, h2⟩

/-- **Writing a structure and reading it** at the same address. -/
theorem Built.pack_unpack {s : Struct} (hs : Built py s) {values : List (Str × Value)}
    (h : s.Canonical values) (hnames : ∀ key ∈ values.map Prod.fst, key ∉ packParameters)
    (hmapped : ByteMemory.MappedRange g.uc (addr % 2 ^ 32) s.size) :
    ∃ g', s.pack py addr values g = .ok () g' ∧ s.unpack addr g' = .ok (s.completed values) g' := by
  obtain ⟨g', raw, hpack, hpacked⟩ := hs.pack_packed h hnames hmapped
  exact ⟨g', hpack, hpacked.unpack (hpacked.written.mappedRange hmapped) fun _ _ => rfl⟩

/-- **Writing a nested structure** with `write_field`, **and reading it.** -/
theorem Built.writeField_nested {s : Struct} (hs : Built py s) {entry : LayoutEntry Struct}
    (hentry : entry ∈ s.layout) {inner : Struct} (htype : entry.type = .struct inner)
    {items : List (Str × Value)} (h : inner.Canonical items)
    (hmapped : ByteMemory.MappedRange g.uc ((addr + entry.offset) % 2 ^ 32) inner.size) :
    ∃ g', s.writeField py addr entry.field (.dict items) g = .ok () g' ∧
      inner.unpack (addr + entry.offset) g' = .ok (inner.completed items) g' := by
  obtain ⟨hinner, htyp, -⟩ := hs.nested hentry htype
  obtain ⟨raw, hraw, hlen, hdec⟩ := hinner.carries h
  rw [← hlen] at hmapped
  obtain ⟨_, g', hwrite, hwritten⟩ := wp_exists_ok (Guest.write_written hmapped)
  have hbytes := hwritten.data_eq
  have hmapped' := hwritten.mappedRange hmapped
  rw [hlen] at hbytes hmapped'
  have henc : encodeField py s.name entry.type entry.typ (.dict items) = .ok raw := by
    rw [htype, htyp]
    exact hraw
  refine ⟨g', ?_, Struct.unpack_of_bytes hbytes hmapped' hdec⟩
  unfold Struct.writeField
  rw [find_of_nodup hs.names hentry]
  dsimp only
  rw [henc]
  exact hwrite

end Memory

/-- **The codec of a structure.** Whatever the constructor accepts has its fields in declaration
order, apart, inside and aligned, in a size that is a multiple of the cap; and packing any
canonical values, except for fields that are named like a parameter of `pack`, and unpacking gives
them back, with zero for the fields that were left out. -/
theorem Struct.codec {name packing : Str} {fields : List (Str × FieldType Struct)} {s : Struct}
    (nested : ∀ field inner, (field, FieldType.struct inner) ∈ fields → Built py inner)
    (accepted : Struct.init py name packing fields = .ok s) :
    s.layout.map (fun entry => (entry.field, entry.type)) = fields ∧
      s.layout.Pairwise (fun a b => a.offset + a.typ.size ≤ b.offset) ∧
      (∀ entry ∈ s.layout, entry.offset + entry.typ.size ≤ s.size ∧
        entry.typ.align ∣ entry.offset ∧
        resolveType py entry.type (capOf packing) = .ok entry.typ) ∧
      capOf packing ∣ s.size ∧
      ∀ (M : ByteMemory) (g : Guest M) (addr : Nat) (values : List (Str × Value)),
        s.Canonical values → (∀ key ∈ values.map Prod.fst, key ∉ packParameters) →
        ByteMemory.MappedRange g.uc (addr % 2 ^ 32) s.size →
        ∃ g', s.pack py addr values g = .ok () g' ∧
          s.unpack addr g' = .ok (s.completed values) g' := by
  obtain ⟨-, hcap, hfields, hplaced⟩ :=
    Struct.init_placed (fun field inner hmem => (nested field inner hmem).align_pos) accepted
  refine ⟨hfields, hplaced.ordered, fun entry hmem => ?_, hcap, fun M g addr values => ?_⟩
  · exact ⟨hplaced.inside entry hmem, hplaced.aligned entry hmem, hplaced.resolved entry hmem⟩
  · exact (Built.init nested accepted).pack_unpack

/-! ## A field named like a parameter -/

/-- The numerals in ASCII. -/
def asciiNumerals : Numerals where
  isDecimal c := decide ('0' ≤ c ∧ c ≤ '9')
  int text :=
    if text.all fun c => decide ('0' ≤ c ∧ c ≤ '9') then
      some (text.foldl (fun v c => v * 10 + (c.toNat - 48 : Nat)) 0)
    else none

/-- `Struct("N", "mac68k", [("name", "u8[3]")])`. -/
def innerStruct : Struct :=
  ⟨['N'], ['m', 'a', 'c', '6', '8', 'k'], [⟨['n', 'a', 'm', 'e'], 0, ⟨3, 1, .array .u8 3⟩,
    .text ['u', '8', '[', '3', ']']⟩], 2, 4⟩

/-- `Struct("T", "power", [("guest", "s16"), ("inner", N)])`. -/
def outerStruct : Struct :=
  ⟨['T'], ['p', 'o', 'w', 'e', 'r'], [⟨['g', 'u', 'e', 's', 't'], 0, ⟨2, 2, .scalar .s16⟩,
    .text ['s', '1', '6']⟩, ⟨['i', 'n', 'n', 'e', 'r'], 2, ⟨4, 2, .struct⟩, .struct innerStruct⟩],
    4, 8⟩

/-- The fields of `outerStruct`, as declared. -/
def outerFields : List (Str × FieldType Struct) :=
  [(['g', 'u', 'e', 's', 't'], .text ['s', '1', '6']),
    (['i', 'n', 'n', 'e', 'r'], .struct innerStruct)]

theorem innerStruct_built : Built asciiNumerals innerStruct :=
  @Built.init _ ['N'] ['m', 'a', 'c', '6', '8', 'k']
    [(['n', 'a', 'm', 'e'], .text ['u', '8', '[', '3', ']'])] _ (by simp) rfl

theorem outerFields_built (field : Str) (inner : Struct)
    (h : (field, FieldType.struct inner) ∈ outerFields) : Built asciiNumerals inner := by
  simp only [outerFields, List.mem_cons, Prod.mk.injEq, reduceCtorEq, and_false, false_or,
    FieldType.struct.injEq, List.not_mem_nil, or_false] at h
  rw [h.2]
  exact innerStruct_built

theorem outerStruct_init :
    Struct.init asciiNumerals ['T'] ['p', 'o', 'w', 'e', 'r'] outerFields = .ok outerStruct := rfl

/-- The flat memory with everything mapped. -/
def wholeGuest : Guest ByteMemory.flat := ⟨(⟨fun _ => true, fun _ => 0⟩ : ByteMemory.Flat)⟩

/-- The nested name comes back, and zero for the number. -/
theorem Struct.codec_outer : ∃ g',
    outerStruct.pack asciiNumerals 0x1000
      [(['i', 'n', 'n', 'e', 'r'], .dict [(['n', 'a', 'm', 'e'], .bytes [1, 2, 3])])]
      wholeGuest = .ok () g' ∧
    outerStruct.unpack 0x1000 g' = .ok [(['g', 'u', 'e', 's', 't'], .int 0),
      (['i', 'n', 'n', 'e', 'r'], .dict [(['n', 'a', 'm', 'e'], .bytes [1, 2, 3])])] g' := by
  obtain ⟨-, -, -, -, hcodec⟩ := Struct.codec outerFields_built outerStruct_init
  refine hcodec ByteMemory.flat wholeGuest 0x1000 _ ⟨by decide, ?_, ?_, trivial⟩ (by decide)
    fun _ _ _ => rfl
  · intro value h
    cases h
  · rintro _ ⟨⟩
    refine ⟨_, rfl, by decide, ?_, trivial⟩
    rintro _ ⟨⟩
    exact ⟨[1, 2, 3], rfl, rfl⟩

/-- **A field called `guest`** cannot be packed. -/
theorem Struct.pack_parameter : ¬ ∀ (s : Struct), Built asciiNumerals s →
    ∀ (g : Guest ByteMemory.flat) (addr : Nat) (values : List (Str × Value)), s.Canonical values →
      ByteMemory.MappedRange g.uc (addr % 2 ^ 32) s.size →
      ∃ g', s.pack asciiNumerals addr values g = .ok () g' ∧
        s.unpack addr g' = .ok (s.completed values) g' := by
  intro h
  have hcanonical : outerStruct.Canonical [(['g', 'u', 'e', 's', 't'], .int 0)] := by
    refine ⟨by decide, ?_, ?_, trivial⟩
    · rintro _ ⟨⟩
      exact ⟨0, rfl, by decide, by decide⟩
    · intro value h
      cases h
  obtain ⟨g', hpack, -⟩ := h outerStruct (.init outerFields_built outerStruct_init) wholeGuest
    0x1000 _ hcanonical fun _ _ _ => rfl
  cases hpack

end Cwhost
