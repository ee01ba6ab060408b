import Cwhost.Abi.RoundTrip

/-!
# Writing one field leaves the others alone (`abi.py`)

* `fieldForm`: what a value given for a field comes to, if the field can hold it: a number in
  range, four bytes, a list of such, or a record with a value for every field.
* `Comes`: a value is encoded as its form is, or not at all; for a scalar, a type, a field and a
  whole structure, by induction on how it was built (`Built.comes`).
* `Built.unpacks`: any bytes of the right number can be unpacked.
* `Built.writeField_frame`: **`write_field` changes one field** of what `unpack` gives, and no byte
  outside it; where the field cannot hold the value it fails and changes nothing.
* `Struct.Updated`: several fields, one after the other.
-/

namespace Cwhost

open Lib

variable {py : Numerals}

/-! ## The form of a value -/

/-- The number a value stands for. -/
def Value.number (py : Numerals) (value : Value) : Option Int := (value.toInt py).toOption

/-- The range of a scalar. -/
def Scalar.Holds (kind : Scalar) (v : Int) : Prop :=
  if kind.signed = true then -2 ^ (8 * kind.size - 1) ≤ v ∧ v < 2 ^ (8 * kind.size - 1)
  else 0 ≤ v ∧ v < 2 ^ (8 * kind.size)

instance (kind : Scalar) (v : Int) : Decidable (kind.Holds v) := by
  unfold Scalar.Holds
  infer_instance

/-- Four bytes. -/
def osTypeForm (raw : List UInt8) : Option Value :=
  if raw.length = 4 then some (.bytes raw) else none

/-- What a value given for a scalar comes to. -/
def Scalar.form (py : Numerals) (kind : Scalar) (value : Value) : Option Value :=
  if kind = .ostype then
    match value with
    | .str text => (encodeMacRoman text).bind osTypeForm
    | .bytes raw => osTypeForm raw
    | value => (value.number py).bind fun v =>
      if kind.Holds v then some (.bytes (toBE 4 v.toNat)) else none
  else if kind = .boolean then some (.int (if value.isTrue then 1 else 0))
  else (value.number py).bind fun v => if kind.Holds v then some (.int v) else none

/-- The byte of a number. -/
def octet : Value → UInt8
  | .int v => UInt8.ofNat v.toNat
  | _ => 0

/-- What a value given for a type that is no structure comes to. -/
def Typ.form (py : Numerals) (typ : Typ) (value : Value) : Option Value :=
  match typ.kind, value with
  | .scalar base, value => base.form py value
  | .array .u8 count, .bytes raw => if raw.length = count then some (.bytes raw) else none
  | .array .u8 count, .list items =>
    if items.length = count then
      (fun forms => .bytes (forms.map octet)) <$> items.mapM (Scalar.u8.form py)
    else none
  | .array base count, .list items =>
    if items.length = count then .list <$> items.mapM (base.form py) else none
  | _, _ => none

mutual

/-- What a dictionary given for a structure comes to: a value for every field, in order. -/
def Struct.form (py : Numerals) : Struct → List (Str × Value) → Option (List (Str × Value))
  | ⟨_, _, layout, _, _⟩, values =>
    if ∀ key ∈ values.map Prod.fst, key ∈ layout.map LayoutEntry.field then
      fieldsForm py layout values
    else none

/-- The fields of a list. -/
def fieldsForm (py : Numerals) : List (LayoutEntry Struct) → List (Str × Value) →
    Option (List (Str × Value))
  | [], _ => some []
  | ⟨field, _, typ, type⟩ :: rest, values => do
    let form ← fieldForm py type typ ((values.lookup field).getD (defaultValue typ))
    let forms ← fieldsForm py rest values
    some ((field, form) :: forms)

/-- What a value given for a field comes to. -/
def fieldForm (py : Numerals) : FieldType Struct → Typ → Value → Option Value
  | .text _, typ, value => typ.form py value
  | .struct inner, _, .dict values => .dict <$> inner.form py values
  | .struct _, _, _ => none

end

/-- A value is encoded as its form is, or not at all. -/
def Comes {α : Type} (encode : α → Except Exc (List UInt8)) (Canonical : α → Prop) (value : α) :
    Option α → Prop
  | some form => Canonical form ∧ encode value = encode form
  | none => ∃ e, encode value = .error e

/-- A value that is encoded as another one. -/
theorem Comes.of_eq {α : Type} {encode : α → Except Exc (List UInt8)} {Canonical : α → Prop}
    {value value' : α} {form : Option α} (h : encode value = encode value')
    (hcomes : Comes encode Canonical value' form) : Comes encode Canonical value form := by
  cases form with
  | none =>
    obtain ⟨e, he⟩ := hcomes
    exact ⟨e, h.trans he⟩
  | some form => exact ⟨hcomes.1, h.trans hcomes.2⟩

/-! ## Scalars -/

theorem toBytes_error {size : Nat} {isSigned : Bool} {v : Int}
    (h : ¬ (if isSigned = true then -2 ^ (8 * size - 1) ≤ v ∧ v < 2 ^ (8 * size - 1)
      else 0 ≤ v ∧ v < 2 ^ (8 * size))) : ∃ e, toBytes size isSigned v = .error e := by
  cases hto : toBytes size isSigned v with
  | error e => exact ⟨e, rfl⟩
  | ok raw => exact absurd (toBytes_range hto) h

theorem Value.toInt_eq {value : Value} {v : Int} (h : value.number py = some v) :
    value.toInt py = .ok v := by
  unfold Value.number at h
  cases hto : value.toInt py with
  | error e =>
    rw [hto] at h
    cases h
  | ok w =>
    rw [hto] at h
    exact congrArg _ (Option.some.inj h)

theorem Value.toInt_error {value : Value} (h : value.number py = none) :
    ∃ e, value.toInt py = .error e := by
  unfold Value.number at h
  cases hto : value.toInt py with
  | error e => exact ⟨e, rfl⟩
  | ok w =>
    rw [hto] at h
    cases h

/-- A number given for a scalar, in bytes. -/
theorem number_comes (py : Numerals) (kind : Scalar) (value : Value) :
    match (value.number py).bind fun v => if kind.Holds v then some v else none with
    | some v => kind.Holds v ∧
      (value.toInt py >>= fun v => toBytes kind.size kind.signed v) =
        toBytes kind.size kind.signed v
    | none => ∃ e, (value.toInt py >>= fun v => toBytes kind.size kind.signed v) = .error e := by
  cases hv : value.number py with
  | none =>
    obtain ⟨e, he⟩ := Value.toInt_error hv
    exact ⟨e, by rw [he]; rfl⟩
  | some v =>
    rw [Option.bind_some, Value.toInt_eq hv]
    by_cases hrange : kind.Holds v
    · rw [if_pos hrange]
      exact ⟨hrange, rfl⟩
    · rw [if_neg hrange]
      exact toBytes_error hrange

theorem osType_comes (py : Numerals) (raw : List UInt8) :
    Comes (scalarEncode py .ostype) Scalar.ostype.Canonical (.bytes raw) (osTypeForm raw) := by
  unfold osTypeForm
  by_cases hlen : raw.length = 4
  · rw [if_pos hlen]
    exact ⟨⟨raw, rfl, hlen⟩, rfl⟩
  · rw [if_neg hlen]
    refine ⟨.hostError s!"OSType must contain four bytes, got {bytesRepr raw}", ?_⟩
    show osTypeBytes raw = _
    unfold osTypeBytes
    rw [if_pos hlen]
    rfl

/-- A number given for an OSType. -/
theorem osType_number {value : Value}
    (henc : scalarEncode py .ostype value =
      (value.toInt py >>= fun v => toBytes Scalar.ostype.size Scalar.ostype.signed v)) :
    Comes (scalarEncode py .ostype) Scalar.ostype.Canonical value
      ((value.number py).bind fun v =>
        if Scalar.ostype.Holds v then some (.bytes (toBE 4 v.toNat)) else none) := by
  have hnumber := number_comes py .ostype value
  rw [← henc] at hnumber
  cases hv : value.number py with
  | none =>
    rw [hv] at hnumber
    exact hnumber
  | some v =>
    rw [hv] at hnumber
    simp only [Option.bind_some] at hnumber ⊢
    by_cases hrange : Scalar.ostype.Holds v
    · rw [if_pos hrange] at hnumber ⊢
      refine ⟨⟨_, rfl, toBE_length 4 _⟩, hnumber.2.trans ?_⟩
      obtain ⟨hlow, hhigh⟩ : 0 ≤ v ∧ v < 2 ^ (8 * 4) := hrange
      show toBytes 4 false v = osTypeBytes (toBE 4 v.toNat)
      unfold toBytes osTypeBytes
      rw [if_neg Bool.false_ne_true, if_pos ⟨hlow, hhigh⟩, if_neg (not_not.mpr (toBE_length 4 _))]
    · rw [if_neg hrange] at hnumber ⊢
      exact hnumber

/-- A text given for an OSType. -/
theorem osType_text (py : Numerals) (text : Str) :
    Comes (scalarEncode py .ostype) Scalar.ostype.Canonical (.str text)
      ((encodeMacRoman text).bind osTypeForm) := by
  cases hraw : encodeMacRoman text with
  | none =>
    refine ⟨.valueError, ?_⟩
    simp only [scalarEncode, if_true, hraw]
    rfl
  | some raw =>
    refine Comes.of_eq ?_ (osType_comes py raw)
    simp only [scalarEncode, if_true, hraw]

/-- A number given for a scalar of another kind. -/
theorem integer_comes (py : Numerals) {kind : Scalar} (value : Value) (hos : kind ≠ .ostype)
    (hbool : kind ≠ .boolean) :
    Comes (scalarEncode py kind) kind.Canonical value (kind.form py value) := by
  have henc : ∀ value, scalarEncode py kind value =
      (value.toInt py >>= fun v => toBytes kind.size kind.signed v) := by
    intro value
    unfold scalarEncode
    rw [if_neg hos, if_neg hbool]
  have hnumber := number_comes py kind value
  rw [← henc] at hnumber
  unfold Scalar.form
  rw [if_neg hos, if_neg hbool]
  cases hv : value.number py with
  | none =>
    rw [hv] at hnumber
    exact hnumber
  | some v =>
    rw [hv] at hnumber
    simp only [Option.bind_some] at hnumber ⊢
    by_cases hrange : kind.Holds v
    · rw [if_pos hrange] at hnumber ⊢
      refine ⟨?_, by rw [hnumber.2, henc]; rfl⟩
      unfold Scalar.Canonical
      rw [if_neg hos, if_neg hbool]
      unfold Scalar.Holds at hrange
      by_cases hsigned : kind.signed = true
      · rw [if_pos hsigned] at hrange ⊢
        exact ⟨v, rfl, hrange⟩
      · rw [if_neg hsigned] at hrange ⊢
        exact ⟨v, rfl, hrange⟩
    · rw [if_neg hrange] at hnumber ⊢
      exact hnumber

/-- **Scalars.** -/
theorem Scalar.comes (py : Numerals) (kind : Scalar) (value : Value) :
    Comes (scalarEncode py kind) kind.Canonical value (kind.form py value) := by
  by_cases hos : kind = .ostype
  · subst hos
    cases value with
    | bytes raw => exact osType_comes py raw
    | str text => exact osType_text py text
    | int v => exact osType_number rfl
    | list items => exact osType_number rfl
    | dict items => exact osType_number rfl
  by_cases hbool : kind = .boolean
  · subst hbool
    show _ ∧ _
    cases htrue : value.isTrue with
    | true => exact ⟨.inr rfl, by simp only [scalarEncode, htrue]; rfl⟩
    | false => exact ⟨.inl rfl, by simp only [scalarEncode, htrue]; rfl⟩
  · exact integer_comes py value hos hbool

/-! ## Types -/

/-- **Elements of an array.** -/
theorem elements_come (py : Numerals) (kind : Scalar) (items : List Value) :
    match items.mapM (kind.form py) with
    | some forms => forms.length = items.length ∧ (∀ form ∈ forms, kind.Canonical form) ∧
      items.mapM (scalarEncode py kind) = forms.mapM (scalarEncode py kind)
    | none => ∃ e, items.mapM (scalarEncode py kind) = .error e := by
  induction items with
  | nil => exact ⟨rfl, by simp, rfl⟩
  | cons item items ih =>
    have hitem := kind.comes py item
    rw [List.mapM_cons, List.mapM_cons]
    cases hform : kind.form py item with
    | none =>
      rw [hform] at hitem
      obtain ⟨e, he⟩ := hitem
      exact ⟨e, by rw [he]; rfl⟩
    | some form =>
      rw [hform] at hitem
      obtain ⟨hcanonical, henc⟩ := hitem
      rw [henc]
      cases hforms : items.mapM (kind.form py) with
      | none =>
        rw [hforms] at ih
        obtain ⟨e, he⟩ := ih
        rw [he]
        cases hbytes : scalarEncode py kind form with
        | error e' => exact ⟨e', rfl⟩
        | ok bytes => exact ⟨e, rfl⟩
      | some forms =>
        rw [hforms] at ih
        obtain ⟨hlen, hall, hmap⟩ := ih
        refine ⟨congrArg (· + 1) hlen, List.forall_mem_cons.mpr ⟨hcanonical, hall⟩, ?_⟩
        rw [hmap, List.mapM_cons]

/-- The bytes of small numbers. -/
theorem octets_encode {forms : List Value} (h : ∀ form ∈ forms, Scalar.u8.Canonical form) :
    List.flatten <$> forms.mapM (scalarEncode py .u8) = .ok (forms.map octet) := by
  induction forms with
  | nil => rfl
  | cons form forms ih =>
    obtain ⟨hform, hforms⟩ := List.forall_mem_cons.mp h
    obtain ⟨v, rfl, hrange⟩ : ∃ v, form = .int v ∧ 0 ≤ v ∧ v < 2 ^ (8 * Scalar.u8.size) := by
      simpa only [Scalar.Canonical, reduceCtorEq, if_false,
        show Scalar.u8.signed = false from rfl, Bool.false_eq_true] using hform
    have hbyte : scalarEncode py .u8 (.int v) = .ok [UInt8.ofNat v.toNat] := by
      show toBytes 1 false v = _
      unfold toBytes
      rw [if_neg Bool.false_ne_true, if_pos (show 0 ≤ v ∧ v < 2 ^ (8 * 1) from hrange)]
      show Except.ok [UInt8.ofNat (v.toNat / 1)] = _
      rw [Nat.div_one]
    obtain ⟨raws, hraws, hflat⟩ := map_eq_ok (ih hforms)
    rw [List.mapM_cons, hbyte, hraws]
    exact congrArg (fun bytes => Except.ok (UInt8.ofNat v.toNat :: bytes)) hflat.symm

/-- **A list given for an array.** -/
theorem list_comes (size align count : Nat) (base : Scalar) (items : List Value) :
    Comes (encodeValue py ⟨size, align, .array base count⟩)
      (Typ.Canonical ⟨size, align, .array base count⟩) (.list items)
      (Typ.form py ⟨size, align, .array base count⟩ (.list items)) := by
  have hencode : ∀ items, encodeValue py ⟨size, align, .array base count⟩ (.list items) =
      if items.length ≠ count then
        throw (.hostError s!"expected {count} array elements, got {items.length}")
      else List.flatten <$> items.mapM (scalarEncode py base) := by
    intro items
    cases base <;> rfl
  by_cases hlen : items.length = count
  case neg =>
    have hform : Typ.form py ⟨size, align, .array base count⟩ (.list items) = none := by
      cases base <;> exact if_neg hlen
    rw [hform]
    exact ⟨_, (hencode items).trans (if_pos hlen)⟩
  have hcome := elements_come py base items
  have henc := (hencode items).trans (if_neg (not_not.mpr hlen))
  have hfails : items.mapM (base.form py) = none →
      ∃ e, encodeValue py ⟨size, align, .array base count⟩ (.list items) = .error e := by
    intro hforms
    rw [hforms] at hcome
    obtain ⟨e, he⟩ := hcome
    exact ⟨e, by rw [henc, he]; rfl⟩
  by_cases hbase : base = .u8
  · subst hbase
    have hform : Typ.form py ⟨size, align, .array .u8 count⟩ (.list items) =
        (fun forms => .bytes (forms.map octet)) <$> items.mapM (Scalar.u8.form py) := if_pos hlen
    rw [hform]
    cases hforms : items.mapM (Scalar.u8.form py) with
    | none => exact hfails hforms
    | some forms =>
      rw [hforms] at hcome
      obtain ⟨hlength, hall, hmap⟩ := hcome
      have hcount : (forms.map octet).length = count := by
        rw [List.length_map, hlength, hlen]
      refine ⟨⟨_, rfl, hcount⟩, ?_⟩
      rw [henc, hmap, octets_encode hall]
      show _ = if (forms.map octet).length ≠ count then _ else _
      rw [if_neg (not_not.mpr hcount)]
      rfl
  · have hform : Typ.form py ⟨size, align, .array base count⟩ (.list items) =
        .list <$> items.mapM (base.form py) := by
      cases base <;> first | exact if_pos hlen | exact absurd rfl hbase
    rw [hform]
    cases hforms : items.mapM (base.form py) with
    | none => exact hfails hforms
    | some forms =>
      rw [hforms] at hcome
      obtain ⟨hlength, hall, hmap⟩ := hcome
      have hcanonical : ∃ items, Value.list forms = .list items ∧ items.length = count ∧
          ∀ item ∈ items, base.Canonical item := ⟨forms, rfl, hlength.trans hlen, hall⟩
      refine ⟨?_, ?_⟩
      · cases base <;> first | exact hcanonical | exact absurd rfl hbase
      · rw [henc, hmap, hencode, if_neg (not_not.mpr (hlength.trans hlen))]

/-- **Values of a type** that is no structure. -/
theorem Typ.comes (py : Numerals) (typ : Typ) (value : Value) :
    Comes (encodeValue py typ) typ.Canonical value (typ.form py value) := by
  obtain ⟨size, align, kind⟩ := typ
  cases kind with
  | scalar base => exact base.comes py value
  | struct => cases value <;> exact ⟨_, rfl⟩
  | array base count =>
    cases value with
    | list items => exact list_comes size align count base items
    | bytes raw =>
      by_cases hbase : base = .u8
      · subst hbase
        show Comes _ _ _ (if raw.length = count then some (Value.bytes raw) else none)
        by_cases hlen : raw.length = count
        · rw [if_pos hlen]
          exact ⟨⟨raw, rfl, hlen⟩, rfl⟩
        · rw [if_neg hlen]
          exact ⟨_, if_pos hlen⟩
      · cases base <;> first | exact ⟨_, rfl⟩ | exact absurd rfl hbase
    | int v => cases base <;> exact ⟨_, rfl⟩
    | str text => cases base <;> exact ⟨_, rfl⟩
    | dict items => cases base <;> exact ⟨_, rfl⟩

/-! ## Structures -/

/-- A dictionary given for a structure. -/
def Struct.Comes (py : Numerals) (s : Struct) (values : List (Str × Value)) : Prop :=
  match s.form py values with
  | some forms => s.Canonical forms ∧ s.completed forms = forms ∧
    ∀ target, s.packBytes py target values = s.packBytes py target forms
  | none => ∀ target, ∃ e, s.packBytes py target values = .error e

/-- A value given for a field. -/
def FieldComes (py : Numerals) (name : Str) (type : FieldType Struct) (typ : Typ)
    (value : Value) : Prop :=
  match fieldForm py type typ value with
  | some form => canonicalField type typ form ∧ completedField type typ (some form) = form ∧
    encodeField py name type typ value = encodeField py name type typ form
  | none => ∃ e, encodeField py name type typ value = .error e

/-- **A field**, if the structure it may be comes. -/
theorem field_comes (name : Str) {type : FieldType Struct} {cap : Nat} {typ : Typ} (value : Value)
    (hresolved : resolveType py type cap = .ok typ)
    (hinner : ∀ inner, type = .struct inner → ∀ values, inner.Comes py values) :
    FieldComes py name type typ value := by
  cases type with
  | text declared =>
    have hsized := resolveType_sized hresolved
    have hencode : ∀ value, encodeField py name (.text declared) typ value =
        encodeValue py typ value := by
      intro value
      unfold encodeField
      rw [if_neg hsized.not_struct]
    have hcome := typ.comes py value
    unfold FieldComes
    rw [fieldForm]
    cases hform : typ.form py value with
    | none =>
      rw [hform] at hcome
      obtain ⟨e, he⟩ := hcome
      exact ⟨e, (hencode value).trans he⟩
    | some form =>
      rw [hform] at hcome
      exact ⟨hcome.1, rfl, by rw [hencode, hencode, hcome.2]⟩
  | struct inner =>
    cases hresolved
    cases value with
    | dict values =>
      have hcome := hinner inner rfl values
      unfold Struct.Comes at hcome
      unfold FieldComes
      rw [fieldForm]
      cases hform : inner.form py values with
      | none =>
        rw [hform] at hcome
        exact hcome _
      | some forms =>
        rw [hform] at hcome
        obtain ⟨hcanonical, hcompleted, hpack⟩ := hcome
        exact ⟨⟨forms, rfl, hcanonical⟩, congrArg Value.dict hcompleted, hpack _⟩
    | _ => exact ⟨_, rfl⟩

/-- The value given for a field. -/
def LayoutEntry.given (values : List (Str × Value)) (entry : LayoutEntry Struct) : Value :=
  (values.lookup entry.field).getD (defaultValue entry.typ)

theorem fieldsForm_none {layout : List (LayoutEntry Struct)} {values : List (Str × Value)}
    (h : fieldsForm py layout values = none) :
    ∃ entry ∈ layout, fieldForm py entry.type entry.typ (entry.given values) = none := by
  induction layout with
  | nil => cases h
  | cons entry rest ih =>
    rw [fieldsForm] at h
    cases hform : fieldForm py entry.type entry.typ (entry.given values) with
    | none => exact ⟨entry, List.mem_cons_self, hform⟩
    | some form =>
      unfold LayoutEntry.given at hform
      rw [hform] at h
      cases hforms : fieldsForm py rest values with
      | some forms =>
        rw [hforms] at h
        cases h
      | none =>
        obtain ⟨entry, hentry, hnone⟩ := ih hforms
        exact ⟨entry, List.mem_cons_of_mem _ hentry, hnone⟩

theorem fieldsForm_cons {entry : LayoutEntry Struct} {rest : List (LayoutEntry Struct)}
    {values forms : List (Str × Value)} (h : fieldsForm py (entry :: rest) values = some forms) :
    ∃ form others, fieldForm py entry.type entry.typ (entry.given values) = some form ∧
      fieldsForm py rest values = some others ∧ forms = (entry.field, form) :: others := by
  rw [fieldsForm] at h
  obtain ⟨form, hform, h⟩ := Option.bind_eq_some_iff.mp h
  obtain ⟨others, hothers, h⟩ := Option.bind_eq_some_iff.mp h
  exact ⟨form, others, hform, hothers, (Option.some.inj h).symm⟩

theorem fieldsForm_some {layout : List (LayoutEntry Struct)} {values forms : List (Str × Value)}
    (h : fieldsForm py layout values = some forms) :
    forms.map Prod.fst = layout.map LayoutEntry.field ∧
      ∀ entry ∈ layout, ∃ form,
        fieldForm py entry.type entry.typ (entry.given values) = some form ∧
          (entry.field, form) ∈ forms := by
  induction layout generalizing forms with
  | nil =>
    cases h
    exact ⟨rfl, by simp⟩
  | cons entry rest ih =>
    obtain ⟨form, others, hform, hothers, rfl⟩ := fieldsForm_cons h
    obtain ⟨hnames, hentries⟩ := ih hothers
    refine ⟨by rw [List.map_cons, List.map_cons, hnames],
      List.forall_mem_cons.mpr ⟨⟨form, hform, List.mem_cons_self⟩, fun e he => ?_⟩⟩
    obtain ⟨f, hf, hmem⟩ := hentries e he
    exact ⟨f, hf, List.mem_cons_of_mem _ hmem⟩

/-- Forms that are complete already. -/
theorem completedFields_eq {layout : List (LayoutEntry Struct)}
    {values forms whole : List (Str × Value)} (h : fieldsForm py layout values = some forms)
    (hwhole : ∀ entry ∈ layout, ∀ form,
      fieldForm py entry.type entry.typ (entry.given values) = some form →
        whole.lookup entry.field = some form ∧
          completedField entry.type entry.typ (some form) = form) :
    completedFields layout whole = forms := by
  induction layout generalizing forms with
  | nil =>
    cases h
    rfl
  | cons entry rest ih =>
    obtain ⟨form, others, hform, hothers, rfl⟩ := fieldsForm_cons h
    obtain ⟨hlookup, hcompleted⟩ := hwhole entry List.mem_cons_self form hform
    rw [completedFields, hlookup, hcompleted,
      ih hothers fun e he => hwhole e (List.mem_cons_of_mem _ he)]

/-- Packing looks only at how the fields are encoded. -/
theorem packFields_congr {name : Str} {layout : List (LayoutEntry Struct)}
    {values values' : List (Str × Value)} {target : List UInt8}
    (h : ∀ entry ∈ layout, encodeField py name entry.type entry.typ (entry.given values) =
      encodeField py name entry.type entry.typ (entry.given values')) :
    packFields py name layout target values = packFields py name layout target values' := by
  induction layout generalizing target with
  | nil => rfl
  | cons entry rest ih =>
    have hentry := h entry List.mem_cons_self
    unfold LayoutEntry.given at hentry
    simp only [packFields, hentry]
    exact bind_congr fun bytes => ih fun e he => h e (List.mem_cons_of_mem _ he)

/-- A field that cannot be encoded. -/
theorem packFields_error {name : Str} {layout : List (LayoutEntry Struct)}
    {values : List (Str × Value)} {target : List UInt8} {entry : LayoutEntry Struct}
    (hentry : entry ∈ layout)
    (h : ∃ e, encodeField py name entry.type entry.typ (entry.given values) = .error e) :
    ∃ e, packFields py name layout target values = .error e := by
  cases hpack : packFields py name layout target values with
  | error e => exact ⟨e, rfl⟩
  | ok raw =>
    obtain ⟨bytes, hbytes⟩ := packFields_encoded hpack entry hentry
    obtain ⟨e, he⟩ := h
    cases hbytes.symm.trans he

/-- The value under a name that is there once. -/
theorem lookup_of_mem {items : List (Str × Value)} (hnodup : (items.map Prod.fst).Nodup)
    {field : Str} {value : Value} (hmem : (field, value) ∈ items) :
    items.lookup field = some value := by
  obtain ⟨before, behind, rfl⟩ := List.append_of_mem hmem
  refine List.lookup_eq_some_iff.mpr ⟨before, behind, rfl, fun item hitem => ?_⟩
  rw [List.map_append, List.map_cons, List.nodup_append] at hnodup
  have hne := hnodup.2.2 item.1 (List.mem_map_of_mem hitem) field List.mem_cons_self
  simpa using hne.symm

/-- The check for unknown names fails. -/
theorem checkFields_error (name : Str) {layout : List (LayoutEntry Struct)}
    {values : List (Str × Value)}
    (h : ¬ ∀ key ∈ values.map Prod.fst, key ∈ layout.map LayoutEntry.field) :
    ∃ e, checkFields name layout values = .error e := by
  unfold checkFields
  by_cases hnone : (values.map Prod.fst).filter
      (fun key => decide (key ∉ layout.map LayoutEntry.field)) = []
  · refine absurd (fun key hkey => ?_) h
    have hknown := List.filter_eq_nil_iff.mp hnone key hkey
    simpa using hknown
  · simp only [if_pos hnone]
    exact ⟨_, rfl⟩

theorem packBytes_eq {name packing : Str} {layout : List (LayoutEntry Struct)} {align size : Nat}
    {values : List (Str × Value)} {target : List UInt8}
    (hkeys : ∀ key ∈ values.map Prod.fst, key ∈ layout.map LayoutEntry.field) :
    Struct.packBytes py ⟨name, packing, layout, align, size⟩ target values =
      packFields py name layout target values := by
  rw [Struct.packBytes, checkFields_ok hkeys]
  rfl

/-- **Structures**, by induction on how they were built. -/
theorem Built.comes {s : Struct} (hs : Built py s) (values : List (Str × Value)) :
    s.Comes py values := by
  refine Built.layout_induction (P := fun s => ∀ values, s.Comes py values)
    (fun s hs ih values => ?_) hs values
  have hplaced := hs.placed
  obtain ⟨name, packing, layout, align, size⟩ := s
  have hentries : ∀ entry ∈ layout,
      FieldComes py name entry.type entry.typ (entry.given values) := by
    intro entry hentry
    exact field_comes name _ (hplaced.resolved entry hentry) fun inner htype =>
      (ih entry hentry inner htype).2
  unfold Struct.Comes
  rw [Struct.form]
  by_cases hkeys : ∀ key ∈ values.map Prod.fst, key ∈ layout.map LayoutEntry.field
  case neg =>
    rw [if_neg hkeys]
    intro target
    obtain ⟨e, he⟩ := checkFields_error name hkeys
    exact ⟨e, by rw [Struct.packBytes, he]; rfl⟩
  rw [if_pos hkeys]
  cases hforms : fieldsForm py layout values with
  | none =>
    intro target
    obtain ⟨entry, hentry, hnone⟩ := fieldsForm_none hforms
    have hfield := hentries entry hentry
    unfold FieldComes at hfield
    rw [hnone] at hfield
    rw [packBytes_eq hkeys]
    exact packFields_error hentry hfield
  | some forms =>
    obtain ⟨hnames, hsome⟩ := fieldsForm_some hforms
    have hnodup : (forms.map Prod.fst).Nodup := hnames ▸ hplaced.names
    -- What the forms hold for a field of the layout.
    have hheld : ∀ entry ∈ layout, ∀ form,
        fieldForm py entry.type entry.typ (entry.given values) = some form →
          forms.lookup entry.field = some form ∧ canonicalField entry.type entry.typ form ∧
            completedField entry.type entry.typ (some form) = form ∧
            encodeField py name entry.type entry.typ (entry.given values) =
              encodeField py name entry.type entry.typ form := by
      intro entry hentry form hform
      obtain ⟨form', hform', hmem⟩ := hsome entry hentry
      cases hform.symm.trans hform'
      have hfield := hentries entry hentry
      unfold FieldComes at hfield
      rw [hform] at hfield
      exact ⟨lookup_of_mem hnodup hmem, hfield⟩
    have hkeys' : ∀ key ∈ forms.map Prod.fst, key ∈ layout.map LayoutEntry.field :=
      fun key hkey => hnames ▸ hkey
    refine ⟨⟨hkeys', canonicalFields_iff.mpr fun entry hentry value hvalue => ?_⟩, ?_,
      fun target => ?_⟩
    · obtain ⟨form, hform, -⟩ := hsome entry hentry
      obtain ⟨hlookup, hcanonical, -⟩ := hheld entry hentry form hform
      cases hlookup.symm.trans hvalue
      exact hcanonical
    · refine completedFields_eq hforms fun entry hentry form hform => ?_
      obtain ⟨hlookup, -, hcompleted, -⟩ := hheld entry hentry form hform
      exact ⟨hlookup, hcompleted⟩
    · rw [packBytes_eq hkeys, packBytes_eq hkeys']
      refine packFields_congr fun entry hentry => ?_
      obtain ⟨form, hform, -⟩ := hsome entry hentry
      obtain ⟨hlookup, -, -, hencode⟩ := hheld entry hentry form hform
      rw [hencode]
      unfold LayoutEntry.given
      rw [hlookup, Option.getD_some]

/-! ## Any bytes can be unpacked -/

theorem scalarDecode_total {kind : Scalar} {raw : List UInt8} (h : raw.length = kind.size) :
    ∃ value, scalarDecode kind raw = .ok value := by
  unfold scalarDecode
  by_cases hos : kind = .ostype
  · rw [if_pos hos]
    exact ⟨_, rfl⟩
  rw [if_neg hos]
  by_cases hbool : kind = .boolean
  · subst hbool
    cases raw with
    | nil => cases h
    | cons b raw => exact ⟨_, rfl⟩
  rw [if_neg hbool]
  by_cases hsigned : kind.signed = true
  · rw [if_pos hsigned]
    exact ⟨_, rfl⟩
  · rw [if_neg hsigned]
    exact ⟨_, rfl⟩

theorem mapM_total {α β ε : Type} {f : α → Except ε β} {l : List α}
    (h : ∀ a ∈ l, ∃ b, f a = .ok b) : ∃ bs, l.mapM f = .ok bs := by
  induction l with
  | nil => exact ⟨[], rfl⟩
  | cons a l ih =>
    obtain ⟨⟨b, hb⟩, hl⟩ := List.forall_mem_cons.mp h
    obtain ⟨bs, hbs⟩ := ih hl
    exact ⟨b :: bs, by rw [List.mapM_cons, hb, hbs]; rfl⟩

/-- The chunks of whole elements have the size of one. -/
theorem chunks_size {size count : Nat} (hsize : 0 < size) {raw : List UInt8}
    (hlen : raw.length = size * count) : ∀ chunk ∈ chunks size raw, chunk.length = size := by
  intro chunk hchunk
  obtain ⟨i, hi, rfl⟩ := List.mem_map.mp hchunk
  have hcount : (raw.length + size - 1) / size = count := by
    rw [hlen, Nat.add_sub_assoc hsize, Nat.mul_add_div hsize, Nat.div_eq_of_lt (by omega),
      Nat.add_zero]
  rw [List.mem_range, hcount] at hi
  have hend : i * size + size ≤ raw.length := by
    rw [hlen, ← Nat.succ_mul, Nat.mul_comm size]
    exact Nat.mul_le_mul_right size hi
  rw [slice, List.length_take, List.length_drop]
  omega

theorem decodeValue_total {typ : Typ} (hsized : typ.Sized) {raw : List UInt8}
    (h : raw.length = typ.size) : ∃ value, decodeValue typ raw = .ok value := by
  obtain ⟨size, align, kind⟩ := typ
  cases kind with
  | struct => exact hsized.elim
  | scalar base =>
    cases hsized
    exact scalarDecode_total h
  | array base count =>
    cases hsized
    have hchunks := mapM_total (f := scalarDecode base) fun chunk hchunk =>
      scalarDecode_total (chunks_size base.size_pos h chunk hchunk)
    obtain ⟨values, hvalues⟩ := hchunks
    have hlist : ∃ value, (Value.list <$> (chunks base.size raw).mapM (scalarDecode base) :
        Except Exc Value) = .ok value := ⟨_, by rw [hvalues]; rfl⟩
    cases base <;> first | exact hlist | exact ⟨_, rfl⟩

theorem unpackFields_total {name : Str} {layout : List (LayoutEntry Struct)} {raw : List UInt8}
    (h : ∀ entry ∈ layout, ∃ value, decodeField name entry.type entry.typ
      (slice raw entry.offset (entry.offset + entry.typ.size)) = .ok value) :
    ∃ values, unpackFields name layout raw = .ok values := by
  induction layout with
  | nil => exact ⟨[], rfl⟩
  | cons entry rest ih =>
    obtain ⟨⟨value, hvalue⟩, hrest⟩ := List.forall_mem_cons.mp h
    obtain ⟨values, hvalues⟩ := ih hrest
    exact ⟨(entry.field, value) :: values, by rw [unpackFields, hvalue, hvalues]; rfl⟩

/-- **Any bytes of the right number** can be unpacked. -/
theorem Built.unpacks {s : Struct} (hs : Built py s) {raw : List UInt8}
    (hlen : raw.length = s.size) : ∃ values, s.unpackBytes raw = .ok values := by
  refine Built.layout_induction (P := fun s => ∀ raw : List UInt8, raw.length = s.size →
    ∃ values, s.unpackBytes raw = .ok values) (fun s hs ih raw hlen => ?_) hs raw hlen
  have hplaced := hs.placed
  obtain ⟨name, packing, layout, align, size⟩ := s
  change raw.length = size at hlen
  rw [Struct.unpackBytes, if_neg (by omega)]
  refine unpackFields_total fun entry hentry => ?_
  have hresolved := hplaced.resolved entry hentry
  have hinside : entry.offset + entry.typ.size ≤ size := hplaced.inside entry hentry
  have hinner := ih entry hentry
  have hslice : (slice raw entry.offset (entry.offset + entry.typ.size)).length =
      entry.typ.size := by
    rw [slice, List.length_take, List.length_drop]
    omega
  generalize slice raw entry.offset (entry.offset + entry.typ.size) = part at hslice
  obtain ⟨field, offset, typ, type⟩ := entry
  cases type with
  | text declared =>
    have hsized := resolveType_sized hresolved
    obtain ⟨value, hvalue⟩ := decodeValue_total hsized hslice
    exact ⟨value, by rw [decodeField, if_neg hsized.not_struct, hvalue]⟩
  | struct inner =>
    cases hresolved
    obtain ⟨values, hvalues⟩ := (hinner inner rfl).2 part hslice
    refine ⟨.dict values, ?_⟩
    show Value.dict <$> inner.unpackBytes part = _
    rw [hvalues]
    rfl

/-! ## One field of a structure -/

/-- Two fields do not meet. -/
def LayoutEntry.Apart (a b : LayoutEntry Struct) : Prop :=
  a.offset + a.typ.size ≤ b.offset ∨ b.offset + b.typ.size ≤ a.offset

/-- Different fields do not meet. -/
theorem Built.apart {s : Struct} (hs : Built py s) {entry other : LayoutEntry Struct}
    (hentry : entry ∈ s.layout) (hother : other ∈ s.layout) (hne : other.field ≠ entry.field) :
    other.Apart entry := by
  have hsymm : Std.Symm LayoutEntry.Apart := ⟨fun _ _ h => h.symm⟩
  have hapart : s.layout.Pairwise LayoutEntry.Apart := hs.placed.ordered.imp Or.inl
  exact hapart.forall hother hentry fun heq => hne (congrArg _ heq)

theorem Built.inside {s : Struct} (hs : Built py s) {entry : LayoutEntry Struct}
    (hentry : entry ∈ s.layout) : entry.offset + entry.typ.size ≤ s.size :=
  hs.placed.inside entry hentry

/-- **What `write_field` encodes**: bytes of the field's size that decode to the form. -/
theorem Built.field {s : Struct} (hs : Built py s) {entry : LayoutEntry Struct}
    (hentry : entry ∈ s.layout) (value : Value) :
    match fieldForm py entry.type entry.typ value with
    | some form => Carries (encodeField py s.name entry.type entry.typ value) entry.typ.size
      (decodeField s.name entry.type entry.typ) form
    | none => ∃ e, encodeField py s.name entry.type entry.typ value = .error e := by
  have hresolved := hs.placed.resolved entry hentry
  have hinner := hs.inner entry hentry
  have hcomes := field_comes s.name value hresolved fun inner htype => (hinner inner htype).comes
  unfold FieldComes at hcomes
  cases hform : fieldForm py entry.type entry.typ value with
  | none =>
    rw [hform] at hcomes
    exact hcomes
  | some form =>
    rw [hform] at hcomes
    obtain ⟨hcanonical, hcompleted, hencode⟩ := hcomes
    have hcarries : Carries (encodeField py s.name entry.type entry.typ form) entry.typ.size
        (decodeField s.name entry.type entry.typ)
        (completedField entry.type entry.typ (some form)) := by
      obtain ⟨field, offset, typ, type⟩ := entry
      cases type with
      | text declared =>
        refine @text_carries py s.name declared typ (some form) (resolveType_sized hresolved)
          fun v hv => ?_
        cases hv
        exact hcanonical
      | struct inner =>
        cases hresolved
        refine @struct_carries py s.name inner inner.align (some form)
          (fun values hvalues => (hinner inner rfl).carries hvalues) fun v hv => ?_
        cases hv
        exact hcanonical
    rw [hcompleted] at hcarries
    rwa [hencode]

/-- **Unpacking after a change of one field**: its value is replaced. -/
theorem unpackFields_update {name : Str} {layout : List (LayoutEntry Struct)}
    {raw raw' : List UInt8} {former : List (Str × Value)} {field : Str} {form : Value}
    (hformer : unpackFields name layout raw = .ok former)
    (hentries : ∀ entry ∈ layout,
      if entry.field = field then
        decodeField name entry.type entry.typ
          (slice raw' entry.offset (entry.offset + entry.typ.size)) = .ok form
      else slice raw' entry.offset (entry.offset + entry.typ.size) =
        slice raw entry.offset (entry.offset + entry.typ.size)) :
    unpackFields name layout raw' =
      .ok (former.map fun item => if item.1 = field then (item.1, form) else item) := by
  induction layout generalizing former with
  | nil =>
    cases hformer
    rfl
  | cons entry rest ih =>
    obtain ⟨hentry, hrest⟩ := List.forall_mem_cons.mp hentries
    rw [unpackFields] at hformer
    obtain ⟨value, hvalue, hformer⟩ := bind_eq_ok hformer
    obtain ⟨others, hothers, hformer⟩ := bind_eq_ok hformer
    cases hformer
    rw [unpackFields, List.map_cons]
    by_cases hfield : entry.field = field
    · rw [if_pos hfield] at hentry ⊢
      rw [hentry, ih hothers hrest]
      rfl
    · rw [if_neg hfield] at hentry ⊢
      rw [hentry, hvalue, ih hothers hrest]
      rfl

/-- Unpacking names the fields in order. -/
theorem unpackFields_names {name : Str} {layout : List (LayoutEntry Struct)} {raw : List UInt8}
    {values : List (Str × Value)} (h : unpackFields name layout raw = .ok values) :
    values.map Prod.fst = layout.map LayoutEntry.field := by
  induction layout generalizing values with
  | nil =>
    cases h
    rfl
  | cons entry rest ih =>
    rw [unpackFields] at h
    obtain ⟨value, -, h⟩ := bind_eq_ok h
    obtain ⟨others, hothers, h⟩ := bind_eq_ok h
    cases h
    rw [List.map_cons, List.map_cons, ih hothers]

theorem unpackBytes_eq {s : Struct} {raw : List UInt8} (hlen : raw.length = s.size) :
    s.unpackBytes raw = unpackFields s.name s.layout raw := by
  obtain ⟨name, packing, layout, align, size⟩ := s
  change raw.length = size at hlen
  rw [Struct.unpackBytes, if_neg (by omega)]
  rfl

section Memory

variable {M : ByteMemory} {g : Guest M} {addr : Nat}

/-- Where a structure is, the address space does not wrap. -/
theorem Guest.Accessible.bytes_mod {n : Nat} (h : g.Accessible addr n) (g' : Guest M) :
    ByteMemory.bytes g'.uc (addr % 2 ^ 32) n = ByteMemory.bytes g'.uc addr n := by
  rcases Nat.eq_zero_or_pos n with rfl | hpos
  · rfl
  · rw [h.mod hpos]

theorem Guest.Accessible.mapped_mod {n : Nat} (h : g.Accessible addr n) :
    ByteMemory.MappedRange g.uc (addr % 2 ^ 32) n := by
  rcases Nat.eq_zero_or_pos n with rfl | hpos
  · exact fun x h1 h2 => absurd h2 (by omega)
  · rw [h.mod hpos]
    exact h.mapped

/-- **Writing** what is accessible. -/
theorem Guest.write_accessible {data : List UInt8} (h : g.Accessible addr data.length) :
    ∃ g', Guest.write addr data g = .ok () g' ∧ Guest.Written g g' addr data := by
  obtain ⟨_, g', hwrite, hwritten⟩ := wp_exists_ok (Guest.write_written h.mapped_mod)
  refine ⟨g', hwrite, hwritten.mapped, ?_, fun x hx => hwritten.frame x fun hx' => hx ?_⟩
  · rw [← h.bytes_mod g', hwritten.data_eq]
  · rcases Nat.eq_zero_or_pos data.length with hzero | hpos
    · rw [hzero] at hx'
      exact absurd hx' (by unfold Has; omega)
    · rwa [h.mod hpos] at hx'

/-- Unpacking reads the bytes of the structure. -/
theorem Struct.unpack_eq {s : Struct} (hacc : g.Accessible addr s.size)
    {values : List (Str × Value)}
    (hdec : s.unpackBytes (ByteMemory.bytes g.uc addr s.size) = .ok values) :
    s.unpack addr g = .ok values g :=
  Struct.unpack_of_bytes (hacc.bytes_mod g) hacc.mapped_mod hdec

/-- **`write_field` changes one field.** A value with a form is written: `unpack` then gives the
form for the field and the former value for every other one, and only bytes of the field have
changed. A value without one is refused, and nothing has changed. -/
theorem Built.writeField_frame {s : Struct} (hs : Built py s) {M : ByteMemory} (g : Guest M)
    (addr : Nat) (hacc : g.Accessible addr s.size) {entry : LayoutEntry Struct}
    (hentry : entry ∈ s.layout) (value : Value) :
    ∃ former, s.unpack addr g = .ok former g ∧
      former.map Prod.fst = s.layout.map LayoutEntry.field ∧
      match fieldForm py entry.type entry.typ value with
      | some form => ∃ g', s.writeField py addr entry.field value g = .ok () g' ∧
        s.unpack addr g' = .ok (former.map fun item =>
          if item.1 = entry.field then (item.1, form) else item) g' ∧
        ∀ x, ¬ Has (addr + entry.offset, entry.typ.size) x → g'.byte x = g.byte x
      | none => ∃ e, s.writeField py addr entry.field value g = .error e g := by
  have hlen : (ByteMemory.bytes g.uc addr s.size).length = s.size := ByteMemory.bytes_length ..
  obtain ⟨former, hformer⟩ := hs.unpacks hlen
  have hfields := hformer
  rw [unpackBytes_eq hlen] at hfields
  refine ⟨former, Struct.unpack_eq hacc hformer, unpackFields_names hfields, ?_⟩
  have hfield := hs.field hentry value
  have hwrite : s.writeField py addr entry.field value g =
      (MonadExcept.ofExcept (encodeField py s.name entry.type entry.typ value) >>= fun raw =>
        Guest.write (addr + entry.offset) raw) g := by
    unfold Struct.writeField
    rw [find_of_nodup hs.names hentry]
  cases hform : fieldForm py entry.type entry.typ value with
  | none =>
    rw [hform] at hfield
    obtain ⟨e, he⟩ := hfield
    rw [he] at hwrite
    exact ⟨e, hwrite⟩
  | some form =>
    rw [hform] at hfield
    obtain ⟨raw, henc, hraw, hdec⟩ := hfield
    have hinside := hs.inside hentry
    have hplace : g.Accessible (addr + entry.offset) raw.length :=
      hacc.sub (Nat.le_add_right _ _) (by omega)
    obtain ⟨g', hdone, hwritten⟩ := Guest.write_accessible hplace
    rw [henc] at hwrite
    have hframe : ∀ x, ¬ Has (addr + entry.offset, entry.typ.size) x → g'.byte x = g.byte x := by
      rw [← hraw]
      exact hwritten.frame
    refine ⟨g', hwrite.trans hdone, ?_, hframe⟩
    have hacc' : g'.Accessible addr s.size := ⟨hwritten.mappedRange hacc.mapped, hacc.below⟩
    have hlen' : (ByteMemory.bytes g'.uc addr s.size).length = s.size :=
      ByteMemory.bytes_length ..
    refine Struct.unpack_eq hacc' ?_
    rw [unpackBytes_eq hlen']
    refine unpackFields_update hfields fun other hother => ?_
    have hother' := hs.inside hother
    rw [slice_bytes g'.uc addr hother', slice_bytes g.uc addr hother']
    by_cases hsame : other.field = entry.field
    · rw [if_pos hsame]
      have heq : other = entry := List.inj_on_of_nodup_map hs.names hother hentry hsame
      rw [heq, ← hraw, hwritten.data_eq, hdec]
    · rw [if_neg hsame]
      have hapart := hs.apart hentry hother hsame
      refine ByteMemory.bytes_congr fun x h1 h2 => hframe x fun hx => ?_
      unfold Has at hx
      unfold LayoutEntry.Apart at hapart
      omega

/-- A number written over whatever the memory holds. -/
theorem Struct.writeField_outer : ∃ former g',
    outerStruct.unpack 0x1000 wholeGuest = .ok former wholeGuest ∧
    outerStruct.writeField asciiNumerals 0x1000 ['g', 'u', 'e', 's', 't'] (.int (-2)) wholeGuest =
      .ok () g' ∧
    outerStruct.unpack 0x1000 g' = .ok (former.map fun item =>
      if item.1 = ['g', 'u', 'e', 's', 't'] then (item.1, .int (-2)) else item) g' := by
  obtain ⟨former, hformer, -, g', hwrite, hunpack, -⟩ :=
    Built.writeField_frame (.init outerFields_built outerStruct_init) wholeGuest 0x1000
      ⟨fun _ _ _ => rfl, by decide⟩ (List.mem_cons_self (l := outerStruct.layout.tail)) (.int (-2))
  exact ⟨former, g', hformer, hwrite, hunpack⟩

end Memory

/-! ## Several fields -/

/-- The values of a record after fields of it were given new ones. -/
def withFields (news items : List (Str × Value)) : List (Str × Value) :=
  items.map fun item => (item.1, (news.lookup item.1).getD item.2)

theorem withFields_nil (items : List (Str × Value)) : withFields [] items = items :=
  List.map_id items

/-- Another one is given a new value. -/
theorem withFields_cons (field : Str) (value : Value) (news items : List (Str × Value)) :
    (withFields news items).map (fun item => if item.1 = field then (item.1, value) else item) =
      withFields ((field, value) :: news) items := by
  rw [withFields, withFields, List.map_map]
  refine List.map_congr_left fun item _ => ?_
  rw [Function.comp_apply, List.lookup_cons]
  by_cases h : item.1 = field
  · rw [if_pos h, beq_iff_eq.mpr h]
    rfl
  · rw [if_neg h, beq_eq_false_iff_ne.mpr h]

/-- What a canonical value of a field comes to. -/
theorem Built.fieldForm_canonical {s : Struct} (hs : Built py s) {entry : LayoutEntry Struct}
    (hentry : entry ∈ s.layout) {value : Value} (h : canonicalField entry.type entry.typ value) :
    fieldForm py entry.type entry.typ value =
      some (completedField entry.type entry.typ (some value)) := by
  have hresolved := hs.placed.resolved entry hentry
  have hinner := hs.inner entry hentry
  have hfield := hs.field hentry value
  have hcarries : Carries (encodeField py s.name entry.type entry.typ value) entry.typ.size
      (decodeField s.name entry.type entry.typ)
      (completedField entry.type entry.typ (some value)) := by
    obtain ⟨field, offset, typ, type⟩ := entry
    cases type with
    | text declared =>
      refine @text_carries py s.name declared typ (some value) (resolveType_sized hresolved) ?_
      rintro v ⟨⟩
      exact h
    | struct inner =>
      cases hresolved
      refine @struct_carries py s.name inner inner.align (some value)
        (fun values hvalues => (hinner inner rfl).carries hvalues) ?_
      rintro v ⟨⟩
      exact h
  obtain ⟨raw, henc, -, hdec⟩ := hcarries
  cases hform : fieldForm py entry.type entry.typ value with
  | none =>
    rw [hform] at hfield
    obtain ⟨e, he⟩ := hfield
    cases he.symm.trans henc
  | some form =>
    rw [hform] at hfield
    obtain ⟨raw', henc', -, hdec'⟩ := hfield
    cases henc.symm.trans henc'
    cases hdec.symm.trans hdec'
    rfl

section Memory

variable {M : ByteMemory} {g g' : Guest M} {addr : Nat}

/-- A record is the same where its bytes are the same, wherever they were copied to. -/
theorem Built.unpack_congr {s : Struct} (hs : Built py s) {values : List (Str × Value)}
    {addr' : Nat} (hacc : g.Accessible addr s.size) (hacc' : g'.Accessible addr' s.size)
    (hbytes : ByteMemory.bytes g'.uc addr' s.size = ByteMemory.bytes g.uc addr s.size)
    (h : s.unpack addr g = .ok values g) : s.unpack addr' g' = .ok values g' := by
  obtain ⟨former, hformer⟩ := hs.unpacks (ByteMemory.bytes_length g.uc addr s.size)
  cases h.symm.trans (Struct.unpack_eq hacc hformer)
  exact Struct.unpack_eq hacc' (hbytes ▸ hformer)

/-- What giving fields of a record new values has done to memory. -/
structure Struct.Updated (s : Struct) (addr : Nat) (former : List (Str × Value)) (g : Guest M)
    (news : List (Str × Value)) (g' : Guest M) : Prop where
  unpacks : s.unpack addr g' = .ok (withFields news former) g'
  mapped : ∀ x, M.mapped g'.uc x ↔ M.mapped g.uc x
  frame : ∀ x, ¬ Has (addr, s.size) x → g'.byte x = g.byte x

/-- Nothing has been given yet. -/
theorem Struct.Updated.start {s : Struct} {former : List (Str × Value)}
    (h : s.unpack addr g = .ok former g) : s.Updated addr former g [] g :=
  ⟨by rw [withFields_nil, h], fun _ => Iff.rfl, fun _ _ => rfl⟩

/-- `write_field` changes no mapping. -/
theorem Struct.writeField_mapped (s : Struct) (addr : Nat) (field : Str) (value : Value)
    (g : Guest M) :
    wp (s.writeField py addr field value) (fun _ g' => ∀ x, M.mapped g'.uc x ↔ M.mapped g.uc x)
      (fun _ g' => g' = g) g := by
  unfold Struct.writeField
  cases s.layout.find? fun entry => decide (entry.field = field) with
  | none => rfl
  | some entry =>
    rw [wp_bind]
    exact wp_ofExcept (fun raw _ => Guest.write_mapped g _ raw) fun _ _ => rfl

/-- **The next field.** -/
theorem Struct.Updated.writeField {s : Struct} (hs : Built py s) {former news : List (Str × Value)}
    (hu : s.Updated addr former g news g') (hacc : g.Accessible addr s.size)
    {entry : LayoutEntry Struct} (hentry : entry ∈ s.layout) {value : Value}
    (h : canonicalField entry.type entry.typ value) :
    ∃ g'', s.writeField py addr entry.field value g' = .ok () g'' ∧
      s.Updated addr former g
        ((entry.field, completedField entry.type entry.typ (some value)) :: news) g'' := by
  have hacc' : g'.Accessible addr s.size :=
    ⟨fun x h1 h2 => (hu.mapped x).mpr (hacc.mapped x h1 h2), hacc.below⟩
  obtain ⟨values, hvalues, -, hwrite⟩ := hs.writeField_frame g' addr hacc' hentry value
  rw [hs.fieldForm_canonical hentry h] at hwrite
  obtain ⟨g'', hdone, hunpack, hframe⟩ := hwrite
  cases hu.unpacks.symm.trans hvalues
  have hmapped := wp_of_ok (Struct.writeField_mapped s addr entry.field value g') hdone
  have hinside := hs.inside hentry
  refine ⟨g'', hdone, ?_, fun x => (hmapped x).trans (hu.mapped x), fun x hx => ?_⟩
  · rw [hunpack, withFields_cons]
  · refine (hframe x fun hx' => hx ?_).trans (hu.frame x hx)
    have h1 := hx'.1
    have h2 := hx'.2
    exact ⟨by omega, by omega⟩

end Memory

end Cwhost
