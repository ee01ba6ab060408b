import Cwhost.Lib.Outcome
import Mathlib.Data.List.Basic

/-!
# Scanning a command line

Tokens are read from left to right. A flag takes no operand, the next token, or the next token
unless that one is dashed itself; every other token is left over, in order. What a flag does is an
update of a state, or an error.

* `scan`: the loop. Tokens are of any type with a `text`, so the same loop runs on tokens that
  carry their positions (`scan_map`).
* `Scans l c h u`: a run without an error, over `l`, that consumes `c`, leaves `h`, and updates the
  state by `u` (`scan_eq_ok_iff`).
* `Scans.left_again`, `Scans.consumed_again`: scanning what was left leaves it again and does
  nothing; scanning what was consumed does the same and leaves nothing.
* `scan_append`: consumed tokens can be scanned before others.
-/

namespace Cwhost.Lib

variable {τ κ ε σ : Type}

/-- What a flag takes, and what it then does. -/
inductive Takes (ε σ κ : Type)
  | alone (act : Except ε (σ → σ))
  | operand (missing : ε) (act : κ → Except ε (σ → σ))
  | optional (default : κ) (act : κ → Except ε (σ → σ))

/-- The same flag, on a larger state. -/
def Takes.lift {α : Type} (f : (α → α) → σ → σ) : Takes ε α κ → Takes ε σ κ
  | .alone act => .alone (f <$> act)
  | .operand missing act => .operand missing fun value => f <$> act value
  | .optional default act => .optional default fun value => f <$> act value

/-- The updates that a flag can come to. -/
def Takes.Gives (takes : Takes ε σ κ) (u : σ → σ) : Prop :=
  match takes with
  | .alone act => act = .ok u
  | .operand _ act | .optional _ act => ∃ value, act value = .ok u

/-- A lifted flag gives lifted updates. -/
theorem Takes.Gives.of_lift {α : Type} {f : (α → α) → σ → σ} {takes : Takes ε α κ} {u : σ → σ}
    (h : (takes.lift f).Gives u) : ∃ v, u = f v := by
  cases takes with
  | alone act =>
    obtain ⟨v, -, hv⟩ := map_eq_ok h
    exact ⟨v, hv⟩
  | operand missing act =>
    obtain ⟨value, hact⟩ := h
    obtain ⟨v, -, hv⟩ := map_eq_ok hact
    exact ⟨v, hv⟩
  | optional default act =>
    obtain ⟨value, hact⟩ := h
    obtain ⟨v, -, hv⟩ := map_eq_ok hact
    exact ⟨v, hv⟩

section Scan

variable (text : τ → κ) (takes : κ → Option (Takes ε σ κ)) (dashed : κ → Bool)

/-- The loop, with the state and the tokens left over so far. -/
def scan : List τ → σ → List τ → Except ε (σ × List τ)
  | [], s, left => return (s, left)
  | t :: rest, s, left =>
    match takes (text t) with
    | none => scan rest s (left ++ [t])
    | some (.alone act) => do
      let update ← act
      scan rest (update s) left
    | some (.operand missing act) =>
      match rest with
      | [] => throw missing
      | v :: rest => do
        let update ← act (text v)
        scan rest (update s) left
    | some (.optional default act) =>
      match rest with
      | [] => do
        let update ← act default
        return (update s, left)
      | v :: rest =>
        if dashed (text v) then do
          let update ← act default
          scan (v :: rest) (update s) left
        else do
          let update ← act (text v)
          scan rest (update s) left

/-- A scan without an error: what it reads, consumes and leaves, and what it does. -/
inductive Scans : List τ → List τ → List τ → (σ → σ) → Prop
  | nil : Scans [] [] [] id
  | host {t : τ} {l c h : List τ} {u : σ → σ} (hnone : takes (text t) = none)
    (rest : Scans l c h u) : Scans (t :: l) c (t :: h) u
  | alone {t : τ} {l c h : List τ} {u f : σ → σ}
    (htakes : takes (text t) = some (.alone (.ok f))) (rest : Scans l c h u) :
    Scans (t :: l) (t :: c) h (u ∘ f)
  | operand {t v : τ} {l c h : List τ} {u f : σ → σ} {missing : ε}
    {act : κ → Except ε (σ → σ)} (htakes : takes (text t) = some (.operand missing act))
    (hact : act (text v) = .ok f) (rest : Scans l c h u) :
    Scans (t :: v :: l) (t :: v :: c) h (u ∘ f)
  | omitted {t : τ} {l c h : List τ} {u f : σ → σ} {default : κ}
    {act : κ → Except ε (σ → σ)} (htakes : takes (text t) = some (.optional default act))
    (hnext : ∀ v ∈ l.head?, dashed (text v) = true) (hact : act default = .ok f)
    (rest : Scans l c h u) : Scans (t :: l) (t :: c) h (u ∘ f)
  | given {t v : τ} {l c h : List τ} {u f : σ → σ} {default : κ}
    {act : κ → Except ε (σ → σ)} (htakes : takes (text t) = some (.optional default act))
    (hnext : dashed (text v) = false) (hact : act (text v) = .ok f)
    (rest : Scans l c h u) : Scans (t :: v :: l) (t :: v :: c) h (u ∘ f)

end Scan

variable {text : τ → κ} {takes : κ → Option (Takes ε σ κ)} {dashed : κ → Bool}

/-! ## The loop and its runs -/

theorem Scans.scan_eq {l c h : List τ} {u : σ → σ} (hrun : Scans text takes dashed l c h u) (s : σ)
    (left : List τ) : scan text takes dashed l s left = .ok (u s, left ++ h) := by
  induction hrun generalizing s left with
  | nil => rw [scan, List.append_nil]; rfl
  | host hnone _ ih => rw [scan, hnone, ih, List.append_assoc, List.singleton_append]
  | alone htakes _ ih =>
    rw [scan, htakes]
    exact ih _ _
  | operand htakes hact _ ih =>
    rw [scan, htakes]
    simp only [hact]
    exact ih _ _
  | @omitted t l c h u f default act htakes hnext hact rest ih =>
    rw [scan.eq_def]
    simp only [htakes]
    cases l with
    | nil =>
      simp only [hact]
      exact ih _ _
    | cons v l =>
      simp only [if_pos (hnext v rfl), hact]
      exact ih _ _
  | given htakes hnext hact _ ih =>
    rw [scan, htakes]
    simp only [hnext, hact]
    exact ih _ _

theorem scans_of_ok {l left : List τ} {s : σ} {r : σ × List τ}
    (h : scan text takes dashed l s left = .ok r) :
    ∃ c hosts u, Scans text takes dashed l c hosts u ∧ r = (u s, left ++ hosts) := by
  fun_induction scan text takes dashed l s left with
  | case1 s left =>
    cases h
    exact ⟨[], [], id, .nil, by rw [List.append_nil]; rfl⟩
  | case2 t rest s left hnone ih =>
    obtain ⟨c, hosts, u, hrun, rfl⟩ := ih h
    exact ⟨c, t :: hosts, u, .host hnone hrun, by rw [List.append_assoc, List.singleton_append]⟩
  | case3 t rest s left act htakes ih =>
    obtain ⟨f, rfl, h⟩ := bind_eq_ok h
    obtain ⟨c, hosts, u, hrun, rfl⟩ := ih f h
    exact ⟨t :: c, hosts, u ∘ f, .alone htakes hrun, rfl⟩
  | case4 t s left missing act htakes => cases h
  | case5 t s left missing act htakes v rest ih =>
    obtain ⟨f, hact, h⟩ := bind_eq_ok h
    obtain ⟨c, hosts, u, hrun, rfl⟩ := ih f h
    exact ⟨t :: v :: c, hosts, u ∘ f, .operand htakes hact hrun, rfl⟩
  | case6 t s left default act htakes =>
    obtain ⟨f, hact, h⟩ := bind_eq_ok h
    cases h
    exact ⟨[t], [], id ∘ f, .omitted htakes (fun _ hv => by cases hv) hact .nil,
      by rw [List.append_nil]; rfl⟩
  | case7 t s left default act htakes v rest hdashed ih =>
    obtain ⟨f, hact, h⟩ := bind_eq_ok h
    obtain ⟨c, hosts, u, hrun, rfl⟩ := ih f h
    refine ⟨t :: c, hosts, u ∘ f, .omitted htakes (fun w hw => ?_) hact hrun, rfl⟩
    cases hw
    exact hdashed
  | case8 t s left default act htakes v rest hdashed ih =>
    obtain ⟨f, hact, h⟩ := bind_eq_ok h
    obtain ⟨c, hosts, u, hrun, rfl⟩ := ih f h
    exact ⟨t :: v :: c, hosts, u ∘ f,
      .given htakes (Bool.not_eq_true _ ▸ hdashed) hact hrun, rfl⟩

/-- **A scan succeeds** iff it has a run, whose effect it reports. -/
theorem scan_eq_ok_iff {l : List τ} {s s' : σ} {hosts : List τ} :
    scan text takes dashed l s [] = .ok (s', hosts) ↔
      ∃ c u, Scans text takes dashed l c hosts u ∧ s' = u s := by
  constructor
  · intro h
    obtain ⟨c, hosts', u, hrun, heq⟩ := scans_of_ok h
    obtain ⟨rfl, rfl⟩ := Prod.mk.inj heq
    exact ⟨c, u, hrun, rfl⟩
  · rintro ⟨c, u, hrun, rfl⟩
    exact hrun.scan_eq s []

/-! ## What is left, and what is consumed -/

/-- Every token is consumed or left, in order. -/
inductive Interleaved : List τ → List τ → List τ → Prop
  | nil : Interleaved [] [] []
  | consumed {l c h : List τ} (t : τ) (rest : Interleaved l c h) : Interleaved (t :: l) (t :: c) h
  | left {l c h : List τ} (t : τ) (rest : Interleaved l c h) : Interleaved (t :: l) c (t :: h)

theorem Interleaved.left_sublist {l c h : List τ} (hsplit : Interleaved l c h) : h.Sublist l := by
  induction hsplit with
  | nil => exact .slnil
  | consumed t _ ih => exact ih.cons t
  | left t _ ih => exact ih.cons_cons t

theorem Scans.interleaved {l c h : List τ} {u : σ → σ}
    (hrun : Scans text takes dashed l c h u) : Interleaved l c h := by
  induction hrun with
  | nil => exact .nil
  | host _ _ ih => exact .left _ ih
  | alone _ _ ih | omitted _ _ _ _ ih => exact .consumed _ ih
  | operand _ _ _ ih | given _ _ _ _ ih => exact .consumed _ (.consumed _ ih)

/-- **Scanning what was left** leaves it again, and does nothing. -/
theorem Scans.left_again {l c h : List τ} {u : σ → σ} (hrun : Scans text takes dashed l c h u) :
    Scans text takes dashed h [] h id := by
  induction hrun with
  | nil => exact .nil
  | host hnone _ ih => exact .host hnone ih
  | alone _ _ ih | operand _ _ _ ih | omitted _ _ _ _ ih | given _ _ _ _ ih => exact ih

/-- The tokens that were consumed begin with a flag. -/
theorem Scans.consumed_head {l c h : List τ} {u : σ → σ} (hrun : Scans text takes dashed l c h u) :
    ∀ t ∈ c.head?, takes (text t) ≠ none := by
  induction hrun with
  | nil => exact fun _ ht => by cases ht
  | host _ _ ih => exact ih
  | alone htakes _ _ | operand htakes _ _ _ | omitted htakes _ _ _ _ | given htakes _ _ _ _ =>
    intro t ht
    cases ht
    rw [htakes]
    exact Option.some_ne_none _

/-- **Scanning what was consumed** does the same and leaves nothing, if flags are dashed: a flag
without its optional operand is followed by another flag, or by nothing. -/
theorem Scans.consumed_again (hdashed : ∀ k, takes k ≠ none → dashed k = true) {l c h : List τ}
    {u : σ → σ} (hrun : Scans text takes dashed l c h u) : Scans text takes dashed c c [] u := by
  induction hrun with
  | nil => exact .nil
  | host _ _ ih => exact ih
  | alone htakes _ ih => exact .alone htakes ih
  | operand htakes hact _ ih => exact .operand htakes hact ih
  | omitted htakes _ hact rest ih =>
    exact .omitted htakes (fun v hv => hdashed _ (rest.consumed_head v hv)) hact ih
  | given htakes hnext hact _ ih => exact .given htakes hnext hact ih

/-- **A scan that leaves nothing can go on** with tokens that do not begin with an operand. -/
theorem Scans.scan_append {l l' c h : List τ} {u : σ → σ}
    (hrun : Scans text takes dashed l c h u) (hnone : h = [])
    (hnext : ∀ v ∈ l'.head?, dashed (text v) = true) (s : σ) (left : List τ) :
    scan text takes dashed (l ++ l') s left = scan text takes dashed l' (u s) left := by
  induction hrun generalizing s left with
  | nil => rfl
  | host _ _ _ => cases hnone
  | alone htakes _ ih =>
    rw [List.cons_append, scan, htakes]
    exact ih hnone _ _
  | operand htakes hact _ ih =>
    rw [List.cons_append, List.cons_append, scan, htakes]
    simp only [hact]
    exact ih hnone _ _
  | @omitted t l c h u f default act htakes hrest hact rest ih =>
    rw [List.cons_append, scan.eq_def]
    simp only [htakes]
    cases htail : l ++ l' with
    | nil =>
      obtain ⟨rfl, rfl⟩ := List.append_eq_nil_iff.mp htail
      simp only [hact]
      exact ih hnone _ _
    | cons v tail =>
      have hv : dashed (text v) = true := by
        cases l with
        | nil =>
          cases htail
          exact hnext v rfl
        | cons w l =>
          cases htail
          exact hrest v rfl
      simp only [if_pos hv, hact]
      rw [← htail]
      exact ih hnone _ _
  | given htakes hrest hact _ ih =>
    rw [List.cons_append, List.cons_append, scan, htakes]
    simp only [hrest, hact]
    exact ih hnone _ _

/-- The operands a flag can have. -/
def Takes.Operands (dashed : κ → Bool) : Takes ε σ κ → List κ → Prop
  | .alone _, operands => operands = []
  | .operand _ _, operands => ∃ value, operands = [value]
  | .optional _ _, operands => operands = [] ∨ ∃ value, operands = [value] ∧ dashed value = false

/-- **One flag with its operands**, where it is accepted, is consumed and gives one update. -/
theorem Scans.single {t : τ} {operands c : List τ} {u : σ → σ} {flag : Takes ε σ κ}
    (hrun : Scans text takes dashed (t :: operands) c [] u) (hflag : takes (text t) = some flag)
    (hoperands : flag.Operands dashed (operands.map text)) :
    Scans text takes dashed (t :: operands) (t :: operands) [] u ∧ flag.Gives u := by
  cases hrun with
  | alone htakes rest =>
    cases hflag.symm.trans htakes
    cases List.map_eq_nil_iff.mp hoperands
    cases rest
    exact ⟨.alone htakes .nil, rfl⟩
  | operand htakes hact rest =>
    cases hflag.symm.trans htakes
    obtain ⟨value, hvalue⟩ := hoperands
    cases List.map_eq_nil_iff.mp (List.cons.inj hvalue).2
    cases rest
    exact ⟨.operand htakes hact .nil, _, hact⟩
  | omitted htakes hnext hact rest =>
    cases hflag.symm.trans htakes
    rcases hoperands with hnil | ⟨value, hvalue, hdashed⟩
    · cases List.map_eq_nil_iff.mp hnil
      cases rest
      exact ⟨.omitted htakes hnext hact .nil, _, hact⟩
    · -- An operand that is not dashed is not passed over.
      cases operands with
      | nil => cases hvalue
      | cons v operands =>
        rw [← (List.cons.inj hvalue).1, hnext v rfl] at hdashed
        cases hdashed
  | given htakes hnext hact rest =>
    cases hflag.symm.trans htakes
    rcases hoperands with hnil | ⟨value, hvalue, -⟩
    · cases hnil
    · cases List.map_eq_nil_iff.mp (List.cons.inj hvalue).2
      cases rest
      exact ⟨.given htakes hnext hact .nil, _, hact⟩

/-! ## Positions -/

/-- **The tokens consumed** are those at the positions of no token that was left. -/
theorem Interleaved.filter_eq {ι : Type} [DecidableEq ι] {key : τ → ι} {l c h : List τ}
    (hsplit : Interleaved l c h) (hnodup : (l.map key).Nodup) :
    l.filter (fun t => key t ∉ h.map key) = c := by
  induction hsplit with
  | nil => rfl
  | @consumed l c h t rest ih =>
    rw [List.map_cons, List.nodup_cons] at hnodup
    have ht : key t ∉ h.map key := fun hmem =>
      hnodup.1 ((rest.left_sublist.map key).subset hmem)
    rw [List.filter_cons_of_pos (by simpa using ht), ih hnodup.2]
  | @left l c h t rest ih =>
    rw [List.map_cons, List.nodup_cons] at hnodup
    rw [List.filter_cons_of_neg (by simp), ← ih hnodup.2]
    refine List.filter_congr fun v hv => ?_
    have hne : key v ≠ key t := fun heq => hnodup.1 (heq ▸ List.mem_map_of_mem hv)
    simp only [List.map_cons, List.mem_cons, hne, false_or]

/-- **The loop does not look at positions.** -/
theorem scan_map {τ' : Type} (text : τ → κ) (takes : κ → Option (Takes ε σ κ))
    (dashed : κ → Bool) (g : τ' → τ) (l left : List τ') (s : σ) :
    scan text takes dashed (l.map g) s (left.map g) =
      (fun r => (r.1, r.2.map g)) <$> scan (fun t => text (g t)) takes dashed l s left := by
  have hbind : ∀ (x : Except ε (σ → σ)) (f : (σ → σ) → Except ε (σ × List τ'))
      (k : (σ → σ) → Except ε (σ × List τ)),
      (∀ u, k u = (fun r => (r.1, r.2.map g)) <$> f u) →
        (x >>= k) = (fun r => (r.1, r.2.map g)) <$> (x >>= f) := by
    intro x f k hk
    cases x with
    | error e => rfl
    | ok u => exact hk u
  fun_induction scan (fun t => text (g t)) takes dashed l s left with
  | case1 s left => rfl
  | case2 t rest s left hnone ih =>
    rw [List.map_cons, scan, hnone, ← ih, List.map_append]
    rfl
  | case3 t rest s left act htakes ih =>
    rw [List.map_cons, scan, htakes]
    exact hbind _ _ _ ih
  | case4 t s left missing act htakes =>
    rw [List.map_cons, scan, htakes]
    rfl
  | case5 t s left missing act htakes v rest ih =>
    rw [List.map_cons, scan, htakes]
    exact hbind _ _ _ ih
  | case6 t s left default act htakes =>
    rw [List.map_cons, scan, htakes]
    exact hbind _ _ _ fun _ => rfl
  | case7 t s left default act htakes v rest hdashed ih =>
    rw [List.map_cons, scan, htakes]
    simp only [List.map_cons, if_pos hdashed]
    exact hbind _ _ _ ih
  | case8 t s left default act htakes v rest hdashed ih =>
    rw [List.map_cons, scan, htakes]
    simp only [List.map_cons, if_neg hdashed]
    exact hbind _ _ _ ih

end Cwhost.Lib
