import Mathlib.Data.Nat.Notation

/-!
# Exceptions and texts

`errors.py` and the exception classes the modelled modules raise besides it. A Python `str` is
a list of code points (`Str`); a message is a `String`.
-/

namespace Cwhost

/-- A Python `str`. -/
abbrev Str := List Char

/-- `text in texts`. -/
instance (text : Str) (texts : List Str) : Decidable (text ∈ texts) :=
  List.instDecidableMemOfLawfulBEq text texts

/-- The exceptions of the model, with their message where the source composes one. -/
inductive Exc
  /-- `HostError`: host-side failure. -/
  | hostError (text : String)
  /-- `NotFound(HostError)`: a looked-up path component does not exist. -/
  | notFound (text : String)
  /-- `UnimplementedImport(HostError)`. -/
  | unimplementedImport (name : String)
  /-- `PluginError(HostError)`: the plug-in violated the request protocol. -/
  | pluginError (text : String)
  /-- `PEFError(ValueError)`. -/
  | pefError (text : String)
  /-- `UcError`, raised by the emulator on an access to unmapped memory. -/
  | ucError
  /-- `OSError`, where the source lets it escape. -/
  | osError (text : String)
  | typeError (text : String)
  | indexError
  | keyError
  | valueError
  | overflowError
  /-- `struct.error`. -/
  | structError
  /-- `KeyboardInterrupt`, which is no `Exception`. -/
  | keyboardInterrupt
  deriving DecidableEq, Repr

/-- `isinstance(error, HostError)`. -/
def Exc.isHostError : Exc → Bool
  | .hostError _ | .notFound _ | .unimplementedImport _ | .pluginError _ => true
  | .pefError _ | .ucError | .osError _ | .typeError _ | .indexError | .keyError | .valueError
  | .overflowError | .structError | .keyboardInterrupt => false

/-- `isinstance(error, NotFound)`. -/
def Exc.isNotFound : Exc → Bool
  | .notFound _ => true
  | _ => false

/-- The format `{n:x}`. -/
def hexDigits (n : Nat) : String := String.ofList (Nat.toDigits 16 n)

/-- The format `{n:#x}`. -/
def hex (n : Nat) : String := "0x" ++ hexDigits n

/-- The format `{n:#x}` of a possibly negative number. -/
def hexInt (n : Int) : String := if n < 0 then "-" ++ hex n.natAbs else hex n.toNat

/-- The format `{n:#06x}` of a 16-bit word. -/
def hex06 (n : Nat) : String :=
  let digits := Nat.toDigits 16 n
  "0x" ++ String.ofList (List.replicate (4 - digits.length) '0' ++ digits)

/-- The quote `repr` puts around a `str`. -/
def reprQuote (s : Str) : Char := if '\'' ∈ s ∧ '"' ∉ s then '"' else '\''

/-- One code point as `repr` prints it inside quotes `q`. -/
def reprChar (q c : Char) : List Char :=
  if c = q ∨ c = '\\' then ['\\', c]
  else if c = '\n' then ['\\', 'n']
  else if c = '\r' then ['\\', 'r']
  else if c = '\t' then ['\\', 't']
  else if c.toNat < 0x20 ∨ c.toNat = 0x7F then
    let digits := Nat.toDigits 16 c.toNat
    ['\\', 'x'] ++ List.replicate (2 - digits.length) '0' ++ digits
  else [c]

/-- The format `{s!r}`: quotes, and escapes for the ASCII control characters. Python also escapes
what else it does not print; the texts of messages are all that differs. -/
def pyRepr (s : Str) : String :=
  let q := reprQuote s
  String.ofList (q :: s.flatMap (reprChar q) ++ [q])

/-- One byte as `repr` prints it inside quotes `q`. -/
def reprByte (q : Char) (b : UInt8) : List Char :=
  if 0x20 ≤ b ∧ b < 0x7F then
    let c := Char.ofNat b.toNat
    if c = q ∨ c = '\\' then ['\\', c] else [c]
  else if b = 0x0A then ['\\', 'n']
  else if b = 0x0D then ['\\', 'r']
  else if b = 0x09 then ['\\', 't']
  else
    let digits := Nat.toDigits 16 b.toNat
    ['\\', 'x'] ++ List.replicate (2 - digits.length) '0' ++ digits

/-- The format `{b!r}` of a byte string. -/
def bytesRepr (bs : List UInt8) : String :=
  let q := if 0x27 ∈ bs ∧ 0x22 ∉ bs then '"' else '\''
  String.ofList ('b' :: q :: bs.flatMap (reprByte q) ++ [q])

end Cwhost
