/-
  Bytes as text: Python's `bytes.hex`, `bytes.fromhex` and `base64.b64decode`, and the `str` and
  `bytes` values between which they convert.
-/
import Siip.Lib.Bytes

namespace Siip.Python

/-- A `str`. -/
abbrev Str := List Char

/-- A `str` or a `bytes`. Values of the two types are never equal. -/
inductive Value where
  | bytes (b : Bytes)
  | str (s : Str)
  deriving DecidableEq

/-! ## Hexadecimal -/

def hexDigit (d : Nat) : Char := if d < 10 then Char.ofNat (48 + d) else Char.ofNat (87 + d)

/-- The value of a hexadecimal digit, in either letter case. -/
def hexValue (c : Char) : Option Nat :=
  if '0' ≤ c ∧ c ≤ '9' then some (c.toNat - 48)
  else if 'a' ≤ c ∧ c ≤ 'f' then some (c.toNat - 87)
  else if 'A' ≤ c ∧ c ≤ 'F' then some (c.toNat - 55)
  else none

/-- `b.hex()` -/
def hex (b : Bytes) : Str :=
  b.flatMap fun x => [hexDigit (x.toNat / 16), hexDigit (x.toNat % 16)]

/-- `Py_ISSPACE` of a character -/
def isSpaceChar (c : Char) : Bool := c == ' ' || ('\t' ≤ c && c ≤ '\r')

/-- `bytes.fromhex(s)`: pairs of digits, with white space between them allowed. -/
def fromHex : Str → Option Bytes
  | [] => some []
  | [c] => if isSpaceChar c then some [] else none
  | c :: d :: s =>
    if isSpaceChar c then fromHex (d :: s)
    else
      match hexValue c, hexValue d with
      | some top, some bot => (fromHex s).map (UInt8.ofNat (16 * top + bot) :: ·)
      | _, _ => none

theorem hexValue_hexDigit : ∀ {d : Nat}, d < 16 → hexValue (hexDigit d) = some d := by
  decide

theorem isSpaceChar_hexDigit : ∀ {d : Nat}, d < 16 → isSpaceChar (hexDigit d) = false := by
  decide

theorem hexDigit_ne_colon : ∀ {d : Nat}, d < 16 → hexDigit d ≠ ':' := by
  decide

theorem colon_notMem_hex (b : Bytes) : ':' ∉ hex b := by
  intro hmem
  obtain ⟨x, -, hx⟩ := List.mem_flatMap.mp hmem
  have hlt := x.toNat_lt
  simp only [List.mem_cons, List.not_mem_nil, or_false] at hx
  rcases hx with hx | hx
  · exact hexDigit_ne_colon (by omega) hx.symm
  · exact hexDigit_ne_colon (by omega) hx.symm

theorem fromHex_hex (b : Bytes) : fromHex (hex b) = some b := by
  induction b with
  | nil => rfl
  | cons x b ih =>
    have hlt := x.toNat_lt
    have htop : x.toNat / 16 < 16 := by omega
    have hbot : x.toNat % 16 < 16 := by omega
    have hx : UInt8.ofNat (16 * (x.toNat / 16) + x.toNat % 16) = x := by
      rw [Nat.div_add_mod, UInt8.ofNat_toNat]
    change fromHex (hexDigit (x.toNat / 16) :: hexDigit (x.toNat % 16) :: hex b) = _
    rw [fromHex, if_neg (by rw [isSpaceChar_hexDigit htop]; decide), hexValue_hexDigit htop,
      hexValue_hexDigit hbot, ih]
    simp only [Option.map_some, hx]

/-! ## Base 64 -/

def base64Value (b : UInt8) : Option Nat :=
  if 65 ≤ b ∧ b ≤ 90 then some (b.toNat - 65)
  else if 97 ≤ b ∧ b ≤ 122 then some (b.toNat - 71)
  else if 48 ≤ b ∧ b ≤ 57 then some (b.toNat + 4)
  else if b = 43 then some 62
  else if b = 47 then some 63
  else none

/-- The loop of `binascii.a2b_base64`, not strict: `quadPos` digits of a group of four are in,
    `leftchar` holds their bits that make no byte yet, and `pads` padding characters came since
    the last digit. Characters outside the alphabet are skipped; enough padding ends the data. -/
def a2bBase64 (quadPos leftchar pads : Nat) : Bytes → Option Bytes
  | [] => if quadPos = 0 then some [] else none
  | b :: bs =>
    if b = 61 then
      if quadPos ≥ 2 ∧ quadPos + (pads + 1) ≥ 4 then some []
      else a2bBase64 quadPos leftchar (if quadPos ≥ 2 then pads + 1 else pads) bs
    else
      match base64Value b with
      | none => a2bBase64 quadPos leftchar pads bs
      | some v =>
        match quadPos with
        | 0 => a2bBase64 1 v 0 bs
        | 1 => (a2bBase64 2 (v % 16) 0 bs).map (UInt8.ofNat (leftchar * 4 + v / 16) :: ·)
        | 2 => (a2bBase64 3 (v % 4) 0 bs).map (UInt8.ofNat (leftchar * 16 + v / 4) :: ·)
        | _ => (a2bBase64 0 0 0 bs).map (UInt8.ofNat (leftchar * 64 + v) :: ·)

/-- `base64.b64decode(s)`; `none` is `binascii.Error`. -/
def b64decode (s : Bytes) : Option Bytes := a2bBase64 0 0 0 s

example : b64decode (asBytes "TWE=") = some (asBytes "Ma") := by decide

/-- The alphabet. -/
def base64Digit (v : Nat) : UInt8 :=
  if v < 26 then UInt8.ofNat (65 + v)
  else if v < 52 then UInt8.ofNat (71 + v)
  else if v < 62 then UInt8.ofNat (v - 4)
  else if v = 62 then 43
  else 47

/-- `base64.b64encode(s)` -/
def b64encode : Bytes → Bytes
  | [] => []
  | [a] => [base64Digit (a.toNat / 4), base64Digit (a.toNat % 4 * 16), 61, 61]
  | [a, b] =>
    [base64Digit (a.toNat / 4), base64Digit (a.toNat % 4 * 16 + b.toNat / 16),
      base64Digit (b.toNat % 16 * 4), 61]
  | a :: b :: c :: bs =>
    base64Digit (a.toNat / 4) :: base64Digit (a.toNat % 4 * 16 + b.toNat / 16) ::
      base64Digit (b.toNat % 16 * 4 + c.toNat / 64) :: base64Digit (c.toNat % 64) :: b64encode bs

theorem base64Value_base64Digit : ∀ {v : Nat}, v < 64 → base64Value (base64Digit v) = some v := by
  decide +kernel

/-- What a digit of the alphabet is: no padding, no line end, no hyphen. -/
theorem base64Digit_plain : ∀ {v : Nat}, v < 64 →
    base64Digit v ≠ 61 ∧ base64Digit v ≠ 10 ∧ base64Digit v ≠ 13 ∧ base64Digit v ≠ 45 ∧
      base64Digit v < 128 := by
  decide +kernel

/-- A digit of the alphabet is read as its value, wherever in a group it stands. -/
theorem a2bBase64_digit {v : Nat} (hv : v < 64) (quadPos leftchar pads : Nat) (bs : Bytes) :
    a2bBase64 quadPos leftchar pads (base64Digit v :: bs) =
      match quadPos with
      | 0 => a2bBase64 1 v 0 bs
      | 1 => (a2bBase64 2 (v % 16) 0 bs).map (UInt8.ofNat (leftchar * 4 + v / 16) :: ·)
      | 2 => (a2bBase64 3 (v % 4) 0 bs).map (UInt8.ofNat (leftchar * 16 + v / 4) :: ·)
      | _ => (a2bBase64 0 0 0 bs).map (UInt8.ofNat (leftchar * 64 + v) :: ·) := by
  rw [a2bBase64, if_neg (base64Digit_plain hv).1, base64Value_base64Digit hv]

/-- The first two digits of a group hold its first byte. -/
theorem a2bBase64_first {v w : Nat} (hv : v < 64) (hw : w < 64) {a : UInt8}
    (ha : v * 4 + w / 16 = a.toNat) (bs : Bytes) :
    a2bBase64 0 0 0 (base64Digit v :: base64Digit w :: bs) =
      (a2bBase64 2 (w % 16) 0 bs).map (a :: ·) := by
  refine (a2bBase64_digit hv 0 0 0 _).trans ((a2bBase64_digit hw 1 v 0 bs).trans ?_)
  show (a2bBase64 2 (w % 16) 0 bs).map (UInt8.ofNat (v * 4 + w / 16) :: ·) = _
  rw [ha, UInt8.ofNat_toNat]

theorem a2bBase64_second {leftchar v : Nat} (hv : v < 64) {b : UInt8}
    (hb : leftchar * 16 + v / 4 = b.toNat) (bs : Bytes) :
    a2bBase64 2 leftchar 0 (base64Digit v :: bs) =
      (a2bBase64 3 (v % 4) 0 bs).map (b :: ·) := by
  refine (a2bBase64_digit hv 2 leftchar 0 bs).trans ?_
  show (a2bBase64 3 (v % 4) 0 bs).map (UInt8.ofNat (leftchar * 16 + v / 4) :: ·) = _
  rw [hb, UInt8.ofNat_toNat]

theorem a2bBase64_third {leftchar v : Nat} (hv : v < 64) {c : UInt8}
    (hc : leftchar * 64 + v = c.toNat) (bs : Bytes) :
    a2bBase64 3 leftchar 0 (base64Digit v :: bs) = (a2bBase64 0 0 0 bs).map (c :: ·) := by
  refine (a2bBase64_digit hv 3 leftchar 0 bs).trans ?_
  show (a2bBase64 0 0 0 bs).map (UInt8.ofNat (leftchar * 64 + v) :: ·) = _
  rw [hc, UInt8.ofNat_toNat]

theorem b64decode_b64encode (bs : Bytes) : b64decode (b64encode bs) = some bs := by
  unfold b64decode
  induction bs using b64encode.induct with
  | case1 => rfl
  | case2 a =>
    have ha := a.toNat_lt
    rw [b64encode, a2bBase64_first (a := a) (by omega) (by omega) (by omega)]
    rfl
  | case3 a b =>
    have ha := a.toNat_lt
    have hb := b.toNat_lt
    rw [b64encode, a2bBase64_first (a := a) (by omega) (by omega) (by omega),
      a2bBase64_second (b := b) (by omega) (by omega)]
    rfl
  | case4 a b c bs ih =>
    have ha := a.toNat_lt
    have hb := b.toNat_lt
    have hc := c.toNat_lt
    rw [b64encode, a2bBase64_first (a := a) (by omega) (by omega) (by omega),
      a2bBase64_second (b := b) (by omega) (by omega),
      a2bBase64_third (c := c) (by omega) (by omega), ih]
    rfl

/-- Every byte of an encoding is a digit of the alphabet or padding. -/
theorem b64encode_plain (bs : Bytes) : ∀ b ∈ b64encode bs, b ≠ 10 ∧ b ≠ 13 ∧ b ≠ 45 ∧ b < 128 := by
  have hdigit : ∀ v, v < 64 → base64Digit v ≠ 10 ∧ base64Digit v ≠ 13 ∧ base64Digit v ≠ 45 ∧
      base64Digit v < 128 := fun v hv => (base64Digit_plain hv).2
  have hpad : (61 : UInt8) ≠ 10 ∧ (61 : UInt8) ≠ 13 ∧ (61 : UInt8) ≠ 45 ∧ (61 : UInt8) < 128 := by
    decide
  induction bs using b64encode.induct with
  | case1 => exact fun b hb => absurd hb List.not_mem_nil
  | case2 a =>
    have ha := a.toNat_lt
    simp only [b64encode, List.forall_mem_cons, List.not_mem_nil, false_implies, implies_true,
      and_true]
    exact ⟨hdigit _ (by omega), hdigit _ (by omega), hpad, hpad⟩
  | case3 a b =>
    have ha := a.toNat_lt
    have hb := b.toNat_lt
    simp only [b64encode, List.forall_mem_cons, List.not_mem_nil, false_implies, implies_true,
      and_true]
    exact ⟨hdigit _ (by omega), hdigit _ (by omega), hdigit _ (by omega), hpad⟩
  | case4 a b c bs ih =>
    have ha := a.toNat_lt
    have hb := b.toNat_lt
    have hc := c.toNat_lt
    simp only [b64encode, List.forall_mem_cons]
    exact ⟨hdigit _ (by omega), hdigit _ (by omega), hdigit _ (by omega), hdigit _ (by omega), ih⟩

end Siip.Python
