/-
  JSON objects with string values: Python's `json.dumps` with its default settings, and
  `json.loads`. A text that is JSON of another shape, or names a lone surrogate, is out of reach
  of `loads` here, which gives `none` as it does for what is not JSON.
-/
import Siip.Lib.Binascii

namespace Siip.Json

open Python

/-! ## Writing -/

/-- Four hexadecimal digits. -/
def hex4 (n : Nat) : Str :=
  [hexDigit (n / 4096 % 16), hexDigit (n / 256 % 16), hexDigit (n / 16 % 16), hexDigit (n % 16)]

def escapeUnit (n : Nat) : Str := '\\' :: 'u' :: hex4 n

/-- A character in a string; outside printable ASCII in UTF-16 code units. -/
def escape (c : Char) : Str :=
  if c = '"' then ['\\', '"']
  else if c = '\\' then ['\\', '\\']
  else if c = '\n' then ['\\', 'n']
  else if c = '\r' then ['\\', 'r']
  else if c = '\t' then ['\\', 't']
  else if c = Char.ofNat 12 then ['\\', 'f']
  else if c = Char.ofNat 8 then ['\\', 'b']
  else if 32 ≤ c.toNat ∧ c.toNat ≤ 126 then [c]
  else if c.toNat < 65536 then escapeUnit c.toNat
  else
    escapeUnit (55296 + (c.toNat - 65536) / 1024) ++ escapeUnit (56320 + (c.toNat - 65536) % 1024)

def quote (s : Str) : Str := '"' :: (s.flatMap escape ++ ['"'])

def member (f : Str × Str) : Str := quote f.1 ++ [':', ' '] ++ quote f.2

/-- The members after the first. -/
def tail (fields : List (Str × Str)) : Str := fields.flatMap fun f => [',', ' '] ++ member f

/-- `json.dumps(fields)` -/
def dumps : List (Str × Str) → Str
  | [] => ['\x7b', '\x7d']
  | f :: fields => '\x7b' :: (member f ++ tail fields ++ ['\x7d'])

/-! ## Reading -/

/-- The code unit that four digits give. -/
def unit (a b c d : Char) : Option Nat := do
  let a ← hexValue a
  let b ← hexValue b
  let c ← hexValue c
  let d ← hexValue d
  some (4096 * a + 256 * b + 16 * c + d)

def unescape (c : Char) : Option Char :=
  if c = '"' ∨ c = '\\' ∨ c = '/' then some c
  else if c = 'n' then some '\n'
  else if c = 'r' then some '\r'
  else if c = 't' then some '\t'
  else if c = 'f' then some (Char.ofNat 12)
  else if c = 'b' then some (Char.ofNat 8)
  else none

/-- A string after its opening quote, and what follows its closing one. -/
def scanString : Str → Option (Str × Str)
  | [] => none
  | '"' :: rest => some ([], rest)
  | ['\\'] => none
  | '\\' :: 'u' :: a :: b :: c :: d :: rest =>
    match unit a b c d with
    | none => none
    | some n =>
      if 55296 ≤ n ∧ n < 56320 then
        match rest with
        | '\\' :: 'u' :: a :: b :: c :: d :: rest =>
          match unit a b c d with
          | none => none
          | some m =>
            if 56320 ≤ m ∧ m < 57344 then
              (scanString rest).map fun p =>
                (Char.ofNat (65536 + 1024 * (n - 55296) + (m - 56320)) :: p.1, p.2)
            else none
        | _ => none
      else if 56320 ≤ n ∧ n < 57344 then none
      else (scanString rest).map fun p => (Char.ofNat n :: p.1, p.2)
  | '\\' :: c :: rest =>
    (unescape c).bind fun c => (scanString rest).map fun p => (c :: p.1, p.2)
  | c :: rest => if c.toNat < 32 then none else (scanString rest).map fun p => (c :: p.1, p.2)

/-- White space between tokens. -/
def skipWs (s : Str) : Str := s.dropWhile fun c => c = ' ' || c = '\t' || c = '\n' || c = '\r'

/-- `"name": "value"` -/
def scanMember (s : Str) : Option ((Str × Str) × Str) :=
  match s with
  | '"' :: s => do
    let (name, s) ← scanString s
    match skipWs s with
    | ':' :: s =>
      match skipWs s with
      | '"' :: s => do
        let (value, s) ← scanString s
        some ((name, value), s)
      | _ => none
    | _ => none
  | _ => none

/-- The members after the first, up to the closing brace; at most `n` of them. -/
def scanTail : Nat → Str → Option (List (Str × Str) × Str)
  | 0, _ => none
  | n + 1, s =>
    match skipWs s with
    | '\x7d' :: s => some ([], s)
    | ',' :: s => do
      let (f, s) ← scanMember (skipWs s)
      let (fields, s) ← scanTail n s
      some (f :: fields, s)
    | _ => none

/-- An object after its opening brace, up to the end of the text. There are no more members than
    characters. -/
def scanObject (s : Str) : Option (List (Str × Str)) :=
  match skipWs s with
  | '\x7d' :: s => if skipWs s = [] then some [] else none
  | s => do
    let (f, s) ← scanMember s
    let (fields, s) ← scanTail (s.length + 1) s
    if skipWs s = [] then some (f :: fields) else none

/-- `json.loads(s)` -/
def loads (s : Str) : Option (List (Str × Str)) :=
  match skipWs s with
  | '\x7b' :: s => scanObject s
  | _ => none

/-! ## Round trip -/

theorem unit_hex4 {n : Nat} (h : n < 65536) :
    unit (hexDigit (n / 4096 % 16)) (hexDigit (n / 256 % 16)) (hexDigit (n / 16 % 16))
      (hexDigit (n % 16)) = some n := by
  have hlt : ∀ k, k % 16 < 16 := fun k => Nat.mod_lt k (by decide)
  have hsum : 4096 * (n / 4096 % 16) + 256 * (n / 256 % 16) + 16 * (n / 16 % 16) + n % 16 = n := by
    omega
  simp only [unit, hexValue_hexDigit (hlt _), Option.bind_eq_bind, Option.bind_some, hsum]

theorem scanString_unit {n : Nat} (h : n < 65536) (hsur : ¬ (55296 ≤ n ∧ n < 57344)) (rest : Str) :
    scanString (escapeUnit n ++ rest) =
      (scanString rest).map fun p => (Char.ofNat n :: p.1, p.2) := by
  have hhi : ¬ (55296 ≤ n ∧ n < 56320) := by omega
  have hlo : ¬ (56320 ≤ n ∧ n < 57344) := by omega
  simp only [escapeUnit, hex4, List.cons_append, List.nil_append]
  rw [scanString, unit_hex4 h]
  simp only [if_neg hhi, if_neg hlo]

theorem scanString_surrogates {hi lo : Nat} (hhi : 55296 ≤ hi ∧ hi < 56320)
    (hlo : 56320 ≤ lo ∧ lo < 57344) (rest : Str) :
    scanString (escapeUnit hi ++ escapeUnit lo ++ rest) =
      (scanString rest).map fun p =>
        (Char.ofNat (65536 + 1024 * (hi - 55296) + (lo - 56320)) :: p.1, p.2) := by
  simp only [escapeUnit, hex4, List.cons_append, List.nil_append]
  rw [scanString, unit_hex4 (show hi < 65536 by omega)]
  simp only [if_pos hhi, unit_hex4 (show lo < 65536 by omega), if_pos hlo]

theorem scanString_escape (c : Char) (rest : Str) :
    scanString (escape c ++ rest) = (scanString rest).map fun p => (c :: p.1, p.2) := by
  have hrange : c.toNat < 55296 ∨ 57343 < c.toNat ∧ c.toNat < 1114112 := c.valid
  unfold escape
  split_ifs with h₁ h₂ h₃ h₄ h₅ h₆ h₇ h₈ h₉
  · rw [h₁]; rfl
  · rw [h₂]; rfl
  · rw [h₃]; rfl
  · rw [h₄]; rfl
  · rw [h₅]; rfl
  · rw [h₆]; rfl
  · rw [h₇]; rfl
  · have hlt : ¬ c.toNat < 32 := by omega
    rw [List.singleton_append, scanString]
    · rw [if_neg hlt]
    all_goals simp [h₁, h₂]
  · rw [scanString_unit h₉ (by omega), Char.ofNat_toNat]
  · have hsum : 65536 + 1024 * (55296 + (c.toNat - 65536) / 1024 - 55296) +
        (56320 + (c.toNat - 65536) % 1024 - 56320) = c.toNat := by omega
    rw [scanString_surrogates (by omega) (by omega), hsum, Char.ofNat_toNat]

theorem scanString_append (s rest : Str) :
    scanString (s.flatMap escape ++ '"' :: rest) = some (s, rest) := by
  induction s with
  | nil => rfl
  | cons c s ih => rw [List.flatMap_cons, List.append_assoc, scanString_escape, ih, Option.map_some]

theorem scanMember_append (f : Str × Str) (rest : Str) :
    scanMember (member f ++ rest) = some (f, rest) := by
  have hmember : member f ++ rest = '"' :: (f.1.flatMap escape ++
      '"' :: ':' :: ' ' :: '"' :: (f.2.flatMap escape ++ '"' :: rest)) := by
    simp [member, quote]
  have hcolon : ∀ s, skipWs (':' :: s) = ':' :: s := fun _ => rfl
  have hquote : ∀ s, skipWs (' ' :: '"' :: s) = '"' :: s := fun _ => rfl
  rw [hmember, scanMember]
  simp only [scanString_append, hcolon, hquote, Option.bind_eq_bind, Option.bind_some]

theorem scanTail_append {n : Nat} {fields : List (Str × Str)} (h : fields.length < n) (rest : Str) :
    scanTail n (tail fields ++ '\x7d' :: rest) = some (fields, rest) := by
  induction fields generalizing n with
  | nil =>
    obtain ⟨n, rfl⟩ := Nat.exists_eq_succ_of_ne_zero (Nat.ne_of_gt h)
    rfl
  | cons f fields ih =>
    obtain ⟨n, rfl⟩ := Nat.exists_eq_succ_of_ne_zero
      (Nat.ne_of_gt (Nat.lt_of_le_of_lt (Nat.zero_le _) h))
    have htail : tail (f :: fields) ++ '\x7d' :: rest =
        ',' :: ' ' :: (member f ++ (tail fields ++ '\x7d' :: rest)) := by
      simp [tail]
    have hcomma : ∀ s, skipWs (',' :: s) = ',' :: s := fun _ => rfl
    have hspace : ∀ s, skipWs (' ' :: (member f ++ s)) = member f ++ s := fun _ => rfl
    rw [htail, scanTail]
    simp only [hcomma, hspace, scanMember_append, Option.bind_eq_bind, Option.bind_some,
      ih (show fields.length < n by simpa using h)]

theorem length_le_tail (fields : List (Str × Str)) : fields.length ≤ (tail fields).length := by
  induction fields with
  | nil => exact Nat.le_refl 0
  | cons f fields ih =>
    rw [tail, List.flatMap_cons, ← tail, List.length_append, List.length_append]
    simp only [List.length_cons]
    omega

/-- What `dumps` writes, `loads` reads. -/
theorem loads_dumps (fields : List (Str × Str)) : loads (dumps fields) = some fields := by
  cases fields with
  | nil => rfl
  | cons f fields =>
    have hlen : fields.length < (tail fields ++ ['\x7d']).length + 1 := by
      have := length_le_tail fields
      rw [List.length_append]
      omega
    have hquote : ∀ s, skipWs (member f ++ s) = member f ++ s := fun _ => rfl
    rw [dumps, List.append_assoc]
    change scanObject (member f ++ (tail fields ++ ['\x7d'])) = some (f :: fields)
    rw [scanObject, hquote]
    split
    · rename_i h
      exact absurd h (by simp [member, quote])
    · simp only [scanMember_append, Option.bind_eq_bind, Option.bind_some, scanTail_append hlen]
      rfl

end Siip.Json
