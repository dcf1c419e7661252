import Mathlib.Data.List.Basic
import Mathlib.Tactic.IntervalCases

/-! Percent escapes: a text is written with some of its characters as they are, and all others
as the bytes of their UTF-8 form, each by a percent sign and two hexadecimal digits. -/
namespace CourseraObjC
namespace PercentEncoding

def hexDigit (n : ℕ) : Char := Char.ofNat (if n < 10 then 48+n else 55+n)

def hexValue (c : Char) : Option ℕ :=
  if '0' ≤ c ∧ c ≤ '9' then some (c.toNat-48)
  else if 'A' ≤ c ∧ c ≤ 'F' then some (c.toNat-55)
  else if 'a' ≤ c ∧ c ≤ 'f' then some (c.toNat-87)
  else none

def escape (b : UInt8) : List Char := ['%',hexDigit (b.toNat/16),hexDigit (b.toNat%16)]

def encode (keep : Char → Bool) (s : List Char) : List Char :=
  s.flatMap fun c => if keep c then [c] else (String.utf8EncodeChar c).flatMap escape

/-- The bytes a text with escapes stands for, if all its escapes are complete. -/
def bytes : List Char → Option (List UInt8)
  | [] => some []
  | '%'::h::l::s => do
    let high ← hexValue h
    let low ← hexValue l
    let rest ← bytes s
    return UInt8.ofNat (16*high+low)::rest
  | '%'::_ => none
  | c::s => do
    let rest ← bytes s
    return String.utf8EncodeChar c++rest

/-- The text a text with escapes stands for, if its bytes are the UTF-8 form of one. -/
def decode (s : List Char) : Option (List Char) :=
  (bytes s).bind fun b => b.toByteArray.utf8Decode?.map Array.toList

theorem hexValue_hexDigit {n : ℕ} (h : n < 16) : hexValue (hexDigit n) = some n := by
  interval_cases n <;> rfl

theorem bytes_escape (b : UInt8) (s : List Char) :
    bytes (escape b++s) = (bytes s).map (b::·) := by
  have hhigh : b.toNat/16 < 16 := by
    have hlt := b.toNat_lt
    omega
  have hlow : b.toNat%16 < 16 := Nat.mod_lt _ (by decide)
  have hbyte : UInt8.ofNat (16*(b.toNat/16)+b.toNat%16) = b := by
    rw [Nat.div_add_mod,UInt8.ofNat_toNat]
  simp only [escape,List.cons_append,List.nil_append,bytes,hexValue_hexDigit hhigh,
    hexValue_hexDigit hlow,Option.bind_eq_bind,Option.bind_some]
  rw [hbyte]
  cases bytes s with
  | none => rfl
  | some rest => rfl

theorem bytes_escapes (bs : List UInt8) (s : List Char) :
    bytes (bs.flatMap escape++s) = (bytes s).map (bs++·) := by
  induction bs with
  | nil => simp
  | cons b bs ih =>
    rw [List.flatMap_cons,List.append_assoc,bytes_escape,ih]
    cases bytes s with
    | none => rfl
    | some rest => rfl

theorem bytes_cons_of_ne {c : Char} (h : c ≠ '%') (s : List Char) :
    bytes (c::s) = (bytes s).map (String.utf8EncodeChar c++·) := by
  rw [bytes]
  · cases bytes s with
    | none => rfl
    | some rest => rfl
  · rintro h' l s' rfl
    exact absurd rfl h
  · rintro rfl
    exact absurd rfl h

variable {keep : Char → Bool}

theorem bytes_encode (hkeep : keep '%' = false) (s : List Char) :
    bytes (encode keep s) = some (s.flatMap String.utf8EncodeChar) := by
  induction s with
  | nil => rfl
  | cons c s ih =>
    rw [encode,List.flatMap_cons,List.flatMap_cons]
    rw [encode] at ih
    split_ifs with hc
    · have hne : c ≠ '%' := by
        rintro rfl
        exact absurd hkeep (by simp [hc])
      rw [List.singleton_append,bytes_cons_of_ne hne,ih]
      rfl
    · rw [bytes_escapes,ih]
      rfl

/-- What was escaped is read back. -/
theorem decode_encode (hkeep : keep '%' = false) (s : List Char) :
    decode (encode keep s) = some s := by
  rw [decode,bytes_encode hkeep,Option.bind_some]
  have hutf8 : (s.flatMap String.utf8EncodeChar).toByteArray = s.utf8Encode := rfl
  rw [hutf8,List.utf8Decode?_utf8Encode]
  rfl

theorem hexDigit_ne {sep : Char} (hsep : hexValue sep = none) {n : ℕ} (h : n < 16) :
    sep ≠ hexDigit n := by
  rintro rfl
  rw [hexValue_hexDigit h] at hsep
  exact absurd hsep (Option.some_ne_none n)

/-- A character that is escaped, and is part of no escape, does not stand in an escaped text. -/
theorem not_mem_encode {sep : Char} (hkeep : keep sep = false) (hpercent : sep ≠ '%')
    (hhex : hexValue sep = none) (s : List Char) : sep ∉ encode keep s := by
  intro hmem
  obtain ⟨c,_,hc⟩ := List.mem_flatMap.mp hmem
  split_ifs at hc with hkept
  · obtain rfl := List.mem_singleton.mp hc
    rw [hkept] at hkeep
    exact absurd hkeep (by simp)
  · obtain ⟨b,_,hb⟩ := List.mem_flatMap.mp hc
    have hlt := b.toNat_lt
    have hhigh : b.toNat/16 < 16 := by omega
    have hlow : b.toNat%16 < 16 := Nat.mod_lt _ (by decide)
    simp only [escape,List.mem_cons,List.not_mem_nil,or_false] at hb
    rcases hb with rfl | rfl | rfl
    · exact hpercent rfl
    · exact hexDigit_ne hhex hhigh rfl
    · exact hexDigit_ne hhex hlow rfl

end PercentEncoding
end CourseraObjC
