/-!
# Arithmetic that can overflow

Sums and products of numbers of a fixed width. One that does not fit is refused, and what was
computing it fails with that.
-/
namespace PluginGuard

inductive Overflow
  | addition
  | multiplication
  deriving DecidableEq, Repr

namespace Overflow

def message : Overflow → String
  | .addition => "attempt to add with overflow"
  | .multiplication => "attempt to multiply with overflow"

variable {α : Type}

def fitting (o : Overflow) (size : Nat) (ofNat : Nat → α) (value : Nat) : Except Overflow α :=
  if value < size then .ok (ofNat value) else .error o

def add32 (a b : UInt32) : Except Overflow UInt32 :=
  addition.fitting UInt32.size .ofNat (a.toNat + b.toNat)

def mul32 (a b : UInt32) : Except Overflow UInt32 :=
  multiplication.fitting UInt32.size .ofNat (a.toNat * b.toNat)

def add64 (a b : UInt64) : Except Overflow UInt64 :=
  addition.fitting UInt64.size .ofNat (a.toNat + b.toNat)

def mul64 (a b : UInt64) : Except Overflow UInt64 :=
  multiplication.fitting UInt64.size .ofNat (a.toNat * b.toNat)

section

variable {o : Overflow} {value : Nat}

theorem fitting_of_lt {size : Nat} (h : value < size) (o : Overflow) (ofNat : Nat → α) :
    o.fitting size ofNat value = .ok (ofNat value) := if_pos h

theorem fitting_of_le {size : Nat} (h : size ≤ value) (o : Overflow) (ofNat : Nat → α) :
    o.fitting size ofNat value = .error o := if_neg (Nat.not_lt.mpr h)

/-- Only the exact value is ever given. -/
theorem fitting32_eq_ok_iff {k : UInt32} :
    o.fitting UInt32.size .ofNat value = .ok k ↔ k.toNat = value := by
  constructor
  · intro h
    by_cases hfits : value < UInt32.size
    · rw [fitting_of_lt hfits, Except.ok.injEq] at h
      rw [← h, UInt32.toNat_ofNat_of_lt' hfits]
    · rw [fitting_of_le (Nat.not_lt.mp hfits)] at h
      cases h
  · rintro rfl
    rw [fitting_of_lt k.toNat_lt_size, UInt32.ofNat_toNat]

theorem add32_eq_ok_iff {a b k : UInt32} : add32 a b = .ok k ↔ k.toNat = a.toNat + b.toNat :=
  fitting32_eq_ok_iff

theorem mul32_eq_ok_iff {a b k : UInt32} : mul32 a b = .ok k ↔ k.toNat = a.toNat * b.toNat :=
  fitting32_eq_ok_iff

end

end Overflow

end PluginGuard
