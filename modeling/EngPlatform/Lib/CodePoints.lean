import Mathlib.Data.Nat.Notation
import Mathlib.Algebra.GroupWithZero.Nat

/-!
# Texts as code points

A text that may hold any code point, surrogates too, and its lengths in UTF-8 and UTF-16.
-/

set_option linter.dupNamespace false

namespace CodePoints

abbrev Text := List ℕ

instance : LawfulBEq Text := inferInstance

def text (s : String) : Text := s.toList.map Char.toNat

def utf16Length (value : Text) : ℕ := (value.map fun c => if c < 0x10000 then 1 else 2).sum

def utf8Length (value : Text) : ℕ :=
  (value.map fun c => if c < 0x80 then 1 else if c < 0x800 then 2
    else if c < 0x10000 then 3 else 4).sum

/-- A hexadecimal digit, in upper case. -/
def hexDigit (d : ℕ) : ℕ := if d < 10 then 48 + d else 55 + d

theorem digits_of_repr {n : ℕ} {c : ℕ} (h : c ∈ text (toString n)) : 48 ≤ c ∧ c ≤ 57 := by
  obtain ⟨ch, hch, rfl⟩ := List.mem_map.mp h
  have hdigit : ch.isDigit = true := by
    have hmem : ch ∈ Nat.toDigits 10 n := by simpa [Nat.repr] using hch
    exact Nat.isDigit_of_mem_toDigits (by decide) (by decide) hmem
  simp only [Char.isDigit, Bool.and_eq_true, decide_eq_true_eq] at hdigit
  exact ⟨hdigit.1, hdigit.2⟩

end CodePoints
