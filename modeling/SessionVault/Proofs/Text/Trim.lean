import Mathlib.Data.List.DropRight
import SessionVault.Decimal.Numeral
import SessionVault.Text.Blank

namespace SessionVault.Text

open Decimal (isDigit)

variable {c : Char} {s t : List Char}

theorem isBlank_of_isDigit (h : isDigit c = true) : isBlank c = false := by
  simp only [isDigit, Bool.and_eq_true, decide_eq_true_eq] at h
  have hlow : 48 ≤ c.toNat := h.1
  have hhigh : c.toNat ≤ 57 := h.2
  simp [isBlank, blankRanges]
  omega

theorem trimStart_cons (h : isBlank c = false) (s : List Char) : trimStart (c :: s) = c :: s := by
  simp [trimStart, h]

theorem trimStart_append (h : isBlank c = false) (s t : List Char) :
    trimStart (s ++ c :: t) = trimStart s ++ c :: t := by
  induction s with
  | nil => exact trimStart_cons h t
  | cons d s ih =>
    by_cases hd : isBlank d = true
    · simpa [trimStart, hd] using ih
    · simp [trimStart, hd]

theorem trimStart_eq_self_iff :
    trimStart s = s ↔ ∀ c, s.head? = some c → isBlank c = false := by
  rw [trimStart, List.dropWhile_eq_self_iff]
  cases s <;> simp

theorem trimEnd_append (ht : t ≠ []) (h : ∀ c ∈ t, isBlank c = false) :
    trimEnd (s ++ t) = s ++ t := by
  have hlast : ∀ hne : s ++ t ≠ [], ¬ isBlank ((s ++ t).getLast hne) = true := by
    intro hne
    rw [List.getLast_append_of_ne_nil hne ht, h _ (List.getLast_mem ht)]
    exact Bool.false_ne_true
  exact List.rdropWhile_eq_self_iff.2 hlast

end SessionVault.Text
