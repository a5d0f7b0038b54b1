import SessionVault.Proofs.Json.Numeral
import SessionVault.Proofs.Text.Split
import SessionVault.Toml.Printer

namespace SessionVault.Toml

open Decimal (isDigit numeral)

def Stops (p : Char → Bool) (s : List Char) : Prop := ∀ c, s.head? = some c → p c = false

variable {s rest : List Char} {v : Toml}

theorem takeWhile_append_stop {p : Char → Bool} (hs : s.all p = true) (hrest : Stops p rest) :
    (s ++ rest).takeWhile p = s := by
  have hend : rest.takeWhile p = [] := by
    cases rest with
    | nil => rfl
    | cons c rest => rw [List.takeWhile_cons, hrest c rfl]; rfl
  rw [List.takeWhile_append_of_pos (List.all_eq_true.1 hs), hend, List.append_nil]

theorem readScalar_append (hs : s.all isWordChar = true) (hdate : isDate s = false)
    (hv : scalar s = some v) (hrest : Stops isWordChar rest) :
    readScalar (s ++ rest) = some (v, rest) := by
  have hword : word (s ++ rest) = s := by
    simp only [word, takeWhile_append_stop hs hrest, hdate]
    rfl
  rw [readScalar, hword, hv, List.drop_left]
  rfl

theorem readScalar_writeBool (b : Bool) (hrest : Stops isWordChar rest) :
    readScalar (writeBool b ++ rest) = some (.bool b, rest) := by
  cases b with
  | true => exact readScalar_append (by decide) (by decide) rfl hrest
  | false => exact readScalar_append (by decide) (by decide) rfl hrest

theorem isWordChar_of_isDigit {c : Char} (h : isDigit c = true) : isWordChar c = true := by
  simp [isWordChar, h]

theorem mem_numeral {n : Nat} {c : Char} (h : c ∈ numeral n) : isDigit c = true :=
  List.all_eq_true.1 (Decimal.isDigit_numeral n) c h

theorem notMem_numeral {n : Nat} {c : Char} (h : isDigit c = false) : c ∉ numeral n := by
  intro hm
  rw [mem_numeral hm] at h
  cases h

theorem length_numeral_of_zero {n : Nat} (h : (numeral n).head? = some '0') :
    (numeral n).length = 1 := by
  rw [numeral] at h ⊢
  cases hd : Decimal.digits n with
  | nil => exact absurd hd (Decimal.digits_ne_nil n)
  | cons d ds =>
    rw [hd] at h
    have hlt : d < 10 := Decimal.digits_lt n d (hd ▸ List.mem_cons_self)
    have hzero : d = 0 := by
      rw [← (Decimal.digitChar_spec d hlt).2, Option.some.inj h]
      rfl
    subst hzero
    rw [Json.digits_of_zero hd]
    rfl

theorem whole?_numeral (n : Nat) : whole? (numeral n) = some (numeral n) := by
  have hsplit : Text.splitAll '_' (numeral n) = [numeral n] :=
    Text.splitAll_of_notMem (notMem_numeral rfl)
  have hungroup : ungroup? isDigit (numeral n) = some (numeral n) := by
    simp [ungroup?, hsplit, Decimal.numeral_ne_nil, Decimal.isDigit_numeral]
  rw [whole?, hungroup]
  refine if_neg fun ⟨hzero, hlength⟩ => hlength (length_numeral_of_zero hzero)

theorem int64?_toInt (n : Int64) : int64? n.toInt = some n := by
  rw [int64?, if_pos ⟨n.minValue_le_toInt, n.toInt_le⟩]
  exact congrArg some (Int64.ofInt_toInt n)

theorem splitSign_numeral (n : Nat) : splitSign (numeral n) = (false, numeral n) := by
  cases hs : numeral n with
  | nil => rfl
  | cons c rest =>
    have hc : isDigit c = true := mem_numeral (hs ▸ List.mem_cons_self)
    unfold splitSign
    split
    · next heq =>
      cases heq
      cases hc
    · next heq =>
      cases heq
      cases hc
    · rfl

theorem mem_signed {n : Int} {c : Char} (h : c ∈ Decimal.signed n) :
    isDigit c = true ∨ c = '-' := by
  rw [Decimal.signed] at h
  split at h
  · rcases List.mem_cons.1 h with rfl | h
    · exact .inr rfl
    · exact .inl (mem_numeral h)
  · exact .inl (mem_numeral h)

theorem notMem_signed {n : Int} {c : Char} (hdigit : isDigit c = false) (hminus : c ≠ '-') :
    c ∉ Decimal.signed n := by
  intro hm
  rcases mem_signed hm with hc | hc
  · rw [hdigit] at hc
    cases hc
  · exact hminus hc

theorem integer?_signed (n : Int64) : integer? (Decimal.signed n.toInt) = some n := by
  have hmark {c : Char} {tail : List Char} (hdigit : isDigit c = false) (hminus : c ≠ '-') :
      Decimal.signed n.toInt ≠ '0' :: c :: tail := by
    intro he
    apply notMem_signed hdigit hminus
    rw [he]
    exact List.mem_cons_of_mem _ List.mem_cons_self
  rw [integer?.eq_4 _ (fun _ => hmark rfl (by decide)) (fun _ => hmark rfl (by decide))
    fun _ => hmark rfl (by decide), Decimal.signed]
  by_cases hneg : n.toInt < 0
  · have habs : -(n.toInt.natAbs : Int) = n.toInt := by omega
    simp only [if_pos hneg, splitSign, whole?_numeral, Option.bind_eq_bind, Option.bind_some,
      Decimal.value_numeral, if_true, habs, int64?_toInt]
  · have habs : (n.toInt.natAbs : Int) = n.toInt := by omega
    simp only [if_neg hneg, splitSign_numeral, whole?_numeral, Option.bind_eq_bind,
      Option.bind_some, Decimal.value_numeral, Bool.false_eq_true, if_false, habs, int64?_toInt]

theorem isDate_signed (n : Int) : isDate (Decimal.signed n) = false := by
  have hsplit : Text.splitAll '-' (numeral n.natAbs) = [numeral n.natAbs] :=
    Text.splitAll_of_notMem (notMem_numeral rfl)
  rw [Decimal.signed]
  split
  · rw [isDate, Text.splitAll, if_pos rfl, hsplit]
  · rw [isDate, hsplit]

theorem readScalar_signed (n : Int64) (hrest : Stops isWordChar rest) :
    readScalar (Decimal.signed n.toInt ++ rest) = some (.integer n, rest) := by
  refine readScalar_append ?_ (isDate_signed _) ?_ hrest
  · refine List.all_eq_true.2 fun c hc => ?_
    rcases mem_signed hc with hc | rfl
    · exact isWordChar_of_isDigit hc
    · rfl
  · have htrue : Decimal.signed n.toInt ≠ ['t', 'r', 'u', 'e'] := fun he =>
      notMem_signed (c := 't') rfl (by decide) (he ▸ List.mem_cons_self)
    have hfalse : Decimal.signed n.toInt ≠ ['f', 'a', 'l', 's', 'e'] := fun he =>
      notMem_signed (c := 'f') rfl (by decide) (he ▸ List.mem_cons_self)
    rw [scalar, if_neg htrue, if_neg hfalse, integer?_signed]

theorem head?_signed (n : Int) :
    ∃ c, (Decimal.signed n).head? = some c ∧ (isDigit c = true ∨ c = '-') := by
  cases hs : Decimal.signed n with
  | nil =>
    rw [Decimal.signed] at hs
    split at hs
    · cases hs
    · exact absurd hs (Decimal.numeral_ne_nil _)
  | cons c rest => exact ⟨c, rfl, mem_signed (hs ▸ List.mem_cons_self)⟩

end SessionVault.Toml
