import SessionVault.Proofs.Text.Split
import SessionVault.Proofs.Text.Trim
import SessionVault.Settings.Endpoint

namespace SessionVault.Endpoint

open Decimal (isDigit numeral)

variable {s t host : List Char} {port : UInt16} {e : Endpoint}

theorem port?_numeral (port : UInt16) : port? (numeral port.toNat) = some port := by
  have hvalue : Decimal.naturalValue? (numeral port.toNat) = some port.toNat := by
    rw [Decimal.naturalValue?.eq_2 _ ?_, Decimal.value?_numeral]
    intro rest h
    have hsign := List.all_eq_true.1 (Decimal.isDigit_numeral port.toNat) '+' (by simp [h])
    exact absurd hsign (by decide)
  have hlt : port.toNat < 0x10000 := port.toNat_lt
  rw [port?, hvalue]
  dsimp only
  rw [if_pos hlt, UInt16.ofNat_toNat]

structure Bare (host : List Char) : Prop where
  ne_nil : host ≠ []
  head_ne : host.head ne_nil ≠ '['
  last_ne : host.getLast ne_nil ≠ ']'

theorem unbracket_eq (s : List Char) :
    unbracket s = (s.dropWhile (· == '[')).rdropWhile (· == ']') :=
  rfl

theorem bare_unbracket (h : unbracket s ≠ []) : Bare (unbracket s) where
  ne_nil := h
  head_ne := by
    have hkept : unbracket s <+: s.dropWhile (· == '[') := List.rdropWhile_prefix _ _
    have hhead := List.head_dropWhile_not (· == '[') (hkept.ne_nil h)
    rw [hkept.head h]
    simpa using hhead
  last_ne := by
    have hlast := List.rdropWhile_last_not (· == ']') (s.dropWhile (· == '[')) h
    exact fun he => hlast (beq_iff_eq.2 he)

theorem Bare.unbracket_brackets (h : Bare host) : unbracket ('[' :: host ++ [']']) = host := by
  obtain ⟨c, t, rfl⟩ := List.exists_cons_of_ne_nil h.ne_nil
  have hfront : ('[' :: c :: t ++ [']']).dropWhile (· == '[') = c :: t ++ [']'] := by
    have hc : c ≠ '[' := h.head_ne
    simp [hc]
  rw [unbracket_eq, hfront, List.rdropWhile_concat_pos _ _ _ rfl, List.rdropWhile_eq_self_iff]
  intro hne
  simpa using h.last_ne

theorem Bare.unbracket_suffix (h : Bare host) (ht : t <:+ host) :
    unbracket t = t.dropWhile (· == '[') := by
  rw [unbracket_eq, List.rdropWhile_eq_self_iff]
  intro hne
  rw [((List.dropWhile_suffix _).trans ht).getLast hne]
  simpa using h.last_ne

theorem ofChars_eq_ok {s : List Char} (h : ofChars s = .ok e) :
    Bare e.host.toList ∧ e.port ≠ 0 := by
  rw [ofChars] at h
  split at h
  · cases h
  · next before after _ =>
    split at h
    · cases h
    · next hhost =>
      split at h
      · cases h
      · next n _ =>
        split at h
        · cases h
        · next hzero =>
          cases h
          exact ⟨String.toList_ofList ▸ bare_unbracket hhost, hzero⟩

theorem ofText_eq (s : String) : ofText s = (ofChars s.toList).mapError (.invalidHost s) := by
  rw [ofText]
  cases ofChars s.toList <;> rfl

theorem bare_of_ofText {s : String} (h : ofText s = .ok e) : Bare e.host.toList ∧ e.port ≠ 0 := by
  rw [ofText_eq] at h
  cases hs : ofChars s.toList with
  | ok e' => rw [hs] at h; cases h; exact ofChars_eq_ok hs
  | error fault => rw [hs] at h; cases h

def shown (host : List Char) : List Char := if ':' ∈ host then '[' :: host ++ [']'] else host

theorem toList_display (e : Endpoint) :
    e.display.toList = shown e.host.toList ++ ':' :: numeral e.port.toNat := by
  rw [display, shown]
  by_cases h : ':' ∈ e.host.toList <;> simp [h]

theorem ofChars_append (hport : port ≠ 0) (s : List Char) :
    ofChars (s ++ ':' :: numeral port.toNat) =
      if unbracket (Text.trimStart s) = [] then .error .emptyHost
      else .ok ⟨String.ofList (unbracket (Text.trimStart s)), port⟩ := by
  have hdigit : ∀ c ∈ numeral port.toNat, isDigit c = true :=
    List.all_eq_true.1 (Decimal.isDigit_numeral port.toNat)
  have hcolon : ':' ∉ numeral port.toNat := fun h => absurd (hdigit ':' h) (by decide)
  have htrim : Text.trim (s ++ ':' :: numeral port.toNat) =
      Text.trimStart s ++ ':' :: numeral port.toNat := by
    rw [Text.trim, Text.trimStart_append (by decide)]
    refine Text.trimEnd_append (by simp) fun c hc => ?_
    rcases List.mem_cons.1 hc with rfl | hc
    · decide
    · exact Text.isBlank_of_isDigit (hdigit c hc)
  rw [ofChars, htrim, Text.splitLast_append hcolon]
  dsimp only
  rw [port?_numeral]
  dsimp only
  rw [if_neg hport]
  rfl

theorem ofText_display (hport : e.port ≠ 0) :
    ofText e.display =
      if unbracket (Text.trimStart (shown e.host.toList)) = [] then
        .error (.invalidHost e.display .emptyHost)
      else .ok ⟨String.ofList (unbracket (Text.trimStart (shown e.host.toList))), e.port⟩ := by
  rw [ofText_eq, toList_display, ofChars_append hport]
  split <;> rfl

theorem ofText_display_of_colon (hbare : Bare e.host.toList) (hport : e.port ≠ 0)
    (hcolon : ':' ∈ e.host.toList) : ofText e.display = .ok e := by
  have hstart : Text.trimStart ('[' :: e.host.toList ++ [']']) = '[' :: e.host.toList ++ [']'] :=
    Text.trimStart_cons (by decide) _
  rw [ofText_display hport, shown, if_pos hcolon, hstart, hbare.unbracket_brackets,
    if_neg hbare.ne_nil, String.ofList_toList]

def remnant (host : List Char) : List Char := (Text.trimStart host).dropWhile (· == '[')

theorem ofText_display_of_no_colon (hbare : Bare e.host.toList) (hport : e.port ≠ 0)
    (hcolon : ':' ∉ e.host.toList) :
    ofText e.display =
      if remnant e.host.toList = [] then .error (.invalidHost e.display .emptyHost)
      else .ok ⟨String.ofList (remnant e.host.toList), e.port⟩ := by
  have hsuffix : Text.trimStart e.host.toList <:+ e.host.toList := List.dropWhile_suffix _
  rw [ofText_display hport, shown, if_neg hcolon, hbare.unbracket_suffix hsuffix, remnant]

theorem Bare.remnant_eq_iff (h : Bare host) :
    remnant host = host ↔ ∀ c, host.head? = some c → Text.isBlank c = false := by
  rw [← Text.trimStart_eq_self_iff, remnant]
  have hsuffix : Text.trimStart host <:+ host := List.dropWhile_suffix _
  constructor
  · -- Both ways of stripping only shorten a host, so neither does if nothing is gone at the end.
    intro hdrop
    have hlength := (List.dropWhile_suffix (l := Text.trimStart host) (· == '[')).length_le
    rw [hdrop] at hlength
    exact hsuffix.eq_of_length_le hlength
  · intro htrim
    rw [htrim, List.dropWhile_eq_self_iff]
    intro hlength
    have hhead := h.head_ne
    rw [List.head_eq_getElem] at hhead
    simpa using hhead

/-- An endpoint that was read is shown in a form that reads back as it was exactly if its host holds a
colon or does not begin with a blank.  Otherwise the host loses its blanks and the brackets behind
them, and if nothing is left the form cannot be read. -/
theorem displayed_endpoint_is_read_back_iff {s : String} {e : Endpoint} (h : ofText s = .ok e) :
    (ofText e.display = .ok e ↔
      ':' ∈ e.host.toList ∨ ∀ c, e.host.toList.head? = some c → Text.isBlank c = false) ∧
    (':' ∉ e.host.toList →
      ofText e.display =
        if remnant e.host.toList = [] then .error (.invalidHost e.display .emptyHost)
        else .ok ⟨String.ofList (remnant e.host.toList), e.port⟩) := by
  obtain ⟨hbare, hport⟩ := bare_of_ofText h
  refine ⟨?_, ofText_display_of_no_colon hbare hport⟩
  by_cases hcolon : ':' ∈ e.host.toList
  · exact iff_of_true (ofText_display_of_colon hbare hport hcolon) (.inl hcolon)
  · rw [or_iff_right hcolon, ← hbare.remnant_eq_iff, ofText_display_of_no_colon hbare hport hcolon]
    split
    · next hnil =>
      rw [hnil]
      exact iff_of_false nofun (Ne.symm hbare.ne_nil)
    · rw [Except.ok.injEq]
      constructor
      · intro he
        have hhost := congrArg (fun e => e.host.toList) he
        simpa using hhost
      · intro he
        rw [he, String.ofList_toList]

theorem padded_address_is_read_back :
    ofText "\u3000 [[::1 ]]:+0042 " = .ok ⟨"::1 ", 42⟩ ∧
      ofText (display ⟨"::1 ", 42⟩) = .ok ⟨"::1 ", 42⟩ := by
  have h : ofText "\u3000 [[::1 ]]:+0042 " = .ok ⟨"::1 ", 42⟩ := by decide +kernel
  exact ⟨h, (displayed_endpoint_is_read_back_iff h).1.2 (.inl (by decide))⟩

/-- Brackets keep a blank that the form without them does not. -/
theorem blank_behind_a_bracket_is_lost :
    ofText "[ a]:1" = .ok ⟨" a", 1⟩ ∧ ofText (display ⟨" a", 1⟩) = .ok ⟨"a", 1⟩ ∧
      ofText "[ ]:1" = .ok ⟨" ", 1⟩ ∧
      ofText (display ⟨" ", 1⟩) = .error (.invalidHost " :1" .emptyHost) := by
  decide +kernel

end SessionVault.Endpoint
