import SessionVault.Calendar.Timestamp
import SessionVault.Proofs.Calendar.Date
import SessionVault.Proofs.Decimal.Padded
import SessionVault.Proofs.Text.Trim

namespace SessionVault.Instant

open Decimal Calendar Text

theorem takeWhile_digits {ds r : List Char} (hd : ∀ c ∈ ds, isDigit c = true)
    (hr : ∀ c ∈ r.head?, isDigit c = false) : (ds ++ r).takeWhile isDigit = ds := by
  rw [List.takeWhile_append_of_pos hd]
  cases r with
  | nil => simp
  | cons c r => simp [hr c rfl]

theorem padded_ne_nil (w n : Nat) : padded w n ≠ [] := by
  simp [padded, numeral_ne_nil]

theorem isDigit_head_padded {w n : Nat} {rest s : List Char} {c : Char}
    (h : padded w n ++ rest = c :: s) : isDigit c = true := by
  cases hp : padded w n with
  | nil => exact absurd hp (padded_ne_nil w n)
  | cons d t =>
    rw [hp] at h
    cases h
    exact isDigit_padded w n c (hp ▸ List.mem_cons_self)

theorem trimStart_padded (w n : Nat) (rest : List Char) :
    trimStart (padded w n ++ rest) = padded w n ++ rest := by
  cases hp : padded w n with
  | nil => exact absurd hp (padded_ne_nil w n)
  | cons c s =>
    have := isDigit_padded w n c (hp ▸ List.mem_cons_self)
    exact trimStart_cons (isBlank_of_isDigit this) _

theorem readNumber_padded {w n : Nat} (hw : 0 < w) (h : n < Nat.pow 10 w) (rest : List Char) :
    readNumber w (padded w n ++ rest) = some (n, rest) := by
  have hl := length_padded hw h
  have ht : (padded w n ++ rest).take w = padded w n := by
    rw [List.take_append_of_le_length (by omega), List.take_of_length_le (by omega)]
  have hd : (padded w n).takeWhile isDigit = padded w n := by
    simpa using takeWhile_digits (r := []) (isDigit_padded w n) (by simp)
  have hr : (padded w n ++ rest).drop w = rest := by
    rw [List.drop_append_of_le_length (by omega), List.drop_of_length_le (by omega)]
    rfl
  simp [readNumber, trimStart_padded, ht, hd, padded_ne_nil, hl, hr]

theorem digitRun_padded {c : Char} (hc : isDigit c = false) (w n : Nat) (rest : List Char) :
    readYear.digitRun (padded w n ++ c :: rest) = some (n, c :: rest) := by
  have ht : (padded w n ++ c :: rest).takeWhile isDigit = padded w n :=
    takeWhile_digits (isDigit_padded w n) (by simp [hc])
  simp [readYear.digitRun, ht, padded_ne_nil]

theorem readYear_yearText (year : Int) {c : Char} (hc : isDigit c = false) (rest : List Char) :
    readYear (yearText year ++ c :: rest) = some (year, c :: rest) := by
  unfold yearText
  split
  · next hy =>
    have hlt : year.toNat < Nat.pow 10 4 := by
      have : Nat.pow 10 4 = 10000 := rfl
      omega
    have hr := readNumber_padded (by decide) hlt (c :: rest)
    have hv : (year.toNat : Int) = year := by omega
    unfold readYear
    rw [trimStart_padded]
    split
    · next heq => exact absurd (isDigit_head_padded heq) (by decide)
    · next heq => exact absurd (isDigit_head_padded heq) (by decide)
    · simp [hr, hv]
  · next hy =>
    split
    · next hneg =>
      obtain ⟨n, rfl⟩ : ∃ n : Nat, year = -(n : Int) := ⟨year.natAbs, by omega⟩
      rw [Int.natAbs_neg, Int.natAbs_natCast]
      simp [readYear, trimStart_cons (c := '-') (by decide), digitRun_padded hc 4 n rest]
    · next hneg =>
      obtain ⟨n, rfl⟩ : ∃ n : Nat, year = (n : Int) := ⟨year.natAbs, by omega⟩
      rw [Int.natAbs_natCast]
      simp [readYear, trimStart_cons (c := '+') (by decide), digitRun_padded hc 4 n rest]

theorem readSign_cons {c : Char} (h : isBlank c = false) (rest : List Char) :
    readSign c (c :: rest) = some rest := by
  simp [readSign, trimStart_cons h]

theorem readFraction_digits {w n : Nat} (hw : 0 < w ∧ w ≤ 9) (h : n < Nat.pow 10 w)
    (rest : List Char) {c : Char} (hc : isDigit c = false) :
    readFraction ('.' :: (padded w n ++ c :: rest)) =
      some (n * Nat.pow 10 (9 - w), c :: rest) := by
  have ht : (padded w n ++ c :: rest).takeWhile isDigit = padded w n :=
    takeWhile_digits (isDigit_padded w n) (by simp [hc])
  have hl := length_padded hw.1 h
  have hk : (padded w n).take 9 = padded w n := List.take_of_length_le (by omega)
  simp [readFraction, ht, padded_ne_nil, hk, hl]

theorem readFraction_fractionText {nanos : Nat} (h : nanos < 1000000000) :
    readFraction (fractionText nanos ++ ['Z']) = some (nanos, ['Z']) := by
  have h9 : Nat.pow 10 9 = 1000000000 := rfl
  have h6 : Nat.pow 10 6 = 1000000 := rfl
  have h3 : Nat.pow 10 3 = 1000 := rfl
  unfold fractionText
  split
  · next hz => subst hz; rfl
  split
  · next hm =>
    rw [List.cons_append, readFraction_digits (by decide) (by omega) [] (by decide)]
    simp; omega
  split
  · next hm =>
    rw [List.cons_append, readFraction_digits (by decide) (by omega) [] (by decide)]
    simp; omega
  · rw [List.cons_append, readFraction_digits (by decide) (by omega) [] (by decide)]
    simp

theorem readDate_chars (d : Date) (rest : List Char) :
    readDate (yearText d.year ++ '-' :: (padded 2 d.month ++ '-' :: (padded 2 d.day ++ rest))) =
      some (d, rest) := by
  have h2 : Nat.pow 10 2 = 100 := rfl
  have hm := d.month_valid
  have hd := d.day_le
  simp [readDate, readYear_yearText d.year (c := '-') (by decide),
    readSign_cons (c := '-') (by decide),
    readNumber_padded (w := 2) (n := d.month) (by decide) (by omega),
    readNumber_padded (w := 2) (n := d.day) (by decide) (by omega), Date.of?_eq_some]

theorem readTime_chars (hour minute second nanos : Nat) (hh : hour < 24) (hm : minute < 60)
    (hs : second ≤ 60) (hn : nanos < 1000000000) :
    readTime (padded 2 hour ++ ':' :: (padded 2 minute ++ ':' :: (padded 2 second ++
      (fractionText nanos ++ ['Z'])))) =
      some (if second = 60 then (hour * 3600 + minute * 60 + 59, nanos + 1000000000, ['Z'])
        else (hour * 3600 + minute * 60 + second, nanos, ['Z'])) := by
  have h2 : Nat.pow 10 2 = 100 := rfl
  simp [readTime, readSign_cons (c := ':') (by decide),
    readNumber_padded (w := 2) (n := hour) (by decide) (by omega),
    readNumber_padded (w := 2) (n := minute) (by decide) (by omega),
    readNumber_padded (w := 2) (n := second) (by decide) (by omega),
    readFraction_fractionText hn, hh, hm, hs]
  split <;> rfl

theorem year_range (d : Date) (h : -96465292 ≤ d.number) (h' : d.number < 95026237) :
    -262143 ≤ d.year ∧ d.year ≤ 262142 := by
  have hd := d.day_of_year_le
  have hlow : daysBeforeYear (-262144) = -95746496 := by decide
  have hhigh : daysBeforeYear 262143 = 95745399 := by decide
  unfold Date.number epoch at h h'
  constructor
  · refine Int.not_lt.1 fun hlt => ?_
    have := daysBeforeYear_le (show d.year ≤ -262144 by omega)
    omega
  · refine Int.not_lt.1 fun hlt => ?_
    have := daysBeforeYear_le (show 262143 ≤ d.year by omega)
    omega

theorem of?_eq_some {t : Instant} {seconds : Int} {nanos : Nat} (hs : seconds = t.seconds)
    (hn : nanos = t.nanos) : of? seconds nanos = some t := by
  subst hs hn
  exact dif_pos ⟨t.nanos_valid, t.inRange⟩

theorem readOffset_utc : readOffset ['Z'] = some (0, []) := by decide

theorem ofChars?_eq {input rest : List Char} {d : Date} {clock nanos : Nat}
    (hd : readDate input = some (d, 'T' :: rest)) (ht : readTime rest = some (clock, nanos, ['Z']))
    (hy : -262143 ≤ d.year ∧ d.year ≤ 262142) :
    ofChars? input = of? (d.number * 86400 + clock) nanos := by
  have hz : trimStart ['Z'] = ['Z'] := by decide
  have hend : trimStart [] = [] := rfl
  simp [ofChars?, hd, ht, hz, readOffset_utc, hend, hy]

theorem ofChars?_chars (t : Instant) : ofChars? t.chars = some t := by
  obtain ⟨d, hc, hn⟩ := exists_date_civil (t.seconds / 86400)
  have hr := t.inRange
  have hv := t.nanos_valid
  have hy := year_range d (by omega) (by omega)
  have ht := readTime_chars ((t.seconds % 86400).toNat / 3600) ((t.seconds % 86400).toNat / 60 % 60)
    ((t.seconds % 86400).toNat % 60 + t.nanos / 1000000000) (t.nanos % 1000000000)
    (by omega) (by omega) (by omega) (by omega)
  have hd : readDate t.chars = some (d, 'T' :: (padded 2 ((t.seconds % 86400).toNat / 3600) ++
      ':' :: (padded 2 ((t.seconds % 86400).toNat / 60 % 60) ++
        ':' :: (padded 2 ((t.seconds % 86400).toNat % 60 + t.nanos / 1000000000) ++
          (fractionText (t.nanos % 1000000000) ++ ['Z']))))) := by
    rw [← readDate_chars d]
    unfold chars
    rw [hc]
    simp only [List.append_assoc, List.cons_append]
  split at ht
  · next hs =>
    rw [ofChars?_eq hd ht hy]
    apply of?_eq_some
    · omega
    · omega
  · next hs =>
    rw [ofChars?_eq hd ht hy]
    apply of?_eq_some
    · omega
    · omega

theorem ofText?_text (t : Instant) : ofText? t.text = some t := by
  simp [ofText?, text, ofChars?_chars]

end SessionVault.Instant
