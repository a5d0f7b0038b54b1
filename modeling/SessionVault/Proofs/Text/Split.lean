import SessionVault.Text.Split

namespace SessionVault.Text

variable {sep a b : Char} {s t before after : List Char} {parts : List (List Char)}

theorem splitFirst_append (h : sep ∉ before) :
    splitFirst sep (before ++ sep :: after) = some (before, after) := by
  induction before with
  | nil => simp [splitFirst]
  | cons c before ih =>
    simp only [List.mem_cons, not_or] at h
    simp [splitFirst, Ne.symm h.1, ih h.2]

theorem splitFirst_eq_none_iff : splitFirst sep s = none ↔ sep ∉ s := by
  induction s with
  | nil => simp [splitFirst]
  | cons c s ih => by_cases hc : c = sep <;> simp [splitFirst, hc, Ne.symm, ih]

theorem notMem_of_splitFirst (h : splitFirst sep s = some (before, after)) : sep ∉ before := by
  induction s generalizing before with
  | nil => simp [splitFirst] at h
  | cons c s ih =>
    rw [splitFirst] at h
    split at h
    · cases h
      simp
    · next hc =>
      obtain ⟨⟨b, a⟩, hp, e⟩ := Option.map_eq_some_iff.1 h
      cases e
      simp [Ne.symm hc, ih hp]

theorem splitLast_of_notMem (h : sep ∉ s) : splitLast sep s = none := by
  induction s with
  | nil => rfl
  | cons c s ih =>
    simp only [List.mem_cons, not_or] at h
    simp [splitLast, Ne.symm h.1, ih h.2]

theorem splitLast_append (h : sep ∉ after) :
    splitLast sep (before ++ sep :: after) = some (before, after) := by
  induction before with
  | nil => simp [splitLast, splitLast_of_notMem h]
  | cons c before ih => simp [splitLast, ih]

theorem splitMark_append (hab : a ≠ b) (h : ¬ [a, b] <:+: before) :
    splitMark a b (before ++ a :: b :: after) = some (before, after) := by
  induction before with
  | nil => simp [splitMark]
  | cons c before ih =>
    rw [List.infix_cons_iff, not_or] at h
    cases before with
    | nil => simp [splitMark, hab]
    | cons d before =>
      -- The mark could only be found here by its two characters, of which the text before is free.
      have hcd : ¬ (c = a ∧ d = b) := by
        rintro ⟨rfl, rfl⟩
        exact h.1 ⟨before, rfl⟩
      rw [List.cons_append, List.cons_append, splitMark, if_neg hcd, ← List.cons_append, ih h.2]
      rfl

theorem splitMark_eq_none_iff : splitMark a b s = none ↔ ¬ [a, b] <:+: s := by
  fun_induction splitMark a b s with
  | case1 => simp
  | case2 c => simp [List.infix_cons_iff]
  | case3 c d rest e => simp [e.1, e.2, List.infix_cons_iff]
  | case4 c d rest e ih =>
    have hfirst : ¬ [a, b] <+: c :: d :: rest := by
      simp only [List.cons_prefix_cons, List.nil_prefix, and_true]
      exact fun h => e ⟨h.1.symm, h.2.symm⟩
    have hrest : [a, b] <:+: c :: d :: rest ↔ [a, b] <:+: d :: rest :=
      List.infix_cons_iff.trans (or_iff_right hfirst)
    rw [Option.map_eq_none_iff, ih, hrest]

theorem not_infix_of_splitMark (h : splitMark a b s = some (before, after)) :
    ¬ [a, b] <:+: before := by
  fun_induction splitMark a b s generalizing before with
  | case1 => simp at h
  | case2 => simp at h
  | case3 => cases h; simp
  | case4 c d rest e ih =>
    obtain ⟨⟨p, q⟩, hp, he⟩ := Option.map_eq_some_iff.1 h
    cases he
    have hfirst : ¬ [a, b] <+: c :: p := by
      intro hpre
      obtain ⟨rfl, ⟨u, rfl⟩⟩ := List.cons_prefix_cons.1 hpre
      have hd := splitMark_eq_some hp
      exact e ⟨rfl, (List.cons_eq_cons.1 hd).1⟩
    rw [List.infix_cons_iff, not_or]
    exact ⟨hfirst, ih hp⟩

theorem suffix_of_splitMark (h : splitMark a b s = some (before, after))
    (ht : a :: b :: t <:+ s) : t <:+ after := by
  fun_induction splitMark a b s generalizing before with
  | case1 => simp at h
  | case2 => simp at h
  | case3 c d rest e =>
    cases h
    have hlength := ht.length_le
    simp only [List.length_cons] at hlength
    exact List.suffix_of_suffix_length_le
      ((List.suffix_append [a, b] t).trans ht) (List.suffix_append [c, d] after) (by omega)
  | case4 c d rest e ih =>
    obtain ⟨⟨p, q⟩, hp, he⟩ := Option.map_eq_some_iff.1 h
    cases he
    refine ih hp ((List.suffix_cons_iff.1 ht).resolve_left ?_)
    intro hs
    cases hs
    exact e ⟨rfl, rfl⟩

theorem splitAll_of_notMem (h : sep ∉ s) : splitAll sep s = [s] := by
  induction s with
  | nil => rfl
  | cons c rest ih =>
    rw [List.mem_cons, not_or] at h
    rw [splitAll, if_neg (Ne.symm h.1), ih h.2]

theorem exists_splitAll_cons {c : Char} (hc : c ≠ sep) (s : List Char) :
    ∃ part parts, splitAll sep s = part :: parts ∧
      splitAll sep (c :: s) = (c :: part) :: parts := by
  obtain ⟨part, parts, h⟩ := List.exists_cons_of_ne_nil (splitAll_ne_nil sep s)
  exact ⟨part, parts, h, by simp [splitAll, hc, h]⟩

theorem splitAll_append (s t : List Char) :
    splitAll sep (s ++ sep :: t) = splitAll sep s ++ splitAll sep t := by
  induction s with
  | nil => simp [splitAll]
  | cons c s ih =>
    by_cases hc : c = sep
    · simp [splitAll, hc, ih]
    · obtain ⟨part, parts, h, h'⟩ := exists_splitAll_cons hc s
      rw [h', List.cons_append, splitAll, if_neg hc, ih, h]
      rfl

theorem splitAll_intercalate (h : parts ≠ []) :
    splitAll sep ([sep].intercalate parts) = parts.flatMap (splitAll sep) := by
  induction parts with
  | nil => exact absurd rfl h
  | cons p parts ih =>
    cases parts with
    | nil => simp
    | cons q parts =>
      rw [List.intercalate_cons_cons, List.append_assoc, List.singleton_append, splitAll_append,
        ih (List.cons_ne_nil _ _)]
      simp only [List.flatMap_cons]

theorem notMem_of_mem_splitAll {p : List Char} (h : p ∈ splitAll sep s) : sep ∉ p := by
  induction s generalizing p with
  | nil => simp_all [splitAll]
  | cons c s ih =>
    by_cases hc : c = sep
    · rw [splitAll, if_pos hc, List.mem_cons] at h
      rcases h with rfl | h
      · exact List.not_mem_nil
      · exact ih h
    · obtain ⟨part, parts, hs, hcs⟩ := exists_splitAll_cons hc s
      rw [hs] at ih
      rw [hcs, List.mem_cons] at h
      rcases h with rfl | h
      · exact List.not_mem_cons_of_ne_of_not_mem (Ne.symm hc) (ih List.mem_cons_self)
      · exact ih (List.mem_cons_of_mem _ h)

theorem intercalate_splitAll (sep : Char) (s : List Char) :
    [sep].intercalate (splitAll sep s) = s := by
  induction s with
  | nil => rfl
  | cons c s ih =>
    by_cases hc : c = sep
    · obtain ⟨part, parts, hs⟩ := List.exists_cons_of_ne_nil (splitAll_ne_nil sep s)
      rw [splitAll, if_pos hc, hs, List.intercalate_cons_cons, ← hs, ih, hc]
      rfl
    · obtain ⟨part, parts, hs, hcs⟩ := exists_splitAll_cons hc s
      rw [hs] at ih
      rw [hcs, ← ih]
      cases parts <;> simp [List.intercalate_cons_cons]

/-- The parts of a text are the only ones without separators that make it up. -/
theorem splitAll_eq_iff : splitAll sep s = parts ↔
    parts ≠ [] ∧ (∀ p ∈ parts, sep ∉ p) ∧ [sep].intercalate parts = s := by
  constructor
  · rintro rfl
    exact ⟨splitAll_ne_nil sep s, fun p => notMem_of_mem_splitAll, intercalate_splitAll sep s⟩
  · rintro ⟨hne, hparts, rfl⟩
    have hsingle : ∀ p ∈ parts, splitAll sep p = [p] := fun p hp => splitAll_of_notMem (hparts p hp)
    rw [splitAll_intercalate hne, List.flatMap_def, List.map_congr_left hsingle, ← List.flatMap_def,
      List.flatMap_singleton']

end SessionVault.Text
