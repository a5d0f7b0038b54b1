import SessionVault.Toml.Quoted

/-!
A string is read as it was written, whichever of the four forms the writer has chosen for it.
-/

namespace SessionVault.Toml

def Unquoted (s : List Char) : Prop := s.head? ≠ some '"' ∧ s.head? ≠ some '\''

namespace Form

variable {f : Form} {c : Char} {s w rest : List Char} {run : Nat}

theorem Unquoted.head?_ne_quote (h : Unquoted rest) (f : Form) : rest.head? ≠ some f.quote := by
  rw [quote]
  split
  · exact h.1
  · exact h.2

theorem quote_ne_newline (f : Form) : f.quote ≠ '\n' := by
  rw [quote]
  split <;> decide

theorem room_lt_length_delimiter (f : Form) : f.room < f.delimiter.length := by
  rw [room, delimiter, List.length_replicate]
  split <;> decide

theorem isPlain_quote (f : Form) : f.isPlain f.quote = true := by
  obtain ⟨escapes, lines⟩ := f
  cases escapes <;> cases lines <;> decide

theorem takeWhile_quote_of_head?_ne (h : s.head? ≠ some f.quote) :
    s.takeWhile (· == f.quote) = [] := by
  cases s with
  | nil => rfl
  | cons c rest =>
    have hc : (c == f.quote) = false := beq_eq_false_iff_ne.2 fun he => h (congrArg some he)
    rw [List.takeWhile_cons, hc]
    rfl

theorem close?_eq_none (h : (s.takeWhile (· == f.quote)).length < f.delimiter.length) :
    f.close? s = none := by
  rw [close?]
  exact if_pos h

theorem close?_of_ne (h : c ≠ f.quote) : f.close? (c :: rest) = none := by
  have hhead : (c :: rest).head? ≠ some f.quote := fun he => h (Option.some.inj he)
  apply close?_eq_none
  rw [takeWhile_quote_of_head?_ne hhead]
  exact Nat.lt_of_le_of_lt (Nat.zero_le _) f.room_lt_length_delimiter

theorem close?_replicate {n : Nat} (hn : n ≤ f.room) (h : rest.head? ≠ some f.quote) :
    f.close? (List.replicate n f.quote ++ (f.delimiter ++ rest)) =
      some (List.replicate n f.quote, rest) := by
  have hrun : ((List.replicate n f.quote ++ (f.delimiter ++ rest)).takeWhile
      (· == f.quote)).length = n + f.delimiter.length := by
    rw [← List.append_assoc, delimiter, List.replicate_append_replicate,
      List.takeWhile_append_of_pos, takeWhile_quote_of_head?_ne h]
    · simp
    · intro c hc
      simpa using (List.mem_replicate.1 hc).2
  have hnot : ¬ n + f.delimiter.length < f.delimiter.length := by omega
  have hown : min (n + f.delimiter.length - f.delimiter.length) f.room = n := by omega
  rw [close?, hrun]
  simp only [if_neg hnot, hown, Option.some.injEq, Prod.mk.injEq]
  constructor
  · exact List.take_left' (List.length_replicate ..)
  · rw [← List.append_assoc]
    exact List.drop_left' (by rw [List.length_append, List.length_replicate])

structure Unit (f : Form) (c : Char) (u : List Char) : Prop where
  read (rest : List Char) : f.read false (u ++ rest) = push (some c) (f.read false rest)
  head : ∃ x, u.head? = some x ∧ x ≠ f.quote ∧ x ≠ '\r' ∧ (x = '\n' → c = '\n')

/-- A way to write a text, after `run` quotes that stand for themselves. -/
inductive Spells (f : Form) : Nat → List Char → List Char → Prop where
  | nil (run : Nat) : Spells f run [] []
  | quote {run : Nat} {s w : List Char} : run < f.room → Spells f (run + 1) s w →
      Spells f run (f.quote :: s) (f.quote :: w)
  | unit {run : Nat} {c : Char} {s u w : List Char} : f.Unit c u → Spells f 0 s w →
      Spells f run (c :: s) (u ++ w)

theorem Spells.leading (h : f.Spells run s w) (hrun : run ≤ f.room) (tail : List Char) :
    (∃ n, s = List.replicate n f.quote ∧ w = s ∧ run + n ≤ f.room) ∨
      run + ((w ++ tail).takeWhile (· == f.quote)).length ≤ f.room := by
  induction h with
  | nil run => exact .inl ⟨0, rfl, rfl, hrun⟩
  | quote hlt _ ih =>
    rcases ih hlt with ⟨n, rfl, rfl, hn⟩ | hn
    · exact .inl ⟨n + 1, rfl, rfl, by omega⟩
    · refine .inr ?_
      simp only [List.cons_append, List.takeWhile_cons, BEq.rfl, if_true, List.length_cons]
      omega
  | @unit run c s u w hu _ _ =>
    refine .inr ?_
    obtain ⟨x, hx, hne, -⟩ := hu.head
    have hhead : (u ++ w ++ tail).head? ≠ some f.quote := by
      rw [List.append_assoc, List.head?_append, hx]
      exact fun he => hne (Option.some.inj he)
    rw [takeWhile_quote_of_head?_ne hhead]
    exact hrun

theorem read_plain (h : f.close? (c :: rest) = none) (hplain : f.isPlain c = true) :
    f.read false (c :: rest) = push (some c) (f.read false rest) := by
  have hslash : (f.escapes && c == '\\') = false := by
    rw [isPlain, Bool.and_eq_true, Bool.not_eq_true'] at hplain
    exact hplain.2
  have hreturn : (c == '\r') = false := by
    refine beq_eq_false_iff_ne.2 ?_
    rintro rfl
    simp [isPlain, isPrintable] at hplain
  rw [read.eq_def]
  simp [h, hslash, hreturn, hplain]

theorem close?_slash (hf : f.escapes = true) : f.close? ('\\' :: rest) = none := by
  apply close?_of_ne
  rw [quote, hf]
  decide

theorem read_slash {e : Char} (hf : f.escapes = true) (hend : endsLine (e :: rest) = false)
    (hu : e ≠ 'u') (hU : e ≠ 'U') :
    f.read false ('\\' :: e :: rest) = push (unescape? e) (f.read false rest) := by
  rw [read.eq_def]
  simp only [close?_slash hf, hf, hend, BEq.rfl, Bool.and_self, Bool.and_false, if_true,
    Bool.false_eq_true, if_false]
  split
  · next heq =>
    cases heq
    exact absurd rfl hu
  · next heq =>
    cases heq
    exact absurd rfl hU
  · next heq =>
    cases heq
    rfl
  · next heq => cases heq

theorem read_code {d₁ d₂ d₃ d₄ : Char} (hf : f.escapes = true) :
    f.read false ('\\' :: 'u' :: d₁ :: d₂ :: d₃ :: d₄ :: rest) =
      push (scalar? [d₁, d₂, d₃, d₄]) (f.read false rest) := by
  have hend : endsLine ('u' :: d₁ :: d₂ :: d₃ :: d₄ :: rest) = false := rfl
  rw [read.eq_2]
  simp only [close?_slash hf, hf, hend, BEq.rfl, Bool.and_self, Bool.and_false, if_true]
  rfl

theorem Unit.plain (hquote : c ≠ f.quote) (hplain : f.isPlain c = true) : f.Unit c [c] where
  read _ := read_plain (close?_of_ne hquote) hplain
  head := by
    refine ⟨c, rfl, hquote, ?_, id⟩
    rintro rfl
    simp [isPlain, isPrintable] at hplain

theorem Unit.slash {u : List Char} (hf : f.escapes = true)
    (hread : ∀ rest, f.read false ('\\' :: u ++ rest) = push (some c) (f.read false rest)) :
    f.Unit c ('\\' :: u) where
  read := hread
  head := by
    refine ⟨'\\', rfl, ?_, by decide, fun h => absurd h (by decide)⟩
    rw [quote, hf]
    decide

theorem Unit.escape {e : Char} (hf : f.escapes = true) (he : unescape? e = some c)
    (hend : ∀ rest, endsLine (e :: rest) = false) : f.Unit c ['\\', e] := by
  refine .slash hf fun rest => ?_
  have hu : e ≠ 'u' := by
    rintro rfl
    cases he
  have hU : e ≠ 'U' := by
    rintro rfl
    cases he
  rw [← he]
  exact read_slash hf (hend rest) hu hU

theorem hexValue?_upperHexDigit :
    ∀ n < 16, Octets.hexValue? (Octets.upperHexDigit n) = some n := by decide

theorem toNat_lt_of_not_isPrintable (h : isPrintable c = false) : c.toNat < 128 := by
  simp only [isPrintable, Bool.or_eq_false_iff, Bool.and_eq_false_iff, decide_eq_false_iff_not,
    bne_eq_false_iff_eq] at h
  omega

theorem scalar?_code (h : c.toNat < 128) :
    scalar? ['0', '0', Octets.upperHexDigit (c.toNat / 16), Octets.upperHexDigit (c.toNat % 16)] =
      some c := by
  have h0 : Octets.hexValue? '0' = some 0 := by decide
  have h1 := hexValue?_upperHexDigit (c.toNat / 16) (by omega)
  have h2 := hexValue?_upperHexDigit (c.toNat % 16) (by omega)
  have hn : (c.toNat / 16) * 16 + c.toNat % 16 = c.toNat := by omega
  have hvalid : c.toNat.isValidChar := c.valid
  simp [scalar?, h0, h1, h2, hn, hvalid]

theorem unit_escape (hf : f.escapes = true) (hquote : c ≠ f.quote) : f.Unit c (f.escape c) := by
  unfold Form.escape
  split
  · exact .escape hf rfl fun _ => rfl
  · split
    · next hl => exact .plain hquote (by simp [isPlain, hl])
    · exact .escape hf rfl fun _ => rfl
  · exact .escape hf rfl fun _ => rfl
  · exact .escape hf rfl fun _ => rfl
  · exact .escape hf rfl fun _ => rfl
  · exact .escape hf rfl fun _ => rfl
  · next hslash _ _ _ _ _ =>
    split
    · next hprintable =>
      exact .plain hquote (by simpa [isPlain, hprintable] using .inr hslash)
    · next hcontrol =>
      refine .slash hf fun rest => ?_
      have hlt := toNat_lt_of_not_isPrintable (Bool.not_eq_true _ ▸ hcontrol)
      rw [← scalar?_code hlt]
      exact read_code hf

theorem spells_escaped (hf : f.escapes = true) (run : Nat) (s : List Char) :
    f.Spells run s (f.escaped run s) := by
  induction s generalizing run with
  | nil => exact .nil run
  | cons c rest ih =>
    rw [escaped]
    by_cases hc : c = f.quote
    · subst hc
      rw [if_pos rfl]
      split
      · next hrun => exact .quote hrun (ih (run + 1))
      · have hquote : f.quote = '"' := by
          rw [quote, hf]
          rfl
        rw [hquote]
        have hunit : f.Unit '"' ['\\', '"'] := .escape hf rfl fun _ => rfl
        exact .unit hunit (ih 0)
    · rw [if_neg hc]
      exact .unit (unit_escape hf hc) (ih 0)

theorem spells_of_fits (h : f.fits run s = true) : f.Spells run s s := by
  induction s generalizing run with
  | nil => exact .nil run
  | cons c rest ih =>
    rw [fits] at h
    split at h
    · next hc =>
      subst hc
      rw [Bool.and_eq_true, decide_eq_true_eq] at h
      exact .quote h.1 (ih h.2)
    · next hc =>
      rw [Bool.and_eq_true] at h
      exact .unit (.plain hc h.1) (ih h.2)

theorem Spells.read (h : f.Spells run s w) (hrun : run ≤ f.room)
    (hrest : rest.head? ≠ some f.quote) :
    f.read false (w ++ (f.delimiter ++ rest)) = some (s, rest) := by
  have hend {n : Nat} (hn : n ≤ f.room) :
      f.read false (List.replicate n f.quote ++ (f.delimiter ++ rest)) =
        some (List.replicate n f.quote, rest) := by
    have hclose := close?_replicate hn hrest
    cases htext : List.replicate n f.quote ++ (f.delimiter ++ rest) with
    | nil =>
      have hlength := congrArg List.length htext
      have hpos := f.room_lt_length_delimiter
      simp only [List.length_append, List.length_nil] at hlength
      omega
    | cons c tail =>
      rw [htext] at hclose
      rw [read.eq_def]
      simp only [hclose]
  induction h with
  | nil run => exact hend (Nat.zero_le _)
  | quote hlt hs ih =>
    rcases (Spells.quote hlt hs).leading hrun (f.delimiter ++ rest) with ⟨n, hs, hw, hn⟩ | hn
    · rw [hw, hs]
      exact hend (by omega)
    · rw [List.cons_append, read_plain, ih hlt]
      · rfl
      · apply close?_eq_none
        have hlength := f.room_lt_length_delimiter
        rw [List.cons_append] at hn
        omega
      · exact f.isPlain_quote
  | unit hu _ ih =>
    rw [List.append_assoc, hu.read, ih (Nat.zero_le _)]
    rfl

def body (f : Form) (s : List Char) : List Char := if f.escapes then f.escaped 0 s else s

theorem spells_body (h : f.escapes = true ∨ f.fits 0 s = true) : f.Spells 0 s (f.body s) := by
  rw [body]
  split
  · next hf => exact spells_escaped hf 0 s
  · next hf => exact spells_of_fits (h.resolve_left hf)

theorem ofText_spec (s : List Char) :
    (ofText s).escapes = true ∨ (ofText s).fits 0 s = true := by
  simp only [ofText]
  cases hf : [basic, literal, basicLines, literalLines].find? fun f => f.fits 0 s with
  | none => exact .inl rfl
  | some f =>
    have hfits := List.find?_some hf
    exact .inr hfits

theorem newline?_eq_none {x : Char} (h : s.head? = some x) (hline : x ≠ '\n')
    (hreturn : x ≠ '\r') : newline? s = none := by
  cases s with
  | nil => cases h
  | cons c rest =>
    cases h
    unfold newline?
    split
    · next heq =>
      cases heq
      exact absurd rfl hline
    · next heq =>
      cases heq
      exact absurd rfl hreturn
    · rfl

theorem head?_delimiter (f : Form) : f.delimiter.head? = some f.quote := by
  rw [delimiter]
  split <;> rfl

theorem Spells.newline?_eq_none (h : f.Spells run s w) (hs : '\n' ∉ s) :
    newline? (w ++ (f.delimiter ++ rest)) = none := by
  have hreturn : f.quote ≠ '\r' := by
    rw [Form.quote]
    split <;> decide
  cases h with
  | nil =>
    refine Form.newline?_eq_none ?_ f.quote_ne_newline hreturn
    rw [List.nil_append, List.head?_append, head?_delimiter]
    rfl
  | quote => exact Form.newline?_eq_none rfl f.quote_ne_newline hreturn
  | @unit _ c s u w hu =>
    obtain ⟨x, hx, -, hxreturn, hxline⟩ := hu.head
    have hhead : (u ++ w ++ (f.delimiter ++ rest)).head? = some x := by
      rw [List.append_assoc, List.head?_append, hx]
      rfl
    refine Form.newline?_eq_none hhead (fun he => hs ?_) hxreturn
    rw [hxline he]
    exact List.mem_cons_self

theorem write_eq (f : Form) (s rest : List Char) :
    f.write s ++ rest = f.delimiter ++
      ((if f.lines && s.contains '\n' then ['\n'] else []) ++
        (f.body s ++ (f.delimiter ++ rest))) := by
  simp only [write, body, List.append_assoc]

theorem readBody_body (hs : f.escapes = true ∨ f.fits 0 s = true)
    (hrest : rest.head? ≠ some f.quote) :
    f.readBody ((if f.lines && s.contains '\n' then ['\n'] else []) ++
      (f.body s ++ (f.delimiter ++ rest))) = some (String.ofList s, rest) := by
  have hspells := spells_body hs
  have hread := hspells.read (Nat.zero_le _) hrest
  rw [readBody]
  cases hlines : f.lines with
  | false =>
    simp only [Bool.false_and, Bool.false_eq_true, if_false, List.nil_append, hread]
    rfl
  | true =>
    cases hline : s.contains '\n' with
    | true =>
      have hlead : newline? ('\n' :: (f.body s ++ (f.delimiter ++ rest))) =
          some (f.body s ++ (f.delimiter ++ rest)) := rfl
      simp only [Bool.and_self, if_true, List.cons_append, List.nil_append, hlead, Option.getD_some,
        hread]
      rfl
    | false =>
      have hnone : newline? (f.body s ++ (f.delimiter ++ rest)) = none := by
        refine hspells.newline?_eq_none fun hm => ?_
        rw [List.contains_iff_mem.2 hm] at hline
        cases hline
      simp only [Bool.and_false, Bool.false_eq_true, if_false, if_true, List.nil_append, hnone,
        Option.getD_none, hread]
      rfl

theorem Spells.ne_quotes (h : f.Spells run s w) (hlines : f.lines = false)
    (hrest : rest.head? ≠ some f.quote) (tail : List Char) :
    w ++ (f.delimiter ++ rest) ≠ f.quote :: f.quote :: tail := by
  have hdelimiter : f.delimiter = [f.quote] := by
    rw [delimiter, hlines]
    rfl
  intro he
  cases h with
  | nil =>
    rw [hdelimiter] at he
    cases he
    exact hrest rfl
  | quote hlt =>
    rw [room, hlines] at hlt
    cases hlt
  | unit hu =>
    obtain ⟨x, hx, hne, -⟩ := hu.head
    have hhead := congrArg List.head? he
    rw [List.append_assoc, List.head?_append, hx] at hhead
    exact hne (Option.some.inj hhead)

theorem readString_delimiter (f : Form) {s : List Char}
    (h : f.lines = true ∨ ∀ tail, s ≠ f.quote :: f.quote :: tail) :
    readString (f.delimiter ++ s) = f.readBody s := by
  obtain ⟨escapes, lines⟩ := f
  cases lines with
  | true => cases escapes <;> rfl
  | false =>
    have hne := h.resolve_left nofun
    cases escapes with
    | true =>
      show readString ('"' :: s) = basic.readBody s
      unfold readString
      split
      · next heq =>
        cases heq
        exact absurd rfl (hne _)
      · next heq => cases heq
      · rfl
    | false =>
      show readString ('\'' :: s) = literal.readBody s
      unfold readString
      split
      · next heq => cases heq
      · next heq =>
        cases heq
        exact absurd rfl (hne _)
      · rfl

end Form

theorem readString_writeString (s : String) {rest : List Char} (hrest : Unquoted rest) :
    readString (writeString s ++ rest) = some (s, rest) := by
  have hspec := Form.ofText_spec s.toList
  have hquote := Form.Unquoted.head?_ne_quote hrest (Form.ofText s.toList)
  have hbody := Form.readBody_body hspec hquote
  rw [String.ofList_toList] at hbody
  rw [writeString, Form.write_eq, Form.readString_delimiter, hbody]
  cases hlines : (Form.ofText s.toList).lines with
  | true => exact .inl rfl
  | false =>
    refine .inr fun tail => ?_
    rw [Bool.false_and]
    exact (Form.spells_body hspec).ne_quotes hlines hquote tail

theorem head?_writeString (s : String) :
    ∃ q, (writeString s).head? = some q ∧ (q = '"' ∨ q = '\'') := by
  refine ⟨(Form.ofText s.toList).quote, ?_, ?_⟩
  · simp only [writeString, Form.write, List.append_assoc, List.head?_append,
      Form.head?_delimiter, Option.some_or]
  · rw [Form.quote]
    split
    · exact .inl rfl
    · exact .inr rfl

end SessionVault.Toml
