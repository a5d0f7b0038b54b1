import SessionVault.Proofs.Toml.Quoted
import SessionVault.Proofs.Toml.Scalar
import SessionVault.Toml.Reader

namespace SessionVault.Toml

variable {c : Char} {s tail rest : List Char} {v : Toml} {depth fuel : Nat}

structure Seen (c : Char) : Prop where
  space : isSpace c = false
  newline : c ≠ '\n'
  carriage : c ≠ '\r'
  hash : c ≠ '#'

theorem Seen.of_kind {p : Char → Bool} (hc : p c = true)
    (hp : p ' ' = false ∧ p '\t' = false ∧ p '\n' = false ∧ p '\r' = false ∧ p '#' = false) :
    Seen c := by
  have hne {d : Char} (hd : p d = false) : c ≠ d := by
    rintro rfl
    rw [hd] at hc
    cases hc
  obtain ⟨hblank, htab, hline, hreturn, hhash⟩ := hp
  refine ⟨?_, hne hline, hne hreturn, hne hhash⟩
  rw [isSpace, beq_eq_false_iff_ne.2 (hne hblank), beq_eq_false_iff_ne.2 (hne htab)]
  rfl

theorem Seen.skipSpaces (h : Seen c) (s : List Char) : skipSpaces (c :: s) = c :: s := by
  rw [Toml.skipSpaces, List.dropWhile_cons, h.space]
  rfl

theorem Seen.skipLines (h : Seen c) (s : List Char) : skipLines false (c :: s) = c :: s := by
  rw [skipLines.eq_4 _ _ _ h.newline fun _ hc _ => h.carriage hc, h.space]
  simp [h.hash]

theorem Seen.endLine? (h : Seen c) (s : List Char) : endLine? (c :: s) = none := by
  have hnewline : newline? (c :: s) = none := by
    apply newline?.eq_3
    · intro rest he
      exact h.newline (List.cons.inj he).1
    · intro rest he
      exact h.carriage (List.cons.inj he).1
  rw [endLine?.eq_def, h.skipSpaces]
  dsimp only
  split
  · next heq =>
    split at heq
    · next hhash => exact absurd (List.cons.inj hhash).1 h.hash
    · cases heq
  · split
    · next hhash => exact absurd (List.cons.inj hhash).1 h.hash
    · exact hnewline

/-- A value that is read as it was written, if so many arrays may be inside each other. -/
inductive Legible : Nat → Toml → Prop where
  | string {depth : Nat} (s : String) : Legible depth (.string s)
  | integer {depth : Nat} (n : Int64) : Legible depth (.integer n)
  | bool {depth : Nat} (b : Bool) : Legible depth (.bool b)
  | array {depth : Nat} {items : List Toml} : (∀ v ∈ items, Legible depth v) →
      Legible (depth + 1) (.array items)

def EndsValue (s : List Char) : Prop := ∃ c rest, s = c :: rest ∧ (c = '\n' ∨ c = ',' ∨ c = ']')

theorem EndsValue.unquoted (h : EndsValue rest) : Unquoted rest := by
  obtain ⟨c, tail, rfl, rfl | rfl | rfl⟩ := h <;> exact ⟨nofun, nofun⟩

theorem EndsValue.stops (h : EndsValue rest) : Stops isWordChar rest := by
  obtain ⟨c, tail, rfl, rfl | rfl | rfl⟩ := h <;>
    exact fun d hd => Option.some.inj hd ▸ rfl

def opensValue (c : Char) : Bool :=
  c == '"' || c == '\'' || c == '[' || Decimal.isDigit c || c == '-' || c == 't' || c == 'f'

theorem seen_of_opensValue (h : opensValue c = true) : Seen c :=
  .of_kind h ⟨rfl, rfl, rfl, rfl, rfl⟩

theorem head?_layOut (items : List (List Char)) : (layOut items).head? = some '[' := by
  unfold layOut
  split <;> rfl

theorem Legible.write_eq_cons (h : Legible depth v) :
    ∃ c tail, v.write = c :: tail ∧ opensValue c = true := by
  have hhead : ∃ c, v.write.head? = some c ∧ opensValue c = true := by
    cases h with
    | string s =>
      obtain ⟨q, hq, rfl | rfl⟩ := head?_writeString s <;> exact ⟨_, by rw [write, hq], rfl⟩
    | integer n =>
      obtain ⟨c, hc, hd | rfl⟩ := head?_signed n.toInt
      · exact ⟨c, by rw [write, hc], by simp [opensValue, hd]⟩
      · exact ⟨_, by rw [write, hc], rfl⟩
    | bool b => cases b <;> exact ⟨_, rfl, rfl⟩
    | array => exact ⟨_, by rw [write, head?_layOut], rfl⟩
  obtain ⟨c, hc, hopens⟩ := hhead
  obtain ⟨tail, htail⟩ := List.head?_eq_some_iff.1 hc
  exact ⟨c, tail, htail, hopens⟩

theorem readValue_word (hc : isWordChar c = true) :
    readValue (fuel + 1) depth (c :: s) = readScalar (c :: s) := by
  have hne {d : Char} {tail : List Char} (hd : isWordChar d = false) : c :: s ≠ d :: tail := by
    intro he
    rw [(List.cons.inj he).1, hd] at hc
    cases hc
  exact readValue.eq_8 _ _ _ (fun _ => hne rfl) (fun _ => hne rfl) (fun _ => hne rfl)
    fun _ => hne rfl

theorem readValue_writeString (s : String) (hrest : EndsValue rest) :
    readValue (fuel + 1) depth (writeString s ++ rest) = some (.string s, rest) := by
  have hread := readString_writeString s hrest.unquoted
  obtain ⟨q, hq, hquote⟩ := head?_writeString s
  obtain ⟨tail, htail⟩ := List.head?_eq_some_iff.1 hq
  rw [htail] at hread ⊢
  rcases hquote with rfl | rfl
  · rw [List.cons_append] at hread ⊢
    rw [readValue.eq_2, hread]
    rfl
  · rw [List.cons_append] at hread ⊢
    rw [readValue.eq_3, hread]
    rfl

theorem readValue_signed (n : Int64) (hrest : EndsValue rest) :
    readValue (fuel + 1) depth (Decimal.signed n.toInt ++ rest) = some (.integer n, rest) := by
  have hread := readScalar_signed n hrest.stops
  obtain ⟨c, hc, hkind⟩ := head?_signed n.toInt
  obtain ⟨tail, htail⟩ := List.head?_eq_some_iff.1 hc
  have hword : isWordChar c = true := by
    rcases hkind with hdigit | rfl
    · exact isWordChar_of_isDigit hdigit
    · rfl
  rw [htail] at hread ⊢
  rw [List.cons_append] at hread ⊢
  rw [readValue_word hword, hread]

theorem readValue_writeBool (b : Bool) (hrest : EndsValue rest) :
    readValue (fuel + 1) depth (writeBool b ++ rest) = some (.bool b, rest) := by
  have hread := readScalar_writeBool b hrest.stops
  cases b with
  | true => exact (readValue_word rfl).trans hread
  | false => exact (readValue_word rfl).trans hread

def itemLines (items : List Toml) : List Char :=
  items.flatMap fun v => [' ', ' ', ' ', ' '] ++ v.write ++ [',', '\n']

theorem writeItems_eq_map (items : List Toml) : writeItems items = items.map write := by
  induction items with
  | nil => rfl
  | cons v items ih => rw [writeItems, ih, List.map_cons]

theorem write_array (items : List Toml) :
    (Toml.array items).write =
      match items with
      | [] => ['[', ']']
      | [v] => '[' :: v.write ++ [']']
      | items => '[' :: '\n' :: itemLines items ++ [']'] := by
  rw [write, writeItems_eq_map]
  match items with
  | [] => rfl
  | [v] => rfl
  | v :: w :: items =>
    show '[' :: '\n' :: ((v :: w :: items).map write).flatMap _ ++ [']'] = _
    rw [List.flatMap_map]
    rfl

def ReadBack (depth : Nat) (items : List Toml) : Prop :=
  ∀ v ∈ items, ∀ fuel rest, 2 * v.write.length ≤ fuel → EndsValue rest →
    readValue fuel depth (v.write ++ rest) = some (v, rest)

theorem seen_comma : Seen ',' := ⟨rfl, by decide, by decide, by decide⟩

theorem seen_bracket : Seen ']' := ⟨rfl, by decide, by decide, by decide⟩

theorem readItems_single (h : ReadBack depth [v]) (hfuel : 2 * v.write.length < fuel) :
    readItems fuel depth (v.write ++ ']' :: rest) = some ([v], rest) := by
  obtain ⟨fuel, rfl⟩ : ∃ n, fuel = n + 1 := ⟨fuel - 1, by omega⟩
  have hclose : EndsValue (']' :: rest) := ⟨_, _, rfl, .inr (.inr rfl)⟩
  have hv := h v List.mem_cons_self fuel (']' :: rest) (by omega) hclose
  rw [readItems.eq_2, hv]
  dsimp only
  rw [seen_bracket.skipLines]
  rfl

theorem readItems_last (hv : readValue fuel depth s = some (v, ',' :: tail))
    (hs : skipLines false tail = ']' :: rest) :
    readItems (fuel + 1) depth s = some ([v], rest) := by
  rw [readItems.eq_2, hv]
  simp only [seen_comma.skipLines, hs]

theorem readItems_next {next : List Char} (hv : readValue fuel depth s = some (v, ',' :: tail))
    (hs : skipLines false tail = next) (hnext : ∀ rest, next ≠ ']' :: rest) :
    readItems (fuel + 1) depth s = (readItems fuel depth next).map fun p => (v :: p.1, p.2) := by
  rw [readItems.eq_2, hv]
  simp only [seen_comma.skipLines, hs]

theorem Legible.write_append_ne (hv : Legible depth v) (s rest : List Char) :
    v.write ++ s ≠ ']' :: rest := by
  obtain ⟨c, tail, hwrite, hopens⟩ := hv.write_eq_cons
  rw [hwrite]
  intro he
  rw [(List.cons.inj he).1] at hopens
  cases hopens

theorem itemLines_cons (v : Toml) (items : List Toml) :
    itemLines (v :: items) =
      [' ', ' ', ' ', ' '] ++ (v.write ++ ',' :: '\n' :: itemLines items) := by
  simp [itemLines]

theorem length_itemLines_cons (v : Toml) (items : List Toml) :
    (itemLines (v :: items)).length = v.write.length + (itemLines items).length + 6 := by
  rw [itemLines_cons]
  simp only [List.length_append, List.length_cons, List.length_nil]
  omega

theorem skipLines_itemLines (hv : Legible depth v) (items : List Toml) (s : List Char) :
    skipLines false ('\n' :: (itemLines (v :: items) ++ s)) =
      v.write ++ ',' :: '\n' :: (itemLines items ++ s) := by
  obtain ⟨c, tail, hwrite, hopens⟩ := hv.write_eq_cons
  rw [itemLines_cons, hwrite, List.append_assoc, List.append_assoc]
  exact (seen_of_opensValue hopens).skipLines _

theorem readItems_lines {items : List Toml} (hl : ∀ w ∈ v :: items, Legible depth w)
    (h : ReadBack depth (v :: items))
    (hfuel : 2 * (v.write.length + (itemLines items).length) < fuel) :
    readItems fuel depth (v.write ++ ',' :: '\n' :: (itemLines items ++ ']' :: rest)) =
      some (v :: items, rest) := by
  have hcomma (s : List Char) : EndsValue (',' :: s) := ⟨_, _, rfl, .inr (.inl rfl)⟩
  -- On the items that are left; the one in front of them has been found already.
  induction items generalizing v fuel with
  | nil =>
    obtain ⟨fuel, rfl⟩ : ∃ n, fuel = n + 1 := ⟨fuel - 1, by omega⟩
    exact readItems_last (h v List.mem_cons_self fuel _ (by omega) (hcomma _))
      (seen_bracket.skipLines rest)
  | cons w items ih =>
    obtain ⟨fuel, rfl⟩ : ∃ n, fuel = n + 1 := ⟨fuel - 1, by omega⟩
    rw [length_itemLines_cons] at hfuel
    have hw : Legible depth w := hl w (List.mem_cons_of_mem _ List.mem_cons_self)
    have hrest : readItems fuel depth
        (w.write ++ ',' :: '\n' :: (itemLines items ++ ']' :: rest)) = some (w :: items, rest) := by
      apply ih (fun x hx => hl x (List.mem_cons_of_mem _ hx))
        (fun x hx => h x (List.mem_cons_of_mem _ hx))
      omega
    rw [readItems_next (h v List.mem_cons_self fuel _ (by omega) (hcomma _))
      (skipLines_itemLines hw items _) (hw.write_append_ne _), hrest]
    rfl

theorem readValue_bracket {next : List Char} (hs : skipLines false s = next)
    (hnext : ∀ rest, next ≠ ']' :: rest) :
    readValue (fuel + 1) (depth + 1) ('[' :: s) =
      (readItems fuel depth next).map fun p => (.array p.1, p.2) := by
  rw [readValue.eq_5]
  simp only [hs]

theorem readValue_array {items : List Toml} (hl : ∀ w ∈ items, Legible depth w)
    (h : ReadBack depth items) (hfuel : 2 * (Toml.array items).write.length ≤ fuel + 1) :
    readValue (fuel + 1) (depth + 1) ((Toml.array items).write ++ rest) =
      some (.array items, rest) := by
  rw [write_array] at hfuel ⊢
  match items, hl, h with
  | [], _, _ =>
    rw [List.cons_append, readValue.eq_5]
    simp only [List.cons_append, List.nil_append, seen_bracket.skipLines]
  | [v], hl, h =>
    have hv : Legible depth v := hl v List.mem_cons_self
    obtain ⟨c, tail, hwrite, hopens⟩ := hv.write_eq_cons
    have hskip : skipLines false (v.write ++ ']' :: rest) = v.write ++ ']' :: rest := by
      rw [hwrite]
      exact (seen_of_opensValue hopens).skipLines _
    have htext : '[' :: v.write ++ [']'] ++ rest = '[' :: (v.write ++ ']' :: rest) := by simp
    simp only [List.length_append, List.length_cons, List.length_nil] at hfuel
    show readValue _ _ ('[' :: v.write ++ [']'] ++ rest) = _
    rw [htext, readValue_bracket hskip (hv.write_append_ne _), readItems_single h (by omega)]
    rfl
  | v :: w :: items, hl, h =>
    have hv : Legible depth v := hl v List.mem_cons_self
    have htext : '[' :: '\n' :: itemLines (v :: w :: items) ++ [']'] ++ rest =
        '[' :: '\n' :: (itemLines (v :: w :: items) ++ ']' :: rest) := by simp
    simp only [List.length_append, List.length_cons, List.length_nil,
      length_itemLines_cons v] at hfuel
    show readValue _ _ ('[' :: '\n' :: itemLines (v :: w :: items) ++ [']'] ++ rest) = _
    rw [htext, readValue_bracket (skipLines_itemLines hv (w :: items) _) (hv.write_append_ne _),
      readItems_lines hl h (by omega)]
    rfl

theorem Legible.length_pos (hv : Legible depth v) : 0 < v.write.length := by
  obtain ⟨c, tail, hwrite, -⟩ := hv.write_eq_cons
  rw [hwrite]
  exact Nat.succ_pos _

theorem readValue_write (hv : Legible depth v) (hfuel : 2 * v.write.length ≤ fuel)
    (hrest : EndsValue rest) : readValue fuel depth (v.write ++ rest) = some (v, rest) := by
  induction hv generalizing fuel rest with
  | @string depth s =>
    have hpos := (Legible.string s : Legible depth _).length_pos
    obtain ⟨fuel, rfl⟩ : ∃ n, fuel = n + 1 := ⟨fuel - 1, by omega⟩
    exact readValue_writeString s hrest
  | @integer depth n =>
    have hpos := (Legible.integer n : Legible depth _).length_pos
    obtain ⟨fuel, rfl⟩ : ∃ n, fuel = n + 1 := ⟨fuel - 1, by omega⟩
    exact readValue_signed n hrest
  | @bool depth b =>
    have hpos := (Legible.bool b : Legible depth _).length_pos
    obtain ⟨fuel, rfl⟩ : ∃ n, fuel = n + 1 := ⟨fuel - 1, by omega⟩
    exact readValue_writeBool b hrest
  | array hl ih =>
    have hpos := (Legible.array hl).length_pos
    obtain ⟨fuel, rfl⟩ : ∃ n, fuel = n + 1 := ⟨fuel - 1, by omega⟩
    exact readValue_array hl (fun w hw fuel rest hfuel hrest => ih w hw hfuel hrest) hfuel

end SessionVault.Toml
