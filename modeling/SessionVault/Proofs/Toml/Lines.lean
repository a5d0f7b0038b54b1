import SessionVault.Proofs.Toml.Reader

namespace SessionVault.Toml

variable {c : Char} {s rest : List Char} {v : Toml} {e : Expression} {fuel : Nat}

def opensName (c : Char) : Bool := isBare c || c == '"'

theorem seen_of_opensName (h : opensName c = true) : Seen c :=
  .of_kind h ⟨rfl, rfl, rfl, rfl, rfl⟩

theorem writeName_eq_cons (name : String) :
    ∃ c tail, writeName name = c :: tail ∧ opensName c = true := by
  rw [writeName]
  split
  · next h =>
    cases hs : name.toList with
    | nil => exact absurd (String.toList_eq_nil_iff.1 hs) h.1
    | cons c tail =>
      have hc : isBare c = true := List.all_eq_true.1 h.2 c (hs ▸ List.mem_cons_self)
      exact ⟨c, tail, rfl, by simp [opensName, hc]⟩
  · exact ⟨'"', _, rfl, rfl⟩

def EndsName (s : List Char) : Prop := ∃ c rest, s = c :: rest ∧ (c = ' ' ∨ c = '.' ∨ c = ']')

theorem EndsName.stops (h : EndsName rest) : Stops isBare rest := by
  obtain ⟨c, tail, rfl, rfl | rfl | rfl⟩ := h <;>
    exact fun d hd => Option.some.inj hd ▸ rfl

theorem EndsName.head?_ne_quote (h : EndsName rest) : rest.head? ≠ some Form.basic.quote := by
  obtain ⟨c, tail, rfl, rfl | rfl | rfl⟩ := h <;> exact nofun

theorem readName_bare {name : String} (hne : name ≠ "") (hbare : name.toList.all isBare = true)
    (hrest : Stops isBare rest) : readName (name.toList ++ rest) = some (name, rest) := by
  have hquote {q : Char} {tail : List Char} (hq : isBare q = false) :
      name.toList ++ rest ≠ q :: tail := by
    intro he
    cases hs : name.toList with
    | nil => exact hne (String.toList_eq_nil_iff.1 hs)
    | cons c w =>
      rw [hs] at hbare he
      have hc := List.all_eq_true.1 hbare c List.mem_cons_self
      rw [(List.cons.inj he).1, hq] at hc
      cases hc
  rw [readName.eq_3 _ (fun _ => hquote rfl) (fun _ => hquote rfl),
    takeWhile_append_stop hbare hrest, if_neg (mt String.toList_eq_nil_iff.1 hne),
    String.ofList_toList, List.drop_left]

theorem readName_quoted (name : String) (hrest : rest.head? ≠ some Form.basic.quote) :
    readName (Form.basic.write name.toList ++ rest) = some (name, rest) := by
  have hread := Form.readBody_body (f := Form.basic) (s := name.toList) (.inl rfl) hrest
  rw [String.ofList_toList] at hread
  rw [Form.write_eq]
  exact hread

theorem readName_writeName (name : String) (hrest : EndsName rest) :
    readName (writeName name ++ rest) = some (name, rest) := by
  rw [writeName]
  split
  · next h => exact readName_bare h.1 h.2 hrest.stops
  · exact readName_quoted name hrest.head?_ne_quote

theorem skipSpaces_writeName (name : String) (s : List Char) :
    skipSpaces (writeName name ++ s) = writeName name ++ s := by
  obtain ⟨c, tail, hwrite, hopens⟩ := writeName_eq_cons name
  rw [hwrite]
  exact (seen_of_opensName hopens).skipSpaces _

theorem readNames_last (name : String) (hrest : EndsName rest)
    (hpoint : ∀ tail, skipSpaces rest ≠ '.' :: tail) :
    readNames (fuel + 1) (writeName name ++ rest) = some (⟨[], name⟩, skipSpaces rest) := by
  rw [readNames.eq_2, skipSpaces_writeName, readName_writeName name hrest]
  simp only

theorem readNames_point (name : String) (s : List Char) :
    readNames (fuel + 1) (writeName name ++ '.' :: s) =
      (readNames fuel s).map fun p => (⟨name :: p.1.path, p.1.name⟩, p.2) := by
  have hpoint : EndsName ('.' :: s) := ⟨_, _, rfl, .inr (.inl rfl)⟩
  have hskip : skipSpaces ('.' :: s) = '.' :: s := rfl
  rw [readNames.eq_2, skipSpaces_writeName, readName_writeName name hpoint]
  simp only [hskip]

theorem writeNames_cons (name : String) {names : List String} (h : names ≠ []) :
    writeNames (name :: names) = writeName name ++ '.' :: writeNames names := by
  cases names with
  | nil => exact absurd rfl h
  | cons => rfl

theorem readNames_writeNames {path : List String} (name : String) (hrest : EndsName rest)
    (hpoint : ∀ tail, skipSpaces rest ≠ '.' :: tail) (hfuel : path.length < fuel) :
    readNames fuel (writeNames (path ++ [name]) ++ rest) =
      some (⟨path, name⟩, skipSpaces rest) := by
  obtain ⟨fuel, rfl⟩ : ∃ n, fuel = n + 1 := ⟨fuel - 1, by omega⟩
  induction path generalizing fuel with
  | nil => exact readNames_last name hrest hpoint
  | cons first path ih =>
    rw [List.length_cons] at hfuel
    obtain ⟨fuel, rfl⟩ : ∃ n, fuel = n + 1 := ⟨fuel - 1, by omega⟩
    have hne : path ++ [name] ≠ [] := by simp
    rw [List.cons_append, writeNames_cons first hne, List.append_assoc, List.cons_append,
      readNames_point, ih fuel (by omega)]
    rfl

def Key.Legible (k : Key) : Prop := k.path.length < maxDepth

theorem Key.write_eq_cons (k : Key) : ∃ c tail, k.write = c :: tail ∧ opensName c = true := by
  obtain ⟨path, name⟩ := k
  show ∃ c tail, writeNames (path ++ [name]) = c :: tail ∧ _
  cases path with
  | nil => exact writeName_eq_cons name
  | cons first path =>
    obtain ⟨c, tail, hwrite, hopens⟩ := writeName_eq_cons first
    have hne : path ++ [name] ≠ [] := by simp
    exact ⟨c, _, by rw [List.cons_append, writeNames_cons first hne, hwrite]; rfl, hopens⟩

theorem Key.write_append_ne (k : Key) (s tail : List Char) : k.write ++ s ≠ '[' :: tail := by
  obtain ⟨c, w, hwrite, hopens⟩ := k.write_eq_cons
  rw [hwrite]
  intro he
  rw [(List.cons.inj he).1] at hopens
  cases hopens

theorem readKey_write {k : Key} (hk : k.Legible) (hrest : EndsName rest)
    (hpoint : ∀ tail, skipSpaces rest ≠ '.' :: tail) :
    readKey (k.write ++ rest) = some (k, skipSpaces rest) :=
  readNames_writeNames k.name hrest hpoint hk

theorem readAssignment_write {k : Key} (hk : k.Legible) (hv : Legible maxDepth v) :
    readAssignment (k.write ++ ' ' :: '=' :: ' ' :: (v.write ++ rest)) =
      some (k, v.write ++ rest) := by
  have hspaces : skipSpaces (' ' :: '=' :: ' ' :: (v.write ++ rest)) =
      '=' :: ' ' :: (v.write ++ rest) := rfl
  have hvalue : skipSpaces (' ' :: (v.write ++ rest)) = v.write ++ rest := by
    obtain ⟨c, tail, hwrite, hopens⟩ := hv.write_eq_cons
    rw [hwrite]
    exact (seen_of_opensValue hopens).skipSpaces _
  have hend : EndsName (' ' :: '=' :: ' ' :: (v.write ++ rest)) := ⟨_, _, rfl, .inl rfl⟩
  rw [readAssignment, readKey_write hk hend (by rw [hspaces]; exact nofun), hspaces]
  simp only [hvalue]

theorem readHead_write {k : Key} (hk : k.Legible) (close : List Char) :
    readHead (']' :: close) (k.write ++ (']' :: close ++ rest)) = some (k, rest) := by
  have hspaces : skipSpaces (']' :: close ++ rest) = ']' :: close ++ rest :=
    seen_bracket.skipSpaces _
  have hend : EndsName (']' :: close ++ rest) := ⟨_, _, rfl, .inr (.inr rfl)⟩
  rw [readHead, readKey_write hk hend (by rw [hspaces]; exact nofun), hspaces]
  simp only [List.isPrefixOf_iff_prefix.2 (List.prefix_append _ _), if_true, List.drop_left]

def Expression.Legible : Expression → Prop
  | .pair key v => key.Legible ∧ Toml.Legible maxDepth v
  | .header key => key.Legible
  | .element key => key.Legible

theorem readExpression_write (he : e.Legible) :
    readExpression (e.write ++ rest) = some (e, '\n' :: rest) := by
  cases e with
  | pair key v =>
    have htext : (Expression.pair key v).write ++ rest =
        key.write ++ ' ' :: '=' :: ' ' :: (v.write ++ '\n' :: rest) := by
      simp [Expression.write]
    have hopen (tail : List Char) := key.write_append_ne
      (' ' :: '=' :: ' ' :: (v.write ++ '\n' :: rest)) tail
    have hfuel : 2 * v.write.length ≤ 2 * (v.write ++ '\n' :: rest).length + 2 := by
      rw [List.length_append]
      omega
    rw [htext, readExpression.eq_3 _ (fun _ => hopen _) hopen, readAssignment_write he.1 he.2]
    simp only [readValue_write he.2 hfuel ⟨_, _, rfl, .inl rfl⟩]
    rfl
  | header key =>
    have htext : (Expression.header key).write ++ rest =
        '[' :: (key.write ++ ([']'] ++ '\n' :: rest)) := by
      simp [Expression.write]
    rw [htext, readExpression.eq_2 _ (key.write_append_ne _), readHead_write he]
    rfl
  | element key =>
    have htext : (Expression.element key).write ++ rest =
        '[' :: '[' :: (key.write ++ ([']', ']'] ++ '\n' :: rest)) := by
      simp [Expression.write]
    rw [htext, readExpression.eq_1, readHead_write he]
    rfl

def opensLine (c : Char) : Bool := opensName c || c == '['

theorem Expression.write_eq_cons (e : Expression) :
    ∃ c tail, e.write = c :: tail ∧ opensLine c = true := by
  cases e with
  | pair key v =>
    obtain ⟨c, tail, hwrite, hopens⟩ := key.write_eq_cons
    exact ⟨c, _, by rw [Expression.write, hwrite]; rfl, by simp [opensLine, hopens]⟩
  | header => exact ⟨_, _, rfl, rfl⟩
  | element => exact ⟨_, _, rfl, rfl⟩

theorem readLines_newline : readLines (fuel + 1) ('\n' :: s) = readLines fuel s := by
  have hspaces : skipSpaces ('\n' :: s) = '\n' :: s := rfl
  have hend : endLine? ('\n' :: s) = some s := rfl
  rw [readLines.eq_2, hspaces]
  simp only [hend]

theorem readLines_write (he : e.Legible) :
    readLines (fuel + 1) (e.write ++ rest) = (readLines fuel rest).map (e :: ·) := by
  obtain ⟨c, tail, hwrite, hopens⟩ := e.write_eq_cons
  have hseen : Seen c := .of_kind hopens ⟨rfl, rfl, rfl, rfl, rfl⟩
  have hread : readExpression (e.write ++ rest) = some (e, '\n' :: rest) := readExpression_write he
  have hend : endLine? ('\n' :: rest) = some rest := rfl
  rw [hwrite, List.cons_append] at hread ⊢
  rw [readLines.eq_2, hseen.skipSpaces]
  simp only [hseen.endLine?, hread, hend]

theorem writeRest_cons (e : Expression) (l : List Expression) :
    writeRest (e :: l) = (if e.isHead then '\n' :: e.write else e.write) ++ writeRest l :=
  List.flatMap_cons

theorem readLines_writeRest {l : List Expression} (hl : ∀ e ∈ l, e.Legible)
    (hfuel : (writeRest l).length < fuel) : readLines fuel (writeRest l) = some l := by
  induction l generalizing fuel with
  | nil =>
    obtain ⟨fuel, rfl⟩ : ∃ n, fuel = n + 1 := ⟨fuel - 1, by omega⟩
    rfl
  | cons e l ih =>
    have he : e.Legible := hl e List.mem_cons_self
    have hpos : 0 < e.write.length := by
      obtain ⟨c, tail, hwrite, -⟩ := e.write_eq_cons
      rw [hwrite]
      exact Nat.succ_pos _
    obtain ⟨fuel, rfl⟩ : ∃ n, fuel = n + 1 := ⟨fuel - 1, by omega⟩
    have hrest : ∀ fuel, (writeRest l).length < fuel → readLines fuel (writeRest l) = some l :=
      fun _ hfuel => ih (fun d hd => hl d (List.mem_cons_of_mem _ hd)) hfuel
    rw [writeRest_cons] at hfuel ⊢
    cases hhead : e.isHead with
    | true =>
      -- The empty line in front of a header takes a step of its own.
      rw [hhead] at hfuel
      simp only [if_true, List.cons_append, List.length_cons, List.length_append] at hfuel ⊢
      obtain ⟨fuel, rfl⟩ : ∃ n, fuel = n + 1 := ⟨fuel - 1, by omega⟩
      rw [readLines_newline, readLines_write he, hrest fuel (by omega)]
      rfl
    | false =>
      rw [hhead] at hfuel
      simp only [Bool.false_eq_true, if_false, List.length_append] at hfuel ⊢
      rw [readLines_write he, hrest fuel (by omega)]
      rfl

theorem expressions_writeAll {l : List Expression} (hl : ∀ e ∈ l, e.Legible) :
    expressions (writeAll l) = some l := by
  cases l with
  | nil => rfl
  | cons e l =>
    have he : e.Legible := hl e List.mem_cons_self
    have hrest : ∀ d ∈ l, d.Legible := fun d hd => hl d (List.mem_cons_of_mem _ hd)
    obtain ⟨c, tail, hwrite, hopens⟩ := e.write_eq_cons
    have hmark : ∀ w, writeAll (e :: l) ≠ '\ufeff' :: w := by
      intro w hw
      rw [writeAll, hwrite] at hw
      rw [(List.cons.inj hw).1] at hopens
      cases hopens
    have hlength : (writeRest l).length < (writeAll (e :: l)).length := by
      rw [writeAll, List.length_append, hwrite, List.length_cons]
      omega
    unfold expressions
    split
    · next hw => exact absurd hw (hmark _)
    · dsimp only
      rw [writeAll] at hlength ⊢
      rw [readLines_write he, readLines_writeRest hrest hlength]
      rfl

end SessionVault.Toml
