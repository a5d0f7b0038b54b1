import SessionVault.Glob.Token

/-!
Answers for all ends of a text at once: a row holds one for the text and one for what is left of it
after each character.  The row of a list of tokens is made token by token from the last one, so no
way of dividing the text among the tokens is tried twice; `answers_row` says that it tells what fits.
-/

namespace SessionVault.Glob

def shift (holds : Char → Bool) (s : List Char) (row : List Bool) (atEnd : Bool) : List Bool :=
  List.zipWith (fun c b => holds c && b) s row.tail ++ [atEnd]

def later (row : List Bool) : List Bool := row.foldr (fun b l => (b || l.headD false) :: l) []

def Token.row (s : List Char) : Token → List Bool → List Bool
  | .one symbol, next => shift symbol.holds s next false
  | .run, next => later next
  | .components, next =>
    List.zipWith or next (later (shift (· == '/') s next (next.getLastD false)))

def row (ts : List Token) (s : List Char) : List Bool :=
  ts.foldr (fun t next => t.row s next) (List.replicate s.length false ++ [true])

/-- A row that answers a question about every end of a text. -/
inductive Answers (P : List Char → Prop) : List Char → List Bool → Prop
  | nil {b : Bool} : (b = true ↔ P []) → Answers P [] [b]
  | cons {b : Bool} {c : Char} {s : List Char} {row : List Bool} :
    (b = true ↔ P (c :: s)) → Answers P s row → Answers P (c :: s) (b :: row)

namespace Answers

variable {P Q : List Char → Prop} {s : List Char} {row row' : List Bool}

theorem headD_iff (h : Answers P s row) : row.headD false = true ↔ P s := by
  cases h <;> assumption

theorem getLastD_iff (h : Answers P s row) : row.getLastD false = true ↔ P [] := by
  induction h with
  | nil h => exact h
  | cons _ h ih => cases h <;> exact ih

theorem congr (h : Answers P s row) (e : ∀ s, P s ↔ Q s) : Answers Q s row := by
  induction h with
  | nil h => exact .nil (h.trans (e _))
  | cons h _ ih => exact .cons (h.trans (e _)) ih

theorem shift {holds : Char → Bool} {atEnd : Bool} (h : Answers P s row)
    (hnil : atEnd = true ↔ Q []) (hcons : ∀ c s, Q (c :: s) ↔ holds c = true ∧ P s) :
    Answers Q s (shift holds s row atEnd) := by
  induction h with
  | nil _ => exact .nil hnil
  | cons _ h ih =>
    have hd := h.headD_iff
    cases h <;> exact .cons (by simp_all) ih

theorem later (h : Answers P s row) :
    Answers (fun s => ∃ rest, rest <:+ s ∧ P rest) s (later row) := by
  induction h with
  | nil h => exact .nil (by simp [h])
  | cons h _ ih =>
    refine .cons ?_ ih
    have hd := ih.headD_iff
    simp_all [Glob.later, List.suffix_cons_iff, or_and_right, exists_or]

theorem zipWith_or (h : Answers P s row) (h' : Answers Q s row') :
    Answers (fun s => P s ∨ Q s) s (List.zipWith or row row') := by
  induction h generalizing row' with
  | nil h =>
    cases h' with
    | nil h' => exact .nil (by simp [h, h'])
  | cons h _ ih =>
    cases h' with
    | cons h' hs => exact .cons (by simp [h, h']) (ih hs)

end Answers

def Behind (P : List Char → Prop) : List Char → Prop
  | [] => P []
  | c :: s => (c == '/') = true ∧ P s

theorem behind_cons (P : List Char → Prop) (c : Char) (s : List Char) :
    Behind P (c :: s) ↔ (c == '/') = true ∧ P s := Iff.rfl

theorem exists_suffix_behind_iff (P : List Char → Prop) (s : List Char) :
    (∃ rest, rest <:+ s ∧ Behind P rest) ↔ ∃ rest ∈ [] :: afterSlashes s, P rest := by
  induction s with
  | nil => simp [afterSlashes, Behind]
  | cons c s ih =>
    simp only [List.suffix_cons_iff, or_and_right, exists_or, exists_eq_left, behind_cons, ih]
    by_cases h : (c == '/') = true <;> simp [afterSlashes, h, or_left_comm]

theorem answers_row (ts : List Token) (s : List Char) : Answers (Fits ts) s (row ts s) := by
  induction ts with
  | nil =>
    induction s with
    | nil => exact .nil ⟨fun _ => .nil, fun _ => rfl⟩
    | cons c s ih => exact .cons ⟨nofun, nofun⟩ ih
  | cons t ts ih =>
    match t with
    | .one symbol =>
      refine ih.shift ⟨nofun, nofun⟩ fun c s => ⟨?_, fun h => .one h.1 h.2⟩
      rintro (_ | ⟨h, hs⟩)
      exact ⟨h, hs⟩
    | .run =>
      refine ih.later.congr fun s => ⟨fun ⟨rest, h, hs⟩ => .run h hs, ?_⟩
      rintro (_ | _ | ⟨h, hs⟩)
      exact ⟨_, h, hs⟩
    | .components =>
      have h := ih.shift (Q := Behind (Fits ts)) ih.getLastD_iff (behind_cons _)
      refine (ih.zipWith_or h.later).congr fun s => ?_
      rw [exists_suffix_behind_iff]
      constructor
      · rintro (hs | ⟨rest, hr, hs⟩)
        · exact .components (.head _) hs
        · exact .components (.tail _ hr) hs
      · rintro (_ | _ | _ | ⟨hr, hs⟩)
        rcases List.mem_cons.1 hr with rfl | hr
        · exact .inl hs
        · exact .inr ⟨_, hr, hs⟩

end SessionVault.Glob
