import SessionVault.Proofs.Text.Split
import SessionVault.Settings.Placeholder

namespace SessionVault.Settings

def written (name : List Char) : List Char := '$' :: '\x7b' :: name ++ ['\x7d']

def Incomplete (s : List Char) : Prop := ∀ name, ¬ written name <:+: s

/-- A stretch of text and the placeholder behind it, which ends at the first closing brace. -/
@[ext]
structure Piece where
  literal : List Char
  name : List Char
  literal_unmarked : ¬ ['$', '\x7b'] <:+: literal
  name_open : '\x7d' ∉ name

structure Split where
  pieces : List Piece
  tail : List Char
  tail_incomplete : Incomplete tail

def Piece.text (p : Piece) : List Char := p.literal ++ written p.name

def Piece.filled (env : Environment) (p : Piece) : List Char :=
  p.literal ++
    ((env (String.ofList p.name)).filter (· ≠ "")).elim (written p.name) String.toList

def Split.text (d : Split) : List Char := d.pieces.flatMap Piece.text ++ d.tail

def Split.filled (env : Environment) (d : Split) : List Char :=
  d.pieces.flatMap (Piece.filled env) ++ d.tail

variable {env env' : Environment} {s before inside rest : List Char}

theorem placeholder_eq (env : Environment) (name : List Char) :
    placeholder env name =
      ((env (String.ofList name)).filter (· ≠ "")).elim (written name) String.toList := by
  rw [placeholder]
  cases env (String.ofList name) with
  | none => rfl
  | some value => by_cases h : value = "" <;> simp [h, written, Option.filter]

theorem expand_eq (env : Environment) (s : List Char) :
    expand env s =
      match Text.splitMark '$' '\x7b' s with
      | none => s
      | some (before, inside) =>
        match Text.splitFirst '\x7d' inside with
        | none => s
        | some (name, rest) => before ++ placeholder env name ++ expand env rest := by
  rw [expand]
  split
  · next h => rw [h]
  · next before inside h =>
    split
    · next h' => simp only [h, h']
    · next name rest h' => simp only [h, h']

theorem incomplete_iff : Incomplete s ↔
    ∀ before inside, Text.splitMark '$' '\x7b' s = some (before, inside) →
      Text.splitFirst '\x7d' inside = none := by
  constructor
  · intro h before inside hmark
    cases hfirst : Text.splitFirst '\x7d' inside with
    | none => rfl
    | some p =>
      refine absurd ?_ (h p.1)
      rw [Text.splitMark_eq_some hmark, Text.splitFirst_eq_some hfirst]
      exact ⟨before, p.2, by simp [written]⟩
  · rintro h name ⟨u, v, rfl⟩
    cases hmark : Text.splitMark '$' '\x7b' (u ++ written name ++ v) with
    | none =>
      refine Text.splitMark_eq_none_iff.1 hmark ⟨u, name ++ '\x7d' :: v, ?_⟩
      simp [written]
    | some p =>
      have hsuffix : name ++ '\x7d' :: v <:+ p.2 :=
        Text.suffix_of_splitMark hmark ⟨u, by simp [written]⟩
      exact Text.splitFirst_eq_none_iff.1 (h p.1 p.2 hmark) (hsuffix.subset (by simp))

theorem expand_of_incomplete (h : Incomplete s) : expand env s = s := by
  rw [expand_eq]
  cases hmark : Text.splitMark '$' '\x7b' s with
  | none => rfl
  | some p =>
    dsimp only
    rw [incomplete_iff.1 h p.1 p.2 hmark]

theorem Piece.text_append (p : Piece) (rest : List Char) :
    p.text ++ rest = p.literal ++ '$' :: '\x7b' :: (p.name ++ '\x7d' :: rest) := by
  simp [Piece.text, written]

theorem Piece.splitMark_text (p : Piece) (rest : List Char) :
    Text.splitMark '$' '\x7b' (p.text ++ rest) = some (p.literal, p.name ++ '\x7d' :: rest) := by
  rw [p.text_append, Text.splitMark_append (by decide) p.literal_unmarked]

theorem expand_piece (env : Environment) (p : Piece) (rest : List Char) :
    expand env (p.text ++ rest) = p.filled env ++ expand env rest := by
  rw [expand_eq, p.splitMark_text]
  dsimp only
  rw [Text.splitFirst_append p.name_open]
  dsimp only
  rw [placeholder_eq, Piece.filled]

theorem Split.expand_text (env : Environment) (d : Split) : expand env d.text = d.filled env := by
  obtain ⟨pieces, tail, htail⟩ := d
  induction pieces with
  | nil => exact expand_of_incomplete htail
  | cons p pieces ih =>
    simp only [Split.text, Split.filled, List.flatMap_cons, List.append_assoc, expand_piece] at ih ⊢
    rw [ih]

theorem Split.exists_text (s : List Char) : ∃ d : Split, d.text = s := by
  -- On the length, since a step takes a whole piece off the front.
  induction hn : s.length using Nat.strongRecOn generalizing s with
  | ind n ih =>
    by_cases hs : Incomplete s
    · exact ⟨⟨[], s, hs⟩, rfl⟩
    · simp only [incomplete_iff, Classical.not_forall] at hs
      obtain ⟨before, inside, hmark, hfirst⟩ := hs
      obtain ⟨p, hp⟩ := Option.ne_none_iff_exists'.1 hfirst
      obtain ⟨d, hd⟩ := ih p.2.length (hn ▸ length_lt hmark hp) p.2 rfl
      let piece : Piece :=
        ⟨before, p.1, Text.not_infix_of_splitMark hmark, Text.notMem_of_splitFirst hp⟩
      refine ⟨⟨piece :: d.pieces, d.tail, d.tail_incomplete⟩, ?_⟩
      rw [Text.splitMark_eq_some hmark, Text.splitFirst_eq_some hp, ← hd]
      simp [Split.text, Piece.text, piece, written]

theorem Piece.not_incomplete (p : Piece) (rest : List Char) : ¬ Incomplete (p.text ++ rest) :=
  fun h => h p.name ⟨p.literal, rest, by simp [Piece.text]⟩

theorem Split.text_injective {d d' : Split} (h : d.text = d'.text) : d = d' := by
  obtain ⟨pieces, tail, htail⟩ := d
  obtain ⟨pieces', tail', htail'⟩ := d'
  simp only [Split.text] at h
  induction pieces generalizing pieces' with
  | nil =>
    cases pieces' with
    | nil => cases h; rfl
    | cons p pieces' =>
      rw [List.flatMap_nil, List.nil_append, List.flatMap_cons, List.append_assoc] at h
      exact absurd (h ▸ htail) (p.not_incomplete _)
  | cons p pieces ih =>
    cases pieces' with
    | nil =>
      rw [List.flatMap_nil, List.nil_append, List.flatMap_cons, List.append_assoc] at h
      exact absurd (h ▸ htail') (p.not_incomplete _)
    | cons q pieces' =>
      simp only [List.flatMap_cons, List.append_assoc] at h
      -- Both cuts begin at the first mark, and its name ends at the first brace behind it.
      have hmark := congrArg (Text.splitMark '$' '\x7b') h
      rw [p.splitMark_text, q.splitMark_text] at hmark
      simp only [Option.some.injEq, Prod.mk.injEq] at hmark
      have hfirst := congrArg (Text.splitFirst '\x7d') hmark.2
      rw [Text.splitFirst_append p.name_open, Text.splitFirst_append q.name_open] at hfirst
      simp only [Option.some.injEq, Prod.mk.injEq] at hfirst
      have hp : p = q := Piece.ext hmark.1 hfirst.1
      have hrest := ih pieces' hfirst.2
      cases hp
      cases hrest
      rfl

theorem Split.filled_congr {d : Split}
    (h : ∀ p ∈ d.pieces, env (String.ofList p.name) = env' (String.ofList p.name)) :
    d.filled env = d.filled env' := by
  have hpiece : ∀ p ∈ d.pieces, p.filled env = p.filled env' := fun p hp => by
    rw [Piece.filled, Piece.filled, h p hp]
  rw [Split.filled, Split.filled, List.flatMap_def, List.flatMap_def, List.map_congr_left hpiece]

theorem Split.filled_of_unresolved {d : Split}
    (h : ∀ p ∈ d.pieces, ∀ value, env (String.ofList p.name) = some value → value = "") :
    d.filled env = d.text := by
  have hpiece : ∀ p ∈ d.pieces, p.filled env = p.text := fun p hp => by
    have hnone : (env (String.ofList p.name)).filter (· ≠ "") = none := by
      rw [Option.filter_eq_none_iff]
      intro value hvalue
      simp [h p hp value hvalue]
    rw [Piece.filled, hnone]
    rfl
  rw [Split.filled, Split.text, List.flatMap_def, List.flatMap_def, List.map_congr_left hpiece]

/-- A text is cut in exactly one way, and only what stands at its placeholders is replaced.  Nothing
but the names of the cut is looked up, so what is put in is not looked at again, and if none of them
has a value the text stays as it is. -/
theorem interpolation_is_one_pass (s : String) :
    ∃ d : Split, d.text = s.toList ∧ (∀ d' : Split, d'.text = s.toList → d' = d) ∧
      (∀ env, (interpolate env s).toList = d.filled env) ∧
      (∀ env env',
        (∀ p ∈ d.pieces, env (String.ofList p.name) = env' (String.ofList p.name)) →
          interpolate env s = interpolate env' s) ∧
      ∀ env, (∀ p ∈ d.pieces, ∀ value, env (String.ofList p.name) = some value → value = "") →
        interpolate env s = s := by
  obtain ⟨d, hd⟩ := Split.exists_text s.toList
  have hfilled (env : Environment) : interpolate env s = String.ofList (d.filled env) := by
    rw [interpolate, ← hd, d.expand_text]
  refine ⟨d, hd, fun d' hd' => Split.text_injective (hd'.trans hd.symm), fun env => ?_,
    fun env env' h => ?_, fun env h => ?_⟩
  · rw [hfilled, String.toList_ofList]
  · rw [hfilled, hfilled, Split.filled_congr h]
  · rw [hfilled, Split.filled_of_unresolved h, hd, String.ofList_toList]

def nestedMarks : Split where
  pieces := [⟨['$'], ['A'], by decide, by decide⟩, ⟨[], ['B'], by decide, by decide⟩,
    ⟨['x'], ['$', '\x7b', 'A'], by decide, by decide⟩]
  tail := ['\x7d', '$', '\x7b', 'C']
  tail_incomplete := incomplete_iff.2 fun before inside h => by cases h; rfl

def twoVariables : Environment
  | "A" => some "$\x7bB\x7d"
  | "B" => some "b"
  | _ => none

theorem nested_marks_are_read_once :
    interpolate twoVariables "$$\x7bA\x7d$\x7bB\x7dx$\x7b$\x7bA\x7d\x7d$\x7bC" =
      "$$\x7bB\x7dbx$\x7b$\x7bA\x7d\x7d$\x7bC" := by
  obtain ⟨d, -, honly, hfilled, -⟩ :=
    interpolation_is_one_pass "$$\x7bA\x7d$\x7bB\x7dx$\x7b$\x7bA\x7d\x7d$\x7bC"
  have hcut : nestedMarks = d := honly nestedMarks (by decide)
  rw [← String.toList_inj, hfilled twoVariables, ← hcut]
  decide

end SessionVault.Settings
