namespace SessionVault.Text

/-- The stretches between separators.  There is always one more than there are separators. -/
def splitAll (sep : Char) : List Char → List (List Char)
  | [] => [[]]
  | c :: rest =>
    if c = sep then [] :: splitAll sep rest
    else
      match splitAll sep rest with
      | [] => [[c]]
      | part :: parts => (c :: part) :: parts

def splitFirst (sep : Char) : List Char → Option (List Char × List Char)
  | [] => none
  | c :: rest =>
    if c = sep then some ([], rest)
    else (splitFirst sep rest).map fun p => (c :: p.1, p.2)

def splitLast (sep : Char) : List Char → Option (List Char × List Char)
  | [] => none
  | c :: rest =>
    match splitLast sep rest with
    | some (before, after) => some (c :: before, after)
    | none => if c = sep then some ([], rest) else none

def splitMark (a b : Char) : List Char → Option (List Char × List Char)
  | [] => none
  | [_] => none
  | c :: d :: rest =>
    if c = a ∧ d = b then some ([], rest)
    else (splitMark a b (d :: rest)).map fun p => (c :: p.1, p.2)

theorem splitAll_ne_nil (sep : Char) (s : List Char) : splitAll sep s ≠ [] := by
  cases s with
  | nil => simp [splitAll]
  | cons c rest =>
    simp only [splitAll]
    split
    · simp
    · split <;> simp

theorem splitFirst_eq_some {sep : Char} {s before after : List Char}
    (h : splitFirst sep s = some (before, after)) : s = before ++ sep :: after := by
  induction s generalizing before with
  | nil => simp [splitFirst] at h
  | cons c rest ih =>
    simp only [splitFirst] at h
    split at h
    · next e => cases h; simp [e]
    · obtain ⟨⟨b, a⟩, hp, e⟩ := Option.map_eq_some_iff.1 h
      cases e
      simp [ih hp]

theorem splitMark_eq_some {a b : Char} {s before after : List Char}
    (h : splitMark a b s = some (before, after)) : s = before ++ a :: b :: after := by
  fun_induction splitMark a b s generalizing before with
  | case1 => simp at h
  | case2 => simp at h
  | case3 c d rest e => cases h; simp [e.1, e.2]
  | case4 c d rest e ih =>
    obtain ⟨⟨p, q⟩, hp, e⟩ := Option.map_eq_some_iff.1 h
    cases e
    simp [ih hp]

end SessionVault.Text
