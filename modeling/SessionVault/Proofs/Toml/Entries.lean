import SessionVault.Proofs.Toml.Lines
import SessionVault.Toml.Fields

namespace SessionVault.Toml

variable {name : String} {nodes own : Nodes} {header : List String} {l lines more : List Expression}
  {way : List (Nodes × String)} {entries others ps qs : List (String × Toml)}

theorem alter_append {f : Option Node → Option Node} (h : name ∉ nodes.map Prod.fst)
    (rest : Nodes) : alter f name (nodes ++ rest) = (alter f name rest).map (nodes ++ ·) := by
  induction nodes with
  | nil =>
    simp only [List.nil_append]
    exact Option.map_id'.symm
  | cons p nodes ih =>
    rw [List.map_cons, List.mem_cons, not_or] at h
    rw [List.cons_append, alter, if_neg (Ne.symm h.1), ih h.2, Option.map_map]
    rfl

theorem alter_fresh {f : Option Node → Option Node} (h : name ∉ nodes.map Prod.fst) :
    alter f name nodes = (f none).map fun node => nodes ++ [(name, node)] := by
  have happend := alter_append (f := f) h []
  rw [List.append_nil] at happend
  rw [happend, alter, Option.map_map]
  rfl

theorem alter_last {f : Option Node → Option Node} (h : name ∉ nodes.map Prod.fst) (node : Node) :
    alter f name (nodes ++ [(name, node)]) = (f (some node)).map fun n => nodes ++ [(name, n)] := by
  rw [alter_append h, alter, if_pos rfl, Option.map_map]
  rfl

/-- A document whose lines have led to a table with the given content.  On the way there, every
table is the last one in its own. -/
def within : List (Nodes × String) → Nodes → Nodes
  | [], own => own
  | (before, name) :: way, own => before ++ [(name, .table .header (within way own))]

theorem within_append (way rest : List (Nodes × String)) (own : Nodes) :
    within (way ++ rest) own = within way (within rest own) := by
  induction way with
  | nil => rfl
  | cons p way ih => rw [List.cons_append, within, ih, within]

def Clear (way : List (Nodes × String)) : Prop := ∀ p ∈ way, p.2 ∉ p.1.map Prod.fst

theorem clear_nil : Clear [] := fun _ hp => nomatch hp

theorem descend_within (hway : Clear way) (f : Origin → Nodes → Option Nodes) (own : Nodes) :
    descend .passed f (way.map Prod.snd) .header (within way own) =
      (f .header own).map (within way) := by
  induction way with
  | nil => exact Option.map_id'.symm
  | cons p way ih =>
    obtain ⟨before, name⟩ := p
    have hfirst : name ∉ before.map Prod.fst := hway _ List.mem_cons_self
    have hrest := ih fun q hq => hway q (List.mem_cons_of_mem _ hq)
    -- What stands on the way was opened by a header, and a longer header may pass through it.
    rw [List.map_cons, descend, within, alter_last hfirst]
    simp only [reduceCtorEq, false_and, if_false, hrest, Option.map_map]
    rfl

theorem addExpression_pair (hway : Clear way) (h : name ∉ own.map Prod.fst) (v : Toml) :
    addExpression (way.map Prod.snd) (within way own) (pair name v) =
      some (way.map Prod.snd, within way (own ++ [(name, .leaf v)])) := by
  have hadd : addPair ⟨[], name⟩ v .header own = some (own ++ [(name, .leaf v)]) := by
    rw [addPair, descend]
    simp only [reduceCtorEq, false_iff, not_true_eq_false, if_false, alter_fresh h]
    rfl
  rw [pair, addExpression, descend_within hway, hadd]
  rfl

def pairs (ps : List (String × Toml)) : List Expression := ps.map fun p => pair p.1 p.2

def leaves (ps : List (String × Toml)) : Nodes := ps.map fun p => (p.1, .leaf p.2)

theorem addAll_pairs (hway : Clear way) (h : (own.map Prod.fst ++ ps.map Prod.fst).Nodup) :
    addAll (way.map Prod.snd) (within way own) (pairs ps ++ l) =
      addAll (way.map Prod.snd) (within way (own ++ leaves ps)) l := by
  induction ps generalizing own with
  | nil =>
    rw [leaves, List.map_nil, List.append_nil]
    rfl
  | cons p ps ih =>
    have hnew : p.1 ∉ own.map Prod.fst := fun hm =>
      (List.nodup_append.1 h).2.2 _ hm _ List.mem_cons_self rfl
    have hrest : ((own ++ [(p.1, Node.leaf p.2)]).map Prod.fst ++ ps.map Prod.fst).Nodup := by
      rw [List.map_append, List.append_assoc]
      exact h
    have htail := ih hrest
    rw [List.append_assoc] at htail
    rw [pairs, List.map_cons, List.cons_append, addAll, addExpression_pair hway hnew]
    exact htail

theorem addExpression_header (hway : Clear way) (h : name ∉ own.map Prod.fst) :
    addExpression header (within way own) (.header ⟨way.map Prod.snd, name⟩) =
      some ((way ++ [(own, name)]).map Prod.snd, within (way ++ [(own, name)]) []) := by
  have hopen : openTable ⟨way.map Prod.snd, name⟩ (within way own) =
      some (within (way ++ [(own, name)]) []) := by
    rw [openTable, descend_within hway, alter_fresh h, within_append]
    rfl
  rw [addExpression, hopen, List.map_append]
  rfl

def sectionLines (header : Key) (ps : List (String × Toml)) : List Expression :=
  .header header :: pairs ps

theorem addAll_section (hway : Clear way) (h : name ∉ own.map Prod.fst)
    (hps : (ps.map Prod.fst).Nodup) :
    addAll header (within way own) (sectionLines ⟨way.map Prod.snd, name⟩ ps ++ l) =
      addAll ((way ++ [(own, name)]).map Prod.snd)
        (within (way ++ [(own, name)]) (leaves ps)) l := by
  have hclear : Clear (way ++ [(own, name)]) := by
    intro p hp
    rcases List.mem_append.1 hp with hp | hp
    · exact hway p hp
    · rw [List.mem_singleton.1 hp]
      exact h
  rw [sectionLines, List.cons_append, addAll, addExpression_header hway h]
  exact addAll_pairs hclear hps

theorem map_fst_values (nodes : Nodes) : (values nodes).map Prod.fst = nodes.map Prod.fst := by
  induction nodes with
  | nil => rfl
  | cons p nodes ih => rw [values, List.map_cons, ih, List.map_cons]

theorem values_append (nodes rest : Nodes) :
    values (nodes ++ rest) = values nodes ++ values rest := by
  induction nodes with
  | nil => rfl
  | cons p nodes ih => rw [List.cons_append, values, ih, values, List.cons_append]

theorem values_leaves (ps : List (String × Toml)) : values (leaves ps) = ps := by
  induction ps with
  | nil => rfl
  | cons p ps ih =>
    rw [leaves, List.map_cons, values, Node.value]
    exact congrArg (p :: ·) ih

theorem values_table (name : String) (own : Nodes) :
    values [(name, .table .header own)] = [(name, .table (values own))] := by
  rw [values, Node.value]
  rfl

theorem map_fst_leaves (ps : List (String × Toml)) :
    (leaves ps).map Prod.fst = ps.map Prod.fst := by
  rw [leaves, List.map_map]
  rfl

def Adds (lines : List Expression) (entries : List (String × Toml)) : Prop :=
  ∀ (header : List String) (nodes : Nodes) (l : List Expression),
    (∀ name ∈ entries.map Prod.fst, name ∉ nodes.map Prod.fst) →
    ∃ header' more, values more = entries ∧
      addAll header nodes (lines ++ l) = addAll header' (nodes ++ more) l

theorem adds_nil : Adds [] [] := by
  intro header nodes l _
  refine ⟨header, [], rfl, ?_⟩
  rw [List.append_nil]
  rfl

theorem Adds.append (h : Adds lines entries) (h' : Adds more others)
    (hnames : ∀ name ∈ others.map Prod.fst, name ∉ entries.map Prod.fst) :
    Adds (lines ++ more) (entries ++ others) := by
  intro header nodes l hnodes
  rw [List.map_append] at hnodes
  obtain ⟨header₁, added₁, hvalues₁, hadd₁⟩ := h header nodes (more ++ l) fun name hname =>
    hnodes name (List.mem_append_left _ hname)
  have hboth : ∀ name ∈ others.map Prod.fst, name ∉ (nodes ++ added₁).map Prod.fst := by
    intro name hname
    rw [List.map_append, ← map_fst_values added₁, hvalues₁, List.mem_append, not_or]
    exact ⟨hnodes name (List.mem_append_right _ hname), hnames name hname⟩
  obtain ⟨header₂, added₂, hvalues₂, hadd₂⟩ := h' header₁ (nodes ++ added₁) l hboth
  refine ⟨header₂, added₁ ++ added₂, ?_, ?_⟩
  · rw [values_append, hvalues₁, hvalues₂]
  · rw [List.append_assoc, hadd₁, hadd₂, List.append_assoc]

theorem adds_section (hps : (ps.map Prod.fst).Nodup) :
    Adds (sectionLines ⟨[], name⟩ ps) [(name, .table ps)] := by
  intro header nodes l hnodes
  have hnew : name ∉ nodes.map Prod.fst := hnodes name List.mem_cons_self
  refine ⟨[name], [(name, .table .header (leaves ps))], ?_, addAll_section clear_nil hnew hps⟩
  rw [values_table, values_leaves]

theorem adds_nested {sub : String} (hps : (ps.map Prod.fst).Nodup) (hsub : sub ∉ ps.map Prod.fst)
    (hqs : (qs.map Prod.fst).Nodup) :
    Adds (sectionLines ⟨[], name⟩ ps ++ sectionLines ⟨[name], sub⟩ qs)
      [(name, .table (ps ++ [(sub, .table qs)]))] := by
  intro header nodes l hnodes
  have hnew : name ∉ nodes.map Prod.fst := hnodes name List.mem_cons_self
  have hway : Clear [(nodes, name)] := fun p hp => List.mem_singleton.1 hp ▸ hnew
  have hinner : sub ∉ (leaves ps).map Prod.fst := by
    rw [map_fst_leaves]
    exact hsub
  refine ⟨[name, sub],
    [(name, .table .header (leaves ps ++ [(sub, .table .header (leaves qs))]))], ?_, ?_⟩
  · rw [values_table, values_append, values_leaves, values_table, values_leaves]
  · rw [List.append_assoc]
    exact (addAll_section clear_nil hnew hps).trans (addAll_section hway hinner hqs)

theorem ofExpressions_of_adds (h : Adds lines entries) : ofExpressions lines = some entries := by
  obtain ⟨header, more, hvalues, hadd⟩ := h [] [] [] fun _ _ => List.not_mem_nil
  rw [List.append_nil] at hadd
  rw [ofExpressions, hadd, addAll, List.nil_append, Option.map_some, hvalues]

structure Says (lines : List Expression) (entries : List (String × Toml)) : Prop where
  adds : Adds lines entries
  legible : ∀ e ∈ lines, e.Legible

theorem says_nil : Says [] [] := ⟨adds_nil, fun _ he => nomatch he⟩

theorem Says.append (h : Says lines entries) (h' : Says more others)
    (hnames : ∀ name ∈ others.map Prod.fst, name ∉ entries.map Prod.fst) :
    Says (lines ++ more) (entries ++ others) := by
  refine ⟨h.adds.append h'.adds hnames, fun e he => ?_⟩
  rcases List.mem_append.1 he with he | he
  · exact h.legible e he
  · exact h'.legible e he

theorem legible_of_nil (name : String) : Key.Legible ⟨[], name⟩ := show 0 < maxDepth by decide

theorem legible_sectionLines {k : Key} (hk : k.Legible) (h : ∀ p ∈ ps, Legible maxDepth p.2) :
    ∀ e ∈ sectionLines k ps, e.Legible := by
  intro e he
  rcases List.mem_cons.1 he with rfl | he
  · exact hk
  · obtain ⟨p, hp, rfl⟩ := List.mem_map.1 he
    exact ⟨legible_of_nil p.1, h p hp⟩

theorem says_section (name : String) (hps : (ps.map Prod.fst).Nodup)
    (h : ∀ p ∈ ps, Legible maxDepth p.2) :
    Says (sectionLines ⟨[], name⟩ ps) [(name, .table ps)] :=
  ⟨adds_section hps, legible_sectionLines (legible_of_nil name) h⟩

theorem says_nested (name : String) {sub : String} (hps : (ps.map Prod.fst).Nodup)
    (hsub : sub ∉ ps.map Prod.fst) (hqs : (qs.map Prod.fst).Nodup)
    (hp : ∀ p ∈ ps, Legible maxDepth p.2) (hq : ∀ q ∈ qs, Legible maxDepth q.2) :
    Says (sectionLines ⟨[], name⟩ ps ++ sectionLines ⟨[name], sub⟩ qs)
      [(name, .table (ps ++ [(sub, .table qs)]))] := by
  refine ⟨adds_nested hps hsub hqs, fun e he => ?_⟩
  rcases List.mem_append.1 he with he | he
  · exact legible_sectionLines (legible_of_nil name) hp e he
  · have hsub : Key.Legible ⟨[name], sub⟩ := show 1 < maxDepth by decide
    exact legible_sectionLines hsub hq e he

theorem Says.ofText?_writeAll (h : Says lines entries) :
    ofText? (String.ofList (writeAll lines)) = some entries := by
  rw [ofText?, String.toList_ofList, expressions_writeAll h.legible, Option.bind_some,
    ofExpressions_of_adds h.adds]

end SessionVault.Toml
