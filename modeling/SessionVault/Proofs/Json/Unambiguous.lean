import SessionVault.Proofs.Json.Figures
import SessionVault.Proofs.Json.Reader

namespace SessionVault.Json

mutual

def floats : Json → List Float
  | .number (.real x _) => [x]
  | .array items => floatsItems items
  | .object fields => floatsFields fields
  | .null | .bool _ | .number (.whole _ _) | .string _ => []

def floatsItems : List Json → List Float
  | [] => []
  | v :: rest => v.floats ++ floatsItems rest

def floatsFields : List (String × Json) → List Float
  | [] => []
  | (_, v) :: rest => v.floats ++ floatsFields rest

end

/-- A float of one list has another text than any in the other list but itself. -/
def ToldApart (xs ys : List Float) : Prop :=
  ∀ x ∈ xs, ∀ y ∈ ys, floatText x = floatText y → x = y

instance (xs ys : List Float) : Decidable (ToldApart xs ys) :=
  inferInstanceAs (Decidable (∀ x ∈ xs, ∀ y ∈ ys, floatText x = floatText y → x = y))

theorem toldApart_append {xs xs' ys ys' : List Float} (h : ToldApart (xs ++ xs') (ys ++ ys')) :
    ToldApart xs ys ∧ ToldApart xs' ys' :=
  ⟨fun x hx y hy => h x (List.mem_append_left _ hx) y (List.mem_append_left _ hy),
    fun x hx y hy => h x (List.mem_append_right _ hx) y (List.mem_append_right _ hy)⟩

inductive Kind where
  | null
  | bool (b : Bool)
  | number
  | string
  | array
  | object
  deriving DecidableEq

def kind : Json → Kind
  | .null => .null
  | .bool b => .bool b
  | .number _ => .number
  | .string _ => .string
  | .array _ => .array
  | .object _ => .object

def kindOf? (b : UInt8) : Option Kind :=
  match b with
  | 0x6E => some .null
  | 0x74 => some (.bool true)
  | 0x66 => some (.bool false)
  | 0x22 => some .string
  | 0x5B => some .array
  | 0x7B => some .object
  | _ => if isFigureOctet b then some .number else none

variable {v w : Json} {b : UInt8} {rest rest' : Octets}

theorem kindOf?_figure (h : isFigureOctet b = true) : kindOf? b = some .number := by
  unfold kindOf?
  split
  any_goals cases h
  exact if_pos h

theorem exists_print (v : Json) : ∃ b t, v.print = b :: t ∧ kindOf? b = some v.kind := by
  cases v with
  | null => exact ⟨_, _, rfl, rfl⟩
  | bool b => cases b <;> exact ⟨_, _, rfl, rfl⟩
  | number n =>
    obtain ⟨c, cs, hc⟩ := List.exists_cons_of_ne_nil n.text_ne_nil
    refine ⟨_, Octets.ascii cs, congrArg Octets.ascii hc, kindOf?_figure ?_⟩
    refine isFigureOctet_of_mem_text (n := n) ?_
    rw [hc]
    exact List.mem_cons_self
  | string s => exact ⟨_, _, rfl, rfl⟩
  | array items => exact ⟨_, _, rfl, rfl⟩
  | object fields => exact ⟨_, _, rfl, rfl⟩

theorem kind_eq_of_print (h : v.print ++ rest = w.print ++ rest') : v.kind = w.kind := by
  obtain ⟨b, t, hv, hb⟩ := exists_print v
  obtain ⟨c, u, hw, hc⟩ := exists_print w
  rw [hv, hw] at h
  cases (List.cons.inj h).1
  exact Option.some.inj (hb.symm.trans hc)

theorem print_append_ne (h : kindOf? b = none) (v : Json) : v.print ++ rest ≠ b :: rest' := by
  intro he
  obtain ⟨c, t, hv, hc⟩ := exists_print v
  rw [hv] at he
  cases (List.cons.inj he).1
  exact nomatch hc.symm.trans h

def EndsFigures : Octets → Prop
  | [] => True
  | b :: _ => isFigureOctet b = false

theorem figures_append_inj {xs ys : Octets} (hx : ∀ b ∈ xs, isFigureOctet b = true)
    (hy : ∀ b ∈ ys, isFigureOctet b = true) (hr : EndsFigures rest) (hr' : EndsFigures rest')
    (h : xs ++ rest = ys ++ rest') : xs = ys ∧ rest = rest' := by
  induction xs generalizing ys with
  | nil =>
    cases ys with
    | nil => exact ⟨rfl, h⟩
    | cons c ys =>
      rw [List.nil_append, List.cons_append] at h
      rw [h] at hr
      exact nomatch (hy c List.mem_cons_self).symm.trans hr
  | cons b xs ih =>
    rw [List.forall_mem_cons] at hx
    cases ys with
    | nil =>
      rw [List.nil_append, List.cons_append] at h
      rw [← h] at hr'
      exact nomatch hx.1.symm.trans hr'
    | cons c ys =>
      rw [List.forall_mem_cons] at hy
      obtain ⟨rfl, htail⟩ := List.cons.inj h
      obtain ⟨rfl, hrest⟩ := ih hx.2 hy.2 htail
      exact ⟨rfl, hrest⟩

theorem ascii_inj {s t : List Char} (hs : ∀ c ∈ s, c.toNat < 128) (ht : ∀ c ∈ t, c.toNat < 128)
    (h : Octets.ascii s = Octets.ascii t) : s = t := by
  induction s generalizing t with
  | nil => exact (List.map_eq_nil_iff.1 h.symm).symm
  | cons c s ih =>
    cases t with
    | nil => cases h
    | cons d t =>
      rw [List.forall_mem_cons] at hs ht
      obtain ⟨hhead, htail⟩ := List.cons.inj h
      have hnat : c.toNat = d.toNat := by
        have := congrArg UInt8.toNat hhead
        simp only [UInt8.toNat_ofNat'] at this
        omega
      rw [Char.toNat_inj.1 hnat, ih hs.2 ht.2 htail]

theorem not_mem_text_whole (n : Int) (hn) :
    '.' ∉ (Number.whole n hn).text ∧ 'e' ∉ (Number.whole n hn).text := by
  have hnumeral {c : Char} (hc : Decimal.isDigit c = false) : c ∉ Decimal.numeral n.natAbs := by
    intro hmem
    exact nomatch hc.symm.trans (List.all_eq_true.1 (Decimal.isDigit_numeral _) c hmem)
  rw [Number.text]
  have hpoint := hnumeral (c := '.') (by decide)
  have hpower := hnumeral (c := 'e') (by decide)
  split <;> simp [hpoint, hpower]

theorem Number.text_inj {n m : Number}
    (hfloats : ToldApart (Json.number n).floats (Json.number m).floats)
    (h : Octets.ascii n.text = Octets.ascii m.text) : n = m := by
  have hchars (n : Number) : ∀ c ∈ n.text, c.toNat < 128 := fun c hc =>
    (isFigure_spec (List.all_eq_true.1 n.all_isFigure_text c hc)).2
  have htext : n.text = m.text := ascii_inj (hchars n) (hchars m) h
  cases n with
  | whole n hn =>
    cases m with
    | whole m hm =>
      have hread : (whole n hn).ReadsBack := readsBack_whole n hn
      rw [ReadsBack, h, readsBack_whole m hm] at hread
      exact (Option.some.inj hread).symm
    | real y hy =>
      obtain ⟨hpoint, hpower⟩ := not_mem_text_whole n hn
      rw [htext] at hpoint hpower
      exact ((point_or_power_mem_floatText y).elim hpoint hpower).elim
  | real x hx =>
    cases m with
    | whole m hm =>
      obtain ⟨hpoint, hpower⟩ := not_mem_text_whole m hm
      rw [← htext] at hpoint hpower
      exact ((point_or_power_mem_floatText x).elim hpoint hpower).elim
    | real y hy =>
      obtain rfl : x = y := hfloats x List.mem_cons_self y List.mem_cons_self htext
      rfl

theorem quoted_append_inj {s t : String} (h : quoted s ++ rest = quoted t ++ rest') :
    s = t ∧ rest = rest' := by
  rw [quoted_eq, quoted_eq] at h
  have hread := readQuoted_escaped s rest
  rw [(List.cons.inj h).2, readQuoted_escaped] at hread
  obtain ⟨rfl, hrest⟩ := Prod.mk.inj (Option.some.inj hread)
  exact ⟨rfl, hrest.symm⟩

def itemsAfter : List Json → Octets → Octets
  | [], rest => 0x5D :: rest
  | v :: items, rest => 0x2C :: (v.print ++ itemsAfter items rest)

def fieldsAfter : List (String × Json) → Octets → Octets
  | [], rest => 0x7D :: rest
  | (name, v) :: fields, rest =>
    0x2C :: (quoted name ++ 0x3A :: (v.print ++ fieldsAfter fields rest))

theorem printItems_append (v : Json) (items : List Json) (rest : Octets) :
    printItems (v :: items) ++ 0x5D :: rest = v.print ++ itemsAfter items rest := by
  induction items generalizing v with
  | nil => rfl
  | cons w items ih =>
    rw [printItems_cons_cons, List.append_assoc, List.cons_append, ih]
    rfl

theorem printFields_append (name : String) (v : Json) (fields : List (String × Json))
    (rest : Octets) :
    printFields ((name, v) :: fields) ++ 0x7D :: rest =
      quoted name ++ 0x3A :: (v.print ++ fieldsAfter fields rest) := by
  induction fields generalizing name v with
  | nil => simp [printFields, fieldsAfter]
  | cons p fields ih =>
    rw [printFields_cons_cons, List.append_assoc, List.cons_append, List.append_assoc,
      List.cons_append, ih]
    rfl

theorem print_array_append (items : List Json) (rest : Octets) :
    (Json.array items).print ++ rest = 0x5B :: (printItems items ++ 0x5D :: rest) := by
  simp [print]

theorem print_object_append (fields : List (String × Json)) (rest : Octets) :
    (Json.object fields).print ++ rest = 0x7B :: (printFields fields ++ 0x7D :: rest) := by
  simp [print]

theorem itemsAfter_eq_of_print {items items' : List Json}
    (h : (Json.array items).print ++ rest = (Json.array items').print ++ rest') :
    itemsAfter items rest = itemsAfter items' rest' := by
  rw [print_array_append, print_array_append] at h
  have h := (List.cons.inj h).2
  cases items with
  | nil =>
    cases items' with
    | nil => exact h
    | cons w items' =>
      rw [printItems_append] at h
      exact absurd h.symm (print_append_ne rfl w)
  | cons v items =>
    rw [printItems_append] at h
    cases items' with
    | nil => exact absurd h (print_append_ne rfl v)
    | cons w items' =>
      rw [printItems_append] at h
      exact congrArg (0x2C :: ·) h

theorem fieldsAfter_eq_of_print {fields fields' : List (String × Json)}
    (h : (Json.object fields).print ++ rest = (Json.object fields').print ++ rest') :
    fieldsAfter fields rest = fieldsAfter fields' rest' := by
  rw [print_object_append, print_object_append] at h
  have h := (List.cons.inj h).2
  cases fields with
  | nil =>
    cases fields' with
    | nil => exact h
    | cons p fields' =>
      rw [printFields_append] at h
      exact nomatch (List.cons.inj h).1
  | cons p fields =>
    rw [printFields_append] at h
    cases fields' with
    | nil => exact nomatch (List.cons.inj h).1
    | cons p' fields' =>
      rw [printFields_append] at h
      exact congrArg (0x2C :: ·) h

theorem endsFigures_itemsAfter (items : List Json) (rest : Octets) :
    EndsFigures (itemsAfter items rest) := by
  cases items <;> rfl

theorem endsFigures_fieldsAfter (fields : List (String × Json)) (rest : Octets) :
    EndsFigures (fieldsAfter fields rest) := by
  cases fields <;> rfl

mutual

theorem print_append_inj : (v w : Json) → ToldApart v.floats w.floats → {rest rest' : Octets} →
    EndsFigures rest → EndsFigures rest' → v.print ++ rest = w.print ++ rest' →
    v = w ∧ rest = rest'
  | .null, w, _, rest, rest', _, _, h => by
    have hkind := kind_eq_of_print h
    cases w with
    | null => exact ⟨rfl, List.append_cancel_left h⟩
    | _ => cases hkind
  | .bool b, w, _, rest, rest', _, _, h => by
    have hkind := kind_eq_of_print h
    cases w with
    | bool c =>
      cases hkind
      exact ⟨rfl, List.append_cancel_left h⟩
    | _ => cases hkind
  | .number n, w, hfloats, rest, rest', hr, hr', h => by
    have hkind := kind_eq_of_print h
    cases w with
    | number m =>
      obtain ⟨htext, hrest⟩ := figures_append_inj (fun _ => isFigureOctet_of_mem_text)
        (fun _ => isFigureOctet_of_mem_text) hr hr' h
      exact ⟨congrArg Json.number (Number.text_inj hfloats htext), hrest⟩
    | _ => cases hkind
  | .string s, w, _, rest, rest', _, _, h => by
    have hkind := kind_eq_of_print h
    cases w with
    | string t =>
      obtain ⟨rfl, hrest⟩ := quoted_append_inj h
      exact ⟨rfl, hrest⟩
    | _ => cases hkind
  | .array items, w, hfloats, rest, rest', _, _, h => by
    have hkind := kind_eq_of_print h
    cases w with
    | array items' =>
      obtain ⟨rfl, hrest⟩ := itemsAfter_inj items items' hfloats (itemsAfter_eq_of_print h)
      exact ⟨rfl, hrest⟩
    | _ => cases hkind
  | .object fields, w, hfloats, rest, rest', _, _, h => by
    have hkind := kind_eq_of_print h
    cases w with
    | object fields' =>
      obtain ⟨rfl, hrest⟩ := fieldsAfter_inj fields fields' hfloats (fieldsAfter_eq_of_print h)
      exact ⟨rfl, hrest⟩
    | _ => cases hkind

theorem itemsAfter_inj : (items items' : List Json) →
    ToldApart (floatsItems items) (floatsItems items') → {rest rest' : Octets} →
    itemsAfter items rest = itemsAfter items' rest' → items = items' ∧ rest = rest'
  | [], [], _, _, _, h => ⟨rfl, (List.cons.inj h).2⟩
  | [], _ :: _, _, _, _, h => nomatch (List.cons.inj h).1
  | _ :: _, [], _, _, _, h => nomatch (List.cons.inj h).1
  | v :: items, w :: items', hfloats, rest, rest', h => by
    obtain ⟨hhead, htail⟩ := toldApart_append hfloats
    obtain ⟨rfl, hafter⟩ := print_append_inj v w hhead (endsFigures_itemsAfter items rest)
      (endsFigures_itemsAfter items' rest') (List.cons.inj h).2
    obtain ⟨rfl, hrest⟩ := itemsAfter_inj items items' htail hafter
    exact ⟨rfl, hrest⟩

theorem fieldsAfter_inj : (fields fields' : List (String × Json)) →
    ToldApart (floatsFields fields) (floatsFields fields') → {rest rest' : Octets} →
    fieldsAfter fields rest = fieldsAfter fields' rest' → fields = fields' ∧ rest = rest'
  | [], [], _, _, _, h => ⟨rfl, (List.cons.inj h).2⟩
  | [], _ :: _, _, _, _, h => nomatch (List.cons.inj h).1
  | _ :: _, [], _, _, _, h => nomatch (List.cons.inj h).1
  | (name, v) :: fields, (name', w) :: fields', hfloats, rest, rest', h => by
    obtain ⟨hhead, htail⟩ := toldApart_append hfloats
    obtain ⟨rfl, hvalue⟩ := quoted_append_inj (List.cons.inj h).2
    obtain ⟨rfl, hafter⟩ := print_append_inj v w hhead (endsFigures_fieldsAfter fields rest)
      (endsFigures_fieldsAfter fields' rest') (List.cons.inj hvalue).2
    obtain ⟨rfl, hrest⟩ := fieldsAfter_inj fields fields' htail hafter
    exact ⟨rfl, hrest⟩

end

theorem print_inj {v w : Json} (hfloats : ToldApart v.floats w.floats) (h : v.print = w.print) :
    v = w := by
  have hend : EndsFigures [] := trivial
  exact (print_append_inj v w hfloats hend hend (congrArg (· ++ []) h)).1

end SessionVault.Json
