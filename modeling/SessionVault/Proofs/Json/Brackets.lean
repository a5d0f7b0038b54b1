import SessionVault.Proofs.Json.Figures
import SessionVault.Proofs.Json.Reader

/-!
Brackets and quotes in JSON text, followed octet by octet.  Every printed value closes whatever it
opens, and nothing else: `closed_print`.
-/

namespace SessionVault.Json

inductive Place where
  | outside (depth : Nat)
  | quoted (depth : Nat)
  | escaped (depth : Nat)
  deriving DecidableEq

def isMark : UInt8 → Bool
  | 0x22 | 0x5B | 0x5D | 0x7B | 0x7D => true
  | _ => false

namespace Place

def depth : Place → Nat
  | outside d | quoted d | escaped d => d

def step : Place → UInt8 → Place
  | outside d, b =>
    match b with
    | 0x22 => quoted d
    | 0x5B | 0x7B => outside (d + 1)
    | 0x5D | 0x7D => outside (d - 1)
    | _ => outside d
  | quoted d, b => if b = 0x22 then outside d else if b = 0x5C then escaped d else quoted d
  | escaped d, _ => quoted d

def pass (p : Place) (t : Octets) : Place := t.foldl step p

theorem pass_cons (p : Place) (b : UInt8) (t : Octets) : p.pass (b :: t) = (p.step b).pass t := rfl

theorem pass_append (p : Place) (s t : Octets) : p.pass (s ++ t) = (p.pass s).pass t :=
  List.foldl_append

theorem step_outside {b : UInt8} (h : isMark b = false) (d : Nat) :
    (outside d).step b = outside d := by
  unfold isMark at h
  unfold step
  split at h
  all_goals grind

end Place

/-- At any depth, the text leads from one place to the other, and never out of the brackets around
it. -/
structure Leads (p q : Nat → Place) (t : Octets) : Prop where
  ends (d : Nat) : (p d).pass t = q d
  within (d : Nat) {u : Octets} : u <+: t → d ≤ ((p d).pass u).depth

abbrev Closed (t : Octets) : Prop := Leads .outside .outside t

namespace Leads

variable {p q r : Nat → Place} {s t : Octets} {b : UInt8}

theorem nil (h : ∀ d, d ≤ (p d).depth) : Leads p p [] :=
  ⟨fun _ => rfl, fun d _ hu => List.prefix_nil.1 hu ▸ h d⟩

theorem cons (hp : ∀ d, d ≤ (p d).depth) (hb : ∀ d, (p d).step b = q d) (h : Leads q r t) :
    Leads p r (b :: t) := by
  refine ⟨fun d => ?_, fun d u hu => ?_⟩
  · rw [Place.pass_cons, hb]
    exact h.ends d
  · cases u with
    | nil => exact hp d
    | cons c u =>
      obtain ⟨rfl, htail⟩ := List.cons_prefix_cons.1 hu
      rw [Place.pass_cons, hb]
      exact h.within d htail

theorem append (hs : Leads p q s) (ht : Leads q r t) : Leads p r (s ++ t) := by
  refine ⟨fun d => ?_, fun d u hu => ?_⟩
  · rw [Place.pass_append, hs.ends]
    exact ht.ends d
  · rcases List.prefix_or_prefix_of_prefix hu (List.prefix_append s t) with hu | ⟨u, rfl⟩
    · exact hs.within d hu
    · rw [List.prefix_append_right_inj] at hu
      rw [Place.pass_append, hs.ends]
      exact ht.within d hu

theorem deeper (h : Leads p q t) : Leads (fun d => p (d + 1)) (fun d => q (d + 1)) t :=
  ⟨fun d => h.ends (d + 1), fun d _ hu => Nat.le_of_succ_le (h.within (d + 1) hu)⟩

end Leads

namespace Closed

variable {s t : Octets} {b : UInt8}

theorem nil : Closed [] := Leads.nil fun _ => Nat.le_refl _

theorem cons (hb : isMark b = false) (h : Closed t) : Closed (b :: t) :=
  Leads.cons (fun _ => Nat.le_refl _) (Place.step_outside hb) h

theorem of_any (h : t.any isMark = false) : Closed t := by
  induction t with
  | nil => exact nil
  | cons b t ih =>
    rw [List.any_cons, Bool.or_eq_false_iff] at h
    exact cons h.1 (ih h.2)

theorem of_forall (h : ∀ b ∈ t, isMark b = false) : Closed t :=
  of_any (List.any_eq_false.2 fun b hb => Bool.eq_false_iff.1 (h b hb))

theorem bracketed {opening closing : UInt8}
    (ho : ∀ d, (Place.outside d).step opening = .outside (d + 1))
    (hc : ∀ d, (Place.outside (d + 1)).step closing = .outside d) (h : Closed t) :
    Closed (opening :: t ++ [closing]) := by
  have hclosing : Leads (fun d => .outside (d + 1)) .outside [closing] :=
    Leads.cons (fun d => Nat.le_succ d) hc (Leads.nil fun _ => Nat.le_refl _)
  exact Leads.cons (fun _ => Nat.le_refl _) ho (h.deeper.append hclosing)

end Closed

theorem Place.step_quoted {b : UInt8} (hq : b ≠ 0x22) (hs : b ≠ 0x5C) (d : Nat) :
    (quoted d).step b = quoted d := by
  rw [step, if_neg hq, if_neg hs]

theorem leads_quoted_cons {q : Nat → Place} {b : UInt8} {t : Octets} (hq : b ≠ 0x22)
    (hs : b ≠ 0x5C) (h : Leads .quoted q t) : Leads .quoted q (b :: t) :=
  Leads.cons (fun _ => Nat.le_refl _) (Place.step_quoted hq hs) h

theorem leads_quoted_slash {q : Nat → Place} {t : Octets} (h : Leads .escaped q t) :
    Leads .quoted q (0x5C :: t) :=
  Leads.cons (fun _ => Nat.le_refl _) (fun _ => rfl) h

theorem leads_escaped_cons {q : Nat → Place} {t : Octets} (b : UInt8) (h : Leads .quoted q t) :
    Leads .escaped q (b :: t) :=
  Leads.cons (fun _ => Nat.le_refl _) (fun _ => rfl) h

theorem leads_quoted_end : Leads .quoted .outside [0x22] :=
  Leads.cons (fun _ => Nat.le_refl _) (fun _ => rfl) Closed.nil

theorem hexOctet_plain : ∀ n < 16, hexOctet n ≠ 0x22 ∧ hexOctet n ≠ 0x5C := by decide

theorem leads_escape (b : UInt8) : Leads .quoted .quoted (escape b) := by
  have hnil : Leads .quoted .quoted [] := Leads.nil fun _ => Nat.le_refl _
  unfold escape
  split
  · next letter _ => exact leads_quoted_slash (leads_escaped_cons letter hnil)
  · next hletter =>
    split
    · next hb =>
      have hb : b.toNat < 32 := hb
      obtain ⟨hhigh, hhigh'⟩ := hexOctet_plain (b.toNat / 16) (by omega)
      obtain ⟨hlow, hlow'⟩ := hexOctet_plain (b.toNat % 16) (by omega)
      refine leads_quoted_slash (leads_escaped_cons _ ?_)
      refine leads_quoted_cons (by decide) (by decide) (leads_quoted_cons (by decide) (by decide) ?_)
      exact leads_quoted_cons hhigh hhigh' (leads_quoted_cons hlow hlow' hnil)
    · obtain ⟨hq, hs⟩ := plain_of_escapeLetter hletter
      exact leads_quoted_cons hq hs hnil

theorem closed_quoted (s : String) : Closed (quoted s) := by
  have htext : Leads .quoted .quoted ((Octets.ofText s).flatMap escape) := by
    induction Octets.ofText s with
    | nil => exact Leads.nil fun _ => Nat.le_refl _
    | cons b text ih =>
      rw [List.flatMap_cons]
      exact (leads_escape b).append ih
  exact Leads.cons (fun _ => Nat.le_refl _) (fun _ => rfl) (htext.append leads_quoted_end)

theorem isMark_of_isFigureOctet {b : UInt8} (h : isFigureOctet b = true) : isMark b = false := by
  unfold isMark
  split
  any_goals cases h
  rfl

theorem closed_number (n : Number) : Closed (Octets.ascii n.text) :=
  Closed.of_forall fun _ hb => isMark_of_isFigureOctet (isFigureOctet_of_mem_text hb)

mutual

theorem closed_print : (v : Json) → Closed v.print
  | .null => Closed.of_any rfl
  | .bool true => Closed.of_any rfl
  | .bool false => Closed.of_any rfl
  | .number n => closed_number n
  | .string s => closed_quoted s
  | .array items => Closed.bracketed (fun _ => rfl) (fun _ => rfl) (closed_printItems items)
  | .object fields => Closed.bracketed (fun _ => rfl) (fun _ => rfl) (closed_printFields fields)

theorem closed_printItems : (items : List Json) → Closed (printItems items)
  | [] => Closed.nil
  | [v] => closed_print v
  | v :: w :: rest =>
    (closed_print v).append (Closed.cons rfl (closed_printItems (w :: rest)))

theorem closed_printFields : (fields : List (String × Json)) → Closed (printFields fields)
  | [] => Closed.nil
  | [(name, v)] => (closed_quoted name).append (Closed.cons rfl (closed_print v))
  | (name, v) :: p :: rest => by
    rw [printFields_cons_cons]
    refine (closed_quoted name).append (Closed.cons rfl ?_)
    exact (closed_print v).append (Closed.cons rfl (closed_printFields (p :: rest)))

end

end SessionVault.Json
