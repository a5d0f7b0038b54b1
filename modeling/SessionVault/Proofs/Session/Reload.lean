import SessionVault.Proofs.Decimal.Magnitude
import SessionVault.Proofs.Json.Depth
import SessionVault.Proofs.Session.Payload

/-!
Whatever form a stored session has, reading and storing it once brings it into the form that stays:
`reload_settles`.  A payload may leave fields out or hold them in another order, write structures as
arrays or whole numbers in place of floats; what is read from it can be stored, comes back as it
was, and is stored in the same octets again.
-/

namespace SessionVault

namespace Octets

theorem foldl_lt (o : Octets) (n : Nat) :
    o.foldl (fun n b => n * 256 + b.toNat) n < (n + 1) * 256 ^ o.length := by
  induction o generalizing n with
  | nil => simp
  | cons b o ih =>
    have hb := b.toNat_lt
    calc
      (b :: o).foldl (fun n b => n * 256 + b.toNat) n < (n * 256 + b.toNat + 1) * 256 ^ o.length :=
        ih _
      _ ≤ ((n + 1) * 256) * 256 ^ o.length := Nat.mul_le_mul_right _ (by omega)
      _ = (n + 1) * 256 ^ (b :: o).length := by
        rw [List.length_cons, Nat.pow_succ', Nat.mul_assoc]

theorem toNat_lt (o : Octets) : o.toNat < 256 ^ o.length := by
  simpa [toNat] using foldl_lt o 0

end Octets

/-- What a type makes of a stored value: one of that type, which has a stored form of its own, no
deeper than the value was, and of which the type makes the same again. -/
structure AttributeType.Settles (t : AttributeType) (v : Json) (a : Attribute) : Prop where
  type_eq : a.type = t.name
  covered : match a.ownType? with
    | some own => t = own
    | none => t.read a.toJson = some a
  obstacle? : a.obstacle? = none
  depth_le : a.toJson.depth ≤ v.depth

namespace AttributeType

variable {t : AttributeType} {v : Json} {a : Attribute}

theorem settles_text (h : text.read v = some a) : text.Settles v a := by
  unfold text at h
  dsimp only at h
  split at h
  · cases h
    exact ⟨rfl, rfl, rfl, Nat.le_refl 0⟩
  · cases h

theorem settles_int64 (h : int64.read v = some a) : int64.Settles v a := by
  unfold int64 at h
  dsimp only at h
  split at h
  · split at h
    · cases h
      exact ⟨rfl, rfl, rfl, Nat.le_refl 0⟩
    · cases h
  · cases h

theorem settles_uint64 (h : uint64.read v = some a) : uint64.Settles v a := by
  unfold uint64 at h
  dsimp only at h
  split at h
  · split at h
    · cases h
      exact ⟨rfl, rfl, rfl, Nat.le_refl 0⟩
    · cases h
  · cases h

theorem settles_bool (h : bool.read v = some a) : bool.Settles v a := by
  unfold bool at h
  dsimp only at h
  split at h
  · cases h
    exact ⟨rfl, rfl, rfl, Nat.le_refl 0⟩
  · cases h

theorem settles_float (h : float.read v = some a) : float.Settles v a := by
  have hfin {x : Float} (hx : x.isFinite = true) : float.Settles v (.float x) := by
    refine ⟨rfl, rfl, Attribute.nonFinite?_eq_none_iff.2 hx, ?_⟩
    rw [Attribute.toJson, dif_pos hx]
    exact Nat.zero_le _
  unfold float at h
  dsimp only at h
  split at h
  · next n hn =>
    cases h
    exact hfin (Binary64.isFinite_ofInt (by omega))
  · next x hx =>
    cases h
    exact hfin hx
  · cases h

theorem depth_strings (items : List String) : Json.depthItems (items.map .string) = 0 := by
  refine Nat.le_zero.1 (Json.depthItems_le_iff.2 fun w hw => ?_)
  obtain ⟨s, -, rfl⟩ := List.mem_map.1 hw
  exact Nat.le_refl 0

theorem settles_texts (h : texts.read v = some a) : texts.Settles v a := by
  unfold texts at h
  dsimp only at h
  split at h
  · next items =>
    obtain ⟨l, -, rfl⟩ := Option.map_eq_some_iff.1 h
    refine ⟨rfl, rfl, rfl, ?_⟩
    simp only [Attribute.toJson, Json.depth, depth_strings]
    omega
  · cases h

theorem settles_json (h : json.read v = some a) : json.Settles v a := by
  cases h
  exact ⟨rfl, rfl, rfl, Json.depth_sorted_le v⟩

end AttributeType

namespace Shop

theorem Cart.depth_toJson (c : Cart) : c.toJson.depth = 2 := by
  simp only [toJson, Json.depth, Json.depthFields, AttributeType.depth_strings, Json.ofUInt64]
  rfl

theorem Cart.one_le_depth_of_ofParts? {v w : Json} {c : Cart} (h : ofParts? v w = some c) :
    1 ≤ v.depth := by
  unfold ofParts? at h
  split at h
  · exact Nat.le_add_right 1 _
  · cases h

theorem Cart.two_le_depth_of_ofJson? {v : Json} {c : Cart} (h : ofJson? v = some c) :
    2 ≤ v.depth := by
  unfold ofJson? at h
  split at h
  · obtain ⟨items, hi, h⟩ := Option.bind_eq_some_iff.1 h
    obtain ⟨total, -, h⟩ := Option.bind_eq_some_iff.1 h
    have h₁ := one_le_depth_of_ofParts? h
    have h₂ := Json.depth_le_of_field? hi
    simp only [Json.depth]
    omega
  · have := one_le_depth_of_ofParts? h
    simp only [Json.depth, Json.depthItems]
    omega
  · cases h

theorem Cart.settles_type {v : Json} {a : Attribute} (h : Cart.type.read v = some a) :
    Cart.type.Settles v a := by
  obtain ⟨c, hc, rfl⟩ := Option.map_eq_some_iff.1 h
  refine ⟨rfl, c.read_toJson, rfl, ?_⟩
  have := c.depth_toJson
  have := two_le_depth_of_ofJson? hc
  simp only [toAttribute, Attribute.toJson]
  omega

open AttributeType in
def types : List AttributeType := [text, int64, uint64, bool, float, texts, json, Cart.type]

theorem settles_of_read {t : AttributeType} (ht : t ∈ types) {v : Json} {a : Attribute}
    (h : t.read v = some a) : t.Settles v a := by
  simp only [types, List.mem_cons, List.not_mem_nil, or_false] at ht
  rcases ht with rfl | rfl | rfl | rfl | rfl | rfl | rfl | rfl
  · exact AttributeType.settles_text h
  · exact AttributeType.settles_int64 h
  · exact AttributeType.settles_uint64 h
  · exact AttributeType.settles_bool h
  · exact AttributeType.settles_float h
  · exact AttributeType.settles_texts h
  · exact AttributeType.settles_json h
  · exact Cart.settles_type h

end Shop

namespace Registry

variable {types : List AttributeType} {t : AttributeType} {name : String}

theorem get?_foldl_register {r : Registry} (h : (types.foldl register r).types.get? name = some t) :
    (t ∈ types ∧ t.name = name) ∨ r.types.get? name = some t := by
  induction types generalizing r with
  | nil => exact .inr h
  | cons u types ih =>
    rcases ih h with ⟨hm, hn⟩ | h
    · exact .inl ⟨List.mem_cons_of_mem _ hm, hn⟩
    · rw [register, Table.get?_insert] at h
      split at h
      · next hn => exact .inl (Option.some.inj h ▸ ⟨List.mem_cons_self, hn⟩)
      · exact .inr h

theorem get?_ofList (h : (ofList types).types.get? name = some t) : t ∈ types ∧ t.name = name :=
  (get?_foldl_register h).resolve_right nofun

theorem settles_of_read (ht : types ⊆ Shop.types) {v : Json} {a : Attribute}
    (h : (ofList types).read name v = .ok a) :
    (ofList types).Covers a ∧ a.obstacle? = none ∧ a.toJson.depth ≤ v.depth := by
  rw [read] at h
  split at h
  · cases h
  · next t hget =>
    obtain ⟨hm, hn⟩ := get?_ofList hget
    split at h
    · cases h
    · next b hread =>
      cases h
      have hs := Shop.settles_of_read (ht hm) hread
      exact ⟨⟨t, by rw [hs.type_eq, hn, hget], hs.covered⟩, hs.obstacle?, hs.depth_le⟩

end Registry

namespace Session

variable {r : Registry} {s : Session} {m : Metadata} {v : Json}

theorem depth_lt_of_fieldValues? {names : List String} {values : List (Option Json)}
    (h : fieldValues? names v = some values) {w : Json} (hw : some w ∈ values) :
    w.depth < v.depth := by
  unfold fieldValues? at h
  split at h
  · split at h
    · cases h
      obtain ⟨name, -, hf⟩ := List.mem_map.1 hw
      have := Json.depth_le_of_field? hf
      simp only [Json.depth]
      omega
    · cases h
  · next items =>
    split at h
    · cases h
      rw [List.mem_append, List.mem_map, List.mem_replicate] at hw
      obtain ⟨u, hu, he⟩ := hw.resolve_right nofun
      cases he
      have := Json.depthItems_le_iff.1 (Nat.le_refl (Json.depthItems items)) w hu
      simp only [Json.depth]
      omega
    · cases h
  · cases h

theorem depth_lt_of_untyped? {u : Untyped} (h : untyped? v = some u) :
    u.value.depth < v.depth := by
  obtain ⟨values, hv, h⟩ := Option.bind_eq_some_iff.1 h
  split at h
  · obtain ⟨type, -, h⟩ := Option.bind_eq_some_iff.1 h
    cases h
    exact depth_lt_of_fieldValues? hv (by simp)
  · cases h

theorem depth_lt_of_untypedFields? {fields : List (String × Json)} {l : List (String × Untyped)}
    (h : untypedFields? fields = some l) {p : String × Untyped} (hp : p ∈ l) :
    p.2.value.depth < Json.depthFields fields := by
  induction fields generalizing l with
  | nil =>
    cases h
    cases hp
  | cons q fields ih =>
    obtain ⟨u, hu, h⟩ := Option.bind_eq_some_iff.1 h
    obtain ⟨rest, hr, h⟩ := Option.bind_eq_some_iff.1 h
    cases h
    rcases List.mem_cons.1 hp with rfl | hp
    · exact Nat.lt_of_lt_of_le (depth_lt_of_untyped? hu) (Nat.le_max_left _ _)
    · exact Nat.lt_of_lt_of_le (ih hr hp) (Nat.le_max_right _ _)

theorem depth_lt_of_untypedAttributes? {w : Option Json} {t : Table Untyped}
    (h : untypedAttributes? w = some t) {p : String × Untyped} (hp : p ∈ t.entries) :
    ∃ u, w = some u ∧ p.2.value.depth + 1 < u.depth := by
  unfold untypedAttributes? at h
  split at h
  · cases h
    cases hp
  · next fields =>
    obtain ⟨l, hl, rfl⟩ := Option.map_eq_some_iff.1 h
    have := depth_lt_of_untypedFields? hl (Table.mem_of_mem_ofList hp)
    refine ⟨_, rfl, ?_⟩
    simp only [Json.depth]
    omega
  · cases h

theorem outline?_eq_some {o : Outline} (h : outline? v = some o) :
    o.session.dirty = false ∧ o.session.changed = .empty ∧
      ∀ p ∈ o.attributes.entries, p.2.value.depth + 3 ≤ v.depth := by
  obtain ⟨values, hv, h⟩ := Option.bind_eq_some_iff.1 h
  split at h
  · simp only [bind_pure_comp, Option.map_eq_map, Option.bind_eq_bind,
      Option.bind_eq_some_iff, Option.map_eq_some_iff] at h
    obtain ⟨-, -, -, -, -, -, -, -, -, -, -, -, -, -, t, ht, rfl⟩ := h
    refine ⟨rfl, rfl, fun p hp => ?_⟩
    obtain ⟨w, rfl, hw⟩ := depth_lt_of_untypedAttributes? ht hp
    have := depth_lt_of_fieldValues? hv (w := w) (by simp)
    omega
  · cases h

theorem readAttributes_eq_ok {l : List (String × Untyped)} {done attributes : Table Attribute}
    (h : readAttributes r l done = .ok attributes) {p : String × Attribute}
    (hp : p ∈ attributes.entries) :
    p ∈ done.entries ∨ ∃ u, (p.1, u) ∈ l ∧ r.read u.type u.value = .ok p.2 := by
  induction l generalizing done with
  | nil =>
    cases h
    exact .inl hp
  | cons q l ih =>
    rw [readAttributes, readAttribute] at h
    split at h
    · next a ha =>
      rcases ih h with hd | ⟨u, hu, hr⟩
      · rcases Table.mem_put hd with rfl | hd
        · exact .inr ⟨q.2, List.mem_cons_self, ha⟩
        · exact .inl hd
      · exact .inr ⟨u, List.mem_cons_of_mem _ hu, hr⟩
    · cases h
    · cases h

theorem ofBody_eq_ok {input : Octets} (h : ofBody r input = .ok s) :
    s.dirty = false ∧ s.changed = .empty ∧ ∀ p ∈ s.attributes.entries, ∃ type value,
      r.read type value = .ok p.2 ∧ value.depth + 3 ≤ Json.maxDepth := by
  have hbody : bodyShape.Measured := by
    simp [bodyShape, untypedShape, Json.Shape.Measured, Json.Shape.MeasuredFields]
  rw [ofBody] at h
  split at h
  · cases h
  · next o ho =>
    obtain ⟨v, hv, ho⟩ := Option.bind_eq_some_iff.1 ho
    obtain ⟨hd, hc, hdepth⟩ := outline?_eq_some ho
    cases hr : readAttributes r o.attributes.entries .empty with
    | error e =>
      rw [hr] at h
      cases h
    | ok attributes =>
      rw [hr] at h
      cases h
      refine ⟨hd, hc, fun p hp => ?_⟩
      obtain ⟨u, hu, hread⟩ := (readAttributes_eq_ok hr hp).resolve_left List.not_mem_nil
      exact ⟨_, _, hread, Nat.le_trans (hdepth _ hu) (Json.depth_readAs_le hbody hv)⟩

theorem decode_eq_ok {payload : Octets} (h : decode r payload = .ok (s, m)) :
    m.hash.length < 0x100000000 ∧ ∃ input, ofBody r input = .ok s := by
  obtain ⟨hheader, hhash, hbody⟩ := parts_of_decode h
  refine ⟨?_, _, hbody⟩
  have htake : (payload.take 4).length = 4 := List.length_take_of_le hheader
  have hlt := Octets.toNat_lt (payload.take 4)
  rw [htake] at hlt
  rw [hhash, List.length_take]
  omega

theorem depth_body_le {n : Nat} (hn : 2 ≤ n)
    (h : ∀ p ∈ s.attributes.entries, p.2.toJson.depth + 3 ≤ n) : s.body.depth ≤ n := by
  have hp : (s.principal.elim Json.null .string).depth = 0 := by
    cases s.principal <;> rfl
  have ha : s.attributesJson.depth ≤ n - 1 := by
    have hfields : Json.depthFields (s.attributes.map typedValue).entries ≤ n - 2 := by
      refine Json.depthFields_le_iff.2 fun q hq => ?_
      obtain ⟨p, hp, rfl⟩ := List.mem_map.1 hq
      have := h p hp
      simp only [typedValue, Json.depth, Json.depthFields]
      omega
    simp only [attributesJson, Json.depth]
    omega
  simp only [body, Json.depth, Json.depthFields, Json.ofUInt64, hp]
  omega

def reload (r : Registry) (payload : Octets) : Except PayloadError Octets := do
  let (s, m) ← decode r payload
  s.encode m

theorem reload_eq {payload : Octets} (h : decode r payload = .ok (s, m)) :
    reload r payload = s.encode m := by
  rw [reload, h]
  rfl

theorem storable_of_decode {types : List AttributeType} (ht : types ⊆ Shop.types) {payload : Octets}
    (h : decode (.ofList types) payload = .ok (s, m)) :
    obstacle? s.attributes.entries = none ∧ s.body.depth ≤ Json.maxDepth ∧
      s.resetTracking = s ∧ ∀ name a, s.attribute? name = some a → (Registry.ofList types).Covers a := by
  obtain ⟨-, input, hb⟩ := decode_eq_ok h
  obtain ⟨hd, hc, hread⟩ := ofBody_eq_ok hb
  refine ⟨obstacle?_eq_none_iff.2 fun p hp => ?_, depth_body_le (by decide) fun p hp => ?_, ?_,
    fun name a ha => ?_⟩
  · obtain ⟨type, value, hr, -⟩ := hread p hp
    exact (Registry.settles_of_read ht hr).2.1
  · obtain ⟨type, value, hr, hdepth⟩ := hread p hp
    have := (Registry.settles_of_read ht hr).2.2
    omega
  · rw [resetTracking, ← hd, ← hc]
  · obtain ⟨type, value, hr, -⟩ := hread (name, a) ((Table.get?_eq_some_iff _ _ _).1 ha)
    exact (Registry.settles_of_read ht hr).1

/-- Storing what was read from any payload gives one that is read as the same session behind the
same hash, and that stays as it is when it is read and stored again. -/
theorem reload_settles {types : List AttributeType} (ht : types ⊆ Shop.types) {payload : Octets}
    (h : decode (.ofList types) payload = .ok (s, m))
    (hl : ∀ name a, s.attribute? name = some a → a.toJson.Legible) :
    ∃ stored, s.encode m = .ok stored ∧ decode (.ofList types) stored = .ok (s, m) ∧
      reload (.ofList types) payload = .ok stored ∧ reload (.ofList types) stored = .ok stored := by
  obtain ⟨hf, hdepth, hreset, hcovers⟩ := storable_of_decode ht h
  have hm := (decode_eq_ok h).1
  have he : s.encode m = .ok _ := encode_eq_ok_iff.2 ⟨hf, hm, rfl⟩
  have hr : s.Readable (.ofList types) := fun name a ha => ⟨hcovers name a ha, hl name a ha⟩
  have hdecode := decode_encode hr he
  rw [if_pos hdepth, hreset] at hdecode
  exact ⟨_, he, hdecode, (reload_eq h).trans he, (reload_eq hdecode).trans he⟩

def lenient : Octets :=
  [0, 0, 0, 2, 7, 9] ++ Octets.ofText ("\x7b\"attributes\":\x7b\"ratio\":[\"f64\",3],\"v\":" ++
    "\x7b\"value\":\x7b\"b\":1,\"a\":[null],\"b\":2\x7d,\"note\":0,\"type\":\"json\"\x7d\x7d," ++
    "\"valid\":true,\"is_new\":false,\"extra\":[[]],\"max_inactive_secs\":60,\"id\":\"A\"," ++
    "\"last_accessed_time\":\"1970-1-1T3:4:5+03:00\",\"creation_time\":\"1970-01-01T00:00:00Z\"\x7d")

theorem lenient_accepted : ∃ s m, decode (.ofList Shop.types) lenient = .ok (s, m) ∧
    ∀ p ∈ s.attributes.entries, p.2.toJson.Legible := by
  have h : (decode (.ofList Shop.types) lenient).toOption.any (fun p =>
      ∀ q ∈ p.1.attributes.entries, q.2.toJson.Legible) = true := by
    decide +kernel
  cases hd : decode (.ofList Shop.types) lenient with
  | error e =>
    rw [hd] at h
    cases h
  | ok p =>
    rw [hd] at h
    exact ⟨p.1, p.2, rfl, of_decide_eq_true h⟩

theorem reload_lenient_ne : reload (.ofList Shop.types) lenient ≠ .ok lenient := by
  intro h
  have ho := congrArg Except.toOption h
  revert ho
  decide +kernel

theorem lenient_settles :
    Shop.types ⊆ Shop.types ∧ reload (.ofList Shop.types) lenient ≠ .ok lenient ∧
      ∃ s m stored, decode (.ofList Shop.types) lenient = .ok (s, m) ∧
        (∀ name a, s.attribute? name = some a → a.toJson.Legible) ∧
        s.encode m = .ok stored ∧ decode (.ofList Shop.types) stored = .ok (s, m) ∧
        reload (.ofList Shop.types) lenient = .ok stored ∧
        reload (.ofList Shop.types) stored = .ok stored := by
  obtain ⟨s, m, hd, hp⟩ := lenient_accepted
  have hl : ∀ name a, s.attribute? name = some a → a.toJson.Legible := fun name a ha =>
    hp (name, a) ((Table.get?_eq_some_iff _ _ _).1 ha)
  obtain ⟨stored, hstored⟩ := reload_settles (List.Subset.refl _) hd hl
  exact ⟨List.Subset.refl _, reload_lenient_ne, s, m, stored, hd, hl, hstored⟩

end Session

end SessionVault
