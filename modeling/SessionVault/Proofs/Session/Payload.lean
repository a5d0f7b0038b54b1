import SessionVault.Proofs.Calendar.Timestamp
import SessionVault.Proofs.Session.Registry
import SessionVault.Session.Payload

namespace SessionVault

namespace Octets

theorem toNat_ofWord (w : UInt32) : toNat (ofWord w) = w.toNat := by
  have h := w.toNat_lt
  simp only [toNat, ofWord, List.foldl_cons, List.foldl_nil, UInt32.toNat_toUInt8,
    UInt32.toNat_shiftRight, Nat.shiftRight_eq_div_pow]
  simp
  omega

end Octets

namespace Session

variable {r : Registry} {s : Session} {m : Metadata}

/-- Every attribute is of a registered type, and every float in it can be read back. -/
def Readable (r : Registry) (s : Session) : Prop :=
  ∀ name a, s.attribute? name = some a → r.Covers a ∧ a.toJson.Legible

def Finite (s : Session) : Prop :=
  ∀ name x, s.attribute? name = some (.float x) → x.isFinite = true

theorem mem_attributes {p : String × Attribute} (h : p ∈ s.attributes.entries) :
    s.attribute? p.1 = some p.2 :=
  (Table.get?_eq_some_iff _ _ _).2 h

theorem obstacle?_eq_none_iff {l : List (String × Attribute)} :
    obstacle? l = none ↔ ∀ p ∈ l, p.2.obstacle? = none := by
  induction l with
  | nil => simp [obstacle?]
  | cons p l ih =>
    simp only [obstacle?, List.forall_mem_cons]
    split
    · next ho => simp [ho]
    · next ho => simp [ho, ih]

theorem finite_iff : s.Finite ↔ obstacle? s.attributes.entries = none := by
  rw [obstacle?_eq_none_iff]
  constructor
  · intro h p hp
    have ha := mem_attributes hp
    cases hv : p.2 with
    | float x =>
      rw [hv] at ha
      exact Attribute.nonFinite?_eq_none_iff.2 (h p.1 x ha)
    | _ => rfl
  · intro h name x hx
    exact Attribute.nonFinite?_eq_none_iff.1 (h (name, .float x) ((Table.get?_eq_some_iff _ _ _).1 hx))

theorem Finite.obstacle?_eq_none (h : s.Finite) : obstacle? s.attributes.entries = none :=
  finite_iff.1 h

def untyped (a : Attribute) : Untyped := ⟨a.type, a.toJson⟩

theorem untyped?_typedValue (a : Attribute) : untyped? (typedValue a) = some (untyped a) := by
  simp [untyped?, typedValue, fieldValues?, Json.field?, string?, untyped]

theorem untypedFields?_map (l : List (String × Attribute)) :
    untypedFields? (l.map fun p => (p.1, typedValue p.2)) =
      some (l.map fun p => (p.1, untyped p.2)) := by
  induction l with
  | nil => rfl
  | cons p l ih => simp [untypedFields?, untyped?_typedValue, ih]

theorem untypedAttributes?_attributesJson (s : Session) :
    untypedAttributes? (some s.attributesJson) = some (s.attributes.map untyped) := by
  have h := untypedFields?_map s.attributes.entries
  have ht := Table.ofList_entries (s.attributes.map untyped)
  simp only [attributesJson, Table.map, untypedAttributes?] at h ht ⊢
  rw [h, Option.map_some, ht]

theorem readAttributes_map {l : List (String × Attribute)}
    (h : ∀ p ∈ l, r.read p.2.type p.2.toJson = .ok p.2) (done : Table Attribute) :
    readAttributes r (l.map fun p => (p.1, untyped p.2)) done =
      .ok (l.foldl (fun t p => t.insert p.1 p.2) done) := by
  induction l generalizing done with
  | nil => rfl
  | cons p l ih =>
    rw [List.forall_mem_cons] at h
    have hr : readAttribute r p.1 (untyped p.2) = .ok p.2 := by
      simp [readAttribute, untyped, h.1, pure, Except.pure]
    rw [List.map_cons, readAttributes, hr]
    exact ih h.2 _

theorem readAttributes_untyped (hr : s.Readable r) (hf : obstacle? s.attributes.entries = none) :
    readAttributes r (s.attributes.map untyped).entries .empty = .ok s.attributes := by
  have hread : ∀ p ∈ s.attributes.entries, r.read p.2.type p.2.toJson = .ok p.2 := by
    intro p hp
    exact Registry.read_toJson (hr p.1 p.2 (mem_attributes hp)).1 (obstacle?_eq_none_iff.1 hf p hp)
  have h := readAttributes_map hread .empty
  rw [← Table.ofList, Table.ofList_entries] at h
  exact h

theorem seconds?_ofUInt64 (n : UInt64) : seconds? (Json.ofUInt64 n) = some n := by
  simp [seconds?, Json.ofUInt64]

theorem fieldValues?_body (s : Session) :
    fieldValues? ["id", "creation_time", "last_accessed_time", "max_inactive_secs", "is_new",
      "valid", "principal", "attributes"] s.body =
      some [some (.string s.id), some (.string s.created.text), some (.string s.accessed.text),
        some (Json.ofUInt64 s.maxInactive), some (.bool s.isNew), some (.bool s.valid),
        some (s.principal.elim .null .string), some s.attributesJson] := by
  simp [fieldValues?, body, Json.field?]

theorem principal?_elim (v : Json) (principal : Option String) :
    principal? v (some (principal.elim .null .string)) = some principal := by
  cases principal <;> rfl

theorem outline?_body (s : Session) :
    outline? s.body =
      some ⟨{ s.resetTracking with attributes := .empty }, s.attributes.map untyped⟩ := by
  simp [outline?, fieldValues?_body, string?, instant?, bool?, seconds?_ofUInt64, principal?_elim,
    Instant.ofText?_text, untypedAttributes?_attributesJson, resetTracking]

theorem legible_typedValues {l : List (String × Attribute)} (h : ∀ p ∈ l, p.2.toJson.Legible) :
    Json.LegibleFields (l.map fun p => (p.1, typedValue p.2)) := by
  induction l with
  | nil => trivial
  | cons p l ih =>
    rw [List.forall_mem_cons] at h
    exact ⟨⟨trivial, h.1, trivial⟩, ih h.2⟩

theorem legible_body (hr : s.Readable r) : s.body.Legible := by
  have ha : s.attributesJson.Legible :=
    legible_typedValues fun p hp => (hr p.1 p.2 (mem_attributes hp)).2
  have hp : (s.principal.elim Json.null .string).Legible := by
    cases s.principal <;> trivial
  exact ⟨trivial, trivial, trivial, trivial, trivial, trivial, hp, ha, trivial⟩

theorem admits_typedValues (l : List (String × Attribute)) :
    (Json.Shape.table untypedShape).AdmitsFields (l.map fun p => (p.1, typedValue p.2)) := by
  induction l with
  | nil => trivial
  | cons p l ih =>
    refine ⟨⟨untypedShape, rfl, nofun, ?_⟩, ih⟩
    exact ⟨⟨.any, rfl, rfl⟩, ⟨.any, rfl, Json.Shape.admits_any _⟩, trivial⟩

theorem admits_body (s : Session) : bodyShape.Admits s.body := by
  refine ⟨nofun, ⟨.any, rfl, rfl⟩, ⟨.any, rfl, rfl⟩, ⟨.any, rfl, rfl⟩, ⟨.any, rfl, rfl⟩,
    ⟨.any, rfl, rfl⟩, ⟨.any, rfl, rfl⟩, ⟨.any, rfl, Json.Shape.admits_any _⟩,
    ⟨.table untypedShape, rfl, nofun, ?_⟩, trivial⟩
  exact admits_typedValues s.attributes.entries

theorem ofBody_body (hr : s.Readable r) (hf : obstacle? s.attributes.entries = none) :
    ofBody r s.body.print =
      if s.body.depth ≤ Json.maxDepth then .ok s.resetTracking else .error .invalidBody := by
  rw [ofBody, Json.readAs_print (legible_body hr) (admits_body s)]
  by_cases hd : s.body.depth ≤ Json.maxDepth
  · rw [if_pos hd, if_pos hd, Option.bind_some, outline?_body]
    simp only [readAttributes_untyped hr hf]
    rfl
  · rw [if_neg hd, if_neg hd]
    rfl

theorem decode_word {n : Nat} (hn : n < 0x100000000) (rest : Octets) :
    decode r (Octets.ofWord (UInt32.ofNat n) ++ rest) =
      if rest.length < n then .error (.shortHash n rest.length)
      else (ofBody r (rest.drop n)).map fun s => (s, ⟨rest.take n⟩) := by
  have hw : (Octets.ofWord (UInt32.ofNat n)).length = 4 := rfl
  have hnat : Octets.toNat (Octets.ofWord (UInt32.ofNat n)) = n := by
    rw [Octets.toNat_ofWord, UInt32.toNat_ofNat_of_lt' hn]
  generalize Octets.ofWord (UInt32.ofNat n) = w at hw hnat
  have ht : (w ++ rest).take 4 = w := by rw [← hw, List.take_left]
  have hd : (w ++ rest).drop 4 = rest := by rw [← hw, List.drop_left]
  rw [decode, if_neg (by simp [hw]), ht, hd, hnat]
  dsimp only
  split
  · rfl
  · cases ofBody r (rest.drop n) <;> rfl

theorem decode_append {hash body : Octets} (hl : hash.length < 0x100000000) :
    decode r (Octets.ofWord (UInt32.ofNat hash.length) ++ hash ++ body) =
      (ofBody r body).map fun s => (s, ⟨hash⟩) := by
  have hlong : ¬ (hash ++ body).length < hash.length := by simp
  rw [List.append_assoc, decode_word hl, if_neg hlong, List.drop_left, List.take_left]

theorem encode_eq_ok_iff {payload : Octets} :
    s.encode m = .ok payload ↔ obstacle? s.attributes.entries = none ∧
      m.hash.length < 0x100000000 ∧
      payload = Octets.ofWord (UInt32.ofNat m.hash.length) ++ m.hash ++ s.body.print := by
  unfold encode
  split
  · next e he => simp [he, throw, throwThe, MonadExceptOf.throw]
  · next he =>
    split
    · next hl => simp [he, hl, pure, Except.pure, eq_comm]
    · next hl => simp [he, hl, throw, throwThe, MonadExceptOf.throw]

theorem decode_encode {payload : Octets} (hr : s.Readable r) (h : s.encode m = .ok payload) :
    decode r payload =
      if s.body.depth ≤ Json.maxDepth then .ok (s.resetTracking, m) else .error .invalidBody := by
  obtain ⟨hf, hl, rfl⟩ := encode_eq_ok_iff.1 h
  rw [decode_append hl, ofBody_body hr hf]
  split <;> rfl

theorem hash_eq_ok (hf : obstacle? s.attributes.entries = none) :
    s.hash = .ok (Digest.sha256 s.attributesJson.print) := by
  rw [hash, hf]
  rfl

theorem exists_payload_of_hash {hash : Octets} (h : s.hash = .ok hash) :
    ∃ payload, s.encode ⟨hash⟩ = .ok payload := by
  cases ho : obstacle? s.attributes.entries with
  | some e =>
    rw [Session.hash, ho] at h
    cases h
  | none =>
    cases (hash_eq_ok ho).symm.trans h
    refine ⟨_, encode_eq_ok_iff.2 ⟨ho, ?_, rfl⟩⟩
    rw [Digest.sha256_length]
    decide

theorem Finite.exists_payload (h : s.Finite) :
    ∃ hash payload, s.hash = .ok hash ∧ s.encode ⟨hash⟩ = .ok payload := by
  have hhash := hash_eq_ok h.obstacle?_eq_none
  obtain ⟨payload, hpayload⟩ := exists_payload_of_hash hhash
  exact ⟨_, payload, hhash, hpayload⟩

theorem parts_of_decode {payload : Octets} (h : decode r payload = .ok (s, m)) :
    4 ≤ payload.length ∧ m.hash = (payload.drop 4).take (Octets.toNat (payload.take 4)) ∧
      ofBody r ((payload.drop 4).drop (Octets.toNat (payload.take 4))) = .ok s := by
  rw [decode] at h
  split at h
  · cases h
  · next hheader =>
    dsimp only at h
    split at h
    · cases h
    · cases hbody : ofBody r ((payload.drop 4).drop (Octets.toNat (payload.take 4))) with
      | error e =>
        rw [hbody] at h
        cases h
      | ok t =>
        rw [hbody] at h
        cases h
        exact ⟨Nat.le_of_not_lt hheader, rfl, rfl⟩

/-- A session whose attributes can be stored and read comes back from its stored form as it was, to
its hash, and counts as unchanged. -/
theorem stored_session_comes_back (r : Registry) (s : Session) (m : Metadata) (hr : s.Readable r)
    (hf : s.Finite) (hm : m.hash.length < 0x100000000) (hd : s.body.depth < 128) :
    ∃ payload t h, s.encode m = .ok payload ∧ decode r payload = .ok (t, m) ∧
      t.id = s.id ∧ t.created = s.created ∧ t.accessed = s.accessed ∧
      t.maxInactive = s.maxInactive ∧ t.isNew = s.isNew ∧ t.valid = s.valid ∧
      t.principal = s.principal ∧ t.attributes = s.attributes ∧
      t.isDirty = false ∧ t.changed = .empty ∧ s.hash = .ok h ∧ t.hash = .ok h := by
  have ho := hf.obstacle?_eq_none
  have he : s.encode m = .ok _ := encode_eq_ok_iff.2 ⟨ho, hm, rfl⟩
  have hdecode := decode_encode hr he
  have hmax : s.body.depth ≤ Json.maxDepth := Nat.le_of_lt_succ hd
  rw [if_pos hmax] at hdecode
  exact ⟨_, s.resetTracking, _, he, hdecode, rfl, rfl, rfl, rfl, rfl, rfl, rfl, rfl, rfl, rfl,
    hash_eq_ok ho, hash_eq_ok (s := s.resetTracking) ho⟩

open Shop in
def shopping : Session :=
  { fresh "A" 1800 default with
    principal := some "alice"
    attributes :=
      ⟨[("cart", Cart.toAttribute ⟨["tea \"fine\"", "cup"], 1299⟩), ("ratio", .float 0.25),
        ("visits", .int64 (-3))], by decide⟩ }

def shopRegistry : Registry := Registry.standard.register Shop.Cart.type

theorem shopping_readable : shopping.Readable shopRegistry := by
  intro name a ha
  have hm := (Table.get?_eq_some_iff _ _ _).1 ha
  simp only [shopping, List.mem_cons, Prod.mk.injEq, List.not_mem_nil, or_false] at hm
  rcases hm with ⟨_, rfl⟩ | ⟨_, rfl⟩ | ⟨_, rfl⟩
  · exact ⟨Registry.covers_cart rfl _, ⟨trivial, trivial, trivial⟩, trivial, trivial⟩
  · refine ⟨⟨.float, rfl, rfl⟩, ?_⟩
    have hx : (0.25 : Float).isFinite = true := by decide +kernel
    have hb : (Json.Number.real 0.25 (by decide +kernel)).ReadsBack := by decide +kernel
    simpa [Attribute.toJson, hx, Json.Legible, Json.Number.Legible] using hb
  · exact ⟨⟨.int64, rfl, rfl⟩, trivial⟩

theorem shopping_finite : shopping.Finite := finite_iff.2 (by decide +kernel)

theorem shopping_comes_back :
    shopping.Readable shopRegistry ∧ shopping.Finite ∧ shopping.body.depth < 128 ∧
      ∃ payload t h, shopping.encode ⟨[1, 2]⟩ = .ok payload ∧
        decode shopRegistry payload = .ok (t, ⟨[1, 2]⟩) ∧
        t.id = "A" ∧ t.created = default ∧ t.accessed = default ∧ t.maxInactive = 1800 ∧
        t.isNew = true ∧ t.valid = true ∧ t.principal = some "alice" ∧
        t.attributes = shopping.attributes ∧ t.isDirty = false ∧ t.changed = .empty ∧
        shopping.hash = .ok h ∧ t.hash = .ok h :=
  ⟨shopping_readable, shopping_finite, by decide,
    stored_session_comes_back shopRegistry shopping ⟨[1, 2]⟩ shopping_readable shopping_finite
      (by decide) (by decide)⟩

end Session

end SessionVault
