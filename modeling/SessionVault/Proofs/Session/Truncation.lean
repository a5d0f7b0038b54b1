import SessionVault.Proofs.Json.Truncation
import SessionVault.Proofs.Session.Payload

namespace SessionVault

def PayloadError.isCorrupt : PayloadError → Bool
  | .shortHeader | .shortHash .. | .longHash | .invalidBody | .invalidAttribute .. => true
  | .unknownType .. | .unencodable .. => false

namespace Session

variable {r : Registry} {s : Session} {m : Metadata} {payload p q : Octets}

theorem decode_of_header (h : p.length < 4) : decode r p = .error .shortHeader := by
  rw [decode, if_pos h]
  rfl

theorem ofBody_of_prefix (h : q <+: s.body.print) (hne : q ≠ s.body.print) :
    ofBody r q = .error .invalidBody := by
  rw [ofBody, Json.readAs_of_prefix h hne]
  rfl

/-- Nothing that `encode` wrote is taken for a session once its end is missing, wherever it is cut
off, and whatever types are registered: the error depends on the part that is cut alone. -/
theorem truncated_payload_is_corrupt (r : Registry) (h : s.encode m = .ok payload)
    (hp : p <+: payload) (hne : p ≠ payload) :
    ∃ e, decode r p = .error e ∧ e.isCorrupt = true ∧
      e = if p.length < 4 then .shortHeader
        else if p.length < 4 + m.hash.length then .shortHash m.hash.length (p.length - 4)
        else .invalidBody := by
  obtain ⟨-, hm, rfl⟩ := encode_eq_ok_iff.1 h
  have hword : (Octets.ofWord (UInt32.ofNat m.hash.length)).length = 4 := rfl
  rw [List.append_assoc] at hp hne
  by_cases hheader : p.length < 4
  · exact ⟨.shortHeader, decode_of_header hheader, rfl, by rw [if_pos hheader]⟩
  obtain ⟨q, rfl⟩ : Octets.ofWord (UInt32.ofNat m.hash.length) <+: p :=
    List.prefix_of_prefix_length_le (List.prefix_append _ _) hp (by omega)
  rw [List.prefix_append_right_inj] at hp
  rw [if_neg hheader, decode_word hm]
  simp only [List.length_append, hword, Nat.add_lt_add_iff_left, Nat.add_sub_cancel_left]
  by_cases hhash : q.length < m.hash.length
  · simp only [if_pos hhash]
    exact ⟨_, rfl, rfl, rfl⟩
  obtain ⟨u, rfl⟩ : m.hash <+: q :=
    List.prefix_of_prefix_length_le (List.prefix_append _ _) hp (by omega)
  rw [List.prefix_append_right_inj] at hp
  have hbody : u ≠ s.body.print := fun hu => hne (by rw [hu])
  simp only [if_neg hhash, List.drop_left, ofBody_of_prefix hp hbody]
  exact ⟨_, rfl, rfl, rfl⟩

theorem braceless_session_is_corrupt :
    ∃ payload, shopping.encode ⟨[1, 2]⟩ = .ok payload ∧ payload.dropLast <+: payload ∧
      payload.dropLast ≠ payload ∧
      decode Registry.standard payload.dropLast = .error .invalidBody := by
  let payload := Octets.ofWord 2 ++ [1, 2] ++ shopping.body.print
  have hencode : shopping.encode ⟨[1, 2]⟩ = .ok payload :=
    encode_eq_ok_iff.2 ⟨shopping_finite.obstacle?_eq_none, by decide, rfl⟩
  have hbody : 0 < shopping.body.print.length := List.length_pos_iff.2 (List.cons_ne_nil _ _)
  have hlength : payload.length = 6 + shopping.body.print.length := by
    simp only [payload, List.length_append]
    rfl
  have hprefix : payload.dropLast <+: payload := List.dropLast_prefix payload
  have hne : payload.dropLast ≠ payload := by
    intro h
    have hsize := congrArg List.length h
    rw [List.length_dropLast] at hsize
    omega
  have hcut : ¬ payload.dropLast.length < 6 := by
    rw [List.length_dropLast]
    omega
  obtain ⟨e, hdecode, -, he⟩ :=
    truncated_payload_is_corrupt Registry.standard hencode hprefix hne
  have he : e = .invalidBody := by
    rw [he, if_neg (by omega)]
    exact if_neg hcut
  exact ⟨payload, hencode, hprefix, hne, he ▸ hdecode⟩

end Session

end SessionVault
