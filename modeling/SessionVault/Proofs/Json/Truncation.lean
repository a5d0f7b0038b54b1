import SessionVault.Proofs.Json.Brackets

namespace SessionVault.Json

section Taking

variable {p q r : Nat → Place} {input middle rest : Octets} {b : UInt8}

theorem Takes.leads_trans (h : Takes (Leads p q) input middle) (h' : Takes (Leads q r) middle rest) :
    Takes (Leads p r) input rest :=
  h.append h' fun _ _ => Leads.append

theorem Takes.leads_cons (h : Takes (Leads q r) input rest) (hp : ∀ d, d ≤ (p d).depth)
    (hb : ∀ d, (p d).step b = q d) : Takes (Leads p r) (b :: input) rest :=
  h.cons fun _ => Leads.cons hp hb

end Taking

def Quote.place : Quote → Nat → Place
  | .plain | .hex .. | .lowSlash .. | .lowHex .. => .quoted
  | .slash | .lowLetter .. => .escaped

section Reading

variable {input rest text : Octets} {q q' : Quote} {b : UInt8}

theorem Quote.le_depth_place (q : Quote) (d : Nat) : d ≤ (q.place d).depth := by
  cases q <;> exact Nat.le_refl d

theorem hexOctetValue?_spec {n : Nat} (h : hexOctetValue? b = some n) : b ≠ 0x22 ∧ b ≠ 0x5C := by
  constructor <;> rintro rfl <;> cases h

theorem Quote.place_ofUnit {n : Nat} (h : Quote.ofUnit n = some (q, text)) :
    q.place = .quoted := by
  unfold Quote.ofUnit at h
  grind [Quote.place]

theorem Quote.place_ofPair {high low : Nat} (h : Quote.ofPair high low = some (q, text)) :
    q.place = .quoted := by
  unfold Quote.ofPair at h
  grind [Quote.place]

theorem Quote.step_place (hend : ¬ (q = .plain ∧ b = 0x22)) (h : q.step b = some (q', text))
    (d : Nat) : (q.place d).step b = q'.place d := by
  cases q with
  | plain =>
    have hq : b ≠ 0x22 := fun hb => hend ⟨rfl, hb⟩
    rw [Quote.step] at h
    split at h
    · next hb =>
      cases h
      rw [hb]
      rfl
    · next hs =>
      split at h
      · cases h
      · cases h
        exact Place.step_quoted hq hs d
  | slash =>
    rw [Quote.step] at h
    split at h
    · cases h
      rfl
    · obtain ⟨c, -, hc⟩ := Option.map_eq_some_iff.1 h
      cases hc
      rfl
  | hex missing n =>
    obtain ⟨digit, hdigit, h⟩ := Option.bind_eq_some_iff.1 h
    obtain ⟨hq, hs⟩ := hexOctetValue?_spec hdigit
    refine (Place.step_quoted hq hs d).trans ?_
    split at h
    · rw [Quote.place_ofUnit h]
    · cases h
      rfl
  | lowSlash high =>
    rw [Quote.step] at h
    split at h
    · next hb =>
      cases h
      rw [hb]
      rfl
    · cases h
  | lowLetter high =>
    rw [Quote.step] at h
    split at h
    · cases h
      rfl
    · cases h
  | lowHex high missing n =>
    obtain ⟨digit, hdigit, h⟩ := Option.bind_eq_some_iff.1 h
    obtain ⟨hq, hs⟩ := hexOctetValue?_spec hdigit
    refine (Place.step_quoted hq hs d).trans ?_
    split at h
    · rw [Quote.place_ofPair h]
    · cases h
      rfl

theorem takes_read (h : q.read input = some (text, rest)) :
    Takes (Leads q.place .outside) input rest := by
  induction input generalizing q text with
  | nil => cases h
  | cons b input ih =>
    rw [Quote.read] at h
    split at h
    · next hend =>
      obtain ⟨rfl, rfl⟩ := hend
      cases h
      exact ⟨[0x22], leads_quoted_end, rfl⟩
    · next hend =>
      obtain ⟨⟨q', added⟩, hstep, h⟩ := Option.bind_eq_some_iff.1 h
      obtain ⟨⟨text', after⟩, hread, h⟩ := Option.bind_eq_some_iff.1 h
      cases h
      exact (ih hread).leads_cons q.le_depth_place (Quote.step_place hend hstep)

/-- Who passes over text that nobody wants knows no pairs of escapes. -/
def Quote.Single : Quote → Prop
  | .plain | .slash | .hex .. => True
  | .lowSlash .. | .lowLetter .. | .lowHex .. => False

theorem takes_skip (hq : q.Single) (h : q.skip input = some rest) :
    Takes (Leads q.place .outside) input rest := by
  induction input generalizing q with
  | nil => cases h
  | cons b input ih =>
    have hcons (q' : Quote) (hq' : q'.Single) (h : q'.skip input = some rest)
        (hb : ∀ d, (q.place d).step b = q'.place d) :
        Takes (Leads q.place .outside) (b :: input) rest :=
      (ih hq' h).leads_cons q.le_depth_place hb
    cases q with
    | plain =>
      rw [Quote.skip] at h
      split at h
      · next hb =>
        cases h
        exact ⟨[b], hb ▸ leads_quoted_end, rfl⟩
      · next hend =>
        split at h
        · next hb => exact hcons .slash trivial h fun _ => hb ▸ rfl
        · next hs =>
          split at h
          · cases h
          · exact hcons .plain trivial h (Place.step_quoted hend hs)
    | slash =>
      simp only [Quote.skip] at h
      split at h
      · exact hcons (.hex 4 0) trivial h fun _ => rfl
      · split at h
        · exact hcons .plain trivial h fun _ => rfl
        · cases h
    | hex missing n =>
      rw [Quote.skip] at h
      split at h
      · cases h
      · next hdigit =>
        obtain ⟨digit, hdigit⟩ := Option.ne_none_iff_exists'.1 (by simpa using hdigit)
        obtain ⟨hend, hs⟩ := hexOctetValue?_spec hdigit
        split at h
        · exact hcons .plain trivial h (Place.step_quoted hend hs)
        · exact hcons (.hex (missing - 1) n) trivial h (Place.step_quoted hend hs)
    | lowSlash | lowLetter | lowHex => exact hq.elim

variable {fuel depth i : Nat} {shape : Shape} {v : Json} {name : String}

abbrev TakesClosed (input rest : Octets) : Prop := Takes Closed input rest

theorem TakesClosed.refl (input : Octets) : TakesClosed input input := ⟨[], Closed.nil, rfl⟩

theorem TakesClosed.trans {middle : Octets} (h : TakesClosed input middle)
    (h' : TakesClosed middle rest) : TakesClosed input rest :=
  h.leads_trans h'

theorem isMark_of_isBlankOctet (h : isBlankOctet b = true) : isMark b = false := by
  unfold isMark
  split
  any_goals cases h
  rfl

theorem takesClosed_blanks (input : Octets) : TakesClosed input (skipBlanks input) := by
  refine ⟨input.takeWhile isBlankOctet, Closed.of_forall fun b hb => ?_, ?_⟩
  · exact isMark_of_isBlankOctet (List.all_eq_true.1 List.all_takeWhile b hb)
  · rw [skipBlanks, List.takeWhile_append_dropWhile]

theorem TakesClosed.blanks_cons {b : UInt8} {after : Octets} (h : skipBlanks input = b :: after)
    (hb : isMark b = false) (hafter : TakesClosed after rest) : TakesClosed input rest := by
  have hblanks := takesClosed_blanks input
  rw [h] at hblanks
  exact hblanks.trans (hafter.leads_cons (fun _ => Nat.le_refl _) (Place.step_outside hb))

theorem takesClosed_quoted (h : Takes (Leads .quoted .outside) input rest) :
    TakesClosed (0x22 :: input) rest :=
  h.leads_cons (fun _ => Nat.le_refl _) fun _ => rfl

theorem takesClosed_readQuoted {s : String} (h : readQuoted input = some (s, rest)) :
    TakesClosed (0x22 :: input) rest := by
  obtain ⟨⟨text, r⟩, hread, h⟩ := Option.bind_eq_some_iff.1 h
  obtain ⟨s, -, h⟩ := Option.bind_eq_some_iff.1 h
  cases h
  exact takesClosed_quoted (takes_read hread)

theorem takesClosed_readString (h : readString shape input = some (v, rest)) :
    TakesClosed (0x22 :: input) rest := by
  unfold readString at h
  split at h
  · obtain ⟨r, hskip, hr⟩ := Option.map_eq_some_iff.1 h
    cases hr
    exact takesClosed_quoted (takes_skip (q := .plain) trivial hskip)
  · obtain ⟨⟨s, r⟩, hread, hr⟩ := Option.map_eq_some_iff.1 h
    cases hr
    exact takesClosed_readQuoted hread

theorem takesClosed_readName (h : readName shape input = some (name, rest)) :
    TakesClosed input rest := by
  unfold readName at h
  split at h
  · next after hafter =>
    have hblanks := takesClosed_blanks input
    rw [hafter] at hblanks
    have hcolon {r u : Octets} (hquoted : TakesClosed (0x22 :: after) r)
        (hr : skipBlanks r = 0x3A :: u) : TakesClosed input u :=
      (hblanks.trans hquoted).trans (.blanks_cons hr rfl (.refl u))
    dsimp only at h
    split at h
    · obtain ⟨p, hskip, h⟩ := Option.bind_eq_some_iff.1 h
      obtain ⟨r, hr, rfl⟩ := Option.map_eq_some_iff.1 hskip
      split at h
      · next hend =>
        cases h
        exact hcolon (takesClosed_quoted (takes_skip (q := .plain) trivial hr)) hend
      · cases h
    · obtain ⟨p, hread, h⟩ := Option.bind_eq_some_iff.1 h
      split at h
      · next hend =>
        cases h
        exact hcolon (takesClosed_readQuoted hread) hend
      · cases h
  · cases h

theorem takesClosed_literal {word : List Char} {w : Json} (hword : Closed (Octets.ascii word))
    (h : literal word w input = some (v, rest)) : TakesClosed input rest := by
  rw [literal] at h
  split at h
  · next hprefix =>
    cases h
    obtain ⟨after, rfl⟩ := hprefix
    refine ⟨Octets.ascii word, hword, ?_⟩
    rw [show word.length = (Octets.ascii word).length from (List.length_map _).symm, List.drop_left]
  · cases h

theorem takesClosed_readNumber (h : readNumber shape input = some (v, rest)) :
    TakesClosed input rest := by
  obtain ⟨⟨numeral, r⟩, hscan, h⟩ := Option.bind_eq_some_iff.1 h
  have hr : r = rest := by
    dsimp only at h
    split at h
    · cases h
      rfl
    · obtain ⟨n, -, hn⟩ := Option.bind_eq_some_iff.1 h
      cases hn
      rfl
  subst hr
  exact (takesFigures_scan hscan).mono fun taken htaken =>
    Closed.of_forall fun b hb => isMark_of_isFigureOctet (htaken b hb)

abbrev TakesTail (input rest : Octets) : Prop :=
  Takes (Leads (fun d => .outside (d + 1)) .outside) input rest

theorem takesClosed_opened {opening : UInt8} {inner : Octets}
    (ho : ∀ d, (Place.outside d).step opening = .outside (d + 1))
    (hinput : skipBlanks input = opening :: inner) (h : TakesTail inner rest) :
    TakesClosed input rest :=
  (hinput ▸ takesClosed_blanks input).trans (h.leads_cons (fun _ => Nat.le_refl _) ho)

theorem TakesTail.after {middle : Octets} (h : TakesClosed input middle)
    (htail : TakesTail middle rest) : TakesTail input rest :=
  (h.mono fun _ => Leads.deeper).leads_trans htail

theorem takesTail_closing {closing : UInt8}
    (hc : ∀ d, (Place.outside (d + 1)).step closing = .outside d)
    (hinput : skipBlanks input = closing :: rest) : TakesTail input rest :=
  .after (hinput ▸ takesClosed_blanks input)
    ((TakesClosed.refl rest).leads_cons (fun d => Nat.le_succ d) hc)

theorem takesTail_comma {after : Octets} (hinput : skipBlanks input = 0x2C :: after)
    (h : TakesTail after rest) : TakesTail input rest :=
  .after (.blanks_cons hinput rfl (.refl after)) h

end Reading

mutual

theorem takesClosed_readValue : (fuel depth : Nat) → (shape : Shape) → (input : Octets) →
    {v : Json} → {rest : Octets} → readValue fuel depth shape input = some (v, rest) →
    TakesClosed input rest
  | 0, _, _, _, _, _, h => by
    rw [readValue] at h
    cases h
  | fuel + 1, depth, shape, input, v, rest, h => by
    rw [readValue] at h
    split at h
    · next inner hinput =>
      refine takesClosed_opened (fun _ => rfl) hinput ?_
      split at h
      · split at h
        · cases h
        · split at h
          · next hinner =>
            cases h
            exact takesTail_closing (fun _ => rfl) hinner
          · obtain ⟨p, hp, he⟩ := Option.map_eq_some_iff.1 h
            cases he
            exact takesTail_readItems fuel _ shape 0 inner hp
      · cases h
    · next inner hinput =>
      refine takesClosed_opened (fun _ => rfl) hinput ?_
      split at h
      · cases h
      · split at h
        · next hinner =>
          cases h
          exact takesTail_closing (fun _ => rfl) hinner
        · obtain ⟨p, hp, he⟩ := Option.map_eq_some_iff.1 h
          cases he
          exact takesTail_readFields fuel _ shape inner hp
    · refine (takesClosed_blanks input).trans ?_
      split at h
      · split at h
        · next hinput => exact hinput ▸ takesClosed_readString h
        · exact takesClosed_literal (Closed.of_any rfl) h
        · exact takesClosed_literal (Closed.of_any rfl) h
        · exact takesClosed_literal (Closed.of_any rfl) h
        · exact takesClosed_readNumber h
      · cases h
termination_by structural fuel => fuel

theorem takesTail_readItems : (fuel depth : Nat) → (shape : Shape) → (i : Nat) →
    (input : Octets) → {items : List Json} → {rest : Octets} →
    readItems fuel depth shape i input = some (items, rest) → TakesTail input rest
  | 0, _, _, _, _, _, _, h => by
    rw [readItems] at h
    cases h
  | fuel + 1, depth, shape, i, input, items, rest, h => by
    rw [readItems] at h
    split at h
    · cases h
    · next s hi =>
      split at h
      · cases h
      · next v after hv =>
        refine .after (takesClosed_readValue fuel depth s input hv) ?_
        split at h
        · next hafter =>
          obtain ⟨p, hp, he⟩ := Option.map_eq_some_iff.1 h
          cases he
          exact takesTail_comma hafter (takesTail_readItems fuel depth shape (i + 1) _ hp)
        · next hafter =>
          cases h
          exact takesTail_closing (fun _ => rfl) hafter
        · cases h

theorem takesTail_readFields : (fuel depth : Nat) → (shape : Shape) → (input : Octets) →
    {fields : List (String × Json)} → {rest : Octets} →
    readFields fuel depth shape input = some (fields, rest) → TakesTail input rest
  | 0, _, _, _, _, _, h => by
    rw [readFields] at h
    cases h
  | fuel + 1, depth, shape, input, fields, rest, h => by
    rw [readFields] at h
    split at h
    · cases h
    · next name value hname =>
      split at h
      · cases h
      · next v after hv =>
        refine .after (takesClosed_readName hname) (.after (takesClosed_readValue fuel depth _ _ hv) ?_)
        dsimp only at h
        split at h
        · next hafter =>
          obtain ⟨p, hp, he⟩ := Option.map_eq_some_iff.1 h
          cases he
          exact takesTail_comma hafter (takesTail_readFields fuel depth shape _ hp)
        · next hafter =>
          cases h
          exact takesTail_closing (fun _ => rfl) hafter
        · cases h

end

theorem closed_of_readAs {shape : Shape} {input : Octets} {v : Json}
    (h : readAs shape input = some v) : Closed input := by
  rw [readAs] at h
  split at h
  · next w rest hw =>
    split at h
    · next hrest =>
      have hend : skipBlanks rest = [] := List.isEmpty_iff.1 hrest
      have hall := (takesClosed_readValue _ _ shape input hw).trans (takesClosed_blanks rest)
      rw [hend] at hall
      obtain ⟨taken, htaken, rfl⟩ := hall
      rwa [List.append_nil]
    · cases h
  · cases h

theorem readAs_nil (shape : Shape) : readAs shape [] = none := by
  have hscan : Numeral.scan [] = none := rfl
  have hread : readValue 2 maxDepth shape [] = none := by
    cases shape <;> simp [readValue, skipBlanks, Shape.takesScalar, readNumber, hscan]
  rw [readAs, List.length_nil, hread]

theorem readAs_of_prefix {fields : List (String × Json)} {t : Octets}
    (h : t <+: (Json.object fields).print) (hne : t ≠ (Json.object fields).print) (shape : Shape) :
    readAs shape t = none := by
  cases t with
  | nil => exact readAs_nil shape
  | cons b t =>
    obtain ⟨rfl, ht⟩ := List.cons_prefix_cons.1 h
    have hinside : t <+: printFields fields := by
      rcases List.prefix_concat_iff.1 ht with rfl | ht
      · exact absurd rfl hne
      · exact ht
    cases hread : readAs shape (0x7B :: t) with
    | none => rfl
    | some v =>
      have hout : (Place.outside 1).pass t = .outside 0 := (closed_of_readAs hread).ends 0
      have hin := (closed_printFields fields).within 1 hinside
      rw [hout] at hin
      exact absurd hin (by decide)

end SessionVault.Json
