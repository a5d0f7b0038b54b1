import SessionVault.Proofs.Settings.Resolve
import SessionVault.Proofs.Text.Split

namespace SessionVault.Endpoint

variable {a b texts : List String} {hosts : List Endpoint} {e : ConfigError}

def commaParts (entries : List String) : List String :=
  entries.flatMap fun s => (Text.splitAll ',' s.toList).map String.ofList

theorem commaParts_append (a b : List String) :
    commaParts (a ++ b) = commaParts a ++ commaParts b :=
  List.flatMap_append

theorem commaParts_singleton (entry : String) :
    commaParts [entry] = (Text.splitAll ',' entry.toList).map String.ofList := by
  simp [commaParts]

theorem commaParts_of_notMem {entry : String} (h : ',' ∉ entry.toList) :
    commaParts [entry] = [entry] := by
  rw [commaParts_singleton, Text.splitAll_of_notMem h, List.map_singleton, String.ofList_toList]

theorem commaParts_singleton_iff {entry : String} {pieces : List String} :
    commaParts [entry] = pieces ↔
      pieces ≠ [] ∧ (∀ p ∈ pieces, ',' ∉ p.toList) ∧ ",".intercalate pieces = entry := by
  have hpieces : commaParts [entry] = pieces ↔
      Text.splitAll ',' entry.toList = pieces.map String.toList := by
    rw [commaParts_singleton]
    constructor
    · rintro rfl
      simp
    · intro h
      simp [h]
  have hjoined : ",".intercalate pieces = entry ↔
      [','].intercalate (pieces.map String.toList) = entry.toList := by
    rw [← String.toList_inj, String.toList_intercalate]
    rfl
  rw [hpieces, hjoined, Text.splitAll_eq_iff, List.forall_mem_map, ne_eq, List.map_eq_nil_iff]

theorem notMem_of_mem_commaParts {p : String} (h : p ∈ commaParts a) : ',' ∉ p.toList := by
  obtain ⟨s, -, hp⟩ := List.mem_flatMap.1 h
  obtain ⟨part, hpart, rfl⟩ := List.mem_map.1 hp
  rw [String.toList_ofList]
  exact Text.notMem_of_mem_splitAll hpart

theorem commaParts_of_forall_notMem (h : ∀ p ∈ a, ',' ∉ p.toList) : commaParts a = a := by
  induction a with
  | nil => rfl
  | cons p a ih =>
    rw [← List.singleton_append, commaParts_append, commaParts_of_notMem (h p List.mem_cons_self),
      ih fun q hq => h q (List.mem_cons_of_mem _ hq)]

theorem commaParts_intercalate (h : a ≠ []) : commaParts [",".intercalate a] = commaParts a := by
  have hmap : a.map String.toList ≠ [] := fun he => h (List.map_eq_nil_iff.1 he)
  rw [commaParts_singleton, String.toList_intercalate]
  have hcomma : (",".toList : List Char) = [','] := rfl
  rw [hcomma, Text.splitAll_intercalate hmap, List.flatMap_map, List.map_flatMap, commaParts]

def hostText? (part : String) : Option String :=
  if Text.trimmed part = "" then none else some (Text.trimmed part)

def partFault? (part : String) : Option ConfigError := (hostText? part).bind fault?

def partValue? (part : String) : Option Endpoint := (hostText? part).bind value?

theorem partFault?_eq_none_iff {part : String} :
    partFault? part = none ↔
      Text.trimmed part = "" ∨ ∃ host, ofText (Text.trimmed part) = .ok host := by
  rw [partFault?, hostText?]
  split
  · next h => exact iff_of_true rfl (.inl h)
  · next h => rw [Option.bind_some, fault?_eq_none_iff, or_iff_right h]

theorem partFault?_eq_some_iff {part : String} :
    partFault? part = some e ↔
      Text.trimmed part ≠ "" ∧ ofText (Text.trimmed part) = .error e := by
  rw [partFault?, hostText?]
  split
  · next h => exact iff_of_false (Option.some_ne_none e).symm fun h' => h'.1 h
  · next h =>
    rw [and_iff_right h, Option.bind_some, fault?]
    cases ofText (Text.trimmed part) <;> simp

theorem parts_eq (entry : String) : parts entry = (commaParts [entry]).filterMap hostText? := by
  rw [commaParts_singleton, parts]
  induction Text.splitAll ',' entry.toList with
  | nil => rfl
  | cons p ps ih =>
    by_cases h : Text.trim p = []
    · simpa [hostText?, Text.trimmed, h] using ih
    · simpa [hostText?, Text.trimmed, h] using ih

theorem flatMap_parts (entries : List String) :
    entries.flatMap parts = (commaParts entries).filterMap hostText? := by
  induction entries with
  | nil => rfl
  | cons entry entries ih =>
    rw [List.flatMap_cons, ih, parts_eq, ← List.filterMap_append, ← commaParts_append,
      List.singleton_append]

theorem ofEntries_eq (entries : List String) :
    ofEntries entries =
      unlessFaulty ((commaParts entries).filterMap partFault?)
        ((commaParts entries).filterMap partValue?) := by
  rw [ofEntries, flatMap_parts, ofTexts_eq, List.filterMap_filterMap, List.filterMap_filterMap]
  rfl

theorem ofTexts_eq_ok_iff : ofTexts texts = .ok hosts ↔ texts.map ofText = hosts.map .ok := by
  rw [ofTexts_eq, unlessFaulty_eq_ok_iff, List.filterMap_eq_nil_iff]
  constructor
  · rintro ⟨hnone, rfl⟩
    exact (map_ok_filterMap_value? hnone).symm
  · intro h
    have hnone : ∀ part ∈ texts, fault? part = none := by
      intro part hpart
      have hmem := List.mem_map_of_mem (f := ofText) hpart
      rw [h] at hmem
      obtain ⟨host, -, hhost⟩ := List.mem_map.1 hmem
      exact fault?_eq_none_iff.2 ⟨host, hhost.symm⟩
    refine ⟨hnone, ?_⟩
    have hvalues := (map_ok_filterMap_value? hnone).trans h
    exact (List.map_inj_right fun _ _ he => Except.ok.inj he).1 hvalues.symm

theorem ofEntries_append_eq_ok_iff :
    ofEntries (a ++ b) = .ok hosts ↔
      ∃ x y, ofEntries a = .ok x ∧ ofEntries b = .ok y ∧ hosts = x ++ y := by
  simp only [ofEntries_eq, commaParts_append, List.filterMap_append, unlessFaulty_eq_ok_iff,
    List.append_eq_nil_iff]
  constructor
  · rintro ⟨⟨ha, hb⟩, hhosts⟩
    exact ⟨_, _, ⟨ha, rfl⟩, ⟨hb, rfl⟩, hhosts⟩
  · rintro ⟨_, _, ⟨ha, rfl⟩, ⟨hb, rfl⟩, hhosts⟩
    exact ⟨⟨ha, hb⟩, hhosts⟩

theorem ofEntries_append_eq_error_iff :
    ofEntries (a ++ b) = .error e ↔
      ofEntries a = .error e ∨ (∃ x, ofEntries a = .ok x) ∧ ofEntries b = .error e := by
  simp only [ofEntries_eq, commaParts_append, List.filterMap_append, unlessFaulty_eq_error_iff,
    unlessFaulty_eq_ok_iff, List.head?_append, Option.or_eq_some_iff, List.head?_eq_none_iff,
    exists_and_left, exists_eq, and_true]

theorem ofEntries_eq_error_iff :
    ofEntries a = .error e ↔
      ∃ before part after, commaParts a = before ++ part :: after ∧
        (∀ p ∈ before, Text.trimmed p = "" ∨ ∃ host, ofText (Text.trimmed p) = .ok host) ∧
        Text.trimmed part ≠ "" ∧ ofText (Text.trimmed part) = .error e := by
  simp only [ofEntries_eq, unlessFaulty_eq_error_iff, List.head?_filterMap,
    List.findSome?_eq_some_iff, partFault?_eq_some_iff, partFault?_eq_none_iff]
  constructor
  · rintro ⟨before, part, after, hparts, hpart, hbefore⟩
    exact ⟨before, part, after, hparts, hbefore, hpart⟩
  · rintro ⟨before, part, after, hparts, hbefore, hpart⟩
    exact ⟨before, part, after, hparts, hpart, hbefore⟩

theorem ofEntries_eq_ok_iff :
    ofEntries a = .ok hosts ↔
      ((commaParts a).filterMap hostText?).map ofText = hosts.map .ok := by
  rw [ofEntries, flatMap_parts, ofTexts_eq_ok_iff]

theorem parts_intercalate (a : List String) : parts (",".intercalate a) = a.flatMap parts := by
  cases a with
  | nil => rfl
  | cons entry a =>
    rw [parts_eq, commaParts_intercalate (List.cons_ne_nil entry a), flatMap_parts]

theorem ofEntries_joined (a : List String) : ofEntries [",".intercalate a] = ofEntries a := by
  rw [ofEntries, ofEntries, List.flatMap_singleton, parts_intercalate]

theorem ofEntries_grouped (groups : List (List String)) :
    ofEntries (groups.map (",".intercalate ·)) = ofEntries groups.flatten := by
  rw [ofEntries, ofEntries, List.flatMap_map, ← List.flatMap_id, List.flatMap_assoc]
  simp only [parts_intercalate, id_eq]

theorem ofEntries_of_forall_notMem (h : ∀ p ∈ b, ',' ∉ p.toList)
    (hb : (commaParts a).filterMap hostText? = b.filterMap hostText?) :
    ofEntries b = ofEntries a := by
  rw [ofEntries, ofEntries, flatMap_parts, flatMap_parts, commaParts_of_forall_notMem h, hb]

theorem ofEntries_parted (a : List String) : ofEntries (commaParts a) = ofEntries a :=
  ofEntries_of_forall_notMem (fun _ => notMem_of_mem_commaParts) rfl

theorem ofEntries_without_blank {before after : List String} {part : String}
    (h : commaParts a = before ++ part :: after) (hblank : Text.trimmed part = "") :
    ofEntries (before ++ after) = ofEntries a := by
  have hnone : hostText? part = none := if_pos hblank
  refine ofEntries_of_forall_notMem (fun p hp => notMem_of_mem_commaParts (a := a) ?_) ?_
  · rw [h]
    exact List.Sublist.subset (List.Sublist.append_left (List.sublist_cons_self part after) before) hp
  · rw [h, List.filterMap_append, List.filterMap_append, List.filterMap_cons_none hnone]

structure ReadByParts (a b : List String) : Prop where
  cut : ∀ entry pieces, commaParts [entry] = pieces ↔
    pieces ≠ [] ∧ (∀ p ∈ pieces, ',' ∉ p.toList) ∧ ",".intercalate pieces = entry
  joined : ofEntries [",".intercalate a] = ofEntries a
  grouped : ∀ groups : List (List String), groups.flatten = a →
    ofEntries (groups.map (",".intercalate ·)) = ofEntries a
  parted : ofEntries (commaParts a) = ofEntries a
  hosts : ∀ hosts, ofEntries a = .ok hosts ↔
    ((commaParts a).filterMap hostText?).map ofText = hosts.map .ok
  fault : ∀ e, ofEntries a = .error e ↔
    ∃ before part after, commaParts a = before ++ part :: after ∧
      (∀ p ∈ before, Text.trimmed p = "" ∨ ∃ host, ofText (Text.trimmed p) = .ok host) ∧
      Text.trimmed part ≠ "" ∧ ofText (Text.trimmed part) = .error e
  appended : ∀ hosts, ofEntries (a ++ b) = .ok hosts ↔
    ∃ x y, ofEntries a = .ok x ∧ ofEntries b = .ok y ∧ hosts = x ++ y
  appended_fault : ∀ e, ofEntries (a ++ b) = .error e ↔
    ofEntries a = .error e ∨ (∃ x, ofEntries a = .ok x) ∧ ofEntries b = .error e
  blank : ∀ before part after, commaParts a = before ++ part :: after →
    Text.trimmed part = "" → ofEntries (before ++ after) = ofEntries a

/-- It does not count which hosts share an entry.  A list is read as its parts are, one after the
other, and refused for the first one that is neither blank nor a host. -/
theorem hosts_are_read_part_by_part (a b : List String) : ReadByParts a b where
  cut _ _ := commaParts_singleton_iff
  joined := ofEntries_joined a
  grouped groups h := h ▸ ofEntries_grouped groups
  parted := ofEntries_parted a
  hosts _ := ofEntries_eq_ok_iff
  fault _ := ofEntries_eq_error_iff
  appended _ := ofEntries_append_eq_ok_iff
  appended_fault _ := ofEntries_append_eq_error_iff
  blank _ _ _ := ofEntries_without_blank

theorem first_bad_part_is_named :
    ofEntries ["a:1, ,b:2", " x ", "c:0"] = .error (.invalidHost "x" .noPort) ∧
      ofEntries ["a:1, ", "b:2, x ,c:0"] = .error (.invalidHost "x" .noPort) := by
  have hread := hosts_are_read_part_by_part ["a:1", " ", "b:2", " x ", "c:0"] []
  have hgood : ∀ p ∈ ["a:1", " ", "b:2"],
      Text.trimmed p = "" ∨ ∃ host, ofText (Text.trimmed p) = .ok host := by
    simp only [List.forall_mem_cons]
    exact ⟨.inr ⟨⟨"a", 1⟩, by decide⟩, .inl (by decide), .inr ⟨⟨"b", 2⟩, by decide⟩, nofun⟩
  have hfault := (hread.fault (.invalidHost "x" .noPort)).2
    ⟨["a:1", " ", "b:2"], " x ", ["c:0"], by decide, hgood, by decide, by decide⟩
  exact ⟨(hread.grouped [["a:1", " ", "b:2"], [" x "], ["c:0"]] rfl).trans hfault,
    (hread.grouped [["a:1", " "], ["b:2", " x ", "c:0"]] rfl).trans hfault⟩

end SessionVault.Endpoint
