import SessionVault.Proofs.Session.Mutation
import SessionVault.Proofs.Session.Reload

namespace SessionVault.Session

inductive Untracked : Session → Prop where
  | fresh (id : String) (maxInactive : UInt64) (now : Instant) :
      Untracked (.fresh id maxInactive now)
  | decoded {r : Registry} {payload : Octets} {s : Session} {metadata : Metadata} :
      decode r payload = .ok (s, metadata) → Untracked s
  | reset (s : Session) : Untracked s.resetTracking

/-- What may happen to the record of a session. -/
inductive Track where
  | edit (e : Edit)
  | reset

def Track.apply : Track → Session → Session
  | .edit e, s => e.apply s
  | .reset, s => s.resetTracking

def after (start : Session) : List Track → Session
  | [] => start
  | t :: earlier => t.apply (after start earlier)

def lastReset (start : Session) : List Track → Session
  | [] => start
  | .reset :: earlier => after start (.reset :: earlier)
  | .edit _ :: earlier => lastReset start earlier

def Altered (start : Session) (tracks : List Track) (name : String) : Prop :=
  ∃ later value earlier, tracks = later ++ .edit (.setAttribute name value) :: earlier ∧
    .reset ∉ later ∧ (after start earlier).holds name value = false

def Repeated (start : Session) (tracks : List Track) : Prop :=
  ∀ later t earlier, tracks = later ++ t :: earlier →
    ∃ name value, t = .edit (.setAttribute name value) ∧
      (after start earlier).holds name value = true

variable {s start : Session} {name : String}

theorem Untracked.record (h : Untracked s) : s.dirty = false ∧ s.changed = .empty := by
  cases h with
  | fresh | reset => exact ⟨rfl, rfl⟩
  | decoded hdecode =>
    obtain ⟨-, input, hbody⟩ := decode_eq_ok hdecode
    obtain ⟨hdirty, hchanged, -⟩ := ofBody_eq_ok hbody
    exact ⟨hdirty, hchanged⟩

theorem isDirty_of_record (hdirty : s.dirty = false) (hchanged : s.changed = .empty) :
    s.isDirty = false := by
  rw [isDirty, hdirty, hchanged]
  rfl

def Named (s : Session) : Prop :=
  ∀ name, s.changed.contains name = true → s.attributes.contains name = true

def Recorded (s : Session) (name : String) : Prop :=
  s.attributes.contains name = true → s.changed.contains name = true

theorem named_of_record (hchanged : s.changed = .empty) : s.Named := by
  intro name h
  rw [hchanged] at h
  cases h

theorem Named.edit (h : s.Named) (e : Edit) : (e.apply s).Named := by
  cases e with
  | setAttribute other value =>
    cases hholds : s.holds other value with
    | true =>
      rw [Edit.apply, setAttribute_of_holds hholds]
      exact h
    | false =>
      rw [Edit.apply, setAttribute_of_not_holds hholds]
      intro name
      simp only [Table.contains_insert, Bool.or_eq_true]
      exact Or.imp_right (h name)
  | removeAttribute other =>
    intro name
    simp only [Edit.apply, removeAttribute, Table.contains_erase, Bool.and_eq_true]
    exact And.imp_right (h name)
  | setPrincipal | markDirty | invalidate => exact h

theorem Recorded.edit (h : s.Recorded name) (e : Edit) : (e.apply s).Recorded name := by
  cases e with
  | setAttribute other value =>
    cases hholds : s.holds other value with
    | true =>
      rw [Edit.apply, setAttribute_of_holds hholds]
      exact h
    | false =>
      rw [Edit.apply, setAttribute_of_not_holds hholds]
      intro hthere
      simp only [Table.contains_insert, Bool.or_eq_true] at hthere ⊢
      exact hthere.imp_right h
  | removeAttribute other =>
    intro hthere
    simp only [Edit.apply, removeAttribute, Table.contains_erase, Bool.and_eq_true] at hthere ⊢
    exact hthere.imp_right h
  | setPrincipal | markDirty | invalidate => exact h

theorem recorded_setAttribute {value : Attribute} (h : s.holds name value = false) :
    ((Edit.setAttribute name value).apply s).Recorded name := by
  intro _
  rw [Edit.apply, setAttribute_of_not_holds h, Table.contains_insert, decide_eq_true rfl,
    Bool.true_or]

variable {tracks : List Track}

theorem named_after (hstart : Untracked start) (tracks : List Track) :
    (after start tracks).Named := by
  induction tracks with
  | nil => exact named_of_record hstart.record.2
  | cons t earlier ih =>
    cases t with
    | edit e => exact ih.edit e
    | reset => exact named_of_record rfl

theorem sameContent_after (tracks : List Track)
    (h : (after start tracks).isDirty = false) :
    (after start tracks).SameContent (lastReset start tracks) := by
  induction tracks with
  | nil => exact ⟨rfl, rfl⟩
  | cons t earlier ih =>
    cases t with
    | reset => exact ⟨rfl, rfl⟩
    | edit e =>
      obtain hdirty | ⟨hsame, hattributes, hprincipal⟩ := e.noted (after start earlier)
      · exact nomatch hdirty.symm.trans h
      · obtain ⟨hattributes', hprincipal'⟩ := ih (hsame.symm.trans h)
        exact ⟨hattributes.trans hattributes', hprincipal.trans hprincipal'⟩

theorem recorded_of_altered (h : Altered start tracks name) :
    (after start tracks).Recorded name := by
  induction tracks with
  | nil =>
    obtain ⟨later, value, earlier, htracks, -⟩ := h
    exact absurd htracks (by simp)
  | cons t rest ih =>
    obtain ⟨later, value, earlier, htracks, hreset, hholds⟩ := h
    cases later with
    | nil =>
      obtain ⟨rfl, rfl⟩ := List.cons.inj htracks
      exact recorded_setAttribute hholds
    | cons t' later =>
      obtain ⟨rfl, hrest⟩ := List.cons.inj htracks
      rw [List.mem_cons, not_or] at hreset
      have hearlier : (after start rest).Recorded name :=
        ih ⟨later, value, earlier, hrest, hreset.2, hholds⟩
      cases t with
      | edit e => exact hearlier.edit e
      | reset => exact absurd rfl hreset.1

theorem after_of_repeated (h : Repeated start tracks) : after start tracks = start := by
  induction tracks with
  | nil => rfl
  | cons t earlier ih =>
    have hearlier : after start earlier = start := by
      refine ih fun later t' rest htracks => ?_
      exact h (t :: later) t' rest (congrArg (t :: ·) htracks)
    obtain ⟨name, value, rfl, hholds⟩ := h [] t earlier rfl
    rw [after, Track.apply, Edit.apply, setAttribute_of_holds hholds]
    exact hearlier

/-- Whatever is done to a session of which nothing was on record: while it counts as clean, its
attributes and its principal are what they were at the last reset; the names on record are names of
attributes that are there, among them all that have been given a new value since the last reset and
are still there; and setting attributes to the values that they have leaves the session clean and
its attributes as they are. -/
theorem record_of_changes_is_sound (hstart : Untracked start) (tracks : List Track) :
    ((after start tracks).isDirty = false →
        (after start tracks).attributes = (lastReset start tracks).attributes ∧
        (after start tracks).principal = (lastReset start tracks).principal) ∧
      (∀ name ∈ (after start tracks).changed.names,
        (after start tracks).attributes.contains name = true) ∧
      (∀ name, Altered start tracks name → (after start tracks).attributes.contains name = true →
        name ∈ (after start tracks).changed.names) ∧
      (Repeated start tracks → (after start tracks).isDirty = false ∧
        (after start tracks).attributes = start.attributes) := by
  refine ⟨sameContent_after tracks, fun name hname => ?_, fun name haltered hthere => ?_,
    fun hrepeated => ?_⟩
  · exact named_after hstart tracks name ((Table.mem_names_iff ..).1 hname)
  · exact (Table.mem_names_iff ..).2 (recorded_of_altered haltered hthere)
  · rw [after_of_repeated hrepeated]
    exact ⟨isDirty_of_record hstart.record.1 hstart.record.2, rfl⟩

theorem counted_visit_is_on_record :
    ∃ start tracks, Untracked start ∧ Altered start tracks "visits" ∧
      "visits" ∈ (after start tracks).changed.names ∧
      "user" ∉ (after start tracks).changed.names := by
  let tracks : List Track := [.edit (.removeAttribute "user"),
    .edit (.setAttribute "visits" (.int64 2)), .edit (.setAttribute "user" (.text "ada")), .reset,
    .edit (.setAttribute "visits" (.int64 1))]
  have hstart : Untracked (.fresh "A" 1800 default) := .fresh "A" 1800 default
  obtain ⟨-, hnamed, hrecorded, -⟩ := record_of_changes_is_sound hstart tracks
  have haltered : Altered (.fresh "A" 1800 default) tracks "visits" := by
    refine ⟨[.edit (.removeAttribute "user")], .int64 2, _, rfl, ?_, by decide +kernel⟩
    simp
  refine ⟨_, tracks, hstart, haltered, hrecorded "visits" haltered (by decide +kernel),
    fun huser => ?_⟩
  exact absurd (hnamed "user" huser) (by decide +kernel)

end SessionVault.Session
