import Mathlib.Data.Nat.Digits.Defs
import MotifQuery.Host.Provider
import MotifQuery.Proofs.Host.Holding

/-!
# `MotifQuery.Proofs.Host.Provider`: what providers leave alone

Loading a graph changes the disk only where an object is kept in a cache, and the file of a
cached object is named by a digest of 64 hexadecimal digits. So a file with any other name
stays through a load (`keepsFile_load`), the file of an upload among them: it is named by a
UUID (`IsUuid`). `UploadHost.Unused` says that an id is new to an upload host.

The providers that a configuration describes are told apart by the schemes of their URIs: only
those that hold uploads accept the URI of an upload (`not_accepts_upload`), and those by their
records alone.
-/

set_option autoImplicit false

namespace MotifQuery

open Text

/-! ### Names of cached objects -/

theorem Number.length_hexDigits {width n : Nat} (hwidth : 0 < width) (h : n < 16 ^ width) :
    (hexDigits width n).length = width := by
  have hlength : (Nat.toDigits 16 n).length ≤ width :=
    (Nat.length_toDigits_le_iff (by decide) hwidth).2 h
  unfold hexDigits
  dsimp only
  rw [List.length_append, List.length_replicate]
  omega

theorem Number.exists_of_mem_toDigits {c : Char} {n : Nat} (h : c ∈ Nat.toDigits 16 n) :
    ∃ k < 16, c = Nat.digitChar k := by
  induction n using Nat.strong_induction_on with
  | _ n ih =>
    rcases Nat.lt_or_ge n 16 with hlt | hge
    · rw [Nat.toDigits_of_lt_base hlt] at h
      exact ⟨n, hlt, List.mem_singleton.1 h⟩
    · rw [Nat.toDigits_of_base_le (by decide) hge, List.mem_append] at h
      rcases h with h | h
      · exact ih (n / 16) (by omega) h
      · exact ⟨n % 16, Nat.mod_lt n (by decide), List.mem_singleton.1 h⟩

/-- The characters of a number are ASCII characters and no strokes. -/
theorem Number.of_mem_hexDigits {c : Char} {width n : Nat} (h : c ∈ hexDigits width n) :
    c.toNat < 0x80 ∧ c ≠ '/' := by
  have hdigit : ∀ k < 16, (Nat.digitChar k).toNat < 0x80 ∧ Nat.digitChar k ≠ '/' := by decide
  unfold hexDigits at h
  dsimp only at h
  rcases List.mem_append.1 h with h | h
  · rw [List.eq_of_mem_replicate h]
    decide
  · obtain ⟨k, hk, rfl⟩ := exists_of_mem_toDigits h
    exact hdigit k hk

theorem Checksum.of_mem_sha256Text {c : Char} {bs : Bytes}
    (h : c ∈ (Checksum.sha256Text bs).toList) : c.toNat < 0x80 ∧ c ≠ '/' := by
  unfold Checksum.sha256Text at h
  dsimp only at h
  rw [String.toList_ofList, List.mem_flatMap] at h
  obtain ⟨w, -, hmem⟩ := h
  exact Number.of_mem_hexDigits hmem

theorem Checksum.stroke_not_mem_sha256Text (bs : Bytes) :
    '/' ∉ (Checksum.sha256Text bs).toList :=
  fun hmem => (of_mem_sha256Text hmem).2 rfl

theorem Checksum.length_sha256Text (bs : Bytes) :
    (Checksum.sha256Text bs).toList.length = 64 := by
  unfold Checksum.sha256Text
  dsimp only
  have hword (w : UInt32) : (Number.hexDigits 8 w.toNat).length = 8 :=
    Number.length_hexDigits (by decide) w.toNat_lt
  rw [String.toList_ofList, List.length_flatMap]
  simp [hword, DigestState.toList]

/-- The name is none that a cached object has. -/
def Uncached (name : String) : Prop :=
  ∀ uri key, lastName (ObjectHost.cacheName uri key) ≠ name

/-- A name that is no digest is that of no cached object, whatever format it ends in. -/
theorem uncached_append_suffix {id : String} (h : id.toList.length ≠ 64) (f : GraphFormat) :
    Uncached (id ++ f.suffix) := by
  intro uri key heq
  unfold ObjectHost.cacheName at heq
  generalize (GraphFormat.ofName? key).getD .graphML = g at heq
  rw [lastName_append _ g.stroke_not_mem_suffix,
    lastName_of_not_mem (Checksum.stroke_not_mem_sha256Text _)] at heq
  rw [← GraphFormat.append_suffix_inj heq, Checksum.length_sha256Text] at h
  exact h rfl

/-! ### New ids -/

/-- The id has the form of a UUID: 36 hexadecimal digits and hyphens. -/
structure IsUuid (id : String) : Prop where
  length : id.toList.length = 36
  chars : ∀ c ∈ id.toList, c = '-' ∨ ('0' ≤ c ∧ c ≤ '9') ∨ ('a' ≤ c ∧ c ≤ 'f')

instance (id : String) : Decidable (IsUuid id) :=
  decidable_of_iff (id.toList.length = 36 ∧
      id.toList.all fun c => c = '-' ∨ ('0' ≤ c ∧ c ≤ '9') ∨ ('a' ≤ c ∧ c ≤ 'f'))
    ⟨fun h => ⟨h.1, by simpa using h.2⟩, fun h => ⟨h.length, by simpa using h.chars⟩⟩

theorem IsUuid.lastName_eq {id : String} (h : IsUuid id) : lastName id = id := by
  refine lastName_of_not_mem fun hmem => ?_
  rcases h.chars '/' hmem with heq | hdigit | hletter
  · exact absurd heq (by decide)
  · exact absurd hdigit (by decide)
  · exact absurd hletter (by decide)

theorem IsUuid.uncached {id : String} (h : IsUuid id) (f : GraphFormat) :
    Uncached (id ++ f.suffix) :=
  uncached_append_suffix (by rw [h.length]; decide) f

namespace UploadHost

variable {h h' : UploadHost} {id other name : String} {now : Instant} {d : Disk}
  {content : Bytes} {u : UploadRecord}

/-- No record of the host goes by the id, or names a file by it. -/
def Unused (h : UploadHost) (id : String) : Prop :=
  h.Lacks id ∧ ∀ entry ∈ h.records.entries, ∀ f : GraphFormat,
    lastName entry.2.path ≠ id ++ f.suffix

instance (h : UploadHost) (id : String) : Decidable (h.Unused id) :=
  decidable_of_iff (h.Lacks id ∧ ∀ entry ∈ h.records.entries, ∀ f ∈ GraphFormat.all,
      lastName entry.2.path ≠ id ++ f.suffix)
    ⟨fun hall => ⟨hall.1, fun entry hentry f => hall.2 entry hentry f f.mem_all⟩,
      fun hall => ⟨hall.1, fun entry hentry f _ => hall.2 entry hentry f⟩⟩

theorem Unused.within (hunused : h.Unused id) (hwithin : h'.Within h) : h'.Unused id :=
  ⟨fun entry hentry => hunused.1 entry (hwithin entry hentry),
    fun entry hentry => hunused.2 entry (hwithin entry hentry)⟩

/-- Storing under another id does not use an id. -/
theorem Unused.store (hunused : h.Unused id) (hother : IsUuid other) (hne : other ≠ id) :
    (h.store now other d content name).host.Unused id := by
  constructor
  · intro entry hentry
    rcases mem_store hentry with hold | ⟨f, expiresAt, rfl⟩
    · exact hunused.1 entry hold
    · exact ⟨hne, hne⟩
  · intro entry hentry g
    rcases mem_store hentry with hold | ⟨f, expiresAt, rfl⟩
    · exact hunused.2 entry hold g
    · show lastName (h.filePath other f) ≠ id ++ g.suffix
      rw [lastName_filePath, hother.lastName_eq]
      exact fun heq => hne (GraphFormat.append_suffix_inj heq)

/-- A record with a new id has a file of its own. -/
theorem Unused.namesApart_withRecord {f : GraphFormat} (hunused : h.Unused u.id)
    (hpath : lastName u.path = u.id ++ f.suffix) : (h.withRecord u).NamesApart u := by
  rintro ⟨key, v⟩ hentry hne
  rw [Dict.mem_entries_iff, get?_withRecord] at hentry
  split at hentry
  · next hkey =>
    cases hentry
    exact absurd (by rw [hkey]) hne
  · rw [hpath]
    exact hunused.2 (key, v) (Dict.mem_entries_iff.2 hentry) f

end UploadHost

/-! ### Loading -/

/-- Loading an object writes one file at most, and its name is that of a cached object. -/
theorem ObjectHost.load_cases (h : ObjectHost) (store : ObjectStore) (d : Disk) (uri : String) :
    (h.load store d uri).disk = d ∨ ∃ path content key,
      d.write path content = .ok (h.load store d uri).disk ∧
        lastName path = lastName (cacheName uri key) := by
  unfold ObjectHost.load
  split
  · next key hkey =>
    unfold loadKey
    split
    · next dir hdir =>
      dsimp only
      split
      · exact .inl rfl
      · unfold fetchTo
        split
        · exact .inl rfl
        · split
          · exact .inl rfl
          · next written hwrite => exact .inr ⟨_, _, key, hwrite, Disk.lastName_join _ _⟩
    · split <;> exact .inl rfl
  · exact .inl rfl

namespace Provider

/-- Loading a graph writes one file at most, and its name is that of a cached object. -/
theorem load_cases (s : Surroundings) (d : Disk) (uri : String) (p : Provider) :
    (p.load s d uri).2 = d ∨ ∃ path content key, d.write path content = .ok (p.load s d uri).2 ∧
      lastName path = lastName (ObjectHost.cacheName uri key) := by
  cases p with
  | objects endpoint h => exact h.load_cases (s.stores endpoint) d uri
  | snapshot served file =>
    rw [load]
    split <;> exact .inl rfl
  | files | propertyTables | uploads | fixed => exact .inl rfl

/-- Loading a graph keeps the files that are no cached objects. -/
theorem keepsFile_load (s : Surroundings) (d : Disk) (uri : String) (p : Provider)
    {path : String} (hname : Uncached (lastName path)) :
    d.KeepsFile path (p.load s d uri).2 := by
  rcases p.load_cases s d uri with hsame | ⟨cached, content, key, hwrite, hcached⟩
  · rw [hsame]
    exact .refl path d
  · refine Disk.keepsFile_write hwrite ?_
    rw [hcached]
    exact hname uri key

/-! ### Providers of a configuration -/

/-- The provider is of a kind that a configuration describes. -/
def Configured : Provider → Prop
  | files _ | objects _ _ | propertyTables _ | uploads _ => True
  | snapshot _ _ | fixed _ => False

theorem configured_of_ofKind {s : Surroundings} {d e : Disk} {kind : ProviderKind} {p : Provider}
    (h : ofKind s d kind = (.ok p, e)) : p.Configured := by
  cases kind with
  | filesystem options =>
    cases h
    exact trivial
  | s3 options =>
    unfold ofKind at h
    dsimp only at h
    split at h
    · cases h
      exact trivial
    · cases h
  | openCypher options =>
    cases h
    exact trivial
  | temporary options =>
    unfold ofKind at h
    dsimp only at h
    rw [Prod.mk.injEq, map_eq_ok_iff] at h
    obtain ⟨⟨host, -, rfl⟩, -⟩ := h
    exact trivial

theorem configured_of_ofConfig {s : Surroundings} {d e : Disk} {c : ProviderConfig} {p : Provider}
    (h : ofConfig s d c = (.ok p, e)) : p.Configured := by
  unfold ofConfig at h
  split at h
  · exact configured_of_ofKind h
  · cases h

/-- A text that opens with another character does not begin so. -/
theorem startsWith_eq_false {s start : String} {c d : Char} {cs ds : List Char} (hcd : c ≠ d)
    (hs : s.toList = c :: cs) (hstart : start.toList = d :: ds) : startsWith s start = false := by
  rw [startsWith, hs, hstart, List.isPrefixOf_cons_cons, beq_eq_false_iff_ne.2 hcd.symm]
  rfl

/-- A configured provider that holds no uploads does not accept the URI of an upload. -/
theorem not_accepts_upload {p : Provider} (hconfigured : p.Configured)
    (hother : ∀ h, p ≠ uploads h) (now : Instant) (id : String) :
    p.accepts now (uploadScheme ++ id) = false := by
  have huri : (uploadScheme ++ id).toList = 't' :: ("emp://".toList ++ id.toList) :=
    String.toList_append
  -- the schemes differ in their first characters
  cases p with
  | files root =>
    have hopening : (fileScheme ++ root).toList = 'f' :: ("ile://".toList ++ root.toList) :=
      String.toList_append
    rw [accepts, startsWith_eq_false (by decide) huri hopening]
    rfl
  | objects endpoint h =>
    have hopening : h.opening.toList = 's' :: ("3://".toList ++ (h.bucket ++ "/").toList) := by
      rw [ObjectHost.opening, String.append_assoc]
      exact String.toList_append
    rw [accepts, ObjectHost.accepts, startsWith_eq_false (by decide) huri hopening]
    rfl
  | propertyTables options =>
    have hopening : propertyScheme.toList = 'o' :: "pencypher://".toList := rfl
    rw [accepts, startsWith_eq_false (by decide) huri hopening]
  | uploads h => exact absurd rfl (hother h)
  | snapshot | fixed => exact hconfigured.elim

end Provider

/-! ### URIs of uploads -/

namespace UploadHost

variable {h : UploadHost} {u : UploadRecord} {now : Instant} {id : String} {d : Disk}

@[simp]
theorem after?_uploadScheme (id : String) : after? uploadScheme (uploadScheme ++ id) = some id :=
  after?_eq_some_iff.2 rfl

theorem live?_eq_some (hholds : h.Holds u) (hlive : u.isExpiredAt now = false) :
    h.live? now u.id = some u := by
  rw [live?, hholds.stored]
  simp [hlive]

/-- A host with nothing but an expired upload under an id has no living one. -/
theorem live?_eq_none (honly : h.Only u) (hexpired : u.isExpiredAt now = true) :
    h.live? now u.id = none := by
  unfold live?
  cases hget : h.records.get? u.id with
  | none => rfl
  | some v =>
    have hentry := honly (u.id, v) (Dict.mem_entries_iff.2 hget) (.inl rfl)
    rw [Prod.mk.injEq] at hentry
    rw [hentry.2]
    simp [hexpired]

theorem Lacks.live?_eq_none (hlacks : h.Lacks id) : h.live? now id = none := by
  unfold live?
  cases hget : h.records.get? id with
  | none => rfl
  | some v => exact absurd rfl (hlacks (id, v) (Dict.mem_entries_iff.2 hget)).1

theorem accepts_of_live? (hlive : h.live? now id = some u)
    (hformat : hasGraphSuffix u.path = true) : h.accepts now (uploadScheme ++ id) = true := by
  rw [accepts, after?_uploadScheme, Option.bind_some, hlive]
  exact hformat

theorem not_accepts_of_live? (hlive : h.live? now id = none) :
    h.accepts now (uploadScheme ++ id) = false := by
  rw [accepts, after?_uploadScheme, Option.bind_some, hlive]
  rfl

theorem resolve_of_live? (hlive : h.live? now id = some u) :
    h.resolve now (uploadScheme ++ id) = .ok u := by
  have hscheme : afterScheme uploadScheme origin (uploadScheme ++ id) = .ok id := by
    rw [afterScheme, after?_uploadScheme]
  simp [resolve, hscheme, hlive, bind, Except.bind, pure, Except.pure]

end UploadHost

end MotifQuery
