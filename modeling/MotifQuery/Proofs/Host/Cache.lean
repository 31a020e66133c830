import MotifQuery.Proofs.Disk.Directory
import MotifQuery.Proofs.Host.Provider

/-!
# `MotifQuery.Proofs.Host.Cache`: the cache of an object store

Graphs are loaded from a bucket one after the other, while objects are put, changed and deleted
in between: each load comes with the store as it is then (`ObjectCall`). What the cache has is
what was fetched first (`ObjectHost.firstFetch?`). `ObjectHost.serve_cases` says what one load
does on a disk whose cache is in order (`ObjectHost.Caches`), and a load keeps it so. So a whole
run of loads gives what the first fetches gave (`ObjectHost.served_from_first_fetch`), and as
long as objects stay as they were fetched, a cache makes no difference.
-/

set_option autoImplicit false

namespace MotifQuery

open Text

/-- A load of the object with a key, and the store at that time. -/
structure ObjectCall where
  store : ObjectStore
  key : String

namespace ObjectHost

/-- The name of the file that keeps the object with a key. -/
def cached (h : ObjectHost) (key : String) : String :=
  cacheName (h.opening ++ key) key

/-- The format that the object with a key is read in. -/
def formatOf (key : String) : GraphFormat :=
  (GraphFormat.ofName? key).getD .graphML

/-- What a call gives on a disk. -/
def serve (h : ObjectHost) (d : Disk) (c : ObjectCall) : Loading :=
  h.load c.store d (h.opening ++ c.key)

/-- The disk after calls one after the other. -/
def diskAfter (h : ObjectHost) (d : Disk) (calls : List ObjectCall) : Disk :=
  calls.foldl (fun d c => (h.serve d c).disk) d

/-- What the first fetch of an object that succeeds gives. -/
def firstFetch? (h : ObjectHost) (calls : List ObjectCall) (key : String) : Option Bytes :=
  calls.findSome? fun c => if c.key = key then (c.store h.bucket key).toOption else none

variable {h : ObjectHost} {calls : List ObjectCall} {c : ObjectCall} {key other dir : String}
  {content : Bytes} {d e : Disk} {p : DiskPlace}

/-! ### Names in the cache -/

theorem plainName_cached (h : ObjectHost) (key : String) : Disk.PlainName (h.cached key) :=
  Disk.plainName_append_suffix (fun _ hc => Checksum.of_mem_sha256Text hc)
    (by rw [Checksum.length_sha256Text]; decide) _

/-- Two objects share a file of the cache only when their URIs share a digest. -/
theorem digest_eq_of_cached (hname : h.cached key = h.cached other) :
    Checksum.sha256Text (bytesOf (h.opening ++ key))
      = Checksum.sha256Text (bytesOf (h.opening ++ other)) :=
  GraphFormat.append_suffix_inj hname

theorem ofName?_join_cached (dir : String) (h : ObjectHost) (key : String) :
    GraphFormat.ofName? (Disk.join dir (h.cached key)) = some (formatOf key) :=
  GraphFormat.ofName?_join dir _ _

/-! ### First fetches -/

theorem firstFetch?_concat (h : ObjectHost) (calls : List ObjectCall) (c : ObjectCall)
    (key : String) : h.firstFetch? (calls ++ [c]) key
      = (h.firstFetch? calls key).or
          (if c.key = key then (c.store h.bucket key).toOption else none) := by
  rw [firstFetch?, List.findSome?_append, List.findSome?_singleton]
  rfl

/-- What was fetched first was fetched by one of the calls. -/
theorem exists_call_of_firstFetch? (hfetch : h.firstFetch? calls key = some content) :
    ∃ c ∈ calls, c.key = key ∧ c.store h.bucket key = .ok content := by
  obtain ⟨c, hc, hcontent⟩ := List.exists_of_findSome?_eq_some hfetch
  split at hcontent
  · next hkey =>
    refine ⟨c, hc, hkey, ?_⟩
    cases hstore : c.store h.bucket key with
    | ok found =>
      rw [hstore] at hcontent
      exact congrArg _ (Option.some.inj hcontent)
    | error f =>
      rw [hstore] at hcontent
      cases hcontent
  · cases hcontent

/-- A call whose object was fetched, or is not given, fetches nothing new. -/
theorem firstFetch?_concat_eq_self (hold : (h.firstFetch? calls c.key).isSome ∨
    (c.store h.bucket c.key).toOption = none) (key : String) :
    h.firstFetch? (calls ++ [c]) key = h.firstFetch? calls key := by
  rw [firstFetch?_concat]
  split
  · next hkey =>
    subst hkey
    rcases hold with hsome | hnone
    · obtain ⟨content, hcontent⟩ := Option.isSome_iff_exists.1 hsome
      rw [hcontent, Option.some_or]
    · rw [hnone, Option.or_none]
  · exact Option.or_none

/-- A call that is given an object that was not fetched fetches it first. -/
theorem firstFetch?_concat_of_fetch (hnew : h.firstFetch? calls c.key = none)
    (hstore : c.store h.bucket c.key = .ok content) (key : String) :
    h.firstFetch? (calls ++ [c]) key
      = if c.key = key then some content else h.firstFetch? calls key := by
  rw [firstFetch?_concat]
  split
  · next hkey =>
    subst hkey
    rw [hnew, hstore]
    rfl
  · exact Option.or_none

/-! ### One call -/

/-- With a cache a call reads its file, made from what the store gives where there is none. -/
theorem serve_eq_cached (hdir : h.cacheDir = some dir) (d : Disk) (c : ObjectCall) :
    h.serve d c = if d.contains (Disk.join dir (h.cached c.key))
      then ⟨d.readGraph (Disk.join dir (h.cached c.key)), d, false⟩
      else h.fetchTo c.store d c.key (Disk.join dir (h.cached c.key)) := by
  rw [serve, load, after?_eq_some_iff.2 rfl]
  dsimp only
  rw [loadKey, hdir]
  rfl

/-- Without a cache a call reads what the store gives. -/
theorem serve_eq_uncached (hdir : h.cacheDir = none) (d : Disk) (c : ObjectCall) :
    h.serve d c = ⟨c.store h.bucket c.key >>= (formatOf c.key).read, d, true⟩ := by
  rw [serve, load, after?_eq_some_iff.2 rfl]
  dsimp only
  rw [loadKey, hdir]
  dsimp only
  cases c.store h.bucket c.key <;> rfl

/-- The cache has the objects that calls fetched, each in its file, and no other file. -/
structure Caches (h : ObjectHost) (dir : String) (p : DiskPlace) (calls : List ObjectCall)
    (d : Disk) : Prop where
  opens : d.Opens dir p
  kept : ∀ key content, h.firstFetch? calls key = some content →
    d.lookup (Disk.join dir (h.cached key)) = .ok (.file content)
  fetched : ∀ name, name ≠ "" → '/' ∉ name.toList → (d.node? (p.child name)).isSome →
    ∃ key, (h.firstFetch? calls key).isSome ∧ name = h.cached key

/-- No object that was fetched shares its file with the object of a call. -/
def Apart (h : ObjectHost) (calls : List ObjectCall) (c : ObjectCall) : Prop :=
  ∀ key, (h.firstFetch? calls key).isSome → h.cached key = h.cached c.key → key = c.key

/-- The cache has an object exactly when it was fetched. -/
theorem Caches.contains_iff (hcaches : h.Caches dir p calls d) (hapart : h.Apart calls c) :
    d.contains (Disk.join dir (h.cached c.key)) = true ↔ (h.firstFetch? calls c.key).isSome := by
  have hname := h.plainName_cached c.key
  constructor
  · intro hcontains
    obtain ⟨node, hnode⟩ := Option.isSome_iff_exists.1 hcontains
    have hlookup : d.lookup (Disk.join dir (h.cached c.key)) = .ok node := by
      cases hfound : d.lookup (Disk.join dir (h.cached c.key)) with
      | ok found => rw [hfound] at hnode; exact congrArg _ (Option.some.inj hnode)
      | error fault => rw [hfound] at hnode; cases hnode
    have hplace := (hcaches.opens.lookup_join hname (Disk.usable_of_lookup hlookup)).1 hlookup
    obtain ⟨key, hkey, hcached⟩ :=
      hcaches.fetched _ hname.nonempty hname.stroke (hplace ▸ rfl)
    exact hapart key hkey hcached.symm ▸ hkey
  · intro hfetched
    obtain ⟨content, hcontent⟩ := Option.isSome_iff_exists.1 hfetched
    rw [Disk.contains, hcaches.kept _ content hcontent]
    rfl

/-- A call is served from the cache when its object was fetched before, and from the store
otherwise; what the store gives is kept. -/
theorem serve_cases (hdir : h.cacheDir = some dir) (hcaches : h.Caches dir p calls d)
    (hapart : h.Apart calls c)
    (husable : ∀ content, c.store h.bucket c.key = .ok content →
      Disk.Usable (Disk.join dir (h.cached c.key))) :
    (∃ content, h.firstFetch? calls c.key = some content ∧
      h.serve d c = ⟨(formatOf c.key).read content, d, false⟩) ∨
    (h.firstFetch? calls c.key = none ∧ ∃ f, c.store h.bucket c.key = .error f ∧
      h.serve d c = ⟨.error f, d, true⟩) ∨
    (h.firstFetch? calls c.key = none ∧ ∃ content e, c.store h.bucket c.key = .ok content ∧
      d.write (Disk.join dir (h.cached c.key)) content = .ok e ∧
      h.serve d c = ⟨(formatOf c.key).read content, e, true⟩) := by
  have hserve := serve_eq_cached hdir d c
  have hformat := ofName?_join_cached dir h c.key
  have hcontains := hcaches.contains_iff hapart
  cases hfetched : h.firstFetch? calls c.key with
  | some content =>
    rw [hfetched] at hcontains
    rw [if_pos (hcontains.2 rfl), Disk.readGraph_of_lookup hformat (hcaches.kept _ _ hfetched)]
      at hserve
    exact .inl ⟨content, rfl, hserve⟩
  | none =>
    rw [hfetched] at hcontains
    have hmissing : ¬ d.contains (Disk.join dir (h.cached c.key)) = true := by
      rw [hcontains]
      exact Bool.false_ne_true
    rw [if_neg hmissing, fetchTo] at hserve
    refine .inr ?_
    generalize c.store h.bucket c.key = answer at hserve husable ⊢
    cases answer with
    | error f => exact .inl ⟨rfl, f, rfl, hserve⟩
    | ok content =>
      have hname := h.plainName_cached c.key
      -- nothing stands at the name, so a file can be written there
      have hnode : d.node? (p.child (h.cached c.key)) ≠ some .directory := by
        intro hdirectory
        have hlookup := (hcaches.opens.lookup_join hname (husable content rfl)).2 hdirectory
        rw [Disk.contains, hlookup] at hmissing
        exact hmissing rfl
      obtain ⟨e, he⟩ := hcaches.opens.exists_write hname (husable content rfl) hnode content
      dsimp only at hserve
      rw [he] at hserve
      dsimp only at hserve
      rw [Disk.readGraph_of_lookup hformat (Disk.lookup_write he)] at hserve
      exact .inr ⟨rfl, content, e, rfl, he, hserve⟩

/-- The store is asked for what was not fetched before, and what was fetched first is read. -/
theorem served_of_caches (hdir : h.cacheDir = some dir) (hcaches : h.Caches dir p calls d)
    (hapart : h.Apart calls c)
    (husable : ∀ content, c.store h.bucket c.key = .ok content →
      Disk.Usable (Disk.join dir (h.cached c.key))) :
    ((h.serve d c).asked = true ↔ h.firstFetch? calls c.key = none) ∧
      (h.serve d c).graph = (h.firstFetch? calls c.key).elim (c.store h.bucket c.key) .ok
        >>= (formatOf c.key).read := by
  rcases serve_cases hdir hcaches hapart husable with ⟨content, hfirst, hserve⟩ |
    ⟨hfirst, f, hstore, hserve⟩ | ⟨hfirst, content, e, hstore, -, hserve⟩
  · rw [hserve, hfirst]
    exact ⟨⟨nofun, nofun⟩, rfl⟩
  · rw [hserve, hfirst, hstore]
    exact ⟨⟨fun _ => rfl, fun _ => rfl⟩, rfl⟩
  · rw [hserve, hfirst, hstore]
    exact ⟨⟨fun _ => rfl, fun _ => rfl⟩, rfl⟩

theorem Caches.congr (hcaches : h.Caches dir p calls d) {calls' : List ObjectCall}
    (hsame : ∀ key, h.firstFetch? calls' key = h.firstFetch? calls key) :
    h.Caches dir p calls' d where
  opens := hcaches.opens
  kept key content hkey := hcaches.kept key content (hsame key ▸ hkey)
  fetched name hempty hstroke hname := by
    obtain ⟨key, hkey, hcached⟩ := hcaches.fetched name hempty hstroke hname
    exact ⟨key, hsame key ▸ hkey, hcached⟩

/-- A call leaves the cache in order. -/
theorem Caches.serve (hdir : h.cacheDir = some dir) (hcaches : h.Caches dir p calls d)
    (hapart : h.Apart calls c)
    (husable : ∀ content, c.store h.bucket c.key = .ok content →
      Disk.Usable (Disk.join dir (h.cached c.key))) :
    h.Caches dir p (calls ++ [c]) (h.serve d c).disk := by
  rcases serve_cases hdir hcaches hapart husable with ⟨content, hfetched, hserve⟩ |
    ⟨-, f, hstore, hserve⟩ | ⟨hnew, content, e, hstore, he, hserve⟩
  · rw [hserve]
    exact hcaches.congr (firstFetch?_concat_eq_self (.inl (hfetched ▸ rfl)))
  · rw [hserve]
    exact hcaches.congr (firstFetch?_concat_eq_self (.inr (hstore ▸ rfl)))
  · rw [hserve]
    have hname := h.plainName_cached c.key
    obtain ⟨hopens, hnode⟩ := hcaches.opens.of_write hname he
    have hfirst := firstFetch?_concat_of_fetch hnew hstore
    refine ⟨hopens, fun key kept hkey => ?_, fun name hempty hstroke hsome => ?_⟩
    · rw [hfirst] at hkey
      split at hkey
      · next heq =>
        cases hkey
        exact heq ▸ Disk.lookup_write he
      · next hne =>
        -- the file of another object stays
        refine Disk.keepsFile_write he (fun heq => hne ?_) kept (hcaches.kept key kept hkey)
        rw [Disk.lastName_join, Disk.lastName_join, lastName_of_not_mem hname.stroke,
          lastName_of_not_mem (h.plainName_cached key).stroke] at heq
        exact (hapart key (hkey ▸ rfl) heq.symm).symm
    · rw [hnode] at hsome
      split at hsome
      · next heq => exact ⟨c.key, by rw [hfirst, if_pos rfl]; rfl, heq⟩
      · obtain ⟨key, hkey, hcached⟩ := hcaches.fetched name hempty hstroke hsome
        refine ⟨key, ?_, hcached⟩
        rw [hfirst]
        split
        · rfl
        · exact hkey

/-! ### A run of calls -/

/-- Different URIs that are loaded have different digests. -/
def DigestsApart (h : ObjectHost) (calls : List ObjectCall) : Prop :=
  ∀ c ∈ calls, ∀ c' ∈ calls, Checksum.sha256Text (bytesOf (h.opening ++ c.key))
    = Checksum.sha256Text (bytesOf (h.opening ++ c'.key)) → c.key = c'.key

/-- The disk takes the paths of all objects that the store gives. -/
def Keepable (h : ObjectHost) (dir : String) (calls : List ObjectCall) : Prop :=
  ∀ c ∈ calls, ∀ content, c.store h.bucket c.key = .ok content →
    Disk.Usable (Disk.join dir (h.cached c.key))

theorem DigestsApart.eq_of_cached (hdigests : h.DigestsApart calls) (hc : c ∈ calls)
    {c' : ObjectCall} (hc' : c' ∈ calls) (hname : h.cached c.key = h.cached c'.key) :
    c.key = c'.key :=
  hdigests c hc c' hc' (digest_eq_of_cached hname)

/-- No two objects that were fetched share a file. -/
theorem DigestsApart.eq_of_fetched (hdigests : h.DigestsApart calls)
    (hkey : (h.firstFetch? calls key).isSome) (hother : (h.firstFetch? calls other).isSome)
    (hname : h.cached key = h.cached other) : key = other := by
  obtain ⟨_, hcontent⟩ := Option.isSome_iff_exists.1 hkey
  obtain ⟨_, hcontent'⟩ := Option.isSome_iff_exists.1 hother
  obtain ⟨c, hc, rfl, -⟩ := exists_call_of_firstFetch? hcontent
  obtain ⟨c', hc', rfl, -⟩ := exists_call_of_firstFetch? hcontent'
  exact hdigests.eq_of_cached hc hc' hname

theorem DigestsApart.apart {before after : List ObjectCall}
    (hdigests : h.DigestsApart (before ++ c :: after)) : h.Apart before c := by
  intro key hkey hname
  obtain ⟨content, hcontent⟩ := Option.isSome_iff_exists.1 hkey
  obtain ⟨c', hc', rfl, -⟩ := exists_call_of_firstFetch? hcontent
  exact hdigests.eq_of_cached (List.mem_append_left _ hc') (by simp) hname

/-- After a run of calls the cache is in order. -/
theorem caches_diskAfter (hdir : h.cacheDir = some dir) (hcaches : h.Caches dir p [] d)
    {after : List ObjectCall} (hdigests : h.DigestsApart (calls ++ after))
    (hkeepable : h.Keepable dir (calls ++ after)) :
    h.Caches dir p calls (h.diskAfter d calls) := by
  induction calls using List.reverseRecOn generalizing after with
  | nil => exact hcaches
  | append_singleton before c ih =>
    rw [List.append_assoc, List.singleton_append] at hdigests hkeepable
    rw [diskAfter, List.foldl_concat]
    exact (ih hdigests hkeepable).serve hdir hdigests.apart (hkeepable c (by simp))

/-- An empty directory is a cache in order. -/
theorem caches_of_names (hempty : d.names dir = .ok []) : ∃ p, h.Caches dir p [] d := by
  obtain ⟨p, hopens⟩ := Disk.exists_opens_of_names hempty
  refine ⟨p, ⟨hopens, fun key content hkey => ?_, fun name hne hstroke hsome => ?_⟩⟩
  · cases hkey
  · have hmem := (hopens.mem_names_iff hempty).2 ⟨⟨hne, hstroke⟩, hsome⟩
    cases hmem

/-- What a load without a cache gives. -/
theorem graph_serve_uncached (h : ObjectHost) (e : Disk) (c : ObjectCall) :
    (serve { h with cacheDir := none } e c).graph
      = c.store h.bucket c.key >>= (formatOf c.key).read := by
  rw [serve_eq_uncached rfl]

/-- A cache whose directory is empty at first is asked instead of the store for every object
that was fetched before, and gives what the first fetch gave. In the end its directory has a
file for each fetched object, with the bytes of the first fetch, and no other. As long as an
object stays as it was fetched first, the graph is the one without a cache. -/
theorem served_from_first_fetch (hdir : h.cacheDir = some dir) (hempty : d.names dir = .ok [])
    (hdigests : h.DigestsApart calls) (hkeepable : h.Keepable dir calls) :
    (∀ before c after, calls = before ++ c :: after →
      let first? := h.firstFetch? before c.key
      let loading := h.serve (h.diskAfter d before) c
      (loading.asked = true ↔ first? = none) ∧
        loading.graph = first?.elim (c.store h.bucket c.key) .ok >>= (formatOf c.key).read ∧
        ((∀ content, first? = some content → c.store h.bucket c.key = .ok content) →
          ∀ e, loading.graph = (serve { h with cacheDir := none } e c).graph)) ∧
      ∃ names, (h.diskAfter d calls).names dir = .ok names ∧ names.Nodup ∧
        (∀ name ∈ names, ∃! key, (h.firstFetch? calls key).isSome ∧ name = h.cached key) ∧
        ∀ key content, h.firstFetch? calls key = some content → h.cached key ∈ names ∧
          (h.diskAfter d calls).read (Disk.join dir (h.cached key)) = .ok content := by
  obtain ⟨p, hcaches⟩ := caches_of_names (h := h) hempty
  constructor
  · rintro before c after rfl first? loading
    have hbefore := caches_diskAfter hdir hcaches hdigests hkeepable
    obtain ⟨hasked, hgraph⟩ := served_of_caches hdir hbefore hdigests.apart
      (hkeepable c (by simp))
    refine ⟨hasked, hgraph, fun hsame e => ?_⟩
    -- an object that never changed is in the store as it was fetched first
    have hstored : (h.firstFetch? before c.key).elim (c.store h.bucket c.key) .ok
        = c.store h.bucket c.key := by
      cases hfirst : h.firstFetch? before c.key with
      | none => rfl
      | some content => exact (hsame content hfirst).symm
    rw [graph_serve_uncached, ← hstored]
    exact hgraph
  · rw [← List.append_nil calls] at hdigests hkeepable
    have hafter := caches_diskAfter hdir hcaches hdigests hkeepable
    rw [List.append_nil] at hdigests
    refine ⟨_, hafter.opens.names_eq, hafter.opens.nodup_names hafter.opens.names_eq,
      fun name hname => ?_, fun key content hkey => ⟨?_, ?_⟩⟩
    · obtain ⟨⟨hne, hstroke⟩, hsome⟩ := (hafter.opens.mem_names_iff hafter.opens.names_eq).1 hname
      obtain ⟨key, hkey, rfl⟩ := hafter.fetched name hne hstroke hsome
      -- two fetched objects have different digests, so the key is the only one
      exact ⟨key, ⟨hkey, rfl⟩, fun other hother =>
        (hdigests.eq_of_fetched hkey hother.1 hother.2).symm⟩
    · have hname := h.plainName_cached key
      have hlookup := hafter.kept key content hkey
      have hnode := (hafter.opens.lookup_join hname (Disk.usable_of_lookup hlookup)).1 hlookup
      exact (hafter.opens.mem_names_iff hafter.opens.names_eq).2
        ⟨⟨hname.nonempty, hname.stroke⟩, hnode ▸ rfl⟩
    · rw [Disk.read, hafter.kept key content hkey]
      rfl

/-- An object that is changed after it was fetched is served as it was. -/
theorem served_from_first_fetch_of_change :
    let h : ObjectHost := ⟨"b", some "cache"⟩
    let store (text : String) : ObjectStore := fun _ key =>
      if key = "g.csv" then .ok (bytesOf text) else .error (.backendIo "no such key" "store")
    let d : Disk := ⟨Dict.empty.insert "cache" .directory⟩
    let before : List ObjectCall :=
      [⟨store "source,target\na,b\n", "g.csv"⟩, ⟨store "", "h.csv"⟩]
    let loading := h.serve (h.diskAfter d before) ⟨store "", "g.csv"⟩
    loading.graph = GraphFormat.edgeList.read (bytesOf "source,target\na,b\n") := by
  intro h store d before loading
  have hempty : d.names "cache" = .ok [] := by decide +kernel
  have hdigests : h.DigestsApart (before ++ [⟨store "", "g.csv"⟩]) := by
    have hne : Checksum.sha256Text (bytesOf (h.opening ++ "g.csv"))
      ≠ Checksum.sha256Text (bytesOf (h.opening ++ "h.csv")) := by decide +kernel
    simp [DigestsApart, before, hne, hne.symm]
  have hkeepable : h.Keepable "cache" (before ++ [⟨store "", "g.csv"⟩]) := by
    intro c hc content hcontent
    have hkey : c.key = "g.csv" ∨ c.key = "h.csv" := by
      have hcalls : c ∈ [_, _, _] := hc
      simp only [List.mem_cons, List.not_mem_nil, or_false] at hcalls
      rcases hcalls with rfl | rfl | rfl <;> simp
    rcases hkey with hkey | hkey <;> rw [hkey, Disk.Usable] <;> decide +kernel
  have hserved := (served_from_first_fetch rfl hempty hdigests hkeepable).1 before _ [] rfl
  have hfirst : h.firstFetch? before "g.csv" = some (bytesOf "source,target\na,b\n") := by
    simp [firstFetch?, before, store]
    rfl
  have hformat : formatOf "g.csv" = .edgeList := by decide +kernel
  have hgraph := hserved.2.1
  dsimp only at hgraph
  rw [hfirst, hformat] at hgraph
  exact hgraph

end ObjectHost

end MotifQuery
