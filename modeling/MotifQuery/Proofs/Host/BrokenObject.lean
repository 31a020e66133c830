import MotifQuery.Proofs.Host.Cache

/-!
# `MotifQuery.Proofs.Host.BrokenObject`: loads that fail

A load fails where the store gives nothing, where the disk does not take what it gives, or where
the object is no graph. Only then does the object have a file in the cache (`ReadsCache`), and the
file stays: the load fails again, whatever the store gives from then on. So a load leaves no trace
(`LeavesNoTrace`) exactly when it has nothing to read from the cache
(`leavesNoTrace_iff`), as is always so for a host without one.
-/

set_option autoImplicit false

namespace MotifQuery

open Text

namespace ObjectHost

variable {h : ObjectHost} {d e : Disk} {c : ObjectCall} {store : ObjectStore} {key dir : String}
  {content : Bytes}

/-- The cache has a file for the object. -/
def Keeps (h : ObjectHost) (d : Disk) (key : String) : Prop :=
  ∃ dir, h.cacheDir = some dir ∧ d.contains (Disk.join dir (h.cached key)) = true

/-- A load puts the object into the cache. -/
def Puts (h : ObjectHost) (d : Disk) (store : ObjectStore) (key : String) : Prop :=
  ∃ dir content e, h.cacheDir = some dir ∧ store h.bucket key = .ok content ∧
    d.write (Disk.join dir (h.cached key)) content = .ok e

/-- A load has a file of the cache to read. -/
def ReadsCache (h : ObjectHost) (d : Disk) (store : ObjectStore) (key : String) : Prop :=
  h.Keeps d key ∨ h.Puts d store key

/-- The disk takes the bytes of the object, where they are kept at all. -/
def Takes (h : ObjectHost) (d : Disk) (key : String) (content : Bytes) : Prop :=
  ∀ dir, h.cacheDir = some dir → ∃ e, d.write (Disk.join dir (h.cached key)) content = .ok e

/-- A load leaves the disk as it was, and the next load of the object asks the store and reads
what it gives then. -/
structure LeavesNoTrace (h : ObjectHost) (d : Disk) (store : ObjectStore) (key : String) :
    Prop where
  disk : (h.serve d ⟨store, key⟩).disk = d
  asked : ∀ later, (h.serve (h.serve d ⟨store, key⟩).disk ⟨later, key⟩).asked = true
  graph : ∀ later content, later h.bucket key = .ok content → h.Takes d key content →
    (h.serve (h.serve d ⟨store, key⟩).disk ⟨later, key⟩).graph = (formatOf key).read content

/-! ### Loads by what the cache has -/

/-- What the cache has is served from it whatever the store gives. -/
theorem serve_of_keeps (hkeeps : h.Keeps d key) (store later : ObjectStore) :
    h.serve d ⟨later, key⟩ = ⟨(h.serve d ⟨store, key⟩).graph, d, false⟩ := by
  obtain ⟨dir, hdir, hcontains⟩ := hkeeps
  rw [serve_eq_cached hdir, serve_eq_cached hdir, if_pos hcontains, if_pos hcontains]

/-- What the cache does not have is asked for. -/
theorem asked_of_not_keeps (hkeeps : ¬ h.Keeps d c.key) : (h.serve d c).asked = true := by
  cases hdir : h.cacheDir with
  | none => rw [serve_eq_uncached hdir]
  | some dir =>
    rw [serve_eq_cached hdir, if_neg fun hcontains => hkeeps ⟨dir, hdir, hcontains⟩, fetchTo]
    split
    · rfl
    · split <;> rfl

/-- What the store gives is read, from the cache where it is kept. -/
theorem graph_of_takes (hkeeps : ¬ h.Keeps d key) (hstore : store h.bucket key = .ok content)
    (htakes : h.Takes d key content) :
    (h.serve d ⟨store, key⟩).graph = (formatOf key).read content := by
  cases hdir : h.cacheDir with
  | none =>
    rw [serve_eq_uncached hdir]
    dsimp only
    rw [hstore]
    rfl
  | some dir =>
    obtain ⟨e, hwrite⟩ := htakes dir hdir
    rw [serve_eq_cached hdir, if_neg fun hcontains => hkeeps ⟨dir, hdir, hcontains⟩, fetchTo]
    dsimp only
    rw [hstore]
    dsimp only
    rw [hwrite]
    dsimp only
    exact Disk.readGraph_of_lookup (ofName?_join_cached dir h key) (Disk.lookup_write hwrite)

/-- A load that has nothing to read from the cache leaves the disk as it was. -/
theorem disk_of_not_readsCache (hnot : ¬ h.ReadsCache d c.store c.key) :
    (h.serve d c).disk = d := by
  cases hdir : h.cacheDir with
  | none => rw [serve_eq_uncached hdir]
  | some dir =>
    rw [serve_eq_cached hdir, if_neg fun hcontains => hnot (.inl ⟨dir, hdir, hcontains⟩), fetchTo]
    split
    · rfl
    · next content hstore =>
      split
      · rfl
      · next e hwrite => exact absurd (.inr ⟨dir, content, e, hdir, hstore, hwrite⟩) hnot

/-- What a load puts into the cache is there afterwards, and what it gave is what is read there. -/
theorem keeps_of_puts (hkeeps : ¬ h.Keeps d c.key) (hputs : h.Puts d c.store c.key) :
    h.Keeps (h.serve d c).disk c.key ∧
      (h.serve (h.serve d c).disk c).graph = (h.serve d c).graph := by
  obtain ⟨dir, content, e, hdir, hstore, hwrite⟩ := hputs
  have hserve : h.serve d c = ⟨e.readGraph (Disk.join dir (h.cached c.key)), e, true⟩ := by
    rw [serve_eq_cached hdir, if_neg fun hcontains => hkeeps ⟨dir, hdir, hcontains⟩, fetchTo,
      hstore]
    dsimp only
    rw [hwrite]
  have hcontains : e.contains (Disk.join dir (h.cached c.key)) = true := by
    rw [Disk.contains, Disk.lookup_write hwrite]
    rfl
  have hagain : h.serve e c = ⟨e.readGraph (Disk.join dir (h.cached c.key)), e, false⟩ := by
    rw [serve_eq_cached hdir, if_pos hcontains]
  rw [hserve]
  refine ⟨⟨dir, hdir, hcontains⟩, ?_⟩
  dsimp only
  rw [hagain]

/-- A load that has a file of the cache to read is answered so again, whatever the store gives. -/
theorem serve_again (hreads : h.ReadsCache d store key) (later : ObjectStore) :
    h.serve (h.serve d ⟨store, key⟩).disk ⟨later, key⟩
      = ⟨(h.serve d ⟨store, key⟩).graph, (h.serve d ⟨store, key⟩).disk, false⟩ := by
  by_cases hkeeps : h.Keeps d key
  · have hdisk : (h.serve d ⟨store, key⟩).disk = d := by
      rw [serve_of_keeps hkeeps store]
    rw [hdisk]
    exact serve_of_keeps hkeeps store later
  · obtain ⟨hkept, hgraph⟩ :=
      keeps_of_puts (c := ⟨store, key⟩) hkeeps (hreads.resolve_left hkeeps)
    rw [serve_of_keeps hkept store, hgraph]

/-! ### An empty cache -/

/-- An empty cache has no file. -/
theorem not_keeps_of_names (hdir : h.cacheDir = some dir) (hnames : d.names dir = .ok []) :
    ¬ h.Keeps d key := by
  rintro ⟨_, hcache, hcontains⟩
  obtain rfl := Option.some.inj (hdir.symm.trans hcache)
  obtain ⟨p, hopens⟩ := Disk.exists_opens_of_names hnames
  have hname := plainName_cached h key
  obtain ⟨node, hfound⟩ := Option.isSome_iff_exists.1 hcontains
  have hlookup := eq_ok_of_toOption hfound
  have hnode := (hopens.lookup_join hname (Disk.usable_of_lookup hlookup)).1 hlookup
  rw [hopens.node?_eq_none hnames ⟨hname.nonempty, hname.stroke⟩] at hnode
  cases hnode

/-- An empty cache takes what its disk can name. -/
theorem takes_of_names (hdir : h.cacheDir = some dir) (hnames : d.names dir = .ok [])
    (husable : Disk.Usable (Disk.join dir (h.cached key))) (content : Bytes) :
    h.Takes d key content := by
  rintro _ hcache
  obtain rfl := Option.some.inj (hdir.symm.trans hcache)
  obtain ⟨p, hopens⟩ := Disk.exists_opens_of_names hnames
  have hname := plainName_cached h key
  refine hopens.exists_write hname husable ?_ content
  rw [hopens.node?_eq_none hnames ⟨hname.nonempty, hname.stroke⟩]
  nofun

/-! ### What is left behind -/

/-- A load leaves no trace exactly when it has nothing to read from the cache: there is no cache,
or it has no file for the object and the store or the disk fails. Otherwise a load that fails is
repeated: every later one fails in the same way and does not ask the store, whatever has become of
the object. -/
theorem leavesNoTrace_iff (h : ObjectHost) (d : Disk) (store : ObjectStore) (key : String) :
    (h.LeavesNoTrace d store key ↔ ¬ h.ReadsCache d store key) ∧
      ∀ f, (h.serve d ⟨store, key⟩).graph = .error f → h.ReadsCache d store key → ∀ later,
        h.serve (h.serve d ⟨store, key⟩).disk ⟨later, key⟩
          = ⟨.error f, (h.serve d ⟨store, key⟩).disk, false⟩ := by
  refine ⟨⟨fun hleaves hreads => ?_, fun hnot => ?_⟩, fun f hfailed hreads later => ?_⟩
  · have hasked := hleaves.asked store
    rw [serve_again hreads] at hasked
    cases hasked
  · have hdisk : (h.serve d ⟨store, key⟩).disk = d := disk_of_not_readsCache hnot
    have hkeeps : ¬ h.Keeps d key := fun hkeeps => hnot (.inl hkeeps)
    refine ⟨hdisk, fun later => ?_, fun later content hlater htakes => ?_⟩
    · rw [hdisk]
      exact asked_of_not_keeps hkeeps
    · rw [hdisk]
      exact graph_of_takes hkeeps hlater htakes
  · rw [serve_again hreads, hfailed]

/-! ### An object that is no graph -/

/-- A host with a cache. -/
def caching : ObjectHost := ⟨"foo", some "cache"⟩

/-- The directory of the cache, with nothing in it. -/
def emptyCache : Disk := ⟨Dict.empty.insert "cache" .directory⟩

/-- A store in which every object is an edge list of one column. -/
def brokenStore : ObjectStore := fun _ _ => .ok (bytesOf "x\n")

theorem names_emptyCache : emptyCache.names "cache" = .ok [] := by decide +kernel

/-- The object of that store is put into the cache, and it is no graph. -/
theorem puts_broken : caching.Puts emptyCache brokenStore "bad.csv" ∧
    ∃ f, (caching.serve emptyCache ⟨brokenStore, "bad.csv"⟩).graph = .error f := by
  have husable : Disk.Usable (Disk.join "cache" (caching.cached "bad.csv")) := by
    rw [Disk.Usable]
    decide +kernel
  have htakes (content : Bytes) : caching.Takes emptyCache "bad.csv" content :=
    takes_of_names rfl names_emptyCache husable content
  have hread : ((formatOf "bad.csv").read (bytesOf "x\n")).toOption.isSome = false := by
    decide +kernel
  obtain ⟨e, hwrite⟩ := htakes (bytesOf "x\n") "cache" rfl
  refine ⟨⟨"cache", _, e, rfl, rfl, hwrite⟩, ?_⟩
  rw [graph_of_takes (not_keeps_of_names rfl names_emptyCache) rfl (htakes _)]
  cases hgraph : (formatOf "bad.csv").read (bytesOf "x\n") with
  | ok g =>
    rw [hgraph] at hread
    cases hread
  | error f => exact ⟨f, rfl⟩

/-- An object that is not there leaves no trace. An object that is no graph is served from the
cache also after it is repaired. -/
theorem leavesNoTrace_of_missing :
    (∀ f, caching.LeavesNoTrace emptyCache (fun _ _ => .error f) "bad.csv") ∧
      ∃ f, ∀ repaired, (caching.serve (caching.serve emptyCache ⟨brokenStore, "bad.csv"⟩).disk
        ⟨repaired, "bad.csv"⟩).graph = .error f := by
  obtain ⟨hputs, f, hfailed⟩ := puts_broken
  refine ⟨fun f => (leavesNoTrace_iff _ _ _ _).1.2 ?_, f, fun repaired => ?_⟩
  · rintro (hkeeps | ⟨dir, content, e, -, hstore, -⟩)
    · exact not_keeps_of_names rfl names_emptyCache hkeeps
    · cases hstore
  · rw [(leavesNoTrace_iff _ _ _ _).2 f hfailed (.inr hputs)]

/-- A load into an empty cache that fails can leave a file there. -/
theorem not_forall_leavesNoTrace :
    ¬ ∀ (h : ObjectHost) (dir : String) (d : Disk) (store : ObjectStore) (key : String)
      (f : Failure), h.cacheDir = some dir → d.names dir = .ok [] →
      (h.serve d ⟨store, key⟩).graph = .error f → h.LeavesNoTrace d store key := by
  intro hall
  obtain ⟨hputs, f, hfailed⟩ := puts_broken
  have hleaves := hall caching "cache" emptyCache brokenStore "bad.csv" f rfl names_emptyCache
    hfailed
  have hasked := hleaves.asked brokenStore
  rw [serve_again (.inr hputs)] at hasked
  cases hasked

end ObjectHost

end MotifQuery
