import MotifQuery.Proofs.Host.Housed

/-!
# `MotifQuery.Proofs.Host.Frame`: what else happens around an upload directory

Files of uploads go by UUIDs, and the table and its guard by fixed names (`UploadHost.OwnName`).
A host stays at home in its directory where the files with such names stay and no table appears
that was not there (`Housed.frame`). Cached objects have other names (`OwnName.uncached`), so
loading a graph from wherever leaves every upload host at home (`Housed.load`).
-/

set_option autoImplicit false

namespace MotifQuery.UploadHost

variable {h : UploadHost} {d e : Disk} {p : DiskPlace} {name path : String} {content : Bytes}

/-- The name is that of the table or its guard, or one that the file of an upload may have. -/
def OwnName (name : String) : Prop :=
  name ∈ tableNames ∨ ∃ (id : String) (f : GraphFormat), IsUuid id ∧ name = id ++ f.suffix

theorem OwnName.uncached (hown : OwnName name) : Uncached name := by
  rcases hown with htable | ⟨id, f, huuid, rfl⟩
  · intro uri key heq
    unfold ObjectHost.cacheName at heq
    generalize (GraphFormat.ofName? key).getD .graphML = g at heq
    rw [lastName_append _ g.stroke_not_mem_suffix] at heq
    exact append_suffix_not_mem_tableNames _ g (heq ▸ htable)
  · exact huuid.uncached f

namespace Housed

/-- A host stays at home where directories and files with its names stay, and no table appears. -/
theorem frame (hhoused : h.Housed d p) (hdirectories : Disk.DirectoriesIn d e)
    (hkeeps : ∀ path, OwnName (lastName path) → d.KeepsFile path e)
    (hnone : d.node? (p.child "metadata.json") = none →
      e.node? (p.child "metadata.json") = none) : h.Housed e p := by
  have hopens := hhoused.opens.mono hdirectories
  refine ⟨⟨hopens, hhoused.key, hhoused.genuine, fun {id u} hu => ?_⟩, ?_⟩
  · obtain ⟨content, hfile⟩ := hhoused.lookup_path hu
    have hgenuine := hhoused.genuine hu
    obtain ⟨f, hname⟩ := hgenuine.exists_fileName_eq
    have hkept := hkeeps u.path (.inr ⟨u.id, f, hgenuine.uuid, hname⟩) content hfile
    rw [hgenuine.path_eq] at hkept
    exact ⟨content,
      (hopens.lookup_join hgenuine.plainName (Disk.usable_of_lookup hkept)).1 hkept⟩
  · rcases hhoused.table with ⟨htable, lock, hlock⟩ | ⟨hempty, hmissing⟩
    · exact .inl ⟨hkeeps _ (.inl (by rw [lastName_tablePath]; decide)) _ htable, lock,
        hkeeps _ (.inl (by rw [lastName_lockPath]; decide)) _ hlock⟩
    · exact .inr ⟨hempty, hnone hmissing⟩

/-- A host stays at home where a file with another name is written. -/
theorem write_apart (hhoused : h.Housed d p) (hwrite : d.write path content = .ok e)
    (hname : ¬ OwnName (lastName path)) : h.Housed e p := by
  obtain ⟨q, htarget, hnode, heq⟩ := Disk.eq_put_of_write hwrite
  refine hhoused.frame (heq ▸ Disk.directoriesIn_put_file hnode)
    (fun other hother => Disk.keepsFile_write hwrite fun hsame => hname (hsame ▸ hother))
    fun hmissing => ?_
  have hkey : (p.child "metadata.json").key ≠ q.key := by
    intro hkey
    refine hname (.inl ?_)
    rw [← Disk.lastName_key htarget, ← hkey, Disk.lastName_key_child p (by decide)]
    decide
  rw [heq, Disk.node?_put, if_neg (Disk.components_child p _), if_neg hkey, hmissing]

/-- Loading a graph leaves a host at home. -/
theorem load (hhoused : h.Housed d p) (s : Surroundings) (uri : String) (provider : Provider) :
    h.Housed (provider.load s d uri).2 p := by
  rcases provider.load_cases s d uri with hsame | ⟨path, content, key, hwrite, hcached⟩
  · rw [hsame]
    exact hhoused
  · exact hhoused.write_apart hwrite fun hown => hown.uncached uri key hcached.symm

end Housed

end MotifQuery.UploadHost
