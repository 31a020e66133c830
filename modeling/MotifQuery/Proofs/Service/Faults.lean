import MotifQuery.Proofs.Service.Calls

/-!
# `MotifQuery.Proofs.Service.Faults`: calls that meet no fault of the disk

A clean-up fails for two reasons: no upload has the id, or the disk fails (`code_of_cleanup`). It
is `Unhindered` where the disk does not. A call is `Untroubled` where, besides, an upload that is
refused has left no trace. Whether that is so depends on the state in which a call meets the
service, so it is said of each call of a run in the state that the calls before have left
(`Along`), and what such calls keep holds after the run (`Along.induction`).
-/

set_option autoImplicit false

namespace MotifQuery

open Text UploadHost

/-! ### Faults of the disk -/

namespace UploadHost

variable {h : UploadHost} {d : Disk} {now : Instant} {id : String} {f : Failure}

theorem code_of_saveRecords (hsaved : (h.saveRecords d).1 = .error f) : f.code = "backend_io" := by
  unfold saveRecords at hsaved
  split at hsaved
  · cases hsaved
    rfl
  · dsimp only at hsaved
    split at hsaved
    · cases hsaved
    · cases hsaved
      rfl

theorem code_of_purge (hpurge : (h.purge now d).result = .error f) : f.code = "backend_io" := by
  rw [purge_eq] at hpurge
  dsimp only at hpurge
  split at hpurge
  · cases hpurge
  · exact code_of_saveRecords (map_eq_error_iff.1 hpurge)

/-- A clean-up of a host fails only where the disk does. -/
theorem code_of_cleanup (hcleanup : (h.cleanup now d id).result = .error f) :
    f.code = "backend_io" := by
  rcases h.cleanup_cases now d id with
    ⟨-, heq⟩ | ⟨u, -, ⟨fault, hsaved, heq⟩ | ⟨-, heq⟩⟩
  · rw [heq] at hcleanup
    exact code_of_purge (map_eq_error_iff.1 hcleanup)
  · rw [heq] at hcleanup
    cases hcleanup
    exact code_of_saveRecords hsaved
  · rw [heq] at hcleanup
    exact code_of_purge (map_eq_error_iff.1 hcleanup)

end UploadHost

namespace Service

variable {s : Surroundings} {v : Service} {l : Layout} {h : UploadHost}
  {P : Service → ServiceCall → Prop} {calls : List ServiceCall}

/-! ### Calls without faults -/

/-- The call meets no fault of the disk where it is a clean-up: it fails at most because no upload
has the id. -/
def Unhindered (v : Service) (c : ServiceCall) : Prop :=
  ∀ id, c.request = .cleanup id → ∀ f, (v.cleanup c.around id).1 = .error f →
    f = uploadNotFound id

/-- A clean-up without a fault is one that the upload host performs. -/
theorem Unhindered.exists_found (hl : l.Sound) (hv : v.router = l.router h) {other : String}
    (hcall : v.Unhindered ⟨s, .cleanup other⟩) :
    ∃ found, (h.cleanup s.now v.disk other).result = .ok found := by
  cases hresult : (h.cleanup s.now v.disk other).result with
  | ok found => exact ⟨found, rfl⟩
  | error f =>
    have hcleanup : (v.cleanup s other).1 = .error f := by
      rw [cleanup, uploadHost?_of_layout hl hv]
      dsimp only
      rw [hresult]
    have hcode := code_of_cleanup hresult
    rw [hcall other rfl f hcleanup] at hcode
    exact absurd hcode (by simp [uploadNotFound])

/-- The call meets no fault of the disk: it is not hindered, and an upload that is refused leaves
no trace. -/
structure Untroubled (v : Service) (c : ServiceCall) : Prop where
  unhindered : v.Unhindered c
  traceless : ∀ content fileName name f, c.request = .upload content fileName name →
    (v.upload c.around content fileName name).1 = .error (.refused f) →
    (v.upload c.around content fileName name).2 = v

/-- An upload that succeeds is untroubled. -/
theorem untroubled_of_receipt {content : Bytes} {fileName : String} {name : Option String}
    {receipt : UploadReceipt} (hok : (v.upload s content fileName name).1 = .ok receipt) :
    v.Untroubled ⟨s, .upload content fileName name⟩ where
  unhindered _ hrequest := nomatch hrequest
  traceless content fileName name f hrequest hfault := by
    cases hrequest
    rw [hok] at hfault
    cases hfault

/-! ### Properties along a run -/

/-- Each call has the property in the state that the calls before it have left. -/
def Along (P : Service → ServiceCall → Prop) (v : Service) (calls : List ServiceCall) : Prop :=
  ∀ before c after, calls = before ++ c :: after → P (v.serveAll before) c

theorem along_singleton {c : ServiceCall} (hcall : P v c) : v.Along P [c] := by
  intro before other after heq
  cases before with
  | nil =>
    cases heq
    exact hcall
  | cons first before => simp at heq

/-- What calls with the property keep holds after all of them. -/
theorem Along.induction {Q : Service → Prop} (hcalls : v.Along P calls) (hstart : Q v)
    (hstep : ∀ w, ∀ c ∈ calls, P w c → Q w → Q (w.serve c)) : Q (v.serveAll calls) := by
  induction calls generalizing v with
  | nil => exact hstart
  | cons c calls ih =>
    refine ih (fun before other after heq => ?_)
      (hstep v c List.mem_cons_self (hcalls [] c calls rfl) hstart)
      fun w other hother => hstep w other (List.mem_cons_of_mem _ hother)
    exact hcalls (c :: before) other after (by rw [heq, List.cons_append])

end Service

end MotifQuery
