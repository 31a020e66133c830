import MotifQuery.Http.Handler
import MotifQuery.Proofs.Json.Printer
import MotifQuery.Proofs.Service.Faults
import MotifQuery.Proofs.Service.Refusals
import MotifQuery.Proofs.Text.Utf8

/-!
# `MotifQuery.Proofs.Http.Routing`: paths, methods and envelopes

`Served` says which path is served for which method, without a look at the endpoints behind
the paths; `served_iff` ties the two. A request that meets an endpoint gets the data or the
failure of the service behind it, and no layer below fails with one of the two codes that the
routing itself uses (`serve_cases`). So the envelope tells apart, by its code, a path without
endpoint, a method that a path is not served for, and every failure of the service
(`handle_consistent`).
-/

set_option autoImplicit false

namespace MotifQuery

open Text

/-! ### Paths -/

namespace Http

/-- The paths that are served for reading. -/
def readPaths : List String := [
  "/", "/providers/", "/providers", "/providers/hostlist", "/queries/", "/queries",
  "/uploads/temporary", "/uploads/temporary/"]

/-- The paths that take a body. -/
def bodyPaths : List String := [
  "/queries/vertices/count", "/queries/vertices/attributes", "/queries/edges/count",
  "/queries/edges/attributes", "/queries/motifs/_parse", "/queries/motifs/count",
  "/queries/motifs", "/queries/motifs/", "/queries/graph/download", "/uploads/graph"]

/-- The path is served for the method. -/
inductive Served : String → Method → Prop where
  | read {path : String} (h : path ∈ readPaths) : Served path .get
  | body {path : String} (h : path ∈ bodyPaths) : Served path .post
  | uploadInfo (id : String) : Served ("/uploads/temporary/" ++ (id ++ "/info")) .get
  | upload {rest : String} (hrest : rest ≠ "") (hinfo : ∀ id : String, rest ≠ id ++ "/info") :
    Served ("/uploads/temporary/" ++ rest) .delete

/-- The path is served for some method. -/
def IsEndpoint (path : String) : Prop :=
  ∃ m, Served path m

namespace Endpoint

theorem ofUpload_info (id : String) : ofUpload (id ++ "/info") = uploadInfo id := by
  have hdrop : dropEnding? "/info".toList (id ++ "/info").toList = some id.toList := by
    rw [String.toList_append, dropEnding?, List.reverse_append,
      List.isPrefixOf?_eq_some_iff_append_eq.2 rfl, Option.map_some, List.reverse_reverse]
  rw [ofUpload, hdrop]
  exact congrArg uploadInfo String.ofList_toList

theorem ofUpload_other {rest : String} (h : ∀ id : String, rest ≠ id ++ "/info") :
    ofUpload rest = uploadItself rest := by
  unfold ofUpload
  split
  · next id hid =>
    refine absurd ?_ (h (String.ofList id))
    rw [← String.toList_inj, String.toList_append, String.toList_ofList]
    exact dropEnding?_eq_some hid
  · rfl

/-- Below the path of uploads, every further text names an endpoint. -/
theorem ofPath?_below {rest : String} (h : rest ≠ "") :
    ofPath? ("/uploads/temporary/" ++ rest) = some (ofUpload rest) := by
  have hfilter : (some rest).filter (fun rest => !rest.isEmpty) = some rest := by
    simp [Option.filter, h]
  rw [ofPath?, after?_eq_some_iff.2 rfl, hfilter]

/-- An endpoint has its path below the path of uploads, or is one with a fixed path. -/
theorem ofPath?_cases {path : String} {e : Endpoint} (h : ofPath? path = some e) :
    (∃ rest, rest ≠ "" ∧ path = "/uploads/temporary/" ++ rest ∧ e = ofUpload rest) ∨
      (path, e) ∈ fixedPaths := by
  unfold ofPath? at h
  split at h
  · next rest hrest =>
    cases h
    obtain ⟨hafter, hempty⟩ := Option.filter_eq_some_iff.1 hrest
    exact .inl ⟨rest, by simpa using hempty, after?_eq_some_iff.1 hafter, rfl⟩
  · obtain ⟨before, after, heq, -⟩ := List.lookup_eq_some_iff.1 h
    exact .inr (by simp [heq])

theorem method_of_read : ∀ path ∈ readPaths, (ofPath? path).map method = some .get := by
  decide +kernel

theorem method_of_body : ∀ path ∈ bodyPaths, (ofPath? path).map method = some .post := by
  decide +kernel

/-- The fixed paths are those that are read and those that take a body. -/
theorem fixedPaths_cases : ∀ entry ∈ fixedPaths,
    (entry.1 ∈ readPaths ∧ entry.2.method = .get) ∨
      (entry.1 ∈ bodyPaths ∧ entry.2.method = .post) := by
  decide +kernel

theorem ofPath?_uploadPath : ofPath? "/uploads/graph" = some upload := by
  decide +kernel

theorem path_of_upload : ∀ entry ∈ fixedPaths, entry.2 = upload → entry.1 = "/uploads/graph" := by
  decide +kernel

/-- Uploads have one path. -/
theorem ofPath?_eq_upload_iff {path : String} :
    ofPath? path = some upload ↔ path = "/uploads/graph" := by
  refine ⟨fun h => ?_, fun h => h ▸ ofPath?_uploadPath⟩
  rcases ofPath?_cases h with ⟨rest, -, -, hrest⟩ | hfixed
  · unfold ofUpload at hrest
    split at hrest <;> cases hrest
  · exact path_of_upload _ hfixed rfl

end Endpoint

open Endpoint in
/-- A path is served for the method of its endpoint, and for no other. -/
theorem served_iff {path : String} {m : Method} :
    Served path m ↔ (Endpoint.ofPath? path).map Endpoint.method = some m := by
  constructor
  · intro h
    cases h with
    | read h => exact method_of_read path h
    | body h => exact method_of_body path h
    | uploadInfo id =>
      have hrest : id ++ "/info" ≠ "" := by simp
      rw [ofPath?_below hrest, ofUpload_info]
      rfl
    | upload hrest hinfo =>
      rw [ofPath?_below hrest, ofUpload_other hinfo]
      rfl
  · intro h
    obtain ⟨e, he, rfl⟩ := Option.map_eq_some_iff.1 h
    rcases ofPath?_cases he with ⟨rest, hrest, rfl, rfl⟩ | hfixed
    -- below the path of uploads the ending decides, whatever stands before it
    · by_cases hinfo : ∃ id : String, rest = id ++ "/info"
      · obtain ⟨id, rfl⟩ := hinfo
        rw [ofUpload_info]
        exact .uploadInfo id
      · rw [ofUpload_other (not_exists.1 hinfo)]
        exact .upload hrest (not_exists.1 hinfo)
    · rcases fixedPaths_cases _ hfixed with ⟨hpath, hmethod⟩ | ⟨hpath, hmethod⟩
      · rw [hmethod]
        exact .read hpath
      · rw [hmethod]
        exact .body hpath

theorem isEndpoint_iff {path : String} : IsEndpoint path ↔ ∃ e, Endpoint.ofPath? path = some e := by
  simp only [IsEndpoint, served_iff, Option.map_eq_some_iff]
  exact ⟨fun ⟨_, e, he, _⟩ => ⟨e, he⟩, fun ⟨e, he⟩ => ⟨_, e, he, rfl⟩⟩

/-- The path of a request ends before the first question mark of its URL. -/
theorem Request.path_eq (r : Request) :
    r.path = String.ofList (r.url.toList.takeWhile (· != '?')) := by
  unfold path
  by_cases hmark : '?' ∈ r.url.toList
  · obtain ⟨before, behind, hurl, hbefore⟩ := List.eq_append_cons_of_mem hmark
    rw [hurl, splitOnce?_char hbefore, takeWhile_ne_append hbefore]
    simp
  · have hall := takeWhile_ne_append hmark []
    rw [List.append_nil, List.takeWhile_nil, List.append_nil] at hall
    rw [splitOnce?_char_eq_none hmark, hall, String.ofList_toList]

end Http

/-! ### Failures of the service -/

/-- The codes of the failures that reach a request from the service behind an endpoint. -/
def Http.serviceCodes : List String := [
  "request_body_required", "invalid_json_body", "host_not_found", "provider_not_found",
  "upload_provider_not_found", "upload_not_found", "empty_upload", "unsupported_upload_format",
  "backend_io"]

open Http

theorem UploadHost.code_of_store {h : UploadHost} {now : Instant} {id : String} {d : Disk}
    {content : Bytes} {name : String} {f : Failure}
    (hstore : (h.store now id d content name).result = .error (.refused f)) :
    f.code ∈ serviceCodes := by
  unfold store at hstore
  split at hstore
  · cases hstore
    simp [serviceCodes, Failure.user]
  split at hstore
  · cases hstore
    simp [serviceCodes, unsupportedFormat, Failure.user, Failure.withHint]
  dsimp only at hstore
  split at hstore
  · cases hstore
    simp [serviceCodes, DiskFault.toFailure, Failure.backendIo]
  split at hstore
  · cases hstore
  · obtain ⟨g, hfault, hsaved⟩ := result_keep_eq_error_iff.1 hstore
    cases hfault
    rw [code_of_saveRecords hsaved]
    simp [serviceCodes]

namespace Service

variable {s : Surroundings} {v : Service} {id : String} {f : Failure}

theorem code_of_onHost {α : Type} {answer : HostListing → Provider → α × Service}
    (h : (v.onHost s id answer).1 = .error f) : f.code ∈ serviceCodes := by
  unfold onHost at h
  rcases v.route_cases s id with ⟨-, hroute⟩ | ⟨uri, -, hroute⟩ | ⟨-, -, host, p, hroute⟩ <;>
    rw [hroute] at h <;> cases h
  · simp [serviceCodes, Failure.hostNotFound]
  · simp [serviceCodes, Failure.providerNotFound]

theorem code_of_upload {content : Bytes} {fileName : String} {name : Option String}
    (h : (v.upload s content fileName name).1 = .error (.refused f)) : f.code ∈ serviceCodes := by
  unfold upload at h
  split at h
  · cases h
    simp [serviceCodes, emptyUpload, Failure.user]
  split at h
  · cases h
    simp [serviceCodes, noUploadProvider]
  dsimp only at h
  split at h
  · next fault hstore =>
    cases h
    exact UploadHost.code_of_store hstore
  · cases h

theorem code_of_uploads (h : v.uploads s = .error f) : f.code ∈ serviceCodes := by
  unfold uploads at h
  split at h
  · cases h
    simp [serviceCodes, noUploadProvider]
  · cases h

theorem code_of_uploadInfo (h : v.uploadInfo s id = .error f) : f.code ∈ serviceCodes := by
  unfold uploadInfo at h
  split at h
  · cases h
    simp [serviceCodes, noUploadProvider]
  split at h
  · cases h
  · cases h
    simp [serviceCodes, uploadNotFound]

theorem code_of_cleanup (h : (v.cleanup s id).1 = .error f) : f.code ∈ serviceCodes := by
  unfold cleanup at h
  split at h
  · cases h
    simp [serviceCodes, noUploadProvider]
  dsimp only at h
  split at h
  · next fault hcleanup =>
    cases h
    rw [UploadHost.code_of_cleanup hcleanup]
    simp [serviceCodes]
  · dsimp only at h
    split at h
    · cases h
    · cases h
      simp [serviceCodes, uploadNotFound]

end Service

/-! ### Endpoints -/

namespace Http

variable {s : Surroundings} {v : Service} {r : Request} {f : Failure}

theorem Request.code_of_read {α : Type} {read? : Json.Document → Option α}
    (h : r.read read? = .error f) : f.code ∈ serviceCodes := by
  unfold read at h
  split at h
  · cases h
    simp [serviceCodes, bodyRequired, Failure.user]
  split at h
  · cases h
  · cases h
    simp [serviceCodes, invalidBody, Failure.user]

/-- The response carries data, or a failure with a code of the service. -/
def Answers (response : Response) : Prop :=
  ∃ outcome, response = respond outcome ∧ ∀ f, outcome = .error f → f.code ∈ serviceCodes

theorem answers_ok (data : Json) : Answers (.ok data) :=
  ⟨.ok data, rfl, nofun⟩

theorem answers_failed (h : f.code ∈ serviceCodes) : Answers (.failed f) :=
  ⟨.error f, rfl, by rintro _ ⟨⟩; exact h⟩

theorem answers_map {α : Type} {result : Except Failure α} (write : α → Json)
    (h : ∀ f, result = .error f → f.code ∈ serviceCodes) :
    Answers (respond (result.map write)) :=
  ⟨_, rfl, fun f hf => h f (map_eq_error_iff.1 hf)⟩

theorem answers_query {α β : Type} {read? : Json.Document → Option α}
    {run : α → Except Failure β × Service} {reply : β → Reply}
    (h : ∀ a f, (run a).1 = .error f → f.code ∈ serviceCodes) :
    Answers (query v r read? run reply).1 := by
  unfold query
  split
  · next hread => exact answers_failed (Request.code_of_read hread)
  · exact answers_map _ (h _)

/-- The request uploads a graph that would expire beyond the calendar. -/
def ExpiresBeyondCalendar (s : Surroundings) (v : Service) (r : Request) : Prop :=
  (v.upload s (r.body.getD []) ((r.query.get? "filename").getD "upload.graphml")
    (r.query.get? "name")).1 = .error .beyondCalendar

/-- An endpoint breaks down only over an upload beyond the calendar; every other response
carries data or a failure of the service. -/
theorem serve_cases (s : Surroundings) (v : Service) (r : Request) (e : Endpoint) :
    ((serve s v r e).1 = none ∧ e = .upload ∧ ExpiresBeyondCalendar s v r) ∨
      ¬ (e = .upload ∧ ExpiresBeyondCalendar s v r) ∧
        ∃ response, (serve s v r e).1 = some response ∧ Answers response := by
  -- only an upload can break down; the failures of the others have codes of the service
  cases e with
  | upload =>
    unfold ExpiresBeyondCalendar
    rw [serve, receive]
    split
    · next heq => exact .inr ⟨by simp [heq], _, rfl, answers_ok _⟩
    · next heq =>
      exact .inr ⟨by simp [heq], _, rfl,
        answers_failed (Service.code_of_upload (congrArg Prod.fst heq))⟩
    · next heq => exact .inl ⟨rfl, rfl, congrArg Prod.fst heq⟩
  | status | providers | hosts | catalog => exact .inr ⟨nofun, _, rfl, answers_ok _⟩
  | size part =>
    exact .inr ⟨nofun, (query v r hostOf? (v.size s part) SizeAnswer.reply).1, rfl,
      answers_query fun _ _ => Service.code_of_onHost⟩
  | schema part =>
    exact .inr ⟨nofun, (query v r hostOf? (v.schema s part) SchemaAnswer.reply).1, rfl,
      answers_query fun _ _ => Service.code_of_onHost⟩
  | compile =>
    exact .inr ⟨nofun, (query v r SearchRequest.read?
      (fun a => (.ok (Service.compile s a.hostId a.question), v)) CompileAnswer.reply).1, rfl,
      answers_query (by rintro _ _ ⟨⟩)⟩
  | countMatches =>
    exact .inr ⟨nofun, (query v r SearchRequest.read?
      (fun a => v.countMatches s a.hostId a.question) MatchCountAnswer.reply).1, rfl,
      answers_query fun _ _ => Service.code_of_onHost⟩
  | search =>
    exact .inr ⟨nofun, (query v r SearchRequest.read?
      (fun a => v.search s a.hostId a.question a.aggregation) SearchAnswer.reply).1, rfl,
      answers_query fun _ _ => Service.code_of_onHost⟩
  | download =>
    exact .inr ⟨nofun, (query v r DownloadRequest.read?
      (fun a => v.download s a.hostId a.format) DownloadAnswer.reply).1, rfl,
      answers_query fun _ _ => Service.code_of_onHost⟩
  | uploads => exact .inr ⟨nofun, _, rfl, answers_map _ fun _ => Service.code_of_uploads⟩
  | uploadInfo id => exact .inr ⟨nofun, _, rfl, answers_map _ fun _ => Service.code_of_uploadInfo⟩
  | uploadItself id => exact .inr ⟨nofun, _, rfl, answers_map _ fun _ => Service.code_of_cleanup⟩

/-! ### Envelopes -/

/-- What an envelope tells of its failure. -/
def told? (envelope : Json) (field : String) : Option String :=
  ((envelope.field? "error").bind fun e => e.field? field).bind Json.asString?

theorem told?_code (f : Failure) : told? f.envelope "code" = some f.code := by
  obtain ⟨category, code, message, origin, recoverable, hint, context⟩ := f
  cases hint <;> rfl

theorem told?_category (f : Failure) : told? f.envelope "category" = some f.category.name := by
  obtain ⟨category, code, message, origin, recoverable, hint, context⟩ := f
  cases hint <;> rfl

theorem told?_hint (f : Failure) : told? f.envelope "hint" = f.hint := by
  obtain ⟨category, code, message, origin, recoverable, hint, context⟩ := f
  cases hint <;> rfl

/-- The response is the JSON text of a value. -/
structure Response.Holds (response : Response) (j : Json) : Prop where
  contentType : response.contentType = "application/json"
  body : (decode? response.body).bind Json.Document.parse? = some j.document

theorem Response.Holds.json (status : Nat) (j : Json) : (Response.json status j).Holds j where
  contentType := rfl
  body := by
    rw [Response.json, bytesOf, decode?_encode, Json.indented, String.toList_ofList]
    exact Json.Document.parse?_indented j

/-- The categories whose failures the sender of a request can mend. -/
def senderCategories : List String :=
  ["user", "query", "aggregation"]

theorem statusOf_eq_404_iff (f : Failure) :
    Response.statusOf f = 404 ↔ endsWith f.code "not_found" := by
  obtain ⟨category, code, message, origin, recoverable, hint, context⟩ := f
  unfold Response.statusOf Failure.isNotFound
  cases category <;> simp

theorem statusOf_of_found {f : Failure} (h : ¬ endsWith f.code "not_found") :
    Response.statusOf f = if f.category.name ∈ senderCategories then 400 else 500 := by
  obtain ⟨category, code, message, origin, recoverable, hint, context⟩ := f
  rw [Response.statusOf, Failure.isNotFound, if_neg h]
  cases category <;> rfl

theorem statusOf_ne (f : Failure) : Response.statusOf f ≠ 200 := by
  by_cases h : endsWith f.code "not_found"
  · rw [(statusOf_eq_404_iff f).2 h]
    decide
  · rw [statusOf_of_found h]
    split <;> decide

/-- The response agrees with its envelope, with the path and with the method. -/
structure Consistent (path : String) (m : Method) (response : Response) (envelope : Json) :
    Prop where
  holds : response.Holds envelope
  success : envelope.field? "success" = some (.bool (decide (response.status = 200)))
  code : told? envelope "code" = none ↔ response.status = 200
  /-- A path without endpoint, and nothing else, is unknown. -/
  unknown : told? envelope "code" = some "endpoint_not_found" ↔ ¬ IsEndpoint path
  statusOfUnknown : ¬ IsEndpoint path → response.status = 404
  /-- A method that an endpoint is not served for, and nothing else, is refused. -/
  refused : told? envelope "code" = some "method_not_allowed" ↔ IsEndpoint path ∧ ¬ Served path m
  statusOfRefused : IsEndpoint path → ¬ Served path m → response.status = 405 ∧
    ∃ served, Served path served ∧
      told? envelope "hint" = some ("Allowed method(s): " ++ served.token)
  /-- The status of any other failure follows from its code and its category. -/
  statusOfOther : ∀ code, told? envelope "code" = some code → code ≠ "endpoint_not_found" →
    code ≠ "method_not_allowed" → (response.status = 404 ↔ endsWith code "not_found") ∧
      ∃ category, told? envelope "category" = some category ∧
        (¬ endsWith code "not_found" →
          response.status = if category ∈ senderCategories then 400 else 500)

/-- A failure in its envelope. -/
theorem Consistent.of_failure {path : String} {m : Method} {status : Nat} (f : Failure)
    (hstatus : status ≠ 200)
    (hunknown : f.code = "endpoint_not_found" ↔ ¬ IsEndpoint path)
    (hunknownStatus : ¬ IsEndpoint path → status = 404)
    (hrefused : f.code = "method_not_allowed" ↔ IsEndpoint path ∧ ¬ Served path m)
    (hrefusedStatus : IsEndpoint path → ¬ Served path m → status = 405 ∧
      ∃ served, Served path served ∧ f.hint = some ("Allowed method(s): " ++ served.token))
    (hother : f.code ≠ "endpoint_not_found" → f.code ≠ "method_not_allowed" →
      status = Response.statusOf f) :
    Consistent path m (.json status f.envelope) f.envelope where
  holds := .json status f.envelope
  success := by
    rw [Response.json, decide_eq_false hstatus]
    rfl
  code := by simp [told?_code, Response.json, hstatus]
  unknown := by rwa [told?_code, Option.some_inj]
  statusOfUnknown := hunknownStatus
  refused := by rwa [told?_code, Option.some_inj]
  statusOfRefused := by rwa [told?_hint]
  statusOfOther := by
    rw [told?_code]
    rintro _ ⟨⟩ hcode hmethod
    rw [hother hcode hmethod]
    exact ⟨statusOf_eq_404_iff f, f.category.name, told?_category f, statusOf_of_found⟩

theorem consistent_unknown {path : String} {m : Method} (h : ¬ IsEndpoint path) :
    ∃ envelope, Consistent path m (unknownEndpoint path) envelope := by
  have hfound : endsWith "endpoint_not_found" "not_found" = true := by decide +kernel
  refine ⟨_, .of_failure _ (statusOf_ne _) (iff_of_true rfl h)
    (fun _ => (statusOf_eq_404_iff _).2 hfound)
    (iff_of_false ?_ fun hpath => h hpath.1) (fun hpath => absurd hpath h)
    fun hcode => absurd rfl hcode⟩
  simp [Failure.user]

theorem consistent_refused {path : String} {m served : Method} (hserved : Served path served)
    (hm : ¬ Served path m) :
    ∃ envelope, Consistent path m (methodNotAllowed path m served) envelope := by
  have hpath : IsEndpoint path := ⟨served, hserved⟩
  refine ⟨_, .of_failure _ (by decide) (iff_of_false ?_ (not_not.2 hpath)) (absurd hpath)
    (iff_of_true rfl ⟨hpath, hm⟩) (fun _ _ => ⟨rfl, served, hserved, rfl⟩)
    fun _ hmethod => absurd rfl hmethod⟩
  simp [Failure.user, Failure.withHint]

theorem consistent_served {path : String} {m : Method} {response : Response} (h : Served path m)
    (hanswers : Answers response) : ∃ envelope, Consistent path m response envelope := by
  have hpath : IsEndpoint path := ⟨m, h⟩
  obtain ⟨outcome, rfl, hcode⟩ := hanswers
  cases outcome with
  | ok data =>
    exact ⟨data.envelope, {
      holds := .json 200 data.envelope
      success := rfl
      code := iff_of_true rfl rfl
      unknown := iff_of_false nofun (not_not.2 hpath)
      statusOfUnknown := absurd hpath
      refused := iff_of_false nofun fun hrefused => hrefused.2 h
      statusOfRefused := fun _ hnot => absurd h hnot
      statusOfOther := nofun }⟩
  | error f =>
    -- the routing keeps its two codes to itself
    have hserved : f.code ≠ "endpoint_not_found" ∧ f.code ≠ "method_not_allowed" := by
      have hmem := hcode f rfl
      constructor <;> intro heq <;> rw [heq] at hmem <;> simp [serviceCodes] at hmem
    exact ⟨f.envelope, .of_failure f (statusOf_ne f) (iff_of_false hserved.1 (not_not.2 hpath))
      (absurd hpath) (iff_of_false hserved.2 fun hrefused => hrefused.2 h)
      (fun _ hnot => absurd h hnot) fun _ _ => rfl⟩

/-- Every request but the question for methods gets a response, unless it uploads a graph that
would expire beyond the calendar, and the response agrees with its envelope, with the path and
with the method. -/
theorem handle_consistent (s : Surroundings) (v : Service) (r : Request)
    (hmethod : r.method ≠ .options) :
    ((handle s v r).1 = none ↔
        r.path = "/uploads/graph" ∧ r.method = .post ∧ ExpiresBeyondCalendar s v r) ∧
      ∀ response, (handle s v r).1 = some response → ∃ envelope,
        Consistent (String.ofList (r.url.toList.takeWhile (· != '?'))) r.method response
          envelope := by
  rw [handle, if_neg hmethod, ← Request.path_eq]
  cases hpath : Endpoint.ofPath? r.path with
  | none =>
    -- the path of uploads has an endpoint, so nothing breaks down here
    refine ⟨iff_of_false nofun fun hupload => ?_, ?_⟩
    · rw [Endpoint.ofPath?_eq_upload_iff.2 hupload.1] at hpath
      cases hpath
    · rintro _ ⟨⟩
      exact consistent_unknown fun hendpoint => by simp [isEndpoint_iff, hpath] at hendpoint
  | some e =>
    have hupload : e = .upload ↔ r.path = "/uploads/graph" := by
      rw [← Endpoint.ofPath?_eq_upload_iff, hpath, Option.some_inj]
    have hserved : Served r.path r.method ↔ e.method = r.method := by
      rw [served_iff, hpath, Option.map_some, Option.some_inj]
    dsimp only
    split
    -- the endpoint is served for the method, or another method is the one it allows
    · next heq =>
      rcases serve_cases s v r e with ⟨hnone, he, hexpires⟩ | ⟨hnot, response, hsome, hanswers⟩
      · refine ⟨iff_of_true hnone ⟨hupload.1 he, ?_, hexpires⟩, by simp [hnone]⟩
        rw [heq, he]
        rfl
      · refine ⟨iff_of_false (by simp [hsome]) fun hcase =>
          hnot ⟨hupload.2 hcase.1, hcase.2.2⟩, fun response' hresponse => ?_⟩
        cases hsome.symm.trans hresponse
        exact consistent_served (hserved.2 heq.symm) hanswers
    · next hne =>
      refine ⟨iff_of_false nofun fun hcase => hne ?_, ?_⟩
      · rw [hcase.2.1, hupload.2 hcase.1]
        rfl
      · rintro _ ⟨⟩
        exact consistent_refused (served_iff.2 (by rw [hpath]; rfl)) (mt hserved.1 (Ne.symm hne))

theorem handle_consistent_catalog :
    let r : Request := { method := .delete, url := "/queries/?all" }
    r.method ≠ .options ∧ ∃ response envelope,
      (handle (Service.reporting 0 "") {} r).1 = some response ∧
        Consistent "/queries/" .delete response envelope := by
  intro r
  have hmethod : r.method ≠ .options := by decide
  obtain ⟨-, hconsistent⟩ := handle_consistent (Service.reporting 0 "") {} r hmethod
  have hpath : Endpoint.ofPath? r.path = some .catalog := by decide +kernel
  have hresponse : (handle (Service.reporting 0 "") {} r).1
      = some (methodNotAllowed r.path .delete .get) := by
    rw [handle, if_neg hmethod, hpath]
    rfl
  obtain ⟨envelope, henvelope⟩ := hconsistent _ hresponse
  have hurl : String.ofList (r.url.toList.takeWhile (· != '?')) = "/queries/" := by decide +kernel
  rw [hurl] at henvelope
  exact ⟨hmethod, _, envelope, hresponse, henvelope⟩

end Http

end MotifQuery
