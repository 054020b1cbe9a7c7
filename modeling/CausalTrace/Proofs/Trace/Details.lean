import CausalTrace.Proofs.Json.Restore
import CausalTrace.Trace.Detail

/-!
# Details are read back as they were written

A detail of a segment is read again from its JSON form if its numbers are in the range of their
fields, and no other numbers are ever read.

## Main definitions

* `Cause.InRange`, `Http.InRange` and those of their parts — all numbers are in range

## Main statements

* `Cause.restores`, `Service.restores`, `Http.restores`, `Sql.restores` — details in range are
  restored
* `Cause.inRange_of_yields`, `Http.inRange_of_yields` — what was read is in range
-/

namespace CausalTrace

open Reader

/-! ### Causes -/

namespace StackFrame

/-- The line is a number of 32 bits. -/
def InRange (f : StackFrame) : Prop := ∀ n ∈ f.line, n < 2 ^ 32

/-- A frame whose line has 32 bits is read again from its JSON form. -/
theorem restores {f : StackFrame} (h : f.InRange) : reader.Restores toJson f := by
  refine reads_object (by simp [IsPlain, fields, Field.ofReader]) (by simp) fun depth => ?_
  exact .always rfl (restores_text? f.path)
    <| .always rfl (restores_natOfBits? h)
    <| .always rfl (restores_text? f.label)
    <| .nil _

/-- Only frames whose line has 32 bits are read. -/
theorem inRange_of_yields {f : StackFrame} (h : reader.Yields f) : f.InRange := by
  obtain ⟨depth, d, h⟩ := h
  refine record_sound ?_ (by simp [InRange]) h
  simp only [fields, List.forall_mem_cons]
  exact ⟨Field.keeps_ofReader fun _ _ _ hf => hf,
    Field.keeps_ofReader fun _ hx _ _ _ hn => lt_of_yields_natOfBits (hx.of_mem_optional hn),
    Field.keeps_ofReader fun _ _ _ hf => hf, List.forall_mem_nil _⟩

end StackFrame

namespace Exception

/-- Both counts and all lines are numbers of 32 bits. -/
structure InRange (e : Exception) : Prop where
  truncated : ∀ n ∈ e.truncated, n < 2 ^ 32
  skipped : ∀ n ∈ e.skipped, n < 2 ^ 32
  stack : ∀ f ∈ e.stack, f.InRange

/-- An exception is read again if the numbers in it fit their widths. -/
theorem restores {e : Exception} (h : e.InRange) : reader.Restores toJson e := by
  refine reads_object (by simp [IsPlain, fields, Field.ofReader]) (by simp) fun depth => ?_
  exact .always rfl (restores_text? e.id)
    <| .always rfl (restores_text? e.message)
    <| .always rfl (restores_text? e.kind)
    <| .always rfl (restores_bool e.remote)
    <| .always rfl (restores_natOfBits? h.truncated)
    <| .always rfl (restores_natOfBits? h.skipped)
    <| .always rfl (restores_text? e.cause)
    <| .always rfl (Restores.list fun f hf => StackFrame.restores (h.stack f hf))
    <| .nil _

/-- The numbers of an exception that is read fit their widths. -/
theorem inRange_of_yields {e : Exception} (h : reader.Yields e) : e.InRange := by
  obtain ⟨depth, d, h⟩ := h
  refine record_sound ?_ ⟨by simp, by simp, by simp⟩ h
  simp only [fields, List.forall_mem_cons]
  refine ⟨?id, ?message, ?kind, ?remote, ?truncated, ?skipped, ?cause, ?stack,
    List.forall_mem_nil _⟩
  case truncated =>
    exact Field.keeps_ofReader fun _ hx _ he =>
      ⟨fun n hn => lt_of_yields_natOfBits (hx.of_mem_optional hn), he.skipped, he.stack⟩
  case skipped =>
    exact Field.keeps_ofReader fun _ hx _ he =>
      ⟨he.truncated, fun n hn => lt_of_yields_natOfBits (hx.of_mem_optional hn), he.stack⟩
  case stack =>
    exact Field.keeps_ofReader fun _ hx _ he =>
      ⟨he.truncated, he.skipped, fun f hf => StackFrame.inRange_of_yields (hx.of_mem_list hf)⟩
  all_goals exact Field.keeps_ofReader fun _ _ _ he => ⟨he.truncated, he.skipped, he.stack⟩

end Exception

namespace CauseDetails

/-- All exceptions are in range. -/
def InRange (d : CauseDetails) : Prop := ∀ e ∈ d.exceptions, e.InRange

/-- Details of a cause are read again if their exceptions are in range. -/
theorem restores {d : CauseDetails} (h : d.InRange) : reader.Restores toJson d := by
  refine reads_record (by simp [IsPlain, fields, Field.ofReader]) (by simp) fun depth => ?_
  exact .omitted rfl rfl (.ofRestores (fun s _ => restores_string s) fun _ _ h => by cases h) rfl
    <| .always rfl (Restores.list fun s _ => restores_string s)
    <| .always rfl (Restores.list fun e he => Exception.restores (h e he))
    <| .nil _

/-- The exceptions of details that are read are in range. -/
theorem inRange_of_yields {c : CauseDetails} (h : reader.Yields c) : c.InRange := by
  obtain ⟨depth, d, h⟩ := h
  refine record_sound ?_ (by simp [InRange]) h
  simp only [fields, List.forall_mem_cons]
  exact ⟨Field.keeps_ofReader fun _ _ _ hc => hc, Field.keeps_ofReader fun _ _ _ hc => hc,
    Field.keeps_ofReader fun _ hx _ _ _ he => Exception.inRange_of_yields (hx.of_mem_list he),
    List.forall_mem_nil _⟩

end CauseDetails

namespace Cause

/-- The details, if there are any, are in range. -/
def InRange : Cause → Prop
  | .exception _ => True
  | .details d => d.InRange

/-- A cause is read again: an id from a string, details from an object. -/
theorem restores {c : Cause} (h : c.InRange) : reader.Restores toJson c := by
  cases c with
  | exception id => exact Restores.either_first (Restores.map (restores_string id))
  | details d =>
      exact Restores.either_second (Restores.map (CauseDetails.restores h))
        fun _ => ⟨.mismatched, rfl⟩

/-- No cause is written like an absent one. -/
theorem toJson_ne_null (c : Cause) : c.toJson ≠ .null := by
  cases c <;> simp [toJson, CauseDetails.toJson, Json.ofMembers]

/-- Every cause that is read is in range, whichever of its two forms it has. -/
theorem inRange_of_yields {c : Cause} (h : reader.Yields c) : c.InRange := by
  rcases h.of_either with h | h
  · obtain ⟨id, -, rfl⟩ := h.of_map
    trivial
  · obtain ⟨d, hd, rfl⟩ := h.of_map
    exact CauseDetails.inRange_of_yields hd

end Cause

/-! ### Services, requests and queries -/

/-- A service is read again whatever it says. -/
theorem Service.restores (s : Service) : reader.Restores toJson s := by
  refine reads_object (by simp [IsPlain, fields, Field.ofReader]) (by simp) fun depth => ?_
  exact .always rfl (restores_text? s.kind)
    <| .always rfl (restores_text? s.version)
    <| .nil _

/-- A request is read again whatever it says. -/
theorem HttpRequest.restores (r : HttpRequest) : reader.Restores toJson r := by
  refine reads_object (by simp [IsPlain, fields, Field.ofReader]) (by simp) fun depth => ?_
  exact .always rfl (restores_text? r.method)
    <| .always rfl (restores_text? r.clientIp)
    <| .always rfl (restores_text? r.url)
    <| .always rfl (restores_text? r.userAgent)
    <| .always rfl (restores_bool? r.forwarded)
    <| .always rfl (restores_bool? r.traced)
    <| .nil _

namespace HttpResponse

/-- The status is a number of 16 bits, the length of the content one of 64. -/
structure InRange (r : HttpResponse) : Prop where
  status : ∀ n ∈ r.status, n < 2 ^ 16
  contentLength : ∀ n ∈ r.contentLength, n < 2 ^ 64

/-- A response is read again if its numbers are in range. -/
theorem restores {r : HttpResponse} (h : r.InRange) : reader.Restores toJson r := by
  refine reads_object (by simp [IsPlain, fields, Field.ofReader]) (by simp) fun depth => ?_
  exact .always rfl (restores_natOfBits? h.status)
    <| .always rfl (restores_natOfBits? h.contentLength)
    <| .nil _

/-- The status and the length of a response that is read fit their widths. -/
theorem inRange_of_yields {r : HttpResponse} (h : reader.Yields r) : r.InRange := by
  obtain ⟨depth, d, h⟩ := h
  refine record_sound ?_ ⟨by simp, by simp⟩ h
  simp only [fields, List.forall_mem_cons]
  exact ⟨Field.keeps_ofReader fun _ hx _ hr =>
      ⟨fun n hn => lt_of_yields_natOfBits (hx.of_mem_optional hn), hr.contentLength⟩,
    Field.keeps_ofReader fun _ hx _ hr =>
      ⟨hr.status, fun n hn => lt_of_yields_natOfBits (hx.of_mem_optional hn)⟩,
    List.forall_mem_nil _⟩

end HttpResponse

namespace Http

/-- The response is in range. -/
def InRange (h : Http) : Prop := ∀ r ∈ h.response, r.InRange

/-- An exchange is read again if its response is in range. -/
theorem restores {h : Http} (hrange : h.InRange) : reader.Restores toJson h := by
  refine reads_object (by simp [IsPlain, fields, Field.ofReader]) (by simp) fun depth => ?_
  exact .always rfl (Restores.optional (fun r _ => r.restores) fun _ _ h => by cases h)
    <| .always rfl (Restores.optional (fun r hr => HttpResponse.restores (hrange r hr))
      (fun _ _ h => by cases h))
    <| .nil _

/-- The response of an exchange that is read is in range. -/
theorem inRange_of_yields {h : Http} (hread : reader.Yields h) : h.InRange := by
  obtain ⟨depth, d, hread⟩ := hread
  refine record_sound ?_ (by simp [InRange]) hread
  simp only [fields, List.forall_mem_cons]
  exact ⟨Field.keeps_ofReader fun _ _ _ hh => hh,
    Field.keeps_ofReader fun _ hx _ _ _ hr =>
      HttpResponse.inRange_of_yields (hx.of_mem_optional hr),
    List.forall_mem_nil _⟩

end Http

/-- A query is read again whatever it says. -/
theorem Sql.restores (q : Sql) : reader.Restores toJson q := by
  refine reads_object (by simp [IsPlain, fields, Field.ofReader]) (by simp) fun depth => ?_
  exact .always rfl (restores_text? q.connectionString)
    <| .always rfl (restores_text? q.url)
    <| .always rfl (restores_text? q.sanitizedQuery)
    <| .always rfl (restores_text? q.databaseType)
    <| .always rfl (restores_text? q.databaseVersion)
    <| .always rfl (restores_text? q.driverVersion)
    <| .always rfl (restores_text? q.user)
    <| .always rfl (restores_text? q.preparation)
    <| .nil _

end CausalTrace
