import CausalTrace.Json.Reader

/-!
# Details of a segment

What a segment may report besides its place in the trace: the service that recorded it, the HTTP
request or SQL query it stands for, and the cause of a failure.  The backend's documents and the
written segments share these shapes, so each type comes with its reader and its JSON form.

## Main definitions

* `Namespace`, `LinkKind` — enumerations
* `StackFrame`, `Exception`, `CauseDetails`, `Cause` — the cause of a failure
* `Service`, `Http`, `Sql`

## Design notes

All fields are optional when they are read and all are written, absent ones as `null`.  A cause is
the id of an exception that is recorded elsewhere, or the details themselves; which of the two is
decided by the shape of the value.
-/

namespace CausalTrace

/-! ### Enumerations -/

/-- The kind of downstream call a segment records. -/
inductive Namespace
  /-- A call to a service of the platform. -/
  | aws
  /-- Any other call. -/
  | remote
  deriving DecidableEq, Repr

namespace Namespace

/-- The word of a namespace. -/
def word : Namespace → String
  | .aws => "aws"
  | .remote => "remote"

/-- The namespace of a word. -/
def ofWord? (s : String) : Option Namespace :=
  if s = "aws" then some .aws else if s = "remote" then some .remote else none

/-- Reads a namespace. -/
def reader : Reader Namespace := Reader.word ofWord?

end Namespace

/-- How a linked trace is related to the one that holds the link. -/
inductive LinkKind
  /-- The linked trace caused this one. -/
  | parent
  /-- This trace caused the linked one. -/
  | child
  deriving DecidableEq, Repr

namespace LinkKind

/-- The attribute of a link in a document that holds its kind. -/
def attributeKey : String := "aws.xray.reserved.reference_type"

/-- The word of a kind. -/
def word : LinkKind → String
  | .parent => "parent"
  | .child => "child"

/-- The kind of a word. -/
def ofWord? (s : String) : Option LinkKind :=
  if s = "parent" then some .parent else if s = "child" then some .child else none

/-- Reads a kind. -/
def reader : Reader LinkKind := Reader.word ofWord?

end LinkKind

/-! ### Causes -/

/-- A line of a stack trace. -/
structure StackFrame where
  path : Option String
  line : Option Nat
  label : Option String
  deriving DecidableEq, Repr

namespace StackFrame

/-- The fields of a stack frame. -/
def fields : List (Field StackFrame) := [
  .ofReader "path" (.optional .string) fun x r => { r with path := x },
  .ofReader "line" (.optional (.natOfBits 32)) fun x r => { r with line := x },
  .ofReader "label" (.optional .string) fun x r => { r with label := x }]

/-- Reads a stack frame. -/
def reader : Reader StackFrame := Reader.record fields ⟨none, none, none⟩

/-- The JSON form of a stack frame. -/
def toJson (f : StackFrame) : Json := .object [
  ("path", .ofText? f.path),
  ("line", .ofOption .nat f.line),
  ("label", .ofText? f.label)]

end StackFrame

/-- An exception. -/
structure Exception where
  id : Option String
  message : Option String
  kind : Option String
  remote : Bool
  /-- How many stack frames were left out at the end. -/
  truncated : Option Nat
  /-- How many exceptions were left out between this one and its cause. -/
  skipped : Option Nat
  /-- The id of the exception that caused this one. -/
  cause : Option String
  stack : List StackFrame
  deriving DecidableEq, Repr

namespace Exception

/-- The fields of an exception. -/
def fields : List (Field Exception) := [
  .ofReader "id" (.optional .string) fun x r => { r with id := x },
  .ofReader "message" (.optional .string) fun x r => { r with message := x },
  .ofReader "type" (.optional .string) fun x r => { r with kind := x },
  .ofReader "remote" .bool fun x r => { r with remote := x },
  .ofReader "truncated" (.optional (.natOfBits 32)) fun x r => { r with truncated := x },
  .ofReader "skipped" (.optional (.natOfBits 32)) fun x r => { r with skipped := x },
  .ofReader "cause" (.optional .string) fun x r => { r with cause := x },
  .ofReader "stack" (.list StackFrame.reader) fun x r => { r with stack := x }]

/-- Reads an exception. -/
def reader : Reader Exception :=
  Reader.record fields ⟨none, none, none, false, none, none, none, []⟩

/-- The JSON form of an exception. -/
def toJson (e : Exception) : Json := .object [
  ("id", .ofText? e.id),
  ("message", .ofText? e.message),
  ("type", .ofText? e.kind),
  ("remote", .bool e.remote),
  ("truncated", .ofOption .nat e.truncated),
  ("skipped", .ofOption .nat e.skipped),
  ("cause", .ofText? e.cause),
  ("stack", .ofList StackFrame.toJson e.stack)]

end Exception

/-- The details of a cause. -/
structure CauseDetails where
  workingDirectory : Option String
  paths : List String
  exceptions : List Exception
  deriving DecidableEq, Repr

namespace CauseDetails

/-- The fields of the details of a cause. -/
def fields : List (Field CauseDetails) := [
  .ofReader "working_directory" (.optional .string) fun x r => { r with workingDirectory := x },
  .ofReader "paths" (.list .string) fun x r => { r with paths := x },
  .ofReader "exceptions" (.list Exception.reader) fun x r => { r with exceptions := x }]

/-- Reads the details of a cause. -/
def reader : Reader CauseDetails := Reader.record fields ⟨none, [], []⟩

/-- The JSON form of the details of a cause; an absent working directory is left out. -/
def toJson (d : CauseDetails) : Json := .ofMembers [
  ("working_directory", d.workingDirectory.map .string),
  ("paths", some (.ofList .string d.paths)),
  ("exceptions", some (.ofList Exception.toJson d.exceptions))]

end CauseDetails

/-- The cause of a failure. -/
inductive Cause
  /-- The id of an exception recorded elsewhere in the trace. -/
  | exception (id : String)
  | details (details : CauseDetails)
  deriving DecidableEq, Repr

namespace Cause

/-- Reads a cause. -/
def reader : Reader Cause :=
  .either (Reader.string.map .exception) (CauseDetails.reader.map .details)

/-- The JSON form of a cause. -/
def toJson : Cause → Json
  | .exception id => .string id
  | .details d => d.toJson

end Cause

/-! ### Services, requests and queries -/

/-- The service that recorded a segment. -/
structure Service where
  kind : Option String
  version : Option String
  deriving DecidableEq, Repr

namespace Service

/-- The fields of a service. -/
def fields : List (Field Service) := [
  .ofReader "type" (.optional .string) fun x r => { r with kind := x },
  .ofReader "version" (.optional .string) fun x r => { r with version := x }]

/-- Reads a service. -/
def reader : Reader Service := Reader.record fields ⟨none, none⟩

/-- The JSON form of a service. -/
def toJson (s : Service) : Json := .object [
  ("type", .ofText? s.kind),
  ("version", .ofText? s.version)]

end Service

/-- An HTTP request. -/
structure HttpRequest where
  method : Option String
  clientIp : Option String
  url : Option String
  userAgent : Option String
  forwarded : Option Bool
  traced : Option Bool
  deriving DecidableEq, Repr

namespace HttpRequest

/-- The fields of an HTTP request. -/
def fields : List (Field HttpRequest) := [
  .ofReader "method" (.optional .string) fun x r => { r with method := x },
  .ofReader "client_ip" (.optional .string) fun x r => { r with clientIp := x },
  .ofReader "url" (.optional .string) fun x r => { r with url := x },
  .ofReader "user_agent" (.optional .string) fun x r => { r with userAgent := x },
  .ofReader "x_forwarded_for" (.optional .bool) fun x r => { r with forwarded := x },
  .ofReader "traced" (.optional .bool) fun x r => { r with traced := x }]

/-- Reads an HTTP request. -/
def reader : Reader HttpRequest := Reader.record fields ⟨none, none, none, none, none, none⟩

/-- The JSON form of an HTTP request. -/
def toJson (r : HttpRequest) : Json := .object [
  ("method", .ofText? r.method),
  ("client_ip", .ofText? r.clientIp),
  ("url", .ofText? r.url),
  ("user_agent", .ofText? r.userAgent),
  ("x_forwarded_for", .ofOption .bool r.forwarded),
  ("traced", .ofOption .bool r.traced)]

end HttpRequest

/-- An HTTP response. -/
structure HttpResponse where
  status : Option Nat
  contentLength : Option Nat
  deriving DecidableEq, Repr

namespace HttpResponse

/-- The fields of an HTTP response. -/
def fields : List (Field HttpResponse) := [
  .ofReader "status" (.optional (.natOfBits 16)) fun x r => { r with status := x },
  .ofReader "content_length" (.optional (.natOfBits 64)) fun x r =>
    { r with contentLength := x }]

/-- Reads an HTTP response. -/
def reader : Reader HttpResponse := Reader.record fields ⟨none, none⟩

/-- The JSON form of an HTTP response. -/
def toJson (r : HttpResponse) : Json := .object [
  ("status", .ofOption .nat r.status),
  ("content_length", .ofOption .nat r.contentLength)]

end HttpResponse

/-- An HTTP call. -/
structure Http where
  request : Option HttpRequest
  response : Option HttpResponse
  deriving DecidableEq, Repr

namespace Http

/-- The fields of an HTTP call. -/
def fields : List (Field Http) := [
  .ofReader "request" (.optional HttpRequest.reader) fun x r => { r with request := x },
  .ofReader "response" (.optional HttpResponse.reader) fun x r => { r with response := x }]

/-- Reads an HTTP call. -/
def reader : Reader Http := Reader.record fields ⟨none, none⟩

/-- The JSON form of an HTTP call. -/
def toJson (h : Http) : Json := .object [
  ("request", .ofOption HttpRequest.toJson h.request),
  ("response", .ofOption HttpResponse.toJson h.response)]

end Http

/-- A query to a database. -/
structure Sql where
  connectionString : Option String
  url : Option String
  sanitizedQuery : Option String
  databaseType : Option String
  databaseVersion : Option String
  driverVersion : Option String
  user : Option String
  preparation : Option String
  deriving DecidableEq, Repr

namespace Sql

/-- The fields of a query. -/
def fields : List (Field Sql) := [
  .ofReader "connection_string" (.optional .string) fun x r => { r with connectionString := x },
  .ofReader "url" (.optional .string) fun x r => { r with url := x },
  .ofReader "sanitized_query" (.optional .string) fun x r => { r with sanitizedQuery := x },
  .ofReader "database_type" (.optional .string) fun x r => { r with databaseType := x },
  .ofReader "database_version" (.optional .string) fun x r => { r with databaseVersion := x },
  .ofReader "driver_version" (.optional .string) fun x r => { r with driverVersion := x },
  .ofReader "user" (.optional .string) fun x r => { r with user := x },
  .ofReader "preparation" (.optional .string) fun x r => { r with preparation := x }]

/-- Reads a query. -/
def reader : Reader Sql :=
  Reader.record fields ⟨none, none, none, none, none, none, none, none⟩

/-- The JSON form of a query. -/
def toJson (q : Sql) : Json := .object [
  ("connection_string", .ofText? q.connectionString),
  ("url", .ofText? q.url),
  ("sanitized_query", .ofText? q.sanitizedQuery),
  ("database_type", .ofText? q.databaseType),
  ("database_version", .ofText? q.databaseVersion),
  ("driver_version", .ofText? q.driverVersion),
  ("user", .ofText? q.user),
  ("preparation", .ofText? q.preparation)]

end Sql

end CausalTrace
