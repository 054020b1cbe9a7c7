import CausalTrace.Backend.Store
import CausalTrace.Trace.Blueprint

/-!
# Demonstration data

Two traces to try the tool with: a workflow that calls two functions and a topic, and the trace of
the function subscribed to the topic, which the topic's segment links to.

## Main definitions

* `Demonstration.load` — adds both traces to a store
* `Demonstration.header` — the header of the workflow's trace
-/

namespace CausalTrace.Demonstration

/-- The trace of the workflow. -/
def workflowId : TraceId := ⟨"1-6530f1a0-9c2f4e6b8d1a3c5e7f902468"⟩

/-- The trace of the function subscribed to the topic. -/
def subscriberId : TraceId := ⟨"1-6530f1a1-2b4d6f8a0c1e3a5c7e9b1d3f"⟩

/-- The header of the workflow's trace. -/
def header : Header := .ofRoot workflowId

/-- The second in which the workflow starts. -/
def origin : Float := 1697706400.0

/-- The edit that sets start and end, in seconds since the workflow started. -/
def timing (start finish : Float) : Blueprint.Edit := .timing (origin + start) (origin + finish)

/-- A task of the workflow and the call that it consists of. -/
def task (id name : String) (start finish : Float) (call : Blueprint) : Blueprint :=
  .build id [.name name, timing start finish, .subsegment call]

/-- A call to a service of the platform. -/
def call (id name : String) (start finish : Float) : Blueprint :=
  .build id [.name name, .downstream "aws", timing start finish]

/-- The workflow, with one task per branch. -/
def workflow : Blueprint := .build "4f2a9c1e7b3d5a08" [
  .name "order-workflow",
  .origin "AWS::StepFunctions::StateMachine",
  timing 0.0 1.250,
  .aws (.object [("stepfunctions", .object [
    ("arn", .string
      "arn:aws:states:us-east-1:123456789012:execution:order-workflow:5d1e")])]),
  .subsegment (task "a1c3e5f7092b4d6f" "ValidateOrder" 0.010 0.310
    (call "b2d4f6a8103c5e7a" "Lambda" 0.012 0.305)),
  .subsegment (task "c3e5a7b9214d6f8b" "ChargeCard" 0.320 0.910
    (call "d4f6b8c0325e7a9c" "Lambda" 0.322 0.900)),
  .subsegment (task "e5a7c9d1436f8bad" "NotifyCustomer" 0.920 1.240
    (call "f6b8d0e2547a9cbe" "SNS" 0.921 1.010))]

/-- The function that the first task calls. -/
def validation : Blueprint := .build "0a2c4e6f8b1d3f5a" [
  .name "validate-order",
  .origin "AWS::Lambda",
  .parent "b2d4f6a8103c5e7a",
  timing 0.020 0.300,
  Blueprint.Edit.annotation "order_id" (.string "ord-8812")]

/-- The function that the second task calls, with a call to a payment service. -/
def charge : Blueprint := .build "1b3d5f7a9c2e4a6b" [
  .name "charge-card",
  .origin "AWS::Lambda",
  .parent "d4f6b8c0325e7a9c",
  timing 0.330 0.890,
  .subsegment (.build "2c4e6a8b0d3f5b7c"
    [.name "payments.example.com", .downstream "remote", timing 0.400 0.850])]

/-- The topic that the third task calls, with the link to the subscriber's trace. -/
def topic : Blueprint := .build "3d5f7b9c1e4a6c8d" [
  .name "order-notifications",
  .origin "AWS::SNS",
  .parent "f6b8d0e2547a9cbe",
  timing 0.930 1.000,
  .link .child subscriberId]

/-- The function subscribed to the topic. -/
def confirmation : Blueprint := .build "4e6a8c0d2f5b7d9e" [
  .name "send-confirmation-email",
  .origin "AWS::Lambda",
  timing 1.100 1.450,
  .link .parent workflowId]

/-- Adds both traces to a store. -/
def load (s : Store) : Store :=
  let s := (s.ingest workflowId ([workflow, validation, charge, topic].map Blueprint.document)).1
  let s := (s.ingest subscriberId [confirmation.document]).1
  (s.setDuration workflowId 1.25).setDuration subscriberId 0.35

end CausalTrace.Demonstration
