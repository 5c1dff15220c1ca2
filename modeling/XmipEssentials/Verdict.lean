import Mathlib.Data.List.Nodup
import XmipEssentials.Lib.Text

/-!
# Stages, contracts and verdicts

What one round of the `RoundTrip` test is said of: a stage of the message path, a content contract
with the probe it sends, and the verdict a stage comes to on a pair of a transport and a contract.
The contracts' names are the tokens that stand in scopes, handoff headers and file names, so what
the rest rests on is that no two are alike and none holds a character a header or a name is split
at (`Contract.name_injective`, `Contract.name_plain`).
-/

namespace XmipEssentials

open Text

/-! ### Stages of the message path -/

/-- A stage of the message path. -/
inductive Stage where
  | receive
  | process
  | send
  deriving DecidableEq, Repr

namespace Stage

/-- Every stage, in the order a Message goes through them. -/
def all : List Stage := [receive, process, send]

/-- The stage's token in a scope and a path. -/
def name : Stage → Text
  | receive => "receive".toList
  | process => "process".toList
  | send => "send".toList

/-- The stage that follows. -/
def next : Stage → Option Stage
  | receive => some process
  | process => some send
  | send => none

@[simp] theorem mem_all (s : Stage) : s ∈ all := by cases s <;> decide

theorem name_injective {s t : Stage} (h : s.name = t.name) : s = t := by
  revert h
  cases s <;> cases t <;> decide

theorem next_injective {s t u : Stage} (hs : s.next = some u) (ht : t.next = some u) : s = t := by
  cases s <;> cases t <;> simp only [next, Option.some.injEq, reduceCtorEq] at hs ht <;> grind

end Stage

/-! ### Contracts -/

/-- The content a probe sends and expects back: the matrix's second axis. -/
inductive Contract where
  | bytes
  | text
  | json
  | xml
  | html
  | csv
  | fixedWidth
  | edifact
  | regex
  | schematron
  | hl7v2
  | fhir
  | x12
  | avro
  | graphqlSchema
  | protobuf
  | wsdl
  | openApi
  | asyncApi
  | sql
  deriving DecidableEq, Repr

/-- Every contract the rig exercises. -/
def contracts : List Contract :=
  [.bytes, .text, .json, .xml, .html, .csv, .fixedWidth, .edifact, .regex, .schematron, .hl7v2,
    .fhir, .x12, .avro, .graphqlSchema, .protobuf, .wsdl, .openApi, .asyncApi, .sql]

/-- One WSDL 1.1 description of a single service. -/
def wsdlProbe : List UInt8 :=
  utf8 ("<definitions name=\"Probe\" targetNamespace=\"urn:probe\" xmlns:tns=\"urn:prob" ++
    "e\" xmlns=\"http://schemas.xmlsoap.org/wsdl/\"><message name=\"PingIn\"/><port" ++
    "Type name=\"ProbePort\"><operation name=\"Ping\"><input message=\"tns:PingIn\"" ++
    "/></operation></portType><binding name=\"ProbeSoap\" type=\"tns:ProbePort\"/><" ++
    "service name=\"ProbeService\"><port name=\"Probe\" binding=\"tns:ProbeSoap\"/>" ++
    "</service></definitions>").toList

/-- One OpenAPI 3.0 description of a single operation. -/
def openapiProbe : List UInt8 :=
  utf8 ("\x7b\"openapi\":\"3.0.3\",\"info\":\x7b\"title\":\"Probe\",\"version\":\"1\"" ++
    "\x7d,\"paths\":\x7b\"/ping\":\x7b\"post\":\x7b\"operationId\":\"ping\",\"respo" ++
    "nses\":\x7b\"200\":\x7b\"description\":\"pong\"\x7d\x7d\x7d\x7d\x7d\x7d").toList

/-- One AsyncAPI 2.6 description of a single channel. -/
def asyncapiProbe : List UInt8 :=
  utf8 ("\x7b\"asyncapi\":\"2.6.0\",\"info\":\x7b\"title\":\"Probe\",\"version\":\"1\"" ++
    "\x7d,\"channels\":\x7b\"probe/ping\":\x7b\"subscribe\":\x7b\"message\":\x7b\"p" ++
    "ayload\":\x7b\"type\":\"string\"\x7d\x7d\x7d\x7d\x7d\x7d").toList

/-- One sound 850 purchase order, version 004010. -/
def x12Probe : List UInt8 :=
  utf8 ("ISA*00*          *00*          *ZZ*SENDER         *ZZ*RECEIVER       *260908*1" ++
    "030*U*00401*000000001*0*P*>~GS*PO*SENDER*RECEIVER*20260908*1030*1*X*004010~ST*" ++
    "850*0001~BEG*00*SA*PO4711**20260908~PO1*1*2*EA*10.00**VP*X001~SE*4*0001~GE*1*1" ++
    "~IEA*1*000000001~").toList

/-- One ADT^A01 admission, HL7 v2.5. -/
def hl7Probe : List UInt8 :=
  utf8 ("MSH|^~\\&|LAB|HOSP|EMR|CLINIC|20260908103000||ADT^A01|PROBE1|P|2.5\rPID|1||123" ++
    "456^^^HOSP^MR||DOE^JOHN||19800101|M").toList

/-- One sound ORDERS interchange, D96A. -/
def edifactProbe : List UInt8 :=
  utf8 ("UNA:+.? 'UNB+UNOC:3+SENDER+RECEIVER+260907:1345+REF001'UNH+1+ORDERS:D:96A:UN'B" ++
    "GM+220+PO4711'DTM+137:20260907:102'LIN+1++X001:SA'QTY+21:2'UNT+6+1'UNZ+1+REF00" ++
    "1'").toList

/-- What the codecs of other crates write for two of the probes. -/
structure Encoders where
  /-- One Avro container of probe records, each carrying the text. -/
  avroContainer : Nat → Text → List UInt8
  /-- One protobuf message of records, each carrying the text. -/
  protobufMessage : Nat → Text → List UInt8

namespace Contract

/-- The contract's token in a scope, a header and a file name. -/
def name : Contract → Text
  | bytes => "bytes".toList
  | text => "text".toList
  | json => "json".toList
  | xml => "xml".toList
  | html => "html".toList
  | csv => "csv".toList
  | fixedWidth => "fixed-width".toList
  | edifact => "edi-edifact".toList
  | regex => "regex".toList
  | schematron => "schematron".toList
  | hl7v2 => "hl7-v2".toList
  | fhir => "fhir".toList
  | x12 => "edi-x12".toList
  | avro => "avro".toList
  | graphqlSchema => "graphql-schema".toList
  | protobuf => "protobuf".toList
  | wsdl => "wsdl".toList
  | openApi => "openapi".toList
  | asyncApi => "asyncapi".toList
  | sql => "sql".toList

/-- The payload this contract sends. -/
def payload (enc : Encoders) : Contract → List UInt8
  | bytes => [0x00, 0x01, 0x02, 0xfd, 0xfe, 0xff]
  | text => utf8 "xmip round-trip".toList
  | json => utf8 "\x7b\"probe\":\"round-trip\",\"n\":1\x7d".toList
  | xml => utf8 "<probe><n>1</n>round-trip</probe>".toList
  | html => utf8 "<!doctype html><title>xmip</title><p>round-trip".toList
  | csv => utf8 "probe,n\r\n\"ping,pong\",1".toList
  | fixedWidth => utf8 "A00001ACME      02\r\nA00002BOLT      01".toList
  | edifact => edifactProbe
  | regex => utf8 "PROBE-4711 round-trip".toList
  | schematron => utf8 "<probe xmlns=\"urn:xmip:probe\"><n>1</n></probe>".toList
  | hl7v2 => hl7Probe
  | fhir => utf8 "\x7b\"resourceType\":\"Patient\",\"id\":\"probe-1\"\x7d".toList
  | x12 => x12Probe
  | avro => enc.avroContainer 1 "round-trip".toList
  | graphqlSchema => utf8 "query Probe \x7b probe(n: 1) \x7b id ping \x7d \x7d".toList
  | protobuf => enc.protobufMessage 1 "round-trip".toList
  | wsdl => wsdlProbe
  | openApi => openapiProbe
  | asyncApi => asyncapiProbe
  | sql => utf8 "INSERT INTO probe (n, ping) VALUES (1, 'round-trip');".toList

@[simp] theorem mem_contracts (c : Contract) : c ∈ contracts := by cases c <;> decide

theorem nodup_contracts : contracts.Nodup := by decide

theorem name_injective : Function.Injective name := by
  have h : (contracts.map name).Nodup := by decide
  intro a b hab
  exact List.inj_on_of_nodup_map h (mem_contracts a) (mem_contracts b) hab

/-- **A contract is found again by its name.** -/
theorem find_name (c : Contract) : contracts.find? (fun one => one.name == c.name) = some c := by
  cases c <;> decide

/-- A contract's name is one word of lower case letters, digits and hyphens. -/
theorem name_plain (c : Contract) : ∀ ch ∈ c.name, ch.isLower ∨ ch.isDigit ∨ ch = '-' := by
  have hall : c.name.all (fun ch => ch.isLower || ch.isDigit || ch == '-') = true := by
    cases c <;> decide
  intro ch hch
  have hplain := List.all_eq_true.mp hall ch hch
  rw [Bool.or_eq_true, Bool.or_eq_true, beq_iff_eq, or_assoc] at hplain
  exact hplain

/-- No contract's name ends, piece by piece, in another's. -/
theorem pieces_suffix (c d : Contract) (h : c.name.splitOn '-' <:+ d.name.splitOn '-') : c = d := by
  have hall : ∀ c ∈ contracts, ∀ d ∈ contracts,
      c.name.splitOn '-' <:+ d.name.splitOn '-' → c = d := by decide
  exact hall c (mem_contracts c) d (mem_contracts d) h

end Contract

/-! ### Verdicts -/

/-- What happened to a pair at a stage. -/
inductive Outcome where
  /-- Out, back and matched. -/
  | delivered
  /-- The transport supports one direction only, and why. -/
  | oneSided (why : Text)
  /-- It failed, and why. -/
  | failed (why : Text)
  deriving DecidableEq, Repr

/-- One round's outcome for a stage, a transport and a contract; `point` is a step beneath it that
the identity pipeline publishes. -/
structure Verdict where
  stage : Stage
  transport : Text
  contract : Contract
  outcome : Outcome
  bytes : Nat
  point : Option Text
  observedUnixNanos : Int
  deriving DecidableEq, Repr

/-- The scope a verdict is published under: `<node>/<stage>/<transport>/<contract>`, and beneath it
the point. -/
def Verdict.scope (v : Verdict) (node : Text) : Text :=
  let base := node ++ '/' :: v.stage.name ++ '/' :: v.transport ++ '/' :: v.contract.name
  match v.point with
  | some point => base ++ '/' :: point
  | none => base

end XmipEssentials
