import XmipEssentials.Lib.Padding
import XmipEssentials.Verdict

/-!
# Large payloads

A large document of each contract's shape: the contract's probe, or a body like it, padded with
whole units until it is as large as asked, with what the document says of itself kept true. A
`String` is its text here, as large as its UTF-8 bytes.
-/

namespace XmipEssentials

open Text Padding

/-! ### The codecs of other crates -/

/-- The encoders of the Avro and Protocol Buffers crates. -/
structure Codecs where
  /-- An Avro long. -/
  encodeLong : Int → List UInt8
  /-- An Avro string. -/
  encodeString : Text → List UInt8
  /-- An Avro object container of datums under a schema. -/
  writeContainer : Text → List (List UInt8) → List UInt8
  /-- A field's number and wire type. -/
  encodeTag : Nat → Nat → List UInt8
  encodeVarint : Nat → List UInt8
  /-- A length-delimited field. -/
  encodeDelimited : Nat → List UInt8 → List UInt8

/-- The schema every Avro probe carries. -/
def AVRO_SCHEMA : Text :=
  ("\x7b\"type\":\"record\",\"name\":\"Probe\",\"namespace\":\"xmip\",\"fields\":" ++
    "[\x7b\"name\":\"n\",\"type\":\"int\"\x7d," ++
    "\x7b\"name\":\"s\",\"type\":\"string\"\x7d]\x7d").toList

namespace Codecs

/-- An Avro container of so many probe records, each numbered and carrying the text. -/
def avroContainer (c : Codecs) (count : Nat) (text : Text) : List UInt8 :=
  c.writeContainer AVRO_SCHEMA ((List.range count).map fun n : Nat => c.encodeLong (n : Int) ++
    c.encodeString text)

/-- One protobuf message: a varint, a string, and so many length-delimited entries carrying the
text. -/
def protobufMessage (c : Codecs) (n : Nat) (text : Text) : List UInt8 :=
  c.encodeTag 1 0 ++ c.encodeVarint 1 ++ c.encodeDelimited 2 (utf8 "round-trip".toList) ++
    (List.replicate n (c.encodeDelimited 3 (utf8 text))).flatten

/-- The two codecs' parts of the probes. -/
def encoders (c : Codecs) : Encoders := ⟨c.avroContainer, c.protobufMessage⟩

/-- The standard encodings: a number is a byte or more, what is delimited stands after its length,
and a container holds its datums one after another under the null codec. -/
structure Standard (c : Codecs) : Prop where
  long : ∀ n, c.encodeLong n ≠ []
  string : ∀ text, c.encodeString text = c.encodeLong (utf8 text).length ++ utf8 text
  container : ∀ schema datums, ∃ header trailer, c.writeContainer schema datums =
    header ++ datums.flatten ++ trailer
  tag : ∀ field wireType, c.encodeTag field wireType ≠ []
  varint : ∀ n, c.encodeVarint n ≠ []
  delimited : ∀ field bytes,
    c.encodeDelimited field bytes = c.encodeTag field 2 ++ c.encodeVarint bytes.length ++ bytes

/-- A number in bytes of seven bits, the lowest first, each but the last marked. -/
def leb128 (n : Nat) : List UInt8 :=
  if n < 128 then [UInt8.ofNat n] else UInt8.ofNat (n % 128 + 128) :: leb128 (n / 128)

/-- A number of either sign, the small ones first. -/
def zigzag (n : Int) : Nat := if 0 ≤ n then 2 * n.toNat else 2 * n.natAbs - 1

/-- What is delimited by its length. -/
def delimited (bytes : List UInt8) : List UInt8 := leb128 (zigzag bytes.length) ++ bytes

/-- The codecs as their formats have them, with zeros to tell the blocks of a container apart. -/
def plain : Codecs where
  encodeLong n := leb128 (zigzag n)
  encodeString text := delimited (utf8 text)
  writeContainer schema datums :=
    let sync := List.replicate 16 (0 : UInt8)
    let header := utf8 "Obj\x01".toList ++ leb128 (zigzag 2) ++
      delimited (utf8 "avro.schema".toList) ++ delimited (utf8 schema) ++
        delimited (utf8 "avro.codec".toList) ++ delimited (utf8 "null".toList) ++
      leb128 (zigzag 0) ++ sync
    header ++ leb128 (zigzag datums.length) ++ leb128 (zigzag datums.flatten.length) ++
      datums.flatten ++ sync
  encodeTag field wireType := leb128 (field * 8 + wireType)
  encodeVarint := leb128
  encodeDelimited field bytes := leb128 (field * 8 + 2) ++ leb128 bytes.length ++ bytes

private theorem leb128_ne_nil (n : Nat) : leb128 n ≠ [] := by
  unfold leb128
  split_ifs <;> exact List.cons_ne_nil _ _

theorem standard_plain : plain.Standard where
  long _ := leb128_ne_nil _
  string _ := rfl
  container _ _ := ⟨_, _, rfl⟩
  tag _ _ := leb128_ne_nil _
  varint := leb128_ne_nil
  delimited _ _ := rfl

end Codecs

/-! ### Bodies padded to a size -/

/-- How many bytes a text is. -/
def byteLen (t : Text) : Nat := (utf8 t).length

theorem byteLen_append (a b : Text) : byteLen (a ++ b) = byteLen a + byteLen b := by
  rw [byteLen, utf8_append, List.length_append, byteLen, byteLen]

private theorem byteLen_pos {t : Text} (h : t ≠ []) : 0 < byteLen t := by
  obtain ⟨c, t, rfl⟩ := List.exists_cons_of_ne_nil h
  rw [byteLen, utf8, List.flatMap_cons, List.length_append]
  exact Nat.add_pos_left (List.length_pos_iff.mpr (String.utf8EncodeChar_ne_nil)) _

/-- Texts a body is padded with, none of them empty. -/
def textUnits (unit : Nat → Text) (h : ∀ n, unit n ≠ []) : Units Char where
  unit := unit
  size := byteLen
  size_append := byteLen_append
  size_pos n := byteLen_pos (h n)

/-- One unit again and again. -/
def repeatTo (unit : Text) (h : unit ≠ []) : Shape Char where
  head := []
  units := textUnits (fun _ => unit) fun _ => h
  first := 0
  seen := 0
  tail _ := []

/-- `opening`, a unit and then more until `closing` would reach the size, and `closing`: always at
least one unit. -/
def wrapTo (opening unit closing : Text) (h : unit ≠ []) : Shape Char where
  head := opening ++ unit
  units := textUnits (fun _ => unit) fun _ => h
  first := 0
  seen := byteLen closing
  tail _ := closing

/-- `line` and then more lines, CRLF between and none at the end. -/
def linesTo (line unit : Text) : Shape Char where
  head := line
  units := textUnits (fun _ => "\r\n".toList ++ unit) fun _ => List.cons_ne_nil _ _
  first := 0
  seen := 0
  tail _ := []

/-- A list of numbers, each after the first with a comma before it. -/
def largeJson : Shape Char where
  head := "\x7b\"probe\":\"heavy\",\"n\":[0".toList
  units := textUnits (fun i => ',' :: decimal i) fun _ => List.cons_ne_nil _ _
  first := 1
  seen := 0
  tail _ := "]\x7d".toList

/-- The text of a probe. -/
def probeText (probe : List UInt8) : Text := (fromUtf8 probe).getD []

/-- A probe cut at what it is known to hold. -/
def probeHalves (sep : Text) (probe : List UInt8) : Text × Text :=
  (splitOnce sep (probeText probe)).getD ([], [])

/-- One 850 padded with MSG segments, its SE count kept true: ST, BEG, PO1 and SE itself are of the
set as well. -/
def largeX12 : Shape Char where
  head := (probeHalves "SE*4*0001~".toList x12Probe).1
  units := textUnits (fun _ => "MSG*heavy~".toList) fun _ => by decide
  first := 3
  seen := 0
  tail segments := "SE*".toList ++ decimal (segments + 1) ++ "*0001~GE*1*1~IEA*1*000000001~".toList

/-- One ADT message padded with NTE segments, CR between segments and none at the end. -/
def largeHl7 : Shape Char where
  head := probeText hl7Probe
  units := textUnits (fun _ => "\rNTE|1||heavy".toList) fun _ => by decide
  first := 0
  seen := 0
  tail _ := []

/-- One message padded with FTX segments, its UNT count kept true: UNH, BGM and UNT itself are of it
as well. -/
def largeEdifact : Shape Char where
  head :=
    "UNA:+.? 'UNB+UNOC:3+SENDER+RECEIVER+260907:1345+REF001'".toList ++
      "UNH+1+ORDERS:D:96A:UN'BGM+220+PO4711'".toList
  units := textUnits (fun _ => "FTX+AAI+++heavy'".toList) fun _ => by decide
  first := 2
  seen := 0
  tail segments := "UNT+".toList ++ decimal (segments + 1) ++ "+1'UNZ+1+REF001'".toList

/-- One service description padded with messages, every reference still landing. -/
def largeWsdl : Shape Char where
  head := (probeHalves "<portType".toList wsdlProbe).1
  units := textUnits (fun n => "<message name=\"M".toList ++ decimal n ++ "\"/>".toList)
    fun _ => List.append_ne_nil_of_right_ne_nil _ (by decide)
  first := 0
  seen := byteLen (probeHalves "<portType".toList wsdlProbe).2
  tail _ := "<portType".toList ++ (probeHalves "<portType".toList wsdlProbe).2

/-- Entries of an object, each after the first with a comma before it. -/
def entries (entry : Nat → Text) (h : ∀ n, entry n ≠ []) : Units Char :=
  textUnits (fun n => (if 0 < n then [','] else []) ++ entry n) fun n =>
    List.append_ne_nil_of_right_ne_nil _ (h n)

/-- A path of a padded OpenAPI description, with its response. -/
def openApiPath (n : Nat) : Text :=
  "\"/p".toList ++ decimal n ++
    "\":\x7b\"get\":\x7b\"responses\":\x7b\"200\":\x7b\"description\":\"ok\"\x7d\x7d\x7d\x7d".toList

/-- One description padded with paths, each with its responses. -/
def largeOpenApi : Shape Char where
  head :=
    "\x7b\"openapi\":\"3.0.3\",\"info\":\x7b\"title\":\"Heavy\",\"version\":\"1\"\x7d,".toList ++
      "\"paths\":\x7b".toList
  units := entries openApiPath fun _ => List.cons_ne_nil _ _
  first := 0
  seen := 0
  tail _ := "\x7d\x7d".toList

/-- A channel of a padded AsyncAPI description. -/
def asyncApiChannel (n : Nat) : Text :=
  "\"c/".toList ++ decimal n ++
    "\":\x7b\"subscribe\":\x7b\"message\":\x7b\"name\":\"m\"\x7d\x7d\x7d".toList

/-- One description padded with channels. -/
def largeAsyncApi : Shape Char where
  head :=
    "\x7b\"asyncapi\":\"2.6.0\",\"info\":\x7b\"title\":\"Heavy\",\"version\":\"1\"\x7d,".toList ++
      "\"channels\":\x7b".toList
  units := entries asyncApiChannel fun _ => List.cons_ne_nil _ _
  first := 0
  seen := 0
  tail _ := "\x7d\x7d".toList

/-- A plain byte pattern, for loads too large to bother giving a structural shape. -/
def filler (size : Nat) : List UInt8 := (List.range size).map fun i => UInt8.ofNat (i % 256)

theorem length_filler (size : Nat) : (filler size).length = size := by
  rw [filler, List.length_map, List.length_range]

/-- The shape a contract's documents are padded in, where they are texts. -/
def Contract.shape : Contract → Option (Shape Char)
  | .text => some (repeatTo "xmip load ".toList (by decide))
  | .json => some largeJson
  | .xml => some (wrapTo "<probe>".toList "<i>x</i>".toList "</probe>".toList (by decide))
  | .html =>
    some (wrapTo "<!doctype html><title>xmip</title>".toList "<p>heavy</p>".toList [] (by decide))
  | .csv => some (linesTo "id,customer,total".toList "A1,\"ACME, Inc\",15.00".toList)
  | .fixedWidth => some (linesTo "A00001ACME      02".toList "A00002BOLT      01".toList)
  | .edifact => some largeEdifact
  | .regex => some (repeatTo "PROBE-4711 heavy ".toList (by decide))
  | .schematron =>
    some (wrapTo "<probe xmlns=\"urn:xmip:probe\">".toList "<n>1</n>".toList "</probe>".toList
      (by decide))
  | .hl7v2 => some largeHl7
  | .fhir =>
    some (wrapTo (("\x7b\"resourceType\":\"Bundle\",\"type\":\"collection\",\"entry\":" ++
        "[\x7b\"resource\":\x7b\"resourceType\":\"Patient\",\"id\":\"p0\"\x7d\x7d").toList)
      ",\x7b\"resource\":\x7b\"resourceType\":\"Observation\",\"id\":\"o\"\x7d\x7d".toList
        "]\x7d".toList (by decide))
  | .x12 => some largeX12
  | .graphqlSchema =>
    some (wrapTo "query Heavy \x7b ".toList "probe \x7b id ping \x7d ".toList "\x7d".toList
      (by decide))
  | .wsdl => some largeWsdl
  | .openApi => some largeOpenApi
  | .asyncApi => some largeAsyncApi
  | .sql =>
    some (wrapTo "BEGIN;\n".toList "INSERT INTO probe (n, ping) VALUES (1, 'heavy row');\n".toList
      "COMMIT;\n".toList (by decide))
  | .bytes | .avro | .protobuf => none

/-- A large, valid payload of a contract's shape, at least so many bytes. -/
def largePayload (enc : Encoders) (contract : Contract) (target : Nat) : List UInt8 :=
  match contract.shape with
  | some shape => utf8 (shape.fill target)
  | none =>
    match contract with
    | .avro => enc.avroContainer (target / 12 + 1) "heavy record".toList
    | .protobuf => enc.protobufMessage (target / 12 + 1) "heavy rec.".toList
    | _ => filler target

end XmipEssentials
