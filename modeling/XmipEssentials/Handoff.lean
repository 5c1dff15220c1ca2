import Mathlib.Data.List.Sort
import XmipEssentials.Lib.Files
import XmipEssentials.Lib.Prog
import XmipEssentials.Observe

/-!
# The handoff between node processes

A pair's bytes passed from the node that received it to one that can process it and on to one that
can send it, through inboxes in the cluster's shared directory. A sender writes a handoff under a
temporary name and renames it into place, so a reader never sees half a file; the receiver claims
one by renaming it to a name only it uses. Every delivered handoff is a hop, counted per link.

The programs are trees of calls (`Conc.Prog`) on the shared store. Some calls carry a `Note`, which
says what the call is to the one who makes it — the handoff a rename delivers, what a claimed file
read back as. A note changes nothing of what the call does: it is what a history is kept by.

* `decode_encode_whole` — what is written reads back, for names that are single words, and nothing
  cut short or longer does.
* `fileName_injective` — a ready file's name says who delivered it and at which count.
-/

namespace XmipEssentials

open Text Conc Files

/-! ### A handoff and its file -/

/-- One pair's bytes on their way to the next node. -/
structure Handoff where
  transport : Text
  contract : Contract
  /-- The round the receiving node took it in. -/
  round : Nat
  /-- The node that handed it on. -/
  sender : Text
  bytes : List UInt8
  deriving DecidableEq, Repr

/-- The extension of a handoff that waits. -/
def ready : Text := "handoff".toList

/-- The extension of a handoff being written. -/
def writing : Text := "writing".toList

/-- The first word of a handoff's file. -/
def magic : Text := "xmip-handoff-1".toList

namespace Handoff

/-- The header line's words. -/
def header (h : Handoff) : List Text :=
  [magic, h.transport, h.contract.name, decimal h.round, h.sender, decimal h.bytes.length]

/-- One header line, then the bytes as they are. -/
def encode (h : Handoff) : List UInt8 :=
  utf8 ([' '].intercalate h.header ++ ['\n']) ++ h.bytes

/-- The handoff the words of a header line and the bytes after it say. A round and a length are
numbers of any size here; those of the source have 64 bits, and a header with a larger one, which
no relay ever writes, says no handoff there. -/
def ofWords (words : List Text) (bytes : List UInt8) : Option Handoff :=
  match words with
  | first :: transport :: name :: round :: sender :: length :: _ => do
    if first ≠ magic then none
    let contract ← contracts.find? fun one => one.name == name
    let round ← parseNat round
    let length ← parseNat length
    if bytes.length = length then some ⟨transport, contract, round, sender, bytes⟩ else none
  | _ => none

/-- The handoff a file's bytes say, if they say one, with its round of any size as `ofWords` has
it. -/
def decode (raw : List UInt8) : Option Handoff := do
  let finish ← raw.idxOf? 10
  let line ← fromUtf8 (raw.take finish)
  ofWords (line.splitOn ' ') (raw.drop (finish + 1))

/-- The name a handoff waits under, its extension aside. -/
def fileName (h : Handoff) (sequence : Nat) : Text :=
  padded 10 h.round ++ '-' :: h.sender ++ '-' :: padded 10 sequence ++ '-' :: h.transport ++
    '-' :: h.contract.name

end Handoff

/-! ### The calls of a relay -/

/-- What came back of one exchange over a transport. -/
inductive Exchange where
  | returned (back : List UInt8)
  | oneSided (why : Text)
  | failed (why : Text)
  deriving DecidableEq, Repr

/-- An inbox of the shared directory, `<shared>/handoff/<node>/<stage>/`: the node that drains it
and the stage it drains it at. -/
abbrev Inbox : Type := Text × Stage

/-- What a call is to the relay that makes it. -/
inductive Note where
  /-- Nothing but the call. -/
  | plain
  /-- The rename that delivers a handoff, at the sender's count. -/
  | deliver (handoff : Handoff) (sequence : Nat)
  /-- The rename that claims a waiting handoff. -/
  | claim
  /-- What the claimed file of this name read back as. -/
  | decoded (name : Text) (found : Option Handoff)
  /-- A claimed handoff was judged. -/
  | judged (handoff : Handoff)
  /-- A pair's verdict at this stage, after whatever was handed on for it. -/
  | verdict (v : Verdict)

/-- A call a relay makes, by what it answers. -/
inductive RelayOp : Type → Type 1 where
  /-- The time, in nanoseconds. -/
  | now : RelayOp Int
  /-- A call on the shared store. -/
  | file {β : Type} (op : FileOp Inbox UInt8 β) (note : Note) : RelayOp (Except Text β)
  /-- Why the transport refuses the payload, if it does. -/
  | refuses (transport : Text) (payload : List UInt8) : RelayOp (Option Text)
  /-- The payload through the transport. -/
  | exchange (transport : Text) (payload : List UInt8) : RelayOp Exchange
  /-- Whether a Subscription of the node picks the pair up, or holds it. -/
  | route (handoff : Handoff) : RelayOp (Except Text Bool)
  /-- The held pairs a resume let go of. -/
  | released : RelayOp (List Handoff)
  /-- The node handed a released pair on, or could not. -/
  | done (handoff : Handoff) (handed : Except Text Unit) : RelayOp Unit
  /-- What was taken so far of the Parties' drop box, by protocol and Party. -/
  | taken : RelayOp (List (Text × Text × Nat))
  /-- No call at all: what its maker says of itself. -/
  | tell (note : Note) : RelayOp Unit

/-- There is an answer to every call. -/
theorem RelayOp.nonempty : ∀ ⦃β : Type⦄ (_ : RelayOp β), Nonempty β
  | _, .now => ⟨0⟩
  | _, .file .. => ⟨.error []⟩
  | _, .refuses .. => ⟨none⟩
  | _, .exchange .. => ⟨.failed []⟩
  | _, .route _ => ⟨.ok true⟩
  | _, .released => ⟨[]⟩
  | _, .done .. => ⟨()⟩
  | _, .taken => ⟨[]⟩
  | _, .tell _ => ⟨()⟩

/-- The program of one call on the store. -/
def file {β : Type} (op : FileOp Inbox UInt8 β) (note : Note) :
    Prog RelayOp (Except Text β) := Prog.perform (.file op note)

/-! ### One node's inbox -/

namespace Inbox

/-- Put `handoff` in this inbox: written whole under a temporary name, then renamed into place.
`sequence` is the sender's own count. -/
def deliver (dir : Inbox) (handoff : Handoff) (sequence : Nat) :
    Prog RelayOp (Except Text Unit) := do
  match ← file (.makeDir dir) .plain with
  | .error why => pure (.error why)
  | .ok () =>
    let name := handoff.fileName sequence
    match ← file (.create dir (name ++ '.' :: writing)) .plain with
    | .error why => pure (.error why)
    | .ok () =>
      match ← file (.write dir (name ++ '.' :: writing) handoff.encode) .plain with
      | .error why => pure (.error why)
      | .ok () =>
        file (.rename dir (name ++ '.' :: writing) (name ++ '.' :: ready))
          (.deliver handoff sequence)

/-- Claim each of the files named, by renaming it to this process's own name for it: a rename that
fails is a race lost, and a file that does not read back as a handoff is dropped and counted. -/
def claimEach (dir : Inbox) (process : Nat) : List Text → Prog RelayOp (List Handoff × Nat)
  | [] => pure ([], 0)
  | name :: rest => do
    let mine := withExtension name ("claimed-".toList ++ decimal process)
    match ← file (.rename dir name mine) .claim with
    | .error _ => claimEach dir process rest
    | .ok () =>
      let raw ← file (.read dir mine) .plain
      let found := raw.toOption.bind Handoff.decode
      Prog.perform (.tell (.decoded name found))
      let _ ← file (.remove dir mine) .plain
      let (claimed, unreadable) ← claimEach dir process rest
      match found with
      | some handoff => pure (handoff :: claimed, unreadable)
      | none => pure (claimed, unreadable + 1)

/-- Claim up to `limit` handoffs, oldest round first. -/
def claim (dir : Inbox) (process limit : Nat) : Prog RelayOp (List Handoff × Nat) := do
  match ← file (.list dir) .plain with
  | .error _ => pure ([], 0)
  | .ok names =>
    let waiting := (names.filter fun name => extension name = some ready).insertionSort (· ≤ ·)
    claimEach dir process (waiting.take limit)

/-- How many handoffs wait unclaimed. -/
def waiting (dir : Inbox) : Prog RelayOp Nat := do
  match ← file (.list dir) .plain with
  | .error _ => pure 0
  | .ok names => pure (names.filter fun name => extension name = some ready).length

end Inbox

/-! ### Hops -/

/-- The hops over one link: how many handoffs were delivered, the stage each end served, and when
the last one was. -/
structure Hop where
  sender : Text
  senderStage : Text
  receiver : Text
  receiverStage : Text
  count : Nat
  lastUnixNanos : Int
  deriving DecidableEq, Repr

/-- Every link a node has handed over, with its hops, by where it starts and ends. -/
structure Hops where
  links : AList fun _ : Text × Text => Hop

namespace Hops

/-- No link handed over yet. -/
def default : Hops := ⟨∅⟩

/-- Where a link starts or ends. -/
def endpoint (place : Text × Stage) : Text := place.1 ++ '/' :: place.2.name

/-- How many handoffs went over the link. -/
def count (h : Hops) (source dest : Text × Stage) : Nat :=
  ((h.links.lookup (endpoint source, endpoint dest)).map Hop.count).getD 0

/-- The links. -/
def all (h : Hops) : List Hop := h.links.entries.map fun entry => entry.2

/-- One delivered handoff recorded, from one node's stage to another's. -/
def record (h : Hops) (source dest : Text × Stage) (now : Int) : Hops :=
  let ends := (endpoint source, endpoint dest)
  let hop := (h.links.lookup ends).getD
    ⟨source.1, source.2.name, dest.1, dest.2.name, 0, now⟩
  ⟨h.links.insert ends { hop with count := hop.count + 1, lastUnixNanos := now }⟩

/-- One health record per link handed over, beneath `node`, and — for a stage that takes handoffs,
`inbox` its waiting and unreadable counts — one for the inbox. -/
def records (h : Hops) (node : Text) (inbox : Option (Nat × Nat)) (now : Int) :
    List HealthRecord :=
  let link := fun (hop : Hop) => (⟨node ++ "/handoff/".toList ++ hop.receiver, .fine, 0,
    decimal hop.count ++ " handoffs to ".toList ++ hop.receiver, now⟩ : HealthRecord)
  let links := h.all.map link
  match inbox with
  | none => links
  | some (waiting, unreadable) =>
    let (health, severity) := if unreadable > 0 then (Health.stressed, 50) else (Health.fine, 0)
    links ++ [⟨node ++ "/handoff/inbox".toList, health, severity,
      decimal waiting ++ " waiting, ".toList ++ decimal unreadable ++ " unreadable".toList, now⟩]

/-- A place's text says the place: no stage's name holds a `/`. -/
theorem endpoint_injective : Function.Injective endpoint := by
  rintro ⟨a, s⟩ ⟨b, t⟩ h
  have hslash : ∀ u : Stage, '/' ∉ u.name := by
    intro u
    cases u <;> decide
  -- the stage after the last slash, as no stage's name holds one
  have hs : rsplitOnce '/' (a ++ '/' :: s.name) = some (a, s.name) := rsplitOnce_append (hslash s)
  have ht : rsplitOnce '/' (b ++ '/' :: t.name) = some (b, t.name) := rsplitOnce_append (hslash t)
  change a ++ '/' :: s.name = b ++ '/' :: t.name at h
  rw [h, ht] at hs
  simp only [Option.some.injEq, Prod.mk.injEq] at hs
  rw [hs.1, Stage.name_injective hs.2]

theorem count_record (h : Hops) (source dest : Text × Stage) (now : Int)
    (source' dest' : Text × Stage) :
    (h.record source dest now).count source' dest' =
      if source' = source ∧ dest' = dest then h.count source dest + 1
      else h.count source' dest' := by
  -- the link recorded is one of the counts, and every other link keeps its own
  by_cases hends : source' = source ∧ dest' = dest
  · obtain ⟨rfl, rfl⟩ := hends
    rw [if_pos ⟨rfl, rfl⟩, count, record]
    simp only [AList.lookup_insert, Option.map_some, Option.getD_some, count]
    cases h.links.lookup (endpoint source', endpoint dest') <;> rfl
  · rw [if_neg hends]
    have hne : (endpoint source', endpoint dest') ≠ (endpoint source, endpoint dest) := by
      intro heq
      rw [Prod.mk.injEq] at heq
      exact hends ⟨endpoint_injective heq.1, endpoint_injective heq.2⟩
    rw [count, record]
    simp only [AList.lookup_insert_ne hne, count]

end Hops

/-! ### The file's content -/

namespace Handoff

/-- A name that is one word of the header line: no space, and no line break. -/
def Word (name : Text) : Prop := ' ' ∉ name ∧ '\n' ∉ name

theorem word_decimal (n : Nat) : Word (decimal n) :=
  ⟨fun h => absurd (decimal_isDigit h) (by decide), fun h => absurd (decimal_isDigit h) (by decide)⟩

theorem word_contract (c : Contract) : Word c.name :=
  ⟨fun h => absurd (c.name_plain _ h) (by decide), fun h => absurd (c.name_plain _ h) (by decide)⟩

private theorem word_header {h : Handoff} (htransport : Word h.transport)
    (hsender : Word h.sender) :
    ∀ word ∈ h.header, Word word := by
  intro word hword
  simp only [header, List.mem_cons, List.not_mem_nil, or_false] at hword
  rcases hword with rfl | rfl | rfl | rfl | rfl | rfl
  · exact ⟨by decide, by decide⟩
  · exact htransport
  · exact word_contract _
  · exact word_decimal _
  · exact hsender
  · exact word_decimal _

/-- The words of a handoff's own header say it. -/
theorem ofWords_header (h : Handoff) : ofWords h.header h.bytes = some h := by
  simp [ofWords, header, Contract.find_name, parseNat_decimal]

/-- The line break that ends the header is the first byte of its kind. -/
theorem decode_line {line : Text} (hline : '\n' ∉ line) (bytes : List UInt8) :
    decode (utf8 (line ++ ['\n']) ++ bytes) = ofWords (line.splitOn ' ') bytes := by
  have hnot : (10 : UInt8) ∉ utf8 line := fun h => hline (mem_utf8 h)
  have hbreak : utf8 ['\n'] = [10] := by decide
  -- the first line break is the one after the line
  have hidx : (utf8 (line ++ ['\n']) ++ bytes).idxOf? 10 = some (utf8 line).length := by
    have hnone : (utf8 line).idxOf? 10 = none := by
      rw [List.idxOf?_eq_none_iff]
      exact hnot
    rw [utf8_append, hbreak, List.append_assoc]
    rw [List.idxOf?] at hnone ⊢
    rw [List.findIdx?_append, hnone]
    simp [List.findIdx?_cons]
  rw [decode, hidx, Option.bind_eq_bind, Option.bind_some, utf8_append, hbreak, List.append_assoc,
    List.take_left, fromUtf8_utf8, Option.bind_eq_bind, Option.bind_some]
  simp

/-- The words of a handoff's header say nothing over so many bytes as it does not declare. -/
theorem ofWords_header_of_ne {h : Handoff} {bytes : List UInt8}
    (hlength : bytes.length ≠ h.bytes.length) :
    ofWords h.header bytes = none := by
  simp [ofWords, header, Contract.find_name, parseNat_decimal, hlength]

/-- Bytes without a line break say no handoff. -/
theorem decode_no_line {raw : List UInt8} (hraw : (10 : UInt8) ∉ raw) : decode raw = none := by
  have hnone : raw.idxOf? 10 = none := by
    rw [List.idxOf?_eq_none_iff]
    exact hraw
  rw [decode, hnone]
  rfl

section

variable {h : Handoff} (htransport : Word h.transport) (hsender : Word h.sender)

include htransport hsender

private theorem not_mem_header_line : '\n' ∉ [' '].intercalate h.header := by
  intro hmem
  rcases mem_intercalate hmem with hc | ⟨word, hword, hc⟩
  · exact absurd (List.mem_singleton.mp hc) (by decide)
  · exact (word_header htransport hsender word hword).2 hc

/-- After a handoff's header line stand its words and whatever bytes follow. -/
theorem decode_header (bytes : List UInt8) :
    decode (utf8 ([' '].intercalate h.header ++ ['\n']) ++ bytes) = ofWords h.header bytes := by
  rw [decode_line (not_mem_header_line htransport hsender),
    List.splitOn_intercalate ' ' (fun w hw => (word_header htransport hsender w hw).1)
    (by simp [header])]

/-- **What is written reads back**, where the transport's and the sender's name are each one
word. -/
theorem decode_encode : decode h.encode = some h := by
  rw [encode, decode_header htransport hsender]
  exact ofWords_header h

/-- A file cut short says no handoff: it is cut before the header's end, or holds too few bytes. -/
theorem decode_cut {raw : List UInt8} (hcut : raw <+: h.encode) (hne : raw ≠ h.encode) :
    decode raw = none := by
  have hbreak : utf8 ['\n'] = [10] := by decide
  -- neither a token nor a number holds a line break
  have hline : (10 : UInt8) ∉ utf8 ([' '].intercalate h.header) :=
    fun hmem => not_mem_header_line htransport hsender (mem_utf8 hmem)
  obtain ⟨rest, hrest⟩ := hcut
  have hsplit : raw ++ rest = utf8 ([' '].intercalate h.header) ++ (10 :: h.bytes) := by
    rw [hrest, encode, utf8_append, hbreak, List.append_assoc, List.singleton_append]
  -- cut within the header, or after it
  rcases List.append_eq_append_iff.mp hsplit with ⟨left, hheader, -⟩ | ⟨after, rfl, hafter⟩
  · refine decode_no_line fun hmem => hline ?_
    rw [hheader]
    exact List.mem_append_left left hmem
  · cases after with
    | nil =>
      rw [List.append_nil]
      exact decode_no_line hline
    -- the header is whole, and says more bytes than follow
    | cons byte after =>
      obtain ⟨rfl, htail⟩ := List.cons.inj hafter
      have hbytes : h.bytes = after ++ rest := htail
      have hshort : after.length ≠ h.bytes.length := by
        intro heq
        have hnil : rest = [] := by
          rw [hbytes, List.length_append] at heq
          exact List.length_eq_zero_iff.mp (by omega)
        rw [hnil, List.append_nil] at hrest
        exact hne hrest
      have hraw : utf8 ([' '].intercalate h.header) ++ 10 :: after =
          utf8 ([' '].intercalate h.header ++ ['\n']) ++ after := by
        rw [utf8_append, hbreak, List.append_assoc, List.singleton_append]
      rw [hraw, decode_header htransport hsender, ofWords_header_of_ne hshort]

/-- **A whole file reads back, and no other does**: not one cut short anywhere, nor one with
anything after it. -/
theorem decode_encode_whole :
    decode h.encode = some h ∧ (∀ raw, raw <+: h.encode → raw ≠ h.encode → decode raw = none) ∧
      ∀ extra, extra ≠ [] → decode (h.encode ++ extra) = none := by
  refine ⟨decode_encode htransport hsender, fun raw => decode_cut htransport hsender,
    fun extra hextra => ?_⟩
  -- the header holds, and says fewer bytes than there are
  rw [encode, List.append_assoc, decode_header htransport hsender, ofWords_header_of_ne]
  have hpos := List.length_pos_iff.mpr hextra
  rw [List.length_append]
  omega

end

/-- A payload that imitates a header and a file of its own. -/
theorem decode_encode_whole_nested :
    decode (encode ⟨['t'], .json, 1, ['n'], encode ⟨['t'], .json, 1, ['n'], [10]⟩⟩) =
        some ⟨['t'], .json, 1, ['n'], encode ⟨['t'], .json, 1, ['n'], [10]⟩⟩ ∧
      (∀ raw, raw <+: encode ⟨['t'], .json, 1, ['n'], encode ⟨['t'], .json, 1, ['n'], [10]⟩⟩ →
        raw ≠ encode ⟨['t'], .json, 1, ['n'], encode ⟨['t'], .json, 1, ['n'], [10]⟩⟩ →
        decode raw = none) ∧
      ∀ extra, extra ≠ [] →
        decode (encode ⟨['t'], .json, 1, ['n'], encode ⟨['t'], .json, 1, ['n'], [10]⟩⟩ ++ extra) =
          none :=
  decode_encode_whole (h := ⟨['t'], .json, 1, ['n'], encode ⟨['t'], .json, 1, ['n'], [10]⟩⟩)
    ⟨by decide, by decide⟩ ⟨by decide, by decide⟩

/-- The words before the sender's say the round, whatever follows them. -/
theorem round_of_ofWords {h h' : Handoff} {words : List Text} {bytes : List UInt8}
    (hwords : ofWords (magic :: h.transport :: h.contract.name :: decimal h.round :: words) bytes =
      some h') :
    h'.round = h.round := by
  -- a header of too few words decodes to nothing
  rcases words with _ | ⟨sender, _ | ⟨length, words⟩⟩
  · cases hwords
  · cases hwords
  · simp only [ofWords, ne_eq, not_true_eq_false, ↓reduceIte, Contract.find_name, parseNat_decimal,
      Option.bind_eq_bind, Option.bind_some, Option.bind_eq_some_iff] at hwords
    obtain ⟨n, -, hread⟩ := hwords
    split_ifs at hread
    rw [← Option.some.inj hread]

/-- **What a file reads back as is of its own round**, whatever its sender's name. -/
theorem round_of_decode {h h' : Handoff} (htransport : Word h.transport)
    (hdecode : decode h.encode = some h') :
    h'.round = h.round := by
  -- The header ends at the first line break, which may stand in the sender's name.
  have hline : ∃ line more, '\n' ∉ line ∧ h.sender ++ ' ' :: (decimal h.bytes.length ++ ['\n']) =
    line ++ '\n' :: more := by
    have hmem : '\n' ∈ h.sender ++ ' ' :: (decimal h.bytes.length ++ ['\n']) := by simp
    obtain ⟨line, more, heq, hnot⟩ := List.eq_append_cons_of_mem hmem
    exact ⟨line, more, hnot, heq⟩
  obtain ⟨line, more, hnot, hline⟩ := hline
  have hencode : h.encode = utf8 ((magic ++ ' ' :: (h.transport ++ ' ' :: (h.contract.name ++ ' ' ::
      (decimal h.round ++ ' ' :: line)))) ++ ['\n']) ++ (utf8 more ++ h.bytes) := by
    have hheader : [' '].intercalate h.header ++ ['\n'] = magic ++ ' ' :: (h.transport ++ ' ' ::
        (h.contract.name ++ ' ' :: (decimal h.round ++ ' ' ::
          (h.sender ++ ' ' :: (decimal h.bytes.length ++ ['\n']))))) := by
      simp [header, List.intercalate]
    rw [encode, hheader, hline]
    simp [utf8]
  have hplain : ' ' ∉ magic ∧ '\n' ∉ magic := by decide
  have hbreak : '\n' ∉ magic ++ ' ' :: (h.transport ++ ' ' :: (h.contract.name ++ ' ' ::
      (decimal h.round ++ ' ' :: line))) := by
    simp [hplain.2, htransport.2, (word_contract h.contract).2, (word_decimal h.round).2, hnot]
  rw [hencode, decode_line hbreak, List.splitOn_append_cons_self_of_not_mem hplain.1,
    List.splitOn_append_cons_self_of_not_mem htransport.1,
    List.splitOn_append_cons_self_of_not_mem (word_contract h.contract).1,
    List.splitOn_append_cons_self_of_not_mem (word_decimal h.round).1] at hdecode
  exact round_of_ofWords hdecode

/-! ### The file's name -/

/-- A piece of a file name that can be a count: ten digits or more. -/
def LongNumber (piece : Text) : Prop := 10 ≤ piece.length ∧ ∀ c ∈ piece, c.isDigit

/-- A name no piece of which, between hyphens, can be taken for a count. -/
def Token (name : Text) : Prop := Word name ∧ ∀ piece ∈ name.splitOn '-', ¬LongNumber piece

/-- A word of short pieces is a token. -/
theorem token_of_short {name : Text} (hword : Word name)
    (hshort : ∀ piece ∈ name.splitOn '-', piece.length < 10) :
    Token name := by
  refine ⟨hword, fun piece hpiece hlong => ?_⟩
  exact absurd hlong.1 (Nat.not_le_of_lt (hshort piece hpiece))

private theorem longNumber_padded (n : Nat) : LongNumber (padded 10 n) :=
  ⟨le_length_padded 10 n, fun _ => padded_isDigit⟩

private theorem hyphen_not_mem_padded (n : Nat) : '-' ∉ padded 10 n :=
  fun h => absurd (padded_isDigit h) (by decide)

private theorem contract_piece (c : Contract) :
    ∀ piece ∈ c.name.splitOn '-', ¬LongNumber piece := by
  have hshort : ∀ c ∈ contracts, ∀ piece ∈ c.name.splitOn '-',
      ¬(10 ≤ piece.length ∧ piece.all Char.isDigit) := by decide
  intro piece hpiece hlong
  exact hshort c (Contract.mem_contracts c) piece hpiece ⟨hlong.1, List.all_eq_true.mpr hlong.2⟩

/-- The pieces of a file's name: the round, the sender's, the count, the transport's and the
contract's. -/
theorem pieces_fileName (h : Handoff) (sequence : Nat) :
    (h.fileName sequence).splitOn '-' =
      padded 10 h.round :: (h.sender.splitOn '-' ++ padded 10 sequence ::
        (h.transport.splitOn '-' ++ h.contract.name.splitOn '-')) := by
  have hround := hyphen_not_mem_padded h.round
  have hcount := hyphen_not_mem_padded sequence
  simp only [fileName, List.append_assoc, List.cons_append]
  rw [List.splitOn_append_cons_self_of_not_mem hround, List.splitOn_append_cons_self,
    List.splitOn_append_cons_self_of_not_mem hcount, List.splitOn_append_cons_self]

/-- **A file's name says the round, the sender, the sender's count, the transport and the
contract**, where the transports' names are tokens. -/
theorem fileName_injective {h h' : Handoff} {sequence sequence' : Nat}
    (htoken : Token h.transport) (htoken' : Token h'.transport)
    (heq : h.fileName sequence = h'.fileName sequence') :
    h.round = h'.round ∧ h.sender = h'.sender ∧ sequence = sequence' ∧
      h.transport = h'.transport ∧ h.contract = h'.contract := by
  have hpieces := congrArg (List.splitOn '-') heq
  rw [pieces_fileName, pieces_fileName, List.cons.injEq] at hpieces
  obtain ⟨hround, hrest⟩ := hpieces
  have hlast : ∀ (h : Handoff), Token h.transport →
      ∀ piece ∈ h.transport.splitOn '-' ++ h.contract.name.splitOn '-', ¬LongNumber piece := by
    intro h htok piece hpiece
    rcases List.mem_append.mp hpiece with hp | hp
    · exact htok.2 piece hp
    · exact contract_piece _ piece hp
  -- The count is the last piece that is a long number.
  obtain ⟨hsender, hcount, hafter⟩ := piece_unique (longNumber_padded _) (longNumber_padded _)
    (hlast h htoken) (hlast h' htoken') hrest
  have hcontract : h.contract = h'.contract := by
    have hsuffix : h.contract.name.splitOn '-' <:+
        h'.transport.splitOn '-' ++ h'.contract.name.splitOn '-' := by
      rw [← hafter]
      exact List.suffix_append _ _
    rcases List.suffix_or_suffix_of_suffix hsuffix (List.suffix_append _ _) with hs | hs
    · exact Contract.pieces_suffix _ _ hs
    · exact (Contract.pieces_suffix _ _ hs).symm
  rw [hcontract] at hafter
  exact ⟨padded_injective hround, splitOn_injective hsender, padded_injective hcount,
    splitOn_injective (List.append_cancel_right hafter), hcontract⟩

/-- A file's name is not empty. -/
theorem fileName_ne_nil (h : Handoff) (sequence : Nat) : h.fileName sequence ≠ [] := by
  intro heq
  have hpieces := pieces_fileName h sequence
  rw [heq, List.splitOn_nil] at hpieces
  have hlen := congrArg List.length hpieces
  simp at hlen

theorem extension_ready (h : Handoff) (sequence : Nat) :
    extension (h.fileName sequence ++ '.' :: ready) = some ready :=
  extension_append (fileName_ne_nil h sequence) (by decide)

theorem extension_writing (h : Handoff) (sequence : Nat) :
    extension (h.fileName sequence ++ '.' :: writing) = some writing :=
  extension_append (fileName_ne_nil h sequence) (by decide)

end Handoff

end XmipEssentials
