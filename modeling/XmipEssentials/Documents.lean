import XmipEssentials.Loads

/-!
# What a large payload says of itself

Whatever its size, a large payload is at least as large as asked and its padding keeps the
document's own structure (`large_payload_sound`): an interchange's closing segment says how many
segments there are from the one that opens the set or message to it (`CountKept`), lines, segments,
numbers and entries are joined with one separator between each two (`Joined`), and what is wrapped
holds a unit.
-/

namespace XmipEssentials

open Text Padding

/-! ### Interchanges -/

/-- The segments from the first that opens to the first after it that closes, both of them with
it. -/
def envelope (opening closing : Text) (segments : List Text) : List Text :=
  let opened := segments.dropWhile fun segment => !opening.isPrefixOf segment
  opened.take (opened.findIdx (closing.isPrefixOf ·) + 1)

/-- The segment that closes says, as its second element, how many segments there are from the one
that opens to it. -/
def CountKept (opening closing : Text) (element : Char) (segments : List Text) : Prop :=
  ∃ last, (envelope opening closing segments).getLast? = some last ∧
    closing.isPrefixOf last = true ∧
    (last.splitOn element)[1]? = some (decimal (envelope opening closing segments).length)

section Interchange

variable {opening closing first last : Text} {before within after : List Text}

/-- A set that opens with its first segment and closes with its last is the envelope, whatever
stands around it. -/
theorem envelope_eq (hbefore : ∀ s ∈ before, opening.isPrefixOf s = false)
    (hfirst : opening.isPrefixOf first = true)
    (hwithin : ∀ s ∈ first :: within, closing.isPrefixOf s = false)
    (hlast : closing.isPrefixOf last = true) :
    envelope opening closing (before ++ (first :: within ++ last :: after)) = first :: within ++
      [last] := by
  -- All before the opening segment is dropped, as none of it opens.
  have hopened : (before ++ (first :: within ++ last :: after)).dropWhile
    (fun s => !opening.isPrefixOf s) =
      first :: within ++ last :: after := by
    rw [List.dropWhile_append_of_pos fun s hs => by rw [hbefore s hs]; rfl, List.cons_append,
      List.dropWhile_cons_of_neg]
    rw [hfirst]
    decide
  -- The first to close is the one behind those which do not.
  have hclosed : (first :: within ++ last :: after).findIdx (closing.isPrefixOf ·) =
    (first :: within).length := by
    rw [List.findIdx_append, List.findIdx_eq_length_of_false hwithin, if_neg (Nat.lt_irrefl _),
      List.findIdx_cons, hlast]
    exact Nat.zero_add _
  rw [envelope, hopened, hclosed, List.take_length_add_append]
  rfl

/-- Segments written one after another, each with the terminator behind it, are read off again. -/
theorem splitOn_row {terminator : Char} {unit : Text} (h : terminator ∉ unit) (count : Nat)
    (rest : Text) :
    ((List.replicate count (unit ++ [terminator])).flatten ++ rest).splitOn terminator =
      List.replicate count unit ++ rest.splitOn terminator := by
  induction count with
  | zero => rfl
  | succ count ih =>
    rw [List.replicate_succ, List.flatten_cons, List.replicate_succ, List.cons_append, ← ih,
      List.append_assoc, List.append_assoc]
    exact List.splitOn_append_cons_self_of_not_mem h _

/-- A segment of three elements, the second of them a number. -/
def numbered (name : Text) (element : Char) (n : Nat) (rest : Text) : Text :=
  name ++ element :: (decimal n ++ element :: rest)

private theorem not_mem_numbered {c element : Char} {name rest : Text} {n : Nat} (hname : c ∉ name)
    (helement : c ≠ element) (hdigit : c.isDigit = false) (hrest : c ∉ rest) :
    c ∉ numbered name element n rest := by
  intro h
  -- Of the name, of the number, or of what follows: a number holds digits only.
  rcases List.mem_append.mp h with h | h
  · exact hname h
  · rcases List.mem_append.mp ((List.mem_cons.mp h).resolve_left helement) with h | h
    · exact Bool.false_ne_true (hdigit.symm.trans (decimal_isDigit h))
    · exact hrest ((List.mem_cons.mp h).resolve_left helement)

/-- The second element is read off. -/
theorem splitOn_numbered {element : Char} {name rest : Text} {n : Nat} (hname : element ∉ name)
    (hdigit : element.isDigit = false) : ((numbered name element n rest).splitOn element)[1]? =
      some (decimal n) := by
  have hdecimal : element ∉ decimal n :=
    fun h => Bool.false_ne_true (hdigit.symm.trans (decimal_isDigit h))
  rw [numbered, List.splitOn_append_cons_self_of_not_mem hname,
    List.splitOn_append_cons_self_of_not_mem hdecimal]
  rfl

end Interchange

/-- Whether of some segments the one at a place is the first to open, so many are left from it on,
and none of those closes. -/
def opensAt (opening closing : Text) (place left : Nat) (segments : List Text) : Bool :=
  (segments.take place).all (fun s => !opening.isPrefixOf s) &&
    (segments.drop place).head?.any (opening.isPrefixOf ·) &&
    (segments.drop place).all (fun s => !closing.isPrefixOf s) &&
      (segments.drop place).length == left

private theorem of_opensAt {opening closing : Text} {place left : Nat} {segments : List Text}
    (h : opensAt opening closing place left segments = true) :
    ∃ before first within, segments = before ++ first :: within ∧ within.length + 1 = left ∧
      (∀ s ∈ before, opening.isPrefixOf s = false) ∧ opening.isPrefixOf first = true ∧
      ∀ s ∈ first :: within, closing.isPrefixOf s = false := by
  unfold opensAt at h
  rw [Bool.and_eq_true, Bool.and_eq_true, Bool.and_eq_true, List.all_eq_true, List.all_eq_true,
    beq_iff_eq] at h
  obtain ⟨⟨⟨hbefore, hfirst⟩, hwithin⟩, hleft⟩ := h
  cases hdrop : segments.drop place with
  | nil =>
    rw [hdrop] at hfirst
    exact absurd hfirst Bool.false_ne_true
  | cons first within =>
    rw [hdrop] at hfirst hwithin hleft
    refine ⟨segments.take place, first, within, ?_, hleft, fun s hs => ?_, hfirst, fun s hs => ?_⟩
    · rw [← hdrop, List.take_append_drop]
    · exact Bool.not_eq_true' _ ▸ hbefore s hs
    · exact Bool.not_eq_true' _ ▸ hwithin s hs

/-- **A count is kept** by a shape whose head opens with as many segments as it starts to count at,
that is padded with segments which neither open nor close, and whose tail says one more than there
were. -/
theorem countKept_of_shape {s : Shape Char} {opening name unit rest tail : Text}
    {terminator element : Char} {place : Nat} (hlast : s.head.getLast? = some terminator)
    (hopens : opensAt opening (name ++ [element]) place s.first
      (s.head.dropLast.splitOn terminator) = true)
    (hunits : ∀ n, s.units.unit n = unit ++ [terminator])
    (htail : ∀ n, s.tail n = numbered name element (n + 1) rest ++ terminator :: tail)
    (hpad : (name ++ [element]).isPrefixOf unit = false) (hunit : terminator ∉ unit)
      (hname : terminator ∉ name)
    (hrest : terminator ∉ rest) (helement : element ∉ name) (hne : terminator ≠ element)
    (hdigit : terminator.isDigit = false ∧ element.isDigit = false) (target : Nat) :
    CountKept opening (name ++ [element]) element ((s.fill target).splitOn terminator) := by
  obtain ⟨count, -, hfill⟩ := s.exists_fill target
  obtain ⟨before, first, within, hfront, hlength, hbefore, hfirst, hwithin⟩ := of_opensAt hopens
  -- The closing segment is one piece: the terminator stands in none of its elements.
  have hmem : terminator ∉ numbered name element (s.first + count + 1) rest :=
    not_mem_numbered hname hne hdigit.1 hrest
  have hcloses : (name ++ [element]).isPrefixOf (numbered name element (s.first + count + 1) rest) =
    true := by
    rw [List.isPrefixOf_iff_prefix, numbered]
    exact ⟨decimal (s.first + count + 1) ++ element :: rest, by rw [List.append_assoc]; rfl⟩
  -- Neither the head's own segments nor the padding close the set early.
  have hopen : ∀ other ∈ first :: (within ++ List.replicate count unit),
      (name ++ [element]).isPrefixOf other = false := by
    rw [← List.cons_append]
    intro other hother
    rcases List.mem_append.mp hother with hother | hother
    · exact hwithin other hother
    · rw [List.eq_of_mem_replicate hother]
      exact hpad
  have hhead : s.head.dropLast ++ [terminator] = s.head :=
    List.dropLast_append_getLast? terminator hlast
  -- Split at the terminators: what stands before the set, the set with its padding, and its closing
  -- segment.
  have hsegments : (s.fill target).splitOn terminator =
      before ++ (first :: (within ++ List.replicate count unit) ++
        numbered name element (s.first + count + 1) rest :: tail.splitOn terminator) := by
    rw [hfill, Shape.document, Units.row_const hunits, htail, ← hhead, List.append_assoc,
      List.append_assoc, List.singleton_append, List.splitOn_append_cons_self, hfront,
      splitOn_row hunit, List.splitOn_append_cons_self_of_not_mem hmem]
    simp only [List.append_assoc, List.cons_append]
  rw [hsegments]
  unfold CountKept
  rw [envelope_eq hbefore hfirst hopen hcloses]
  refine ⟨_, List.getLast?_concat, hcloses, ?_⟩
  -- As many as the head had, as many as padded it, and the closing segment itself.
  rw [splitOn_numbered helement hdigit.2]
  congr 2
  simp only [List.length_append, List.length_cons, List.length_replicate, List.length_nil]
  omega

private theorem probeText_utf8 (t : Text) : probeText (utf8 t) = t := by
  rw [probeText, fromUtf8_utf8]
  rfl

/-- The probe up to its SE: the set is opened by its third segment, and two follow. -/
theorem head_x12 : largeX12.head.getLast? = some '~' ∧
    opensAt "ST*".toList ("SE".toList ++ ['*']) 2 3 (largeX12.head.dropLast.splitOn '~') =
      true := by
  unfold largeX12 probeHalves x12Probe
  -- The probe is read as text again first, so that only characters are compared.
  rw [probeText_utf8, String.toList_append, String.toList_append, String.toList_append]
  decide +kernel

private theorem head_edifact : largeEdifact.head.getLast? = some '\'' ∧
    opensAt "UNH+".toList ("UNT".toList ++ ['+']) 2 2 (largeEdifact.head.dropLast.splitOn '\'') =
      true := by
  decide +kernel

/-- The SE of a padded 850 counts its segments. -/
theorem countKept_x12 (target : Nat) :
    CountKept "ST*".toList "SE*".toList '*' ((largeX12.fill target).splitOn '~') := by
  have hunits : ∀ n, largeX12.units.unit n = "MSG*heavy".toList ++ ['~'] := fun _ => rfl
  have htail : ∀ n, largeX12.tail n = numbered "SE".toList '*' (n + 1) "0001".toList ++
      '~' :: "GE*1*1~IEA*1*000000001~".toList := by
    intro n
    change "SE*".toList ++ decimal (n + 1) ++
      ('*' :: ("0001".toList ++ '~' :: "GE*1*1~IEA*1*000000001~".toList)) = _
    simp only [numbered, List.append_assoc, List.cons_append]
    rfl
  have hclosing : "SE*".toList = "SE".toList ++ ['*'] := by decide
  rw [hclosing]
  exact countKept_of_shape head_x12.1 head_x12.2 hunits htail (by decide) (by decide) (by decide)
    (by decide) (by decide) (by decide) (by decide) target

/-- The UNT of a padded message counts its segments. -/
theorem countKept_edifact (target : Nat) :
    CountKept "UNH+".toList "UNT+".toList '+' ((largeEdifact.fill target).splitOn '\'') := by
  have hunits : ∀ n, largeEdifact.units.unit n = "FTX+AAI+++heavy".toList ++ ['\''] := fun _ => rfl
  have htail : ∀ n, largeEdifact.tail n = numbered "UNT".toList '+' (n + 1) "1".toList ++
      '\'' :: "UNZ+1+REF001'".toList := by
    intro n
    change "UNT+".toList ++ decimal (n + 1) ++
      ('+' :: ("1".toList ++ '\'' :: "UNZ+1+REF001'".toList)) = _
    simp only [numbered, List.append_assoc, List.cons_append]
    rfl
  have hclosing : "UNT+".toList = "UNT".toList ++ ['+'] := by decide
  rw [hclosing]
  exact countKept_of_shape head_edifact.1 head_edifact.2 hunits htail (by decide) (by decide)
    (by decide) (by decide) (by decide) (by decide) (by decide) target

/-! ### Lines, segments, numbers and entries -/

section Joins

variable {s : Shape Char} {sep intro lead closing : Text} {pieces : List Text} {piece : Nat → Text}

/-- A shape whose units each have the separator before them, after a body that is pieces already
joined. -/
theorem joined_of_shape (hhead : s.head = intro ++ lead) (htail : ∀ n, s.tail n = closing)
    (hunits : ∀ n, s.units.unit n = sep ++ piece n) (hlead : Joined sep pieces lead)
    (hne : pieces ≠ [])
    (hpiece : ∀ n, piece n ≠ [] ∧ ∀ c ∈ sep, c ∉ piece n) (target : Nat) :
    ∃ count t, s.fill target = intro ++ t ++ closing ∧
      Joined sep (pieces ++ (List.range' s.first count).map piece) t := by
  obtain ⟨count, -, hfill⟩ := s.exists_fill target
  have hrow : s.units.row s.first count = (List.range' s.first count).flatMap fun n =>
    sep ++ piece n :=
    List.flatMap_congr fun n _ => hunits n
  refine ⟨count, lead ++ s.units.row s.first count, ?_, ?_⟩
  · rw [hfill, Shape.document, htail, hhead, List.append_assoc intro]
  · rw [hrow]
    exact hlead.row hne hpiece s.first count

/-- The lines of a payload, CRLF between each two. -/
theorem joined_linesTo {line unit : Text} (hline : line ≠ [] ∧ ∀ c ∈ "\r\n".toList, c ∉ line)
    (hunit : unit ≠ [] ∧ ∀ c ∈ "\r\n".toList, c ∉ unit) (target : Nat) :
    ∃ count, Joined "\r\n".toList (line :: List.replicate count unit)
    ((linesTo line unit).fill target) := by
  have hlead : Joined "\r\n".toList [line] line := Joined.singleton hline
  obtain ⟨count, t, hfill, hjoined⟩ :=
    joined_of_shape (s := linesTo line unit) (List.nil_append line).symm
    (fun _ => rfl) (fun _ => rfl) hlead (List.cons_ne_nil _ _) (fun _ => hunit) target
  rw [List.map_const', List.length_range'] at hjoined
  rw [List.nil_append, List.append_nil] at hfill
  exact ⟨count, hfill ▸ hjoined⟩

/-- Entries of an object, a comma between each two. -/
theorem joined_entries {entry : Nat → Text} (h : ∀ n, entry n ≠ []) (hplain : ∀ n, ',' ∉ entry n)
    (count : Nat) :
    Joined [','] ((List.range count).map entry) ((entries entry h).row 0 count) := by
  have hentry : ∀ n, entry n ≠ [] ∧ ∀ c ∈ [','], c ∉ entry n := fun n =>
    ⟨h n, List.forall_mem_singleton.mpr (hplain n)⟩
  cases count with
  | zero => exact Joined.nil [',']
  | succ count =>
    -- From the second on each entry has the comma before it.
    have hrest : (entries entry h).row 1 count = (List.range' 1 count).flatMap fun n =>
      [','] ++ entry n := by
      apply List.flatMap_congr
      intro n hn
      change (if 0 < n then [','] else []) ++ entry n = _
      have hpos : 0 < n := (List.mem_range'_1.mp hn).1
      rw [if_pos hpos]
    rw [Units.row_succ, hrest, List.range_eq_range', List.range'_succ]
    exact (Joined.singleton (hentry 0)).row (List.cons_ne_nil _ _) hentry 1 count

end Joins

/-- A decimal holds nothing but digits. -/
theorem not_mem_decimal {c : Char} (h : c.isDigit = false) (n : Nat) : c ∉ decimal n := fun hmem =>
  Bool.false_ne_true (h.symm.trans (decimal_isDigit hmem))

private theorem comma_not_mem_path (n : Nat) : ',' ∉ openApiPath n := by
  unfold openApiPath
  rw [List.mem_append, List.mem_append, not_or, not_or]
  exact ⟨⟨by decide, not_mem_decimal (by decide) n⟩, by decide⟩

private theorem comma_not_mem_channel (n : Nat) : ',' ∉ asyncApiChannel n := by
  unfold asyncApiChannel
  rw [List.mem_append, List.mem_append, not_or, not_or]
  exact ⟨⟨by decide, not_mem_decimal (by decide) n⟩, by decide⟩

/-- A text to join with others: it is not empty, and holds none of what separates them. -/
theorem plain_of_all {sep piece : Text}
    (h : (!piece.isEmpty && sep.all fun c => !piece.contains c) = true) :
    piece ≠ [] ∧ ∀ c ∈ sep, c ∉ piece := by
  rw [Bool.and_eq_true, List.all_eq_true] at h
  constructor
  · intro hnil
    rw [hnil] at h
    exact Bool.false_ne_true h.1
  · intro c hc hmem
    have hfree := h.2 c hc
    rw [List.contains_iff_mem.mpr hmem] at hfree
    exact Bool.false_ne_true hfree

/-- The segments of a padded admission, a CR between each two. -/
theorem joined_largeHl7 (target : Nat) : ∃ count,
    Joined ['\r'] (largeHl7.head.splitOn '\r' ++ List.replicate count "NTE|1||heavy".toList)
    (largeHl7.fill target) := by
  have hall : ((largeHl7.head.splitOn '\r').all fun segment =>
      !segment.isEmpty && ['\r'].all fun c => !segment.contains c) = true := by
    unfold largeHl7 hl7Probe
    dsimp only
    rw [probeText_utf8]
    decide +kernel
  -- The probe's own segments are what its text splits into, so they join to it again.
  have hsegments : ∀ segment ∈ largeHl7.head.splitOn '\r', segment ≠ [] ∧
    ∀ c ∈ ['\r'], c ∉ segment :=
    fun segment hsegment => plain_of_all (List.all_eq_true.mp hall segment hsegment)
  have hlead : Joined ['\r'] (largeHl7.head.splitOn '\r') largeHl7.head :=
    ⟨(List.intercalate_splitOn '\r').symm, hsegments⟩
  have hnote : "NTE|1||heavy".toList ≠ [] ∧ ∀ c ∈ ['\r'], c ∉ "NTE|1||heavy".toList :=
    plain_of_all (by decide)
  obtain ⟨count, t, hfill, hjoined⟩ :=
    joined_of_shape (List.nil_append largeHl7.head).symm (fun _ => rfl)
    (fun _ => rfl) hlead (List.splitOn_ne_nil _ _) (fun _ => hnote) target
  rw [List.map_const', List.length_range'] at hjoined
  rw [List.nil_append, List.append_nil] at hfill
  exact ⟨count, hfill ▸ hjoined⟩

/-- The numbers of a padded list, a comma between each two. -/
theorem joined_largeJson (target : Nat) : ∃ count list,
    largeJson.fill target = "\x7b\"probe\":\"heavy\",\"n\":[".toList ++ list ++ "]\x7d".toList ∧
      Joined [','] ((List.range (count + 1)).map decimal) list := by
  have hnumber : ∀ n, decimal n ≠ [] ∧ ∀ c ∈ [','], c ∉ decimal n := fun n =>
    ⟨decimal_ne_nil n, List.forall_mem_singleton.mpr (not_mem_decimal (by decide) n)⟩
  have hhead : largeJson.head = "\x7b\"probe\":\"heavy\",\"n\":[".toList ++ decimal 0 := by decide
  obtain ⟨count, list, hfill, hjoined⟩ := joined_of_shape hhead (fun _ => rfl) (fun _ => rfl)
    (Joined.singleton (hnumber 0)) (List.cons_ne_nil _ _) hnumber target
  refine ⟨count, list, hfill, ?_⟩
  rw [List.range_eq_range', List.range'_succ]
  exact hjoined

/-- The entries of a padded description, a comma between each two. -/
theorem joined_of_entries {s : Shape Char} {entry : Nat → Text} {closing : Text}
    (h : ∀ n, entry n ≠ []) (hunits : s.units = entries entry h) (hfirst : s.first = 0)
    (htail : ∀ n, s.tail n = closing) (hplain : ∀ n, ',' ∉ entry n) (target : Nat) :
    ∃ count row, s.fill target = s.head ++ row ++ closing ∧
    Joined [','] ((List.range count).map entry) row := by
  obtain ⟨count, -, hfill⟩ := s.exists_fill target
  refine ⟨count, s.units.row s.first count, ?_, ?_⟩
  · rw [hfill, Shape.document, htail]
  · rw [hunits, hfirst]
    exact joined_entries h hplain count

/-! ### Wrapped units and encoded records -/

/-- What is wrapped holds a unit, and whole ones only. -/
theorem exists_wrapped {opening unit closing : Text} (h : unit ≠ []) (target : Nat) :
    ∃ count, 0 < count ∧
      (wrapTo opening unit closing h).fill target = opening ++
        (List.replicate count unit).flatten ++ closing := by
  obtain ⟨count, -, hfill⟩ := (wrapTo opening unit closing h).exists_fill target
  refine ⟨count + 1, Nat.succ_pos count, ?_⟩
  rw [hfill, Shape.document, Units.row_const fun _ => rfl, List.replicate_succ, List.flatten_cons]
  -- The head has one unit already, so there is one even where the size asks for none.
  change opening ++ unit ++ _ ++ closing = _
  rw [List.append_assoc opening]

private theorem le_byteLen_append (a b : Text) : byteLen b ≤ byteLen (a ++ b) := by
  rw [byteLen_append]
  exact Nat.le_add_left _ _

/-- A text padded in a shape is as large as asked, if its tail is no smaller than what was counted
in. -/
theorem le_byteLen_fill {s : Shape Char} (hsize : s.units.size = byteLen)
    (htail : ∀ n, s.seen ≤ byteLen (s.tail n)) (target : Nat) :
    target ≤ (utf8 (s.fill target)).length := by
  have hlarge := s.le_size_fill (fun n => hsize ▸ htail n) target
  rwa [hsize] at hlarge

/-- Each contract's text is as large as asked. -/
theorem le_byteLen_shape {contract : Contract} {s : Shape Char} (h : contract.shape = some s)
    (target : Nat) :
    target ≤ (utf8 (s.fill target)).length := by
  cases contract with
  | bytes | avro | protobuf => exact absurd h (Option.some_ne_none s).symm
  -- The description counts in less than its tail, the wrapped ones their tail, the others nothing.
  | wsdl =>
    rw [← Option.some.inj h]
    exact le_byteLen_fill rfl (fun _ => le_byteLen_append _ _) target
  | xml | html | schematron | fhir | graphqlSchema | sql =>
    rw [← Option.some.inj h]
    exact le_byteLen_fill rfl (fun _ => Nat.le_refl _) target
  | _ =>
    rw [← Option.some.inj h]
    exact le_byteLen_fill rfl (fun _ => Nat.zero_le _) target

private theorem le_length_flatten {size : Nat} {l : List (List UInt8)}
    (h : ∀ bytes ∈ l, size ≤ bytes.length) :
    size * l.length ≤ l.flatten.length := by
  induction l with
  | nil => exact Nat.le_refl _
  | cons bytes l ih =>
    obtain ⟨hfirst, hrest⟩ := List.forall_mem_cons.mp h
    have hmore := ih hrest
    rw [List.length_cons, List.flatten_cons, List.length_append, Nat.mul_succ]
    omega

namespace Codecs.Standard

variable {c : Codecs}

/-- A record is a number and a text of twelve bytes, and its length. -/
theorem le_length_avroContainer (h : c.Standard) (target : Nat) :
    target ≤ (c.avroContainer (target / 12 + 1) "heavy record".toList).length := by
  obtain ⟨header, trailer, hcontainer⟩ := h.container AVRO_SCHEMA
    ((List.range (target / 12 + 1)).map fun n : Nat => c.encodeLong (n : Int) ++
      c.encodeString "heavy record".toList)
  have htext : (utf8 "heavy record".toList).length = 12 := by decide
  -- The text alone makes every record twelve bytes, its number and length not counted.
  have hrecords : 12 * ((List.range (target / 12 + 1)).map fun n : Nat =>
      c.encodeLong (n : Int) ++ c.encodeString "heavy record".toList).length ≤ _ :=
        le_length_flatten fun bytes hbytes => by
    obtain ⟨n, -, rfl⟩ := List.mem_map.mp hbytes
    rw [List.length_append, h.string, List.length_append, htext]
    omega
  rw [List.length_map, List.length_range] at hrecords
  rw [avroContainer, hcontainer, List.length_append, List.length_append]
  omega

/-- An entry is a text of ten bytes, its tag and its length. -/
theorem le_length_protobufMessage (h : c.Standard) (target : Nat) :
    target ≤ (c.protobufMessage (target / 12 + 1) "heavy rec.".toList).length := by
  have htext : (utf8 "heavy rec.".toList).length = 10 := by decide
  have htag := List.length_pos_iff.mpr (h.tag 3 2)
  have hvarint := List.length_pos_iff.mpr (h.varint (utf8 "heavy rec.".toList).length)
  -- Ten of text, and the tag and the length take a byte each at the least.
  have hentries :
    12 *
      (List.replicate (target / 12 + 1) (c.encodeDelimited 3 (utf8 "heavy rec.".toList))).length ≤
        _ :=
    le_length_flatten fun bytes hbytes => by
      rw [List.eq_of_mem_replicate hbytes, h.delimited, List.length_append, List.length_append]
      omega
  rw [List.length_replicate] at hentries
  rw [protobufMessage, List.length_append]
  omega

end Codecs.Standard

/-- **A large payload is at least as large as asked.** -/
theorem le_length_largePayload {c : Codecs} (h : c.Standard) (contract : Contract) (target : Nat) :
    target ≤ (largePayload c.encoders contract target).length := by
  unfold largePayload
  cases hshape : contract.shape with
  | some s => exact le_byteLen_shape hshape target
  | none =>
    cases contract with
    | avro => exact h.le_length_avroContainer target
    | protobuf => exact h.le_length_protobufMessage target
    | bytes => exact (length_filler target).ge
    | _ => cases hshape

private theorem largePayload_of_shape {contract : Contract} {s : Shape Char}
    (h : contract.shape = some s) (enc : Encoders) (target : Nat) :
    largePayload enc contract target = utf8 (s.fill target) := by
  unfold largePayload
  rw [h]

/-! ### Every contract's -/

/-- A contract's payload is one unit or more, whole, between an opening and a closing. -/
def Wraps (enc : Encoders) (target : Nat) (contract : Contract) (opening unit closing : Text) :
    Prop :=
  ∃ count, 0 < count ∧ largePayload enc contract target =
    utf8 (opening ++ (List.replicate count unit).flatten ++ closing)

private theorem wraps_of_shape {contract : Contract} {opening unit closing : Text} {h : unit ≠ []}
    (hshape : contract.shape = some (wrapTo opening unit closing h)) (enc : Encoders)
    (target : Nat) : Wraps enc target contract opening unit closing := by
  obtain ⟨count, hpos, hfill⟩ := exists_wrapped h target
  exact ⟨count, hpos, by rw [largePayload_of_shape hshape, hfill]⟩

/-- What holds of the large payloads asked for at a size. -/
structure Consistent (enc : Encoders) (target : Nat) : Prop where
  /-- They are at least so large. -/
  large : ∀ contract, target ≤ (largePayload enc contract target).length
  /-- The SE of the 850 counts the segments from ST to itself, the UNT of the message those from
  UNH. -/
  x12 : ∃ t, largePayload enc .x12 target = utf8 t ∧
    CountKept "ST*".toList "SE*".toList '*' (t.splitOn '~')
  edifact : ∃ t, largePayload enc .edifact target = utf8 t ∧
    CountKept "UNH+".toList "UNT+".toList '+' (t.splitOn '\'')
  /-- The segments of the admission are joined by a CR, the lines of both tables by a CRLF. -/
  hl7v2 : ∃ count t, largePayload enc .hl7v2 target = utf8 t ∧
    Joined ['\r'] (largeHl7.head.splitOn '\r' ++ List.replicate count "NTE|1||heavy".toList) t
  csv : ∃ count t, largePayload enc .csv target = utf8 t ∧
    Joined "\r\n".toList
      ("id,customer,total".toList :: List.replicate count "A1,\"ACME, Inc\",15.00".toList) t
  fixedWidth : ∃ count t, largePayload enc .fixedWidth target = utf8 t ∧
    Joined "\r\n".toList
      ("A00001ACME      02".toList :: List.replicate count "A00002BOLT      01".toList) t
  /-- The numbers of the list and the entries of both descriptions are joined by a comma. -/
  json : ∃ count list, largePayload enc .json target =
      utf8 ("\x7b\"probe\":\"heavy\",\"n\":[".toList ++ list ++ "]\x7d".toList) ∧
    Joined [','] ((List.range (count + 1)).map decimal) list
  openApi : ∃ count paths, largePayload enc .openApi target =
      utf8 (largeOpenApi.head ++ paths ++ "\x7d\x7d".toList) ∧
    Joined [','] ((List.range count).map openApiPath) paths
  asyncApi : ∃ count channels, largePayload enc .asyncApi target =
      utf8 (largeAsyncApi.head ++ channels ++ "\x7d\x7d".toList) ∧
    Joined [','] ((List.range count).map asyncApiChannel) channels
  /-- The documents and messages that wrap units hold one or more, whole. -/
  xml : Wraps enc target .xml "<probe>".toList "<i>x</i>".toList "</probe>".toList
  html : Wraps enc target .html "<!doctype html><title>xmip</title>".toList "<p>heavy</p>".toList []
  schematron : Wraps enc target .schematron "<probe xmlns=\"urn:xmip:probe\">".toList
    "<n>1</n>".toList "</probe>".toList
  fhir : Wraps enc target .fhir
    (("\x7b\"resourceType\":\"Bundle\",\"type\":\"collection\",\"entry\":" ++
      "[\x7b\"resource\":\x7b\"resourceType\":\"Patient\",\"id\":\"p0\"\x7d\x7d").toList)
    ",\x7b\"resource\":\x7b\"resourceType\":\"Observation\",\"id\":\"o\"\x7d\x7d".toList
    "]\x7d".toList
  graphqlSchema : Wraps enc target .graphqlSchema "query Heavy \x7b ".toList
    "probe \x7b id ping \x7d ".toList "\x7d".toList
  sql : Wraps enc target .sql "BEGIN;\n".toList
    "INSERT INTO probe (n, ping) VALUES (1, 'heavy row');\n".toList "COMMIT;\n".toList

/-- **Large payloads are large and consistent**, for every contract and every size asked. -/
theorem large_payload_sound (c : Codecs) (h : c.Standard) (target : Nat) :
    Consistent c.encoders target where
  large contract := le_length_largePayload h contract target
  x12 := ⟨_, largePayload_of_shape rfl _ target, countKept_x12 target⟩
  edifact := ⟨_, largePayload_of_shape rfl _ target, countKept_edifact target⟩
  hl7v2 := by
    obtain ⟨count, hjoined⟩ := joined_largeHl7 target
    exact ⟨count, _, largePayload_of_shape rfl _ target, hjoined⟩
  -- lines of a header and of records: no break in either
  csv := by
    have hline : "id,customer,total".toList ≠ [] ∧
      ∀ c ∈ "\r\n".toList, c ∉ "id,customer,total".toList :=
      plain_of_all (by decide)
    have hunit : "A1,\"ACME, Inc\",15.00".toList ≠ [] ∧
      ∀ c ∈ "\r\n".toList, c ∉ "A1,\"ACME, Inc\",15.00".toList :=
      plain_of_all (by decide)
    obtain ⟨count, hjoined⟩ := joined_linesTo hline hunit target
    exact ⟨count, _, largePayload_of_shape rfl _ target, hjoined⟩
  fixedWidth := by
    have hline : "A00001ACME      02".toList ≠ [] ∧
      ∀ c ∈ "\r\n".toList, c ∉ "A00001ACME      02".toList :=
      plain_of_all (by decide)
    have hunit : "A00002BOLT      01".toList ≠ [] ∧
      ∀ c ∈ "\r\n".toList, c ∉ "A00002BOLT      01".toList :=
      plain_of_all (by decide)
    obtain ⟨count, hjoined⟩ := joined_linesTo hline hunit target
    exact ⟨count, _, largePayload_of_shape rfl _ target, hjoined⟩
  json := by
    obtain ⟨count, list, hfill, hjoined⟩ := joined_largeJson target
    exact ⟨count, list, hfill ▸ largePayload_of_shape rfl _ target, hjoined⟩
  -- entries between two brackets, with no comma of their own
  openApi := by
    obtain ⟨count, paths, hfill, hjoined⟩ :=
      joined_of_entries (s := largeOpenApi) (fun _ => List.cons_ne_nil _ _) rfl
      rfl (fun _ => rfl) comma_not_mem_path target
    exact ⟨count, paths, hfill ▸ largePayload_of_shape rfl _ target, hjoined⟩
  asyncApi := by
    obtain ⟨count, channels, hfill, hjoined⟩ := joined_of_entries (s := largeAsyncApi)
      (fun _ => List.cons_ne_nil _ _) rfl rfl (fun _ => rfl) comma_not_mem_channel target
    exact ⟨count, channels, hfill ▸ largePayload_of_shape rfl _ target, hjoined⟩
  -- the other contracts wrap one piece, filled to the size
  xml := wraps_of_shape rfl _ target
  html := wraps_of_shape rfl _ target
  schematron := wraps_of_shape rfl _ target
  fhir := wraps_of_shape rfl _ target
  graphqlSchema := wraps_of_shape rfl _ target
  sql := wraps_of_shape rfl _ target

/-- A container asked for at nothing, and a payload of a thousand bytes, with the formats' own
codecs. -/
theorem large_payload_sound_plain : Codecs.plain.Standard ∧ Consistent Codecs.plain.encoders 0 ∧
    1000 ≤ (largePayload Codecs.plain.encoders .avro 1000).length :=
  ⟨Codecs.standard_plain, large_payload_sound Codecs.plain Codecs.standard_plain 0,
    (large_payload_sound Codecs.plain Codecs.standard_plain 1000).large .avro⟩

end XmipEssentials
