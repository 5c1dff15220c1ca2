import XmipEssentials.Lib.Quoting

/-!
# The SQL Server far end

The far end of a filing answers the archive's `INSERT` with a row and keeps what it carried: three
quoted texts, read one after the other (`literals`), and the bytes, which stand unquoted and are
looked for by the mark in front of them (`hexToken`). The mark may stand in a text that comes before
the bytes, and then what follows it there is kept as the bytes; apart from that the row kept is the
row sent (`keeps_row_iff`).

How the archive writes its statement (`Insert`) and how one quoted text is read (`Delimiter`) belong
to other crates: here each is what the far end relies on of it.
-/

namespace XmipEssentials

open Text Quoting

/-- What reads one quoted text at the head of another, and returns the text and what follows it. -/
structure Delimiter where
  unquotePrefix : Text → Option (Text × Text)
  shorter : ∀ {sql literal after : Text}, unquotePrefix sql = some (literal, after) →
    after.length < sql.length
  reads : ∀ literal {after : Text}, ¬['\''] <+: after →
    unquotePrefix (quoted '\'' literal ++ after) = some (literal, after)

/-- Every single-quoted literal, in order, quotes undoubled. -/
def literals (D : Delimiter) (sql : Text) : List Text :=
  let rest := sql.dropWhile (· ≠ '\'')
  if rest = [] then []
  else
    match _hread : D.unquotePrefix rest with
    | none => []
    | some (literal, after) => literal :: literals D after
termination_by sql.length
decreasing_by exact (D.shorter _hread).trans_le (List.dropWhile_sublist _).length_le

namespace MssqlCabinet

/-- The row id the far end answers an `INSERT` with. -/
def ROW_ID : Text := ['1']

/-- The columns a restore selects, in the order the archives read them. -/
def COLUMNS : List Text :=
  ["data_type".toList, "identifier".toList, "bytes".toList, "metadata".toList]

/-- The unquoted `0x…` token in a SQL Server `INSERT`: the bytes, which the single-quoted literals
around it do not carry. -/
def hexToken (sql : Text) : Option Text :=
  (splitOnce ", 0x".toList sql).map fun halves => "0x".toList ++ halves.2.takeWhile Char.isHexDigit

/-- A row of cells, where a cell may be missing. -/
abbrev Row : Type := List (Option Text)

/-- A table a statement is answered with. -/
structure Rows where
  columns : List Text
  rows : List Row
  deriving DecidableEq, Repr

/-- A statement answered, with the row held before it: what it is answered with, and the row held
then. -/
def answering (D : Delimiter) (sql : Text) (held : Row) : Option Rows × Row :=
  if ¬"INSERT".toList <+: sql then (none, held)
  else
    let text := literals D sql
    (some ⟨["id".toList], [[some ROW_ID]]⟩, [text[0]?, text[1]?, hexToken sql, text[2]?])

/-- The filing's statements, one after the other, and then the table the restore selects of. -/
def serve (D : Delimiter) (statements : List Text) : Rows :=
  ⟨COLUMNS, [statements.foldl (fun held sql => (answering D sql held).2) []]⟩

/-- How the archive writes its `INSERT` around the four fields: what stands before them holds
neither a quote nor the mark of the bytes, and what stands behind does not begin with a quote. -/
structure Insert where
  head : Text
  tail : Text
  hex : List UInt8 → Text
  inserts : "INSERT".toList <+: head
  unquoted : '\'' ∉ head
  unmarked : splitOnce ", 0x".toList head = none
  digits : ∀ bytes, ∀ c ∈ hex bytes, c.isHexDigit = true
  ended : ¬['\''] <+: tail

/-- The statement the archive sends: each text a literal, and the bytes unquoted between the second
and the third. -/
def Insert.sql (I : Insert) (dataType identifier : Text) (bytes : List UInt8) (metadata : Text) :
    Text :=
  I.head ++ 'N' :: quoted '\'' dataType ++ ", N".toList ++ quoted '\'' identifier ++
    ", 0x".toList ++ I.hex bytes ++ ", N".toList ++ quoted '\'' metadata ++ I.tail

/-- The four fields, as the archive sent them. -/
def Insert.row (I : Insert) (dataType identifier : Text) (bytes : List UInt8) (metadata : Text) :
    Row :=
  [some dataType, some identifier, some ("0x".toList ++ I.hex bytes), some metadata]

/-! ### The texts -/

variable (D : Delimiter)

/-- A literal is read behind what holds no quote. -/
theorem literals_quoted {before after : Text} (hbefore : '\'' ∉ before) (t : Text)
    (hafter : ¬['\''] <+: after) :
    literals D (before ++ quoted '\'' t ++ after) = t :: literals D after := by
  -- nothing is read before the first quote
  have hskip : ∀ c ∈ before, decide (c ≠ '\'') = true := by
    intro c hc
    apply decide_eq_true
    rintro rfl
    exact hbefore hc
  have hrest : (before ++ quoted '\'' t ++ after).dropWhile (· ≠ '\'') = quoted '\'' t ++
    after := by
    rw [List.append_assoc, List.dropWhile_append_of_pos hskip]
    rfl
  have hsome : quoted '\'' t ++ after ≠ [] := List.cons_ne_nil _ _
  rw [literals, hrest, if_neg hsome]
  split
  · next hnone =>
    rw [D.reads t hafter] at hnone
    cases hnone
  · -- the quoted text is the first literal, and the rest is read after it
    next literal rest hread =>
    rw [D.reads t hafter] at hread
    cases hread
    rfl

/-! ### The bytes -/

/-- What follows the first mark of the bytes in a text. -/
def marked (t : Text) : Option Text := (splitOnce ", 0x".toList t).map Prod.snd

private theorem hexToken_eq (sql : Text) :
    hexToken sql = (marked sql).map fun after =>
    "0x".toList ++ after.takeWhile Char.isHexDigit := by
  rw [hexToken, marked, Option.map_map]
  rfl

/-- The mark does not begin in what holds none and go on behind another character. -/
theorem marked_skip {t : Text} {c : Char} (hc : c ∉ ", 0x".toList)
    (h : splitOnce ", 0x".toList t = none) (rest : Text) :
    marked (t ++ c :: rest) = marked rest := by
  rw [marked, splitOnce_append_none hc h, Option.map_map]
  rfl

/-- In a literal the mark is found where it is in the text, and else behind the literal. -/
theorem marked_quoted (t rest : Text) : marked (quoted '\'' t ++ rest) =
    (marked t).elim (marked rest) fun after => some (doubled '\'' after ++ '\'' :: rest) := by
  have hquote : '\'' ∉ ", 0x".toList := by decide
  have hwritten : splitOnce ", 0x".toList (doubled '\'' t) =
      (splitOnce ", 0x".toList t).map fun halves =>
      (doubled '\'' halves.1, doubled '\'' halves.2) :=
    splitOnce_doubled hquote (by decide)
  have hopen : quoted '\'' t ++ rest = [] ++ '\'' :: (doubled '\'' t ++ '\'' :: rest) := by
    rw [quoted, List.cons_append, List.append_assoc]
    rfl
  -- No quote is part of the mark, so none ends within it.
  rw [hopen, marked_skip hquote rfl]
  cases hsplit : splitOnce ", 0x".toList t with
  | none =>
    have hnone : marked t = none := by rw [marked, hsplit, Option.map_none]
    rw [hsplit] at hwritten
    rw [marked_skip hquote hwritten, hnone, Option.elim_none]
  | some halves =>
    have hsome : marked t = some halves.2 := by rw [marked, hsplit, Option.map_some]
    rw [hsplit] at hwritten
    rw [hsome, Option.elim_some, marked, splitOnce_append_some hwritten, Option.map_some]

/-! ### The row -/

variable (I : Insert) (dataType identifier metadata : Text) (bytes : List UInt8)

/-- The statement, its head and literals apart. -/
theorem Insert.sql_eq : I.sql dataType identifier bytes metadata =
    I.head ++ 'N' :: (quoted '\'' dataType ++ ([',', ' '] ++ 'N' :: (quoted '\'' identifier ++
      (", 0x".toList ++
        (I.hex bytes ++ ',' :: ([' ', 'N'] ++ quoted '\'' metadata ++ I.tail)))))) := by
  unfold Insert.sql
  simp only [List.append_assoc, List.cons_append]
  rfl

/-- The digits are read to their end, as a comma is none. -/
theorem takeWhile_hex (rest : Text) :
    (I.hex bytes ++ ',' :: rest).takeWhile Char.isHexDigit = I.hex bytes := by
  rw [List.takeWhile_append_of_pos (I.digits bytes), List.takeWhile_cons_of_neg (by decide),
    List.append_nil]

/-- What is kept as the bytes: what follows the first mark, which may be one in a text. -/
theorem hexToken_sql : hexToken (I.sql dataType identifier bytes metadata) =
    some ("0x".toList ++ ((marked dataType).or (marked identifier)).elim (I.hex bytes)
    (List.takeWhile Char.isHexDigit)) := by
  have hletter : 'N' ∉ ", 0x".toList := by decide
  have hbytes (rest : Text) : marked (", 0x".toList ++ rest) = some rest := by
    have hself : splitOnce ", 0x".toList ", 0x".toList = some ([], []) := rfl
    rw [marked, splitOnce_append_some hself]
    rfl
  rw [hexToken_eq, Insert.sql_eq, marked_skip hletter I.unmarked, marked_quoted,
    marked_skip hletter rfl, marked_quoted, hbytes]
  -- The first mark is one in the data type, or else in the identifier, or else that of the bytes.
  cases marked dataType with
  | some after =>
    rw [Option.elim_some, Option.map_some, Option.some_or, Option.elim_some,
      takeWhile_doubled (by decide)]
  | none =>
    cases marked identifier with
    | some after =>
      rw [Option.elim_none, Option.elim_some, Option.map_some, Option.none_or, Option.elim_some,
        takeWhile_doubled (by decide)]
    | none =>
      rw [Option.elim_none, Option.elim_none, Option.map_some, Option.none_or, Option.elim_none,
        takeWhile_hex]

/-- The texts are read back as they were sent, whatever they hold. -/
theorem literals_sql : literals D (I.sql dataType identifier bytes metadata) =
    dataType :: identifier :: metadata :: literals D I.tail := by
  -- digits hold no quote, so the bytes in between are none of the literals
  have hdigits : '\'' ∉ I.hex bytes := fun hmem => absurd (I.digits bytes _ hmem) (by decide)
  have hbefore : '\'' ∉ ", 0x".toList ++ I.hex bytes ++ ", N".toList := by
    rw [List.mem_append, List.mem_append, not_or, not_or]
    exact ⟨⟨by decide, hdigits⟩, by decide⟩
  have hhead : '\'' ∉ I.head ++ ['N'] := by
    rw [List.mem_append, not_or]
    exact ⟨I.unquoted, by decide⟩
  -- three quoted texts, with no quote in what stands between them
  have hsql : I.sql dataType identifier bytes metadata = (I.head ++ ['N']) ++
    quoted '\'' dataType ++
      (", N".toList ++ quoted '\'' identifier ++
        ((", 0x".toList ++ I.hex bytes ++ ", N".toList) ++ quoted '\'' metadata ++ I.tail)) := by
    unfold Insert.sql
    simp only [List.append_assoc, List.cons_append, List.nil_append]
  have hnext (c : Char) (rest : Text) (hc : c ≠ '\'') : ¬['\''] <+: c :: rest :=
    fun hprefix => hc (List.cons_prefix_cons.mp hprefix).1.symm
  rw [hsql, literals_quoted D hhead, literals_quoted D (by decide),
    literals_quoted D hbefore _ I.ended]
  · -- each literal ends before a comma, never at a quote doubled
    exact hnext ',' _ (by decide)
  · exact hnext ',' _ (by decide)

/-- What an `INSERT` leaves held. -/
theorem answering_sql (held : Row) :
    (answering D (I.sql dataType identifier bytes metadata) held).2 =
      [some dataType, some identifier,
      some ("0x".toList ++ ((marked dataType).or (marked identifier)).elim (I.hex bytes)
      (List.takeWhile Char.isHexDigit)), some metadata] := by
  have hinserts : "INSERT".toList <+: I.sql dataType identifier bytes metadata := by
    rw [I.sql_eq]
    exact I.inserts.trans (List.prefix_append _ _)
  unfold answering
  rw [if_neg fun hnot => hnot hinserts, literals_sql, hexToken_sql]
  rfl

/-- Where the data type or, failing that, the identifier holds the mark of the bytes, the digits
that follow it there are those of the bytes. -/
def Insert.Clear : Prop :=
  ∀ after ∈ (marked dataType).or (marked identifier), after.takeWhile Char.isHexDigit = I.hex bytes

/-- **The row kept is the row sent** if and only if nothing that stands before the bytes passes for
others. -/
theorem keeps_row_iff (held : Row) :
    (answering D (I.sql dataType identifier bytes metadata) held).2 =
      I.row dataType identifier bytes metadata ↔ I.Clear dataType identifier bytes := by
  rw [answering_sql, Insert.row, List.cons_inj_right, List.cons_inj_right, List.cons_eq_cons,
    and_iff_left rfl, Option.some_inj, List.append_cancel_left_eq]
  unfold Insert.Clear
  cases (marked dataType).or (marked identifier) with
  | none => exact iff_of_true rfl fun _ hafter => absurd hafter (Option.not_mem_none _)
  | some after =>
    constructor
    · rintro hdigits _ ⟨⟩
      exact hdigits
    · intro hclear
      exact hclear after rfl

/-- A reader of one quoted text. -/
def STRING : Delimiter := ⟨unquote '\'', length_unquote, fun literal _ => unquote_quoted literal⟩

/-- Two digits to a byte. -/
def hexDigits (bytes : List UInt8) : Text :=
  bytes.flatMap fun byte => [Nat.digitChar (byte.toNat / 16), Nat.digitChar (byte.toNat % 16)]

/-- The statement of an archive that holds little else. -/
def plain : Insert where
  head := "INSERT INTO [a] (x) OUTPUT INSERTED.id VALUES (".toList
  tail := [')']
  hex := hexDigits
  inserts := by decide
  unquoted := by decide
  unmarked := by decide
  digits bytes c hc := by
    have hdigit : ∀ n < 16, (Nat.digitChar n).isHexDigit = true := by decide
    obtain ⟨byte, -, hbyte⟩ := List.mem_flatMap.mp hc
    have hlt := byte.toNat_lt
    rcases List.mem_pair.mp hbyte with rfl | rfl
    · exact hdigit _ (by omega)
    · exact hdigit _ (by omega)
  ended := by decide

theorem keeps_row_plain :
    (answering STRING (plain.sql ['j'] "it's".toList [0x7b, 0x22] "m, 0xff".toList) []).2 =
      plain.row ['j'] "it's".toList [0x7b, 0x22] "m, 0xff".toList :=
  (keeps_row_iff STRING plain ['j'] "it's".toList "m, 0xff".toList [0x7b, 0x22] []).mpr
    fun after hafter => by
    have hnone : (marked ['j']).or (marked "it's".toList) = none := by decide
    rw [hnone] at hafter
    exact absurd hafter (Option.not_mem_none _)

/-- An identifier that reads like bytes is kept as the bytes. -/
theorem keeps_other_bytes :
    ¬∀ (D : Delimiter) (I : Insert) (dataType identifier metadata : Text) (bytes : List UInt8),
    (answering D (I.sql dataType identifier bytes metadata) []).2 =
      I.row dataType identifier bytes metadata := by
  intro h
  have hkept := h STRING plain ['j'] "a, 0xff".toList ['m'] [0x7b, 0x22]
  rw [answering_sql] at hkept
  exact absurd hkept (by decide)

end MssqlCabinet

end XmipEssentials
