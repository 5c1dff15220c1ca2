import XmipEssentials.Database

/-!
# One filing through a database's far end

A cabinet is handed an item, archives it, restores it from the receipt and hands back what came back
(`fileThrough`); where a far end of its own served the filing, that far end must have served it
without error too (`serveFiling`). The PostgreSQL and MariaDB far ends answer the archive's `INSERT`
and keep its quoted literals as the row the restore then selects. Every value of theirs is a
literal, bytes included, so unlike the SQL Server far end, which looks for the bytes by a mark, they
keep the row sent whatever its texts hold (`Archive.held_eq`), and a filing returns its item whole
(`Archive.files_whole`).

How an archive writes its statements and reads a row back belongs to other crates: `Values` and
`Archive` are what a far end and a filing rely on of it.
-/

namespace XmipEssentials

open Text Quoting

/-- An item as an archive takes it and hands it back, whole: the retention looks at no more of it
than its first two fields. -/
structure Cabinet.ArchiveItem where
  dataType : Text
  identifier : Text
  bytes : List UInt8
  metadata : List (Text × Text)
  deriving DecidableEq, Repr

/-- What one filing returned. -/
inductive Filed where
  /-- It came back from the archive. -/
  | returned (item : Cabinet.ArchiveItem)
  /-- The archive or the restore failed, and why. -/
  | failed (why : Text)
  deriving DecidableEq, Repr

/-- Archive, then restore from the receipt: each half's failure says which half it was. -/
def fileThrough {Receipt : Type} (archived : Except Text Receipt)
    (restored : Receipt → Except Text Cabinet.ArchiveItem) : Filed :=
  match archived with
  | .error error => .failed ("archive failed: ".toList ++ error)
  | .ok receipt =>
    match restored receipt with
    | .ok returned => .returned returned
    | .error error => .failed ("restore failed: ".toList ++ error)

/-- A filing beside the far end that serves it: what was filed counts where it was served. -/
def serveFiling (filed : Filed) (served : Except Text Unit) : Filed :=
  match filed, served with
  | .failed why, _ => .failed why
  | .returned item, .ok () => .returned item
  | .returned _, .error error => .failed ("the far end failed: ".toList ++ error)

/-- **A filing returns an item** just where both halves did and the far end served them. -/
theorem serveFiling_eq_returned_iff {Receipt : Type} {archived : Except Text Receipt}
    {restored : Receipt → Except Text Cabinet.ArchiveItem} {served : Except Text Unit}
    {item : Cabinet.ArchiveItem} :
    serveFiling (fileThrough archived restored) served = .returned item ↔
      (∃ receipt, archived = .ok receipt ∧ restored receipt = .ok item) ∧ served = .ok () := by
  cases archived with
  -- not archived, not restored, or not served: nothing is returned
  | error error => exact iff_of_false nofun fun ⟨⟨_, h, _⟩, _⟩ => nomatch h
  | ok receipt =>
    rw [fileThrough]
    cases hrestored : restored receipt with
    | error error =>
      apply iff_of_false nofun
      rintro ⟨⟨_, ⟨⟩, hitem⟩, -⟩
      exact nomatch hrestored.symm.trans hitem
    | ok returned =>
      cases served with
      | error error => exact iff_of_false nofun fun h => nomatch h.2
      -- all three went well: what is restored is what is returned
      | ok done =>
        constructor
        · rintro ⟨⟩
          exact ⟨⟨receipt, rfl, hrestored⟩, rfl⟩
        · rintro ⟨⟨_, ⟨⟩, hitem⟩, -⟩
          rw [Except.ok.inj (hrestored.symm.trans hitem)]
          rfl

/-! ### The far ends that keep literals -/

/-- A statement answered by a far end that keeps what an `INSERT` carries: the row held then. -/
def heldAfter (keeps : List Text → MssqlCabinet.Row) (D : Delimiter) (held : MssqlCabinet.Row)
    (sql : Text) : MssqlCabinet.Row :=
  if "INSERT".toList <+: sql then keeps (literals D sql) else held

/-- What the PostgreSQL far end keeps: the first four literals. -/
def PostgresqlCabinet.keeps (text : List Text) : MssqlCabinet.Row := (text.take 4).map some

/-- What the MariaDB far end keeps: the bytes in the form the archive's select would produce. -/
def MariaDbCabinet.keeps (text : List Text) : MssqlCabinet.Row :=
  [text[0]?, text[1]?, text[2]?.map ("0x".toList ++ ·), text[3]?]

/-- The table a restore selects of, once the archive's statements were answered. -/
def serveLiterals (keeps : List Text → MssqlCabinet.Row) (D : Delimiter) (statements : List Text) :
    MssqlCabinet.Rows :=
  ⟨MssqlCabinet.COLUMNS, [statements.foldl (heldAfter keeps D) []]⟩

/-- How an archive writes an `INSERT` all of whose values are literals: what stands before the first
holds no quote, what separates two holds none and is not empty, and what stands behind the last does
not begin with one. -/
structure Values where
  head : Text
  between : List Text
  tail : Text
  inserts : "INSERT".toList <+: head
  unquoted : '\'' ∉ head
  separate : ∀ sep ∈ between, sep ≠ [] ∧ '\'' ∉ sep
  ended : ¬['\''] <+: tail

/-- The values behind the first, each behind what separates it. -/
def spread : List Text → List Text → Text
  | sep :: between, value :: values => sep ++ quoted '\'' value ++ spread between values
  | _, _ => []

/-- The statement of a value and those that follow it. -/
def Values.sql (V : Values) (value : Text) (values : List Text) : Text :=
  V.head ++ quoted '\'' value ++ (spread V.between values ++ V.tail)

variable (D : Delimiter)

/-- What separates two values, or stands behind the last, begins with no quote. -/
theorem not_quote_spread {between values : List Text} {tail : Text}
    (hbetween : ∀ sep ∈ between, sep ≠ [] ∧ '\'' ∉ sep) (htail : ¬['\''] <+: tail) :
    ¬['\''] <+: spread between values ++ tail := by
  cases between with
  | nil => exact htail
  | cons sep between =>
    cases values with
    | nil => exact htail
    | cons value values =>
      obtain ⟨hsome, hquote⟩ := hbetween sep List.mem_cons_self
      obtain ⟨c, rest, rfl⟩ := List.exists_cons_of_ne_nil hsome
      rintro ⟨after, hafter⟩
      obtain rfl : '\'' = c := (List.cons.inj hafter).1
      exact hquote List.mem_cons_self

/-- **The values are read back in their order**, whatever quotes they hold. -/
theorem literals_spread {between values : List Text} {tail : Text}
    (hbetween : ∀ sep ∈ between, sep ≠ [] ∧ '\'' ∉ sep) (htail : ¬['\''] <+: tail)
    (hlength : values.length = between.length) :
    literals D (spread between values ++ tail) = values ++ literals D tail := by
  induction between generalizing values with
  | nil =>
    obtain rfl := List.length_eq_zero_iff.mp hlength
    rfl
  | cons sep between ih =>
    obtain ⟨value, values, rfl⟩ := List.exists_cons_of_length_eq_add_one hlength
    rw [List.forall_mem_cons] at hbetween
    rw [spread, List.append_assoc, MssqlCabinet.literals_quoted D hbetween.1.2 value
      (not_quote_spread hbetween.2 htail), ih hbetween.2 (Nat.succ.inj hlength), List.cons_append]

private theorem Values.literals_sql (V : Values) (value : Text) {values : List Text}
    (hlength : values.length = V.between.length) :
    literals D (V.sql value values) = value :: (values ++ literals D V.tail) := by
  rw [Values.sql, MssqlCabinet.literals_quoted D V.unquoted value
    (not_quote_spread V.separate V.ended), literals_spread D V.separate V.ended hlength]

/-- What the filing's statements leave held, where one of them alone is an `INSERT`. -/
theorem held_statements (keeps : List Text → MssqlCabinet.Row) {before after : List Text}
    {sql : Text} (hsql : "INSERT".toList <+: sql)
    (hafter : ∀ other ∈ after, ¬"INSERT".toList <+: other) (held : MssqlCabinet.Row) :
    (before ++ sql :: after).foldl (heldAfter keeps D) held = keeps (literals D sql) := by
  rw [List.foldl_append, List.foldl_cons, heldAfter, if_pos hsql]
  induction after with
  | nil => rfl
  | cons other after ih =>
    rw [List.forall_mem_cons] at hafter
    rw [List.foldl_cons, heldAfter, if_neg hafter.1]
    exact ih hafter.2

/-! ### A filing -/

/-- An archive that keeps an item as a row: what it sends beside its `INSERT`, how it writes the
bytes and the metadata, what it sends behind the four fields, and what a restore makes of the row it
selects. -/
structure Archive where
  values : Values
  before : List Text
  after : List Text
  hex : List UInt8 → Text
  noted : List (Text × Text) → Text
  more : List Text
  select : MssqlCabinet.Row → Except Text Cabinet.ArchiveItem
  fit : values.between.length = 3 + more.length
  alone : ∀ other ∈ after, ¬"INSERT".toList <+: other

namespace Archive

variable (A : Archive) (item : Cabinet.ArchiveItem)

/-- The statement that files an item. -/
def insert : Text :=
  A.values.sql item.dataType ([item.identifier, A.hex item.bytes, A.noted item.metadata] ++ A.more)

/-- What the archive sends to file an item. -/
def statements : List Text := A.before ++ A.insert item :: A.after

/-- The row a far end is to answer with, the bytes in the form it keeps them in. -/
def row (form : Text → Text) : MssqlCabinet.Row :=
  [some item.dataType, some item.identifier, some (form (A.hex item.bytes)),
    some (A.noted item.metadata)]

/-- A restore reads the item back from its row. -/
def Reads (form : Text → Text) : Prop := A.select (A.row item form) = .ok item

/-- An item filed: archived on one connection, and restored on the next from the row held by
then. -/
def filed (keeps : List Text → MssqlCabinet.Row) (served : Except Text Unit) : Filed :=
  serveFiling (fileThrough (.ok MssqlCabinet.ROW_ID)
    fun _ => A.select ((serveLiterals keeps D (A.statements item)).rows.headD [])) served

/-- **Both far ends hold the row sent**, whatever its texts hold. -/
theorem held_eq (held : MssqlCabinet.Row) :
    (A.statements item).foldl (heldAfter PostgresqlCabinet.keeps D) held = A.row item id ∧
      (A.statements item).foldl (heldAfter MariaDbCabinet.keeps D) held =
        A.row item ("0x".toList ++ ·) := by
  have hsql : "INSERT".toList <+: A.insert item := by
    rw [insert, Values.sql, List.append_assoc]
    exact A.values.inserts.trans (List.prefix_append _ _)
  have hlength : ([item.identifier, A.hex item.bytes, A.noted item.metadata] ++ A.more).length =
      A.values.between.length := by
    rw [A.fit, List.length_append]
    rfl
  rw [statements, held_statements D _ hsql A.alone, held_statements D _ hsql A.alone, insert,
    Values.literals_sql D A.values _ hlength]
  exact ⟨rfl, rfl⟩

/-- **A filing returns its item whole** through either far end, where that served it and a restore
reads rows back. -/
theorem files_whole :
    (A.Reads item id → filed D A item PostgresqlCabinet.keeps (.ok ()) = .returned item) ∧
      (A.Reads item ("0x".toList ++ ·) → filed D A item MariaDbCabinet.keeps (.ok ()) =
        .returned item) := by
  obtain ⟨hpostgresql, hmariadb⟩ := held_eq D A item []
  constructor
  · refine fun hreads => serveFiling_eq_returned_iff.mpr ⟨⟨_, rfl, ?_⟩, rfl⟩
    rw [serveLiterals, hpostgresql]
    exact hreads
  · refine fun hreads => serveFiling_eq_returned_iff.mpr ⟨⟨_, rfl, ?_⟩, rfl⟩
    rw [serveLiterals, hmariadb]
    exact hreads

/-- The archive of one database, as it files and restores an item of two quotes. -/
def quoting : Archive where
  values :=
    ⟨"INSERT INTO a VALUES (".toList, List.replicate 4 ", ".toList,
      ") RETURNING id".toList, by decide, by decide,
    by decide, by decide⟩
  before := []
  after := ["SELECT 1".toList]
  hex := MssqlCabinet.hexDigits
  noted pairs := pairs.flatMap fun pair => pair.1 ++ '=' :: pair.2
  more := ["now".toList]
  select row :=
    if row = [some "it's".toList, some "'".toList, some "7b".toList, some []] then
      .ok ⟨"it's".toList, "'".toList, [0x7b], []⟩
    else .error "no such row".toList
  fit := rfl
  alone := by decide

theorem files_whole_quoting :
    filed MssqlCabinet.STRING quoting ⟨"it's".toList, "'".toList, [0x7b], []⟩
      PostgresqlCabinet.keeps (.ok ()) = .returned ⟨"it's".toList, "'".toList, [0x7b], []⟩ :=
  (files_whole MssqlCabinet.STRING quoting ⟨"it's".toList, "'".toList, [0x7b], []⟩).1 rfl

end Archive

end XmipEssentials
