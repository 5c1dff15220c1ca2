import Mathlib.Algebra.Group.Int.Defs
import XmipEssentials.Cluster.Member
import XmipEssentials.Records

/-!
# Beats caught half-written

A beat is a plain overwrite of two lines, the time and how many rounds are finished, so who listens
may see any part of it from its beginning (`Beat.text`). A part that stops among the digits of the
count is a whole beat of a lesser count; any other part is no beat, or says the count the beat was
written with (`Beat.read_cut_iff`).

* `Life.faithful_iff` — the counts taken in a process's life are those it wrote, just where no
  listen catches a beat among the digits of its count.
-/

namespace XmipEssentials

open Text Conc

/-! ### A beat's text -/

/-- A whole number in decimal, its sign before it. -/
def signed : Int → Text
  | .ofNat n => decimal n
  | .negSucc n => '-' :: decimal (n + 1)

/-- The whole number a text says. -/
def parseInt : Text → Option Int
  | '-' :: digits => (parseNat digits).map fun n => -(n : Int)
  | digits => (parseNat digits).map Int.ofNat

/-- A key of a line, up to its value. -/
def lineKey (key : Text) : Text := key ++ " = ".toList

/-- What a line of a key has for its value. -/
def valueOf (key line : Text) : Option Text :=
  if (lineKey key).isPrefixOf line then some (line.drop (lineKey key).length) else none

namespace Beat

/-- The key of the time. -/
def nanosKey : Text := "unix_nanos".toList

/-- The key of the count. -/
def roundsKey : Text := "rounds".toList

/-- The first line. -/
def firstLine (b : Beat) : Text := lineKey nanosKey ++ signed b.unixNanos

/-- The text up to the digits of the count. -/
def upTo (b : Beat) : Text := b.firstLine ++ '\n' :: lineKey roundsKey

/-- A beat as it is written: a line to each field. -/
def text (b : Beat) : Text := b.upTo ++ (decimal b.rounds ++ ['\n'])

/-- The beat two lines say. -/
def ofLines (first second : Text) : Option Beat := do
  let nanos ← (valueOf nanosKey first).bind parseInt
  let rounds ← (valueOf roundsKey second).bind parseNat
  some ⟨nanos, rounds⟩

/-- The beat a text of these lines says, where both are there; the last may lack its line break. -/
def read (text : Text) : Option Beat :=
  match (text.splitOn '\n').filter fun line => !line.isEmpty with
  | [first, second] => ofLines first second
  | _ => none

/-- A time of 64 bits, as a clock is read. -/
def FitsTime (now : Int) : Prop := -2 ^ 63 ≤ now ∧ now < 2 ^ 63

/-- A beat whose fields have 64 bits each: no other is written. -/
def Fits (b : Beat) : Prop := FitsTime b.unixNanos ∧ b.rounds < 2 ^ 64

/-- A part of a beat that stops among the digits of its count. -/
def Torn (b : Beat) (cut : Text) : Prop :=
  ∃ digits, digits ≠ [] ∧ digits <+: decimal b.rounds ∧ digits ≠ decimal b.rounds ∧
    cut = b.upTo ++ digits

/-! ### What a part of it says -/

private theorem parseInt_signed (n : Int) : (parseInt (signed n)).isSome := by
  cases n with
  | ofNat n =>
    have hhead : ∀ digits, decimal n ≠ '-' :: digits := by
      intro digits heq
      have hmem : '-' ∈ decimal n := by
        rw [heq]
        exact List.mem_cons_self
      exact absurd (decimal_isDigit hmem) (by decide)
    rw [signed, parseInt]
    · rw [parseNat_decimal]
      rfl
    · exact hhead
  | negSucc n =>
    rw [signed, parseInt, parseNat_decimal]
    rfl

private theorem valueOf_append (key value : Text) :
    valueOf key (lineKey key ++ value) = some value := by
  rw [valueOf, if_pos (List.isPrefixOf_iff_prefix.mpr (List.prefix_append _ _)), List.drop_left]

/-- Less than a key and its value says no number. -/
theorem valueOf_part {key line : Text} (h : line <+: lineKey key) :
    (valueOf key line).bind parseNat = none := by
  unfold valueOf
  split_ifs with hkey
  · have heq : lineKey key = line :=
      (List.isPrefixOf_iff_prefix.mp hkey).eq_of_length_le h.length_le
    rw [Option.bind_some, ← heq, List.drop_length]
    rfl
  · rfl

private theorem newline_not_mem_firstLine (b : Beat) : '\n' ∉ b.firstLine := by
  intro hmem
  rcases List.mem_append.mp hmem with hkey | hvalue
  · exact absurd hkey (by decide)
  · cases hnanos : b.unixNanos with
    | ofNat n =>
      rw [hnanos] at hvalue
      exact absurd (decimal_isDigit hvalue) (by decide)
    | negSucc n =>
      rw [hnanos] at hvalue
      rcases List.mem_cons.mp hvalue with heq | hdigit
      · exact absurd heq (by decide)
      · exact absurd (decimal_isDigit hdigit) (by decide)

private theorem filter_line {line : Text} (h : line ≠ []) (rest : List Text) :
    ((line :: rest).filter fun line => !line.isEmpty) = line :: rest.filter fun line =>
      !line.isEmpty := by
  cases line with
  | nil => exact absurd rfl h
  | cons c line => rfl

/-- One line is no beat. -/
theorem read_one {line : Text} (h : '\n' ∉ line) : read line = none := by
  rw [read, List.splitOn_eq_singleton h, List.filter_cons]
  split_ifs <;> rfl

/-- Two lines that are not empty are a beat as they say, the last ended or not. -/
theorem read_two {first second : Text} (hfirst : '\n' ∉ first) (hsecond : '\n' ∉ second)
    (hne : first ≠ []) (hne' : second ≠ []) :
    read (first ++ '\n' :: second) = ofLines first second ∧
      read (first ++ '\n' :: (second ++ ['\n'])) = ofLines first second := by
  constructor
  · rw [read, List.splitOn_append_cons_self_of_not_mem hfirst, List.splitOn_eq_singleton hsecond,
      filter_line hne, filter_line hne', List.filter_nil]
  · rw [read, List.splitOn_append_cons_self_of_not_mem hfirst,
      List.splitOn_append_cons_self_of_not_mem hsecond, filter_line hne, filter_line hne']
    rfl

private theorem ofLines_firstLine (b : Beat) (second : Text) :
    ∃ nanos, ofLines b.firstLine second =
      ((valueOf roundsKey second).bind parseNat).map fun rounds => ⟨nanos, rounds⟩ := by
  obtain ⟨nanos, hnanos⟩ := Option.isSome_iff_exists.mp (parseInt_signed b.unixNanos)
  refine ⟨nanos, ?_⟩
  rw [ofLines, firstLine, valueOf_append, Option.bind_some, hnanos]
  cases (valueOf roundsKey second).bind parseNat <;> rfl

/-- A beat of so much of its count: no beat without a digit, and otherwise the count these digits
say. -/
theorem read_upTo (b : Beat) {digits : Text} (hdigits : digits <+: decimal b.rounds) :
    ∃ nanos, (read (b.upTo ++ digits) = (parseNat digits).map fun rounds => ⟨nanos, rounds⟩) ∧
      read (b.upTo ++ (digits ++ ['\n'])) = (parseNat digits).map fun rounds =>
      ⟨nanos, rounds⟩ := by
  have hfirst : b.firstLine ≠ [] := List.append_ne_nil_of_left_ne_nil (by decide) _
  -- The count's line is one line, as no digit ends it.
  have hsecond : '\n' ∉ lineKey roundsKey ++ digits := by
    rw [List.mem_append]
    rintro (hkey | hdigit)
    · exact absurd hkey (by decide)
    · exact absurd (decimal_isDigit (hdigits.subset hdigit)) (by decide)
  have hne : lineKey roundsKey ++ digits ≠ [] := List.append_ne_nil_of_left_ne_nil (by decide) _
  obtain ⟨nanos, hnanos⟩ := ofLines_firstLine b (lineKey roundsKey ++ digits)
  rw [valueOf_append, Option.bind_some] at hnanos
  have htwo := read_two (newline_not_mem_firstLine b) hsecond hfirst hne
  have hassoc (tail : Text) : b.upTo ++ tail = b.firstLine ++
    '\n' :: (lineKey roundsKey ++ tail) := by
    rw [upTo, List.append_assoc, List.cons_append]
  refine ⟨nanos, ?_, ?_⟩
  · rw [hassoc, htwo.1, hnanos]
  · rw [hassoc, ← List.append_assoc, htwo.2, hnanos]

/-- Less than what stands before the count is no beat. -/
theorem read_before (b : Beat) {cut : Text} (hcut : cut <+: b.upTo) : read cut = none := by
  obtain ⟨rest, hrest⟩ := hcut
  have hsplit : cut ++ rest = b.firstLine ++ '\n' :: lineKey roundsKey := hrest
  -- It ends within the first line, or breaks off in the key of the second.
  rcases List.append_eq_append_iff.mp hsplit with ⟨left, hfirst, -⟩ | ⟨after, rfl, hafter⟩
  · refine read_one fun hmem => newline_not_mem_firstLine b ?_
    rw [hfirst]
    exact List.mem_append_left left hmem
  · cases after with
    | nil =>
      rw [List.append_nil]
      exact read_one (newline_not_mem_firstLine b)
    | cons c second =>
      obtain ⟨rfl, htail⟩ := List.cons.inj hafter
      have hsecond : second <+: lineKey roundsKey := ⟨rest, htail.symm⟩
      have hfirst : b.firstLine ≠ [] := List.append_ne_nil_of_left_ne_nil (by decide) _
      cases second with
      | nil =>
        rw [read, List.splitOn_append_cons_self_of_not_mem (newline_not_mem_firstLine b),
          filter_line hfirst]
        rfl
      | cons c second =>
        have hplain : '\n' ∉ c :: second := fun hmem => absurd (hsecond.subset hmem) (by decide)
        obtain ⟨nanos, hnanos⟩ := ofLines_firstLine b (c :: second)
        rw [(read_two (newline_not_mem_firstLine b) hplain hfirst (List.cons_ne_nil c second)).1,
          hnanos, valueOf_part hsecond]
        rfl

/-- **A part of a beat says another count than the beat's just where it stops among the count's
digits.** -/
theorem read_cut_iff (b : Beat) {cut : Text} (hcut : cut <+: b.text) :
    (∃ said, read cut = some said ∧ said.rounds ≠ b.rounds) ↔ b.Torn cut := by
  constructor
  · rintro ⟨said, hsaid, hne⟩
    -- The cut ends before the count begins, or in it, or after it.
    obtain ⟨rest, hrest⟩ := hcut
    rcases List.append_eq_append_iff.mp hrest with ⟨left, hbefore, -⟩ | ⟨after, rfl, hafter⟩
    · rw [read_before b ⟨left, hbefore.symm⟩] at hsaid
      cases hsaid
    · -- A count that is all there is the one the beat says.
      have hwhole (nanos : Int) :
          ((parseNat (decimal b.rounds)).map fun rounds => (⟨nanos, rounds⟩ : Beat)) ≠
            some said := by
        rw [parseNat_decimal]
        intro heq
        rw [← Option.some.inj heq] at hne
        exact hne rfl
      rcases List.append_eq_append_iff.mp hafter with ⟨more, rfl, hmore⟩ | ⟨more, hmore, -⟩
      · -- The count is all there, its line ended or not.
        obtain ⟨nanos, hread, hended⟩ := read_upTo b (List.prefix_refl (decimal b.rounds))
        cases more with
        | nil =>
          rw [List.append_nil, hread] at hsaid
          exact absurd hsaid (hwhole nanos)
        | cons c more =>
          obtain ⟨rfl, hnil⟩ := List.cons.inj hmore
          obtain ⟨rfl, -⟩ := List.append_eq_nil_iff.mp hnil.symm
          rw [hended] at hsaid
          exact absurd hsaid (hwhole nanos)
      · -- The cut ends among the digits, and reads as fewer of them.
        have hdigits : after <+: decimal b.rounds := ⟨more, hmore.symm⟩
        obtain ⟨nanos, hread, -⟩ := read_upTo b hdigits
        rw [hread] at hsaid
        refine ⟨after, ?_, hdigits, ?_, rfl⟩
        · rintro rfl
          cases hsaid
        · rintro rfl
          exact hwhole nanos hsaid
  · -- The other way, fewer digits are a smaller count.
    rintro ⟨digits, hne, hdigits, hproper, rfl⟩
    obtain ⟨n, hn, hless⟩ := parseNat_cut hne hdigits hproper
    obtain ⟨nanos, hread, -⟩ := read_upTo b hdigits
    refine ⟨⟨nanos, n⟩, ?_, hless.ne⟩
    rw [hread, hn]
    rfl

end Beat

variable {S : Type}

/-- How beats are read agrees, of every beginning of this beat, with reading its lines. -/
def Reading.ReadsParts (R : Reading S) (b : Beat) : Prop :=
  ∀ cut, cut <+: b.text → R.beat cut = Beat.read cut

/-! ### A process's life -/

/-- One life of a node's process beside the cluster's member of it: the rounds it finished, the beat
it is writing or wrote last, and the member. -/
structure Life (S : Type) where
  finished : Nat
  written : Option Beat
  member : Member S

namespace Life

/-- What happens next: the process beats, or finishes a round; the cluster listens to what it
catches of the beat file, or listens and reads. -/
inductive Act where
  | beat (now : Int)
  | round
  | listen (caught : Option Text)
  | read (caught : Option Text)

/-- What of the beat file is caught, if any of it is. -/
def Act.caught : Act → Option Text
  | .beat _ | .round => none
  | .listen caught | .read caught => caught

/-- A beat overwrites the file, so what is caught of it is a beginning of the beat last written. -/
def Catches (l : Life S) (caught : Option Text) : Prop :=
  ∀ cut, caught = some cut → ∃ beat, l.written = some beat ∧ cut <+: beat.text

/-- The beat file reads as what is caught of it; every other call answers as it may. -/
def catching (caught : Option Text) : Exec Unit (ClusterOp S) Unit
  | _, _, .beatText _, _, b, _ => b = caught
  | _, _, _, _, _, _ => True

/-- One step of a life. A beat is written with the rounds finished by then. -/
def Next (R : Reading S) : Act → Life S → Life S → Prop
  | .beat now, l, l' => l' = { l with written := some ⟨now, l.finished⟩ }
  | .round, l, l' => l' = { l with finished := l.finished + 1 }
  | .listen caught, l, l' => l.Catches caught ∧
      ∃ m, (l.member.listen R).Runs (catching caught) () () m () ∧ l' = { l with member := m }
  | .read caught, l, l' => l.Catches caught ∧
      ∃ m, (l.member.read R).Runs (catching caught) () () m () ∧ l' = { l with member := m }

/-- A listen catches a changed beat among the digits of its count. -/
def Torn (l : Life S) (caught : Option Text) : Prop :=
  ∃ cut beat, caught = some cut ∧ cut ≠ l.member.beatText ∧ l.written = some beat ∧ beat.Torn cut

/-- What a listen takes for the count, where it takes one. -/
def taken (R : Reading S) (m : Member S) (caught : Option Text) : Option Nat :=
  caught.bind fun cut => if cut = m.beatText then none else (R.beat cut).map Beat.rounds

/-- A listen takes the count the beat was written with. -/
def Right (R : Reading S) (l : Life S) (caught : Option Text) : Prop :=
  ∀ count, taken R l.member caught = some count → ∃ beat, l.written = some beat ∧
    count = beat.rounds

/-- The published file is parsed in this step. -/
def Parses (l l' : Life S) : Prop := l'.member.parses = l.member.parses + 1

/-- No count is misstated: what is taken is what the beat was written with, the count never goes
down, and the published file is parsed once to a finished round at most. -/
structure Faithful (R : Reading S) (n : ℕ) (acts : ℕ → Act) (lives : ℕ → Life S) : Prop where
  right : ∀ k < n, (lives k).Right R (acts k).caught
  grows : ∀ k < n, (lives k).member.rounds ≤ (lives (k + 1)).member.rounds
  once : ∀ i j, i < j → j < n → Parses (lives i) (lives (i + 1)) →
    Parses (lives j) (lives (j + 1)) →
    (lives (i + 1)).member.readAt ≠ (lives (j + 1)).member.readAt
  within : ∀ k ≤ n, (lives k).member.parses ≤ (lives 0).member.parses + (lives k).finished

variable {R : Reading S} {l l' : Life S} {m m' : Member S} {caught : Option Text}

/-- What listening leaves: the count that is taken, and the readings as they were. -/
theorem listened (h : (m.listen R).Runs (catching caught) () () m' ()) :
    m'.rounds = (taken R m caught).getD m.rounds ∧ m'.readAt = m.readAt ∧ m'.parses = m.parses := by
  unfold Member.listen at h
  rw [Prog.perform_bind, Prog.runs_call] at h
  obtain ⟨text, u, hcaught, h⟩ := h
  obtain rfl : text = caught := hcaught
  -- Nothing caught, or what was caught before, leaves the count as it was.
  cases text with
  | none =>
    obtain ⟨rfl, -⟩ := Prog.runs_pure.mp h
    exact ⟨rfl, rfl, rfl⟩
  | some cut =>
    dsimp only at h
    unfold taken
    rw [Option.bind_some]
    split at h
    · next hsame =>
      obtain ⟨rfl, -⟩ := Prog.runs_pure.mp h
      rw [if_pos hsame]
      exact ⟨rfl, rfl, rfl⟩
    · -- What has changed is read for its count, where it is a beat.
      next hchanged =>
      rw [Prog.perform_bind, Prog.runs_call] at h
      obtain ⟨heard, u', -, h⟩ := h
      obtain ⟨rfl, -⟩ := Prog.runs_pure.mp h
      rw [if_neg hchanged]
      refine ⟨?_, rfl, rfl⟩
      dsimp only
      cases R.beat cut <;> rfl

/-- What reading the published file leaves: it is parsed at a count it was not read at, or not at
all. -/
theorem parsed (h : (m.readPublished R).Runs (catching caught) () () m' ()) :
    m'.rounds = m.rounds ∧ (m'.readAt = m.readAt ∧ m'.parses = m.parses ∨
      m.rounds ≠ 0 ∧ m.readAt ≠ some m.rounds ∧ m'.readAt = some m.rounds ∧
      m'.parses = m.parses + 1) := by
  unfold Member.readPublished at h
  -- A count of none, or the one parsed last, is not due.
  split at h
  · obtain ⟨rfl, -⟩ := Prog.runs_pure.mp h
    exact ⟨rfl, .inl ⟨rfl, rfl⟩⟩
  · next hdue =>
    rw [not_or] at hdue
    rw [Prog.perform_bind, Prog.runs_call] at h
    obtain ⟨text, u, -, h⟩ := h
    cases text with
    | none =>
      obtain ⟨rfl, -⟩ := Prog.runs_pure.mp h
      exact ⟨rfl, .inl ⟨rfl, rfl⟩⟩
    -- What is published then is parsed once, where it parses at all.
    | some text =>
      dsimp only at h
      split at h
      · obtain ⟨rfl, -⟩ := Prog.runs_pure.mp h
        exact ⟨rfl, .inl ⟨rfl, rfl⟩⟩
      · obtain ⟨rfl, -⟩ := Prog.runs_pure.mp h
        exact ⟨rfl, .inr ⟨hdue.1, hdue.2, rfl, rfl⟩⟩

/-- **What one step can do to the member**: take a count, and parse the published file at it. -/
structure Took (R : Reading S) (act : Act) (l l' : Life S) : Prop where
  rounds : l'.member.rounds = (taken R l.member act.caught).getD l.member.rounds
  parses : l'.member.readAt = l.member.readAt ∧ l'.member.parses = l.member.parses ∨
    l'.member.rounds ≠ 0 ∧ l.member.readAt ≠ some l'.member.rounds ∧
      l'.member.readAt = some l'.member.rounds ∧ l'.member.parses = l.member.parses + 1

private theorem Next.took {act : Act} (h : Next R act l l') : Took R act l l' := by
  -- The process touches only its own part; who listens and reads, only the member's.
  cases act with
  | beat now =>
    obtain rfl := h
    exact ⟨rfl, .inl ⟨rfl, rfl⟩⟩
  | round =>
    obtain rfl := h
    exact ⟨rfl, .inl ⟨rfl, rfl⟩⟩
  | listen caught =>
    obtain ⟨-, m, hruns, rfl⟩ := h
    obtain ⟨hrounds, hread⟩ := listened hruns
    exact ⟨hrounds, .inl hread⟩
  | read caught =>
    obtain ⟨-, m, hruns, rfl⟩ := h
    unfold Member.read at hruns
    rw [Prog.runs_bind] at hruns
    obtain ⟨heard, u, hlisten, hruns⟩ := hruns
    rw [Prog.runs_bind] at hruns
    obtain ⟨after, u', hread, hruns⟩ := hruns
    rw [Prog.perform_bind, Prog.runs_call] at hruns
    obtain ⟨-, u'', -, hruns⟩ := hruns
    obtain ⟨rfl, -⟩ := Prog.runs_pure.mp hruns
    -- A read listens first, and then parses by the count just heard.
    obtain ⟨hrounds, hreadAt, hparses⟩ := listened hlisten
    obtain ⟨hsame, hparsed⟩ := parsed hread
    refine ⟨hsame.trans hrounds, ?_⟩
    dsimp only
    rw [hsame, ← hreadAt, ← hparses]
    exact hparsed

private theorem Next.catches {act : Act} (h : Next R act l l') : l.Catches act.caught := by
  cases act with
  | beat now => exact fun cut heq => nomatch heq
  | round => exact fun cut heq => nomatch heq
  | listen caught => exact h.1
  | read caught => exact h.1

/-- What is taken is read of a changed beat. -/
theorem taken_eq_some {count : Nat} (h : taken R m caught = some count) :
    ∃ cut said, caught = some cut ∧ cut ≠ m.beatText ∧ R.beat cut = some said ∧
    said.rounds = count := by
  obtain ⟨cut, hcut, hcount⟩ := Option.bind_eq_some_iff.mp h
  split_ifs at hcount with hsame
  obtain ⟨said, hsaid, hrounds⟩ := Option.map_eq_some_iff.mp hcount
  exact ⟨cut, said, hcut, hsame, hsaid, hrounds⟩

/-- **A listen takes the count the beat was written with** just where it does not catch the beat
among the digits of its count. -/
theorem right_iff (hagrees : ∀ b, l.written = some b → R.ReadsParts b)
    (hcatches : l.Catches caught) : l.Right R caught ↔ ¬l.Torn caught := by
  constructor
  · rintro hright ⟨cut, beat, rfl, hchanged, hwritten, htorn⟩
    obtain ⟨beat', hwritten', hcut⟩ := hcatches cut rfl
    obtain rfl : beat = beat' := Option.some.inj (hwritten.symm.trans hwritten')
    obtain ⟨said, hsaid, hne⟩ := (beat.read_cut_iff hcut).mpr htorn
    have htaken : taken R l.member (some cut) = some said.rounds := by
      rw [taken, Option.bind_some, if_neg hchanged, hagrees beat hwritten cut hcut, hsaid]
      rfl
    obtain ⟨beat'', hwritten'', hcount⟩ := hright _ htaken
    obtain rfl : beat = beat'' := Option.some.inj (hwritten.symm.trans hwritten'')
    exact hne hcount
  · intro hwhole count htaken
    obtain ⟨cut, said, rfl, hchanged, hsaid, rfl⟩ := taken_eq_some htaken
    obtain ⟨beat, hwritten, hcut⟩ := hcatches cut rfl
    refine ⟨beat, hwritten, ?_⟩
    -- A beginning of the beat that says another count stops among its digits.
    by_contra hne
    rw [hagrees beat hwritten cut hcut] at hsaid
    exact hwhole ⟨cut, beat, rfl, hchanged, hwritten,
      (beat.read_cut_iff hcut).mp ⟨said, hsaid, hne⟩⟩

/-- Where every count taken was written, the member is behind the process, and parsed no more than
it counts. -/
structure Inv (already : Nat) (l : Life S) : Prop where
  behind : l.member.rounds ≤ l.finished
  written : ∀ beat, l.written = some beat → l.member.rounds ≤ beat.rounds ∧ beat.rounds ≤ l.finished
  parsed : l.member.parses ≤ already + l.member.rounds
  due : l.member.rounds ≠ 0 → l.member.readAt ≠ some l.member.rounds →
    l.member.parses < already + l.member.rounds

/-- What a step of the process does beside the member. -/
theorem Next.kept {act : Act} (h : Next R act l l') : l.finished ≤ l'.finished ∧
    ∀ beat, l'.written = some beat → l.written = some beat ∨ beat.rounds = l.finished := by
  cases act with
  | beat now =>
    obtain rfl := h
    refine ⟨le_rfl, fun beat hbeat => .inr ?_⟩
    rw [← Option.some.inj hbeat]
  | round =>
    obtain rfl := h
    exact ⟨Nat.le_succ _, fun beat hbeat => .inl hbeat⟩
  | listen caught =>
    obtain ⟨-, m, -, rfl⟩ := h
    exact ⟨le_rfl, fun beat hbeat => .inl hbeat⟩
  | read caught =>
    obtain ⟨-, m, -, rfl⟩ := h
    exact ⟨le_rfl, fun beat hbeat => .inl hbeat⟩

/-- A step that takes the count written, or none, keeps the member behind the process and never
takes its count down. -/
theorem Inv.next {act : Act} {already : Nat} (hinv : Inv already l) (h : Next R act l l')
    (hright : l.Right R act.caught) : Inv already l' ∧ l.member.rounds ≤ l'.member.rounds := by
  obtain ⟨hrounds, hparses⟩ := h.took
  obtain ⟨hfinished, hwritten⟩ := h.kept
  -- The count is as it was, or what the beat on file says.
  have hcount : l'.member.rounds = l.member.rounds ∨
      ∃ beat, l.written = some beat ∧ l'.member.rounds = beat.rounds := by
    cases htaken : taken R l.member act.caught with
    | none =>
      rw [htaken, Option.getD_none] at hrounds
      exact .inl hrounds
    | some count =>
      rw [htaken, Option.getD_some] at hrounds
      obtain ⟨beat, hbeat, hcount⟩ := hright count htaken
      exact .inr ⟨beat, hbeat, hrounds.trans hcount⟩
  have hgrows : l.member.rounds ≤ l'.member.rounds ∧ l'.member.rounds ≤ l.finished := by
    rcases hcount with hsame | ⟨beat, hbeat, hsaid⟩
    · rw [hsame]
      exact ⟨le_rfl, hinv.behind⟩
    · rw [hsaid]
      exact hinv.written beat hbeat
  refine ⟨⟨hgrows.2.trans hfinished, fun beat hbeat => ?_, ?_, fun hne hdue => ?_⟩, hgrows.1⟩
  · rcases hwritten beat hbeat with hbefore | hnow
    · obtain ⟨hless, hdone⟩ := hinv.written beat hbefore
      refine ⟨?_, hdone.trans hfinished⟩
      rcases hcount with hsame | ⟨beat', hbeat', hsaid⟩
      · exact hsame.le.trans hless
      · obtain rfl : beat' = beat := Option.some.inj (hbeat'.symm.trans hbefore)
        exact hsaid.le
    · rw [hnow]
      exact ⟨hgrows.2, hfinished⟩
  · rcases hparses with ⟨-, hsame⟩ | ⟨hne, hdue, -, hparse⟩
    · rw [hsame]
      exact hinv.parsed.trans (Nat.add_le_add_left hgrows.1 _)
    · -- The file is parsed at a count it was not read at: a greater one, or the one still due.
      rw [hparse]
      rcases hgrows.1.lt_or_eq with hlt | heq
      · have hparsed := hinv.parsed
        omega
      · have hparsed := hinv.due (heq ▸ hne) (heq ▸ hdue)
        omega
  · rcases hparses with ⟨hread, hsame⟩ | ⟨-, -, hread, -⟩
    · rw [hsame]
      rcases hgrows.1.lt_or_eq with hlt | heq
      · have hparsed := hinv.parsed
        omega
      · rw [hread, ← heq] at hdue
        rw [← heq]
        exact hinv.due (heq ▸ hne) hdue
    · exact absurd hread hdue

/-! ### Over a whole life -/

variable {n : ℕ} {acts : ℕ → Act} {lives : ℕ → Life S}

/-- A life from its start: no round finished, no beat written, none counted. -/
structure Lived (R : Reading S) (n : ℕ) (acts : ℕ → Act) (lives : ℕ → Life S) : Prop where
  finished : (lives 0).finished = 0
  written : (lives 0).written = none
  rounds : (lives 0).member.rounds = 0
  next : ∀ k < n, Next R (acts k) (lives k) (lives (k + 1))

private theorem Lived.inv (h : Lived R n acts lives)
    (hright : ∀ k < n, (lives k).Right R (acts k).caught) :
    ∀ k ≤ n, Inv (lives 0).member.parses (lives k) := by
  intro k
  induction k with
  | zero =>
    intro _
    refine ⟨h.rounds.le.trans (Nat.zero_le _), fun beat hbeat => ?_, Nat.le_add_right _ _,
      fun hne => absurd h.rounds hne⟩
    rw [h.written] at hbeat
    cases hbeat
  | succ k ih =>
    intro hlt
    exact ((ih (Nat.le_of_succ_le hlt)).next (h.next k hlt) (hright k hlt)).1

private theorem Lived.grows (h : Lived R n acts lives)
    (hright : ∀ k < n, (lives k).Right R (acts k).caught) (k : ℕ) (hk : k < n) :
    (lives k).member.rounds ≤ (lives (k + 1)).member.rounds :=
  ((h.inv hright k hk.le).next (h.next k hk) (hright k hk)).2

/-- Once parsed, the file stays read at the count of then, or a later one. -/
theorem Lived.readAt (h : Lived R n acts lives)
    (hright : ∀ k < n, (lives k).Right R (acts k).caught) {i : ℕ}
    (hparses : Parses (lives i) (lives (i + 1))) (hi : i < n) : ∀ k ≤ n, i < k →
      ∃ count, (lives k).member.readAt = some count ∧ (lives (i + 1)).member.rounds ≤ count ∧
        count ≤ (lives k).member.rounds := by
  intro k hk hik
  -- Induction on the steps since: a parse later on is at the count of then, which has not gone
  -- down.
  induction k, hik using Nat.le_induction with
  | base =>
    rcases (h.next i hi).took.parses with ⟨-, hsame⟩ | ⟨-, -, hread, -⟩
    · rw [Parses, hsame] at hparses
      omega
    · exact ⟨_, hread, le_rfl, le_rfl⟩
  | succ k hle ih =>
    obtain ⟨count, hread, hfirst, hlast⟩ := ih (Nat.le_of_succ_le hk)
    have hgrows := h.grows hright k hk
    rcases (h.next k hk).took.parses with ⟨hsame, -⟩ | ⟨-, -, hread', -⟩
    · exact ⟨count, hsame.trans hread, hfirst, hlast.trans hgrows⟩
    · exact ⟨_, hread', hfirst.trans (hlast.trans hgrows), le_rfl⟩

/-- **No count is misstated in a process's life just where no listen catches a changed beat among
the digits of its count.** How beats are read is asked only of the beats this life writes, which
fit 64 bits: a reader may refuse one past them. -/
theorem faithful_iff (h : Lived R n acts lives)
    (hagrees : ∀ k < n, ∀ b, (lives k).written = some b → R.ReadsParts b) :
    Faithful R n acts lives ↔ ∀ k < n, ¬(lives k).Torn (acts k).caught := by
  constructor
  · intro hfaithful k hk
    exact (right_iff (hagrees k hk) (h.next k hk).catches).mp (hfaithful.right k hk)
  · intro hwhole
    have hright : ∀ k < n, (lives k).Right R (acts k).caught :=
      fun k hk => (right_iff (hagrees k hk) (h.next k hk).catches).mpr (hwhole k hk)
    refine ⟨hright, h.grows hright, fun i j hij hj hfirst hagain hsame => ?_, fun k hk => ?_⟩
    · -- The second time it is parsed at a count it was not read at, and it was read at the first
      -- time's.
      obtain ⟨count, hread, hfrom, hupto⟩ := h.readAt hright hfirst (hij.trans hj) j hj.le hij
      have hgrows := h.grows hright j hj
      rcases (h.next i (hij.trans hj)).took.parses with ⟨-, hnone⟩ | ⟨-, -, hat, -⟩
      · rw [Parses, hnone] at hfirst
        omega
      rcases (h.next j hj).took.parses with ⟨-, hnone⟩ | ⟨-, hdue, hat', -⟩
      · rw [Parses, hnone] at hagain
        omega
      have hcounts : some (lives (i + 1)).member.rounds = some (lives (j + 1)).member.rounds :=
        calc some (lives (i + 1)).member.rounds
            = (lives (i + 1)).member.readAt := hat.symm
          _ = (lives (j + 1)).member.readAt := hsame
          _ = some (lives (j + 1)).member.rounds := hat'
      have hcount := Option.some.inj hcounts
      refine hdue (hread.trans (congrArg some ?_))
      omega
    · have hinv := h.inv hright k hk
      exact hinv.parsed.trans (Nat.add_le_add_left hinv.behind _)

/-! ### A count of two digits -/

/-- Beats read as the lines they are; nothing else is read. -/
def lineReading : Reading Records := ⟨Beat.read, fun _ => none, [], id⟩

/-- A process finishes so many rounds and beats, and the cluster catches `cut` of the beat. -/
def cutActs (rounds : ℕ) (cut : Text) (k : ℕ) : Act :=
  if k < rounds then .round else if k = rounds then .beat 0 else .listen (some cut)

/-- The member that caught `cut`. -/
def caughtMember (cut : Text) : Member Records :=
  { Member.started ['n'] 0 with
    rounds := (Beat.read cut).elim 0 Beat.rounds, beat := some 0, beatText := cut }

/-- The life in which it does. -/
def cutLife (rounds : ℕ) (cut : Text) (k : ℕ) : Life Records :=
  if k ≤ rounds then ⟨k, none, .started ['n'] 0⟩
  else ⟨rounds, some ⟨0, rounds⟩, if k = rounds + 1 then .started ['n'] 0 else caughtMember cut⟩

private theorem runs_changed {cut : Text} (hne : cut ≠ []) :
    ((Member.started ['n'] 0).listen lineReading).Runs (catching (some cut)) () ()
      (caughtMember cut) () := by
  unfold Member.listen
  rw [Prog.perform_bind, Prog.runs_call]
  refine ⟨some cut, (), rfl, ?_⟩
  have hchanged : ¬cut = (Member.started ['n'] 0 : Member Records).beatText := hne
  dsimp only
  rw [if_neg hchanged, Prog.perform_bind, Prog.runs_call]
  exact ⟨0, (), trivial, .pure⟩

private theorem lived_cut {rounds : ℕ} {cut : Text} (hcut : cut <+: Beat.text ⟨0, rounds⟩)
    (hne : cut ≠ []) :
    Lived lineReading (rounds + 2) (cutActs rounds cut) (cutLife rounds cut) where
  finished := by
    rw [cutLife, if_pos (Nat.zero_le rounds)]
  written := by
    rw [cutLife, if_pos (Nat.zero_le rounds)]
  rounds := by
    rw [cutLife, if_pos (Nat.zero_le rounds)]
    rfl
  next k hk := by
    -- The rounds come first, then the beat, and last the one look at it.
    rcases Nat.lt_trichotomy k rounds with hlt | rfl | hgt
    · rw [cutActs, if_pos hlt, cutLife, if_pos hlt.le, cutLife, if_pos (Nat.succ_le_of_lt hlt)]
      rfl
    · rw [cutActs, if_neg (Nat.lt_irrefl k), if_pos rfl, cutLife, if_pos le_rfl, cutLife,
        if_neg (Nat.not_succ_le_self k), if_pos rfl]
      rfl
    · obtain rfl : k = rounds + 1 := by omega
      rw [cutActs, if_neg (by omega), if_neg (by omega), cutLife, if_neg (by omega), if_pos rfl,
        cutLife, if_neg (by omega), if_neg (by omega)]
      refine ⟨fun cut' heq => ⟨_, rfl, Option.some.inj heq ▸ hcut⟩, caughtMember cut, ?_, rfl⟩
      exact runs_changed hne

/-- What such a life catches torn: the cut, of the beat of all its rounds. -/
theorem torn_cut {rounds : ℕ} {cut : Text} (hne : cut ≠ []) :
    (∃ k < rounds + 2, (cutLife rounds cut k).Torn (cutActs rounds cut k).caught) ↔
      Beat.Torn ⟨0, rounds⟩ cut := by
  constructor
  · -- Only the last step catches anything, and what it catches is the cut.
    rintro ⟨k, hk, cut', beat, hcaught, -, hwritten, htorn⟩
    unfold cutActs at hcaught
    split_ifs at hcaught with hlt heq
    · cases hcaught
    · cases hcaught
    · obtain rfl : cut = cut' := Option.some.inj hcaught
      rw [cutLife, if_neg (by omega)] at hwritten
      obtain rfl : ⟨0, rounds⟩ = beat := Option.some.inj hwritten
      exact htorn
  · intro htorn
    refine ⟨rounds + 1, Nat.lt_succ_self _, cut, ⟨0, rounds⟩, ?_, ?_, ?_, htorn⟩
    · rw [cutActs, if_neg (by omega), if_neg (by omega)]
      rfl
    · rw [cutLife, if_neg (by omega), if_pos rfl]
      exact hne
    · rw [cutLife, if_neg (by omega)]

/-- A part of the beat of ten rounds, but not of its digits. -/
def unfinished : Text := "unix_nanos = 0\nrounds = ".toList

/-- A beat of ten rounds caught before its count misstates nothing; caught among the two digits of
its count, it does. -/
theorem faithful_iff_cut : Faithful lineReading 12 (cutActs 10 unfinished) (cutLife 10 unfinished) ∧
    ¬Faithful lineReading 12 (cutActs 10 (unfinished ++ ['1']))
      (cutLife 10 (unfinished ++ ['1'])) := by
  have hupto : Beat.upTo ⟨0, 10⟩ = unfinished := by decide
  have htext : unfinished ++ ['1'] <+: Beat.text ⟨0, 10⟩ :=
    hupto ▸ (List.prefix_append_right_inj _).mpr ⟨['0', '\n'], by decide⟩
  have hne : unfinished ≠ [] := List.cons_ne_nil _ _
  have hne' : unfinished ++ ['1'] ≠ [] := List.append_ne_nil_of_left_ne_nil hne _
  constructor
  · refine (faithful_iff (lived_cut ((List.prefix_append _ _).trans htext) hne)
      fun _ _ _ _ _ _ => rfl).mpr fun k hk htorn => ?_
    obtain ⟨digits, hdigits, -, -, heq⟩ := (torn_cut hne).mp ⟨k, hk, htorn⟩
    rw [hupto] at heq
    exact hdigits (List.append_cancel_left (heq.symm.trans (List.append_nil _).symm))
  · refine fun hfaithful => (torn_cut hne').mpr ⟨['1'], List.cons_ne_nil _ _, by decide, by decide,
      congrArg (· ++ ['1']) hupto.symm⟩ |>.elim fun k ⟨hk, htorn⟩ => ?_
    exact (faithful_iff (lived_cut htext hne') fun _ _ _ _ _ _ => rfl).mp hfaithful k hk htorn

/-- **A beat of ten rounds caught after the first digit of its count is a beat of one round**, and
the member takes that count. -/
theorem one_of_ten : ¬∀ (n : ℕ) (acts : ℕ → Act) (lives : ℕ → Life Records),
    Lived lineReading n acts lives → Faithful lineReading n acts lives := by
  intro h
  have htext : Beat.upTo ⟨0, 10⟩ ++ ['1'] <+: Beat.text ⟨0, 10⟩ :=
    (List.prefix_append_right_inj _).mpr ⟨['0', '\n'], by decide⟩
  have hne : Beat.upTo ⟨0, 10⟩ ++ ['1'] ≠ [] :=
    List.append_ne_nil_of_right_ne_nil _ (List.cons_ne_nil _ _)
  -- Ten rounds are finished, the next step beats, and the one after catches a lone one.
  have hfaithful := h 12 _ _ (lived_cut htext hne)
  obtain ⟨beat, hbeat, hcount⟩ := hfaithful.right 11 (by decide) 1 (by decide)
  cases hbeat
  exact absurd hcount (by decide)

end Life

end XmipEssentials
