import XmipEssentials.Cluster.Lives
import XmipEssentials.Cluster.Torn

/-!
# A node's heartbeat

A node beats when it starts, from a thread of its own for as long as it runs, and once more for each
round it finishes. The count of the rounds is kept behind a lock, and a beat is written with the
lock held: the file is emptied and filled a character at a time, and a reader may see it at any
point of that.

The threads run interleaved in any way, the cluster listening at any time among them.

* `Sound` — what holds between any two steps: the file is a part of one beat, of no more rounds than
  were counted, and of no fewer than any beat heard before.
* `Move` — all that a thread does to what the threads share; `Move.moves` is what the node so makes
  of the beats and publications a cluster reads.
-/

namespace XmipEssentials

open Text Conc

namespace Heartbeat

/-! ### The threads -/

/-- Who is at the beat file: the node, the thread that beats for it, and the cluster that
listens. -/
inductive Thread where
  | node
  | beating
  | cluster
  deriving DecidableEq

/-- A call, by what it answers. -/
inductive HeartOp : Type → Type where
  /-- The count of rounds is taken, once no other holds it. -/
  | lock : HeartOp Unit
  | unlock : HeartOp Unit
  | rounds : HeartOp Nat
  | add : HeartOp Unit
  | now : HeartOp Int
  /-- The beat file made, or emptied: whether it could be. -/
  | create : HeartOp Bool
  /-- One more character of it written. -/
  | put (c : Char) : HeartOp Bool
  | spawn : HeartOp Unit
  /-- The thread runs, once it was spawned. -/
  | begun : HeartOp Unit
  | park : HeartOp Unit
  | stopping : HeartOp Bool
  | stop : HeartOp Unit
  | leave : HeartOp Unit
  /-- The beating thread waited for. -/
  | join : HeartOp Unit
  /-- Whether the node leaves: it was told to stop, or its rounds are done. -/
  | leaves : HeartOp Bool
  /-- A round published: what was written, where it could be. -/
  | publish : HeartOp (Option Text)
  /-- The node goes on after its heartbeat's round. -/
  | returned : HeartOp Unit
  /-- The beat file read by the cluster, where it is there. -/
  | listen : HeartOp (Option Text)

/-- A text put into the file, as far as it can be. -/
def putAll : Text → Prog HeartOp Unit
  | [] => pure ()
  | c :: rest => do
    if ← Prog.perform (.put c) then putAll rest else pure ()

/-- A text written over the file. -/
def write (text : Text) : Prog HeartOp Unit := do
  if ← Prog.perform .create then putAll text else pure ()

/-- One beat, written over the last while the count is held. -/
def beat : Prog HeartOp Unit := do
  Prog.perform .lock
  let now ← Prog.perform .now
  let rounds ← Prog.perform .rounds
  write (Beat.text ⟨now, rounds⟩)
  Prog.perform .unlock

/-- Beat now, and from here on from a thread. -/
def start : Prog HeartOp Unit := do
  beat
  Prog.perform .spawn

/-- A round finished and was published: beat now, saying so. -/
def round : Prog HeartOp Unit := do
  Prog.perform .lock
  Prog.perform .add
  Prog.perform .unlock
  beat

/-- The heartbeat dropped: its thread is told, woken and waited for. -/
def drop : Prog HeartOp Unit := do
  Prog.perform .stop
  Prog.perform .join

/-- The beating thread once around: whether it goes on. -/
def beats : Prog HeartOp Bool := do
  Prog.perform .park
  if ← Prog.perform .stopping then
    Prog.perform .leave
    pure false
  else
    beat
    pure true

/-- The node once around: it leaves, or publishes a round and says so. -/
def rounds : Prog HeartOp Bool := do
  if ← Prog.perform .leaves then
    drop
    pure false
  else
    let _ ← Prog.perform .publish
    round
    Prog.perform .returned
    pure true

/-- What a thread does first. -/
def first : Thread → Prog HeartOp Bool
  | .node => start >>= fun _ => pure true
  | .beating => Prog.perform .begun >>= fun _ => pure true
  | .cluster => pure true

/-- What a thread does again and again, as long as it goes on. -/
def again : Thread → Bool → Option (Prog HeartOp Bool)
  | _, false => none
  | .node, true => some rounds
  | .beating, true => some beats
  | .cluster, true => some (Prog.perform .listen >>= fun _ => pure true)

/-! ### What they share -/

/-- The count behind its lock, the files, and what of the threads one waits for. The rounds
published, those the node went on from and what the cluster heard are noted. -/
structure Pulse where
  count : Nat
  holder : Option Thread
  file : Option Text
  spawned : Bool
  stopping : Bool
  left : Bool
  published : Nat
  publication : Option Text
  returned : Nat
  heard : List (Option Text)

/-- Before the node starts: the file as the process before left it. -/
def Pulse.before (file publication : Option Text) : Pulse :=
  ⟨0, none, file, false, false, false, 0, publication, 0, []⟩

variable {S : Type}

/-- What a call does; where `sure`, every write succeeds. What is published reads as a
publication. -/
def exec (R : Reading S) (sure : Bool) : Exec Thread HeartOp Pulse
  | i, _, .lock, s, _, s' => s.holder = none ∧ s' = { s with holder := some i }
  | _, _, .unlock, s, _, s' => s' = { s with holder := none }
  | _, _, .rounds, s, rounds, s' => rounds = s.count ∧ s' = s
  | _, _, .add, s, _, s' => s' = { s with count := s.count + 1 }
  | _, _, .now, s, now, s' => Beat.FitsTime now ∧ s' = s
  | _, _, .create, s, ok, s' =>
    (sure = true → ok = true) ∧ s' = if ok then { s with file := some [] } else s
  | _, _, .put c, s, ok, s' =>
    (sure = true → ok = true) ∧ s' = if ok then { s with file := s.file.map (· ++ [c]) } else s
  | _, _, .spawn, s, _, s' => s' = { s with spawned := true }
  | _, _, .begun, s, _, s' => s.spawned = true ∧ s' = s
  | _, _, .park, s, _, s' => s' = s
  | _, _, .stopping, s, stopping, s' => stopping = s.stopping ∧ s' = s
  | _, _, .stop, s, _, s' => s' = { s with stopping := true }
  | _, _, .leave, s, _, s' => s' = { s with left := true }
  | _, _, .join, s, _, s' => s.left = true ∧ s' = s
  | _, _, .leaves, s, _, s' => s' = s
  | _, _, .publish, s, none, s' => sure = false ∧ s' = s
  | _, _, .publish, s, some text, s' =>
    (R.node text).isSome ∧ s' = { s with published := s.published + 1, publication := some text }
  | _, _, .returned, s, _, s' => s' = { s with returned := s.returned + 1 }
  | _, _, .listen, s, heard, s' => heard = s.file ∧ s' = { s with heard := s.heard ++ [heard] }

/-- The threads before any of them moved. -/
def begin (file publication : Option Text) : Config Thread HeartOp Bool Pulse :=
  ⟨Pulse.before file publication, first⟩

/-! ### What holds between any two steps -/

/-- The file is a whole beat, of as many rounds as were counted or fewer, but no fewer than
these. -/
def Whole (least : Nat) (s : Pulse) : Prop :=
  ∃ b : Beat, s.file = some b.text ∧ least ≤ b.rounds ∧ b.rounds ≤ s.count

/-- A whole beat of this process was caught. -/
def Caught (old caught : Option Text) (b : Beat) : Prop := caught ≠ old ∧ caught = some b.text

variable (sure : Bool) (old : Option Text)

/-- What holds of what the threads share. -/
structure Sound (s : Pulse) : Prop where
  part : s.file = old ∨ ∃ b cut, s.file = some cut ∧ cut <+: Beat.text b ∧ b.rounds ≤ s.count ∧
    ∀ x ∈ s.heard, ∀ b', Caught old x b' → b'.rounds ≤ b.rounds
  heard : ∀ x ∈ s.heard, ∀ b, Caught old x b → b.rounds ≤ s.count
  order : s.heard.Pairwise fun x y => ∀ b b', Caught old x b → Caught old y b' →
    b.rounds ≤ b'.rounds
  returned : s.returned ≤ s.count
  count : s.count ≤ s.returned + 1
  whole : sure = true → s.holder = none → s.spawned = true → Whole s.returned s
  holder : s.holder ≠ some .cluster
  left : s.left = true → s.holder ≠ some .beating

variable (R : Reading S)

/-- What a thread does to what they share, in one step. -/
inductive Move : Thread → Pulse → Pulse → Prop where
  | lock {i : Thread} {s : Pulse} (free : s.holder = none) (who : i ≠ .cluster)
      (here : s.left = true → i ≠ .beating) : Move i s { s with holder := some i }
  /-- The count is let go of; by the beating thread, with a beat that says it. -/
  | unlock {i : Thread} {s : Pulse} (held : s.holder = some i)
      (whole : sure = true → s.spawned = true → Whole s.returned s)
      (said : sure = true → i ≠ .node → Whole s.count s) : Move i s { s with holder := none }
  | add {s : Pulse} (held : s.holder = some .node) (turn : s.count = s.returned)
      (due : sure = true → s.published = s.count + 1) :
      Move .node s { s with count := s.count + 1 }
  | write {i : Thread} {s : Pulse} {text : Text} (now : Int) (held : s.holder = some i)
      (fits : Beat.FitsTime now) (part : text <+: Beat.text ⟨now, s.count⟩) :
      Move i s { s with file := some text }
  | spawn {s : Pulse} (whole : sure = true → s.holder = none → Whole s.returned s) :
      Move .node s { s with spawned := true }
  | publish {s : Pulse} {text : Text} (reads : (R.node text).isSome)
      (due : sure = true → s.published = s.count) :
      Move .node s { s with published := s.published + 1, publication := some text }
  | returned {s : Pulse} (counted : s.returned + 1 ≤ s.count)
      (whole : sure = true → s.holder = none → Whole (s.returned + 1) s) :
      Move .node s { s with returned := s.returned + 1 }
  | stop {s : Pulse} : Move .node s { s with stopping := true }
  | leave {s : Pulse} (free : s.holder ≠ some .beating) : Move .beating s { s with left := true }
  | listen {s : Pulse} : Move .cluster s { s with heard := s.heard ++ [s.file] }
  | rest {i : Thread} {s : Pulse} : Move i s s

variable {sure old R} {s s' : Pulse} {i : Thread}

private theorem Whole.mono {least least' : Nat} (h : Whole least s) (hle : least' ≤ least) :
    Whole least' s := by
  obtain ⟨b, hfile, hleast, hcount⟩ := h
  exact ⟨b, hfile, hle.trans hleast, hcount⟩

/-- A beat within another is the other, up to when it was. -/
theorem rounds_of_prefix {b b' : Beat} (h : b'.text <+: b.text) : b'.rounds = b.rounds := by
  by_contra hne
  obtain ⟨nanos, -, hread⟩ := Beat.read_upTo b' (List.prefix_refl (decimal b'.rounds))
  rw [parseNat_decimal] at hread
  have htorn : b.Torn b'.text := (Beat.read_cut_iff b h).mp ⟨_, hread, hne⟩
  obtain ⟨digits, hdigits, hpart, -, heq⟩ := htorn
  -- A whole beat ends with a line break, a torn one with a digit.
  have hlast : b'.text.getLast? = some '\n' := by
    rw [Beat.text, ← List.append_assoc, List.getLast?_append]
    rfl
  rw [heq, List.getLast?_append, List.getLast?_eq_some_getLast hdigits] at hlast
  have hmem := List.getLast_mem hdigits
  rw [Option.some.inj hlast] at hmem
  exact absurd (decimal_isDigit (hpart.subset hmem)) (by decide)

/-- What was heard of a part of a beat is no more than the beat. -/
theorem caught_le {b b' : Beat} {cut : Text} (hcut : cut <+: b.text)
    (h : Caught old (some cut) b') :
    b'.rounds = b.rounds := by
  have heq : cut = b'.text := Option.some.inj h.2
  exact rounds_of_prefix (heq ▸ hcut)

/-- A beat heard now was heard whole, or as the process before left it. -/
theorem Sound.listen (h : Sound sure old s) :
    Sound sure old { s with heard := s.heard ++ [s.file] } := by
  -- What is caught now is no older than anything heard before, as it is of the beat on file.
  have hfile : ∀ b', Caught old s.file b' → b'.rounds ≤ s.count ∧
      ∀ x ∈ s.heard, ∀ b, Caught old x b → b.rounds ≤ b'.rounds := by
    intro b' hcaught
    rcases h.part with hold | ⟨b, cut, hcut, hpart, hle, hbefore⟩
    · exact absurd hold hcaught.1
    · have hsame : b'.rounds = b.rounds := caught_le hpart (hcut ▸ hcaught)
      rw [hsame]
      exact ⟨hle, hbefore⟩
  refine ⟨?_, fun x hx b hcaught => ?_, ?_, h.returned, h.count, h.whole, h.holder, h.left⟩
  · -- What is on file is heard, so the beat it is of is now one of those heard.
    rcases h.part with hold | ⟨b, cut, hcut, hpart, hle, hbefore⟩
    · exact .inl hold
    · refine .inr ⟨b, cut, hcut, hpart, hle, fun x hx b' hcaught => ?_⟩
      rcases List.mem_append.mp hx with hx | hx
      · exact hbefore x hx b' hcaught
      · obtain rfl := List.mem_singleton.mp hx
        exact (caught_le hpart (hcut ▸ hcaught)).le
  · rcases List.mem_append.mp hx with hx | hx
    · exact h.heard x hx b hcaught
    · obtain rfl := List.mem_singleton.mp hx
      exact (hfile b hcaught).1
  · -- What was heard before is in order, and what is heard now comes last.
    refine List.pairwise_append.mpr ⟨h.order, List.pairwise_singleton _ _,
      fun x hx y hy b b' hb hb' => ?_⟩
    obtain rfl := List.mem_singleton.mp hy
    exact (hfile b' hb').2 x hx b hb

/-- **What holds between any two steps is kept by each.** -/
theorem Sound.move (h : Sound sure old s) (hmove : Move sure R i s s') : Sound sure old s' := by
  cases hmove with
  -- each move leaves what it does not touch; those that move the count say that it grows
  | lock free who here =>
    refine ⟨h.part, h.heard, h.order, h.returned, h.count, ?_, ?_, fun hleft heq => ?_⟩
    · rintro - ⟨⟩
    · intro heq
      exact who (Option.some.inj heq)
    · exact here hleft (Option.some.inj heq)
  | unlock held whole said =>
    exact ⟨h.part, h.heard, h.order, h.returned, h.count, fun hsure _ => whole hsure, nofun,
      fun _ => nofun⟩
  | add held turn due =>
    refine ⟨?_, fun x hx b hcaught => Nat.le_succ_of_le (h.heard x hx b hcaught), h.order,
      Nat.le_succ_of_le h.returned, Nat.succ_le_succ turn.le, fun _ hnone => ?_, h.holder, h.left⟩
    · rcases h.part with hold | ⟨b, cut, hcut, hpart, hle, hbefore⟩
      · exact .inl hold
      · exact .inr ⟨b, cut, hcut, hpart, Nat.le_succ_of_le hle, hbefore⟩
    · rw [held] at hnone
      cases hnone
  -- a part of the present beat is written, and no beat heard was of more rounds
  | @write _ _ text now held _ part =>
    refine ⟨.inr ⟨⟨now, s.count⟩, text, rfl, part, Nat.le_refl _, fun x hx b => h.heard x hx b⟩,
      h.heard, h.order, h.returned, h.count, fun _ hnone => ?_, h.holder, h.left⟩
    rw [held] at hnone
    cases hnone
  | spawn whole =>
    exact ⟨h.part, h.heard, h.order, h.returned, h.count, fun hsure hnone _ => whole hsure hnone,
      h.holder, h.left⟩
  | publish reads due => exact ⟨h.part, h.heard, h.order, h.returned, h.count, h.whole, h.holder,
      h.left⟩
  | returned counted whole =>
    exact ⟨h.part, h.heard, h.order, counted, Nat.le_succ_of_le h.count,
      fun hsure hnone _ => whole hsure hnone, h.holder, h.left⟩
  | stop => exact ⟨h.part, h.heard, h.order, h.returned, h.count, h.whole, h.holder, h.left⟩
  | leave free => exact ⟨h.part, h.heard, h.order, h.returned, h.count, h.whole, h.holder,
      fun _ => free⟩
  -- what is heard is what the file holds
  | listen => exact h.listen
  | rest => exact h

private theorem sound_before (publication : Option Text) :
    Sound sure old (Pulse.before old publication) where
  part := .inl rfl
  heard := nofun
  order := .nil
  returned := Nat.le_refl _
  count := Nat.zero_le _
  whole := fun _ _ hspawned => nomatch hspawned
  holder := nofun
  left := nofun

/-! ### A thread among the others -/

variable (sure old R) in
/-- The proof outline of the threads at the beat file. -/
def outline : Outline Thread HeartOp Pulse := .ofMoves (exec R sure) (Sound sure old) (Move sure R)

variable (sure old R i) in
/-- The others' moves leave it so. -/
def Stable (P : Pulse → Prop) : Prop :=
  ∀ j s s', j ≠ i → Sound sure old s' → Move sure R j s s' → P s → P s'

variable {P Q : Pulse → Prop}

private theorem Stable.rely (h : Stable sure old R i P) (hrely : (outline sure old R).rely i s s')
    (hP : P s) : P s' :=
  Outline.ofMoves_stable (Q := P)
    (fun j _ _ hne _ hsound hmove hbefore => h j _ _ hne hsound hmove hbefore) hrely hP

theorem Stable.and (hP : Stable sure old R i P) (hQ : Stable sure old R i Q) :
    Stable sure old R i fun s => P s ∧ Q s :=
  fun j s s' hne hsound hmove h => ⟨hP j s s' hne hsound hmove h.1, hQ j s s' hne hsound hmove h.2⟩

/-- One call: from whatever the others led to, a move, and what follows is safe. -/
theorem safe_call {α β : Type} {op : HeartOp β} {next : β → Prog HeartOp α}
    {post : α → Pulse → Prop} (hstable : Stable sure old R i P) (hP : P s)
    (hnext : ∀ t b t', Sound sure old t → P t → exec R sure i op t b t' →
      Move sure R i t t' ∧ (Sound sure old t' → (outline sure old R).Safe i post (next b) t')) :
    (outline sure old R).Safe i post (.call op next) s := by
  intro t hrely hsound b t' did
  obtain ⟨hmove, hsafe⟩ := hnext t b t' hsound (hstable.rely hrely hP) did
  have hsound' := hsound.move hmove
  exact ⟨hsound', hmove, hsafe hsound'⟩

/-- The end of a program. -/
theorem safe_pure {α : Type} {a : α} (hstable : Stable sure old R i P) (hP : P s) :
    (outline sure old R).Safe i (fun _ => P) (Prog.pure a) s :=
  fun _ hrely _ => hstable.rely hrely hP

/-- While a thread holds the count, the count and the file are as it leaves them. -/
theorem stable_held (count : Nat) (file : Option Text) :
    Stable sure old R i fun s => s.holder = some i ∧ s.count = count ∧ s.file = file := by
  rintro j t t' hne - hmove ⟨hholder, hcount, hfile⟩
  have hother : t.holder ≠ some j := by
    rw [hholder]
    intro heq
    exact hne (Option.some.inj heq).symm
  cases hmove with
  | lock free => exact absurd (hholder.symm.trans free) nofun
  | unlock held => exact absurd held hother
  | add held => exact absurd held hother
  | write now held => exact absurd held hother
  | _ => exact ⟨hholder, hcount, hfile⟩

/-- What a thread lets go of, the others do not take for it. -/
theorem stable_free : Stable sure old R i fun s => s.holder ≠ some i := by
  rintro j t t' hne - hmove hfree
  cases hmove with
  | lock free => exact fun heq => hne (Option.some.inj heq)
  | unlock held => exact nofun
  | _ => exact hfree

/-! ### A beat -/

/-- What a beat leaves as it is, whoever holds the count and whatever the file is. -/
def Apart (P : Pulse → Prop) : Prop :=
  ∀ s, (∀ holder, P s → P { s with holder := holder }) ∧ ∀ file, P s → P { s with file := file }

variable (sure i P) in
/-- What a write leaves: the count still held and, where every write succeeds, the file as it was to
be. -/
def Written (count : Nat) (text : Text) (s : Pulse) : Prop :=
  (s.holder = some i ∧ P s) ∧ (sure = true → s.count = count ∧ s.file = some text)

private theorem stable_written {count : Nat} {text : Text} (hP : Stable sure old R i P) :
    Stable sure old R i (Written sure i P count text) := by
  rintro j t t' hne hsound hmove ⟨⟨hholder, hPt⟩, hsaid⟩
  obtain ⟨hholder', hcount, hfile⟩ :=
    stable_held t.count t.file j t t' hne hsound hmove ⟨hholder, rfl, rfl⟩
  refine ⟨⟨hholder', hP j t t' hne hsound hmove hPt⟩, fun hsure => ?_⟩
  rw [hcount, hfile]
  exact hsaid hsure

/-- Where a write fails, nothing is promised of the file. -/
theorem written_of_failed {count : Nat} {text : Text} (hsure : sure = true → false = true)
    (hholder : s.holder = some i) (hP : P s) : Written sure i P count text s :=
  ⟨⟨hholder, hP⟩, fun heq => absurd (hsure heq) Bool.false_ne_true⟩

/-- A text written as far as it goes, which is all the way where every write succeeds. -/
theorem safe_putAll {now : Int} (hnow : Beat.FitsTime now) {count : Nat}
    (hP : Stable sure old R i P) (hapart : Apart P) (text written : Text)
    (htext : written ++ text = Beat.text ⟨now, count⟩)
    (h : (s.holder = some i ∧ s.count = count ∧ s.file = some written) ∧ P s) :
    (outline sure old R).Safe i (fun _ => Written sure i P count (Beat.text ⟨now, count⟩))
    (putAll text) s := by
  induction text generalizing written s with
  | nil =>
    rw [List.append_nil] at htext
    exact safe_pure (stable_written hP) ⟨⟨h.1.1, h.2⟩, fun _ => ⟨h.1.2.1, htext ▸ h.1.2.2⟩⟩
  | cons c text ih =>
    -- An empty write is whole; any other puts one character after another, each of which may fail.
    apply safe_call ((stable_held count (some written)).and hP) h
    intro t ok t' _ ht did
    obtain ⟨⟨hholder, hcount, hfile⟩, hPt⟩ := ht
    obtain ⟨hsure, rfl⟩ := did
    cases ok with
    | false =>
      -- A failed write ends it, and then the file is part of the beat.
      exact ⟨.rest, fun _ => safe_pure (stable_written hP) (written_of_failed hsure hholder hPt)⟩
    | true =>
      have hafter : { t with file := t.file.map (· ++ [c]) } =
        { t with file := some (written ++ [c]) } := by
        rw [hfile]
        rfl
      have htext' : (written ++ [c]) ++ text = Beat.text ⟨now, count⟩ := by
        rw [← htext, List.append_assoc, List.singleton_append]
      -- With one more character the file is still a beginning of the beat.
      rw [if_pos rfl, hafter]
      refine ⟨.write now hholder hnow ?_,
        fun _ => ih (written ++ [c]) htext' ⟨⟨hholder, hcount, rfl⟩, ?_⟩⟩
      · rw [hcount, ← htext']
        exact List.prefix_append _ _
      · exact (hapart t).2 _ hPt

private theorem safe_write {now : Int} (hnow : Beat.FitsTime now) {count : Nat} {file : Option Text}
    (hP : Stable sure old R i P) (hapart : Apart P)
    (h : (s.holder = some i ∧ s.count = count ∧ s.file = file) ∧ P s) :
    (outline sure old R).Safe i (fun _ => Written sure i P count (Beat.text ⟨now, count⟩))
      (write (Beat.text ⟨now, count⟩)) s := by
  apply safe_call ((stable_held count file).and hP) h
  intro t ok t' _ ht did
  obtain ⟨⟨hholder, hcount, hfile⟩, hPt⟩ := ht
  obtain ⟨hsure, rfl⟩ := did
  cases ok with
  | false =>
    exact ⟨.rest, fun _ => safe_pure (stable_written hP) (written_of_failed hsure hholder hPt)⟩
  | true =>
    refine ⟨.write now hholder hnow (List.nil_prefix ..), fun _ => ?_⟩
    exact safe_putAll hnow hP hapart _ [] rfl ⟨⟨hholder, hcount, rfl⟩, (hapart t).2 _ hPt⟩

/-- What was written last is a beat of the count. -/
theorem Written.whole {count : Nat} {now : Int}
    (h : Written sure i P count (Beat.text ⟨now, count⟩) s) (hsure : sure = true) :
    Whole s.count s := by
  obtain ⟨hcount, hfile⟩ := h.2 hsure
  exact ⟨⟨now, count⟩, hfile, hcount.le, hcount.ge⟩

/-- **A beat** ends with the count let go of and, where every write succeeds, with the file saying
it. -/
theorem safe_beat (hP : Stable sure old R i P) (hapart : Apart P) (hwho : i ≠ .cluster)
    (hleft : ∀ t, P t → t.left = true → i ≠ .beating) (hQ : Stable sure old R i Q)
    (hend : ∀ t, P t → t.holder = none → (sure = true → Whole t.count t) → Q t) (h : P s) :
    (outline sure old R).Safe i (fun _ => Q) beat s := by
  apply safe_call hP h
  intro t _ t' _ hPt did
  obtain ⟨hfree, rfl⟩ := did
  refine ⟨.lock hfree hwho (hleft t hPt), fun _ => ?_⟩
  have hPlocked := (hapart t).1 (some i) hPt
  -- The clock and the count are read while the count is held.
  refine safe_call ((stable_held t.count t.file).and hP) ⟨⟨rfl, rfl, rfl⟩, hPlocked⟩
    fun u now u' _ hu did => ?_
  obtain ⟨hnow, rfl⟩ := did
  refine ⟨.rest, fun _ => safe_call ((stable_held t.count t.file).and hP) hu
    fun v count v' _ hv did => ?_⟩
  obtain ⟨rfl, rfl⟩ := did
  refine ⟨.rest, fun hsound => ?_⟩
  rw [hv.1.2.1]
  apply (safe_write hnow hP hapart hv).bind hsound
  intro _ w _ hw
  apply safe_call (stable_written hP) hw
  intro x _ x' hsoundx hx did
  obtain rfl := did
  refine ⟨.unlock hx.1.1 (fun hsure _ => (hx.whole hsure).mono hsoundx.returned)
    (fun hsure _ => hx.whole hsure), fun _ => safe_pure hQ ?_⟩
  exact hend _ ((hapart x).1 none hx.1.2) rfl hx.whole

/-! ### The node -/

/-- What only the node moves. -/
def Mine (count returned published : Nat) (spawned : Bool) (s : Pulse) : Prop :=
  s.count = count ∧ s.returned = returned ∧ s.published = published ∧ s.spawned = spawned

private theorem stable_mine {count returned published : Nat} {spawned : Bool} :
    Stable sure old R .node (Mine count returned published spawned) := by
  rintro j t t' hne - hmove ht
  cases hmove with
  | lock | unlock | write | leave | listen | rest => exact ht
  | add | spawn | publish | returned | stop => exact absurd rfl hne

private theorem apart_mine {count returned published : Nat} {spawned : Bool} :
    Apart (Mine count returned published spawned) := fun _ => ⟨fun _ h => h, fun _ h => h⟩

variable (sure) in
/-- The node does not hold the count; and the file says it, unless a beat is being written. -/
def Said (s : Pulse) : Prop :=
  s.holder ≠ some .node ∧ (sure = true → s.holder = none → Whole s.count s)

private theorem stable_said : Stable sure old R .node (Said sure) := by
  rintro j t t' hne hsound hmove ⟨hfree, hwhole⟩
  refine ⟨stable_free j t t' hne hsound hmove hfree, fun hsure hnone => ?_⟩
  cases hmove with
  | lock free => cases hnone
  | unlock held _ said => exact said hsure hne
  | write now held =>
    rw [held] at hnone
    cases hnone
  | add | spawn | publish | returned | stop => exact absurd rfl hne
  | leave | listen | rest => exact hwhole hsure hnone

private theorem safe_nodeBeat {count returned published : Nat} {spawned : Bool}
    (h : Mine count returned published spawned s) :
    (outline sure old R).Safe .node (fun _ t => Mine count returned published spawned t ∧
      Said sure t) beat s := by
  refine safe_beat stable_mine apart_mine nofun (fun _ _ _ => nofun) (stable_mine.and stable_said)
    (fun t ht hnone hwhole => ⟨ht, ?_, fun hsure _ => hwhole hsure⟩) h
  rw [hnone]
  exact nofun

variable (sure) in
/-- The node between two rounds: it went on from every round it counted. -/
def Ready (s : Pulse) : Prop :=
  ∃ count published, (Mine count count published true s ∧ Said sure s) ∧
    (sure = true → published = count)

private theorem stable_ready : Stable sure old R .node (Ready sure) := by
  rintro j t t' hne hsound hmove ⟨count, published, h, hdue⟩
  exact ⟨count, published, (stable_mine.and stable_said) j t t' hne hsound hmove h, hdue⟩

private theorem safe_start (h : Mine 0 0 0 false s) (hsound : Sound sure old s) :
    (outline sure old R).Safe .node (fun _ => Ready sure) start s := by
  apply (safe_nodeBeat h).bind hsound
  intro _ t _ ht
  apply safe_call (stable_mine.and stable_said) ht
  intro u _ u' hsoundu hu did
  obtain rfl := did
  obtain ⟨⟨hcount, hreturned, hpublished, -⟩, hsaid⟩ := hu
  refine ⟨.spawn fun hsure hnone => (hsaid.2 hsure hnone).mono hsoundu.returned,
    fun _ => safe_pure stable_ready ?_⟩
  exact ⟨0, 0, ⟨⟨hcount, hreturned, hpublished, rfl⟩, hsaid⟩, fun _ => rfl⟩

/-- A round counted and said. -/
theorem safe_round {count published : Nat} (hdue : sure = true → published = count + 1)
    (h : Mine count count published true s) : (outline sure old R).Safe .node
      (fun _ t => Mine (count + 1) count published true t ∧ Said sure t) round s := by
  apply safe_call stable_mine h
  intro t _ t' hsoundt ht did
  obtain ⟨hfree, rfl⟩ := did
  obtain ⟨hcount, hreturned, hpublished, hspawned⟩ := ht
  refine ⟨.lock hfree nofun fun _ => nofun, fun _ => ?_⟩
  have hbefore : sure = true → Whole t.returned t := fun hsure => hsoundt.whole hsure hfree hspawned
  -- The file is as it was found until the count is let go of again.
  refine safe_call ((stable_held t.count t.file).and stable_mine)
    ⟨⟨rfl, rfl, rfl⟩, hcount, hreturned, hpublished, hspawned⟩ fun u _ u' _ hu did => ?_
  obtain rfl := did
  obtain ⟨⟨hheld, hcountu, hfileu⟩, -, hreturnedu, hpublishedu, hspawnedu⟩ := hu
  have hadd : sure = true → u.published = u.count + 1 := by
    intro hsure
    rw [hpublishedu, hcountu, hcount, hdue hsure]
  refine ⟨.add hheld (hcountu.trans (hcount.trans hreturnedu.symm)) hadd, fun _ => ?_⟩
  refine safe_call ((stable_held (t.count + 1) t.file).and stable_mine)
    ⟨⟨hheld, congrArg (· + 1) hcountu, hfileu⟩, congrArg (· + 1) (hcountu.trans hcount), hreturnedu,
      hpublishedu,
      hspawnedu⟩ fun v _ v' _ hv did => ?_
  obtain rfl := did
  obtain ⟨⟨hheldv, hcountv, hfilev⟩, hmine⟩ := hv
  refine ⟨.unlock hheldv (fun hsure _ => ?_) fun _ hnode => absurd rfl hnode,
    fun _ => safe_nodeBeat hmine⟩
  obtain ⟨b, hfile, hleast, hle⟩ := hbefore hsure
  refine ⟨b, hfilev.trans hfile, ?_, ?_⟩
  · rw [hmine.2.1, ← hreturned]
    exact hleast
  · rw [hcountv]
    exact Nat.le_succ_of_le hle

variable (sure) in
/-- What a thread's program leaves, as it goes on or not. -/
def post : Thread → Bool → Pulse → Prop
  | .node, goesOn, s => Ready sure s ∧ (goesOn = false → s.left = true)
  | .beating, goesOn, s =>
    goesOn = true → (s.spawned = true ∧ s.left = false) ∧ s.holder ≠ some .beating
  | .cluster, _, _ => True

/-- The node's program ended. -/
theorem safe_nodeEnd {goesOn : Bool} (h : post sure .node goesOn s) :
    (outline sure old R).Safe .node (post sure .node) (Prog.pure goesOn) s := by
  refine Outline.Safe.of_post h fun t hrely _ h => ⟨stable_ready.rely hrely h.1, fun hends => ?_⟩
  have hleft : Stable sure old R .node fun s => s.left = true := by
    rintro j x x' hne - hmove hx
    cases hmove with
    | leave => rfl
    | _ => exact hx
  exact hleft.rely hrely (h.2 hends)

private theorem safe_rounds (h : Ready sure s) :
    (outline sure old R).Safe .node (post sure .node) rounds s := by
  -- The loop asks first whether it is told to leave.
  apply safe_call stable_ready h
  intro t leaves t' _ ht did
  obtain rfl : t' = t := did
  refine ⟨.rest, fun _ => ?_⟩
  cases leaves with
  | true =>
    -- It then tells the beating thread to stop, and waits until that one has left.
    apply safe_call stable_ready ht
    intro u _ u' _ hu did
    obtain rfl := did
    refine ⟨.stop, fun _ => safe_call stable_ready hu fun v _ v' _ hv did => ?_⟩
    obtain ⟨hleft, rfl⟩ := did
    exact ⟨.rest, fun _ => safe_nodeEnd ⟨hv, fun _ => hleft⟩⟩
  | false =>
    -- It publishes a round next, which may fail where nothing is sure.
    apply safe_call stable_ready ht
    intro u publication u' _ hu did
    obtain ⟨count, published, ⟨hmine, hsaid⟩, hdue⟩ := hu
    have hround {published : Nat} (hdue : sure = true → published = count + 1) (v : Pulse)
        (hv : Mine count count published true v) (hsoundv : Sound sure old v) :
        (outline sure old R).Safe .node (post sure .node)
          (round >>= fun _ => Prog.perform .returned >>= fun _ => pure true) v := by
      -- The round is counted and beaten, and only then returned from.
      apply (safe_round hdue hv).bind hsoundv
      intro _ w _ hw
      apply safe_call (stable_mine.and stable_said) hw
      intro x _ x' _ hx did
      obtain rfl := did
      obtain ⟨⟨hcount, hreturned, hpublished, hspawned⟩, hsaid⟩ := hx
      refine ⟨.returned (by rw [hcount, hreturned]) fun hsure hnone => ?_, fun _ => ?_⟩
      · rw [hreturned, ← hcount]
        exact hsaid.2 hsure hnone
      · refine safe_nodeEnd ⟨?_, nofun⟩
        exact ⟨count + 1, published,
          ⟨⟨hcount, congrArg (· + 1) hreturned, hpublished, hspawned⟩, hsaid⟩, hdue⟩
    cases publication with
    -- A round that was not published is counted all the same.
    | none =>
      obtain ⟨hunsure, rfl⟩ := did
      refine ⟨.rest, fun hsound => hround (fun hsure => ?_) _ hmine hsound⟩
      rw [hunsure] at hsure
      cases hsure
    -- A round that was published is one ahead of what is counted, until it is counted.
    | some text =>
      obtain ⟨hreads, rfl⟩ := did
      obtain ⟨hcount, hreturned, hpublished, hspawned⟩ := hmine
      refine ⟨.publish hreads fun hsure => ?_, fun hsound => ?_⟩
      · rw [hpublished, hcount, hdue hsure]
      · exact hround (fun hsure => congrArg (· + 1) (hdue hsure)) _
          ⟨hcount, hreturned, congrArg (· + 1) hpublished, hspawned⟩ hsound

/-! ### All three -/

/-- The beating thread runs, and has not left. -/
def Beats (s : Pulse) : Prop := s.spawned = true ∧ s.left = false

private theorem stable_beats : Stable sure old R .beating Beats := by
  rintro j t t' hne - hmove ⟨hspawned, hleft⟩
  cases hmove with
  | leave => exact absurd rfl hne
  | spawn => exact ⟨rfl, hleft⟩
  | _ => exact ⟨hspawned, hleft⟩

private theorem safe_beats (h : Beats s ∧ s.holder ≠ some .beating) :
    (outline sure old R).Safe .beating (post sure .beating) beats s := by
  have hstable : Stable sure old R .beating fun s => Beats s ∧ s.holder ≠ some .beating :=
    stable_beats.and stable_free
  apply safe_call hstable h
  intro t _ t' _ ht did
  obtain rfl : t' = t := did
  -- The beating thread rests, and then asks whether it is to stop.
  refine ⟨.rest, fun _ => safe_call hstable ht fun u stopping u' _ hu did => ?_⟩
  obtain ⟨rfl, rfl⟩ := did
  refine ⟨.rest, fun hsound => ?_⟩
  cases hstopping : u'.stopping with
  -- It leaves only with the lock free.
  | true =>
    apply safe_call hstable hu
    intro v _ v' _ hv did
    obtain rfl := did
    exact ⟨.leave hv.2, fun _ => fun _ _ _ hgoesOn => nomatch hgoesOn⟩
  -- Otherwise it beats once, and goes on.
  | false =>
    have hapart : Apart Beats := fun _ => ⟨fun _ h => h, fun _ h => h⟩
    refine (safe_beat stable_beats hapart nofun (fun t ht hleft => ?_) hstable
      (fun t ht hnone _ => ⟨ht, ?_⟩) hu.1).bind hsound fun _ v _ hv => ?_
    · rw [ht.2] at hleft
      cases hleft
    · rw [hnone]
      exact nofun
    · exact Outline.Safe.of_post (fun _ => hv) fun w hrely _ _ _ => hstable.rely hrely hv

private theorem holds_begin (publication : Option Text) :
    (outline sure old R).Holds (post sure) (begin old publication) where
  inv := sound_before publication
  safe i := by
    -- Each thread is safe from its first call.
    cases i with
    | node =>
      refine (safe_start ⟨rfl, rfl, rfl, rfl⟩ (sound_before publication)).bind
        (sound_before publication) fun _ t _ ht => safe_nodeEnd ⟨ht, nofun⟩
    -- Until its process has been spawned nothing is left, and the beating thread holds nothing.
    | beating =>
      have hstable : Stable sure old R .beating fun s => s.left = false ∧
        s.holder ≠ some .beating := by
        refine Stable.and (fun j t t' hne _ hmove hleft => ?_) stable_free
        cases hmove with
        | leave => exact absurd rfl hne
        | _ => exact hleft
      -- It waits for the spawn, and then beats.
      refine safe_call hstable ⟨rfl, nofun⟩ fun t _ t' _ ht did => ?_
      obtain ⟨hspawned, rfl⟩ := did
      refine ⟨.rest, fun _ => Outline.Safe.of_post (fun _ => ⟨⟨hspawned, ht.1⟩, ht.2⟩)
        fun u hrely _ h hgoesOn => ?_⟩
      exact (stable_beats.and stable_free).rely hrely (h hgoesOn)
    | cluster => exact fun _ _ _ => trivial

private theorem safe_again {r : Bool} {p : Prog HeartOp Bool} (h : post sure i r s)
    (hanew : again i r = some p) :
    (outline sure old R).Safe i (post sure i) p s := by
  -- A thread goes on only where its last turn said so.
  cases r with
  | false => cases i <;> cases hanew
  | true =>
    cases i with
    | node =>
      cases hanew
      exact safe_rounds h.1
    | beating =>
      cases hanew
      exact safe_beats (h rfl)
    | cluster =>
      cases hanew
      refine safe_call (P := fun _ => True) (fun _ _ _ _ _ _ h => h) trivial fun t _ t' _ _ did =>
        ?_
      obtain ⟨rfl, rfl⟩ := did
      exact ⟨.listen, fun _ => fun _ _ _ => trivial⟩

variable {publication : Option Text} {c c' : Config Thread HeartOp Bool Pulse}

/-- However the threads interleave, what holds of each goes on holding. -/
theorem holds_of_steps (h : Steps (exec R sure) again (begin old publication) c) :
    (outline sure old R).Holds (post sure) c :=
  (holds_begin publication).steps (fun _ _ _ _ _ => safe_again) h

/-! ### What the file says -/

/-- **A finished round is said, and the last is never lost.** Where every write succeeds: whenever
no beat is being written the file is one whole beat, of every round the node went on from and of no
more than were counted, which is one more at most; and once the node has left, of all its rounds. -/
theorem file_says (h : Steps (exec R true) again (begin old publication) c) :
    (c.shared.spawned = true → c.shared.holder = none → ∃ b : Beat, c.shared.file = some b.text ∧
      c.shared.returned ≤ b.rounds ∧ b.rounds ≤ c.shared.count ∧
      c.shared.count ≤ c.shared.returned + 1) ∧
    (c.prog .node = .pure false → c.shared.holder = none ∧ c.shared.count = c.shared.returned ∧
      ∃ b : Beat, c.shared.file = some b.text ∧ b.rounds = c.shared.returned) := by
  have hholds := holds_of_steps h
  have hsound : Sound true old c.shared := hholds.inv
  constructor
  · intro hspawned hfree
    obtain ⟨b, hfile, hleast, hle⟩ := hsound.whole rfl hfree hspawned
    exact ⟨b, hfile, hleast, hle, hsound.count⟩
  · intro hended
    obtain ⟨⟨count, published, ⟨⟨hcount, hreturned, -⟩, hfree, hwhole⟩, -⟩, hleft⟩ :=
      hholds.ended hended
    -- The beating thread has left, the node does not hold the count, and the cluster never does.
    have hnone : c.shared.holder = none := by
      cases hholder : c.shared.holder with
      | none => rfl
      | some i =>
        cases i with
        | node => exact absurd hholder hfree
        | beating => exact absurd hholder (hsound.left (hleft rfl))
        | cluster => exact absurd hholder hsound.holder
    obtain ⟨b, hfile, hleast, hle⟩ := hwhole rfl hnone
    have hsame : c.shared.count = c.shared.returned := hcount.trans hreturned.symm
    exact ⟨hnone, hsame, b, hfile, hsame ▸ le_antisymm hle hleast⟩

/-- **Beats are never written over each other, and never heard to say fewer.** Whatever writes fail:
the file is the one the process before left or a part of a single beat of no more rounds than were
counted, and of the whole beats the cluster heard none says fewer rounds than one heard before
it. -/
theorem beats_apart (h : Steps (exec R sure) again (begin old publication) c) :
    (c.shared.file = old ∨ ∃ (b : Beat) (cut : Text), c.shared.file = some cut ∧ cut <+: b.text ∧
      b.rounds ≤ c.shared.count) ∧
    (c.shared.heard.Pairwise fun x y => ∀ b b', Caught old x b → Caught old y b' →
      b.rounds ≤ b'.rounds) ∧
    ∀ x ∈ c.shared.heard, ∀ b, Caught old x b → b.rounds ≤ c.shared.count := by
  have hsound : Sound sure old c.shared := (holds_of_steps h).inv
  refine ⟨?_, hsound.order, hsound.heard⟩
  rcases hsound.part with hold | ⟨b, cut, hcut, hpart, hle, -⟩
  · exact .inl hold
  · exact .inr ⟨b, cut, hcut, hpart, hle⟩

/-! ### The node a cluster reads -/

/-- A part of a beat says no more rounds than the beat. -/
theorem read_le {b said : Beat} {cut : Text} (hcut : cut <+: b.text)
    (h : Beat.read cut = some said) :
    said.rounds ≤ b.rounds := by
  by_cases hsame : said.rounds = b.rounds
  · exact hsame.le
  · obtain ⟨digits, hne, hdigits, hproper, rfl⟩ := (Beat.read_cut_iff b hcut).mp ⟨said, h, hsame⟩
    obtain ⟨n, hn, hless⟩ := parseNat_cut hne hdigits hproper
    obtain ⟨nanos, hread, -⟩ := Beat.read_upTo b hdigits
    rw [hread, hn] at h
    cases h
    exact hless.le

/-- A running node as its files show it. -/
structure Mirrors (s : Pulse) (n : Site) : Prop where
  running : n.running = true
  published : n.done = s.published
  counted : n.counted = s.count
  publication : n.file = s.publication
  beat : n.beatFile.map Prod.snd = s.file

/-- What a thread does is what the node may do, as the cluster reads it. -/
theorem Move.moves (hagrees : ∀ b : Beat, b.Fits → R.ReadsParts b) (hcount : s.count < 2 ^ 64)
    (hmove : Move true R i s s') {n : Site} (h : Mirrors s n) :
    ∃ n', n.Moves R n' ∧ Mirrors s' n' := by
  -- What writes, counts or publishes moves the node's files; all else leaves them as they are.
  cases hmove with
  -- A beat caught reads as the count it was written with, or less.
  | @write _ _ text now held fits part =>
    refine ⟨_, .single (.beat n text h.running fun b hread => ?_), h.running, h.published,
      h.counted, h.publication, rfl⟩
    rw [hagrees ⟨now, s.count⟩ ⟨fits, hcount⟩ text part] at hread
    exact h.counted ▸ read_le part hread
  -- What is counted was published before it.
  | add held turn due =>
    refine ⟨_, .single (.count n h.running), h.running, h.published, ?_, h.publication, h.beat⟩
    exact h.published.trans (due rfl)
  -- What is published is one ahead of the count.
  | @publish _ text reads due =>
    refine ⟨_, .single (.publish n text h.running ?_ reads), h.running,
      congrArg (· + 1) h.published, h.counted, rfl, h.beat⟩
    rw [h.published, h.counted, due rfl]
  -- Locks, stops and listening leave the node's files as they are.
  | lock | unlock | spawn | returned | stop | leave | listen | rest =>
    exact ⟨n, .refl, h.running, h.published, h.counted, h.publication, h.beat⟩

private theorem Move.count_le (hmove : Move sure R i s s') : s.count ≤ s'.count := by
  cases hmove with
  | add => exact Nat.le_succ _
  | _ => exact Nat.le_refl _

/-- **A heartbeat is the node a cluster judges.** Where every write succeeds and the rounds counted
fit 64 bits, whatever the interleaving: to who reads its two files the node made only the moves of a
node that publishes a round before it counts it and beats with no more than it counted, a beat seen
in part included. -/
theorem site_moves (hagrees : ∀ b : Beat, b.Fits → R.ReadsParts b)
    (h : Steps (exec R true) again (begin old publication) c) (hcount : c.shared.count < 2 ^ 64)
    {n : Site} (hn : Mirrors (Pulse.before old publication) n) :
    ∃ n', n.Moves R n' ∧ Mirrors c.shared n' := by
  have hbegun : (outline true old R).Holds (post true) (begin old publication) :=
    holds_begin publication
  have hpath := (hbegun.guaranteed (fun _ _ _ _ _ => safe_again) h).1
  generalize c.shared = t at hpath hcount ⊢
  induction hpath with
  | refl => exact ⟨n, .refl, hn⟩
  | tail _ hmove ih =>
    obtain ⟨i, -, -, hmove⟩ := hmove
    have hbefore := hmove.count_le.trans_lt hcount
    obtain ⟨n', hmoves, hmirrors⟩ := ih hbefore
    obtain ⟨n'', hmoves', hmirrors'⟩ := hmove.moves hagrees hbefore hmirrors
    exact ⟨n'', hmoves.trans hmoves', hmirrors'⟩

/-! ### A node of one round -/

/-- A part of a text put into the file. -/
theorem leads_putAll (part rest written : Text) (h : s.file = some written) :
    (putAll (part ++ rest)).Leads (exec R sure) i s (putAll rest)
      { s with file := some (written ++ part) } := by
  induction part generalizing written s with
  | nil =>
    rw [List.append_nil, ← h]
    exact .refl
  | cons c part ih =>
    have hrest := ih (s := { s with file := some (written ++ [c]) }) (written ++ [c]) rfl
    rw [List.append_assoc, List.singleton_append] at hrest
    refine .call (b := true) ⟨fun _ => rfl, ?_⟩ hrest
    rw [if_pos rfl, h]
    rfl

/-- A beat as far as a part of it has been written. -/
theorem leads_beat {now : Int} (hnow : Beat.FitsTime now) {part rest : Text}
    (htext : Beat.text ⟨now, s.count⟩ = part ++ rest) (hfree : s.holder = none) :
    beat.Leads (exec R sure) i s (putAll rest >>= fun _ => Prog.perform .unlock)
      { s with holder := some i, file := some part } := by
  have hwrite : (write (Beat.text ⟨now, s.count⟩)).Leads (exec R sure) i
      { s with holder := some i } (putAll rest)
      { s with holder := some i, file := some part } := by
    rw [htext]
    exact .call (b := true) ⟨fun _ => rfl, rfl⟩ (leads_putAll part rest [] rfl)
  exact .call (b := ()) ⟨hfree, rfl⟩ (.call (b := now) ⟨hnow, rfl⟩
    (.call (b := s.count) ⟨rfl, rfl⟩ (hwrite.bind _)))

/-- The rest of a beat written, and the count let go of. -/
theorem leads_rest {part : Text} (rest : Text) (h : s.file = some part) :
    (putAll rest >>= fun _ => Prog.perform .unlock).Leads (exec R sure) i s (.pure ())
      { s with holder := none, file := some (part ++ rest) } := by
  have hput : (putAll (rest ++ [])).Leads (exec R sure) i s (putAll [])
      { s with file := some (part ++ rest) } := leads_putAll rest [] part h
  rw [List.append_nil] at hput
  exact (hput.bind _).trans (.call (b := ()) rfl .refl)

/-- A beat of no round; and a beat of one, up to where it is caught and from there. -/
def noneBeat : Text := Beat.text ⟨0, 0⟩

def cutBeat : Text := "unix_nanos".toList

def restBeat : Text := " = 7\nrounds = 1\n".toList

/-- Beats read as the lines they are; whatever is published reads as a publication. -/
def publishing : Reading Records := ⟨Beat.read, fun _ => some (Snapshot.new, []), [], id⟩

/-- The node has started, and its first beat was heard. -/
def started : Pulse :=
  { Pulse.before none none with file := some noneBeat, spawned := true, heard := [some noneBeat] }

/-- A round was published and counted, and the beat that says it was heard half written. -/
def halfway : Pulse :=
  { started with
    count := 1
    holder := some .node
    file := some cutBeat
    published := 1
    publication := some ['p']
    heard := [some noneBeat, some cutBeat] }

/-- What the node still has to run there. -/
def resumes : Prog HeartOp Bool :=
  (putAll restBeat >>= fun _ => Prog.perform .unlock) >>= fun _ =>
    Prog.perform .returned >>= fun _ => .pure true

private theorem fitsTime_seven : Beat.FitsTime 7 := ⟨by decide, by decide⟩

/-- What the cluster does again and again. -/
theorem leads_listen (s : Pulse) : (Prog.perform .listen >>= fun _ => Prog.pure true).Leads
    (exec R sure) .cluster s (.pure true) { s with heard := s.heard ++ [s.file] } :=
  .call (b := s.file) ⟨rfl, rfl⟩ .refl

private theorem steps_halfway (sure : Bool) : ∃ prog,
    Steps (exec publishing sure) again (begin none none) ⟨halfway, prog⟩ ∧ prog .node = resumes ∧
      prog .beating = .pure true ∧ prog .cluster = .pure true := by
  -- The first beat is written whole before anything is listened to.
  have hopened : beat.Leads (exec publishing sure) .node (Pulse.before none none)
      (putAll noneBeat >>= fun _ => Prog.perform .unlock)
      { Pulse.before none none with holder := some .node, file := some [] } :=
    leads_beat (⟨by decide, by decide⟩ : Beat.FitsTime 0) rfl rfl
  have hempty : { Pulse.before none none with holder := some .node, file := some [] }.file =
    some [] := rfl
  have hbeat : beat.Leads (exec publishing sure) .node (Pulse.before none none) (.pure ())
      { Pulse.before none none with file := some noneBeat } :=
    hopened.trans (leads_rest noneBeat hempty)
  have hspawned : start.Leads (exec publishing sure) .node (Pulse.before none none) (.pure ())
      { started with heard := [] } := (hbeat.bind _).trans (.call (b := ()) rfl .refl)
  have hstart : (first .node).Leads (exec publishing sure) .node (Pulse.before none none)
      (.pure true) { started with heard := [] } := hspawned.bind fun _ => .pure true
  -- The beating thread sees the process spawned.
  have hbegun : (first .beating).Leads (exec publishing sure) .beating started (.pure true)
      started := .call (b := ()) ⟨rfl, rfl⟩ .refl
  -- The second beat is cut off in the middle of its text.
  have hcut : beat.Leads (exec publishing sure) .node
      { started with published := 1, publication := some ['p'], count := 1 }
      (putAll restBeat >>= fun _ => Prog.perform .unlock)
      { halfway with heard := [some noneBeat] } :=
    leads_beat fitsTime_seven (by decide) rfl
  have hround : rounds.Leads (exec publishing sure) .node started resumes
      { halfway with heard := [some noneBeat] } :=
    .call (b := false) rfl (.call (b := some ['p']) ⟨rfl, rfl⟩
      (Prog.Leads.bind (.call (b := ()) ⟨rfl, rfl⟩ (.call (b := ()) rfl
        (.call (b := ()) rfl hcut))) _))
  -- The cluster listens once before the round and once after the cut.
  have hstarted := hstart.steps again (f := first) rfl
  have hheard := hstarted.trans ((leads_listen _).again rfl rfl)
  have hbeating := hheard.trans (hbegun.steps again rfl)
  have hcounted := hbeating.trans (hround.again rfl rfl)
  exact ⟨_, hcounted.trans ((leads_listen _).again rfl rfl), rfl, rfl, rfl⟩

/-- The node has left after its round, of which the whole beat was heard. -/
def leftAfter : Pulse :=
  { halfway with
    holder := none
    file := some (cutBeat ++ restBeat)
    stopping := true
    left := true
    returned := 1
    heard := [some noneBeat, some cutBeat, some (cutBeat ++ restBeat)] }

private theorem steps_leftAfter : ∃ prog,
    Steps (exec publishing true) again (begin none none) ⟨leftAfter, prog⟩ ∧
      prog .node = .pure false := by
  obtain ⟨prog, hsteps, hnode, hbeating, hcluster⟩ := steps_halfway true
  -- The beat is finished, and the round returned from.
  have hresumes : resumes.Leads (exec publishing true) .node halfway (.pure true)
      { halfway with holder := none, file := some (cutBeat ++ restBeat), returned := 1 } :=
    ((leads_rest restBeat rfl).bind _).trans (.call (b := ()) rfl .refl)
  -- Told to leave, the node stops the beating thread, which leaves, and is joined.
  have hleaves : rounds.Leads (exec publishing true) .node
      { leftAfter with stopping := false, left := false } (.call .join fun _ => .pure false)
      { leftAfter with left := false } := .call (b := true) rfl (.call (b := ()) rfl .refl)
  have hstops : beats.Leads (exec publishing true) .beating { leftAfter with left := false }
      (.pure false) leftAfter :=
    .call (b := ()) rfl (.call (b := true) ⟨rfl, rfl⟩ (.call (b := ()) rfl .refl))
  have hjoin : (Prog.call .join fun _ => Prog.pure false).Leads (exec publishing true) .node
      leftAfter (.pure false) leftAfter := .call (b := ()) ⟨rfl, rfl⟩ .refl
  have hreturned := hsteps.trans (hresumes.steps again hnode)
  have hheard := hreturned.trans ((leads_listen _).again
    ((Function.update_of_ne (by decide) _ _).trans hcluster) rfl)
  have hleaving := hheard.trans (hleaves.again (r := true) rfl rfl)
  have hstopped := hleaving.trans (hstops.again (r := true) (by
    rw [Function.update_of_ne (by decide), Function.update_of_ne (by decide),
      Function.update_of_ne (by decide), hbeating]) rfl)
  exact ⟨_, hstopped.trans (hjoin.steps again rfl), rfl⟩

/-- A node of one round says it once it has left, a reader having caught the beat half written. -/
theorem file_says_leftAfter : leftAfter.heard = [some noneBeat, some cutBeat, leftAfter.file] ∧
    (∃ b : Beat, leftAfter.file = some b.text ∧ 1 ≤ b.rounds ∧ b.rounds ≤ 1 ∧ 1 ≤ 1 + 1) ∧
    ∃ b : Beat, leftAfter.file = some b.text ∧ b.rounds = 1 := by
  obtain ⟨prog, hsteps, hended⟩ := steps_leftAfter
  have hspoken := file_says hsteps
  exact ⟨rfl, hspoken.1 rfl rfl, (hspoken.2 hended).2.2⟩

/-- The beat could be written no further, and the node went on; the thread that beats for it wrote
one whole, which was heard, and is at its next. -/
def goneOn : Pulse :=
  { halfway with
    holder := some .beating
    returned := 1
    heard := [some noneBeat, some cutBeat, some (cutBeat ++ restBeat)] }

private theorem steps_goneOn :
    ∃ prog, Steps (exec publishing false) again (begin none none) ⟨goneOn, prog⟩ := by
  obtain ⟨prog, hsteps, hnode, hbeating, hcluster⟩ := steps_halfway false
  -- The write fails, and the beat stays cut.
  have hfailed : resumes.Leads (exec publishing false) .node halfway (.pure true)
      { halfway with holder := none, returned := 1 } :=
    .call (b := false) ⟨nofun, rfl⟩ (.call (b := ()) rfl (.call (b := ()) rfl .refl))
  -- The beating thread then writes the same beat, cut first and whole at last.
  have hcut (s : Pulse) (hcount : s.count = 1) (hfree : s.holder = none) :
      beat.Leads (exec publishing false) .beating s
        (putAll restBeat >>= fun _ => Prog.perform .unlock)
        { s with holder := some .beating, file := some cutBeat } :=
    leads_beat fitsTime_seven (by rw [hcount]; decide) hfree
  have hbeats (s : Pulse) (hgoes : s.stopping = false) (hcount : s.count = 1)
      (hfree : s.holder = none) :
      beats.Leads (exec publishing false) .beating s
        ((putAll restBeat >>= fun _ => Prog.perform .unlock) >>= fun _ => .pure true)
        { s with holder := some .beating, file := some cutBeat } :=
    .call (b := ()) rfl (.call (b := false) ⟨hgoes.symm, rfl⟩ ((hcut s hcount hfree).bind _))
  have hbeaten := (hbeats { halfway with holder := none, returned := 1 } rfl rfl rfl).trans
    ((leads_rest restBeat rfl).bind _)
  -- The cluster listens again once the beat is whole, and the next beat is cut once more.
  have hreturned := hsteps.trans (hfailed.steps again hnode)
  have hwhole := hreturned.trans (hbeaten.again (r := true)
    ((Function.update_of_ne (by decide) _ _).trans hbeating) rfl)
  have hheard := hwhole.trans ((leads_listen _).again (r := true) (by
    rw [Function.update_of_ne (by decide), Function.update_of_ne (by decide), hcluster]) rfl)
  exact ⟨_, hheard.trans ((hbeats _ rfl rfl rfl).again (r := true) (by
    rw [Function.update_of_ne (by decide), Function.update_self]
    rfl) rfl)⟩

/-- A write that failed half way and one that is half way leave a part of a single beat each. -/
theorem beats_apart_goneOn :
    (∃ (b : Beat) (cut : Text), goneOn.file = some cut ∧ cut <+: b.text ∧ b.rounds ≤ 1) ∧
    (goneOn.heard.Pairwise fun x y => ∀ b b', Caught none x b → Caught none y b' →
      b.rounds ≤ b'.rounds) ∧ ∀ x ∈ goneOn.heard, ∀ b, Caught none x b → b.rounds ≤ 1 := by
  obtain ⟨prog, hsteps⟩ := steps_goneOn
  obtain ⟨hfile, horder, hheard⟩ := beats_apart hsteps
  exact ⟨hfile.resolve_left nofun, horder, hheard⟩

/-- A node that has just been started, before its first beat. -/
def unbeaten : Site := ⟨1, true, 0, 0, [], none, none, [], 0, 0⟩

/-- The node of one round as its files show it: one round published and counted, and its beat. -/
theorem site_moves_leftAfter : ∃ n', unbeaten.Moves publishing n' ∧ n'.done = 1 ∧ n'.counted = 1 ∧
    n'.beatFile.map Prod.snd = some (cutBeat ++ restBeat) := by
  obtain ⟨prog, hsteps, -⟩ := steps_leftAfter
  obtain ⟨n', hmoves, hmirrors⟩ := site_moves (fun _ _ _ _ => rfl) hsteps
    (Nat.one_lt_two_pow (by decide)) (n := unbeaten) ⟨rfl, rfl, rfl, rfl, rfl⟩
  exact ⟨n', hmoves, hmirrors.published, hmirrors.counted, hmirrors.beat⟩

end Heartbeat

end XmipEssentials
