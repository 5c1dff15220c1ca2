import Mathlib.Data.List.Induction
import Mathlib.Logic.Function.Basic

/-!
# Command lines of flags and values

A command line is a list of words, each flag followed by its value. A `Command` says which word is
which flag and what a value means under it; a command line is read from the left into one variable a
flag, and reading stops at the first word that cannot be read (`Command.read`).

What it accepts is just the pairs of a known flag and a value that flag can read, in any order and
any number, and each variable is then what the last value given for its flag means, or what it was
where none was given (`Command.read_eq_ok_iff`). What is written one flag a time reads back so
(`Command.read_written`).
-/

namespace Flags

/-- The flags of a command line by their words, the type of what each says, and what a value means
under a flag, or why it means nothing. -/
structure Command (Word Flag ε : Type) (Value : Flag → Type) where
  word : Flag → Word
  flag : Word → Option Flag
  flag_eq_some : ∀ w f, flag w = some f ↔ w = word f
  needs : Word → ε
  unknown : Word → ε
  reads : ∀ f, Word → Except ε (Value f)

variable {Word Flag ε : Type} {Value : Flag → Type}

section Last

variable [DecidableEq Flag]

/-- The last value given for a flag. -/
def lastOf (f : Flag) : List (Flag × Word) → Option Word
  | [] => none
  | pair :: pairs => (lastOf f pairs).or (if pair.1 = f then some pair.2 else none)

/-- No value of a flag that is not among the pairs. -/
theorem lastOf_eq_none {f : Flag} {pairs : List (Flag × Word)} :
    lastOf f pairs = none ↔ f ∉ pairs.map Prod.fst := by
  induction pairs with
  | nil => simp [lastOf]
  | cons pair pairs ih =>
    rw [lastOf, Option.or_eq_none_iff, ih, List.map_cons, List.mem_cons, not_or, and_comm]
    apply and_congr_left
    intro _
    by_cases h : pair.1 = f
    · simp [h]
    · simp [h, Ne.symm h]

/-- A pair of a flag given once is the last of it. -/
theorem lastOf_eq_some {f : Flag} {value : Word} {pairs : List (Flag × Word)}
    (hnodup : (pairs.map Prod.fst).Nodup) (hmem : (f, value) ∈ pairs) :
    lastOf f pairs = some value := by
  induction pairs with
  | nil => cases hmem
  | cons pair pairs ih =>
    rw [List.map_cons, List.nodup_cons] at hnodup
    rw [lastOf]
    rcases List.mem_cons.mp hmem with rfl | hmem
    · rw [lastOf_eq_none.mpr hnodup.1]
      simp
    · rw [ih hnodup.2 hmem]
      rfl

end Last

namespace Command

variable (C : Command Word Flag ε Value)

/-- The words of a list of flags with their values. -/
def written (pairs : List (Flag × Word)) : List Word :=
  pairs.flatMap fun pair => [C.word pair.1, pair.2]

@[simp] theorem written_cons (pair : Flag × Word) (pairs : List (Flag × Word)) :
    C.written (pair :: pairs) = C.word pair.1 :: pair.2 :: C.written pairs := rfl

variable [DecidableEq Flag]

/-- A command line read from the left into one variable a flag, or why its first word that cannot be
read cannot. -/
def read : List Word → (∀ f, Value f) → Except ε (∀ f, Value f)
  | [], given => .ok given
  | [w], _ => .error (C.needs w)
  | w :: value :: rest, given =>
    match C.flag w with
    | none => .error (C.unknown w)
    | some f =>
      match C.reads f value with
      | .error why => .error why
      | .ok said => read rest (Function.update given f said)

/-- What a flag's variable holds after pairs of flags and values, where it held `before` ahead of
them. -/
def Holds (pairs : List (Flag × Word)) {f : Flag} (before after : Value f) : Prop :=
  match lastOf f pairs with
  | some value => C.reads f value = .ok after
  | none => after = before

variable {C}

theorem holds_of_not_mem {pairs : List (Flag × Word)} {f : Flag} (h : f ∉ pairs.map Prod.fst)
    {before after : Value f} :
    C.Holds pairs before after ↔ after = before := by
  rw [Holds, lastOf_eq_none.mpr h]

theorem holds_of_mem {pairs : List (Flag × Word)} {f : Flag} {value : Word}
    (hnodup : (pairs.map Prod.fst).Nodup) (hmem : (f, value) ∈ pairs) {before after : Value f} :
    C.Holds pairs before after ↔ C.reads f value = .ok after := by
  rw [Holds, lastOf_eq_some hnodup hmem]

/-- One more pair ahead of the others sets its flag's variable, and what they hold is as from
there. -/
theorem holds_cons {pair : Flag × Word} {pairs : List (Flag × Word)} {given : ∀ f, Value f}
    {said : Value pair.1} (hsaid : C.reads pair.1 pair.2 = .ok said) (f : Flag) (after : Value f) :
    C.Holds (pair :: pairs) (given f) after ↔
    C.Holds pairs (Function.update given pair.1 said f) after := by
  obtain ⟨flag, value⟩ := pair
  rw [Holds, Holds, lastOf]
  cases lastOf f pairs with
  | some last => rfl
  | none =>
    by_cases h : flag = f
    · subst h
      rw [if_pos rfl, Function.update_self]
      show C.reads flag value = .ok after ↔ after = said
      rw [hsaid, Except.ok.injEq, eq_comm]
    · rw [if_neg h, Function.update_of_ne (Ne.symm h)]
      rfl

/-- **What a command line says.** It is accepted just where it is pairs of a known flag and a value
the flag can read; each variable is then what the last value given for its flag means, and what it
was where none was given. -/
theorem read_eq_ok_iff {args : List Word} {given given' : ∀ f, Value f} :
    C.read args given = .ok given' ↔ ∃ pairs, args = C.written pairs ∧
      (∀ pair ∈ pairs, ∃ said, C.reads pair.1 pair.2 = .ok said) ∧
      ∀ f, C.Holds pairs (given f) (given' f) := by
  constructor
  · -- By the words in twos, as they are read.
    intro h
    induction args, given using read.induct C with
    | case1 given =>
      obtain rfl := Except.ok.inj h
      exact ⟨[], rfl, fun _ h => absurd h List.not_mem_nil, fun f => rfl⟩
    -- A word alone, one that is no flag's, and a value that cannot be read each end the reading.
    | case2 w given => cases h
    | case3 w value rest given hflag =>
      rw [read, hflag] at h
      cases h
    | case4 w value rest given f hflag why hread =>
      rw [read, hflag] at h
      dsimp only at h
      rw [hread] at h
      cases h
    | case5 w value rest given f hflag said hread ih =>
      rw [read, hflag] at h
      dsimp only at h
      rw [hread] at h
      obtain ⟨pairs, rfl, hall, hholds⟩ := ih h
      obtain rfl := (C.flag_eq_some w f).mp hflag
      refine ⟨(f, value) :: pairs, rfl, List.forall_mem_cons.mpr ⟨⟨said, hread⟩, hall⟩, fun g => ?_⟩
      exact (holds_cons hread g _).mpr (hholds g)
  · -- The other way, the pairs are read as they were written.
    rintro ⟨pairs, rfl, hall, hholds⟩
    induction pairs generalizing given with
    | nil =>
      have heq : given' = given := funext hholds
      rw [heq]
      rfl
    | cons pair pairs ih =>
      obtain ⟨⟨said, hread⟩, hall⟩ := List.forall_mem_cons.mp hall
      rw [written_cons, read, (C.flag_eq_some _ _).mpr rfl]
      dsimp only
      rw [hread]
      exact ih hall fun f => (holds_cons hread f _).mp (hholds f)

/-- **What is written reads back**: each flag once, each value one the flag reads. -/
theorem read_written {pairs : List (Flag × Word)} {given given' : ∀ f, Value f}
    (hnodup : (pairs.map Prod.fst).Nodup)
    (hgiven : ∀ pair ∈ pairs, C.reads pair.1 pair.2 = .ok (given' pair.1))
    (hother : ∀ f, f ∉ pairs.map Prod.fst → given' f = given f) :
    C.read (C.written pairs) given = .ok given' := by
  refine read_eq_ok_iff.mpr ⟨pairs, rfl, fun pair hpair => ⟨_, hgiven pair hpair⟩, fun f => ?_⟩
  by_cases hmem : f ∈ pairs.map Prod.fst
  · obtain ⟨⟨f, value⟩, hpair, rfl⟩ := List.mem_map.mp hmem
    exact (holds_of_mem hnodup hpair).mpr (hgiven _ hpair)
  · exact (holds_of_not_mem hmem).mpr (hother f hmem)

end Command

end Flags
