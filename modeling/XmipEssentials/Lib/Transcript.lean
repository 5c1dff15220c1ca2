import XmipEssentials.Lib.Prog

/-!
# What a program was answered, call by call

A *transcript* of a program is the list of its calls in their order, each with the answer it was
given, and the result it then came to (`Prog.Told`). It says nothing of a state: every way of
answering has its transcript, so what holds of all the transcripts of a program holds whatever the
operations do.

* `Prog.told_bind` — the transcript of a sequence is that of its first part and then that of its
  second.
* `Prog.told_lift` — a program over some of the operations tells as it does alone.
-/

namespace Conc

universe u v

variable {Op : Type → Type u} {Op' : Type → Type v} {α β : Type}

/-- A call, and what it was answered. -/
structure Answered (Op : Type → Type u) : Type (max 1 u) where
  {Answer : Type}
  op : Op Answer
  reply : Answer

/-- The same call and answer, of more operations. -/
def Answered.lift (inj : ∀ ⦃β : Type⦄, Op β → Op' β) (one : Answered Op) : Answered Op' :=
  ⟨inj one.op, one.reply⟩

namespace Prog

/-- `p.Told calls a`: its calls answered so, one after another, `p` ends with `a`. -/
inductive Told : Prog Op α → List (Answered Op) → α → Prop
  | pure {a : α} : Told (.pure a) [] a
  | call {β : Type} {op : Op β} {next : β → Prog Op α} {calls : List (Answered Op)} {a : α} (b : β)
      (rest : Told (next b) calls a) : Told (.call op next) (⟨op, b⟩ :: calls) a

/-- The same program over more operations. -/
def lift (inj : ∀ ⦃β : Type⦄, Op β → Op' β) : Prog Op α → Prog Op' α
  | .pure a => .pure a
  | .call op next => .call (inj op) fun b => (next b).lift inj

theorem told_pure {a a' : α} {calls : List (Answered Op)} :
    (Prog.pure a : Prog Op α).Told calls a' ↔ calls = [] ∧ a' = a := by
  constructor
  · rintro ⟨⟩
    exact ⟨rfl, rfl⟩
  · rintro ⟨rfl, rfl⟩
    exact .pure

theorem told_call {op : Op β} {next : β → Prog Op α} {calls : List (Answered Op)} {a : α} :
    (Prog.call op next).Told calls a ↔ ∃ b rest, calls = ⟨op, b⟩ :: rest ∧
    (next b).Told rest a := by
  constructor
  · intro h
    cases h with
    | call b rest => exact ⟨b, _, rfl, rest⟩
  · rintro ⟨b, rest, rfl, h⟩
    exact .call b h

theorem told_perform_bind {op : Op α} {f : α → Prog Op β} {calls : List (Answered Op)} {b : β} :
    (perform op >>= f).Told calls b ↔ ∃ a rest, calls = ⟨op, a⟩ :: rest ∧ (f a).Told rest b :=
    told_call

theorem told_perform {op : Op α} {calls : List (Answered Op)} {a : α} :
    (perform op).Told calls a ↔ calls = [⟨op, a⟩] := by
  apply told_call.trans
  constructor
  · rintro ⟨b, rest, rfl, h⟩
    obtain ⟨rfl, rfl⟩ := told_pure.mp h
    rfl
  · rintro rfl
    exact ⟨a, [], rfl, .pure⟩

/-- The transcript of a sequence is one of its first part, and then one of its second. -/
theorem told_bind {p : Prog Op α} {f : α → Prog Op β} {calls : List (Answered Op)} {b : β} :
    (p >>= f).Told calls b ↔ ∃ a first rest, p.Told first a ∧ (f a).Told rest b ∧
    calls = first ++ rest := by
  -- Call by call of the first part.
  induction p generalizing calls with
  | pure a =>
    constructor
    · intro h
      exact ⟨a, [], calls, .pure, h, rfl⟩
    · rintro ⟨a', first, rest, hp, hf, rfl⟩
      obtain ⟨rfl, rfl⟩ := told_pure.mp hp
      exact hf
  | call op next ih =>
    rw [call_bind, told_call]
    constructor
    · rintro ⟨c, rest, rfl, h⟩
      obtain ⟨a, first, later, hp, hf, rfl⟩ := (ih c).mp h
      exact ⟨a, _, later, .call c hp, hf, rfl⟩
    · rintro ⟨a, first, rest, hp, hf, rfl⟩
      obtain ⟨c, later, rfl, hnext⟩ := told_call.mp hp
      exact ⟨c, _, rfl, (ih c).mpr ⟨a, later, rest, hnext, hf, rfl⟩⟩

/-- Over more operations, a program makes the same calls. -/
theorem told_lift {inj : ∀ ⦃β : Type⦄, Op β → Op' β} {p : Prog Op α} {calls : List (Answered Op')}
    {a : α} :
    (p.lift inj).Told calls a ↔ ∃ alone, p.Told alone a ∧
    calls = alone.map (Answered.lift inj) := by
  -- Call by call.
  induction p generalizing calls with
  | pure b =>
    refine told_pure.trans ⟨?_, ?_⟩
    · rintro ⟨rfl, rfl⟩
      exact ⟨[], .pure, rfl⟩
    · rintro ⟨alone, h, rfl⟩
      obtain ⟨rfl, rfl⟩ := told_pure.mp h
      exact ⟨rfl, rfl⟩
  | call op next ih =>
    refine told_call.trans ⟨?_, ?_⟩
    · rintro ⟨c, rest, rfl, h⟩
      obtain ⟨alone, hp, rfl⟩ := (ih c).mp h
      exact ⟨_, .call c hp, rfl⟩
    · rintro ⟨alone, h, rfl⟩
      obtain ⟨c, rest, rfl, hp⟩ := told_call.mp h
      exact ⟨c, _, rfl, (ih c).mpr ⟨rest, hp, rfl⟩⟩

/-- A transcript is one way the program can end. -/
theorem Told.comes {p : Prog Op α} {calls : List (Answered Op)} {a : α} (h : p.Told calls a) :
    p.Comes a := by
  induction h with
  | pure => exact .pure
  | call b rest ih => exact .call trivial ih

end Prog

end Conc
