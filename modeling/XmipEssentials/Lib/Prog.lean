import Mathlib.Logic.Relation
import Mathlib.Logic.Function.Basic
import Mathlib.Order.Defs.Unbundled
import Mathlib.Data.List.Forall2

/-!
# Programs that share a state, and what holds while they interleave

A program is a tree of calls to operations: each node names an operation and says how the program
goes on with the answer (`Prog`). The operations act on a state that several threads share, each
call being one atomic step (`Exec`). A `Config` is that state and what every thread still has to
run; `Step` lets any one thread take its next call, or begin again where it had come to an end.

Two ways of running are defined and used:

* `Prog.Runs` — one thread alone, from its first call to its result;
* `Step` — any interleaving of all the threads.

The second is reasoned about by *rely and guarantee*. An `Outline` says what every shared state
satisfies (`inv`), what a thread may count on while the others move (`rely`), and what it promises
of its own steps (`guar`). `Outline.Safe` is the proof outline of what a thread still has to run,
and `Outline.Holds.step` is its soundness: an outline kept by every thread is kept by every
interleaving.
-/

namespace Conc

universe u

variable {ι σ ρ α β γ : Type} {Op : Type → Type u}

/-! ### Programs -/

/-- A program over the operations `Op`, ending in an `α`. -/
inductive Prog (Op : Type → Type u) (α : Type) : Type (max 1 u) where
  /-- The program has ended. -/
  | pure (a : α) : Prog Op α
  /-- Call `op`, and go on with its answer. -/
  | call {β : Type} (op : Op β) (next : β → Prog Op α) : Prog Op α

namespace Prog

/-- Run `p`, then what `f` makes of its result. -/
def bind : Prog Op α → (α → Prog Op β) → Prog Op β
  | .pure a, f => f a
  | .call op next, f => .call op fun b => (next b).bind f

instance : Monad (Prog Op) where
  pure := Prog.pure
  bind := Prog.bind

/-- The program of one call. -/
def perform (op : Op β) : Prog Op β := .call op .pure

/-- Run `f` on each of the items in turn, and collect the results. -/
def each (f : α → Prog Op β) : List α → Prog Op (List β)
  | [] => .pure []
  | a :: l => (f a).bind fun b => (each f l).bind fun bs => .pure (b :: bs)

/-- Run `f` on each of the items in turn, from what the one before left, until one says to stop. -/
def foldUntil {ε : Type} (f : β → α → Prog Op (β × Option ε)) : List α → β → Prog Op (β × Option ε)
  | [], b => .pure (b, none)
  | a :: l, b => (f b a).bind fun r =>
    match r.2 with
    -- what was come to so far is kept
    | some e => .pure (r.1, some e)
    | none => foldUntil f l r.1

@[simp] theorem pure_bind (a : α) (f : α → Prog Op β) :
    (Pure.pure a : Prog Op α) >>= f = f a := rfl

@[simp] theorem pure'_bind (a : α) (f : α → Prog Op β) : (Prog.pure a) >>= f = f a := rfl

@[simp] theorem call_bind (op : Op γ) (next : γ → Prog Op α) (f : α → Prog Op β) :
    (Prog.call op next) >>= f = .call op fun b => next b >>= f := rfl

@[simp] theorem perform_bind (op : Op α) (f : α → Prog Op β) :
    perform op >>= f = .call op f := rfl

theorem bind_assoc (p : Prog Op α) (f : α → Prog Op β) (g : β → Prog Op γ) :
    p >>= f >>= g = p >>= fun a => f a >>= g := by
  induction p with
  | pure a => rfl
  | call op next ih =>
    change Prog.call op _ = Prog.call op _
    congr 1
    funext b
    exact ih b

theorem bind_pure (p : Prog Op α) : p >>= Prog.pure = p := by
  induction p with
  | pure a => rfl
  | call op next ih =>
    change Prog.call op _ = Prog.call op _
    congr 1
    funext b
    exact ih b

instance : LawfulMonad (Prog Op) :=
  LawfulMonad.mk' (Prog Op) (fun p => bind_pure p) (fun _ _ => rfl) bind_assoc

end Prog

/-! ### What an operation does -/

/-- What an operation called by a thread may do: `exec i op s b s'` when, from the shared state
`s`, the call of `op` by thread `i` may answer `b` and leave `s'`. -/
abbrev Exec (ι : Type) (Op : Type → Type u) (σ : Type) : Type (max 1 u) :=
  ι → ⦃β : Type⦄ → Op β → σ → β → σ → Prop

/-- Every operation answers, whatever the state. -/
def Exec.Total (exec : Exec ι Op σ) : Prop :=
  ∀ i ⦃β : Type⦄ (op : Op β) s, ∃ b s', exec i op s b s'

/-! ### One thread alone -/

/-- `p.Runs exec i s a s'`: run by thread `i` with no other thread moving, `p` may end with `a`,
taking the shared state from `s` to `s'`. -/
inductive Prog.Runs (exec : Exec ι Op σ) (i : ι) : Prog Op α → σ → α → σ → Prop where
  | pure {a : α} {s : σ} : Runs exec i (.pure a) s a s
  | call {β : Type} {op : Op β} {next : β → Prog Op α} {s s' s'' : σ} {b : β} {a : α}
      (did : exec i op s b s') (rest : Runs exec i (next b) s' a s'') :
      Runs exec i (.call op next) s a s''

namespace Prog

variable {exec : Exec ι Op σ} {i : ι}

theorem runs_pure {a a' : α} {s s' : σ} :
    (Prog.pure a : Prog Op α).Runs exec i s a' s' ↔ a' = a ∧ s' = s :=
  ⟨fun h => by cases h; exact ⟨rfl, rfl⟩, fun ⟨ha, hs⟩ => by subst ha; subst hs; exact .pure⟩

theorem runs_call {op : Op β} {next : β → Prog Op α} {a : α} {s s'' : σ} :
    (Prog.call op next).Runs exec i s a s'' ↔
      ∃ b s', exec i op s b s' ∧ (next b).Runs exec i s' a s'' :=
  ⟨fun h => by cases h with | call did rest => exact ⟨_, _, did, rest⟩,
    fun ⟨_, _, did, rest⟩ => .call did rest⟩

theorem runs_perform_bind {op : Op α} {f : α → Prog Op β} {b : β} {s s'' : σ} :
    (perform op >>= f).Runs exec i s b s'' ↔
      ∃ a s', exec i op s a s' ∧ (f a).Runs exec i s' b s'' := runs_call

/-- A run of a sequence is a run of its first part and then one of its second. -/
theorem runs_bind {p : Prog Op α} {f : α → Prog Op β} {b : β} {s s'' : σ} :
    (p >>= f).Runs exec i s b s'' ↔
      ∃ a s', p.Runs exec i s a s' ∧ (f a).Runs exec i s' b s'' := by
  induction p generalizing s with
  -- nothing of the first part is left to run
  | pure a =>
    refine ⟨fun h => ⟨a, s, .pure, h⟩, ?_⟩
    rintro ⟨a', s', h, hf⟩
    obtain ⟨rfl, rfl⟩ := runs_pure.mp h
    exact hf
  | call op next ih =>
    rw [call_bind, runs_call]
    constructor
    · rintro ⟨c, s', did, rest⟩
      obtain ⟨a, t, h, hf⟩ := (ih c).mp rest
      exact ⟨a, t, .call did h, hf⟩
    · rintro ⟨a, t, h, hf⟩
      obtain ⟨c, s', did, rest⟩ := runs_call.mp h
      exact ⟨c, s', did, (ih c).mpr ⟨a, t, rest, hf⟩⟩

theorem runs_each_nil {f : α → Prog Op β} {bs : List β} {s s' : σ} :
    (each f []).Runs exec i s bs s' ↔ bs = [] ∧ s' = s := runs_pure

/-- A run over a list is a run on its first item and then one over the rest. -/
theorem runs_each_cons {f : α → Prog Op β} {a : α} {l : List α} {bs : List β} {s s'' : σ} :
    (each f (a :: l)).Runs exec i s bs s'' ↔
      ∃ b s' rest, (f a).Runs exec i s b s' ∧ (each f l).Runs exec i s' rest s'' ∧
      bs = b :: rest := by
  change (f a >>= fun b => each f l >>= fun bs => Prog.pure (b :: bs)).Runs exec i s bs s'' ↔ _
  simp only [runs_bind, runs_pure]
  constructor
  · rintro ⟨b, s', hb, rest, t, hrest, rfl, rfl⟩
    exact ⟨b, s', rest, hb, hrest, rfl⟩
  · rintro ⟨b, s', rest, hb, hrest, rfl⟩
    exact ⟨b, s', hb, rest, s'', hrest, rfl, rfl⟩

/-- What each run of the body says of an item and its result holds item by item. -/
theorem forall₂_of_runs_each {f : α → Prog Op β} {R : α → β → Prop}
    (hf : ∀ a b s s', (f a).Runs exec i s b s' → R a b) {l : List α} {bs : List β} {s s' : σ}
    (h : (each f l).Runs exec i s bs s') : List.Forall₂ R l bs := by
  induction l generalizing s bs with
  | nil =>
    obtain ⟨rfl, rfl⟩ := runs_each_nil.mp h
    exact .nil
  | cons a l ih =>
    obtain ⟨b, t, rest, hb, hrest, rfl⟩ := runs_each_cons.mp h
    exact .cons (hf _ _ _ _ hb) (ih hrest)

/-- Each result of a run over a list is that of a run of its body. -/
theorem exists_of_runs_each {f : α → Prog Op β} {l : List α} {bs : List β} {b : β} {s s' : σ}
    (h : (each f l).Runs exec i s bs s') (hb : b ∈ bs) :
    ∃ a ∈ l, ∃ t t', (f a).Runs exec i t b t' := by
  induction l generalizing s bs with
  | nil =>
    obtain ⟨rfl, -⟩ := runs_each_nil.mp h
    cases hb
  | cons a l ih =>
    obtain ⟨c, t, rest, hc, hrest, rfl⟩ := runs_each_cons.mp h
    rcases List.mem_cons.mp hb with rfl | hb
    · exact ⟨a, List.mem_cons_self, s, t, hc⟩
    · obtain ⟨a', ha', hrun⟩ := ih hrest hb
      exact ⟨a', List.mem_cons_of_mem a ha', hrun⟩

/-- Where every operation answers, every program has a run. -/
theorem exists_runs (htotal : exec.Total) (p : Prog Op α) (s : σ) :
    ∃ a s', p.Runs exec i s a s' := by
  induction p generalizing s with
  | pure a => exact ⟨a, s, .pure⟩
  | call op next ih =>
    obtain ⟨b, s', did⟩ := htotal i op s
    obtain ⟨a, s'', rest⟩ := ih b s'
    exact ⟨a, s'', .call did rest⟩

/-- However thread `i` alone runs the program, it ends with what `post` says. -/
def Ends (exec : Exec ι Op σ) (i : ι) (post : α → σ → Prop) (p : Prog Op α) (s : σ) : Prop :=
  ∀ a s', p.Runs exec i s a s' → post a s'

theorem ends_pure {post : α → σ → Prop} {a : α} {s : σ} :
    (Prog.pure a : Prog Op α).Ends exec i post s ↔ post a s := by
  constructor
  · intro h
    exact h a s .pure
  · rintro h a' s' hruns
    obtain ⟨rfl, rfl⟩ := runs_pure.mp hruns
    exact h

theorem ends_call {post : α → σ → Prop} {op : Op β} {next : β → Prog Op α} {s : σ} :
    (Prog.call op next).Ends exec i post s ↔
      ∀ b s', exec i op s b s' → (next b).Ends exec i post s' := by
  constructor
  · intro h b s' did a t rest
    exact h a t (.call did rest)
  · rintro h a t hruns
    obtain ⟨b, s', did, rest⟩ := runs_call.mp hruns
    exact h b s' did a t rest

theorem Ends.mono {post post' : α → σ → Prop} {p : Prog Op α} {s : σ} (h : p.Ends exec i post s)
    (hpost : ∀ a t, post a t → post' a t) : p.Ends exec i post' s :=
  fun a t hruns => hpost a t (h a t hruns)

/-- A sequence ends as its second part does, wherever the first may have ended. -/
theorem Ends.bind {mid : α → σ → Prop} {post : β → σ → Prop} {p : Prog Op α} {f : α → Prog Op β}
    {s : σ} (h : p.Ends exec i mid s) (hf : ∀ a t, mid a t → (f a).Ends exec i post t) :
    (p >>= f).Ends exec i post s := by
  intro b t hruns
  obtain ⟨a, s', hfirst, hrest⟩ := runs_bind.mp hruns
  exact hf a s' (h a s' hfirst) b t hrest

/-- A loop that collects results: `P` says what holds with `behind` done and its results. -/
theorem Ends.each {f : α → Prog Op β} (P : List α → List β → σ → Prop)
    (hbody : ∀ behind bs a t, P behind bs t →
      (f a).Ends exec i (fun b => P (behind ++ [a]) (bs ++ [b])) t)
    (l behind : List α) (bs : List β) (s : σ) (h : P behind bs s) :
    (Prog.each f l).Ends exec i (fun rest => P (behind ++ l) (bs ++ rest)) s := by
  induction l generalizing behind bs s with
  | nil =>
    refine ends_pure.mpr ?_
    rwa [List.append_nil, List.append_nil]
  | cons a l ih =>
    refine (hbody behind bs a s h).bind fun b t hb => ?_
    refine (ih (behind ++ [a]) (bs ++ [b]) t hb).bind fun rest u hrest => ends_pure.mpr ?_
    rwa [List.append_assoc, List.append_assoc, List.singleton_append,
      List.singleton_append] at hrest

/-- Whatever its calls are answered, the program ends with what `P` says. -/
def Yields (P : α → Prop) : Prog Op α → Prop
  | .pure a => P a
  | .call _ next => ∀ b, (next b).Yields P

theorem Yields.mono {P Q : α → Prop} {p : Prog Op α} (h : p.Yields P) (hPQ : ∀ a, P a → Q a) :
    p.Yields Q := by
  induction p with
  | pure a => exact hPQ a h
  | call op next ih => exact fun b => ih b (h b)

theorem Yields.bind {P : α → Prop} {Q : β → Prop} {p : Prog Op α} {f : α → Prog Op β}
    (h : p.Yields P) (hf : ∀ a, P a → (f a).Yields Q) : (p >>= f).Yields Q := by
  induction p with
  | pure a => exact hf a h
  | call op next ih => exact fun b => ih b (h b)

/-- A program of which nothing is asked. -/
theorem Yields.trivial (p : Prog Op α) : p.Yields fun _ => True := by
  induction p with
  | pure a => exact True.intro
  | call op next ih => exact ih

theorem Yields.of_runs {P : α → Prop} {p : Prog Op α} {a : α} {s s' : σ} (h : p.Yields P)
    (hruns : p.Runs exec i s a s') : P a := by
  induction hruns with
  | pure => exact h
  | call did rest ih => exact ih (h _)

/-- The program can end with `a`, its calls answered in some way. -/
def Comes (p : Prog Op α) (a : α) : Prop :=
  p.Runs (fun _ _ _ _ _ _ => True : Exec Unit Op Unit) () () a ()

/-- Where every operation has an answer to give, every program can end. -/
theorem exists_comes (h : ∀ ⦃β : Type⦄ (_ : Op β), Nonempty β) (p : Prog Op α) :
    ∃ a, p.Comes a := by
  have htotal : Exec.Total (fun _ _ _ _ _ _ => True : Exec Unit Op Unit) :=
    fun _ _ op _ => ⟨(h op).some, (), trivial⟩
  obtain ⟨a, u, hruns⟩ := exists_runs (i := ()) htotal p ()
  exact ⟨a, hruns⟩

/-- What a program is promised to end with holds of each way it can end. -/
theorem Yields.of_comes {P : α → Prop} {p : Prog Op α} {a : α} (h : p.Yields P) (ha : p.Comes a) :
    P a :=
  h.of_runs ha

/-- What a program ends with, and the state it leaves, where each operation does one thing. -/
def played (does : ⦃β : Type⦄ → Op β → σ → β × σ) : Prog Op α → σ → α × σ
  | .pure a, s => (a, s)
  | .call op next, s => (next (does op s).1).played does (does op s).2

/-- Every call the program can come to is one of `P`. -/
def Only (P : ∀ ⦃β : Type⦄, Op β → Prop) : Prog Op α → Prop
  | .pure _ => True
  | .call op next => P op ∧ ∀ b, (next b).Only P

theorem Only.bind {P : ∀ ⦃β : Type⦄, Op β → Prop} {p : Prog Op α} {f : α → Prog Op β}
    (h : p.Only P) (hf : ∀ a, (f a).Only P) : (p >>= f).Only P := by
  induction p with
  | pure a => exact hf a
  | call op next ih => exact ⟨h.1, fun b => ih b (h.2 b)⟩

theorem Only.forM {P : ∀ ⦃β : Type⦄, Op β → Prop} {f : α → Prog Op PUnit} (hf : ∀ a, (f a).Only P)
    (l : List α) : (l.forM f).Only P := by
  induction l with
  | nil => trivial
  | cons a l ih => exact (hf a).bind fun _ => ih

theorem Only.each {P : ∀ ⦃β : Type⦄, Op β → Prop} {f : α → Prog Op β} (hf : ∀ a, (f a).Only P)
    (l : List α) : (each f l).Only P := by
  induction l with
  | nil => trivial
  | cons a l ih => exact (hf a).bind fun b => ih.bind fun bs => trivial

/-- A program played is a run of it. -/
theorem runs_played {does : ⦃β : Type⦄ → Op β → σ → β × σ}
    (hdoes : ∀ ⦃β : Type⦄ (op : Op β) s, exec i op s (does op s).1 (does op s).2) (p : Prog Op α)
    (s : σ) : p.Runs exec i s (p.played does s).1 (p.played does s).2 := by
  induction p generalizing s with
  | pure a => exact .pure
  | call op next ih => exact .call (hdoes op s) (ih _ _)

end Prog

/-! ### Threads interleaved -/

/-- The shared state, and what every thread still has to run. -/
structure Config (ι : Type) (Op : Type → Type u) (ρ σ : Type) : Type (max 1 u) where
  shared : σ
  prog : ι → Prog Op ρ

/-- One step of an interleaving: a thread takes its next call, or — `again` says so — begins anew
where it had come to an end. -/
inductive Step [DecidableEq ι] (exec : Exec ι Op σ) (again : ι → ρ → Option (Prog Op ρ)) :
    Config ι Op ρ σ → Config ι Op ρ σ → Prop where
  | call {c : Config ι Op ρ σ} (i : ι) {β : Type} {op : Op β} {next : β → Prog Op ρ} {b : β}
      {s' : σ} (now : c.prog i = .call op next) (did : exec i op c.shared b s') :
      Step exec again c ⟨s', Function.update c.prog i (next b)⟩
  | again {c : Config ι Op ρ σ} (i : ι) {r : ρ} {p : Prog Op ρ} (now : c.prog i = .pure r)
      (anew : again i r = some p) :
      Step exec again c ⟨c.shared, Function.update c.prog i p⟩

/-- Any number of steps, of any threads in any order. -/
abbrev Steps [DecidableEq ι] (exec : Exec ι Op σ) (again : ι → ρ → Option (Prog Op ρ)) :
    Config ι Op ρ σ → Config ι Op ρ σ → Prop :=
  Relation.ReflTransGen (Step exec again)

/-- `p.Leads exec i s q t`: run by thread `i` with no other thread moving, `p` comes to `q`, taking
the shared state from `s` to `t`. -/
inductive Prog.Leads (exec : Exec ι Op σ) (i : ι) :
    Prog Op α → σ → Prog Op α → σ → Prop where
  | refl {p : Prog Op α} {s : σ} : Leads exec i p s p s
  | call {β : Type} {op : Op β} {next : β → Prog Op α} {q : Prog Op α} {s s' t : σ} {b : β}
      (did : exec i op s b s') (rest : Leads exec i (next b) s' q t) :
      Leads exec i (.call op next) s q t

/-- So led, a thread takes steps of an interleaving in which only it moves. -/
theorem Prog.Leads.steps [DecidableEq ι] {exec : Exec ι Op σ} {i : ι} {p q : Prog Op ρ} {s t : σ}
    (h : p.Leads exec i s q t) (again : ι → ρ → Option (Prog Op ρ)) {f : ι → Prog Op ρ}
    (hf : f i = p) :
    Steps exec again ⟨s, f⟩ ⟨t, Function.update f i q⟩ := by
  induction h generalizing f with
  -- a thread where it is already has taken no step
  | refl =>
    rw [← hf, Function.update_eq_self]
  | call did rest ih =>
    refine .head (Step.call (c := ⟨_, f⟩) i hf did) ?_
    have h := ih (f := Function.update f i _) (Function.update_self _ _ _)
    rwa [Function.update_idem] at h

/-- A thread at its end begins anew, and is led on from there. -/
theorem Prog.Leads.again [DecidableEq ι] {exec : Exec ι Op σ} {again : ι → ρ → Option (Prog Op ρ)}
    {i : ι} {p q : Prog Op ρ} {s t : σ} {r : ρ} (h : p.Leads exec i s q t) {f : ι → Prog Op ρ}
    (hf : f i = .pure r) (hanew : again i r = some p) :
    Steps exec again ⟨s, f⟩ ⟨t, Function.update f i q⟩ := by
  refine .head (Step.again (c := ⟨s, f⟩) i hf hanew) ?_
  have hsteps := h.steps again (f := Function.update f i p) (Function.update_self _ _ _)
  rwa [Function.update_idem] at hsteps

/-- A run leads to the program's end. -/
theorem Prog.Runs.leads {exec : Exec ι Op σ} {i : ι} {p : Prog Op α} {s s' : σ} {a : α}
    (h : p.Runs exec i s a s') : p.Leads exec i s (.pure a) s' := by
  induction h with
  | pure => exact .refl
  | call did rest ih => exact .call did ih

/-- A run of a program leads to what follows it. -/
theorem Prog.Runs.leads_bind {exec : Exec ι Op σ} {i : ι} {p : Prog Op α} {f : α → Prog Op β}
    {s s' : σ} {a : α} (h : p.Runs exec i s a s') : (p >>= f).Leads exec i s (f a) s' := by
  induction h with
  | pure => exact .refl
  | call did rest ih => exact .call did ih

theorem Prog.Leads.trans {exec : Exec ι Op σ} {i : ι} {p q r : Prog Op α} {s t u : σ}
    (h : p.Leads exec i s q t) (h' : q.Leads exec i t r u) : p.Leads exec i s r u := by
  induction h with
  | refl => exact h'
  | call did rest ih => exact .call did (ih h')

/-- What leads a program on leads it on with what follows it. -/
theorem Prog.Leads.bind {exec : Exec ι Op σ} {i : ι} {p q : Prog Op α} {s t : σ}
    (h : p.Leads exec i s q t) (f : α → Prog Op β) : (p >>= f).Leads exec i s (q >>= f) t := by
  induction h with
  | refl => exact .refl
  | call did rest ih => exact .call did ih

/-- Run by thread `i` with no other thread moving, `p` takes the shared state from `s` to `t` at
some point. -/
def Prog.Passes (exec : Exec ι Op σ) (i : ι) (p : Prog Op α) (s t : σ) : Prop :=
  ∃ q, p.Leads exec i s q t

theorem Prog.Passes.bind {exec : Exec ι Op σ} {i : ι} {p : Prog Op α} {s t : σ}
    (h : p.Passes exec i s t) (f : α → Prog Op β) : (p >>= f).Passes exec i s t := by
  obtain ⟨q, hq⟩ := h
  exact ⟨_, hq.bind f⟩

theorem Prog.Runs.passes {exec : Exec ι Op σ} {i : ι} {p : Prog Op α} {s s' : σ} {a : α}
    (h : p.Runs exec i s a s') : p.Passes exec i s s' := ⟨_, h.leads⟩

/-- After a run of a program, what follows it passes on. -/
theorem Prog.Runs.passes_bind {exec : Exec ι Op σ} {i : ι} {p : Prog Op α} {f : α → Prog Op β}
    {s s' t : σ} {a : α} (h : p.Runs exec i s a s') (hf : (f a).Passes exec i s' t) :
    (p >>= f).Passes exec i s t := by
  obtain ⟨q, hq⟩ := hf
  exact ⟨q, h.leads_bind.trans hq⟩

/-- A run of one thread alone is steps of an interleaving in which only it moves. -/
theorem Prog.Runs.steps [DecidableEq ι] {exec : Exec ι Op σ}
    {again : ι → ρ → Option (Prog Op ρ)} {i : ι} {p : Prog Op ρ} {s s' : σ} {r : ρ}
    (h : p.Runs exec i s r s') {f : ι → Prog Op ρ} (hf : f i = p) :
    Steps exec again ⟨s, f⟩ ⟨s', Function.update f i (.pure r)⟩ :=
  h.leads.steps again hf

/-- Where every operation answers, any threads can be brought to their ends while the others
stand. -/
theorem exists_ended [DecidableEq ι] {exec : Exec ι Op σ} (htotal : exec.Total)
    (again : ι → ρ → Option (Prog Op ρ)) (c : Config ι Op ρ σ) (l : List ι) :
    ∃ c', Steps exec again c c' ∧ (∀ i ∈ l, ∃ r, c'.prog i = .pure r) ∧
      ∀ i, i ∉ l → c'.prog i = c.prog i := by
  induction l with
  | nil => exact ⟨c, .refl, nofun, fun _ _ => rfl⟩
  | cons i l ih =>
    obtain ⟨c', hsteps, hended, hstand⟩ := ih
    -- The threads of the rest are at their ends and stay there while this one runs to its own.
    obtain ⟨r, s', hruns⟩ := Prog.exists_runs (i := i) htotal (c'.prog i) c'.shared
    refine ⟨_, hsteps.trans (hruns.steps (f := c'.prog) rfl), fun j hj => ?_, fun j hj => ?_⟩
    · by_cases hji : j = i
      · exact ⟨r, hji ▸ Function.update_self ..⟩
      · obtain ⟨r', hr'⟩ := hended j (List.mem_of_ne_of_mem hji hj)
        exact ⟨r', (Function.update_of_ne hji ..).trans hr'⟩
    · have hne := List.ne_of_not_mem_cons hj
      exact (Function.update_of_ne hne ..).trans (hstand j (List.not_mem_of_not_mem_cons hj))

/-! ### Threads told apart otherwise -/

section Under

variable {ι' : Type} {exec : Exec ι Op σ} {exec' : Exec ι' Op σ} {f : ι → ι'}

/-- What one thread alone comes to, another does whose calls do all that the first one's may. -/
theorem Prog.Leads.along {i : ι} {j : ι'} {p q : Prog Op α} {s t : σ}
    (hexec : ∀ ⦃β : Type⦄ (op : Op β) s b s', exec i op s b s' → exec' j op s b s')
    (h : p.Leads exec i s q t) : p.Leads exec' j s q t := by
  induction h with
  | refl => exact .refl
  | call did rest ih => exact .call (hexec _ _ _ _ did) ih

/-- The threads of a configuration, each called as `f` says; under any other name stands `idle`. -/
noncomputable def Config.under (f : ι → ι') (idle : Prog Op ρ) (c : Config ι Op ρ σ) :
    Config ι' Op ρ σ :=
  ⟨c.shared, fun i => (Function.partialInv f i).elim idle c.prog⟩

theorem Config.under_prog (hf : Function.Injective f) (idle : Prog Op ρ) (c : Config ι Op ρ σ)
    (i : ι) : (c.under f idle).prog (f i) = c.prog i := by
  change (Function.partialInv f (f i)).elim idle c.prog = c.prog i
  rw [Function.partialInv_left hf]
  rfl

variable [DecidableEq ι] [DecidableEq ι']

/-- One thread moved on, under either name. -/
theorem Config.under_update (hf : Function.Injective f) (idle : Prog Op ρ) (s : σ)
    (prog : ι → Prog Op ρ) (i : ι) (p : Prog Op ρ) :
    Config.under f idle ⟨s, Function.update prog i p⟩ =
      ⟨s, Function.update (Config.under f idle ⟨s, prog⟩).prog (f i) p⟩ := by
  refine congrArg (Config.mk s) (funext fun j => ?_)
  -- a thread that has a name under `f`, or one that stays idle
  by_cases hj : j = f i
  · subst hj
    rw [Function.partialInv_left hf, Function.update_self]
    exact Function.update_self ..
  · rw [Function.update_of_ne hj]
    cases hat : Function.partialInv f j with
    | none => exact congrArg (Option.elim · idle prog) hat.symm
    | some k =>
      have hne : k ≠ i := by
        rintro rfl
        exact hj ((hf.isPartialInv k j).mp hat).symm
      apply (Function.update_of_ne hne ..).trans
      exact congrArg (Option.elim · idle prog) hat.symm

/-- **A step is a step under other names**, where no two threads are called the same. -/
theorem Step.under {again : ι → ρ → Option (Prog Op ρ)} {again' : ι' → ρ → Option (Prog Op ρ)}
    {c c' : Config ι Op ρ σ} (hf : Function.Injective f)
    (hexec : ∀ i ⦃β : Type⦄ (op : Op β) s b s', exec i op s b s' → exec' (f i) op s b s')
    (hagain : ∀ i r, again i r = again' (f i) r) (idle : Prog Op ρ) (h : Step exec again c c') :
    Step exec' again' (c.under f idle) (c'.under f idle) := by
  cases h with
  | call i now did =>
    rw [Config.under_update hf]
    exact .call (c := c.under f idle) (f i) ((c.under_prog hf idle i).trans now)
      (hexec i _ _ _ _ did)
  | again i now anew =>
    rw [Config.under_update hf]
    exact .again (c := c.under f idle) (f i) ((c.under_prog hf idle i).trans now)
      (hagain i _ ▸ anew)

end Under

/-! ### Rely and guarantee -/

/-- What a proof about interleaved threads rests on: an invariant of the shared state, what each
thread relies on of the others' steps, what it guarantees of its own, and that one thread's
guarantee is covered by every other's rely. -/
structure Outline (ι : Type) (Op : Type → Type u) (σ : Type) : Type (max 1 u) where
  exec : Exec ι Op σ
  /-- What holds of the shared state between any two steps. -/
  inv : σ → Prop
  rely : ι → σ → σ → Prop
  guar : ι → σ → σ → Prop
  rely_refl : ∀ i s, rely i s s
  rely_trans : ∀ i s s' s'', rely i s s' → rely i s' s'' → rely i s s''
  guar_rely : ∀ i j s s', i ≠ j → inv s → inv s' → guar i s s' → rely j s s'

namespace Outline

/-- The outline of an invariant and of the moves each thread makes: a thread relies on the others
making moves of theirs. -/
def ofMoves (exec : Exec ι Op σ) (inv : σ → Prop) (move : ι → σ → σ → Prop) : Outline ι Op σ where
  exec := exec
  inv := inv
  rely i := Relation.ReflTransGen fun s s' => ∃ j, j ≠ i ∧ inv s ∧ inv s' ∧ move j s s'
  guar := move
  rely_refl _ _ := .refl
  rely_trans _ _ _ _ := .trans
  guar_rely _ _ _ _ hij hI hI' hmove := .single ⟨_, hij, hI, hI', hmove⟩

/-- What each of the others' moves keeps is kept by all of them. -/
theorem ofMoves_stable {exec : Exec ι Op σ} {inv : σ → Prop} {move : ι → σ → σ → Prop} {i : ι}
    {Q : σ → Prop}
    (hQ : ∀ j s s', j ≠ i → inv s → inv s' → move j s s' → Q s → Q s') {s s' : σ}
    (hrely : (ofMoves exec inv move).rely i s s') (h : Q s) : Q s' := by
  induction hrely with
  | refl => exact h
  | tail _ hmove ih =>
    obtain ⟨j, hne, hI, hI', hmove⟩ := hmove
    exact hQ j _ _ hne hI hI' hmove ih

variable (O : Outline ι Op σ) (i : ι)

/-- **The proof outline of what thread `i` still has to run.** At every call, from any state the
others may have led to, the operation keeps the invariant and the guarantee and what follows is
safe again; and where the program has ended, `post` holds and goes on holding. -/
def Safe (post : α → σ → Prop) : Prog Op α → σ → Prop
  | .pure a, s => ∀ s', O.rely i s s' → O.inv s' → post a s'
  | .call op next, s => ∀ s', O.rely i s s' → O.inv s' → ∀ b s'', O.exec i op s' b s'' →
      O.inv s'' ∧ O.guar i s' s'' ∧ Safe post (next b) s''

variable {O i} {post : α → σ → Prop} {p : Prog Op α} {s s' : σ}

/-- Safety survives the others' steps. -/
theorem Safe.rely (h : O.Safe i post p s) (hs : O.rely i s s') : O.Safe i post p s' := by
  cases p with
  | pure a => exact fun t ht => h t (O.rely_trans _ _ _ _ hs ht)
  | call op next => exact fun t ht => h t (O.rely_trans _ _ _ _ hs ht)

/-- A weaker end is reached as safely. -/
theorem Safe.mono {post' : α → σ → Prop} (h : O.Safe i post p s)
    (hpost : ∀ a t, O.inv t → post a t → post' a t) : O.Safe i post' p s := by
  induction p generalizing s with
  | pure a => exact fun t ht hI => hpost _ t hI (h t ht hI)
  | call op next ih =>
    intro t ht hI b u did
    obtain ⟨hI', hG, hnext⟩ := h t ht hI b u did
    exact ⟨hI', hG, ih b hnext⟩

/-- **Sequencing.** What follows a program is safe wherever the program may end. -/
theorem Safe.bind {f : α → Prog Op β} {post' : β → σ → Prop} (h : O.Safe i post p s)
    (hI : O.inv s) (hf : ∀ a t, O.inv t → post a t → O.Safe i post' (f a) t) :
    O.Safe i post' (p >>= f) s := by
  induction p generalizing s with
  | pure a => exact hf a s hI (h s (O.rely_refl _ _) hI)
  | call op next ih =>
    intro t ht hIt b u did
    obtain ⟨hI', hG, hnext⟩ := h t ht hIt b u did
    exact ⟨hI', hG, ih b hnext hI'⟩

/-- The end of a program is safe when its postcondition is stable. -/
theorem Safe.of_post {a : α} (hpost : post a s)
    (hstable : ∀ t, O.rely i s t → O.inv t → post a s → post a t) :
    O.Safe i post (Prog.pure a) s :=
  fun t ht hI => hstable t ht hI hpost

/-- **A loop over a list.** `P` says what holds with `done` behind and `todo` ahead; each turn of
the body takes the next item from ahead to behind. -/
theorem Safe.forM {body : α → Prog Op PUnit} (P : List α → List α → σ → Prop)
    (hstable : ∀ done todo t t', P done todo t → O.rely i t t' → O.inv t' → P done todo t')
    (hbody : ∀ done a todo t, O.inv t → P done (a :: todo) t →
      O.Safe i (fun _ => P (done ++ [a]) todo) (body a) t)
    (todo done : List α) (s : σ) (hI : O.inv s) (h : P done todo s) :
    O.Safe i (fun _ => P (done ++ todo) []) (todo.forM body) s := by
  induction todo generalizing done s with
  | nil =>
    rw [List.append_nil]
    intro t ht hIt
    exact hstable _ _ _ _ h ht hIt
  -- the item done moves from the front of what is left to what is behind
  | cons a todo ih =>
    apply Safe.bind (hbody done a todo s hI h) hI
    intro _ t hIt hP
    have hrest := ih (done ++ [a]) t hIt hP
    rwa [List.append_assoc, List.singleton_append] at hrest

/-- **A loop over a list that collects results.** `P` says what holds with `behind` done and its
results, and `ahead` to do. -/
theorem Safe.each {body : α → Prog Op β} (P : List α → List β → List α → σ → Prop)
    (hstable : ∀ behind bs ahead t t', P behind bs ahead t → O.rely i t t' → O.inv t' →
      P behind bs ahead t')
    (hbody : ∀ behind bs a ahead t, O.inv t → P behind bs (a :: ahead) t →
      O.Safe i (fun b => P (behind ++ [a]) (bs ++ [b]) ahead) (body a) t)
    (ahead behind : List α) (bs : List β) (s : σ) (hI : O.inv s) (h : P behind bs ahead s) :
    O.Safe i (fun rest => P (behind ++ ahead) (bs ++ rest) []) (Prog.each body ahead) s := by
  induction ahead generalizing behind bs s with
  | nil =>
    rw [List.append_nil]
    refine Safe.of_post (by rwa [List.append_nil]) fun t ht hIt hP => hstable _ _ _ _ _ hP ht hIt
  | cons a ahead ih =>
    apply Safe.bind (hbody behind bs a ahead s hI h) hI
    intro b t hIt hP
    apply Safe.bind (ih (behind ++ [a]) (bs ++ [b]) t hIt hP) hIt
    intro rest u hIu hP
    -- rely on the others once more after the last item
    rw [List.append_assoc, List.append_assoc, List.singleton_append, List.singleton_append] at hP
    exact Safe.of_post hP fun v hv hIv hP => hstable _ _ _ _ _ hP hv hIv

/-- **A loop that carries a result.** `P` says what holds with `todo` ahead. -/
theorem Safe.foldlM {body : β → α → Prog Op β} (P : List α → β → σ → Prop)
    (hstable : ∀ todo b t t', P todo b t → O.rely i t t' → O.inv t' → P todo b t')
    (hbody : ∀ a todo b t, O.inv t → P (a :: todo) b t → O.Safe i (P todo) (body b a) t)
    (todo : List α) (b : β) (s : σ) (hI : O.inv s) (h : P todo b s) :
    O.Safe i (P []) (todo.foldlM body b) s := by
  induction todo generalizing b s with
  | nil => exact fun t ht hIt => hstable _ _ _ _ h ht hIt
  | cons a todo ih => exact (hbody a todo b s hI h).bind hI fun b' t hIt hP => ih b' t hIt hP

/-- **A loop that may stop.** What each turn keeps holds where it stops, and where it ends. -/
theorem Safe.foldUntil {ε : Type} {body : β → α → Prog Op (β × Option ε)} (P : β → σ → Prop)
    (hstable : ∀ b t t', P b t → O.rely i t t' → O.inv t' → P b t') (l : List α)
    (hbody : ∀ a ∈ l, ∀ b t, O.inv t → P b t → O.Safe i (fun r => P r.1) (body b a) t)
    (b : β) (s : σ) (hI : O.inv s) (h : P b s) :
    O.Safe i (fun r => P r.1) (Prog.foldUntil body l b) s := by
  induction l generalizing b s with
  | nil => exact fun t ht hIt => hstable _ _ _ h ht hIt
  | cons a l ih =>
    apply (hbody a List.mem_cons_self b s hI h).bind hI
    intro r t hIt hP
    obtain ⟨b', stopped⟩ := r
    cases stopped with
    -- it was told to stop: what holds then is what held of the item
    | some e => exact fun u hu hIu => hstable _ _ _ hP hu hIu
    | none => exact ih (fun x hx => hbody x (List.mem_cons_of_mem a hx)) b' t hIt hP

/-! ### Soundness -/

variable (O)

/-- Every thread of a configuration has a proof outline, each ending in its own `post`. -/
structure Holds (post : ι → ρ → σ → Prop) (c : Config ι Op ρ σ) : Prop where
  inv : O.inv c.shared
  safe : ∀ i, O.Safe i (post i) (c.prog i) c.shared

variable {O} {post : ι → ρ → σ → Prop} {again : ι → ρ → Option (Prog Op ρ)}
  {c c' : Config ι Op ρ σ}

/-- A thread that has ended meets its `post`, whatever the others are at. -/
theorem Holds.ended (h : O.Holds post c) {i : ι} {r : ρ} (hr : c.prog i = .pure r) :
    post i r c.shared := by
  have hsafe := h.safe i
  rw [hr] at hsafe
  exact hsafe _ (O.rely_refl _ _) h.inv

variable [DecidableEq ι]

/-- **Soundness of one step.** The thread that moved goes on with its outline, and every other
keeps its own by its rely. -/
theorem Holds.step
    (hagain : ∀ i r p s, O.inv s → post i r s → again i r = some p → O.Safe i (post i) p s)
    (h : O.Holds post c) (hstep : Step O.exec again c c') : O.Holds post c' := by
  cases hstep with
  -- the thread that moved keeps its own part
  | @call i β op next b s' now did =>
    have hi := h.safe i
    rw [now] at hi
    obtain ⟨hI, hG, hnext⟩ := hi c.shared (O.rely_refl _ _) h.inv b s' did
    refine ⟨hI, fun j => ?_⟩
    by_cases hj : j = i
    · subst hj
      simpa using hnext
    · -- What the thread that moved guarantees, the other relies on.
      have hother := (h.safe j).rely (O.guar_rely i j _ _ (Ne.symm hj) h.inv hI hG)
      simpa [Function.update_of_ne hj] using hother
  -- a thread that starts anew is safe from where it starts
  | @again i r p now anew =>
    refine ⟨h.inv, fun j => ?_⟩
    by_cases hj : j = i
    · subst hj
      simpa using hagain j r p c.shared h.inv (h.ended now) anew
    · simpa [Function.update_of_ne hj] using h.safe j

/-- A run of outlined threads is made of what they guarantee. -/
theorem Holds.guaranteed
    (hagain : ∀ i r p s, O.inv s → post i r s → again i r = some p → O.Safe i (post i) p s)
    (h : O.Holds post c) (hsteps : Steps O.exec again c c') :
    Relation.ReflTransGen (fun s s' => ∃ i, O.inv s ∧ O.inv s' ∧ O.guar i s s') c.shared
      c'.shared ∧ O.Holds post c' := by
  induction hsteps with
  | refl => exact ⟨.refl, h⟩
  | tail _ hstep ih =>
    obtain ⟨hpath, hholds⟩ := ih
    have hnext := hholds.step hagain hstep
    refine ⟨?_, hnext⟩
    cases hstep with
    -- the thread that moved guarantees its own step; starting anew moves nothing
    | @call i β op next b s' now did =>
      have hi := hholds.safe i
      rw [now] at hi
      obtain ⟨hI, hG, -⟩ := hi _ (O.rely_refl _ _) hholds.inv b s' did
      exact hpath.tail ⟨i, hholds.inv, hI, hG⟩
    | again => exact hpath

/-- **Soundness of a run.** -/
theorem Holds.steps
    (hagain : ∀ i r p s, O.inv s → post i r s → again i r = some p → O.Safe i (post i) p s)
    (h : O.Holds post c) (hsteps : Steps O.exec again c c') : O.Holds post c' := by
  induction hsteps with
  | refl => exact h
  | tail _ hstep ih => exact ih.step hagain hstep

end Outline

end Conc
