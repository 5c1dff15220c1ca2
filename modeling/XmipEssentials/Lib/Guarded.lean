import XmipEssentials.Lib.Prog

/-!
# Programs whose every call is guarded

What a program run alone ends with says nothing of a run that does not end, nor of what it did on
the way. Here a run is looked at wherever it leads (`Prog.Leads`): to a call it is about to make, or
to its end. `Prog.Guarded` is the proof outline of it, a guard met at every call and a postcondition
at the end, with one rule for each way programs are put together; and `Guarded.of_leads` is its
soundness.
-/

namespace Conc

universe u

variable {ι σ α β : Type} {Op : Type → Type u}

namespace Prog

/-- However thread `i` alone runs the program: at every call `guard` holds of the call and of the
state it is made in, and where the program ends, `post`. -/
def Guarded (exec : Exec ι Op σ) (i : ι) (guard : ∀ ⦃β : Type⦄, Op β → σ → Prop)
    (post : α → σ → Prop) : Prog Op α → σ → Prop
  | .pure a, s => post a s
  | .call op next, s => guard op s ∧ ∀ b s', exec i op s b s' →
      Guarded exec i guard post (next b) s'

variable {exec : Exec ι Op σ} {i : ι} {guard : ∀ ⦃β : Type⦄, Op β → σ → Prop} {post : α → σ → Prop}
    {p q : Prog Op α} {s t : σ}

theorem Guarded.leads (h : p.Guarded exec i guard post s) (hleads : p.Leads exec i s q t) :
    q.Guarded exec i guard post t := by
  induction hleads with
  | refl => exact h
  | call did rest ih => exact ih (h.2 _ _ did)

/-- **Soundness.** Wherever a run has led, the call it is about to make is guarded, or it has ended
as it should. -/
theorem Guarded.of_leads (h : p.Guarded exec i guard post s) (hleads : p.Leads exec i s q t) :
    match q with
    | .pure a => post a t
    | .call op _ => guard op t := by
  have hthere := h.leads hleads
  cases q with
  | pure a => exact hthere
  | call op next => exact hthere.1

theorem Guarded.ends (h : p.Guarded exec i guard post s) : p.Ends exec i post s :=
  fun _ _ hruns => h.of_leads hruns.leads

/-- Where every call the program can come to is guarded, whatever the state, how it ends is all
there is to it. -/
theorem Ends.guarded (h : p.Ends exec i post s) (hguard : p.Only fun _ op => ∀ t, guard op t) :
    p.Guarded exec i guard post s := by
  induction p generalizing s with
  | pure a => exact ends_pure.mp h
  | call op next ih =>
    exact ⟨hguard.1 s, fun b s' did => ih b (ends_call.mp h b s' did) (hguard.2 b)⟩

theorem Guarded.mono {guard' : ∀ ⦃β : Type⦄, Op β → σ → Prop} {post' : α → σ → Prop}
    (h : p.Guarded exec i guard post s) (hguard : ∀ ⦃β : Type⦄ (op : Op β) t, guard op t →
      guard' op t) (hpost : ∀ a t, post a t → post' a t) :
    p.Guarded exec i guard' post' s := by
  induction p generalizing s with
  | pure a => exact hpost a s h
  | call op next ih => exact ⟨hguard op s h.1, fun b s' did => ih b (h.2 b s' did)⟩

/-- A call, and what follows wherever it may lead. -/
theorem guarded_perform_bind {op : Op β} {f : β → Prog Op α} (hguard : guard op s)
    (hnext : ∀ b s', exec i op s b s' → (f b).Guarded exec i guard post s') :
    (perform op >>= f).Guarded exec i guard post s :=
  ⟨hguard, hnext⟩

theorem guarded_perform {op : Op β} {post : β → σ → Prop} (hguard : guard op s)
    (hpost : ∀ b s', exec i op s b s' → post b s') :
    (perform op).Guarded exec i guard post s :=
  ⟨hguard, hpost⟩

/-- A sequence is guarded as its second part is, wherever the first may have ended. -/
theorem Guarded.bind {M : α → σ → Prop} {post : β → σ → Prop} {f : α → Prog Op β}
    (h : p.Guarded exec i guard M s) (hf : ∀ a t, M a t → (f a).Guarded exec i guard post t) :
    (p >>= f).Guarded exec i guard post s := by
  induction p generalizing s with
  | pure a => exact hf a s h
  | call op next ih => exact ⟨h.1, fun b s' did => ih b (h.2 b s' did)⟩

/-- A loop over a list: `P` says what holds with `behind` done. -/
theorem Guarded.forM {body : α → Prog Op PUnit} (P : List α → σ → Prop) (l : List α)
    (hbody : ∀ behind, ∀ a ∈ l, ∀ t, P behind t →
      (body a).Guarded exec i guard (fun _ => P (behind ++ [a])) t) (behind : List α)
    (s : σ) (h : P behind s) : (l.forM body).Guarded exec i guard (fun _ => P (behind ++ l)) s := by
  induction l generalizing behind s with
  | nil =>
    rw [List.append_nil]
    exact h
  | cons a l ih =>
    apply (hbody behind a List.mem_cons_self s h).bind
    intro _ t ht
    have hrest := ih (fun behind x hx => hbody behind x (List.mem_cons_of_mem a hx)) (behind ++ [a])
      t ht
    rwa [List.append_assoc, List.singleton_append] at hrest

/-- How a loop that may stop has ended: `Q` where it stopped, and `P` where it came to its end. -/
def Halts {ε : Type} (P : β → σ → Prop) (Q : σ → Prop) : β × Option ε → σ → Prop
  | (_, some _), t => Q t
  | (b, none), t => P b t

/-- A loop that may stop: `P` says what holds with `behind` done and what was carried on, and `Q`
where it stopped. -/
theorem Guarded.foldUntil {ε : Type} {body : β → α → Prog Op (β × Option ε)}
    (P : List α → β → σ → Prop) (Q : σ → Prop) (l : List α)
    (hbody : ∀ behind a ahead b t, l = behind ++ a :: ahead → P behind b t →
      (body b a).Guarded exec i guard (Halts (P (behind ++ [a])) Q) t)
    (b : β) (s : σ) (h : P [] b s) : (Prog.foldUntil body l b).Guarded exec i guard (Halts (P l) Q)
      s := by
  -- The induction is on what is ahead, from whatever is behind.
  suffices hfrom : ∀ behind ahead b t, l = behind ++ ahead → P behind b t →
      (Prog.foldUntil body ahead b).Guarded exec i guard (Halts (P l) Q) t from hfrom [] l b s rfl h
  intro behind ahead
  induction ahead generalizing behind with
  | nil =>
    intro b t hl hP
    rw [List.append_nil] at hl
    exact hl ▸ hP
  | cons a ahead ih =>
    intro b t hl hP
    apply (hbody behind a ahead b t hl hP).bind
    intro r u hr
    obtain ⟨b', stopped⟩ := r
    -- Where the body says to stop, what it said ends the loop.
    cases stopped with
    | some e => exact hr
    | none =>
      exact ih (behind ++ [a]) b' u (by rw [hl, List.append_assoc, List.singleton_append]) hr

end Prog

end Conc
