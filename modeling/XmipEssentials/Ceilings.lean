import XmipEssentials.HeavyLoad

/-!
# Heavy load and ceilings

A load is refused unsent where the size asked for is above the transport's ceiling, and is built
only then: by whole units, until it is at least so large. So what a transport is handed is within
its ceiling just where the fewest units that reach the size leave it there (`respects_iff`), over
every pair of a round (`ceilings_respected_iff`).
-/

namespace XmipEssentials

open Text Padding Conc

/-- A process's rig, with the large payloads as they are built. -/
def Estate.rig (E : Estate) : Rig := { toEstate := E, large := largePayload E.enc }

/-! ### How large a load is -/

/-- A load of a contract at a size takes so many bytes: the contract's fixed parts and the fewest
whole units that reach the size, or so many records, where the size is one to be parsed; else the
size itself. -/
def Takes (enc : Encoders) (contract : Contract) (size n : Nat) : Prop :=
  if VALIDATE_CEILING < size then n = size
  else if size = 0 then n = (contract.payload enc).length
  else
    match contract.shape with
    | some s => ∃ count, s.Fewest size count ∧ n = byteLen (s.document count)
    | none =>
      match contract with
      | .avro => n = (enc.avroContainer (size / 12 + 1) "heavy record".toList).length
      | .protobuf => n = (enc.protobufMessage (size / 12 + 1) "heavy rec.".toList).length
      | _ => n = size

/-- The payload of a load. -/
def HeavyLoad.load (E : Rig) (contract : Contract) (size : Nat) : List UInt8 :=
  if size ≤ VALIDATE_CEILING then E.payload contract size else filler size

theorem takes_iff {E : Estate} {contract : Contract} {size n : Nat} :
    Takes E.enc contract size n ↔ n = (HeavyLoad.load E.rig contract size).length := by
  unfold Takes HeavyLoad.load
  by_cases hlarge : VALIDATE_CEILING < size
  · -- What is too large to be parsed again is bare filler, of the very size.
    rw [if_pos hlarge, if_neg (Nat.not_le.mpr hlarge), length_filler]
  rw [if_neg hlarge, if_pos (Nat.not_lt.mp hlarge), Rig.payload]
  -- Asked for at nothing, the contract's own payload goes as it is.
  by_cases hzero : size = 0
  · rw [if_pos hzero, if_pos hzero]
    rfl
  rw [if_neg hzero, if_neg hzero]
  change _ ↔ n = (largePayload E.enc contract size).length
  unfold largePayload
  cases hshape : contract.shape with
  | some s =>
    dsimp only
    -- The fewest units that reach the size are those that `fill` stops at.
    constructor
    · rintro ⟨count, hfewest, rfl⟩
      rw [Shape.fill_of_fewest hfewest]
      rfl
    · rintro rfl
      obtain ⟨count, hfewest, hfill⟩ := s.exists_fill size
      exact ⟨count, hfewest, by rw [hfill]; rfl⟩
  | none =>
    cases contract with
    | avro | protobuf => exact Iff.rfl
    | _ => exact iff_of_eq (congrArg (n = ·) (length_filler size).symm)

/-! ### What transports are handed -/

/-- What transports were handed, first to last. -/
abbrev Handed : Type := List (Text × List UInt8)

/-- Transports that answer as they like, and what they are handed. -/
def handing : Exec Unit RelayOp Handed := fun _ _ op s _ s' =>
  match op with
  | .exchange transport payload => s' = s ++ [(transport, payload)]
  | _ => s' = s

private theorem handing_total : handing.Total := by
  intro _ _ op s
  obtain ⟨answer⟩ := op.nonempty
  cases op with
  | exchange transport payload => exact ⟨answer, s ++ [(transport, payload)], rfl⟩
  | _ => exact ⟨answer, s, rfl⟩

namespace HeavyLoad

variable {E : Rig} {D : Shown} {h : HeavyLoad} {transport : Text} {contract : Contract}
    {log : Handed}

/-- What a load hands over: its payload, unless its size is above the transport's ceiling. -/
def handed (E : Rig) (h : HeavyLoad) (transport : Text) (contract : Contract) : Handed :=
  if (h.ceiling transport).any (· < h.sizeThisRound) then []
    else [(transport, load E contract h.sizeThisRound)]

/-- The line of a load whose size is above the ceiling. -/
def refused (D : Shown) (size limit : Nat) : Line :=
  .failed (D.human size ++ " exceeds the transport's ceiling of ".toList ++ D.human limit)

private theorem ends_exchange (transport : Text) (payload : List UInt8)
    (judge : Int → Exchange → Int → Line) (log : Handed) :
    (do
      let started ← Prog.perform .now
      let exchange ← Prog.perform (.exchange transport payload)
      let ended ← Prog.perform .now
      pure (judge started exchange ended) : Prog RelayOp Line).Ends handing ()
        (fun _ after => after = log ++ [(transport, payload)]) log := by
  refine Prog.ends_call.mpr fun started s hs => Prog.ends_call.mpr fun exchange t ht =>
    Prog.ends_call.mpr fun ended u hu => Prog.ends_pure.mpr ?_
  obtain rfl : s = log := hs
  obtain rfl : t = s ++ [(transport, payload)] := ht
  exact hu

/-- **One load**: what is handed over, and the refusal where nothing is. -/
theorem ends_carry (E : Rig) (D : Shown) (h : HeavyLoad) (transport : Text) (contract : Contract)
    (log : Handed) :
    (h.carry E D transport contract).Ends handing ()
    (fun line after => after = log ++ h.handed E transport contract ∧
      ∀ limit, h.ceiling transport = some limit → limit < h.sizeThisRound →
        line = refused D h.sizeThisRound limit) log := by
  unfold carry handed
  dsimp only
  cases hceiling : h.ceiling transport with
  | none =>
    -- No ceiling is named: the load goes whatever its size.
    refine (ends_exchange transport _ _ log).mono fun line after hafter =>
      ⟨hafter, fun limit hlimit => ?_⟩
    exact absurd hlimit (Option.some_ne_none limit).symm
  | some limit =>
    by_cases habove : limit < h.sizeThisRound
    · -- The size alone is held to the ceiling, before a payload is built.
      have hfilter : (some limit).filter (· < h.sizeThisRound) = some limit :=
        Option.filter_some_pos (decide_eq_true habove)
      rw [hfilter, Option.any_some, if_pos (decide_eq_true habove)]
      refine Prog.ends_pure.mpr ⟨(List.append_nil log).symm, fun other hother _ => ?_⟩
      rw [← Option.some.inj hother]
      rfl
    · have hwithin : decide (limit < h.sizeThisRound) = false := decide_eq_false habove
      -- At or below the ceiling the payload built is sent, however long it came out.
      have hfilter : (some limit).filter (· < h.sizeThisRound) = none :=
        Option.filter_some_neg hwithin
      rw [hfilter, Option.any_some, hwithin, if_neg Bool.false_ne_true]
      refine (ends_exchange transport _ _ log).mono fun line after hafter =>
        ⟨hafter, fun other hother hlt => ?_⟩
      exact absurd (Option.some.inj hother ▸ hlt) habove

/-- A transport is never handed a payload above its ceiling: a load that would be is refused, and
nothing is sent. -/
def Respects (E : Rig) (D : Shown) (h : HeavyLoad) (transport : Text) (contract : Contract) :
    Prop :=
  ∀ limit, h.ceiling transport = some limit → ∀ line log,
    (h.carry E D transport contract).Runs handing () [] line log →
      (∀ one ∈ log, one.2.length ≤ limit) ∧
        (limit < (load E contract h.sizeThisRound).length → log = [] ∧
          line = refused D h.sizeThisRound limit)

/-- The size is above the transport's ceiling, or what a load of it takes is within. -/
def Fits (enc : Encoders) (h : HeavyLoad) (transport : Text) (contract : Contract) : Prop :=
  ∀ limit, h.ceiling transport = some limit →
    limit < h.sizeThisRound ∨ ∃ n ≤ limit, Takes enc contract h.sizeThisRound n

/-- What a load hands over is within the ceiling just where the size is above it or what the load
takes is within. -/
theorem handed_within_iff {E : Estate} :
    (∀ one ∈ h.handed E.rig transport contract, ∀ limit, h.ceiling one.1 = some limit →
      one.2.length ≤ limit) ↔
      h.Fits E.enc transport contract := by
  unfold handed Fits
  constructor
  · intro hwithin limit hceiling
    -- a load larger than the ceiling in any size is refused; any other has to fit
    rcases Nat.lt_or_ge limit h.sizeThisRound with habove | hle
    · exact .inl habove
    rw [hceiling, Option.any_some, if_neg (by rw [decide_eq_true_iff]; exact Nat.not_lt.mpr hle)]
      at hwithin
    exact .inr ⟨_, hwithin _ (List.mem_singleton_self _) limit hceiling, takes_iff.mpr rfl⟩
  · intro hfits one hone limit hceiling
    split_ifs at hone with hrefused
    · exact absurd hone List.not_mem_nil
    -- what is handed over is the load of the pair, and only where it is not refused
    obtain rfl := List.mem_singleton.mp hone
    rw [hceiling, Option.any_some, decide_eq_true_iff] at hrefused
    obtain ⟨n, hn, htakes⟩ := (hfits limit hceiling).resolve_left hrefused
    rw [takes_iff] at htakes
    exact htakes ▸ hn

/-- **A ceiling is respected** just where the size is above it or what a load of the size takes is
within. -/
theorem respects_iff (E : Estate) (D : Shown) (h : HeavyLoad) (transport : Text)
    (contract : Contract) :
    h.Respects E.rig D transport contract ↔ h.Fits E.enc transport contract := by
  rw [← handed_within_iff]
  constructor
  · intro hrespects one hone limit hceiling
    -- There is a run, and what it hands over is what every run does.
    obtain ⟨line, log, hruns⟩ :=
      Prog.exists_runs handing_total (h.carry E.rig D transport contract) []
    have hlog := (ends_carry E.rig D h transport contract [] line log hruns).1
    have htransport : one.1 = transport := by
      unfold handed at hone
      split_ifs at hone
      · exact absurd hone List.not_mem_nil
      · rw [List.mem_singleton.mp hone]
    exact (hrespects limit (htransport ▸ hceiling) line log hruns).1 one (hlog ▸ hone)
  · intro hwithin limit hceiling line log hruns
    obtain ⟨rfl, hline⟩ := ends_carry E.rig D h transport contract [] line log hruns
    rw [List.nil_append]
    unfold handed at hwithin ⊢
    -- Refused, nothing is handed over; sent, what is handed over is within, so none was to be
    -- refused.
    by_cases habove : limit < h.sizeThisRound
    · have hrefused : (h.ceiling transport).any (· < h.sizeThisRound) = true := by
        rw [hceiling]
        exact decide_eq_true habove
      rw [if_pos hrefused]
      exact ⟨fun _ hone => absurd hone List.not_mem_nil,
        fun _ => ⟨rfl, hline limit hceiling habove⟩⟩
    · have hsent : ¬(h.ceiling transport).any (· < h.sizeThisRound) = true := by
        rw [hceiling, Option.any_some, decide_eq_true_iff]
        exact habove
      rw [if_neg hsent] at hwithin ⊢
      have hle := hwithin _ (List.mem_singleton_self _) limit hceiling
      exact ⟨List.forall_mem_singleton.mpr hle, fun hlonger => absurd hle (Nat.not_le.mpr hlonger)⟩

/-! ### A round of loads -/

/-- What the load at a place of the matrix hands over. -/
def handedAt (E : Rig) (h : HeavyLoad) (place : Nat) : Handed :=
  (h.pairAt place).elim [] fun pair => h.handed E pair.1 pair.2

private theorem ends_carryEach (E : Rig) (D : Shown) (places : List Nat) (h : HeavyLoad)
    (log : Handed) :
    (carryEach E D places h).Ends handing ()
    (fun _ after => after = log ++ places.flatMap (h.handedAt E)) log := by
  induction places generalizing h log with
  | nil => exact Prog.ends_pure.mpr (List.append_nil log).symm
  | cons place places ih =>
    unfold carryEach
    rw [List.flatMap_cons, handedAt]
    cases h.pairAt place with
    | none => exact ih h log
    | some pair =>
      refine (ends_carry E D h pair.1 pair.2 log).bind fun line middle hmiddle => ?_
      -- The loads before are in the log of the first, and the rest appends to it.
      refine (ih (h.recorded pair.1 pair.2 line) middle).mono fun _ after hafter => ?_
      rw [hafter, hmiddle.1, List.append_assoc]
      -- What is recorded of a pair changes nothing that the others' loads are made of.
      rfl

variable {S : Type} [Snapshot S]

/-- The exercise in its next round. -/
def next (h : HeavyLoad) : HeavyLoad := { h with round := h.round + 1 }

private theorem ends_tick (E : Rig) (D : Shown) (h : HeavyLoad) (log : Handed) :
    (h.tick E D : Prog RelayOp (S × HeavyLoad)).Ends handing ()
      (fun _ after => after = log ++ h.next.places.flatMap (h.next.handedAt E)) log := by
  refine Prog.ends_call.mpr fun now s hs => ?_
  obtain rfl : s = log := hs
  exact (ends_carryEach E D h.next.places h.next s).bind fun _ after hafter =>
    Prog.ends_pure.mpr hafter

/-- **Ceilings are respected** by a load just where its size is above the ceiling or what it takes
is within, and by a round just where all its loads are so. -/
theorem ceilings_respected_iff (E : Estate) (D : Shown) (h : HeavyLoad) :
    (∀ transport contract, h.Respects E.rig D transport contract ↔
      h.Fits E.enc transport contract) ∧
      ((∀ (snapshot : S) (after : HeavyLoad) log, (h.tick E.rig D).Runs handing () []
      (snapshot, after) log →
          ∀ one ∈ log, ∀ limit, h.ceiling one.1 = some limit → one.2.length ≤ limit) ↔
        ∀ place ∈ h.next.places, ∀ pair, h.next.pairAt place = some pair →
          h.next.Fits E.enc pair.1 pair.2) := by
  refine ⟨respects_iff E D h, fun hwithin place hplace pair hpair => ?_,
    fun hfits snapshot after log hruns => ?_⟩
  · obtain ⟨⟨snapshot, after⟩, log, hruns⟩ := Prog.exists_runs handing_total
      (h.tick E.rig D : Prog RelayOp (S × HeavyLoad)) []
    have hlog := ends_tick E.rig D h [] _ log hruns
    -- The round's own run hands the pair's payload over with the others'.
    refine handed_within_iff.mp fun one hone limit hceiling =>
      hwithin snapshot after log hruns one ?_ limit hceiling
    rw [hlog, List.nil_append]
    refine List.mem_flatMap.mpr ⟨place, hplace, ?_⟩
    rw [handedAt, hpair]
    exact hone
  · intro one hone limit hceiling
    rw [ends_tick E.rig D h [] _ log hruns, List.nil_append] at hone
    -- Whatever the round handed over, one of its places did.
    obtain ⟨place, hplace, hhanded⟩ := List.mem_flatMap.mp hone
    unfold handedAt at hhanded
    cases hpair : h.next.pairAt place with
    | none =>
      rw [hpair] at hhanded
      exact absurd hhanded List.not_mem_nil
    | some pair =>
      rw [hpair] at hhanded
      exact handed_within_iff.mpr (hfits place hplace pair hpair) one hhanded limit hceiling

end HeavyLoad

/-- A text of one unit again and again takes a multiple of the unit. -/
theorem byteLen_repeatTo {unit : Text} (h : unit ≠ []) (count : Nat) :
    byteLen ((repeatTo unit h).document count) = count * byteLen unit := by
  rw [Shape.document, Units.row_const fun _ => rfl]
  change byteLen ([] ++ (List.replicate count unit).flatten ++ []) = _
  rw [List.nil_append, List.append_nil]
  induction count with
  | zero => rw [Nat.zero_mul]; rfl
  | succ count ih => rw [List.replicate_succ, List.flatten_cons, byteLen_append, ih, Nat.succ_mul,
      Nat.add_comm]

/-- A text as large as the largest datagram is handed to a transport that carries no more: it takes
three bytes more than its size. -/
theorem text_beyond_ceiling :
    let h : HeavyLoad :=
      { HeavyLoad.new ['n'] ["udp".toList] (fun _ => some 65507) with bytes := 65507 }
    h.sizeThisRound = 65507 ∧
      ¬h.Respects Schedule.anyRig.toEstate.rig ⟨fun _ => [], fun _ _ _ _ => []⟩ "udp".toList
        .text := by
  refine ⟨rfl, fun hrespects => ?_⟩
  obtain habove | ⟨n, hn, htakes⟩ := (HeavyLoad.respects_iff _ _ _ _ _).mp hrespects 65507 rfl
  · exact absurd habove (by decide)
  · let s := repeatTo "xmip load ".toList (by decide)
    obtain ⟨count, ⟨hreached, -⟩, rfl⟩ : ∃ count, s.Fewest 65507 count ∧
      n = byteLen (s.document count) := htakes
    have hsize : byteLen (s.document count) = count * 10 := byteLen_repeatTo _ count
    have hbody : byteLen (s.document count) = byteLen (s.head ++ s.units.row s.first count) :=
      congrArg byteLen (List.append_nil _)
    change 65507 ≤ byteLen (s.head ++ s.units.row s.first count) + 0 at hreached
    -- No multiple of ten is as large as the size and within the ceiling.
    omega

end XmipEssentials
