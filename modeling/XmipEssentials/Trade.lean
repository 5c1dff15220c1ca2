import XmipEssentials.Rotation
import XmipEssentials.Lib.Dealing

/-!
# The spread is an exact trade

The transports are dealt to the Parties in turn, each to the one that sends over it, and a Party is
delivered to over what the one before it sends over: two lists a Party and two lookups that come of
one deal (`Spread.trade_of_distinct`).
-/

namespace XmipEssentials

open Text Dealing

namespace Spread

variable {ρ : Type} {s : Spread ρ}

private theorem sender_lt (s : Spread ρ) (transport : Text) : s.sender transport < s.count :=
  Nat.mod_lt _ s.count_pos

private theorem receiver_lt (s : Spread ρ) (transport : Text) : s.receiver transport < s.count :=
  Nat.mod_lt _ s.count_pos

/-- Distinct transports are at the places of their list. -/
theorem map_place (h : s.transports.Nodup) :
    s.transports.map s.place = List.range s.transports.length := by
  apply List.ext_getElem (by rw [List.length_map, List.length_range])
  intro place hplace _
  rw [List.getElem_map, List.getElem_range]
  exact place_of_getElem? h (List.getElem?_eq_getElem _)

/-- The next Party is delivered to over a transport where this one sends over it. -/
theorem receiver_eq_iff {transport : Text} {party : Nat} (hparty : party < s.count) :
    s.receiver transport = (party + 1) % s.count ↔ s.sender transport = party := by
  rw [receiver, sender]
  constructor
  · intro h
    -- One more on both sides changes nothing modulo the count.
    have hsame : s.place transport % s.count = party % s.count := Nat.ModEq.add_right_cancel' 1 h
    rwa [Nat.mod_eq_of_lt hparty] at hsame
  · intro h
    rw [Nat.add_mod, h, Nat.add_mod_mod]

/-- Between two Parties or more, who sends over a transport is not who is delivered to over it. -/
theorem sender_ne_receiver (hcount : 2 ≤ s.count) (transport : Text) :
    s.sender transport ≠ s.receiver transport := by
  intro h
  have hnext := (receiver_eq_iff (s.sender_lt transport)).mpr rfl
  rw [← h] at hnext
  -- The next of a Party is the one after it, or after the last one the first: never itself.
  rcases Nat.lt_or_ge (s.sender transport + 1) s.count with hlt | hge
  · rw [Nat.mod_eq_of_lt hlt] at hnext
    omega
  · have hlast : s.sender transport + 1 = s.count := le_antisymm (s.sender_lt transport) hge
    rw [hlast, Nat.mod_self] at hnext
    omega

/-- What holds of a spread of distinct transports over two Parties or more. -/
structure Trade (s : Spread ρ) : Prop where
  /-- The lists sent over are the transports, each in one list, and so are those delivered to
  over. -/
  sent : ((List.range s.count).flatMap s.sends).Perm s.transports
  delivered : ((List.range s.count).flatMap s.receives).Perm s.transports
  /-- No Party is delivered to over what it sends over. -/
  apart : ∀ party, ∀ transport ∈ s.sends party, transport ∉ s.receives party
  /-- What a Party sends over is what the next is delivered to over. -/
  next : ∀ party < s.count, s.receives ((party + 1) % s.count) = s.sends party
  /-- No list is two transports longer than another Party's. -/
  even : ∀ party < s.count, ∀ other < s.count, (s.sends party).length ≤ (s.sends other).length + 1 ∧
    (s.receives party).length ≤ (s.receives other).length + 1
  /-- The lookups name the Parties whose lists hold a transport. -/
  sender : ∀ transport ∈ s.transports, s.sender transport < s.count ∧
    ∀ party, transport ∈ s.sends party ↔ party = s.sender transport
  receiver : ∀ transport ∈ s.transports, s.receiver transport < s.count ∧
    ∀ party, transport ∈ s.receives party ↔ party = s.receiver transport

/-- **The spread of distinct transports over two Parties or more is an exact trade.** -/
theorem trade_of_distinct (s : Spread ρ) (hcount : 2 ≤ s.count) (h : s.transports.Nodup) :
    s.Trade := by
  have hnext : ∀ party < s.count, s.receives ((party + 1) % s.count) = s.sends party := by
    intro party hparty
    apply List.filter_congr
    intro transport _
    exact decide_eq_decide.mpr (receiver_eq_iff hparty)
  -- A Party is the next of the one before it.
  have hprevious : ∀ party < s.count, ∃ previous < s.count, s.receives party =
    s.sends previous := by
    intro party hparty
    refine ⟨(party + (s.count - 1)) % s.count, Nat.mod_lt _ s.count_pos, ?_⟩
    rw [← hnext _ (Nat.mod_lt _ s.count_pos), Nat.mod_add_mod, Nat.add_assoc,
      Nat.sub_add_cancel s.count_pos, Nat.add_mod_right, Nat.mod_eq_of_lt hparty]
  have hsent : ∀ party < s.count, ∀ other < s.count, (s.sends party).length ≤
    (s.sends other).length + 1 :=
    fun party hparty other hother => length_dealt_le (map_place h) hparty hother
  exact {
    sent := perm_hands List.nodup_range fun transport _ =>
    List.mem_range.mpr (s.sender_lt transport)
    delivered := perm_hands List.nodup_range fun transport _ =>
      List.mem_range.mpr (s.receiver_lt transport)
    apart := fun party transport hsends hreceives =>
      sender_ne_receiver hcount transport
        ((mem_hand.mp hsends).2.trans (mem_hand.mp hreceives).2.symm)
    next := hnext
    even := by
      intro party hparty other hother
      obtain ⟨before, hbefore, hparty'⟩ := hprevious party hparty
      obtain ⟨before', hbefore', hother'⟩ := hprevious other hother
      rw [hparty', hother']
      exact ⟨hsent party hparty other hother, hsent before hbefore before' hbefore'⟩
    sender := fun transport hmem => ⟨s.sender_lt transport, fun party =>
      mem_hand.trans ((and_iff_right hmem).trans eq_comm)⟩
    receiver := fun transport hmem => ⟨s.receiver_lt transport, fun party =>
      mem_hand.trans ((and_iff_right hmem).trans eq_comm)⟩ }

/-- Two Parties over three transports. -/
theorem trade_of_two :
    Trade (⟨⟨["one", "two"], by decide⟩, ["tcp".toList, "udp".toList, "http".toList]⟩ :
      Spread String) :=
  trade_of_distinct _ (by decide) (by decide)

end Spread

end XmipEssentials
