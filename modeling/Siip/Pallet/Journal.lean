/-
  The event log is a complete journal: who replays it holds `CertificateMap`.

  `apply` is what one event says about the map. `Journaled` relates a storage to its log: the
  replay of the log is the map, and each event told the truth about the replay when it was
  deposited (`Records`). Every call keeps it, since what an event carries as the old certificate
  is what was stored.
-/
import Siip.Pallet.ReverseLookup

namespace Siip.Pallet

open Lib

variable {A : Type}

/-- The map, as the events of a log describe it. -/
abbrev Ledger (A : Type) := StorageMap Bytes (Certificate A)

/-- A registration inserts its certificate, a modification replaces its second certificate by its
    first, a removal deletes its certificate. -/
def apply (m : Ledger A) : Event A → Ledger A
  | .certificateRegistered cert _ => m.insert cert.domain cert
  | .certificateModified cert old _ => (m.remove old.domain).insert cert.domain cert
  | .certificateRemoved old _ => m.remove old.domain

def replay (events : List (Event A)) : Ledger A := run apply StorageMap.empty events

/-- What an event says about the map before it: the old certificate is the one held for its
    domain, a registered domain is new, and the account is the owner's. -/
def Records (m : Ledger A) : Event A → Prop
  | .certificateRegistered cert who => m.find? cert.domain = none ∧ who = cert.ownerId
  | .certificateModified cert old who =>
    m.find? old.domain = some old ∧ cert.domain = old.domain ∧ who = old.ownerId
  | .certificateRemoved old who => m.find? old.domain = some old ∧ who = old.ownerId

structure Journaled (s : Storage A) : Prop where
  keyed : KeyedByDomain s
  replayed : replay s.events = s.certificateMap
  recorded : EachStep apply Records StorageMap.empty s.events

theorem journaled_empty : Journaled (Storage.empty : Storage A) where
  keyed := indexed_empty.keyed
  replayed := rfl
  recorded := trivial

/-- One more event, that records the map and describes its update. -/
theorem Journaled.deposit {s s' : Storage A} {e : Event A} (h : Journaled s)
    (hkeyed : KeyedByDomain s') (hevents : s'.events = s.events ++ [e])
    (hrecords : Records s.certificateMap e)
    (happly : apply s.certificateMap e = s'.certificateMap) : Journaled s' := by
  have hreplay : run apply StorageMap.empty s.events = s.certificateMap := h.replayed
  refine ⟨hkeyed, ?_, ?_⟩
  · rw [hevents, replay, run_append, hreplay]
    exact happly
  · rw [hevents, eachStep_concat, hreplay]
    exact ⟨h.recorded, hrecords⟩

variable [DecidableEq A] [Inhabited A]

theorem journaled_step (env : Env) (s : Storage A) (x : Extrinsic A) (h : Journaled s) :
    Journaled (step env s x) := by
  have heff := effect_dispatch env s x
  generalize step env s x = s', result env s x = r at heff
  cases heff with
  | refused e => exact h
  | registered who n d ip i k fields fresh =>
    exact h.deposit (h.keyed.insert _) rfl ⟨fresh, rfl⟩ rfl
  | modified n d ip i k old fields stored changed =>
    have hdomain : old.domain = d := h.keyed d old stored
    refine h.deposit (h.keyed.insert _) rfl ⟨hdomain.symm ▸ stored, hdomain.symm, rfl⟩ ?_
    show (s.certificateMap.remove old.domain).insert d _ = s.certificateMap.insert d _
    rw [hdomain, StorageMap.insert_remove]
  | removed d old domain stored =>
    have hdomain : old.domain = d := h.keyed d old stored
    refine h.deposit (h.keyed.remove d) rfl ⟨hdomain.symm ▸ stored, rfl⟩ ?_
    show s.certificateMap.remove old.domain = s.certificateMap.remove d
    rw [hdomain]

/-- Replaying the events of a run gives `CertificateMap`, and every event carries the certificate
    that the replay holds when it comes, and its owner. -/
theorem journal_complete (env : Env) (xs : List (Extrinsic A)) :
    let s := runFromEmpty env xs
    replay s.events = s.certificateMap ∧ EachStep apply Records StorageMap.empty s.events := by
  have h : Journaled (runFromEmpty env xs) :=
    run_invariant (journaled_step env) journaled_empty xs
  exact ⟨h.replayed, h.recorded⟩

end Siip.Pallet
