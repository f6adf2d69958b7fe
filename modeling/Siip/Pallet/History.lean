/-
  What the history of a chain says, and what it is needed for.

  The events of a run name the extrinsics that have succeeded, in their order, and these alone
  rebuild the whole storage, the buckets of the reverse map and the events included
  (`history_replays`). A registration for each live certificate is enough to rebuild
  `CertificateMap`, in any order, and the reverse map that comes with it has the live certificates
  and no others (`snapshot_rebuilds`). The owner of a domain changes in one way only: it removes
  the domain, and the other account registers it (`owner_change`).
-/
import Siip.Pallet.Outcome
import Siip.Pallet.ReverseLookup

namespace Siip.Pallet

open Lib

variable {A : Type}

/-! ## Events and extrinsics -/

/-- The extrinsic that has deposited the event. -/
def Event.extrinsic : Event A → Extrinsic A
  | .certificateRegistered cert who =>
    ⟨.signed who, .registerCertificate cert.name cert.domain cert.ipAddr cert.info cert.key⟩
  | .certificateModified cert _ who =>
    ⟨.signed who, .modifyCertificate cert.name cert.domain cert.ipAddr cert.info cert.key⟩
  | .certificateRemoved old who => ⟨.signed who, .removeCertificate old.domain⟩

section

variable [DecidableEq A] [Inhabited A] (env : Env)

/-- The extrinsics of the run of `xs` from `s` that succeed. -/
def succeeded (s : Storage A) : List (Extrinsic A) → List (Extrinsic A)
  | [] => []
  | x :: xs =>
    if result env s x = .ok () then x :: succeeded (step env s x) xs
    else succeeded (step env s x) xs

theorem succeeded_append (s : Storage A) (xs ys : List (Extrinsic A)) :
    succeeded env s (xs ++ ys) = succeeded env s xs ++ succeeded env (run (step env) s xs) ys := by
  induction xs generalizing s with
  | nil => rfl
  | cons x xs ih =>
    rw [List.cons_append, succeeded, succeeded, ih, run_cons]
    split
    · rfl
    · rfl

/-- A call that succeeds deposits one event, which names it. -/
theorem events_step_of_ok {s : Storage A} {x : Extrinsic A} (hkeyed : KeyedByDomain s)
    (h : result env s x = .ok ()) :
    ∃ e : Event A, (step env s x).events = s.events ++ [e] ∧ e.extrinsic = x := by
  have heff := effect_dispatch env s x
  generalize step env s x = s', result env s x = r at heff h
  cases heff with
  | refused e => exact absurd h (by simp)
  | registered who n d ip i k fields fresh => exact ⟨_, rfl, rfl⟩
  | modified n d ip i k old fields stored changed => exact ⟨_, rfl, rfl⟩
  | removed d old domain stored =>
    refine ⟨_, rfl, ?_⟩
    rw [Event.extrinsic, hkeyed d old stored]

theorem step_of_not_ok {s : Storage A} {x : Extrinsic A} (h : result env s x ≠ .ok ()) :
    step env s x = s := by
  cases hresult : result env s x with
  | ok u => exact absurd hresult h
  | error e => exact step_of_error hresult

theorem runFromEmpty_concat (xs : List (Extrinsic A)) (x : Extrinsic A) :
    runFromEmpty env (xs ++ [x]) = step env (runFromEmpty env xs) x :=
  run_concat Storage.empty xs x

/-- The storage is what its events rebuild, and they name what has succeeded. -/
structure Rebuilt (xs : List (Extrinsic A)) (s : Storage A) : Prop where
  indexed : Indexed s
  named : s.events.map Event.extrinsic = succeeded env Storage.empty xs
  rebuilt : runFromEmpty env (s.events.map Event.extrinsic) = s
  each : EachStep (step env) (fun t x => result env t x = .ok ()) Storage.empty
    (s.events.map Event.extrinsic)

/-- One more call, after a run `xs` to `s`. -/
theorem Rebuilt.step {xs : List (Extrinsic A)} {s : Storage A} (h : Rebuilt env xs s)
    (hs : run (step env) Storage.empty xs = s) (x : Extrinsic A) :
    Rebuilt env (xs ++ [x]) (step env s x) := by
  obtain ⟨hindexed, hnamed, hrebuilt, heach⟩ := h
  have hindexed' := indexed_step env s x hindexed
  have hsucceeded := succeeded_append env Storage.empty xs [x]
  rw [hs, succeeded, succeeded] at hsucceeded
  by_cases hok : result env s x = .ok ()
  · obtain ⟨e, hevents, he⟩ := events_step_of_ok env hindexed.keyed hok
    have hmap : (Pallet.step env s x).events.map Event.extrinsic =
        s.events.map Event.extrinsic ++ [x] := by
      rw [hevents, List.map_append, List.map_singleton, he]
    rw [if_pos hok] at hsucceeded
    refine ⟨hindexed', ?_, ?_, ?_⟩
    · rw [hmap, hnamed, hsucceeded]
    · rw [hmap, runFromEmpty_concat, hrebuilt]
    · rw [runFromEmpty] at hrebuilt
      rw [hmap, eachStep_concat, hrebuilt]
      exact ⟨heach, hok⟩
  · rw [if_neg hok, List.append_nil] at hsucceeded
    rw [step_of_not_ok env hok]
    exact ⟨hindexed, hnamed.trans hsucceeded.symm, hrebuilt, heach⟩

theorem rebuilt_run (xs : List (Extrinsic A)) : Rebuilt env xs (runFromEmpty env xs) := by
  have hstep : ∀ (xs : List (Extrinsic A)) x, Rebuilt env xs (run (step env) Storage.empty xs) →
      Rebuilt env (xs ++ [x]) (step env (run (step env) Storage.empty xs) x) :=
    fun _ x h => h.step env rfl x
  exact run_history ⟨indexed_empty, rfl, rfl, trivial⟩ hstep xs

/-- The events name what has succeeded, in its order; it succeeds again on a new chain, and makes
    the same storage there, event for event. -/
theorem history_replays (xs : List (Extrinsic A)) :
    let s := runFromEmpty env xs
    let ys := s.events.map Event.extrinsic
    ys = succeeded env Storage.empty xs ∧ runFromEmpty env ys = s ∧
      EachStep (step env) (fun t x => result env t x = .ok ()) Storage.empty ys :=
  have h := rebuilt_run env xs
  ⟨h.named, h.rebuilt, h.each⟩

end

/-! ## Snapshots -/

/-- The extrinsic that registers a certificate for its owner. -/
def Certificate.registration (c : Certificate A) : Extrinsic A :=
  ⟨.signed c.ownerId, .registerCertificate c.name c.domain c.ipAddr c.info c.key⟩

/-- The certificates of a map, each once. -/
structure Snapshot (m : StorageMap Bytes (Certificate A)) (cs : List (Certificate A)) : Prop where
  nodup : (cs.map Certificate.domain).Nodup
  mem_iff : ∀ c, c ∈ cs ↔ m.find? c.domain = some c

section

variable {m : StorageMap Bytes (Certificate A)} {cs : List (Certificate A)}

theorem Snapshot.insert (h : Snapshot m cs) {c : Certificate A} (hfresh : m.find? c.domain = none) :
    Snapshot (m.insert c.domain c) (cs ++ [c]) where
  nodup := by
    refine NodupKeys.push h.nodup fun c' hc' hdomain => ?_
    rw [h.mem_iff, hdomain, hfresh] at hc'
    exact absurd hc' (by simp)
  mem_iff c' := by
    rw [List.mem_append, List.mem_singleton, h.mem_iff]
    by_cases hd : c'.domain = c.domain
    · rw [hd, hfresh, StorageMap.find?_insert_self, Option.some.injEq]
      constructor
      · intro h
        exact h.elim (fun h => absurd h (by simp)) Eq.symm
      · exact fun h => .inr h.symm
    · rw [StorageMap.find?_insert_of_ne _ _ hd]
      constructor
      · intro h
        exact h.elim id fun h => absurd (congrArg Certificate.domain h) hd
      · exact .inl

theorem Snapshot.remove (h : Snapshot m cs) (d : Bytes) :
    Snapshot (m.remove d) (retain Certificate.domain d cs) where
  nodup := NodupKeys.retain h.nodup d
  mem_iff c := by
    rw [mem_retain, h.mem_iff]
    by_cases hd : c.domain = d
    · simp [hd]
    · simp [hd]

end

section

variable [DecidableEq A] [Inhabited A] {env : Env}

/-- The storage of the certificates `cs`, in the order of their registration. -/
structure Lists (s : Storage A) (cs : List (Certificate A)) : Prop where
  forward : ∀ d, s.certificateMap.find? d = cs.find? (·.domain = d)
  reverse : ∀ ip, ipToCertificates s ip = cs.filter (·.ipAddr = ip)

omit [DecidableEq A] [Inhabited A] in
theorem lists_empty : Lists (Storage.empty : Storage A) [] := ⟨fun _ => rfl, fun _ => rfl⟩

omit [DecidableEq A] [Inhabited A] in
theorem Lists.registered {s : Storage A} {cs : List (Certificate A)} (h : Lists s cs)
    {c : Certificate A} (hfresh : s.certificateMap.find? c.domain = none) :
    Lists (s.registered c) (cs ++ [c]) where
  forward d := by
    rw [List.find?_append, ← h.forward]
    by_cases hd : d = c.domain
    · subst hd
      rw [hfresh]
      simp [Storage.registered]
    · have hd' : ¬ c.domain = d := fun h => hd h.symm
      simp [Storage.registered, hd, hd']
  reverse ip := by
    rw [List.filter_append, ← h.reverse]
    by_cases hip : ip = c.ipAddr
    · subst hip
      simp [Storage.registered, ipToCertificates]
    · have hip' : ¬ c.ipAddr = ip := fun h => hip h.symm
      simp [Storage.registered, ipToCertificates, hip, hip']

/-- Certificates that pass the checks can be registered one after the other, if their domains
    differ. -/
theorem lists_run {cs : List (Certificate A)} (hnodup : (cs.map Certificate.domain).Nodup)
    (hcs : ∀ c ∈ cs, c.versionNumber = certificateVersion ∧ Accepted env c) :
    Lists (runFromEmpty env (cs.map Certificate.registration)) cs := by
  induction cs using List.reverseRecOn with
  | nil => exact lists_empty
  | append_singleton cs c ih =>
    rw [List.map_append, List.map_singleton, List.nodup_append] at hnodup
    obtain ⟨hnodup, -, hdisjoint⟩ := hnodup
    have hlists := ih hnodup fun c' hc' => hcs c' (List.mem_append_left _ hc')
    obtain ⟨hversion, haccepted⟩ := hcs c (List.mem_append_right _ (List.mem_singleton_self c))
    have hcert : newCert c.ownerId c.name c.domain c.ipAddr c.info c.key = c := by
      rw [newCert, ← hversion]
    have hfields := (accepted_newCert_iff c.ownerId).mp (hcert.symm ▸ haccepted)
    have hfresh : (runFromEmpty env (cs.map Certificate.registration)).certificateMap.find?
        c.domain = none := by
      rw [hlists.forward, List.find?_eq_none]
      intro c' hc'
      rw [decide_eq_true_eq]
      exact hdisjoint _ (List.mem_map_of_mem hc') _ (List.mem_singleton_self _)
    rw [List.map_append, List.map_singleton, runFromEmpty_concat, Certificate.registration,
      step_registerCertificate c.ownerId hfields hfresh, hcert]
    exact hlists.registered hfresh

variable (env) in
theorem exists_snapshot (xs : List (Extrinsic A)) :
    ∃ cs, Snapshot (runFromEmpty env xs).certificateMap cs := by
  have hstep : ∀ (s : Storage A) (x : Extrinsic A),
      (KeyedByDomain s ∧ ∃ cs, Snapshot s.certificateMap cs) →
        ∃ cs, Snapshot (step env s x).certificateMap cs := by
    rintro s x ⟨hkeyed, cs, h⟩
    have heff := effect_dispatch env s x
    generalize step env s x = s', result env s x = r at heff
    cases heff with
    | refused e => exact ⟨cs, h⟩
    | registered who n d ip i k fields fresh => exact ⟨_, h.insert fresh⟩
    | modified n d ip i k old fields stored changed =>
      have hfree : (s.certificateMap.remove d).find? d = none := StorageMap.find?_remove_self _ d
      have hinsert := (h.remove d).insert (c := newCert old.ownerId n d ip i k) hfree
      rw [newCert, StorageMap.insert_remove] at hinsert
      exact ⟨_, hinsert⟩
    | removed d old domain stored => exact ⟨_, h.remove d⟩
  have hempty : ∃ cs, Snapshot (Storage.empty : Storage A).certificateMap cs :=
    ⟨[], List.nodup_nil, fun c => by simp [Storage.empty]⟩
  have hinv : ∀ s x, (Indexed s ∧ ∃ cs : List (Certificate A), Snapshot s.certificateMap cs) →
      Indexed (step env s x) ∧ ∃ cs, Snapshot (step env s x).certificateMap cs :=
    fun s x h => ⟨indexed_step env s x h.1, hstep s x ⟨h.1.keyed, h.2⟩⟩
  exact (run_invariant hinv ⟨indexed_empty, hempty⟩ xs).2

variable (env) in
/-- A chain can be started again from its live certificates: registered by their owners, in any
    order, they make the same map, and a reverse map without the entries that went stale. -/
theorem snapshot_rebuilds (xs : List (Extrinsic A)) :
    (∃ cs, Snapshot (runFromEmpty env xs).certificateMap cs) ∧
      ∀ cs, Snapshot (runFromEmpty env xs).certificateMap cs →
        (runFromEmpty env (cs.map Certificate.registration)).certificateMap =
            (runFromEmpty env xs).certificateMap ∧
          ∀ ip, ipToCertificates (runFromEmpty env (cs.map Certificate.registration)) ip =
            cs.filter (·.ipAddr = ip) := by
  refine ⟨exists_snapshot env xs, ?_⟩
  intro cs h
  have hwf := wellFormed_run env xs
  have hlists : Lists (runFromEmpty env (cs.map Certificate.registration)) cs :=
    lists_run h.nodup fun c hc => (hwf.forward _ c ((h.mem_iff c).mp hc)).2
  refine ⟨?_, hlists.reverse⟩
  ext d c
  rw [hlists.forward, NodupKeys.find?_eq_some_iff h.nodup, h.mem_iff]
  constructor
  · rintro ⟨hstored, rfl⟩
    exact hstored
  · intro hstored
    obtain rfl : c.domain = d := (hwf.forward d c hstored).1
    exact ⟨hstored, rfl⟩

end

/-! ## Owners -/

/-- What an extrinsic can do to one domain. -/
inductive Change (d : Bytes) :
    Option (Certificate A) → Extrinsic A → Option (Certificate A) → Prop
  | unchanged (entry : Option (Certificate A)) (x : Extrinsic A) : Change d entry x entry
  | registered (who : A) (n ip i k : Bytes) :
    Change d none ⟨.signed who, .registerCertificate n d ip i k⟩ (some (newCert who n d ip i k))
  | modified (old : Certificate A) (n ip i k : Bytes) :
    Change d (some old) ⟨.signed old.ownerId, .modifyCertificate n d ip i k⟩
      (some (newCert old.ownerId n d ip i k))
  | removed (old : Certificate A) :
    Change d (some old) ⟨.signed old.ownerId, .removeCertificate d⟩ none

/-- The account has the domain. -/
def OwnedBy (owner : A) (entry : Option (Certificate A)) : Prop :=
  ∃ c, entry = some c ∧ c.ownerId = owner

section

variable [DecidableEq A] [Inhabited A] {env : Env} {d : Bytes}

variable (env) in
theorem change_step (s : Storage A) (x : Extrinsic A) :
    Change d (s.certificateMap.find? d) x ((step env s x).certificateMap.find? d) := by
  have heff := effect_dispatch env s x
  generalize step env s x = s', result env s x = r at heff
  cases heff with
  | refused e => exact .unchanged _ _
  | registered who n d' ip i k fields fresh =>
    by_cases hd : d = d'
    · subst hd
      rw [fresh, Storage.registered, newCert, StorageMap.find?_insert_self]
      exact .registered who n ip i k
    · have hother : (s.registered (newCert who n d' ip i k)).certificateMap.find? d =
          s.certificateMap.find? d := StorageMap.find?_insert_of_ne _ _ hd
      rw [hother]
      exact .unchanged _ _
  | modified n d' ip i k old fields stored changed =>
    by_cases hd : d = d'
    · subst hd
      rw [stored, Storage.modified, newCert, StorageMap.find?_insert_self]
      exact .modified old n ip i k
    · have hother : (s.modified (newCert old.ownerId n d' ip i k) old).certificateMap.find? d =
          s.certificateMap.find? d := StorageMap.find?_insert_of_ne _ _ hd
      rw [hother]
      exact .unchanged _ _
  | removed d' old domain stored =>
    by_cases hd : d = d'
    · subst hd
      rw [stored, Storage.removed, StorageMap.find?_remove_self]
      exact .removed old
    · have hother : (s.removed d' old).certificateMap.find? d = s.certificateMap.find? d :=
        StorageMap.find?_remove_of_ne _ hd
      rw [hother]
      exact .unchanged _ _

omit [DecidableEq A] [Inhabited A] in
/-- The account neither modifies nor removes the domain by `x`. -/
def Spares (who : A) (d : Bytes) (x : Extrinsic A) : Prop :=
  (∀ n ip i k, x ≠ ⟨.signed who, .modifyCertificate n d ip i k⟩) ∧
    x ≠ ⟨.signed who, .removeCertificate d⟩

omit [DecidableEq A] [Inhabited A] in
theorem Change.of_spares {x : Extrinsic A} {c : Certificate A} {e' : Option (Certificate A)}
    (h : Change d (some c) x e') (hx : Spares c.ownerId d x) : e' = some c := by
  cases h with
  | unchanged => rfl
  | modified _ n ip i k => exact absurd rfl (hx.1 n ip i k)
  | removed => exact absurd rfl hx.2

/-- What its owner spares stays. -/
theorem find?_step_of_spares (s : Storage A) (x : Extrinsic A) {c : Certificate A}
    (hd : s.certificateMap.find? d = some c) (hx : Spares c.ownerId d x) :
    (step env s x).certificateMap.find? d = some c := by
  have hchange := change_step env (d := d) s x
  rw [hd] at hchange
  exact hchange.of_spares hx

variable (env) in
theorem find?_run_of_spares {s : Storage A} {c : Certificate A}
    (hd : s.certificateMap.find? d = some c) {ys : List (Extrinsic A)}
    (hys : ∀ y ∈ ys, Spares c.ownerId d y) :
    (run (step env) s ys).certificateMap.find? d = some c := by
  have hstep : ∀ (s : Storage A) (x : Extrinsic A), s.certificateMap.find? d = some c →
      Spares c.ownerId d x → (step env s x).certificateMap.find? d = some c :=
    fun s x hs hx => find?_step_of_spares s x hs hx
  exact run_invariant_of hstep hd hys

variable (env) in
/-- A free domain stays free until it is registered. -/
theorem find?_run_of_free {s : Storage A} (hd : s.certificateMap.find? d = none)
    {ys : List (Extrinsic A)}
    (hys : ∀ who n ip i k, ⟨.signed who, .registerCertificate n d ip i k⟩ ∉ ys) :
    (run (step env) s ys).certificateMap.find? d = none := by
  have hstep : ∀ (s : Storage A) (x : Extrinsic A), s.certificateMap.find? d = none →
      (∀ who n ip i k, x ≠ ⟨.signed who, .registerCertificate n d ip i k⟩) →
      (step env s x).certificateMap.find? d = none := by
    intro s x hs hx
    have hchange := change_step env (d := d) s x
    rw [hs] at hchange
    generalize (step env s x).certificateMap.find? d = e at hchange
    cases hchange with
    | unchanged => rfl
    | registered who n ip i k => exact absurd rfl (hx who n ip i k)
  refine run_invariant_of hstep hd ?_
  rintro y hy who n ip i k rfl
  exact hys who n ip i k hy

omit [DecidableEq A] [Inhabited A] in
/-- Who loses a domain has removed it. -/
theorem Change.of_lost {x : Extrinsic A} {e e' : Option (Certificate A)} {owner : A}
    (h : Change d e x e') (hbefore : OwnedBy owner e) (hafter : ¬ OwnedBy owner e') :
    x = ⟨.signed owner, .removeCertificate d⟩ ∧ e' = none := by
  obtain ⟨c, rfl, rfl⟩ := hbefore
  cases h with
  | unchanged => exact absurd ⟨c, rfl, rfl⟩ hafter
  | modified _ n ip i k => exact absurd ⟨_, rfl, rfl⟩ hafter
  | removed => exact ⟨rfl, rfl⟩

omit [DecidableEq A] [Inhabited A] in
/-- Who gains a domain has registered it, and nobody had it. -/
theorem Change.of_gained {x : Extrinsic A} {e e' : Option (Certificate A)} {owner : A}
    (h : Change d e x e') (hbefore : ¬ OwnedBy owner e) (hafter : OwnedBy owner e') :
    e = none ∧ ∃ n ip i k, x = ⟨.signed owner, .registerCertificate n d ip i k⟩ := by
  obtain ⟨c, rfl, rfl⟩ := hafter
  cases h with
  | unchanged => exact absurd ⟨c, rfl, rfl⟩ hbefore
  | registered who n ip i k => exact ⟨rfl, n, ip, i, k, rfl⟩
  | modified old n ip i k => exact absurd ⟨old, rfl, rfl⟩ hbefore

/-- When a domain passes from one owner to another, the first has removed it, and then the second
    has registered it; between the two moments nobody had it, or others came and went. -/
theorem owner_change (env : Env) (xs ys : List (Extrinsic A)) (d : Bytes) (owner owner' : A)
    (hbefore : OwnedBy owner ((runFromEmpty env xs).certificateMap.find? d))
    (hafter : OwnedBy owner' ((runFromEmpty env (xs ++ ys)).certificateMap.find? d))
    (hne : owner ≠ owner') :
    ∃ pre mid post n ip i k,
      ys = pre ++ ⟨.signed owner, .removeCertificate d⟩ ::
        (mid ++ ⟨.signed owner', .registerCertificate n d ip i k⟩ :: post) ∧
      OwnedBy owner ((runFromEmpty env (xs ++ pre)).certificateMap.find? d) ∧
      (runFromEmpty env (xs ++ pre ++ [⟨.signed owner, .removeCertificate d⟩])).certificateMap.find?
        d = none ∧
      (runFromEmpty env (xs ++ pre ++ [⟨.signed owner, .removeCertificate d⟩] ++
        mid)).certificateMap.find? d = none := by
  have hrun : ∀ zs, runFromEmpty env (xs ++ zs) = run (step env) (runFromEmpty env xs) zs :=
    fun zs => run_append Storage.empty xs zs
  rw [hrun] at hafter
  have hlost : ¬ OwnedBy owner ((run (step env) (runFromEmpty env xs) ys).certificateMap.find?
      d) := by
    rintro ⟨c, hc, rfl⟩
    obtain ⟨c', hc', rfl⟩ := hafter
    exact hne (congrArg Certificate.ownerId (Option.some.inj (hc.symm.trans hc')))
  obtain ⟨pre, x, ys', rfl, hpre, hx⟩ := exists_leaving
    (P := fun s : Storage A => OwnedBy owner (s.certificateMap.find? d)) hbefore hlost
  obtain ⟨rfl, hnone⟩ := (change_step env _ x).of_lost hpre hx
  rw [run_append, run_cons] at hafter
  obtain ⟨mid, y, post, rfl, hmid, hy⟩ := exists_leaving
    (P := fun s : Storage A => ¬ OwnedBy owner' (s.certificateMap.find? d))
    (fun h => by
      obtain ⟨c, hc, -⟩ := h
      exact absurd (hnone.symm.trans hc) (by simp))
    (not_not.mpr hafter)
  obtain ⟨hfree, n, ip, i, k, rfl⟩ := (change_step env _ y).of_gained hmid (not_not.mp hy)
  refine ⟨pre, mid, post, n, ip, i, k, rfl, ?_, ?_, ?_⟩
  · rw [hrun]
    exact hpre
  · rw [List.append_assoc, hrun, run_concat]
    exact hnone
  · rw [List.append_assoc, List.append_assoc, hrun, run_append]
    exact hfree

end

/-- Account 1 gives `ab.cd` up, and account 2 takes it. -/
theorem owner_change_ab :
    ∃ pre mid post n ip i k,
      [removeAb 1, registerAb 2] = pre ++ ⟨.signed 1, .removeCertificate (asBytes "ab.cd")⟩ ::
        (mid ++ ⟨.signed 2, .registerCertificate n (asBytes "ab.cd") ip i k⟩ :: post) := by
  have hbefore : OwnedBy 1 ((runFromEmpty asciiEnv [registerAb 1]).certificateMap.find?
      (asBytes "ab.cd")) := ⟨certAb 1, find?_registerAb 1, rfl⟩
  have hafter : OwnedBy 2 ((runFromEmpty asciiEnv
      ([registerAb 1] ++ [removeAb 1, registerAb 2])).certificateMap.find? (asBytes "ab.cd")) := by
    refine ⟨certAb 2, ?_, rfl⟩
    have hstep : runFromEmpty asciiEnv ([registerAb 1] ++ [removeAb 1, registerAb 2]) =
        (runFromEmpty asciiEnv [registerAb 1, removeAb 1]).registered (certAb 2) :=
      (runFromEmpty_concat asciiEnv [registerAb 1, removeAb 1] (registerAb 2)).trans
        (step_registerCertificate 2 fieldError_ab (find?_removeAb 1))
    rw [hstep]
    exact StorageMap.find?_insert_self _ _ _
  obtain ⟨pre, mid, post, n, ip, i, k, h, -⟩ := owner_change asciiEnv [registerAb 1]
    [removeAb 1, registerAb 2] (asBytes "ab.cd") 1 2 hbefore hafter (by decide)
  exact ⟨pre, mid, post, n, ip, i, k, h⟩

end Siip.Pallet
