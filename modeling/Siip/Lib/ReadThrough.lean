/-
  A read-through cache that several threads use without a lock.

  A lookup takes three steps, and steps of other threads and changes of the source may come
  between them: look into the cache (`get`), ask the source (`fetch`), and keep what it answered
  (`put`). Nothing is ever dropped from the cache, but a `put` may replace what is there. The cache
  may be down at a `get`, which then finds nothing, and at a `put`, which then keeps nothing.

  * `answered_run`: every answer comes from a hit, or from what the source said at the thread's
    own `fetch`, with nothing found at its `get`; what is in the cache, the source said to such a
    thread.
  * `find?_run`: while the cache is up, an entry can be replaced only by a lookup under way when it
    was there already.
  * `simulates_run`: where no two lookups of one key overlap, the run is one of lookups that each
    take a single step.
-/
import Siip.Lib.Memo

namespace Siip.Lib.ReadThrough

universe u v

/-- The source, how it changes and what it says: an answer alone, or one to keep as a `W`. The
    cache keeps it under the key's own slot, and a hit gives the same answer again. -/
structure Machine (S X K L W R : Type u) where
  update : S → X → S
  slot : K → L
  slot_injective : Function.Injective slot
  hit : W → R
  fetch : S → K → R ⊕ W × R
  hit_of_fetch : ∀ {s k w r}, fetch s k = .inr (w, r) → hit w = r

/-- Where a thread is in its lookup. -/
inductive Thread (K W R : Type u) where
  | idle
  | missed (k : K)
  | fetched (k : K) (w : W) (r : R)
  | returned (k : K) (r : R)

/-- The key that the thread is looking up, while it is. -/
def Thread.pending {K W R : Type u} : Thread K W R → Option K
  | .missed k => some k
  | .fetched k _ _ => some k
  | .idle => none
  | .returned _ _ => none

structure System (ι S K L W R : Type u) where
  source : S
  memo : StorageMap L W
  thread : ι → Thread K W R

/-- A change of the source, or a step of a thread, with the cache up or not. -/
inductive Op (ι X K : Type u) where
  | change (x : X)
  | get (t : ι) (k : K) (up : Bool)
  | fetch (t : ι)
  | put (t : ι) (up : Bool)

variable {ι S X K L W R : Type u} [DecidableEq ι] [DecidableEq L]

omit [DecidableEq L] in
/-- Thread `t` moves on. -/
def System.goto (s : System ι S K L W R) (t : ι) (th : Thread K W R) : System ι S K L W R :=
  { s with thread := Function.update s.thread t th }

section

variable (s : System ι S K L W R) (t : ι) (th : Thread K W R)

omit [DecidableEq L]

@[simp] theorem thread_goto_self : (s.goto t th).thread t = th := Function.update_self ..

@[simp] theorem thread_goto_of_ne {t' : ι} (h : t' ≠ t) :
    (s.goto t th).thread t' = s.thread t' := Function.update_of_ne h ..

end

variable (m : Machine S X K L W R)

/-- What the cache answers. -/
def System.lookup (s : System ι S K L W R) (k : K) (up : Bool) : Option W :=
  if up then s.memo.find? (m.slot k) else none

/-- A thread that is not at the step does nothing. -/
def System.step (s : System ι S K L W R) : Op ι X K → System ι S K L W R
  | .change x => { s with source := m.update s.source x }
  | .get t k up =>
    match (s.thread t).pending with
    | some _ => s
    | none =>
      match s.lookup m k up with
      | some w => s.goto t (.returned k (m.hit w))
      | none => s.goto t (.missed k)
  | .fetch t =>
    match s.thread t with
    | .missed k =>
      match m.fetch s.source k with
      | .inl r => s.goto t (.returned k r)
      | .inr (w, r) => s.goto t (.fetched k w r)
    | _ => s
  | .put t up =>
    match s.thread t with
    | .fetched k w r =>
      { s.goto t (.returned k r) with
        memo := if up then s.memo.insert (m.slot k) w else s.memo }
    | _ => s

/-- The step at which a lookup takes effect: the hit, or else the question to the source. -/
def System.point (s : System ι S K L W R) : Op ι X K → List (Memo.Op X K)
  | .change x => [.change x]
  | .get t k up =>
    match (s.thread t).pending, s.lookup m k up with
    | none, some _ => [.ask k]
    | _, _ => []
  | .fetch t =>
    match s.thread t with
    | .missed k => [.ask k]
    | _ => []
  | .put _ _ => []

omit [DecidableEq ι] [DecidableEq L] in
/-- Thread `t` starts a lookup. -/
def Starts (t : ι) (s : System ι S K L W R) (op : Op ι X K) : Prop :=
  ∃ k up, op = .get t k up ∧ (s.thread t).pending = none

/-- What one step does. -/
inductive Effect (s : System ι S K L W R) : Op ι X K → System ι S K L W R → Prop
  | changed (x : X) : Effect s (.change x) { s with source := m.update s.source x }
  | hit {t : ι} {k : K} {up : Bool} {w : W} (hidle : (s.thread t).pending = none)
      (hw : s.lookup m k up = some w) : Effect s (.get t k up) (s.goto t (.returned k (m.hit w)))
  | miss {t : ι} {k : K} {up : Bool} (hidle : (s.thread t).pending = none)
      (hnone : s.lookup m k up = none) : Effect s (.get t k up) (s.goto t (.missed k))
  | answer {t : ι} {k : K} {r : R} (hmissed : s.thread t = .missed k)
      (hr : m.fetch s.source k = .inl r) : Effect s (.fetch t) (s.goto t (.returned k r))
  | found {t : ι} {k : K} {w : W} {r : R} (hmissed : s.thread t = .missed k)
      (hr : m.fetch s.source k = .inr (w, r)) : Effect s (.fetch t) (s.goto t (.fetched k w r))
  | kept {t : ι} {k : K} {w : W} {r : R} (hfetched : s.thread t = .fetched k w r) :
      Effect s (.put t true) { s.goto t (.returned k r) with memo := s.memo.insert (m.slot k) w }
  | dropped {t : ι} {k : K} {w : W} {r : R} (hfetched : s.thread t = .fetched k w r) :
      Effect s (.put t false) (s.goto t (.returned k r))
  | skipped {op : Op ι X K} (hop : s.point m op = []) (hstarts : ∀ t, ¬ Starts t s op) :
      Effect s op s

variable {m} in
omit [DecidableEq ι] [DecidableEq L] in
theorem find?_of_lookup {s : System ι S K L W R} {k : K} {up : Bool} {w : W}
    (h : s.lookup m k up = some w) : s.memo.find? (m.slot k) = some w := by
  rw [System.lookup] at h
  split at h
  · exact h
  · exact absurd h (by simp)

theorem effect_step (s : System ι S K L W R) (op : Op ι X K) : Effect m s op (s.step m op) := by
  cases op with
  | change x => exact .changed x
  | get t k up =>
    rw [System.step]
    cases hidle : (s.thread t).pending with
    | some k' =>
      refine .skipped (by rw [System.point, hidle]) ?_
      rintro t' ⟨k'', up', ⟨⟩, hnone⟩
      exact absurd (hidle.symm.trans hnone) (by simp)
    | none =>
      cases hw : s.lookup m k up with
      | some w => exact .hit hidle hw
      | none => exact .miss hidle hw
  | fetch t =>
    rw [System.step]
    cases hmissed : s.thread t with
    | missed k =>
      dsimp only
      cases hr : m.fetch s.source k with
      | inl r => exact .answer hmissed hr
      | inr wr => exact .found hmissed hr
    | _ => exact .skipped (by rw [System.point, hmissed]) (by simp [Starts])
  | put t up =>
    rw [System.step]
    cases hfetched : s.thread t with
    | fetched k w r =>
      cases up with
      | true => exact .kept hfetched
      | false => exact .dropped hfetched
    | _ => exact .skipped rfl (by simp [Starts])

section

variable {m} {s : System ι S K L W R} {t : ι} {k : K} {w : W} {r : R} {up : Bool}

theorem step_get_of_hit (hidle : (s.thread t).pending = none) (hw : s.lookup m k up = some w) :
    s.step m (.get t k up) = s.goto t (.returned k (m.hit w)) := by
  rw [System.step, hidle, hw]

theorem step_get_of_miss (hidle : (s.thread t).pending = none) (hnone : s.lookup m k up = none) :
    s.step m (.get t k up) = s.goto t (.missed k) := by
  rw [System.step, hidle, hnone]

theorem step_fetch_of_answer (hmissed : s.thread t = .missed k)
    (hr : m.fetch s.source k = .inl r) : s.step m (.fetch t) = s.goto t (.returned k r) := by
  rw [System.step, hmissed]
  dsimp only
  rw [hr]

theorem step_fetch_of_found (hmissed : s.thread t = .missed k)
    (hr : m.fetch s.source k = .inr (w, r)) : s.step m (.fetch t) = s.goto t (.fetched k w r) := by
  rw [System.step, hmissed]
  dsimp only
  rw [hr]

theorem step_fetch_of_returned (h : s.thread t = .returned k r) : s.step m (.fetch t) = s := by
  rw [System.step, h]

theorem step_put_of_returned (h : s.thread t = .returned k r) : s.step m (.put t up) = s := by
  rw [System.step, h]

theorem step_put (hfetched : s.thread t = .fetched k w r) :
    s.step m (.put t true) =
      { s.goto t (.returned k r) with memo := s.memo.insert (m.slot k) w } := by
  rw [System.step, hfetched]
  rfl

end

/-! ## Where an answer comes from -/

/-- Nothing is cached, and no lookup is under way. -/
def System.init (source : S) : System ι S K L W R :=
  { source, memo := .empty, thread := fun _ => .idle }

variable {m} in
/-- A lookup of `k` that `t` starts after `pre`: nothing is found in the cache, and all through
    `mid` the thread is about to ask the source. -/
structure Waits (s₀ : System ι S K L W R) (pre : List (Op ι X K)) (t : ι) (k : K) (up : Bool)
    (mid : List (Op ι X K)) : Prop where
  nothing : (run (System.step m) s₀ pre).lookup m k up = none
  missed : Always (System.step m) (fun s => s.thread t = .missed k)
    (run (System.step m) s₀ (pre ++ [.get t k up])) mid

/-- In one of its lookups of `k` the thread asked the source, which said `a`. -/
def Asked (s₀ : System ι S K L W R) (ops : List (Op ι X K)) (t : ι) (k : K) (a : R ⊕ W × R) :
    Prop :=
  ∃ pre up mid post, ops = pre ++ .get t k up :: mid ++ .fetch t :: post ∧
    Waits (m := m) s₀ pre t k up mid ∧
    m.fetch (run (System.step m) s₀ (pre ++ .get t k up :: mid)).source k = a

/-- One of its lookups of `k` found `w` in the cache. -/
def Hit (s₀ : System ι S K L W R) (ops : List (Op ι X K)) (t : ι) (k : K) (w : W) : Prop :=
  ∃ pre up post, ops = pre ++ .get t k up :: post ∧
    (run (System.step m) s₀ pre).lookup m k up = some w

/-- How thread `t` came to where it is. -/
def Accounted (s₀ : System ι S K L W R) (ops : List (Op ι X K)) (t : ι) : Thread K W R → Prop
  | .idle => True
  | .missed k =>
    ∃ pre up mid, ops = pre ++ .get t k up :: mid ∧ Waits (m := m) s₀ pre t k up mid
  | .fetched k w r => Asked m s₀ ops t k (.inr (w, r))
  | .returned k r => (∃ w, Hit m s₀ ops t k w ∧ m.hit w = r) ∨ Asked m s₀ ops t k (.inl r) ∨
      ∃ w, Asked m s₀ ops t k (.inr (w, r))

/-- Every thread's state, and all that is in the cache, traced back to the source. -/
structure Answered (s₀ : System ι S K L W R) (ops : List (Op ι X K)) (s : System ι S K L W R) :
    Prop where
  memo : ∀ {k w}, s.memo.find? (m.slot k) = some w → ∃ t r, Asked m s₀ ops t k (.inr (w, r))
  thread : ∀ t, Accounted m s₀ ops t (s.thread t)

variable {m}

section

variable {s₀ : System ι S K L W R} {ops : List (Op ι X K)} {t : ι} {k : K}

theorem Asked.append {a : R ⊕ W × R} (h : Asked m s₀ ops t k a) (ops' : List (Op ι X K)) :
    Asked m s₀ (ops ++ ops') t k a := by
  obtain ⟨pre, up, mid, post, rfl, hwaits, ha⟩ := h
  exact ⟨pre, up, mid, post ++ ops', by simp, hwaits, ha⟩

theorem Hit.append {w : W} (h : Hit m s₀ ops t k w) (ops' : List (Op ι X K)) :
    Hit m s₀ (ops ++ ops') t k w := by
  obtain ⟨pre, up, post, rfl, hw⟩ := h
  exact ⟨pre, up, post ++ ops', by simp, hw⟩

/-- A thread that waited till now, and now asks. -/
theorem Waits.ask {pre mid : List (Op ι X K)} {up : Bool}
    (h : Waits (m := m) s₀ pre t k up mid) :
    Asked m s₀ (pre ++ .get t k up :: mid ++ [.fetch t]) t k
      (m.fetch (run (System.step m) s₀ (pre ++ .get t k up :: mid)).source k) :=
  ⟨pre, up, mid, [], rfl, h, rfl⟩

theorem Waits.concat {pre mid : List (Op ι X K)} {up : Bool} {op : Op ι X K}
    (h : Waits (m := m) s₀ pre t k up mid)
    (hmissed : ((run (System.step m) s₀ (pre ++ .get t k up :: mid)).step m op).thread t =
      .missed k) : Waits (m := m) s₀ pre t k up (mid ++ [op]) := by
  refine ⟨h.nothing, always_concat.mpr ⟨h.missed, ?_⟩⟩
  rw [← run_append, List.append_assoc]
  exact hmissed

/-- A step that leaves the thread where it is. -/
theorem Accounted.concat {th : Thread K W R} {op : Op ι X K} (h : Accounted m s₀ ops t th)
    (hth : ((run (System.step m) s₀ ops).step m op).thread t = th) :
    Accounted m s₀ (ops ++ [op]) t th := by
  cases th with
  | idle => trivial
  | missed k =>
    obtain ⟨pre, up, mid, rfl, hwaits⟩ := h
    exact ⟨pre, up, mid ++ [op], by simp, hwaits.concat hth⟩
  | fetched k w r => exact Asked.append h [op]
  | returned k r =>
    obtain ⟨w, hhit, hr⟩ | hasked | ⟨w, hasked⟩ := h
    · exact .inl ⟨w, hhit.append [op], hr⟩
    · exact .inr (.inl (hasked.append [op]))
    · exact .inr (.inr ⟨w, hasked.append [op]⟩)

omit [DecidableEq L] in
/-- What holds of every thread after one of them moved on. -/
theorem forall_goto {P : ι → Thread K W R → Prop} {s : System ι S K L W R} {th : Thread K W R}
    (hself : P t th) (hother : ∀ t', t' ≠ t → P t' (s.thread t')) (t' : ι) :
    P t' ((s.goto t th).thread t') := by
  by_cases ht : t' = t
  · subst ht
    rw [thread_goto_self]
    exact hself
  · rw [thread_goto_of_ne _ _ _ ht]
    exact hother t' ht

end

theorem answered_step {s₀ : System ι S K L W R} {ops : List (Op ι X K)}
    (h : Answered m s₀ ops (run (System.step m) s₀ ops)) (op : Op ι X K) :
    Answered m s₀ (ops ++ [op]) ((run (System.step m) s₀ ops).step m op) := by
  have hkeep : ∀ t th, (run (System.step m) s₀ ops).thread t = th →
      ((run (System.step m) s₀ ops).step m op).thread t = th →
      Accounted m s₀ (ops ++ [op]) t th := by
    rintro t th rfl hth
    exact (h.thread t).concat hth
  have hmemo : ∀ {k w}, (run (System.step m) s₀ ops).memo.find? (m.slot k) = some w →
      ∃ t r, Asked m s₀ (ops ++ [op]) t k (.inr (w, r)) := by
    intro k w hw
    obtain ⟨t, r, hasked⟩ := h.memo hw
    exact ⟨t, r, hasked.append [op]⟩
  have hother : ∀ {t th}, (run (System.step m) s₀ ops).step m op =
      (run (System.step m) s₀ ops).goto t th → ∀ t', t' ≠ t →
      Accounted m s₀ (ops ++ [op]) t' ((run (System.step m) s₀ ops).thread t') := by
    intro t th hs t' ht
    refine hkeep t' _ rfl ?_
    rw [hs, thread_goto_of_ne _ _ _ ht]
  have heff := effect_step m (run (System.step m) s₀ ops) op
  generalize hs : (run (System.step m) s₀ ops).step m op = s' at heff hkeep hother ⊢
  cases heff with
  | changed x => exact ⟨hmemo, fun t => hkeep t _ rfl rfl⟩
  | @hit t k up w hidle hw =>
    refine ⟨hmemo, forall_goto ?_ (hother rfl)⟩
    exact .inl ⟨w, ⟨ops, up, [], rfl, hw⟩, rfl⟩
  | @miss t k up hidle hnone =>
    refine ⟨hmemo, forall_goto ?_ (hother rfl)⟩
    refine ⟨ops, up, [], rfl, hnone, ?_⟩
    rw [run_concat, hs]
    exact thread_goto_self _ t _
  | @answer t k r hmissed hr =>
    refine ⟨hmemo, forall_goto ?_ (hother rfl)⟩
    obtain ⟨pre, up, mid, rfl, hwaits⟩ := hmissed ▸ h.thread t
    exact .inr (.inl (hr ▸ hwaits.ask))
  | @found t k w r hmissed hr =>
    refine ⟨hmemo, forall_goto ?_ (hother rfl)⟩
    obtain ⟨pre, up, mid, rfl, hwaits⟩ := hmissed ▸ h.thread t
    have hasked := hwaits.ask
    rw [hr] at hasked
    exact hasked
  | @kept t k w r hfetched =>
    have hasked : Asked m s₀ (ops ++ [.put t true]) t k (.inr (w, r)) :=
      Asked.append (hfetched ▸ h.thread t : Accounted m s₀ ops t (.fetched k w r)) _
    refine ⟨?_, forall_goto ?_ ?_⟩
    · intro k' w' hw'
      by_cases hk : k' = k
      · subst hk
        rw [StorageMap.find?_insert_self, Option.some_inj] at hw'
        exact ⟨t, r, hw' ▸ hasked⟩
      · rw [StorageMap.find?_insert_of_ne _ _ fun hl => hk (m.slot_injective hl)] at hw'
        exact hmemo hw'
    · exact .inr (.inr ⟨w, hasked⟩)
    · intro t' ht
      exact hkeep t' _ rfl (thread_goto_of_ne _ _ _ ht)
  | @dropped t k w r hfetched =>
    refine ⟨hmemo, forall_goto ?_ (hother rfl)⟩
    exact .inr (.inr ⟨w, Asked.append
      (hfetched ▸ h.thread t : Accounted m s₀ ops t (.fetched k w r)) _⟩)
  | skipped => exact ⟨hmemo, fun t => hkeep t _ rfl rfl⟩

/-- In every run each answer comes from a hit, or from what the source said when the thread asked
    it; and what is in the cache, the source said to a thread that had found nothing there. -/
theorem answered_run (source : S) (ops : List (Op ι X K)) :
    Answered m (.init source) ops (run (System.step m) (.init source) ops) :=
  run_history ⟨fun h => absurd h (by simp [System.init]), fun _ => trivial⟩
    (fun _ op h => answered_step h op) ops

/-! ## What the source said -/

/-- The changes of the source among the operations. -/
def changes (ops : List (Op ι X K)) : List X :=
  ops.filterMap fun
    | .change x => some x
    | _ => none

/-- The threads do not touch the source. -/
theorem source_run (s : System ι S K L W R) (ops : List (Op ι X K)) :
    (run (System.step m) s ops).source = run m.update s.source (changes ops) := by
  induction ops generalizing s with
  | nil => rfl
  | cons op ops ih =>
    rw [run_cons, ih]
    have heff := effect_step m s op
    generalize s.step m op = s' at heff
    cases heff with
    | skipped hop =>
      cases op with
      | change x => exact absurd hop (by simp [System.point])
      | _ => rfl
    | _ => rfl

variable (m) in
/-- At some moment of the run the source says `a` of `k`. -/
def Said (s₀ : System ι S K L W R) (ops : List (Op ι X K)) (k : K) (a : R ⊕ W × R) : Prop :=
  ∃ pre post, ops = pre ++ post ∧ m.fetch (run (System.step m) s₀ pre).source k = a

theorem Asked.said {s₀ : System ι S K L W R} {ops : List (Op ι X K)} {t : ι} {k : K}
    {a : R ⊕ W × R} (h : Asked m s₀ ops t k a) : Said m s₀ ops k a := by
  obtain ⟨pre, up, mid, post, rfl, -, ha⟩ := h
  exact ⟨_, _, rfl, ha⟩

section

variable {s₀ : System ι S K L W R} {source : S} {ops : List (Op ι X K)} {k : K}

theorem said_of_find? {w : W} (hs₀ : s₀ = .init source)
    (hw : (run (System.step m) s₀ ops).memo.find? (m.slot k) = some w) :
    Said m s₀ ops k (.inr (w, m.hit w)) := by
  subst hs₀
  obtain ⟨t, r, hasked⟩ := (answered_run source ops).memo hw
  obtain ⟨pre, post, hops, hsaid⟩ := hasked.said
  rw [m.hit_of_fetch hsaid]
  exact ⟨pre, post, hops, hsaid⟩

/-- An answer is one that the source gave to be kept, at some moment till now, or one that it gave
    to this thread in a lookup that found nothing in the cache. -/
theorem said_of_returned {t : ι} {r : R} (hs₀ : s₀ = .init source)
    (hr : (run (System.step m) s₀ ops).thread t = .returned k r) :
    (∃ w, Said m s₀ ops k (.inr (w, r))) ∨ Asked m s₀ ops t k (.inl r) := by
  subst hs₀
  have hthread := (answered_run (m := m) source ops).thread t
  rw [hr] at hthread
  obtain ⟨w, ⟨pre, up, post, rfl, hw⟩, rfl⟩ | hasked | ⟨w, hasked⟩ := hthread
  · obtain ⟨pre', post', rfl, hsaid⟩ := said_of_find? rfl (find?_of_lookup hw)
    exact .inl ⟨w, pre', post' ++ .get t k up :: post, by simp, hsaid⟩
  · exact .inr hasked
  · exact .inl ⟨w, hasked.said⟩

end

/-! ## What can replace an entry -/

/-- The cache is up. -/
def Op.Up : Op ι X K → Prop
  | .get _ _ up => up = true
  | .put _ up => up = true
  | _ => True

/-- The entry of `k`, seen from a state `s` in which there was one. -/
structure Kept (s : System ι S K L W R) (k : K) (w : W) (s' : System ι S K L W R) : Prop where
  entry : ∃ w', s'.memo.find? (m.slot k) = some w' ∧
    (w' = w ∨ ∃ t, (s.thread t).pending = some k)
  pending : ∀ t, (s'.thread t).pending = some k → (s.thread t).pending = some k

theorem kept_step {s s' : System ι S K L W R} {k : K} {w : W} (h : Kept (m := m) s k w s')
    {op : Op ι X K} (hup : op.Up) : Kept (m := m) s k w (s'.step m op) := by
  have heff := effect_step m s' op
  generalize s'.step m op = s'' at heff
  obtain ⟨hentry, hpending⟩ := h
  have hgoto : ∀ {t th}, (Thread.pending th = some k → (s'.thread t).pending = some k) →
      ∀ t', ((s'.goto t th).thread t').pending = some k → (s.thread t').pending = some k :=
    fun hth => forall_goto (P := fun t' th => th.pending = some k →
      (s.thread t').pending = some k) (fun hp => hpending _ (hth hp)) fun t' _ => hpending t'
  cases heff with
  | changed x => exact ⟨hentry, hpending⟩
  | hit hidle hw => exact ⟨hentry, hgoto fun hp => absurd hp (by simp [Thread.pending])⟩
  | @miss t k' up hidle hnone =>
    obtain rfl : up = true := hup
    refine ⟨hentry, hgoto fun hp => ?_⟩
    obtain rfl : k' = k := Option.some.inj hp
    obtain ⟨w', hw', -⟩ := hentry
    exact absurd (hnone.symm.trans hw') (by simp)
  | answer hmissed hr => exact ⟨hentry, hgoto fun hp => absurd hp (by simp [Thread.pending])⟩
  | found hmissed hr => exact ⟨hentry, hgoto fun hp => hmissed ▸ hp⟩
  | @kept t k' w' r hfetched =>
    refine ⟨?_, hgoto fun hp => absurd hp (by simp [Thread.pending])⟩
    by_cases hk : k' = k
    · subst hk
      refine ⟨w', StorageMap.find?_insert_self _ _ _, .inr ⟨t, hpending t ?_⟩⟩
      rw [hfetched]
      rfl
    · obtain ⟨w₀, hw₀, hor⟩ := hentry
      refine ⟨w₀, ?_, hor⟩
      rw [StorageMap.find?_insert_of_ne _ _ fun hl => hk (m.slot_injective hl).symm]
      exact hw₀
  | dropped hfetched => exact ⟨hentry, hgoto fun hp => absurd hp (by simp [Thread.pending])⟩
  | skipped => exact ⟨hentry, hpending⟩

/-- Once there is an entry there is one for good, and only a lookup that was under way by then
    can still put another in its place. -/
theorem find?_run {s : System ι S K L W R} {k : K} {w : W}
    (hw : s.memo.find? (m.slot k) = some w) {ops : List (Op ι X K)} (hup : ∀ op ∈ ops, op.Up) :
    Kept (m := m) s k w (run (System.step m) s ops) := by
  have hstep : ∀ s' op, Kept (m := m) s k w s' → op.Up → Kept (m := m) s k w (s'.step m op) :=
    fun _ _ h => kept_step h
  exact run_invariant_of hstep ⟨⟨w, hw, .inl rfl⟩, fun _ hp => hp⟩ hup

/-- There is an entry, and no lookup of the key is under way. -/
structure Settled (s : System ι S K L W R) (k : K) (w : W) : Prop where
  entry : s.memo.find? (m.slot k) = some w
  quiet : ∀ t, (s.thread t).pending ≠ some k

theorem Settled.run {s : System ι S K L W R} {k : K} {w : W} (h : Settled (m := m) s k w)
    {ops : List (Op ι X K)} (hup : ∀ op ∈ ops, op.Up) :
    Settled (m := m) (run (System.step m) s ops) k w := by
  obtain ⟨⟨w', hw', hor⟩, hpending⟩ := find?_run h.entry hup
  refine ⟨?_, fun t hp => h.quiet t (hpending t hp)⟩
  obtain rfl | ⟨t, ht⟩ := hor
  · exact hw'
  · exact absurd ht (h.quiet t)

/-- From then on every lookup of the key is a hit. -/
theorem Settled.get {s : System ι S K L W R} {k : K} {w : W} (h : Settled (m := m) s k w) {t : ι}
    (hidle : (s.thread t).pending = none) :
    (s.step m (.get t k true)).thread t = .returned k (m.hit w) := by
  have hhit : s.lookup m k true = some w := h.entry
  rw [step_get_of_hit hidle hhit]
  exact thread_goto_self s t _

/-! ## Lookups that do not overlap -/

/-- A lookup starts only when no other one of its key is under way, and the cache is up. -/
def Exclusive (s : System ι S K L W R) : Op ι X K → Prop
  | .get _ k up => up = true ∧ ∀ t, (s.thread t).pending ≠ some k
  | .put _ up => up = true
  | _ => True

variable (m) in
/-- The lookups of a run, each in the place where it takes effect, among the changes. -/
def linear (s : System ι S K L W R) : List (Op ι X K) → List (Memo.Op X K)
  | [] => []
  | op :: ops => s.point m op ++ linear (s.step m op) ops

theorem linear_concat (s : System ι S K L W R) (ops : List (Op ι X K)) (op : Op ι X K) :
    linear m s (ops ++ [op]) = linear m s ops ++ (run (System.step m) s ops).point m op := by
  induction ops generalizing s with
  | nil => exact List.append_nil _
  | cons op' ops ih => rw [List.cons_append, linear, linear, ih, List.append_assoc, run_cons]

/-- What the source says to keep. -/
def Machine.kept (m : Machine S X K L W R) (source : S) (k : K) : Option W :=
  match m.fetch source k with
  | .inl _ => none
  | .inr (w, _) => some w

/-- What a lookup that takes one step returns. -/
def Machine.reply (m : Machine S X K L W R) (c : Memo.Cached S K W) (k : K) : R :=
  match c.memo.find? k with
  | some w => m.hit w
  | none =>
    match m.fetch c.source k with
    | .inl r => r
    | .inr (_, r) => r

/-- The memo table is ahead of the cache by what threads have fetched and not yet kept. -/
structure Simulates (m : Machine S X K L W R) (s : System ι S K L W R) (c : Memo.Cached S K W) :
    Prop where
  source : c.source = s.source
  level : ∀ {k}, (∀ t w r, s.thread t ≠ .fetched k w r) →
    c.memo.find? k = s.memo.find? (m.slot k)
  ahead : ∀ {t k w r}, s.thread t = .fetched k w r →
    c.memo.find? k = some w ∧ s.memo.find? (m.slot k) = none
  waiting : ∀ {t k}, s.thread t = .missed k → s.memo.find? (m.slot k) = none
  alone : ∀ {t t' k}, (s.thread t).pending = some k → (s.thread t').pending = some k → t = t'

section

variable {s : System ι S K L W R} {c : Memo.Cached S K W} {t : ι} {th : Thread K W R}

omit [DecidableEq L]

theorem fetched_goto (hfrom : ∀ k w r, s.thread t ≠ .fetched k w r)
    (hto : ∀ k w r, th ≠ .fetched k w r) {t' : ι} {k : K} {w : W} {r : R} :
    (s.goto t th).thread t' = .fetched k w r ↔ s.thread t' = .fetched k w r := by
  by_cases ht : t' = t
  · subst ht
    rw [thread_goto_self]
    exact iff_of_false (hto k w r) (hfrom k w r)
  · rw [thread_goto_of_ne _ _ _ ht]

theorem alone_goto
    (halone : ∀ {t t' k}, (s.thread t).pending = some k → (s.thread t').pending = some k → t = t')
    (hth : ∀ k, th.pending = some k →
      (s.thread t).pending = some k ∨ ∀ t', (s.thread t').pending ≠ some k) {t₁ t₂ : ι} {k : K}
    (h₁ : ((s.goto t th).thread t₁).pending = some k)
    (h₂ : ((s.goto t th).thread t₂).pending = some k) : t₁ = t₂ := by
  -- a thread that did not move, and one that did
  have hother : ∀ {t'}, t' ≠ t → th.pending = some k → (s.thread t').pending ≠ some k := by
    intro t' ht hp hp'
    obtain hown | hnone := hth k hp
    · exact ht (halone hp' hown)
    · exact hnone t' hp'
  by_cases ht₁ : t₁ = t <;> by_cases ht₂ : t₂ = t
  · exact ht₁.trans ht₂.symm
  · rw [ht₁, thread_goto_self] at h₁
    rw [thread_goto_of_ne _ _ _ ht₂] at h₂
    exact absurd h₂ (hother ht₂ h₁)
  · rw [ht₂, thread_goto_self] at h₂
    rw [thread_goto_of_ne _ _ _ ht₁] at h₁
    exact absurd h₁ (hother ht₁ h₂)
  · rw [thread_goto_of_ne _ _ _ ht₁] at h₁
    rw [thread_goto_of_ne _ _ _ ht₂] at h₂
    exact halone h₁ h₂

/-- A thread moves on, with nothing fetched before or after. -/
theorem Simulates.goto (h : Simulates m s c) (hfrom : ∀ k w r, s.thread t ≠ .fetched k w r)
    (hto : ∀ k w r, th ≠ .fetched k w r)
    (hmissed : ∀ k, th = .missed k → s.memo.find? (m.slot k) = none)
    (hpending : ∀ k, th.pending = some k → ∀ t', (s.thread t').pending ≠ some k) :
    Simulates m (s.goto t th) c where
  source := h.source
  level hk := h.level fun t' w r ht' => hk t' w r ((fetched_goto hfrom hto).mpr ht')
  ahead ht' := h.ahead ((fetched_goto hfrom hto).mp ht')
  waiting {t' k} := forall_goto (P := fun _ th => th = .missed k → s.memo.find? (m.slot k) = none)
    (hmissed k) (fun _ _ => h.waiting) t'
  alone := alone_goto h.alone fun k hp => .inr (hpending k hp)

theorem Simulates.goto_returned (h : Simulates m s c)
    (hfrom : ∀ k w r, s.thread t ≠ .fetched k w r) (k : K) (r : R) :
    Simulates m (s.goto t (.returned k r)) c :=
  h.goto hfrom (by simp) (by simp) (by simp [Thread.pending])

omit [DecidableEq ι] in
/-- The thread that asked for `k` is the only one, so nothing was fetched for it. -/
theorem Simulates.find?_of_missed (h : Simulates m s c) {k : K} (hmissed : s.thread t = .missed k) :
    c.memo.find? k = none := by
  rw [h.level, h.waiting hmissed]
  intro t' w r hfetched
  have hpending : (s.thread t).pending = some k := by rw [hmissed]; rfl
  have hpending' : (s.thread t').pending = some k := by rw [hfetched]; rfl
  obtain rfl := h.alone hpending hpending'
  exact absurd (hmissed.symm.trans hfetched) (by simp)

end

section

variable {s : System ι S K L W R} {c : Memo.Cached S K W} {t : ι} {k : K} {w : W} {r : R}

omit [DecidableEq L] in
/-- The memo table moves ahead. -/
theorem Simulates.found [DecidableEq K] (h : Simulates m s c) (hmissed : s.thread t = .missed k) :
    Simulates m (s.goto t (.fetched k w r)) { c with memo := c.memo.insert k w } := by
  have hpending : (s.thread t).pending = some k := by rw [hmissed]; rfl
  have hne : ∀ {t' k'}, t' ≠ t → (s.thread t').pending = some k' → k' ≠ k := by
    rintro t' k' ht hp rfl
    exact ht (h.alone hp hpending)
  constructor
  case source => exact h.source
  case level =>
    intro k' hk'
    have hkk' : k' ≠ k := by
      rintro rfl
      exact hk' t w r (thread_goto_self _ _ _)
    rw [StorageMap.find?_insert_of_ne _ _ hkk']
    refine h.level fun t' w' r' ht' => hk' t' w' r' ?_
    rw [thread_goto_of_ne, ht']
    rintro rfl
    exact absurd (hmissed.symm.trans ht') (by simp)
  case ahead =>
    intro t' k' w' r'
    refine forall_goto (P := fun _ th => th = .fetched k' w' r' →
      (c.memo.insert k w).find? k' = some w' ∧ s.memo.find? (m.slot k') = none) ?_ ?_ t'
    · rintro ⟨⟩
      exact ⟨StorageMap.find?_insert_self _ _ _, h.waiting hmissed⟩
    · intro t' ht hfetched
      rw [StorageMap.find?_insert_of_ne _ _ (hne ht (by rw [hfetched]; rfl))]
      exact h.ahead hfetched
  case waiting =>
    intro t' k'
    exact forall_goto (P := fun _ th => th = .missed k' → s.memo.find? (m.slot k') = none)
      (by simp) (fun _ _ => h.waiting) t'
  case alone =>
    refine alone_goto h.alone fun k' hp => .inl ?_
    obtain rfl : k = k' := Option.some.inj hp
    exact hpending

/-- The cache catches up. -/
theorem Simulates.kept (h : Simulates m s c) (hfetched : s.thread t = .fetched k w r) :
    Simulates m { s.goto t (.returned k r) with memo := s.memo.insert (m.slot k) w } c := by
  have hpending : (s.thread t).pending = some k := by rw [hfetched]; rfl
  have hne : ∀ {t' k'}, t' ≠ t → (s.thread t').pending = some k' →
      (s.memo.insert (m.slot k) w).find? (m.slot k') = s.memo.find? (m.slot k') := by
    intro t' k' ht hp
    refine StorageMap.find?_insert_of_ne _ _ fun hl => ht ?_
    obtain rfl := m.slot_injective hl
    exact h.alone hp hpending
  constructor
  case source => exact h.source
  case level =>
    intro k' hk'
    dsimp only at hk' ⊢
    by_cases hkk' : k' = k
    · subst hkk'
      exact (h.ahead hfetched).1.trans (StorageMap.find?_insert_self _ _ _).symm
    · rw [StorageMap.find?_insert_of_ne _ _ fun hl => hkk' (m.slot_injective hl)]
      refine h.level fun t' w' r' ht' => hk' t' w' r' ?_
      rw [thread_goto_of_ne, ht']
      rintro rfl
      rw [hfetched] at ht'
      cases ht'
      exact hkk' rfl
  case ahead =>
    intro t' k' w' r'
    refine forall_goto (P := fun _ th => th = .fetched k' w' r' → c.memo.find? k' = some w' ∧
      (s.memo.insert (m.slot k) w).find? (m.slot k') = none) (by simp) ?_ t'
    intro t' ht ht'
    rw [hne ht (by rw [ht']; rfl)]
    exact h.ahead ht'
  case waiting =>
    intro t' k'
    refine forall_goto (P := fun _ th => th = .missed k' →
      (s.memo.insert (m.slot k) w).find? (m.slot k') = none) (by simp) ?_ t'
    intro t' ht ht'
    rw [hne ht (by rw [ht']; rfl)]
    exact h.waiting ht'
  case alone => exact alone_goto h.alone fun k' hp => absurd hp (by simp [Thread.pending])

end

variable [DecidableEq K]

theorem simulates_step {s : System ι S K L W R} {c : Memo.Cached S K W} (h : Simulates m s c)
    {op : Op ι X K} (hop : Exclusive s op) :
    Simulates m (s.step m op) (run (Memo.Cached.step m.update m.kept) c (s.point m op)) := by
  have heff := effect_step m s op
  generalize s.step m op = s' at heff
  have hidle : ∀ {t}, (s.thread t).pending = none → ∀ k w r, s.thread t ≠ .fetched k w r := by
    rintro t hp k w r ht
    rw [ht] at hp
    exact absurd hp (by simp [Thread.pending])
  cases heff with
  | changed x =>
    exact ⟨congrArg (m.update · x) h.source, h.level, h.ahead, h.waiting, h.alone⟩
  | @hit t k up w hnone hw =>
    have hlevel : c.memo.find? k = some w := by
      rw [h.level, find?_of_lookup hw]
      intro t' w' r' hfetched
      exact absurd ((h.ahead hfetched).2.symm.trans (find?_of_lookup hw)) (by simp)
    rw [System.point, hnone, hw]
    change Simulates m _ { c with memo := Memo.remember c.memo k _ }
    rw [Memo.remember_of_some hlevel]
    exact h.goto_returned (hidle hnone) k (m.hit w)
  | @miss t k up hnone hw =>
    obtain ⟨rfl, hquiet⟩ := hop
    rw [System.point, hnone, hw]
    refine h.goto (hidle hnone) (by simp) ?_ ?_
    · rintro k' ⟨⟩
      exact hw
    · rintro k' ⟨⟩
      exact hquiet
  | @answer t k r hmissed hr =>
    rw [System.point, hmissed]
    change Simulates m _ { c with memo := Memo.remember c.memo k (m.kept c.source k) }
    rw [h.source, Machine.kept, hr, Memo.remember_none, ← h.source]
    refine h.goto_returned (fun k' w' r' hfetched => ?_) k r
    exact absurd (hmissed.symm.trans hfetched) (by simp)
  | @found t k w r hmissed hr =>
    rw [System.point, hmissed]
    change Simulates m _ { c with memo := Memo.remember c.memo k (m.kept c.source k) }
    rw [h.source, Machine.kept, hr, Memo.remember_of_none (h.find?_of_missed hmissed), ← h.source]
    exact h.found hmissed
  | kept hfetched => exact h.kept hfetched
  | dropped => exact absurd hop (by simp [Exclusive])
  | skipped hpoint =>
    rw [hpoint]
    exact h

variable (m) in
/-- At a step of its own, where its lookup of `k` takes effect, the thread is answered as a lookup
    in one step would be; and it has started no other lookup since. -/
def Replied (source : S) (ops : List (Op ι X K)) (t : ι) (k : K) (r : R) : Prop :=
  ∃ pre op post, ops = pre ++ op :: post ∧ (op = .get t k true ∨ op = .fetch t) ∧
    (run (System.step m) (.init source) pre).point m op = [.ask k] ∧
    m.reply (run (Memo.Cached.step m.update m.kept) ⟨source, .empty⟩
      (linear m (.init source) pre)) k = r ∧
    EachStep (System.step m) (fun s op' => ¬ Starts t s op')
      (run (System.step m) (.init source) (pre ++ [op])) post

/-- What a thread has, or will return, is such an answer. -/
def Thread.Reply (P : K → R → Prop) : Thread K W R → Prop
  | .fetched k _ r => P k r
  | .returned k r => P k r
  | _ => True

theorem Replied.concat {source : S} {ops : List (Op ι X K)} {t : ι} {k : K} {r : R}
    (h : Replied m source ops t k r) {op' : Op ι X K}
    (hop' : ¬ Starts t (run (System.step m) (.init source) ops) op') :
    Replied m source (ops ++ [op']) t k r := by
  obtain ⟨pre, op, post, rfl, hop, hpoint, hreply, hsince⟩ := h
  refine ⟨pre, op, post ++ [op'], by simp, hop, hpoint, hreply, eachStep_concat.mpr ⟨hsince, ?_⟩⟩
  rw [← run_append, List.append_assoc]
  exact hop'

omit [DecidableEq ι] [DecidableEq L] [DecidableEq K] in
theorem Thread.Reply.mono {P Q : K → R → Prop} (hPQ : ∀ {k r}, P k r → Q k r)
    {th : Thread K W R} (h : th.Reply P) : th.Reply Q := by
  cases th with
  | idle => trivial
  | missed k => trivial
  | fetched k w r => exact hPQ h
  | returned k r => exact hPQ h

theorem reply_step {source : S} {ops : List (Op ι X K)}
    (hsim : Simulates m (run (System.step m) (.init source) ops)
      (run (Memo.Cached.step m.update m.kept) ⟨source, .empty⟩ (linear m (.init source) ops)))
    (h : ∀ t, ((run (System.step m) (.init source) ops).thread t).Reply (Replied m source ops t))
    {op : Op ι X K} (hop : Exclusive (run (System.step m) (.init source) ops) op) (t' : ι) :
    (((run (System.step m) (.init source) ops).step m op).thread t').Reply
      (Replied m source (ops ++ [op]) t') := by
  have hold : ∀ {t}, ¬ Starts t (run (System.step m) (.init source) ops) op →
      ((run (System.step m) (.init source) ops).thread t).Reply
        (Replied m source (ops ++ [op]) t) := fun hop' => (h _).mono fun hr => hr.concat hop'
  -- a thread that another one's lookup does not concern
  have hget : ∀ {t t' : ι} {k : K} {up : Bool}, t' ≠ t →
      ¬ Starts t' (run (System.step m) (.init source) ops) (.get t k up : Op ι X K) := by
    rintro t t' k up ht ⟨k', up', ⟨⟩, -⟩
    exact ht rfl
  have heff := effect_step m (run (System.step m) (.init source) ops) op
  generalize (run (System.step m) (.init source) ops).step m op = s' at heff
  cases heff with
  | changed x => exact hold (by simp [Starts])
  | @hit t k up w hidle hw =>
    obtain ⟨rfl, -⟩ := hop
    have hw' := find?_of_lookup hw
    refine forall_goto ⟨ops, .get t k true, [], rfl, .inl rfl, ?_, ?_, trivial⟩
      (fun t'' ht => hold (hget ht)) t'
    · rw [System.point, hidle, hw]
    · have hlevel := hsim.level (k := k) fun t w' r ht =>
        absurd ((hsim.ahead ht).2.symm.trans hw') (by simp)
      rw [Machine.reply, hlevel, hw']
  | miss hidle hw => exact forall_goto trivial (fun t'' ht => hold (hget ht)) t'
  | @answer t k r hmissed hr =>
    refine forall_goto ⟨ops, .fetch t, [], rfl, .inr rfl, ?_, ?_, trivial⟩
      (fun t'' _ => hold (by simp [Starts])) t'
    · rw [System.point, hmissed]
    · rw [Machine.reply, hsim.find?_of_missed hmissed, hsim.source, hr]
  | @found t k w r hmissed hr =>
    refine forall_goto ⟨ops, .fetch t, [], rfl, .inr rfl, ?_, ?_, trivial⟩
      (fun t'' _ => hold (by simp [Starts])) t'
    · rw [System.point, hmissed]
    · rw [Machine.reply, hsim.find?_of_missed hmissed, hsim.source, hr]
  | @kept t k w r hfetched =>
    have hreplied : (Thread.returned (W := W) k r).Reply
        (Replied m source (ops ++ [.put t true]) t) := by
      have hfetch := hold (t := t) (by simp [Starts])
      rw [hfetched] at hfetch
      exact hfetch
    exact forall_goto (P := fun t' th => th.Reply (Replied m source (ops ++ [.put t true]) t'))
      hreplied (fun t'' _ => hold (by simp [Starts])) t'
  | dropped => exact absurd hop (by simp [Exclusive])
  | skipped hpoint hstarts => exact hold (hstarts t')

/-- Where no two lookups of one key overlap, every answer is the one that a lookup in a single step
    gives at that moment of the run, and the cache holds what it would hold then. -/
theorem simulates_run (source : S) {ops : List (Op ι X K)}
    (hops : EachStep (System.step m) Exclusive (.init source) ops) :
    Simulates m (run (System.step m) (.init source) ops)
        (run (Memo.Cached.step m.update m.kept) ⟨source, .empty⟩
          (linear m (.init source) ops)) ∧
      ∀ t, ((run (System.step m) (.init source) ops).thread t).Reply (Replied m source ops t) := by
  refine @run_history _ _ (System.step m) (fun ops s =>
    EachStep (System.step m) Exclusive (.init source) ops →
      Simulates m s (run (Memo.Cached.step m.update m.kept) ⟨source, .empty⟩
        (linear m (.init source) ops)) ∧ ∀ t, (s.thread t).Reply (Replied m source ops t))
    (.init source) ?_ ?_ ops hops
  · intro _
    refine ⟨⟨rfl, fun _ => rfl, ?_, ?_, ?_⟩, fun _ => trivial⟩ <;>
      simp [System.init, Thread.pending]
  · intro ops op h hops
    obtain ⟨hops, hop⟩ := eachStep_concat.mp hops
    obtain ⟨hsim, hreply⟩ := h hops
    refine ⟨?_, reply_step hsim hreply hop⟩
    rw [linear_concat, run_append]
    exact simulates_step hsim hop

end Siip.Lib.ReadThrough
