/-
  A main map `m` and a secondary index `idx` over it: `idx.get b` lists the values of `m` whose
  attribute is `b`. Keys, values and attributes are arbitrary types.

  What a lookup by attribute is for is the set `withAttr attr m b`; the index is `Complete` when
  every bucket contains that set, and `Sound` when every entry of a bucket is stored in `m` under
  its own key with the bucket's attribute, and no key occurs twice in a bucket.

  Three bucket updates are analysed, each beside the matching update of the main map:
  append (`push`), rewrite of the bucket of the new attribute (`retain` then append), and purge of
  one bucket. The rewrite keeps soundness exactly when the value did not change its attribute
  (`sound_rewrite`, `not_sound_rewrite`): the bucket of the old attribute is not touched.
-/
import Siip.Lib.StorageMap
import Mathlib.Data.Set.Basic

namespace Siip.Lib

universe u v w

variable {K : Type u} {V : Type v} {B : Type w}

/-- Every value of the map is stored under its own key. -/
def Keyed (key : V → K) (m : StorageMap K V) : Prop :=
  ∀ k v, m.find? k = some v → key v = k

/-- What a lookup of the attribute `b` should return. -/
def withAttr (attr : V → B) (m : StorageMap K V) (b : B) : Set V :=
  {v | ∃ k, m.find? k = some v ∧ attr v = b}

/-- The buckets contain everything they should. -/
def Complete (attr : V → B) (m : StorageMap K V) (idx : StorageMap B (List V)) : Prop :=
  ∀ b, withAttr attr m b ⊆ {v | v ∈ idx.get b}

/-- The buckets contain nothing else, and no key twice. -/
def Sound (key : V → K) (attr : V → B) (m : StorageMap K V) (idx : StorageMap B (List V)) : Prop :=
  ∀ b, (∀ v ∈ idx.get b, m.find? (key v) = some v ∧ attr v = b) ∧ NodupKeys key (idx.get b)

theorem complete_iff {attr : V → B} {m : StorageMap K V} {idx : StorageMap B (List V)} :
    Complete attr m idx ↔ ∀ k v, m.find? k = some v → v ∈ idx.get (attr v) := by
  constructor
  · intro h k v hv
    exact h (attr v) ⟨k, hv, rfl⟩
  · rintro h b v ⟨k, hv, rfl⟩
    exact h k v hv

theorem complete_empty (attr : V → B) :
    Complete attr (StorageMap.empty : StorageMap K V) StorageMap.empty := by
  rintro b v ⟨k, hk, -⟩
  rw [StorageMap.find?_empty] at hk
  exact absurd hk (Option.some_ne_none v).symm

theorem sound_empty (key : V → K) (attr : V → B) :
    Sound key attr (StorageMap.empty : StorageMap K V) StorageMap.empty := by
  intro b
  rw [StorageMap.get_empty]
  exact ⟨fun v hv => absurd hv (List.not_mem_nil), nodupKeys_nil⟩

variable [DecidableEq K] [DecidableEq B] {key : V → K} {attr : V → B} {m : StorageMap K V}
  {idx : StorageMap B (List V)}

omit [DecidableEq B] in
theorem Keyed.insert (h : Keyed key m) (v : V) : Keyed key (m.insert (key v) v) := by
  intro k w hw
  by_cases hk : k = key v
  · subst hk
    rw [StorageMap.find?_insert_self, Option.some.injEq] at hw
    rw [hw]
  · rw [StorageMap.find?_insert_of_ne m v hk] at hw
    exact h k w hw

omit [DecidableEq B] in
theorem Keyed.remove (h : Keyed key m) (k : K) : Keyed key (m.remove k) := by
  intro k' w hw
  by_cases hk : k' = k
  · rw [hk, StorageMap.find?_remove_self] at hw
    exact absurd hw (Option.some_ne_none w).symm
  · rw [StorageMap.find?_remove_of_ne m hk] at hw
    exact h k' w hw

/-! ## Completeness -/

omit [DecidableEq K] in
/-- A bucket may be rewritten as long as it keeps every value that is still stored. -/
theorem complete_bucket {m' : StorageMap K V} (h : Complete attr m idx) {b : B} {bucket : List V}
    (hkeep : ∀ k w, m'.find? k = some w → attr w = b → w ∈ bucket)
    (hsame : ∀ k w, m'.find? k = some w → attr w ≠ b → m.find? k = some w) :
    Complete attr m' (idx.insert b bucket) := by
  rw [complete_iff] at h ⊢
  intro k w hw
  by_cases hb : attr w = b
  · rw [hb, StorageMap.get_insert_self]
    exact hkeep k w hw hb
  · rw [StorageMap.get_insert_of_ne _ _ hb]
    exact h k w (hsame k w hw hb)

theorem complete_push (h : Complete attr m idx) (v : V) :
    Complete attr (m.insert (key v) v) (idx.insert (attr v) (idx.get (attr v) ++ [v])) := by
  have hrest : ∀ k w, (m.insert (key v) v).find? k = some w → w = v ∨ m.find? k = some w := by
    intro k w hw
    by_cases hk : k = key v
    · rw [hk, StorageMap.find?_insert_self, Option.some.injEq] at hw
      exact Or.inl hw.symm
    · rw [StorageMap.find?_insert_of_ne m v hk] at hw
      exact Or.inr hw
  apply complete_bucket h
  · intro k w hw hb
    rcases hrest k w hw with rfl | hw
    · simp
    · rw [← hb]
      exact List.mem_append_left _ (complete_iff.mp h k w hw)
  · intro k w hw hb
    rcases hrest k w hw with rfl | hw
    · exact absurd rfl hb
    · exact hw

theorem complete_rewrite (h : Complete attr m idx) (hm : Keyed key m) (v : V) :
    Complete attr (m.insert (key v) v)
      (idx.insert (attr v) (retain key (key v) (idx.get (attr v)) ++ [v])) := by
  apply complete_bucket h
  · intro k w hw hb
    by_cases hk : k = key v
    · rw [hk, StorageMap.find?_insert_self, Option.some.injEq] at hw
      simp [hw]
    · rw [StorageMap.find?_insert_of_ne m v hk] at hw
      have hmem : w ∈ idx.get (attr v) := hb ▸ complete_iff.mp h k w hw
      have hkey : key w ≠ key v := hm k w hw ▸ hk
      exact List.mem_append_left _ (mem_retain.mpr ⟨hmem, hkey⟩)
  · intro k w hw hb
    by_cases hk : k = key v
    · rw [hk, StorageMap.find?_insert_self, Option.some.injEq] at hw
      exact absurd (hw ▸ rfl) hb
    · rwa [StorageMap.find?_insert_of_ne m v hk] at hw

theorem complete_purge (h : Complete attr m idx) (hm : Keyed key m) (k : K) (b : B) :
    Complete attr (m.remove k) (idx.insert b (retain key k (idx.get b))) := by
  have hrest : ∀ k' w, (m.remove k).find? k' = some w → k' ≠ k ∧ m.find? k' = some w := by
    intro k' w hw
    by_cases hk : k' = k
    · rw [hk, StorageMap.find?_remove_self] at hw
      exact absurd hw (Option.some_ne_none w).symm
    · rw [StorageMap.find?_remove_of_ne m hk] at hw
      exact ⟨hk, hw⟩
  apply complete_bucket h
  · intro k' w hw hb
    obtain ⟨hk, hw⟩ := hrest k' w hw
    exact mem_retain.mpr ⟨hb ▸ complete_iff.mp h k' w hw, hm k' w hw ▸ hk⟩
  · intro k' w hw _
    exact (hrest k' w hw).2

/-! ## Soundness -/

omit [DecidableEq K] in
/-- Rewriting one bucket keeps soundness when the entries of the other buckets keep their value
    in the main map. -/
theorem sound_bucket {m' : StorageMap K V} (h : Sound key attr m idx) {b : B} {bucket : List V}
    (hbucket : ∀ w ∈ bucket, m'.find? (key w) = some w ∧ attr w = b)
    (hnodup : NodupKeys key bucket)
    (hother : ∀ w, m.find? (key w) = some w → attr w ≠ b → m'.find? (key w) = some w) :
    Sound key attr m' (idx.insert b bucket) := by
  intro b'
  by_cases hb : b' = b
  · subst hb
    rw [StorageMap.get_insert_self]
    exact ⟨hbucket, hnodup⟩
  · rw [StorageMap.get_insert_of_ne _ _ hb]
    refine ⟨fun w hw => ?_, (h b').2⟩
    obtain ⟨hstored, rfl⟩ := (h b').1 w hw
    exact ⟨hother w hstored hb, rfl⟩

theorem sound_push (h : Sound key attr m idx) (v : V) (hfresh : m.find? (key v) = none) :
    Sound key attr (m.insert (key v) v) (idx.insert (attr v) (idx.get (attr v) ++ [v])) := by
  have hne : ∀ w, m.find? (key w) = some w → key w ≠ key v := by
    intro w hw hk
    rw [hk, hfresh] at hw
    exact absurd hw (Option.some_ne_none w).symm
  apply sound_bucket h
  · intro w hw
    rcases List.mem_append.mp hw with hw | hw
    · obtain ⟨hstored, hb⟩ := (h (attr v)).1 w hw
      rw [StorageMap.find?_insert_of_ne m v (hne w hstored)]
      exact ⟨hstored, hb⟩
    · rw [List.mem_singleton.mp hw]
      exact ⟨StorageMap.find?_insert_self m _ v, rfl⟩
  · exact (h (attr v)).2.push (fun w hw => hne w ((h (attr v)).1 w hw).1)
  · intro w hw _
    rwa [StorageMap.find?_insert_of_ne m v (hne w hw)]

theorem sound_rewrite (h : Sound key attr m idx) (v : V)
    (hsame : ∀ old, m.find? (key v) = some old → attr old = attr v) :
    Sound key attr (m.insert (key v) v)
      (idx.insert (attr v) (retain key (key v) (idx.get (attr v)) ++ [v])) := by
  apply sound_bucket h
  · intro w hw
    rcases List.mem_append.mp hw with hw | hw
    · obtain ⟨hw, hk⟩ := mem_retain.mp hw
      rw [StorageMap.find?_insert_of_ne m v hk]
      exact (h (attr v)).1 w hw
    · rw [List.mem_singleton.mp hw]
      exact ⟨StorageMap.find?_insert_self m _ v, rfl⟩
  · exact (h (attr v)).2.retain_push v
  · intro w hw hb
    have hk : key w ≠ key v := fun hk => hb (hsame w (hk ▸ hw))
    rwa [StorageMap.find?_insert_of_ne m v hk]

/-- A value that changes its attribute leaves its old entry behind. -/
theorem not_sound_rewrite (hc : Complete attr m idx) (v : V) {old : V} (hkey : key old = key v)
    (hold : m.find? (key v) = some old) (hmoved : attr old ≠ attr v) :
    ¬ Sound key attr (m.insert (key v) v)
      (idx.insert (attr v) (retain key (key v) (idx.get (attr v)) ++ [v])) := by
  intro h
  have hmem : old ∈ idx.get (attr old) := complete_iff.mp hc _ _ hold
  rw [← StorageMap.get_insert_of_ne idx
    (retain key (key v) (idx.get (attr v)) ++ [v]) hmoved] at hmem
  have hstored := ((h (attr old)).1 old hmem).1
  rw [hkey, StorageMap.find?_insert_self, Option.some.injEq] at hstored
  exact hmoved (hstored ▸ rfl)

theorem sound_purge (h : Sound key attr m idx) {k : K} {old : V} (hold : m.find? k = some old) :
    Sound key attr (m.remove k) (idx.insert (attr old) (retain key k (idx.get (attr old)))) := by
  apply sound_bucket h
  · intro w hw
    obtain ⟨hw, hk⟩ := mem_retain.mp hw
    rw [StorageMap.find?_remove_of_ne m hk]
    exact (h (attr old)).1 w hw
  · exact (h (attr old)).2.retain k
  · intro w hw hb
    have hk : key w ≠ k := by
      intro hk
      rw [hk, hold, Option.some.injEq] at hw
      exact hb (hw ▸ rfl)
    rwa [StorageMap.find?_remove_of_ne m hk]

end Siip.Lib
