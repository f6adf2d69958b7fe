/-
  Key-value storage as a blockchain runtime offers it: a finite map read with a default
  (`get`), an explicit presence test (`containsKey`), `insert`, and `take`, which reads and
  deletes. Every read after a write is settled by two simp lemmas, one for the written key and
  one for the others. `MapOps` are these operations on a map that is part of a state, for programs
  that do not say how the state keeps it.

  The second half is the bucket rewrite used by secondary indexes: `retain` the entries of the
  other keys, then append the new one. `NodupKeys` says that no key occurs twice in a bucket.
-/
import Mathlib.Data.List.Nodup

namespace Siip.Lib

universe u v

/-- A storage map: at each key a value or nothing. -/
def StorageMap (K : Type u) (V : Type v) : Type (max u v) := K → Option V

namespace StorageMap

variable {K : Type u} {V : Type v}

def empty : StorageMap K V := fun _ => none

def find? (m : StorageMap K V) (k : K) : Option V := m k

def containsKey (m : StorageMap K V) (k : K) : Bool := (m.find? k).isSome

/-- The stored value, or the type's default where there is none. -/
def get [Inhabited V] (m : StorageMap K V) (k : K) : V := (m.find? k).getD default

@[ext] theorem ext {m m' : StorageMap K V} (h : ∀ k, m.find? k = m'.find? k) : m = m' :=
  funext h

@[simp] theorem find?_empty (k : K) : (empty : StorageMap K V).find? k = none := rfl

@[simp] theorem get_empty [Inhabited V] (k : K) : (empty : StorageMap K V).get k = default := rfl

theorem containsKey_of_find? {m : StorageMap K V} {k : K} {v : V} (h : m.find? k = some v) :
    m.containsKey k = true := by
  simp [containsKey, h]

theorem containsKey_of_find?_none {m : StorageMap K V} {k : K} (h : m.find? k = none) :
    m.containsKey k = false := by
  simp [containsKey, h]

theorem get_of_find? [Inhabited V] {m : StorageMap K V} {k : K} {v : V}
    (h : m.find? k = some v) : m.get k = v := by
  simp [get, h]

theorem get_of_find?_none [Inhabited V] {m : StorageMap K V} {k : K}
    (h : m.find? k = none) : m.get k = default := by
  simp [get, h]

variable [DecidableEq K]

def insert (m : StorageMap K V) (k : K) (v : V) : StorageMap K V :=
  fun k' => if k' = k then some v else m k'

def remove (m : StorageMap K V) (k : K) : StorageMap K V :=
  fun k' => if k' = k then none else m k'

/-- Read with default, and delete. -/
def take [Inhabited V] (m : StorageMap K V) (k : K) : V × StorageMap K V :=
  (m.get k, m.remove k)

@[simp] theorem find?_insert_self (m : StorageMap K V) (k : K) (v : V) :
    (m.insert k v).find? k = some v := by
  simp [insert, find?]

@[simp] theorem find?_insert_of_ne (m : StorageMap K V) {k k' : K} (v : V) (h : k' ≠ k) :
    (m.insert k v).find? k' = m.find? k' := by
  simp [insert, find?, h]

@[simp] theorem find?_remove_self (m : StorageMap K V) (k : K) : (m.remove k).find? k = none := by
  simp [remove, find?]

@[simp] theorem find?_remove_of_ne (m : StorageMap K V) {k k' : K} (h : k' ≠ k) :
    (m.remove k).find? k' = m.find? k' := by
  simp [remove, find?, h]

@[simp] theorem get_insert_self [Inhabited V] (m : StorageMap K V) (k : K) (v : V) :
    (m.insert k v).get k = v :=
  get_of_find? (find?_insert_self m k v)

@[simp] theorem get_insert_of_ne [Inhabited V] (m : StorageMap K V) {k k' : K} (v : V)
    (h : k' ≠ k) : (m.insert k v).get k' = m.get k' := by
  simp [get, h]

@[simp] theorem insert_remove (m : StorageMap K V) (k : K) (v : V) :
    (m.remove k).insert k v = m.insert k v := by
  ext k'
  by_cases h : k' = k
  · subst h; simp
  · simp [h]

end StorageMap

/-- The operations on a map within a state. -/
structure MapOps (σ : Type u) (K : Type v) (V : Type u) where
  containsKey : σ → K → Bool
  get : σ → K → V
  insert : σ → K → V → σ
  take : σ → K → V × σ

/-! ## Buckets of a secondary index -/

section Bucket

variable {K : Type u} {V : Type v} {key : V → K}

/-- No key occurs twice in the bucket. -/
def NodupKeys (key : V → K) (b : List V) : Prop := (b.map key).Nodup

theorem nodupKeys_nil : NodupKeys key [] := List.nodup_nil

theorem NodupKeys.push {b : List V} {v : V} (h : NodupKeys key b)
    (hv : ∀ w ∈ b, key w ≠ key v) : NodupKeys key (b ++ [v]) := by
  unfold NodupKeys at h ⊢
  rw [List.map_append, List.nodup_append]
  refine ⟨h, by simp, ?_⟩
  intro x hx y hy
  obtain ⟨w, hw, rfl⟩ := List.mem_map.mp hx
  rw [List.map_singleton, List.mem_singleton] at hy
  rw [hy]
  exact hv w hw

variable [DecidableEq K]

/-- The entries of `b` under other keys than `k`. -/
def retain (key : V → K) (k : K) (b : List V) : List V :=
  b.filter (fun v => decide (key v ≠ k))

@[simp] theorem mem_retain {k : K} {b : List V} {v : V} :
    v ∈ retain key k b ↔ v ∈ b ∧ key v ≠ k := by
  simp [retain]

theorem NodupKeys.retain {b : List V} (h : NodupKeys key b) (k : K) :
    NodupKeys key (retain key k b) :=
  List.Nodup.sublist (List.filter_sublist.map key) h

/-- Rewriting a bucket for `v` leaves each key there at most once. -/
theorem NodupKeys.retain_push {b : List V} (h : NodupKeys key b) (v : V) :
    NodupKeys key (Lib.retain key (key v) b ++ [v]) :=
  (h.retain (key v)).push (fun _ hw => (mem_retain.mp hw).2)

/-- In a bucket without repeated keys, a search for a key finds what is there for it. -/
theorem NodupKeys.find?_eq_some_iff {b : List V} (h : NodupKeys key b) {k : K} {v : V} :
    b.find? (fun w => key w = k) = some v ↔ v ∈ b ∧ key v = k := by
  induction b with
  | nil => simp
  | cons w b ih =>
    rw [NodupKeys, List.map_cons, List.nodup_cons] at h
    obtain ⟨hw, hb⟩ := h
    by_cases hk : key w = k
    · rw [List.find?_cons_of_pos (by simpa using hk), Option.some.injEq]
      constructor
      · rintro rfl
        exact ⟨List.mem_cons_self, hk⟩
      · rintro ⟨hv, rfl⟩
        refine ((List.mem_cons.mp hv).resolve_right fun hmem => hw ?_).symm
        exact hk ▸ List.mem_map_of_mem hmem
    · rw [List.find?_cons_of_neg (by simpa using hk), ih hb, List.mem_cons]
      constructor
      · exact fun h => ⟨.inr h.1, h.2⟩
      · rintro ⟨rfl | hv, hkey⟩
        · exact absurd hkey hk
        · exact ⟨hv, hkey⟩

end Bucket

end Siip.Lib
