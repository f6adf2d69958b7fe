/-
  Typed maps in a store of byte strings.

  A `MapItem` says under which byte string the value of a key is kept, and how the value is written.
  `Represents` says that the store holds a typed map so; each operation on the item keeps it and
  does to the typed map what it does to the store. What is kept under other byte strings stays.

  `hashed` is the item of a prefix and a hash of the key that the key itself follows. Whatever the
  hash, the byte strings of different keys differ, and those of different prefixes too.
-/
import Siip.Lib.Scale
import Siip.Lib.StorageMap

namespace Siip.Lib

universe u v

/-- Byte strings under byte strings. -/
abbrev ByteStore := StorageMap Bytes Bytes

structure MapItem (K : Type u) (V : Type v) where
  FitsKey : K → Prop
  key : K → Bytes
  key_inj : ∀ {k k'}, FitsKey k → FitsKey k' → key k = key k' → k = k'
  value : PrefixCode V

namespace MapItem

section

variable {K : Type u} {V : Type v} (item : MapItem K V) (store : ByteStore)

def containsKey (k : K) : Bool := store.containsKey (item.key k)

/-- What cannot be decoded counts as absent. -/
def find? (k : K) : Option V :=
  (store.find? (item.key k)).bind fun bs => (item.value.decode bs).map Prod.fst

def get [Inhabited V] (k : K) : V := (item.find? store k).getD default

def insert (k : K) (v : V) : ByteStore := store.insert (item.key k) (item.value.encode v)

/-- Read with default, and delete. -/
def take [Inhabited V] (k : K) : V × ByteStore :=
  (item.get store k, store.remove (item.key k))

/-- The store holds the map under the keys of the item. -/
structure Represents (m : StorageMap K V) : Prop where
  stored : ∀ k, item.FitsKey k →
    store.find? (item.key k) = (m.find? k).map item.value.encode
  fits : ∀ k v, m.find? k = some v → item.value.Fits v

/-- No byte string is a key of both items. -/
def Disjoint {K' : Type u} {V' : Type v} (item' : MapItem K' V') : Prop :=
  ∀ k k', item.key k ≠ item'.key k'

end

section

variable {K : Type u} {V : Type v} {item : MapItem K V} {store : ByteStore} {m : StorageMap K V}

theorem Represents.containsKey_eq (h : item.Represents store m) {k : K} (hk : item.FitsKey k) :
    item.containsKey store k = m.containsKey k := by
  rw [containsKey, StorageMap.containsKey, StorageMap.containsKey, h.stored k hk,
    Option.isSome_map]

theorem Represents.find?_eq (h : item.Represents store m) {k : K} (hk : item.FitsKey k) :
    item.find? store k = m.find? k := by
  rw [find?, h.stored k hk]
  cases hv : m.find? k with
  | none => rfl
  | some v =>
    have hdec := item.value.decode_encode (h.fits k v hv) []
    rw [List.append_nil] at hdec
    rw [Option.map_some, Option.bind_some, hdec, Option.map_some]

theorem Represents.get_eq [Inhabited V] (h : item.Represents store m) {k : K}
    (hk : item.FitsKey k) : item.get store k = m.get k := by
  rw [get, h.find?_eq hk, StorageMap.get]

/-- What happens under other byte strings does not matter. -/
theorem Represents.of_eq (h : item.Represents store m) {store' : ByteStore}
    (heq : ∀ k, store'.find? (item.key k) = store.find? (item.key k)) :
    item.Represents store' m :=
  ⟨fun k hk => (heq k).trans (h.stored k hk), h.fits⟩

variable [DecidableEq K]

theorem Represents.insert (h : item.Represents store m) {k : K} {v : V} (hk : item.FitsKey k)
    (hv : item.value.Fits v) : item.Represents (item.insert store k v) (m.insert k v) where
  stored k' hk' := by
    by_cases hkey : k' = k
    · rw [hkey, MapItem.insert, StorageMap.find?_insert_self, StorageMap.find?_insert_self,
        Option.map_some]
    · have hne : item.key k' ≠ item.key k := fun heq => hkey (item.key_inj hk' hk heq)
      rw [MapItem.insert, StorageMap.find?_insert_of_ne _ _ hne,
        StorageMap.find?_insert_of_ne _ _ hkey, h.stored k' hk']
  fits k' v' hv' := by
    by_cases hkey : k' = k
    · rw [hkey, StorageMap.find?_insert_self] at hv'
      exact Option.some.inj hv' ▸ hv
    · rw [StorageMap.find?_insert_of_ne _ _ hkey] at hv'
      exact h.fits k' v' hv'

theorem Represents.remove (h : item.Represents store m) {k : K} (hk : item.FitsKey k) :
    item.Represents (store.remove (item.key k)) (m.remove k) where
  stored k' hk' := by
    by_cases hkey : k' = k
    · rw [hkey, StorageMap.find?_remove_self, StorageMap.find?_remove_self, Option.map_none]
    · have hne : item.key k' ≠ item.key k := fun heq => hkey (item.key_inj hk' hk heq)
      rw [StorageMap.find?_remove_of_ne _ hne, StorageMap.find?_remove_of_ne _ hkey,
        h.stored k' hk']
  fits k' v' hv' := by
    by_cases hkey : k' = k
    · rw [hkey, StorageMap.find?_remove_self] at hv'
      exact absurd hv' (by simp)
    · rw [StorageMap.find?_remove_of_ne _ hkey] at hv'
      exact h.fits k' v' hv'

end

/-! ## Keys with a hash in front -/

section

variable {K K' : Type u} {V V' : Type v} {w : Nat}

def hashed (pre : Bytes) (hash : Bytes → Vector UInt8 w) (code : PrefixCode K)
    (value : PrefixCode V) : MapItem K V where
  FitsKey := code.Fits
  key k := pre ++ ((hash (code.encode k)).toList ++ code.encode k)
  key_inj := by
    intro k k' hk hk' h
    have hboth := List.append_cancel_left h
    exact code.encode_inj hk hk' (List.append_inj_right hboth (by simp))
  value := value

theorem disjoint_hashed {pre pre' : Bytes} {hash : Bytes → Vector UInt8 w} {code : PrefixCode K}
    {code' : PrefixCode K'} {value : PrefixCode V} {value' : PrefixCode V'}
    (hlen : pre.length = pre'.length) (hne : pre ≠ pre') :
    (hashed pre hash code value).Disjoint (hashed pre' hash code' value') :=
  fun _ _ h => hne (List.append_inj_left h hlen)

end

end MapItem

end Siip.Lib
