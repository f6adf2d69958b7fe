/-
  The header dictionary: what is found under a name after `set` and `add`, and after all header
  lines of a message (`get?_addAll`): the values of the lines whose names have this canonical
  form, joined by commas in their order.

  Two names have the same canonical form exactly when they differ in letter case only
  (`capitalize_eq_iff`).
-/
import Mathlib.Data.List.Induction
import Mathlib.Data.List.Nodup
import Siip.Proxy.Message

namespace Siip.Proxy

open Lib Python

/-! ## Canonical names -/

theorem capitalize_eq (name : Bytes) :
    capitalize name = [45].intercalate ((name.splitOn 45).map Python.capitalize) := by
  have hsep : asBytes "-" = [45] := by decide
  rw [capitalize, hsep, split_singleton]

theorem lower_capitalize (name : Bytes) : lower (capitalize name) = lower name := by
  have hlower : ∀ fields : List Bytes,
      (fields.map Python.capitalize).map (List.map lowerByte) =
        fields.map (List.map lowerByte) := by
    intro fields
    rw [List.map_map]
    exact List.map_congr_left fun s _ => Python.lower_capitalize s
  have hsep : ([45] : Bytes) = [45].map lowerByte := by decide
  rw [capitalize_eq, lower, map_intercalate, hlower, ← map_intercalate, List.intercalate_splitOn]
  rfl

theorem capitalize_lower (name : Bytes) : capitalize (lower name) = capitalize name := by
  have hdash : ∀ b : UInt8, lowerByte b = 45 ↔ b = 45 := by decide +kernel
  rw [capitalize_eq, capitalize_eq, lower, splitOn_map hdash, List.map_map]
  exact congrArg _ (List.map_congr_left fun s _ => Python.capitalize_lower s)

theorem capitalize_eq_iff {name name' : Bytes} :
    capitalize name = capitalize name' ↔ lower name = lower name' := by
  constructor
  · intro h
    rw [← lower_capitalize name, h, lower_capitalize]
  · intro h
    rw [← capitalize_lower name, h, capitalize_lower]

theorem capitalize_capitalize (name : Bytes) : capitalize (capitalize name) = capitalize name :=
  capitalize_eq_iff.mpr (lower_capitalize name)

theorem length_capitalize (name : Bytes) : (capitalize name).length = name.length := by
  have hlower := congrArg List.length (lower_capitalize name)
  rwa [lower, lower, List.length_map, List.length_map] at hlower

/-- A byte that is no letter stays in its place. -/
theorem getElem?_capitalize {b : UInt8} (hb : ∀ c, lowerByte c = b ↔ c = b) (name : Bytes)
    (i : Nat) :
    (capitalize name)[i]? = some b ↔ name[i]? = some b := by
  have hget : ∀ s : Bytes, (lower s)[i]? = some b ↔ s[i]? = some b := by
    intro s
    simp only [lower, List.getElem?_map, Option.map_eq_some_iff, hb, exists_eq_right]
  rw [← hget, lower_capitalize, hget]

namespace Headers

variable (self : Headers) (key value : Bytes)

theorem get?_cons (h : Bytes × Bytes) (name : Bytes) :
    Headers.get? (h :: self) name = if h.1 = name then some h.2 else self.get? name := by
  unfold get?
  by_cases hname : h.1 = name
  · rw [List.find?_cons_of_pos (by simpa using hname), if_pos hname, Option.map_some]
  · rw [List.find?_cons_of_neg (by simpa using hname), if_neg hname]

/-- The names, in insertion order. A dictionary has each once. -/
def names : List Bytes := self.map Prod.fst

theorem get?_eq_none_iff (name : Bytes) : self.get? name = none ↔ name ∉ self.names := by
  unfold get? names
  rw [Option.map_eq_none_iff, List.find?_eq_none, List.mem_map]
  simp only [beq_iff_eq, not_exists, not_and]

theorem get?_of_mem {name value : Bytes} (hnodup : self.names.Nodup) (h : (name, value) ∈ self) :
    self.get? name = some value := by
  induction self with
  | nil => exact absurd h List.not_mem_nil
  | cons h' self ih =>
    obtain ⟨hnotin, hnodup'⟩ := List.nodup_cons.mp hnodup
    rw [get?_cons]
    rcases List.mem_cons.mp h with rfl | hmem
    · rw [if_pos rfl]
    · have hne : h'.1 ≠ name := by
        intro heq
        subst heq
        exact hnotin (List.mem_map.mpr ⟨_, hmem, rfl⟩)
      rw [if_neg hne, ih hnodup' hmem]

theorem get?_set (name : Bytes) :
    (Headers.set key value self).get? name = if key = name then some value else self.get? name := by
  induction self with
  | nil => rw [set, get?_cons]
  | cons h self ih =>
    rw [set]
    split
    · rename_i hkey
      subst hkey
      rw [get?_cons, get?_cons]
      split <;> rfl
    · rename_i hkey
      rw [get?_cons, get?_cons, ih]
      by_cases hname : h.1 = name
      · rw [if_pos hname, if_pos hname, if_neg fun hk => hkey (hname.trans hk.symm)]
      · rw [if_neg hname, if_neg hname]

theorem names_set :
    (Headers.set key value self).names =
      if key ∈ self.names then self.names else self.names ++ [key] := by
  induction self with
  | nil => rfl
  | cons h self ih =>
    unfold names at *
    rw [set]
    split
    · rename_i hkey
      rw [List.map_cons, List.map_cons, hkey, if_pos List.mem_cons_self]
    · rename_i hkey
      have hiff : key ∈ h.1 :: self.map Prod.fst ↔ key ∈ self.map Prod.fst := by
        rw [List.mem_cons, or_iff_right (Ne.symm hkey)]
      rw [List.map_cons, List.map_cons, ih, if_congr hiff rfl rfl]
      split <;> rfl

theorem set_of_notMem (h : key ∉ self.names) :
    Headers.set key value self = self ++ [(key, value)] := by
  induction self with
  | nil => rfl
  | cons h' self ih =>
    obtain ⟨hne, hnotin⟩ := not_or.mp (mt List.mem_cons.mpr h)
    rw [set, if_neg (Ne.symm hne), ih hnotin, List.cons_append]

theorem nodup_set (h : self.names.Nodup) : (Headers.set key value self).names.Nodup := by
  rw [names_set]
  split
  · exact h
  · rename_i hkey
    exact List.nodup_append.mpr ⟨h, List.nodup_singleton key, fun a ha b hb hab =>
      hkey (List.mem_singleton.mp hb ▸ hab ▸ ha)⟩

theorem get?_add (name : Bytes) :
    (self.add key value).get? name =
      if key = name then
        some (match self.get? key with
          | some old => old ++ asBytes "," ++ value
          | none => value)
      else self.get? name := by
  unfold add
  cases self.get? key with
  | none => exact get?_set self key value name
  | some old => exact get?_set self key (old ++ asBytes "," ++ value) name

theorem nodup_add (h : self.names.Nodup) : (self.add key value).names.Nodup := by
  unfold add
  split
  · exact nodup_set self key _ h
  · exact nodup_set self key _ h

/-! ## All the lines of a message -/

/-- The values of the fields whose names have the canonical form `name`, in their order. -/
def valuesOf (name : Bytes) (fields : List (Bytes × Bytes)) : List Bytes :=
  (fields.filter fun f => capitalize f.1 = name).map Prod.snd

/-- They are joined by commas; where there is none, there is no header. -/
def joined : List Bytes → Option Bytes
  | [] => none
  | values => some ((asBytes ",").intercalate values)

theorem joined_concat (values : List Bytes) (value : Bytes) :
    joined (values ++ [value]) =
      some (match joined values with
        | some old => old ++ asBytes "," ++ value
        | none => value) := by
  induction values with
  | nil => simp [joined]
  | cons v values ih =>
    cases values with
    | nil => simp [joined]
    | cons w values =>
      have hjoined : ∀ x (xs : List Bytes),
          joined (x :: xs) = some ((asBytes ",").intercalate (x :: xs)) := fun _ _ => rfl
      simp only [List.cons_append, hjoined, Option.some.injEq, List.intercalate_cons_cons] at ih ⊢
      rw [ih]
      simp only [List.append_assoc]

theorem addAll_concat (fields : List (Bytes × Bytes)) (f : Bytes × Bytes) :
    self.addAll (fields ++ [f]) = (self.addAll fields).add (capitalize f.1) f.2 := by
  unfold addAll
  rw [List.foldl_append]
  rfl

theorem get?_addAll (fields : List (Bytes × Bytes)) (name : Bytes) :
    (Headers.addAll [] fields).get? name = joined (valuesOf name fields) := by
  induction fields using List.reverseRecOn with
  | nil => rfl
  | append_singleton fields f ih =>
    rw [addAll_concat, get?_add]
    unfold valuesOf at *
    rw [List.filter_append, List.map_append]
    by_cases hname : capitalize f.1 = name
    · subst hname
      rw [if_pos rfl, List.filter_cons_of_pos (by simp), List.filter_nil, List.map_singleton,
        joined_concat, ih]
    · rw [if_neg hname, List.filter_cons_of_neg (by simpa using hname), List.filter_nil,
        List.map_nil, List.append_nil, ih]

/-- Fields whose names differ in more than letter case stay as they are. -/
theorem addAll_of_nodup {fields : List (Bytes × Bytes)}
    (h : (fields.map fun f => capitalize f.1).Nodup) :
    Headers.addAll [] fields = fields.map fun f => (capitalize f.1, f.2) := by
  induction fields using List.reverseRecOn with
  | nil => rfl
  | append_singleton fields f ih =>
    rw [List.map_append, List.map_singleton, List.nodup_append] at h
    obtain ⟨hinit, -, hdisjoint⟩ := h
    have hnotin : capitalize f.1 ∉
        Headers.names (fields.map fun f => (capitalize f.1, f.2)) := by
      unfold names
      rw [List.map_map]
      exact fun hmem => hdisjoint _ hmem _ (List.mem_singleton_self _) rfl
    rw [addAll_concat, ih hinit, add, (get?_eq_none_iff _ _).mpr hnotin, List.map_append]
    exact set_of_notMem _ _ _ hnotin

theorem nodup_addAll (fields : List (Bytes × Bytes)) : (Headers.addAll [] fields).names.Nodup := by
  induction fields using List.reverseRecOn with
  | nil => exact List.nodup_nil
  | append_singleton fields f ih =>
    rw [addAll_concat]
    exact nodup_add _ _ _ ih

end Headers

end Siip.Proxy
