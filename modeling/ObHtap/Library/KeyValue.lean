import Mathlib.Data.List.Nodup
import Mathlib.Data.List.Perm.Subperm
import Mathlib.Logic.Function.Basic

/-!
# Puts into a key-value store

A store maps a key to the value put last under it.  A list of puts into an empty store leaves an
entry of its own for each value just when no key is used twice.
-/

namespace ObHtap

variable {K V : Type} [DecidableEq K]

/-- A key-value store. -/
abbrev Store (K V : Type) := K → Option V

namespace Store

/-- The store without entries. -/
def empty : Store K V := fun _ => none

def put (store : Store K V) (k : K) (v : V) : Store K V :=
  Function.update store k (some v)

/-- The puts of a list, one after the other. -/
def puts (store : Store K V) (entries : List (K × V)) : Store K V :=
  entries.foldl (fun store entry => store.put entry.1 entry.2) store

/-- Each of the values has an entry of its own. -/
def Separate (store : Store K V) (vs : List V) : Prop :=
  ∃ ks : List K, ks.Nodup ∧ ks.map store = vs.map some

variable {store : Store K V} {entries : List (K × V)} {k : K} {v : V}

theorem put_self (store : Store K V) (k : K) (v : V) : store.put k v k = some v := by
  rw [put, Function.update_self]

theorem put_of_ne {k' : K} (h : k' ≠ k) (store : Store K V) (v : V) :
    store.put k v k' = store k' := by
  rw [put, Function.update_of_ne h]

theorem puts_cons (store : Store K V) (entry : K × V) (entries : List (K × V)) :
    store.puts (entry :: entries) = (store.put entry.1 entry.2).puts entries := rfl

theorem puts_of_notMem (store : Store K V) (h : k ∉ entries.map Prod.fst) :
    store.puts entries k = store k := by
  induction entries generalizing store with
  | nil => rfl
  | cons entry entries ih =>
    rw [List.map_cons, List.mem_cons, not_or] at h
    rw [puts_cons, ih _ h.2, put_of_ne h.1]

theorem mem_of_puts (store : Store K V) (h : (store.puts entries k).isSome) :
    (store k).isSome ∨ k ∈ entries.map Prod.fst := by
  by_cases hmem : k ∈ entries.map Prod.fst
  · exact .inr hmem
  · rw [puts_of_notMem store hmem] at h
    exact .inl h

theorem map_puts (store : Store K V) (h : (entries.map Prod.fst).Nodup) :
    (entries.map Prod.fst).map (store.puts entries) = (entries.map Prod.snd).map some := by
  induction entries generalizing store with
  | nil => rfl
  | cons entry entries ih =>
    rw [List.map_cons, List.nodup_cons] at h
    rw [List.map_cons, List.map_cons, List.map_cons, List.map_cons, puts_cons, ih _ h.2,
      puts_of_notMem _ h.1, put_self]

/-- Puts into an empty store leave an entry for each value just when their keys differ. -/
theorem separate_puts_iff :
    (empty.puts entries).Separate (entries.map Prod.snd) ↔ (entries.map Prod.fst).Nodup := by
  constructor
  · rintro ⟨ks, hnodup, hks⟩
    have hlen : ks.length = (entries.map Prod.fst).length := by
      have h := congrArg List.length hks
      simpa using h
    have hsub : ks ⊆ entries.map Prod.fst := by
      intro k hk
      have hmem : empty.puts entries k ∈ (entries.map Prod.snd).map some := by
        rw [← hks]
        exact List.mem_map_of_mem hk
      obtain ⟨v, -, hv⟩ := List.mem_map.mp hmem
      have hsome : (empty.puts entries k).isSome := by
        rw [← hv]
        rfl
      exact (mem_of_puts empty hsome).resolve_left (by simp [empty])
    -- as many different keys as there are puts are all the keys used
    have hperm := (List.subperm_of_subset hnodup hsub).perm_of_length_le (Nat.le_of_eq hlen.symm)
    exact hperm.nodup_iff.mp hnodup
  · intro h
    exact ⟨entries.map Prod.fst, h, map_puts empty h⟩

end Store

end ObHtap
