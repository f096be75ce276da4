import KeyCustody.Assoc
import Mathlib.Data.List.Nodup
import Mathlib.Tactic.SplitIfs
import Mathlib.Tactic.Tauto
/-!
# Maps as lists of pairs

A map whose keys are distinct has just what is in its pairs. If it has something for a key, the map
is this pair and what it is without the key, in some order, and so it is with what is put under one.

## Main results

* `Assoc.mem_of_get?`, `Assoc.get?_of_mem`: what a map has, and its pairs.
* `Assoc.nodup_keys_put`, `Assoc.nodup_keys_erase`: keys stay distinct.
* `Assoc.perm_get?`, `Assoc.perm_put`: a map and what it is without a key.
-/

namespace KeyCustody

namespace Assoc

variable {κ α : Type} [DecidableEq κ] {m : Assoc κ α} {j k : κ} {a : α}

/-- A map has something for the key of each of its pairs. -/
theorem isSome_get?_of_mem (h : (k, a) ∈ m) : (get? m k).isSome := by
  induction m with
  | nil => cases h
  | cons q m ih =>
    rw [get?]
    split_ifs with hq
    · rfl
    · refine ih ((List.mem_cons.1 h).resolve_left ?_)
      rintro rfl
      exact hq rfl

/-- What a map has for a key is in one of its pairs. -/
theorem mem_of_get? (h : get? m k = some a) : (k, a) ∈ m := by
  induction m with
  | nil => cases h
  | cons q m ih =>
    rw [get?] at h
    split_ifs at h with hq
    · obtain rfl := Option.some.inj h
      exact hq ▸ List.mem_cons_self
    · exact List.mem_cons_of_mem _ (ih h)

/-- A map with distinct keys has what is in its pairs. -/
theorem get?_of_mem (hm : (keys m).Nodup) (h : (k, a) ∈ m) : get? m k = some a := by
  induction m with
  | nil => cases h
  | cons q m ih =>
    obtain ⟨hq, hm⟩ := List.nodup_cons.1 hm
    rw [get?]
    rcases List.mem_cons.1 h with rfl | h
    · exact if_pos rfl
    · have hne : q.1 ≠ k := by
        rintro rfl
        exact hq (List.mem_map.2 ⟨_, h, rfl⟩)
      rw [if_neg hne, ih hm h]

theorem mem_keys_put : j ∈ keys (put m k a) ↔ j = k ∨ j ∈ keys m := by
  induction m with
  | nil => simp [put, keys]
  | cons q m ih =>
    rw [put]
    split_ifs with hq
    · simp [keys, ← hq]
    · simp only [keys, List.map_cons, List.mem_cons] at ih ⊢
      rw [ih]
      tauto

/-- Keys stay distinct. -/
theorem nodup_keys_put (hm : (keys m).Nodup) (k : κ) (a : α) :
    (keys (put m k a)).Nodup := by
  induction m with
  | nil => simp [put, keys]
  | cons q m ih =>
    obtain ⟨hq, hm⟩ := List.nodup_cons.1 hm
    rw [put]
    split_ifs with hk
    · exact List.nodup_cons.2 ⟨hk ▸ hq, hm⟩
    · refine List.nodup_cons.2 ⟨fun hmem => ?_, ih hm⟩
      exact (mem_keys_put.1 hmem).elim hk hq

theorem get?_eq_none_iff : get? m k = none ↔ k ∉ keys m := by
  refine ⟨fun h hk => ?_, fun h => ?_⟩
  · obtain ⟨⟨j, a⟩, hmem, rfl⟩ := List.mem_map.1 hk
    have hsome := isSome_get?_of_mem hmem
    rw [h] at hsome
    cases hsome
  · cases hget : get? m k with
    | none => rfl
    | some a => exact absurd (List.mem_map_of_mem (mem_of_get? hget)) h

theorem erase_cons (q : κ × α) (m : Assoc κ α) (k : κ) :
    erase (q :: m) k = if q.1 = k then erase m k else q :: erase m k := by
  by_cases hq : q.1 = k <;> simp [erase, hq]

theorem erase_of_notMem (hk : k ∉ keys m) : erase m k = m := by
  refine List.filter_eq_self.2 fun q hq => decide_eq_true ?_
  rintro rfl
  exact hk (List.mem_map_of_mem hq)

theorem erase_put (m : Assoc κ α) (k : κ) (a : α) : erase (put m k a) k = erase m k := by
  induction m with
  | nil => simp [put, erase]
  | cons q m ih =>
    rw [put, erase_cons q]
    split_ifs with hq
    · rw [erase_cons, if_pos rfl]
    · rw [erase_cons, if_neg hq, ih]

theorem nodup_keys_erase (hm : (keys m).Nodup) (k : κ) : (keys (erase m k)).Nodup :=
  hm.sublist (List.filter_sublist.map _)

/-- A map has for a key that is kept what it had. -/
theorem get?_filter (m : Assoc κ α) (keeps : κ → Bool) (k : κ) :
    get? (m.filter fun q => keeps q.1) k = if keeps k then get? m k else none := by
  induction m with
  | nil => simp [get?]
  | cons q m ih =>
    rw [List.filter_cons]
    by_cases hq : q.1 = k
    · subst hq
      by_cases hk : keeps q.1 <;> simp [hk, get?, ih]
    · by_cases hk : keeps q.1 <;> simp [hk, get?, hq, ih]

/-- A map with distinct keys is what it has for a key, and what it is without the key. -/
theorem perm_of_get? (hm : (keys m).Nodup) (h : get? m k = some a) :
    m.Perm ((k, a) :: erase m k) := by
  induction m with
  | nil => cases h
  | cons q m ih =>
    obtain ⟨hq, hm⟩ := List.nodup_cons.1 hm
    rw [get?] at h
    rw [erase_cons]
    split_ifs at h ⊢ with hk
    · obtain rfl := Option.some.inj h
      subst hk
      rw [erase_of_notMem hq]
    · exact ((ih hm h).cons q).trans (.swap ..)

/-- A map with distinct keys is what it may have for a key, and what it is without the key. -/
theorem perm_get? (hm : (keys m).Nodup) (k : κ) :
    m.Perm ((get? m k).toList.map (fun a => (k, a)) ++ erase m k) := by
  cases hget : get? m k with
  | none =>
    rw [erase_of_notMem (get?_eq_none_iff.1 hget)]
    exact .refl _
  | some a => exact perm_of_get? hm hget

/-- What is put under a key comes beside what the map is without the key. -/
theorem perm_put (hm : (keys m).Nodup) (k : κ) (a : α) :
    (put m k a).Perm ((k, a) :: erase m k) := by
  have hperm := perm_of_get? (nodup_keys_put hm k a) ((get?_put ..).trans (if_pos rfl))
  rwa [erase_put] at hperm

end Assoc

end KeyCustody
