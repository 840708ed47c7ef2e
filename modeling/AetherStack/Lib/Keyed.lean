import Mathlib.Tactic

/-!
# Lists of entries with a key

An entry table kept as a list, searched from the front by a key that every entry carries.
As long as no two entries share their key, the search is a partial function of the key:
overwriting or erasing the entry at an index changes its value at one key only.
-/
namespace AetherStack.Lib.Keyed

variable {α κ : Type*} [DecidableEq κ] (key : α → κ)

def lookup (l : List α) (k : κ) : Option α := l.find? fun a => key a = k

variable {key}

theorem lookup_eq_none {l : List α} {k : κ} : lookup key l k = none ↔ ∀ a ∈ l, key a ≠ k := by
  simp [lookup]

theorem lookup_mem {l : List α} {k : κ} {a : α} (h : lookup key l k = some a) :
    a ∈ l ∧ key a = k :=
  ⟨List.mem_of_find?_eq_some h, by simpa using List.find?_some h⟩

@[simp] theorem lookup_nil (k : κ) : lookup key ([] : List α) k = none := rfl

/-- The front is searched first. -/
theorem lookup_append (l m : List α) (k : κ) :
    lookup key (l ++ m) k = (lookup key l k).or (lookup key m k) := by
  simp [lookup]

@[simp] theorem lookup_singleton (a : α) (k : κ) :
    lookup key [a] k = if key a = k then some a else none := by
  by_cases h : key a = k <;> simp [lookup, h]

omit [DecidableEq κ] in
/-- The list around an index. -/
theorem exists_split {l : List α} {i : Nat} {a : α} (h : l[i]? = some a) :
    ∃ pre post, l = pre ++ a :: post ∧ l.eraseIdx i = pre ++ post ∧
      ∀ b, l.set i b = pre ++ b :: post := by
  obtain ⟨hi, rfl⟩ := List.getElem?_eq_some_iff.mp h
  refine ⟨l.take i, l.drop (i + 1), ?_, List.eraseIdx_eq_take_drop_succ l i, fun b => ?_⟩
  · rw [List.getElem_cons_drop, List.take_append_drop]
  · rw [List.set_eq_take_append_cons_drop, if_pos hi]

omit [DecidableEq κ] in
/-- With distinct keys an entry is alone under its key. -/
theorem nodup_split {pre post : List α} {a : α} (h : ((pre ++ a :: post).map key).Nodup) :
    (∀ b ∈ pre, key b ≠ key a) ∧ (∀ b ∈ post, key b ≠ key a) ∧
      ((pre ++ post).map key).Nodup := by
  rw [List.map_append, List.map_cons, List.nodup_middle, List.nodup_cons, ← List.map_append] at h
  obtain ⟨hnot, hrest⟩ := h
  refine ⟨fun b hb heq => ?_, fun b hb heq => ?_, hrest⟩
  · exact hnot (heq ▸ List.mem_map_of_mem (List.mem_append_left _ hb))
  · exact hnot (heq ▸ List.mem_map_of_mem (List.mem_append_right _ hb))

/-- With distinct keys the search finds the entry itself. -/
theorem lookup_getElem? {l : List α} (nodup : (l.map key).Nodup) {i : Nat} {a : α}
    (h : l[i]? = some a) : lookup key l (key a) = some a := by
  obtain ⟨pre, post, rfl, -, -⟩ := exists_split h
  have hpre : lookup key pre (key a) = none := lookup_eq_none.mpr (nodup_split nodup).1
  rw [lookup_append, hpre]
  simp [lookup]

/-- With distinct keys the index search finds the entry's own index. -/
theorem findIdx?_getElem? {l : List α} (nodup : (l.map key).Nodup) {i : Nat} {a : α}
    (h : l[i]? = some a) : (l.findIdx? fun b => key b = key a) = some i := by
  obtain ⟨hi, rfl⟩ := List.getElem?_eq_some_iff.mp h
  rw [List.findIdx?_eq_some_iff_getElem]
  refine ⟨hi, by simp, fun j hj => ?_⟩
  have hjl : j < l.length := by omega
  have hne : ¬ key l[j] = key l[i] := by
    intro heq
    have hj' : j < (l.map key).length := by simpa using hjl
    have hi' : i < (l.map key).length := by simpa using hi
    have hmap : (l.map key)[j] = (l.map key)[i] := by simpa using heq
    have hij := (nodup.getElem_inj_iff).mp hmap
    omega
  simpa using hne

/-- Erasing an entry changes the search at its key only. -/
theorem lookup_eraseIdx {l : List α} (nodup : (l.map key).Nodup) {i : Nat} {a : α}
    (h : l[i]? = some a) (k : κ) :
    lookup key (l.eraseIdx i) k = if key a = k then none else lookup key l k := by
  obtain ⟨pre, post, rfl, herase, -⟩ := exists_split h
  obtain ⟨hpre, hpost, -⟩ := nodup_split nodup
  rw [herase]
  split
  · rename_i heq
    rw [lookup_eq_none, ← heq]
    intro b hb
    rcases List.mem_append.mp hb with hb | hb
    · exact hpre b hb
    · exact hpost b hb
  · rename_i hne
    simp only [lookup_append]
    congr 1
    rw [lookup, lookup, List.find?_cons_of_neg (by simpa using hne)]

theorem lookup_set {l : List α} (nodup : (l.map key).Nodup) {i : Nat} {a b : α}
    (h : l[i]? = some a) (hkey : key b = key a) (k : κ) :
    lookup key (l.set i b) k = if key a = k then some b else lookup key l k := by
  obtain ⟨pre, post, rfl, -, hset⟩ := exists_split h
  obtain ⟨hpre, -, -⟩ := nodup_split nodup
  rw [hset]
  split
  · rename_i heq
    subst heq
    have hnone : lookup key pre (key a) = none := lookup_eq_none.mpr hpre
    rw [lookup_append, hnone]
    simp [lookup, hkey]
  · rename_i hne
    simp only [lookup_append]
    congr 1
    rw [lookup, lookup, List.find?_cons_of_neg (by simpa [hkey] using hne),
      List.find?_cons_of_neg (by simpa using hne)]

omit [DecidableEq κ] in
theorem map_key_set {l : List α} {i : Nat} {a b : α} (h : l[i]? = some a)
    (hkey : key b = key a) : (l.set i b).map key = l.map key := by
  obtain ⟨pre, post, rfl, -, hset⟩ := exists_split h
  rw [hset]
  simp [hkey]

end AetherStack.Lib.Keyed
