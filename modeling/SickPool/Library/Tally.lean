import Mathlib.Data.List.Nodup
import Mathlib.Algebra.BigOperators.Group.List.Basic
import Mathlib.Algebra.Group.Hom.Defs

/-!
# Tallies

A map from keys to amounts that are added up: an amount given for a key is added to what the
key has, and a new key begins at 0. After any list of amounts a key has the sum of what was
given for it, and all keys together have the sum of the list.
-/
namespace SickPool.Library

/-- A key occurs once. -/
structure Tally (κ M : Type*) where
  entries : List (κ × M)
  nodup : (entries.map Prod.fst).Nodup

namespace Tally

variable {κ M : Type*}

def empty : Tally κ M := ⟨[], List.nodup_nil⟩

def keys (t : Tally κ M) : List κ := t.entries.map Prod.fst

def total [AddCommMonoid M] (t : Tally κ M) : M := (t.entries.map Prod.snd).sum

@[simp] theorem total_empty [AddCommMonoid M] : (empty : Tally κ M).total = 0 := rfl

section Add

variable [DecidableEq κ] [AddCommMonoid M]

def addEntry (k : κ) (v : M) : List (κ × M) → List (κ × M)
  | [] => [(k, 0 + v)]
  | (l, w) :: rest => if l = k then (l, w + v) :: rest else (l, w) :: addEntry k v rest

theorem mem_keys_addEntry (k l : κ) (v : M) (es : List (κ × M)) :
    l ∈ (addEntry k v es).map Prod.fst ↔ l ∈ es.map Prod.fst ∨ l = k := by
  induction es with
  | nil => simp [addEntry]
  | cons e es ih =>
    by_cases hk : e.1 = k
    · simp only [addEntry, hk, ↓reduceIte, List.map_cons, List.mem_cons]
      tauto
    · simp only [addEntry, hk, ↓reduceIte, List.map_cons, List.mem_cons, ih]
      tauto

theorem nodup_addEntry (k : κ) (v : M) {es : List (κ × M)} (h : (es.map Prod.fst).Nodup) :
    ((addEntry k v es).map Prod.fst).Nodup := by
  induction es with
  | nil => simp [addEntry]
  | cons e es ih =>
    rw [List.map_cons, List.nodup_cons] at h
    by_cases hk : e.1 = k
    · rw [addEntry, if_pos hk]
      exact List.nodup_cons.mpr h
    · rw [addEntry, if_neg hk, List.map_cons, List.nodup_cons, mem_keys_addEntry]
      exact ⟨not_or.mpr ⟨h.1, hk⟩, ih h.2⟩

/-- What a list of entries gives for a key. -/
def given (l : κ) (es : List (κ × M)) : M := ((es.filter (fun e => e.1 = l)).map Prod.snd).sum

theorem given_cons (l : κ) (e : κ × M) (es : List (κ × M)) :
    given l (e :: es) = (if e.1 = l then e.2 else 0) + given l es := by
  by_cases h : e.1 = l <;> simp [given, h]

theorem given_append (l : κ) (es fs : List (κ × M)) :
    given l (es ++ fs) = given l es + given l fs := by
  simp [given]

theorem given_addEntry (k l : κ) (v : M) (es : List (κ × M)) :
    given l (addEntry k v es) = given l es + if k = l then v else 0 := by
  induction es with
  | nil => rw [addEntry, given_cons, zero_add, add_comm]
  | cons e es ih =>
    by_cases hk : e.1 = k
    · simp only [addEntry, hk, ↓reduceIte, given_cons]
      split
      · rw [add_assoc, add_comm v, ← add_assoc]
      · simp
    · rw [addEntry, if_neg hk, given_cons, given_cons, ih, add_assoc]

theorem sum_addEntry (k : κ) (v : M) (es : List (κ × M)) :
    ((addEntry k v es).map Prod.snd).sum = (es.map Prod.snd).sum + v := by
  induction es with
  | nil => simp [addEntry]
  | cons e es ih =>
    by_cases hk : e.1 = k
    · simp only [addEntry, hk, ↓reduceIte, List.map_cons, List.sum_cons]
      rw [add_assoc, add_comm v, ← add_assoc]
    · simp only [addEntry, hk, ↓reduceIte, List.map_cons, List.sum_cons, ih, add_assoc]

/-- `t[k] += v`. -/
def add (t : Tally κ M) (k : κ) (v : M) : Tally κ M :=
  ⟨addEntry k v t.entries, nodup_addEntry k v t.nodup⟩

def addAll (t : Tally κ M) (es : List (κ × M)) : Tally κ M :=
  es.foldl (fun t e => t.add e.1 e.2) t

def value (t : Tally κ M) (l : κ) : M := given l t.entries

@[simp] theorem value_empty (l : κ) : (empty : Tally κ M).value l = 0 := rfl

theorem addAll_append (t : Tally κ M) (es fs : List (κ × M)) :
    t.addAll (es ++ fs) = (t.addAll es).addAll fs := List.foldl_append

theorem value_addAll (t : Tally κ M) (l : κ) (es : List (κ × M)) :
    (t.addAll es).value l = t.value l + given l es := by
  induction es generalizing t with
  | nil => simp [addAll, given]
  | cons e es ih =>
    calc ((t.add e.1 e.2).addAll es).value l
        = (t.add e.1 e.2).value l + given l es := ih _
      _ = t.value l + given l (e :: es) := by
        rw [value, add, given_addEntry, given_cons, add_assoc]
        rfl

theorem total_addAll (t : Tally κ M) (es : List (κ × M)) :
    (t.addAll es).total = t.total + (es.map Prod.snd).sum := by
  induction es generalizing t with
  | nil => simp [addAll]
  | cons e es ih =>
    calc ((t.add e.1 e.2).addAll es).total
        = (t.add e.1 e.2).total + (es.map Prod.snd).sum := ih _
      _ = t.total + ((e :: es).map Prod.snd).sum := by
        rw [total, add, sum_addEntry, List.map_cons, List.sum_cons, add_assoc]
        rfl

/-- A column of the amounts, summed over the keys. -/
theorem sum_addAll {N : Type*} [AddCommMonoid N] (f : M →+ N) (es : List (κ × M)) :
    (((empty : Tally κ M).addAll es).entries.map (fun e => f e.2)).sum =
      f (es.map Prod.snd).sum := by
  have htotal := total_addAll (empty : Tally κ M) es
  rw [total_empty, zero_add] at htotal
  rw [← htotal, total, map_list_sum, List.map_map]
  rfl

theorem mem_keys_addAll (t : Tally κ M) (l : κ) (es : List (κ × M)) :
    l ∈ (t.addAll es).keys ↔ l ∈ t.keys ∨ l ∈ es.map Prod.fst := by
  induction es generalizing t with
  | nil => simp [addAll]
  | cons e es ih =>
    have hstep : l ∈ (t.add e.1 e.2).keys ↔ l ∈ t.keys ∨ l = e.1 :=
      mem_keys_addEntry e.1 l e.2 t.entries
    calc l ∈ ((t.add e.1 e.2).addAll es).keys
        ↔ l ∈ (t.add e.1 e.2).keys ∨ l ∈ es.map Prod.fst := ih _
      _ ↔ l ∈ t.keys ∨ l ∈ (e :: es).map Prod.fst := by
        rw [hstep, List.map_cons, List.mem_cons, or_assoc]

theorem given_of_mem {es : List (κ × M)} (hn : (es.map Prod.fst).Nodup) {e : κ × M}
    (h : e ∈ es) : given e.1 es = e.2 := by
  induction es with
  | nil => cases h
  | cons f es ih =>
    rw [List.map_cons, List.nodup_cons] at hn
    rw [given_cons]
    obtain rfl | hmem := List.mem_cons.mp h
    · have hrest : es.filter (fun f => f.1 = e.1) = [] := by
        refine List.filter_eq_nil_iff.mpr fun f hf hk => hn.1 ?_
        exact of_decide_eq_true hk ▸ List.mem_map_of_mem hf
      simp [given, hrest]
    · have hne : f.1 ≠ e.1 := fun hk => hn.1 (hk ▸ List.mem_map_of_mem hmem)
      rw [if_neg hne, zero_add, ih hn.2 hmem]

/-- A key has the sum of what was given for it. -/
theorem value_of_mem (t : Tally κ M) {e : κ × M} (h : e ∈ t.entries) : t.value e.1 = e.2 :=
  given_of_mem t.nodup h

end Add

section TryEmplace

theorem nodup_append_entry {t : Tally κ M} {k : κ} (v : M) (h : k ∉ t.keys) :
    ((t.entries ++ [(k, v)]).map Prod.fst).Nodup := by
  rw [List.map_append]
  refine t.nodup.append (List.nodup_singleton k) ?_
  intro l hl hk
  obtain rfl := List.mem_singleton.mp hk
  exact h hl

variable [DecidableEq κ]

/-- A key that is there keeps its amount. -/
def tryEmplace (t : Tally κ M) (k : κ) (v : M) : Tally κ M :=
  if h : k ∈ t.keys then t else ⟨t.entries ++ [(k, v)], nodup_append_entry v h⟩

def tryEmplaceAll (t : Tally κ M) (es : List (κ × M)) : Tally κ M :=
  es.foldl (fun t e => t.tryEmplace e.1 e.2) t

theorem tryEmplace_entries {t : Tally κ M} {k : κ} (v : M) (h : k ∉ t.keys) :
    (t.tryEmplace k v).entries = t.entries ++ [(k, v)] := by
  rw [tryEmplace, dif_neg h]

/-- New keys, each once, are all added. -/
theorem tryEmplaceAll_entries {t : Tally κ M} {es : List (κ × M)}
    (hnodup : (es.map Prod.fst).Nodup) (hnew : ∀ e ∈ es, e.1 ∉ t.keys) :
    (t.tryEmplaceAll es).entries = t.entries ++ es := by
  induction es generalizing t with
  | nil => exact (List.append_nil _).symm
  | cons e es ih =>
    rw [List.map_cons, List.nodup_cons] at hnodup
    have hfirst := tryEmplace_entries e.2 (hnew e (by simp))
    have hrest : ∀ f ∈ es, f.1 ∉ (t.tryEmplace e.1 e.2).keys := by
      intro f hf hmem
      rw [keys, hfirst, List.map_append, List.mem_append] at hmem
      obtain hold | hkey := hmem
      · exact hnew f (by simp [hf]) hold
      · rw [List.map_singleton, List.mem_singleton] at hkey
        exact hnodup.1 (hkey ▸ List.mem_map_of_mem hf)
    calc ((t.tryEmplace e.1 e.2).tryEmplaceAll es).entries
        = (t.tryEmplace e.1 e.2).entries ++ es := ih hnodup.2 hrest
      _ = t.entries ++ e :: es := by rw [hfirst, List.append_assoc, List.singleton_append]

end TryEmplace

end Tally
end SickPool.Library
