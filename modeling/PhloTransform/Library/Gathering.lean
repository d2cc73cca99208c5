import Mathlib.Data.List.Induction
import Mathlib.Data.List.Nodup
import Mathlib.Order.Basic
import PhloTransform.Library.Bags

/-!
# Values by key

Values are gathered under their keys, a group for each key in the order in which the keys come,
or kept in a map in the order of the keys, where the last value of a key is the one that stays.

Main results:

- Theorem `mem_gathered`: a group holds the values of its key, in their order.
- Theorem `gathered_comp`: keys that tell the same elements apart make the same groups.
-/

namespace PhloTransform.Library

variable {α β κ κ' : Type*}

/-! ## Groups -/

section Groups

variable [DecidableEq κ] [DecidableEq κ']
variable {k : κ} {b : β} {groups : List (κ × List β)} {key : α → κ} {value : α → β} {l : List α}
  {bs : List β}
variable {f : κ → κ'}

/-- Add a value to the group of its key, or open a group for it at the end. -/
def pushTo (k : κ) (b : β) : List (κ × List β) → List (κ × List β)
  | [] => [(k, [b])]
  | (k', bs) :: groups =>
    if k' = k then (k', bs ++ [b]) :: groups else (k', bs) :: pushTo k b groups

def gathered (key : α → κ) (value : α → β) (l : List α) : List (κ × List β) :=
  l.foldl (fun groups a => pushTo (key a) (value a) groups) []

theorem gathered_concat (key : α → κ) (value : α → β) (l : List α) (a : α) :
    gathered key value (l ++ [a]) = pushTo (key a) (value a) (gathered key value l) := by
  rw [gathered, List.foldl_append]
  rfl

theorem mem_keys_pushTo {k' : κ} :
    k' ∈ (pushTo k b groups).map Prod.fst ↔ k' = k ∨ k' ∈ groups.map Prod.fst := by
  induction groups with
  | nil => simp [pushTo]
  | cons first groups ih =>
    rw [pushTo]
    split
    · next heq => simp [heq]
    · rw [List.map_cons, List.mem_cons, ih, List.map_cons, List.mem_cons]
      exact or_left_comm

theorem nodup_keys_pushTo (k : κ) (b : β) (h : (groups.map Prod.fst).Nodup) :
    ((pushTo k b groups).map Prod.fst).Nodup := by
  induction groups with
  | nil => exact List.nodup_singleton k
  | cons first groups ih =>
    rw [List.map_cons, List.nodup_cons] at h
    rw [pushTo]
    split
    · exact List.nodup_cons.2 h
    · next hne =>
        refine List.nodup_cons.2 ⟨fun hmem => ?_, ih h.2⟩
        rcases mem_keys_pushTo.1 hmem with heq | hmem
        · exact hne heq
        · exact h.1 hmem

theorem nodup_keys_gathered (key : α → κ) (value : α → β) (l : List α) :
    ((gathered key value l).map Prod.fst).Nodup := by
  induction l using List.reverseRecOn with
  | nil => exact List.nodup_nil
  | append_singleton l a ih =>
    rw [gathered_concat]
    exact nodup_keys_pushTo _ _ ih

theorem mem_keys_gathered : k ∈ (gathered key value l).map Prod.fst ↔ ∃ a ∈ l, key a = k := by
  induction l using List.reverseRecOn with
  | nil => simp [gathered]
  | append_singleton l a ih =>
    rw [gathered_concat, mem_keys_pushTo, ih]
    simp only [List.mem_append, List.mem_singleton, or_and_right, exists_or, exists_eq_left]
    rw [or_comm, eq_comm]

theorem mem_of_mem_pushTo {k' : κ} (hne : k' ≠ k) (h : (k', bs) ∈ pushTo k b groups) :
    (k', bs) ∈ groups := by
  induction groups with
  | nil => exact absurd (Prod.ext_iff.1 (List.mem_singleton.1 h)).1 hne
  | cons first groups ih =>
    rw [pushTo] at h
    split at h
    · next heq =>
        rcases List.mem_cons.1 h with hfirst | h
        · exact absurd ((Prod.ext_iff.1 hfirst).1.trans heq) hne
        · exact List.mem_cons_of_mem _ h
    · rcases List.mem_cons.1 h with hfirst | h
      · exact hfirst ▸ List.mem_cons_self
      · exact List.mem_cons_of_mem _ (ih h)

theorem values_of_mem_pushTo (hnodup : (groups.map Prod.fst).Nodup)
    (h : (k, bs) ∈ pushTo k b groups) :
    (k ∉ groups.map Prod.fst ∧ bs = [b]) ∨ ∃ old, (k, old) ∈ groups ∧ bs = old ++ [b] := by
  induction groups with
  | nil => exact .inl ⟨List.not_mem_nil, (Prod.ext_iff.1 (List.mem_singleton.1 h)).2⟩
  | cons first groups ih =>
    rw [List.map_cons, List.nodup_cons] at hnodup
    rw [pushTo] at h
    split at h
    · next heq =>
        rcases List.mem_cons.1 h with hfirst | h
        · exact .inr ⟨first.2, by rw [← heq]; exact List.mem_cons_self,
            (Prod.ext_iff.1 hfirst).2⟩
        · exact absurd (List.mem_map_of_mem h) (heq ▸ hnodup.1)
    · next hne =>
        rcases List.mem_cons.1 h with hfirst | h
        · exact absurd (Prod.ext_iff.1 hfirst).1.symm hne
        · rcases ih hnodup.2 h with ⟨hnew, hbs⟩ | ⟨old, hold, hbs⟩
          · refine .inl ⟨fun hmem => ?_, hbs⟩
            rcases List.mem_cons.1 hmem with heq | hmem
            · exact hne heq.symm
            · exact hnew hmem
          · exact .inr ⟨old, List.mem_cons_of_mem _ hold, hbs⟩

theorem eq_of_mem_gathered (h : (k, bs) ∈ gathered key value l) :
    bs = (group key l k).map value := by
  induction l using List.reverseRecOn generalizing bs with
  | nil => exact absurd h List.not_mem_nil
  | append_singleton l a ih =>
    rw [gathered_concat] at h
    by_cases hk : k = key a
    · subst hk
      have hlast : group key (l ++ [a]) (key a) = group key l (key a) ++ [a] := by
        simp [group]
      rw [hlast, List.map_append]
      rcases values_of_mem_pushTo (nodup_keys_gathered key value l) h with
        ⟨hnew, rfl⟩ | ⟨old, hold, rfl⟩
      · have hnone : group key l (key a) = [] := by
          refine List.filter_eq_nil_iff.2 fun other hother hsame => hnew ?_
          exact mem_keys_gathered.2 ⟨other, hother, of_decide_eq_true hsame⟩
        rw [hnone]
        rfl
      · rw [ih hold]
        rfl
    · have hsame : group key (l ++ [a]) k = group key l k := by
        simp [group, Ne.symm hk]
      rw [hsame]
      exact ih (mem_of_mem_pushTo hk h)

theorem map_pushTo (hf : ∀ k' ∈ groups.map Prod.fst, f k' = f k → k' = k) :
    pushTo (f k) b (groups.map (Prod.map f id)) = (pushTo k b groups).map (Prod.map f id) := by
  induction groups with
  | nil => rfl
  | cons first groups ih =>
    obtain ⟨k', bs⟩ := first
    rw [List.map_cons, List.forall_mem_cons] at hf
    rw [List.map_cons, pushTo]
    by_cases hk : k' = k
    · simp [pushTo, hk]
    · have hne : f k' ≠ f k := fun h => hk (hf.1 h)
      simp [pushTo, hk, hne, ih hf.2]

/-- Keys that tell the same elements apart make the same groups. -/
theorem gathered_comp (hf : ∀ a ∈ l, ∀ b ∈ l, f (key a) = f (key b) → key a = key b) :
    gathered (fun a => f (key a)) value l = (gathered key value l).map (Prod.map f id) := by
  induction l using List.reverseRecOn with
  | nil => rfl
  | append_singleton l a ih =>
    rw [gathered_concat, gathered_concat,
      ih fun b hb c hc => hf b (by simp [hb]) c (by simp [hc])]
    refine map_pushTo fun k' hk' heq => ?_
    obtain ⟨b, hb, rfl⟩ := mem_keys_gathered.1 hk'
    exact hf b (by simp [hb]) a (by simp) heq

end Groups

/-! ## Maps in the order of the keys -/

section Maps

variable [LinearOrder κ]
variable {pair : κ × β}

/-- `BTreeMap::insert`: a value takes the place of the one that its key had. -/
def insertAt (k : κ) (b : β) : List (κ × β) → List (κ × β)
  | [] => [(k, b)]
  | (k', b') :: rest =>
    if k < k' then (k, b) :: (k', b') :: rest
    else if k = k' then (k, b) :: rest
    else (k', b') :: insertAt k b rest

def collected (l : List (κ × β)) : List (κ × β) :=
  l.foldl (fun pairs pair => insertAt pair.1 pair.2 pairs) []

theorem collected_concat (l : List (κ × β)) (pair : κ × β) :
    collected (l ++ [pair]) = insertAt pair.1 pair.2 (collected l) := by
  rw [collected, List.foldl_append]
  rfl

theorem mem_insertAt_of_new {k : κ} {b : β} {pairs : List (κ × β)} (h : k ∉ pairs.map Prod.fst) :
    pair ∈ insertAt k b pairs ↔ pair = (k, b) ∨ pair ∈ pairs := by
  induction pairs with
  | nil => simp [insertAt]
  | cons first pairs ih =>
    rw [List.map_cons, List.mem_cons, not_or] at h
    rw [insertAt]
    split
    · exact List.mem_cons
    · rw [if_neg h.1, List.mem_cons, ih h.2, List.mem_cons]
      exact or_left_comm

theorem mem_collected {l : List (κ × β)} (h : (l.map Prod.fst).Nodup) :
    pair ∈ collected l ↔ pair ∈ l := by
  induction l using List.reverseRecOn generalizing pair with
  | nil => exact Iff.rfl
  | append_singleton l last ih =>
    rw [List.map_append, List.nodup_append] at h
    have hnew : last.1 ∉ (collected l).map Prod.fst := by
      intro hmem
      obtain ⟨other, hother, hkey⟩ := List.mem_map.1 hmem
      refine h.2.2 last.1 ?_ last.1 (by simp) rfl
      exact hkey ▸ List.mem_map_of_mem ((ih h.1).1 hother)
    rw [collected_concat, mem_insertAt_of_new hnew, ih h.1, List.mem_append, List.mem_singleton]
    exact or_comm

theorem find?_collected {l : List (κ × β)} (h : (l.map Prod.fst).Nodup) (k : κ) :
    (collected l).find? (fun pair => pair.1 = k) = l.find? fun pair => pair.1 = k := by
  have hfind (pairs : List (κ × β)) (hpairs : ∀ pair, pair ∈ pairs ↔ pair ∈ l) (pair : κ × β) :
      pairs.find? (fun pair => pair.1 = k) = some pair ↔ pair ∈ l ∧ pair.1 = k := by
    constructor
    · intro hsome
      exact ⟨(hpairs pair).1 (List.mem_of_find?_eq_some hsome), by
        simpa using List.find?_some hsome⟩
    · rintro ⟨hmem, hkey⟩
      cases hfound : pairs.find? fun pair => pair.1 = k with
      | none =>
        have hother := List.find?_eq_none.1 hfound pair ((hpairs pair).2 hmem)
        exact absurd hkey (by simpa using hother)
      | some found =>
        have hmem' := (hpairs found).1 (List.mem_of_find?_eq_some hfound)
        have hkey' : found.1 = k := by simpa using List.find?_some hfound
        rw [List.inj_on_of_nodup_map h hmem' hmem (hkey'.trans hkey.symm)]
  ext pair
  rw [hfind _ (fun _ => mem_collected h), hfind _ fun _ => Iff.rfl]

end Maps

end PhloTransform.Library
