import Mathlib.Data.List.Dedup
import Mathlib.Data.List.Sort
import Mathlib.Logic.Function.Basic
import Mathlib.Order.Lattice

/-!
# Answers by position

A batch of requests is answered out of order, each answer going to the position of its
request.  The requests are grouped by a key, and what no group answers is left to a last
pass.

Main results:

- Theorem `Slots.value_fill`: a position holds its answer once some pass has answered it.
- Theorem `fillM_eq_ok`: a pass that can fail answers all of its requests.
-/

namespace PhloTransform.Library

/-- The answers so far, and which positions have one. -/
structure Slots (β : Type*) where
  value : Nat → β
  probed : Nat → Bool

namespace Slots

variable {α β ε : Type*}
variable {answer : α × Nat → β} {requests : List (α × Nat)} {slots : Slots β} {items : List α}
variable {answered : List (α × Nat)}

def start (unprobed : β) : Slots β where
  value _ := unprobed
  probed _ := false

def set (slots : Slots β) (i : Nat) (answer : β) : Slots β where
  value := Function.update slots.value i answer
  probed := Function.update slots.probed i true

@[simp]
theorem value_set (slots : Slots β) (i j : Nat) (answer : β) :
    (slots.set i answer).value j = if j = i then answer else slots.value j := by
  simp [set, Function.update_apply]

@[simp]
theorem probed_set (slots : Slots β) (i j : Nat) (answer : β) :
    (slots.set i answer).probed j = (decide (j = i) || slots.probed j) := by
  by_cases h : j = i
  · subst h
    simp [set]
  · simp [set, h]

def fill (answer : α × Nat → β) (requests : List (α × Nat)) (slots : Slots β) : Slots β :=
  requests.foldl (fun slots request => slots.set request.2 (answer request)) slots

/-- Answer requests at their positions, until one of them fails. -/
def fillM (answer : α × Nat → Except ε β) (requests : List (α × Nat)) (slots : Slots β) :
    Except ε (Slots β) :=
  requests.foldlM (fun slots request => (answer request).map (slots.set request.2)) slots

theorem probed_fill {i : Nat} :
    (fill answer requests slots).probed i = true ↔
      slots.probed i = true ∨ ∃ request ∈ requests, request.2 = i := by
  induction requests generalizing slots with
  | nil => simp [fill]
  | cons request requests ih =>
    rw [fill, List.foldl_cons]
    change (fill answer requests _).probed i = true ↔ _
    rw [ih, probed_set, Bool.or_eq_true, decide_eq_true_eq, List.exists_mem_cons_iff]
    constructor
    · rintro ((rfl | h) | h)
      · exact .inr (.inl rfl)
      · exact .inl h
      · exact .inr (.inr h)
    · rintro (h | rfl | h)
      · exact .inl (.inr h)
      · exact .inl (.inl rfl)
      · exact .inr h

/-- A position that all requests answer alike holds that answer once it has been given, or
when it held it before. -/
theorem value_fill {i : Nat} {x : β}
    (hsame : ∀ request ∈ requests, request.2 = i → answer request = x)
    (hgiven : slots.value i = x ∨ ∃ request ∈ requests, request.2 = i) :
    (fill answer requests slots).value i = x := by
  induction requests generalizing slots with
  | nil => exact hgiven.resolve_right (by simp)
  | cons request requests ih =>
    rw [fill, List.foldl_cons]
    refine ih (fun r hr => hsame r (List.mem_cons_of_mem _ hr)) ?_
    rw [value_set]
    by_cases hi : i = request.2
    · rw [if_pos hi, hsame request List.mem_cons_self hi.symm]
      exact .inl rfl
    · rw [if_neg hi]
      refine hgiven.imp id ?_
      rintro ⟨r, hr, hri⟩
      rcases List.mem_cons.1 hr with rfl | hlater
      · exact absurd hri.symm hi
      · exact ⟨r, hlater, hri⟩

theorem fillM_append (answer : α × Nat → Except ε β) (requests more : List (α × Nat))
    (slots : Slots β) :
    fillM answer (requests ++ more) slots = fillM answer requests slots >>= fillM answer more := by
  rw [fillM, List.foldlM_append]
  rfl

/-- A pass that can fail answers all of its requests, or fails. -/
theorem fillM_eq_ok {answer : α × Nat → Except ε β} {value : α × Nat → β} (slots : Slots β)
    (h : ∀ request ∈ requests, answer request = .ok (value request)) :
    fillM answer requests slots = .ok (fill value requests slots) := by
  induction requests generalizing slots with
  | nil => rfl
  | cons request requests ih =>
    rw [fillM, List.foldlM_cons, h request List.mem_cons_self]
    exact ih _ fun r hr => h r (List.mem_cons_of_mem _ hr)

theorem fillM_eq_error {answer : α × Nat → Except ε β} (slots : Slots β)
    (h : ∃ request ∈ requests, ∃ e, answer request = .error e) :
    ∃ e, fillM answer requests slots = .error e := by
  induction requests generalizing slots with
  | nil => simp at h
  | cons request requests ih =>
    rw [fillM, List.foldlM_cons]
    cases hanswer : answer request with
    | error e => exact ⟨e, rfl⟩
    | ok x =>
      refine ih _ ?_
      obtain ⟨r, hr, e, he⟩ := h
      rcases List.mem_cons.1 hr with rfl | hlater
      · rw [hanswer] at he
        cases he
      · exact ⟨r, hlater, e, he⟩

theorem fill_congr {answer' : α × Nat → β}
    (h : ∀ request ∈ requests, answer request = answer' request) :
    fill answer requests slots = fill answer' requests slots := by
  induction requests generalizing slots with
  | nil => rfl
  | cons request requests ih =>
    rw [fill, List.foldl_cons, h request List.mem_cons_self]
    exact ih fun r hr => h r (List.mem_cons_of_mem _ hr)

theorem fillM_congr {answer answer' : α × Nat → Except ε β}
    (h : ∀ request ∈ requests, answer request = answer' request) :
    fillM answer requests slots = fillM answer' requests slots := by
  induction requests generalizing slots with
  | nil => rfl
  | cons request requests ih =>
    rw [fillM, List.foldlM_cons, fillM, List.foldlM_cons, h request List.mem_cons_self]
    congr 1
    funext next
    exact ih fun r hr => h r (List.mem_cons_of_mem _ hr)

/-- Passes over groups are one pass over what they answer. -/
theorem foldl_fill {κ : Type*} {pass : Slots β → κ → Slots β} {answered : κ → List (α × Nat)}
    {groups : List κ}
    (h : ∀ group ∈ groups, ∀ slots, pass slots group = fill answer (answered group) slots)
    (slots : Slots β) : groups.foldl pass slots = fill answer (groups.flatMap answered) slots := by
  induction groups generalizing slots with
  | nil => rfl
  | cons group groups ih =>
    rw [List.foldl_cons, h group List.mem_cons_self,
      ih fun g hg => h g (List.mem_cons_of_mem _ hg), List.flatMap_cons, fill, fill, fill,
      List.foldl_append]

theorem foldlM_fillM {κ : Type*} {answer : α × Nat → Except ε β}
    {pass : Slots β → κ → Except ε (Slots β)} {answered : κ → List (α × Nat)} {groups : List κ}
    (h : ∀ group ∈ groups, ∀ slots, pass slots group = fillM answer (answered group) slots)
    (slots : Slots β) :
    groups.foldlM pass slots = fillM answer (groups.flatMap answered) slots := by
  induction groups generalizing slots with
  | nil => rfl
  | cons group groups ih =>
    rw [List.foldlM_cons, h group List.mem_cons_self, List.flatMap_cons, fillM_append]
    congr 1
    funext next
    exact ih (fun g hg => h g (List.mem_cons_of_mem _ hg)) next

theorem eq_of_mem_zipIdx {request other : α × Nat} (h : request ∈ items.zipIdx)
    (hother : other ∈ items.zipIdx) (hat : request.2 = other.2) : request = other := by
  rw [List.mem_zipIdx_iff_getElem?] at h hother
  rw [← hat, h] at hother
  exact Prod.ext (Option.some.inj hother) hat

theorem mem_unprobed (answer : α × Nat → β) (unprobed : β) {request : α × Nat}
    (hanswered : ∀ r ∈ answered, r ∈ items.zipIdx) :
    (request ∈ items.zipIdx.filter fun r =>
        !(fill answer answered (start unprobed)).probed r.2) ↔
      request ∈ items.zipIdx ∧ request ∉ answered := by
  rw [List.mem_filter, Bool.not_eq_true', ← Bool.not_eq_true, probed_fill]
  refine and_congr_right fun hrequest => not_congr ?_
  constructor
  · rintro (hstart | ⟨r, hr, hat⟩)
    · cases hstart
    · rwa [← eq_of_mem_zipIdx (hanswered r hr) hrequest hat]
  · intro hmem
    exact .inr ⟨request, hmem, rfl⟩

/-- After the last pass every request has its answer, in the order of the requests. -/
theorem map_value_fill (answer : α × Nat → β) (unprobed : β) {last : α × Nat → β}
    (hanswered : ∀ r ∈ answered, r ∈ items.zipIdx)
    (hlast : ∀ r ∈ items.zipIdx, r ∉ answered → last r = answer r) :
    (List.range items.length).map (fill last (items.zipIdx.filter fun r =>
        !(fill answer answered (start unprobed)).probed r.2)
          (fill answer answered (start unprobed))).value = items.zipIdx.map answer := by
  have hfill : ∀ slots : Slots β, (fill last (items.zipIdx.filter fun r =>
      !(fill answer answered (start unprobed)).probed r.2) slots) =
        fill answer (items.zipIdx.filter fun r =>
          !(fill answer answered (start unprobed)).probed r.2) slots := by
    intro slots
    refine fill_congr fun r hr => ?_
    obtain ⟨hitem, hnot⟩ := (mem_unprobed answer unprobed hanswered).1 hr
    exact hlast r hitem hnot
  rw [hfill]
  refine List.ext_getElem (by simp) fun i hi hi' => ?_
  rw [List.getElem_map, List.getElem_range, List.getElem_map]
  have hzip : i < items.zipIdx.length := by simpa using hi'
  have hmem : items.zipIdx[i] ∈ items.zipIdx := List.getElem_mem _
  have hat : items.zipIdx[i].2 = i := by simp
  refine value_fill (fun r hr hri => ?_) ?_
  · have hitem := ((mem_unprobed answer unprobed hanswered).1 hr).1
    rw [eq_of_mem_zipIdx hitem hmem (hri.trans hat.symm)]
  · by_cases hanswer : items.zipIdx[i] ∈ answered
    · refine .inl (value_fill (fun r hr hri => ?_) (.inr ⟨_, hanswer, hat⟩))
      rw [eq_of_mem_zipIdx (hanswered r hr) hmem (hri.trans hat.symm)]
    · exact .inr ⟨_, (mem_unprobed answer unprobed hanswered).2 ⟨hmem, hanswer⟩, hat⟩

end Slots

/-! ## One after another -/

section Serial

variable {α β ε : Type*}
variable {f : α → Except ε β} {xs : List α}

theorem mapM_eq_ok {value : α → β} (h : ∀ x ∈ xs, f x = .ok (value x)) :
    xs.mapM f = .ok (xs.map value) := by
  induction xs with
  | nil => rfl
  | cons x xs ih =>
    rw [List.mapM_cons, h x List.mem_cons_self, ih fun y hy => h y (List.mem_cons_of_mem _ hy)]
    rfl

theorem mapM_eq_error (h : ∃ x ∈ xs, ∃ e, f x = .error e) : ∃ e, xs.mapM f = .error e := by
  induction xs with
  | nil => simp at h
  | cons x xs ih =>
    rw [List.mapM_cons]
    cases hx : f x with
    | error e => exact ⟨e, rfl⟩
    | ok y =>
      obtain ⟨z, hz, e, he⟩ := h
      rcases List.mem_cons.1 hz with rfl | hlater
      · rw [hx] at he
        cases he
      · obtain ⟨e', he'⟩ := ih ⟨z, hlater, e, he⟩
        exact ⟨e', by rw [he']; rfl⟩

theorem eq_ok_of_toOption {x : Except ε α} {a : α} (h : x.toOption = some a) : x = .ok a := by
  cases x with
  | error e => cases h
  | ok b => exact congrArg Except.ok (Option.some.inj h)

theorem except_bind_eq_ok.{u} {ι κ : Type u} {x : Except ε ι} {f : ι → Except ε κ} {b : κ} :
    (x >>= f) = .ok b ↔ ∃ a, x = .ok a ∧ f a = .ok b := by
  cases x with
  | error e =>
    constructor
    · intro h
      cases h
    · rintro ⟨a, h, -⟩
      cases h
  | ok a =>
    constructor
    · intro h
      exact ⟨a, rfl, h⟩
    · rintro ⟨a', h, hf⟩
      cases h
      exact hf

theorem except_map_eq_ok {ι κ : Type*} {x : Except ε ι} {f : ι → κ} {b : κ} :
    x.map f = .ok b ↔ ∃ a, x = .ok a ∧ f a = b := by
  cases x with
  | error e => simp [Except.map]
  | ok a => simp [Except.map]

theorem except_map_eq_error {ι κ : Type*} {x : Except ε ι} {f : ι → κ} {e : ε} :
    x.map f = .error e ↔ x = .error e := by
  cases x with
  | error e' => simp [Except.map]
  | ok a => simp [Except.map]

theorem except_bind_eq_error.{u} {ι κ : Type u} {x : Except ε ι} {f : ι → Except ε κ} {e : ε} :
    (x >>= f) = .error e ↔ x = .error e ∨ ∃ a, x = .ok a ∧ f a = .error e := by
  cases x with
  | error e' => simp [bind, Except.bind]
  | ok a => simp [bind, Except.bind]

theorem exists_mem_of_mapM {ys : List β} (h : xs.mapM f = .ok ys) :
    ∀ x ∈ xs, ∃ y ∈ ys, f x = .ok y := by
  induction xs generalizing ys with
  | nil => exact fun x hx => absurd hx List.not_mem_nil
  | cons x xs ih =>
    rw [List.mapM_cons] at h
    cases hx : f x with
    | error e =>
      rw [hx] at h
      cases h
    | ok y =>
      cases hxs : xs.mapM f with
      | error e =>
        rw [hx, hxs] at h
        cases h
      | ok zs =>
        rw [hx, hxs] at h
        cases h
        intro x' hmem
        rcases List.mem_cons.1 hmem with rfl | hlater
        · exact ⟨y, List.mem_cons_self, hx⟩
        · obtain ⟨z, hz, hfz⟩ := ih hxs x' hlater
          exact ⟨z, List.mem_cons_of_mem y hz, hfz⟩

theorem exists_mapM_eq_ok (h : ∀ x ∈ xs, ∃ y, f x = .ok y) : ∃ ys, xs.mapM f = .ok ys := by
  induction xs with
  | nil => exact ⟨[], rfl⟩
  | cons x xs ih =>
    obtain ⟨y, hy⟩ := h x List.mem_cons_self
    obtain ⟨ys, hys⟩ := ih fun z hz => h z (List.mem_cons_of_mem x hz)
    exact ⟨y :: ys, by rw [List.mapM_cons, hy, hys]; rfl⟩

theorem error_or_ok (f : α → Except ε β) [Inhabited β] (xs : List α) :
    (∃ x ∈ xs, ∃ e, f x = .error e) ∨ ∃ value : α → β, ∀ x ∈ xs, f x = .ok (value x) := by
  by_cases h : ∃ x ∈ xs, ∃ e, f x = .error e
  · exact .inl h
  · refine .inr ⟨fun x => (f x).toOption.getD default, fun x hx => ?_⟩
    cases hfx : f x with
    | error e => exact absurd ⟨x, hx, e, hfx⟩ h
    | ok y =>
      simp only [hfx]
      rfl

/-- Two ways to answer requests one after another, the first failing only where the second
does: their results agree when the first fails on some request, or they answer every request
alike. -/
theorem toOption_mapM_eq_iff [Inhabited β] {g : α → Except ε β}
    (hfail : ∀ x ∈ xs, ∀ e, f x = .error e → ∃ e', g x = .error e') :
    (xs.mapM f).toOption = (xs.mapM g).toOption ↔
      (∃ x ∈ xs, ∃ e, f x = .error e) ∨ ∀ x ∈ xs, (f x).toOption = (g x).toOption := by
  rcases error_or_ok f xs with hf | ⟨value, hvalue⟩
  · obtain ⟨e, he⟩ := mapM_eq_error hf
    obtain ⟨x, hx, e₁, hfx⟩ := hf
    obtain ⟨e₂, hgx⟩ := hfail x hx e₁ hfx
    obtain ⟨e', he'⟩ := mapM_eq_error ⟨x, hx, e₂, hgx⟩
    rw [he, he']
    exact ⟨fun _ => .inl ⟨x, hx, e₁, hfx⟩, fun _ => rfl⟩
  · have hnot : ¬ ∃ x ∈ xs, ∃ e, f x = .error e := by
      rintro ⟨x, hx, e, he⟩
      rw [hvalue x hx] at he
      cases he
    rw [or_iff_right hnot, mapM_eq_ok hvalue]
    rcases error_or_ok g xs with hg | ⟨value', hvalue'⟩
    · obtain ⟨e, he⟩ := mapM_eq_error hg
      obtain ⟨x, hx, e', hgx⟩ := hg
      rw [he]
      constructor
      · intro h
        cases h
      · intro h
        have hall := h x hx
        rw [hvalue x hx, hgx] at hall
        cases hall
    · rw [mapM_eq_ok hvalue']
      constructor
      · intro h x hx
        have hmap : xs.map value = xs.map value' := Option.some.inj h
        rw [hvalue x hx, hvalue' x hx, List.map_inj_left.1 hmap x hx]
      · intro h
        refine congrArg some (List.map_inj_left.2 fun x hx => ?_)
        have hall := h x hx
        rw [hvalue x hx, hvalue' x hx] at hall
        exact Option.some.inj hall

end Serial

/-! ## Groups -/

section Groups

variable {α κ : Type*} [LinearOrder κ]
variable {key : α → Option κ} {items : List α}

/-- The keys that occur, each once and in order. -/
def groupKeys (key : α → Option κ) (items : List α) : List κ :=
  ((items.filterMap key).dedup).insertionSort (· ≤ ·)

/-- The items of each key, in their order. -/
def groups (key : α → Option κ) (items : List α) : List (κ × List α) :=
  (groupKeys key items).map fun k => (k, items.filter fun item => decide (key item = some k))

theorem mem_groupKeys {k : κ} : k ∈ groupKeys key items ↔ ∃ item ∈ items, key item = some k := by
  simp [groupKeys]

theorem mem_groups {group : κ × List α} :
    group ∈ groups key items ↔
      (∃ item ∈ items, key item = some group.1) ∧
        group.2 = items.filter fun item => decide (key item = some group.1) := by
  rw [groups, List.mem_map]
  constructor
  · rintro ⟨k, hk, rfl⟩
    exact ⟨mem_groupKeys.1 hk, rfl⟩
  · rintro ⟨hitem, hmembers⟩
    exact ⟨group.1, mem_groupKeys.2 hitem, Prod.ext rfl hmembers.symm⟩

theorem mem_flatMap_groups {item : α} :
    item ∈ (groups key items).flatMap Prod.snd ↔ item ∈ items ∧ (key item).isSome = true := by
  rw [List.mem_flatMap]
  constructor
  · rintro ⟨group, hgroup, hitem⟩
    rw [(mem_groups.1 hgroup).2, List.mem_filter, decide_eq_true_eq] at hitem
    exact ⟨hitem.1, by rw [hitem.2]; rfl⟩
  · rintro ⟨hitem, hsome⟩
    obtain ⟨k, hk⟩ := Option.isSome_iff_exists.1 hsome
    refine ⟨(k, items.filter fun item => decide (key item = some k)),
      mem_groups.2 ⟨⟨item, hitem, hk⟩, rfl⟩, ?_⟩
    exact List.mem_filter.2 ⟨hitem, decide_eq_true hk⟩

/-- What stands before a request in its group, among everything before it. -/
theorem mem_take_iff_of_filter_zipIdx (keep : α → Bool) {before : List (α × Nat)}
    {request : α × Nat} {after : List (α × Nat)}
    (h : (items.zipIdx.filter fun item => keep item.1) = before ++ request :: after) {x : α}
    (hx : keep x = true) : x ∈ items.take request.2 ↔ x ∈ before.map Prod.fst := by
  obtain ⟨first, rest, hzip, hfirst, hrest⟩ := List.filter_eq_append_iff.1 h
  obtain ⟨skipped, later, rfl, hskipped, -, -⟩ := List.filter_eq_cons_iff.1 hrest
  have hposition : request.2 = (first ++ skipped).length ∧
      items.take request.2 = (first ++ skipped).map Prod.fst := by
    have hat : items.zipIdx[(first ++ skipped).length]? = some request := by
      rw [hzip, ← List.append_assoc, List.getElem?_append_right (le_refl _)]
      simp
    rw [List.getElem?_zipIdx, Option.map_eq_some_iff] at hat
    obtain ⟨y, -, rfl⟩ := hat
    refine ⟨by simp, ?_⟩
    have htake : items.take (first ++ skipped).length =
        (items.zipIdx.take (first ++ skipped).length).map Prod.fst := by
      rw [List.map_take, List.zipIdx_map_fst]
    rw [Nat.zero_add, htake, hzip, ← List.append_assoc, List.take_left]
  rw [hposition.2, List.map_append, List.mem_append, List.mem_map, List.mem_map, List.mem_map]
  constructor
  · rintro (⟨item, hitem, rfl⟩ | ⟨item, hitem, rfl⟩)
    · exact ⟨item, hfirst ▸ List.mem_filter.2 ⟨hitem, hx⟩, rfl⟩
    · exact absurd hx (hskipped item hitem)
  · rintro ⟨item, hitem, rfl⟩
    rw [← hfirst] at hitem
    exact .inl ⟨item, (List.mem_filter.1 hitem).1, rfl⟩

end Groups

end PhloTransform.Library
