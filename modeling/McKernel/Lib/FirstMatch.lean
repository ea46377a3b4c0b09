import Mathlib

/-!
# The first match in a list

Lists whose elements are looked up by a test: the first element that passes is removed or
changed in place.  A weight summed over the list, the keys of the elements and the
membership follow.
-/

namespace FirstMatch

open List

universe u v

variable {α : Type u} {β : Type v} {test : α → Bool} {change : α → α} {items : List α} {item : α}

def update (test : α → Bool) (change : α → α) : List α → List α
  | [] => []
  | item :: rest => if test item then change item :: rest else item :: update test change rest

def total (weight : α → Nat) (items : List α) : Nat := (items.map weight).sum

variable {weight : α → Nat}

@[simp] theorem total_nil : total weight [] = 0 := rfl

@[simp] theorem total_cons (rest : List α) :
    total weight (item :: rest) = weight item + total weight rest := by
  simp [total]

@[simp] theorem total_append (front back : List α) :
    total weight (front ++ back) = total weight front + total weight back := by
  simp [total]

theorem total_eq_zero (light : ∀ item ∈ items, weight item = 0) : total weight items = 0 := by
  rw [total, sum_eq_zero]
  intro v isValue
  obtain ⟨item, isItem, rfl⟩ := mem_map.mp isValue
  exact light item isItem

theorem weight_le_total (isItem : item ∈ items) : weight item ≤ total weight items := by
  induction items with
  | nil => cases isItem
  | cons head rest ih =>
    rcases mem_cons.mp isItem with rfl | isItem
    · simp
    · have := ih isItem
      simp only [total_cons]
      omega

theorem total_eraseP (found : items.find? test = some item) :
    total weight items = weight item + total weight (items.eraseP test) := by
  induction items with
  | nil => cases found
  | cons head rest ih =>
    rw [find?_cons] at found
    cases passed : test head with
    | true =>
      rw [passed] at found
      cases found
      simp [passed]
    | false =>
      rw [passed] at found
      have := ih found
      simp only [total_cons, eraseP_cons, passed, cond_false]
      omega

theorem total_update (found : items.find? test = some item) :
    total weight (update test change items) + weight item =
      total weight items + weight (change item) := by
  induction items with
  | nil => cases found
  | cons head rest ih =>
    rw [find?_cons] at found
    cases passed : test head with
    | true =>
      rw [passed] at found
      cases found
      simp only [update, passed, if_true, total_cons]
      omega
    | false =>
      rw [passed] at found
      have := ih found
      simp only [update, passed, Bool.false_eq_true, if_false, total_cons]
      omega

theorem total_update_same (same : ∀ item, weight (change item) = weight item) :
    total weight (update test change items) = total weight items := by
  induction items with
  | nil => rfl
  | cons head rest ih =>
    by_cases passed : test head = true
    · simp [update, passed, same]
    · simp [update, passed, ih]

theorem mem_update (isItem : item ∈ update test change items) :
    item ∈ items ∨ ∃ old, items.find? test = some old ∧ item = change old := by
  induction items with
  | nil => cases isItem
  | cons head rest ih =>
    by_cases passed : test head = true
    · simp only [update, passed, if_true, mem_cons] at isItem
      rcases isItem with rfl | isItem
      · exact .inr ⟨head, by simp [passed], rfl⟩
      · exact .inl (mem_cons_of_mem _ isItem)
    · simp only [update, passed, Bool.false_eq_true, if_false, mem_cons] at isItem
      rcases isItem with rfl | isItem
      · exact .inl mem_cons_self
      · rcases ih isItem with isItem | ⟨old, found, rfl⟩
        · exact .inl (mem_cons_of_mem _ isItem)
        · exact .inr ⟨old, by simp [passed, found], rfl⟩

theorem mem_update_of_mem (isItem : item ∈ items) (failed : test item = false) :
    item ∈ update test change items := by
  induction items with
  | nil => cases isItem
  | cons head rest ih =>
    by_cases passed : test head = true
    · rcases mem_cons.mp isItem with rfl | isItem
      · rw [failed] at passed
        cases passed
      · simp [update, passed, isItem]
    · rcases mem_cons.mp isItem with rfl | isItem
      · simp [update, passed]
      · simp [update, passed, ih isItem]

variable {key : α → β}

theorem map_update (same : ∀ item, key (change item) = key item) :
    (update test change items).map key = items.map key := by
  induction items with
  | nil => rfl
  | cons head rest ih =>
    by_cases passed : test head = true
    · simp [update, passed, same]
    · simp [update, passed, ih]

theorem find?_update (kept : ∀ item, test (change item) = test item)
    (found : items.find? test = some item) :
    (update test change items).find? test = some (change item) := by
  induction items with
  | nil => cases found
  | cons head rest ih =>
    by_cases passed : test head = true
    · rw [find?_cons_of_pos passed] at found
      cases found
      simp [update, passed, kept]
    · rw [find?_cons_of_neg passed] at found
      simp [update, passed, ih found]

theorem eraseP_update (kept : ∀ item, test (change item) = test item) :
    (update test change items).eraseP test = items.eraseP test := by
  induction items with
  | nil => rfl
  | cons head rest ih =>
    by_cases passed : test head = true
    · simp [update, passed, kept]
    · simp [update, passed, ih]

theorem length_eraseP (found : items.find? test = some item) :
    (items.eraseP test).length + 1 = items.length := by
  have isItem := mem_of_find?_eq_some found
  have passed : test item = true := find?_some found
  have pos : 0 < items.length := length_pos_of_mem isItem
  rw [length_eraseP_of_mem isItem passed]
  omega

theorem nodup_eraseP (nodup : (items.map key).Nodup) :
    ((items.eraseP test).map key).Nodup :=
  nodup.sublist ((eraseP_sublist).map key)

theorem nodup_update (same : ∀ item, key (change item) = key item)
    (nodup : (items.map key).Nodup) : ((update test change items).map key).Nodup := by
  rw [map_update same]
  exact nodup

section Keys

variable {key : α → β} [DecidableEq β] {name : β}

theorem ne_of_mem_eraseP (nodup : (items.map key).Nodup)
    (isItem : item ∈ items.eraseP fun item => key item == name) : key item ≠ name := by
  induction items with
  | nil => cases isItem
  | cons head rest ih =>
    rw [map_cons, nodup_cons] at nodup
    by_cases named : key head = name
    · rw [eraseP_cons_of_pos (by simpa using named)] at isItem
      intro same
      exact nodup.1 (mem_map.mpr ⟨item, isItem, by rw [same, named]⟩)
    · rw [eraseP_cons_of_neg (by simpa using named), mem_cons] at isItem
      rcases isItem with rfl | isItem
      · exact named
      · exact ih nodup.2 isItem

theorem mem_update_key (nodup : (items.map key).Nodup)
    (isItem : item ∈ update (fun item => key item == name) change items) :
    (item ∈ items ∧ key item ≠ name) ∨ ∃ old ∈ items, key old = name ∧ item = change old := by
  induction items with
  | nil => cases isItem
  | cons head rest ih =>
    rw [map_cons, nodup_cons] at nodup
    by_cases named : key head = name
    · simp only [update, named, beq_self_eq_true, if_true, mem_cons] at isItem
      rcases isItem with rfl | isItem
      · exact .inr ⟨head, mem_cons_self, named, rfl⟩
      · refine .inl ⟨mem_cons_of_mem _ isItem, fun same => nodup.1 ?_⟩
        exact mem_map.mpr ⟨item, isItem, by rw [same, named]⟩
    · simp only [update, beq_eq_false_iff_ne.mpr named, Bool.false_eq_true, if_false,
        mem_cons] at isItem
      rcases isItem with rfl | isItem
      · exact .inl ⟨mem_cons_self, named⟩
      · rcases ih nodup.2 isItem with ⟨isItem, ne⟩ | ⟨old, isOld, named, rfl⟩
        · exact .inl ⟨mem_cons_of_mem _ isItem, ne⟩
        · exact .inr ⟨old, mem_cons_of_mem _ isOld, named, rfl⟩

end Keys

end FirstMatch
