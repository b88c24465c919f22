import Mathlib

/-!
The lowest match. A list is searched for the element that has a property and the
least key, the first one where several have that key (`LowestMatch`): by sorting
it stably and taking the first that has the property (`find?_sort_by_key`), or
by one pass over those that have it (`argmin_filter_eq_some`).
-/
namespace HeapAnalyser.Selection
universe u v
variable {α : Type u} {κ : Type v} [LinearOrder κ]

/-- `slice::sort_by_key`, which is stable. -/
def sort_by_key (key : α → κ) (l : List α) : List α := l.mergeSort fun a b => decide (key a ≤ key b)

/-- The first of the lowest elements that have a property: those in front of it have
    greater keys, and those behind it none that is smaller. -/
def LowestMatch (key : α → κ) (P : α → Prop) (l : List α) (a : α) : Prop :=
  ∃ front back, l = front ++ a :: back ∧ P a ∧ (∀ b ∈ front, P b → key a < key b) ∧ ∀ b ∈ back, P b → key a ≤ key b

theorem sort_by_key_pairwise (key : α → κ) (l : List α) :
    (sort_by_key key l).Pairwise fun a b => key a ≤ key b := by
  have sorted := @List.pairwise_mergeSort α (fun a b => decide (key a ≤ key b))
    (fun a b c ab bc => decide_eq_true (le_trans (of_decide_eq_true ab) (of_decide_eq_true bc)))
    (fun a b => by simpa using le_total (key a) (key b)) l
  exact sorted.imp fun le => of_decide_eq_true le

/-- Sorting puts the head behind those with smaller keys only. -/
theorem sort_by_key_cons (key : α → κ) (a : α) (l : List α) :
    ∃ front back, sort_by_key key (a :: l) = front ++ a :: back ∧ sort_by_key key l = front ++ back ∧
      ∀ b ∈ front, key b < key a := by
  obtain ⟨front, back, whole, rest, smaller⟩ := @List.mergeSort_cons α (fun a b => decide (key a ≤ key b))
    (fun a b c ab bc => decide_eq_true (le_trans (of_decide_eq_true ab) (of_decide_eq_true bc)))
    (fun a b => by simpa using le_total (key a) (key b)) a l
  refine ⟨front, back, whole, rest, fun b member => ?_⟩
  simpa using smaller b member

section
variable {key : α → κ} {P Q : α → Prop} {l : List α} {a b : α}

theorem LowestMatch.mem (lowest : LowestMatch key P l a) : a ∈ l := by
  obtain ⟨front, back, rfl, _⟩ := lowest
  simp

theorem LowestMatch.has (lowest : LowestMatch key P l a) : P a := by
  obtain ⟨_, _, _, has, _⟩ := lowest
  exact has

theorem LowestMatch.least (lowest : LowestMatch key P l a) : ∀ b ∈ l, P b → key a ≤ key b := by
  obtain ⟨front, back, rfl, _, greater, least⟩ := lowest
  intro b member has
  rcases List.mem_append.mp member with earlier | later
  · exact (greater b earlier has).le
  · rcases List.mem_cons.mp later with rfl | behind
    · exact le_rfl
    · exact least b behind has

theorem lowestMatch_congr (same : ∀ a, P a ↔ Q a) : LowestMatch key P l a ↔ LowestMatch key Q l a := by
  have isSame : P = Q := funext fun a => propext (same a)
  rw [isSame]

/-- The lowest match is that of the tail, unless the head is as low. -/
theorem lowestMatch_cons : LowestMatch key P (a :: l) b ↔
    (LowestMatch key P l b ∧ (P a → key b < key a)) ∨ (b = a ∧ P a ∧ ∀ c ∈ l, P c → key a ≤ key c) := by
  constructor
  · rintro ⟨front, back, split, has, greater, least⟩
    cases front with
    | nil =>
      obtain ⟨rfl, rfl⟩ := List.cons.inj split
      exact .inr ⟨rfl, has, least⟩
    | cons first front =>
      obtain ⟨rfl, rfl⟩ := List.cons.inj split
      obtain ⟨smaller, others⟩ := List.forall_mem_cons.mp greater
      exact .inl ⟨⟨front, back, rfl, has, others, least⟩, smaller⟩
  · rintro (⟨⟨front, back, rfl, has, greater, least⟩, smaller⟩ | ⟨rfl, has, least⟩)
    · exact ⟨a :: front, back, rfl, has, List.forall_mem_cons.mpr ⟨smaller, greater⟩, least⟩
    · exact ⟨[], l, rfl, has, by simp, least⟩

theorem not_lowestMatch_nil : ¬ LowestMatch key P [] b := fun lowest => List.not_mem_nil lowest.mem

/-- A search in a filtered list is one for both properties. -/
theorem lowestMatch_filter {p : α → Bool} :
    LowestMatch key P (l.filter p) b ↔ LowestMatch key (fun a => p a = true ∧ P a) l b := by
  induction l with
  | nil =>
    rw [List.filter_nil]
    exact iff_of_false not_lowestMatch_nil not_lowestMatch_nil
  | cons a rest ih =>
    rw [lowestMatch_cons]
    have others : (∀ c ∈ rest.filter p, P c → key a ≤ key c) ↔ ∀ c ∈ rest, p c = true ∧ P c → key a ≤ key c := by
      simp only [List.mem_filter, and_imp]
    by_cases kept : p a = true
    · rw [List.filter_cons_of_pos kept, lowestMatch_cons, ih, others]
      simp only [kept, true_and]
    · rw [List.filter_cons_of_neg kept, ih]
      simp [kept]

/-- One pass finds the first of the lowest. -/
theorem argmin_eq_some : l.argmin key = some b ↔ LowestMatch key (fun _ => True) l b := by
  induction l generalizing b with
  | nil =>
    have none : ¬ LowestMatch key (fun _ => True) [] b := not_lowestMatch_nil
    simpa using none
  | cons a rest ih =>
    rw [List.argmin_cons, lowestMatch_cons, ← ih]
    cases found : rest.argmin key with
    | none =>
      obtain rfl := List.argmin_eq_none.mp found
      simp [eq_comm]
    | some c =>
      have lowest := ih.mp found
      by_cases smaller : key c < key a
      · simp only [if_pos smaller, Option.some.injEq, true_imp_iff, true_and]
        constructor
        · rintro rfl
          exact .inl ⟨rfl, smaller⟩
        · rintro (⟨same, _⟩ | ⟨_, least⟩)
          · exact same
          · exact absurd smaller (not_lt.mpr (least c lowest.mem))
      · simp only [if_neg smaller, Option.some.injEq, true_imp_iff, true_and]
        constructor
        · rintro rfl
          exact .inr ⟨rfl, fun d member => le_trans (not_lt.mp smaller) (lowest.least d member trivial)⟩
        · rintro (⟨rfl, isSmaller⟩ | ⟨same, _⟩)
          · exact absurd isSmaller smaller
          · exact same.symm

theorem argmin_filter_eq_some {p : α → Bool} :
    (l.filter p).argmin key = some b ↔ LowestMatch key (p · = true) l b := by
  rw [argmin_eq_some, lowestMatch_filter]
  exact lowestMatch_congr fun _ => and_iff_left trivial

end

/-- Sorting and taking the first match finds the lowest match. -/
theorem find?_sort_by_key {key : α → κ} {p : α → Bool} (l : List α) {b : α} :
    (sort_by_key key l).find? p = some b ↔ LowestMatch key (p · = true) l b := by
  induction l generalizing b with
  | nil =>
    have none : ¬ LowestMatch key (p · = true) [] b := not_lowestMatch_nil
    simpa [sort_by_key] using none
  | cons a rest ih =>
    obtain ⟨front, back, whole, tail, smaller⟩ := sort_by_key_cons key a rest
    have inRest : ∀ c ∈ front ++ back, c ∈ rest := fun c member => List.mem_mergeSort.mp (tail ▸ member)
    rw [lowestMatch_cons, ← ih, whole, tail, List.find?_append, List.find?_append]
    cases found : front.find? p with
    | some c =>
      -- A match in front of the head has a smaller key.
      have inFront := List.mem_of_find?_eq_some found
      have isMatch := List.find?_some found
      have isSmaller := smaller c inFront
      simp only [Option.some_or, Option.some.injEq]
      constructor
      · rintro rfl
        exact .inl ⟨rfl, fun _ => isSmaller⟩
      · rintro (⟨same, _⟩ | ⟨_, _, least⟩)
        · exact same
        · exact absurd isSmaller (not_lt.mpr (least c (inRest c (List.mem_append_left _ inFront)) isMatch))
    | none =>
      simp only [Option.none_or]
      by_cases isMatch : p a = true
      · have sorted := sort_by_key_pairwise key (a :: rest)
        rw [whole] at sorted
        have behind : ∀ c ∈ rest, p c = true → key a ≤ key c := by
          intro c member has
          have inSorted : c ∈ front ++ back := tail ▸ List.mem_mergeSort.mpr member
          rcases List.mem_append.mp inSorted with earlier | later
          · exact absurd has (List.find?_eq_none.mp found c earlier)
          · exact List.rel_of_pairwise_cons (List.pairwise_append.mp sorted).2.1 later
        rw [List.find?_cons_of_pos isMatch, Option.some.injEq]
        constructor
        · rintro rfl
          exact .inr ⟨rfl, isMatch, behind⟩
        · rintro (⟨later, isSmaller⟩ | ⟨same, _⟩)
          · have member := inRest b (List.mem_append_right _ (List.mem_of_find?_eq_some later))
            exact absurd (isSmaller isMatch) (not_lt.mpr (behind b member (List.find?_some later)))
          · exact same.symm
      · rw [List.find?_cons_of_neg isMatch]
        simp [isMatch]

end HeapAnalyser.Selection
