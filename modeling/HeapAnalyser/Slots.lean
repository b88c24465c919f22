import Mathlib

/-!
Counting slots. The slots of a phase in a space are one for each width of it; a
range has room for as many as it has widths (`card_le_of_inside`). So ranges that
between them hold every slot are together at least as long as the space
(`space_le_of_covered`).
-/
namespace HeapAnalyser.Slots
universe u
variable {α : Type u}

/-- The slot at a position lies inside a range. -/
def Inside (start size width position : Nat) : Prop := start ≤ position ∧ position - start + width ≤ size

/-- A set has no more elements than the items that cover it have room for. -/
theorem card_le_of_covered (items : List α) (covers : α → Nat → Prop) {room : α → Nat} {s : Finset Nat}
    (each : ∀ item ∈ items, ∀ t ⊆ s, (∀ a ∈ t, covers item a) → t.card ≤ room item)
    (all : ∀ a ∈ s, ∃ item ∈ items, covers item a) : s.card ≤ (items.map room).sum := by
  classical
  induction items generalizing s with
  | nil =>
    have empty : s = ∅ := Finset.eq_empty_of_forall_notMem fun a member => by simpa using all a member
    simp [empty]
  | cons item rest ih =>
    have own : (s.filter (covers item)).card ≤ room item :=
      each item (by simp) _ (Finset.filter_subset _ _) fun a member => (Finset.mem_filter.mp member).2
    have others : (s.filter fun a => ¬ covers item a).card ≤ (rest.map room).sum := by
      apply ih
      · exact fun other member t part => each other (by simp [member]) t (part.trans (Finset.filter_subset _ _))
      · intro a member
        obtain ⟨inSet, uncovered⟩ := Finset.mem_filter.mp member
        obtain ⟨other, isItem, covers⟩ := all a inSet
        rcases List.mem_cons.mp isItem with rfl | later
        · exact absurd covers uncovered
        · exact ⟨other, later, covers⟩
    have split := Finset.card_filter_add_card_filter_not (s := s) (covers item)
    rw [List.map_cons, List.sum_cons]
    omega

/-- A range has room for as many slots of one phase as it has widths. -/
theorem card_le_of_inside {start size width phase : Nat} (positive : 0 < width) {s : Finset Nat}
    (same : ∀ a ∈ s, a % width = phase) (inside : ∀ a ∈ s, Inside start size width a) : s.card ≤ size / width := by
  have into : Set.MapsTo (fun a => (a - start) / width) s (Finset.range (size / width)) := by
    intro a member
    obtain ⟨_, room⟩ := inside a member
    have next : (a - start) / width + 1 = (a - start + width) / width := (Nat.add_div_right _ positive).symm
    rw [Finset.coe_range, Set.mem_Iio, Nat.lt_iff_add_one_le, next]
    exact Nat.div_le_div_right room
  have apart : Set.InjOn (fun a => (a - start) / width) s := by
    intro a inA b inB equal
    have phases : a ≡ b [MOD width] := (same a inA).trans (same b inB).symm
    obtain ⟨startA, _⟩ := inside a inA
    obtain ⟨startB, _⟩ := inside b inB
    have rests : a - start ≡ b - start [MOD width] := by
      apply Nat.ModEq.add_right_cancel' start
      rwa [Nat.sub_add_cancel startA, Nat.sub_add_cancel startB]
    have distance : a - start = b - start := by
      rw [← Nat.div_add_mod (a - start) width, ← Nat.div_add_mod (b - start) width, rests, show _ / _ = _ from equal]
    omega
  have few := Finset.card_le_card_of_injOn _ into apart
  rwa [Finset.card_range] at few

/-- Ranges that hold every slot of a phase are together at least as long as the space. -/
theorem space_le_of_covered {width phase count : Nat} (small : phase < width) (ranges : List α) (start size : α → Nat)
    (covered : ∀ k < count, ∃ range ∈ ranges, Inside (start range) (size range) width (phase + k * width)) :
    count * width ≤ (ranges.map size).sum := by
  have positive : 0 < width := by omega
  have distinct : Function.Injective fun k => phase + k * width := by
    intro a b equal
    exact Nat.eq_of_mul_eq_mul_right positive (Nat.add_left_cancel equal)
  have few : ((Finset.range count).image fun k => phase + k * width).card ≤
      (ranges.map fun range => size range / width).sum := by
    apply card_le_of_covered ranges fun range => Inside (start range) (size range) width
    · intro range _ t part inside
      have phases : ∀ a ∈ t, a % width = phase := by
        intro a member
        obtain ⟨k, _, rfl⟩ := Finset.mem_image.mp (part member)
        exact (Nat.add_mul_mod_self_right _ _ _).trans (Nat.mod_eq_of_lt small)
      exact card_le_of_inside positive phases inside
    · intro a member
      obtain ⟨k, isSlot, rfl⟩ := Finset.mem_image.mp member
      exact covered k (Finset.mem_range.mp isSlot)
  rw [Finset.card_image_of_injective _ distinct, Finset.card_range] at few
  calc count * width ≤ (ranges.map fun range => size range / width).sum * width := Nat.mul_le_mul_right width few
    _ = (ranges.map fun range => size range / width * width).sum := by rw [List.sum_map_mul_right]
    _ ≤ (ranges.map size).sum := List.sum_le_sum fun range _ => Nat.div_mul_le_self _ _

end HeapAnalyser.Slots
