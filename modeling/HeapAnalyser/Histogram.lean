import HeapAnalyser.Machine

/-!
Histograms: ordered maps from keys to 64-bit counts, read as multisets of keys
(`Counts`). A key without an entry counts as zero, and an entry may be zero.
Adding to a bucket and taking from it, saturating, are the sum and the
difference of multisets; a sum over the entries, each weighted by its count, is
the sum over the multiset (`Counts.sum_smul`), and the entries that are not
zero list each key of the multiset once, in ascending order.
-/
namespace HeapAnalyser.Histogram
open Machine Multiset
universe u v
variable {κ : Type u} [Ord κ]

/-- The entries whose count is not zero. -/
def nonzero (t : Std.TreeMap κ UInt64) : List (κ × UInt64) := t.toList.filter fun e => 0 < e.2

theorem nonzero_positive (t : Std.TreeMap κ UInt64) : ∀ e ∈ nonzero t, 0 < e.2 := by
  intro e member
  simpa using (List.mem_filter.mp member).2

variable [Std.TransOrd κ]

theorem nonzero_ascending (t : Std.TreeMap κ UInt64) :
    (nonzero t).Pairwise fun a b => compare a.1 b.1 = .lt :=
  Std.TreeMap.ordered_keys_toList.filter _

variable [DecidableEq κ]

/-- The map counts each key as often as the multiset has it. -/
def Counts (t : Std.TreeMap κ UInt64) (m : Multiset κ) : Prop := ∀ k, (t.getD k 0).toNat = m.count k

theorem counts_empty : Counts (∅ : Std.TreeMap κ UInt64) 0 := by
  intro k
  simp

variable [Std.LawfulEqOrd κ]

namespace Counts
variable {t : Std.TreeMap κ UInt64} {m : Multiset κ}

theorem add (counts : Counts t m) (k : κ) (n : UInt64) (fits : m.count k + n.toNat < 2 ^ 64) :
    Counts (t.insert k (saturating_add (t.getD k 0) n)) (m + replicate n.toNat k) := by
  intro other
  rw [Std.TreeMap.getD_insert, count_add, count_replicate]
  by_cases same : k = other
  · subst same
    rw [if_pos Std.ReflOrd.compare_self, if_pos rfl, saturating_add_toNat, counts k]
    omega
  · rw [if_neg (fun equal => same (Std.LawfulEqOrd.compare_eq_iff_eq.mp equal)), if_neg same, counts other,
      Nat.add_zero]

theorem remove (counts : Counts t m) (k : κ) (n : UInt64) :
    Counts (t.insert k (saturating_sub (t.getD k 0) n)) (m - replicate n.toNat k) := by
  intro other
  rw [Std.TreeMap.getD_insert, count_sub, count_replicate]
  by_cases same : k = other
  · subst same
    rw [if_pos Std.ReflOrd.compare_self, if_pos rfl, saturating_sub_toNat, counts k]
  · rw [if_neg (fun equal => same (Std.LawfulEqOrd.compare_eq_iff_eq.mp equal)), if_neg same, counts other,
      Nat.sub_zero]

/-- The entries that are not zero are the keys of the multiset with their counts. -/
theorem mem_nonzero (counts : Counts t m) {k : κ} {n : UInt64} :
    (k, n) ∈ nonzero t ↔ 0 < n.toNat ∧ n.toNat = m.count k := by
  rw [nonzero, List.mem_filter, Std.TreeMap.mem_toList_iff_getElem?_eq_some, decide_eq_true_eq,
    UInt64.lt_iff_toNat_lt, ← counts k, Std.TreeMap.getD_eq_getD_getElem?]
  constructor
  · rintro ⟨entry, positive⟩
    exact ⟨positive, by rw [entry, Option.getD_some]⟩
  · rintro ⟨positive, same⟩
    refine ⟨?_, positive⟩
    cases entry : t[k]? with
    | none =>
      rw [entry, Option.getD_none] at same
      rw [same] at positive
      exact absurd positive (lt_irrefl 0)
    | some v =>
      rw [entry, Option.getD_some, UInt64.toNat_inj] at same
      rw [same]

end Counts

/-- A weighted sum over the entries that are not zero is the sum over the multiset. -/
theorem Counts.sum_smul {M : Type v} [AddCommMonoid M] {t : Std.TreeMap κ UInt64} {m : Multiset κ} (counts : Counts t m)
    (f : κ → M) : ((nonzero t).map fun e => e.2.toNat • f e.1).sum = (m.map f).sum := by
  have distinct : ((nonzero t).map Prod.fst).Nodup := by
    apply List.pairwise_map.mpr
    apply (nonzero_ascending t).imp
    intro a b less same
    rw [same, Std.ReflOrd.compare_self] at less
    exact absurd less (by decide)
  have keys : ((nonzero t).map Prod.fst).toFinset = m.toFinset := by
    ext k
    rw [List.mem_toFinset, List.mem_map, mem_toFinset, ← count_pos]
    constructor
    · rintro ⟨⟨key, n⟩, member, rfl⟩
      obtain ⟨positive, same⟩ := counts.mem_nonzero.mp member
      exact same ▸ positive
    · intro positive
      exact ⟨(k, t.getD k 0), counts.mem_nonzero.mpr ⟨by rw [counts k]; exact positive, counts k⟩, rfl⟩
  have weighted : (nonzero t).map (fun e => e.2.toNat • f e.1) =
      ((nonzero t).map Prod.fst).map fun k => m.count k • f k := by
    rw [List.map_map]
    apply List.map_congr_left
    intro e member
    have entry := (counts.mem_nonzero (k := e.1) (n := e.2)).mp member
    rw [entry.2, Function.comp_apply]
  rw [weighted, ← List.sum_toFinset _ distinct, keys, Finset.sum_multiset_map_count]

theorem Counts.sum_nonzero {t : Std.TreeMap κ UInt64} {m : Multiset κ} (counts : Counts t m) (f : κ → Nat) :
    ((nonzero t).map fun e => f e.1 * e.2.toNat).sum = (m.map f).sum := by
  rw [← counts.sum_smul f]
  simp only [smul_eq_mul, Nat.mul_comm]

/-- The keys of the entries, each as often as it is counted, are the multiset. -/
theorem Counts.sum_replicate {t : Std.TreeMap κ UInt64} {m : Multiset κ} (counts : Counts t m) :
    ((nonzero t).map fun e => replicate e.2.toNat e.1).sum = m := by
  have whole := counts.sum_smul fun k => ({k} : Multiset κ)
  simpa only [nsmul_singleton, sum_map_singleton] using whole

end HeapAnalyser.Histogram
