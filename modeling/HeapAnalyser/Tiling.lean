import Mathlib

/-!
Segments of the natural numbers laid end to end. A list of segments, each with
a start and a length, tiles `[lo, hi)` when the first starts at `lo`, each next
one starts where the one before ends, and the last ends at `hi` (`Tiles`). The
lengths of a tiling add up to what it covers, its segments are pairwise apart,
and tilings of ranges that are pairwise apart have segments that are pairwise
apart, over all the tilings together (`flatMap_apart`). Segments that are apart
within a range have lengths that fit it (`sum_le_of_apart`).
-/
namespace HeapAnalyser.Tiling
universe u v
variable {σ : Type u} (start len : σ → Nat)

/-- The segments lie end to end from `lo` to `hi`. -/
def Tiles : Nat → List σ → Nat → Prop
  | lo, [], hi => lo = hi
  | lo, s :: rest, hi => start s = lo ∧ Tiles (lo + len s) rest hi

/-- No point of one segment lies in the other. -/
def Apart (s t : σ) : Prop := start s + len s ≤ start t ∨ start t + len t ≤ start s

variable {start len}

/-- Segments that are apart are disjoint as sets of points. -/
theorem Apart.disjoint {s t : σ} (apart : Apart start len s t) :
    Disjoint (Set.Ico (start s) (start s + len s)) (Set.Ico (start t) (start t + len t)) := by
  rw [Set.Ico_disjoint_Ico]
  rcases apart with before | after
  · exact le_trans (min_le_left _ _) (le_trans before (le_max_right _ _))
  · exact le_trans (min_le_right _ _) (le_trans after (le_max_left _ _))

namespace Tiles

@[simp] theorem nil_iff {lo hi : Nat} : Tiles start len lo [] hi ↔ lo = hi := Iff.rfl

@[simp] theorem cons_iff {lo hi : Nat} {s : σ} {rest : List σ} :
    Tiles start len lo (s :: rest) hi ↔ start s = lo ∧ Tiles start len (lo + len s) rest hi := Iff.rfl

/-- A tiling covers as much as its lengths add up to. -/
theorem hi_eq {lo hi : Nat} {segments : List σ} (tiles : Tiles start len lo segments hi) :
    hi = lo + (segments.map len).sum := by
  induction segments generalizing lo with
  | nil => simpa using tiles.symm
  | cons s rest ih =>
    have covered := ih tiles.2
    simp only [List.map_cons, List.sum_cons]
    omega

theorem le {lo hi : Nat} {segments : List σ} (tiles : Tiles start len lo segments hi) : lo ≤ hi := by
  have := tiles.hi_eq
  omega

theorem mem_bounds {lo hi : Nat} {segments : List σ} (tiles : Tiles start len lo segments hi)
    {s : σ} (member : s ∈ segments) : lo ≤ start s ∧ start s + len s ≤ hi := by
  induction segments generalizing lo with
  | nil => simp at member
  | cons t rest ih =>
    obtain ⟨first, later⟩ := tiles
    rcases List.mem_cons.mp member with rfl | inRest
    · have := le later
      omega
    · have := ih later inRest
      omega

theorem pairwise_apart {lo hi : Nat} {segments : List σ} (tiles : Tiles start len lo segments hi) :
    segments.Pairwise (Apart start len) := by
  induction segments generalizing lo with
  | nil => exact .nil
  | cons s rest ih =>
    obtain ⟨first, later⟩ := tiles
    refine List.pairwise_cons.mpr ⟨?_, ih later⟩
    intro t member
    left
    have := (mem_bounds later member).1
    omega

end Tiles

/-- Families of segments, each within its own range, are apart where the ranges
    are: then all the segments, over all the families, are pairwise apart. -/
theorem flatMap_apart {ι : Type v} (families : List ι) (segments : ι → List σ) (lo hi : ι → Nat)
    (each : ∀ i ∈ families, (segments i).Pairwise (Apart start len))
    (inside : ∀ i ∈ families, ∀ s ∈ segments i, lo i ≤ start s ∧ start s + len s ≤ hi i)
    (apart : families.Pairwise fun i j => hi i ≤ lo j ∨ hi j ≤ lo i) :
    (families.flatMap segments).Pairwise (Apart start len) := by
  induction families with
  | nil => exact .nil
  | cons i rest ih =>
    obtain ⟨headApart, restApart⟩ := List.pairwise_cons.mp apart
    rw [List.flatMap_cons, List.pairwise_append]
    refine ⟨each i (by simp), ih (fun j member => each j (by simp [member]))
      (fun j member => inside j (by simp [member])) restApart, ?_⟩
    intro s inFirst t inRest
    obtain ⟨j, jMember, inJ⟩ := List.mem_flatMap.mp inRest
    have first := inside i (by simp) s inFirst
    have second := inside j (by simp [jMember]) t inJ
    rcases headApart j jMember with before | after
    · left; omega
    · right; omega

/-- The points of a segment. -/
def points (start len : σ → Nat) (s : σ) : List Nat := List.range' (start s) (len s)

/-- Segments that are apart have no more points than the range they are in. -/
theorem sum_le_of_apart {lo hi : Nat} {segments : List σ} (apart : segments.Pairwise (Apart start len))
    (inside : ∀ s ∈ segments, lo ≤ start s ∧ start s + len s ≤ hi) : (segments.map len).sum ≤ hi - lo := by
  have distinct : (segments.flatMap (points start len)).Nodup := by
    refine List.nodup_flatMap.mpr ⟨fun s _ => List.nodup_range', apart.imp fun {s t} either => ?_⟩
    intro a inS inT
    rw [points, List.mem_range'_1] at inS inT
    rcases either with before | after
    · omega
    · omega
  have within : segments.flatMap (points start len) ⊆ List.range' lo (hi - lo) := by
    intro a member
    obtain ⟨s, inSegments, inS⟩ := List.mem_flatMap.mp member
    have bounds := inside s inSegments
    rw [points, List.mem_range'_1] at inS
    rw [List.mem_range'_1]
    omega
  have count := (List.subperm_of_subset distinct within).length_le
  rw [List.length_range', List.length_flatMap] at count
  simpa only [points, List.length_range'] using count

end HeapAnalyser.Tiling
