import Mathlib

/-!
Filling a map from a stream of entries in which a key may come again. The first
entry of a key wins, and every later one is set aside, in order (`placeAll`).
The map then has the keys of the stream, each with the value of its first
entry, and what was set aside is the entries that are not the first of their
key (`placeAll_spec`).
-/
namespace HeapAnalyser.FirstOwner
universe u v
variable {κ : Type u} {ω : Type v} [DecidableEq κ]

/-- The value of the first entry with a key. -/
def firstOf (entries : List (κ × ω)) (key : κ) : Option ω := (entries.find? fun e => e.1 = key).map Prod.snd

/-- The entries in front of which another one has the same key. -/
def repeats (entries : List (κ × ω)) : List (κ × ω) :=
  (entries.zipIdx.filter fun e => e.1.1 ∈ (entries.take e.2).map Prod.fst).map Prod.fst

theorem firstOf_concat (entries : List (κ × ω)) (entry : κ × ω) (key : κ) :
    firstOf (entries ++ [entry]) key =
      (firstOf entries key).or (if entry.1 = key then some entry.2 else none) := by
  simp only [firstOf, List.find?_append, List.find?_singleton]
  cases entries.find? fun e => e.1 = key with
  | some found => rfl
  | none => by_cases same : entry.1 = key <;> simp [same]

theorem firstOf_eq_none {entries : List (κ × ω)} {key : κ} :
    firstOf entries key = none ↔ key ∉ entries.map Prod.fst := by
  simp only [firstOf, Option.map_eq_none_iff, List.find?_eq_none, decide_eq_true_eq, List.mem_map, not_exists, not_and]

theorem repeats_concat (entries : List (κ × ω)) (entry : κ × ω) :
    repeats (entries ++ [entry]) =
      repeats entries ++ if entry.1 ∈ entries.map Prod.fst then [entry] else [] := by
  have early : ∀ e ∈ entries.zipIdx, (entries ++ [entry]).take e.2 = entries.take e.2 := by
    intro e member
    have inside := (List.mem_zipIdx member).2.1
    exact List.take_append_of_le_length (by omega)
  have front : entries.zipIdx.filter (fun e => e.1.1 ∈ ((entries ++ [entry]).take e.2).map Prod.fst) =
      entries.zipIdx.filter fun e => e.1.1 ∈ (entries.take e.2).map Prod.fst :=
    List.filter_congr fun e member => by rw [early e member]
  rw [repeats, List.zipIdx_append, List.filter_append, front, List.map_append]
  by_cases seen : entry.1 ∈ entries.map Prod.fst
  · simp [repeats, seen]
  · simp [repeats, seen]

variable [Ord κ]

/-- Take one entry: into the map when its key is new, else to the repeats. -/
def place (s : Std.TreeMap κ ω × List (κ × ω)) (entry : κ × ω) : Std.TreeMap κ ω × List (κ × ω) :=
  match s.1[entry.1]? with
  | some _ => (s.1, s.2 ++ [entry])
  | none => (s.1.insert entry.1 entry.2, s.2)

/-- The map and the repeats of a stream of entries. -/
def placeAll (entries : List (κ × ω)) : Std.TreeMap κ ω × List (κ × ω) := entries.foldl place (∅, [])

variable [Std.TransOrd κ] [Std.LawfulEqOrd κ]

/-- The first entry of each key wins, and the others are the repeats. -/
theorem placeAll_spec (entries : List (κ × ω)) :
    (∀ key, (placeAll entries).1[key]? = firstOf entries key) ∧ (placeAll entries).2 = repeats entries := by
  induction entries using List.reverseRecOn with
  | nil => exact ⟨fun key => by simp [placeAll, firstOf], rfl⟩
  | append_singleton entries entry ih =>
    obtain ⟨owners, others⟩ := ih
    have step : placeAll (entries ++ [entry]) = place (placeAll entries) entry := by
      rw [placeAll, List.foldl_append]
      rfl
    rw [step]
    cases found : firstOf entries entry.1 with
    | some owner =>
      have seen : entry.1 ∈ entries.map Prod.fst := by
        by_contra new
        simp [firstOf_eq_none.mpr new] at found
      simp only [place, owners entry.1, found, repeats_concat, if_pos seen, others, and_true]
      intro key
      rw [owners key, firstOf_concat]
      by_cases same : entry.1 = key
      · rw [← same, found, Option.some_or]
      · rw [if_neg same, Option.or_none]
    | none =>
      have new := firstOf_eq_none.mp found
      simp only [place, owners entry.1, found, repeats_concat, if_neg new, others, List.append_nil, and_true]
      intro key
      rw [Std.TreeMap.getElem?_insert, owners key, firstOf_concat]
      by_cases same : entry.1 = key
      · rw [← same, if_pos Std.ReflOrd.compare_self, found, if_pos rfl, Option.none_or]
      · rw [if_neg (fun equal => same (Std.LawfulEqOrd.compare_eq_iff_eq.mp equal)), if_neg same, Option.or_none]

end HeapAnalyser.FirstOwner
