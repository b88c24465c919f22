import Mathlib

/-!
Checks of untrusted values in the `Except` monad, and what checked candidates
agree on. A run of checks gives a value where each of them does (`bind_eq_ok`).
Candidates agree on a value when it is the only one that the check gives for any
of them: what fails has no say, and neither have order and repetition
(`outcomes_edit`).
-/
namespace HeapAnalyser.Checks
universe u v w
variable {α β : Type u} {ε : Type v} {γ : Type w}

/-- `Option::ok_or`. -/
def ok_or (value : Option α) (error : ε) : Except ε α :=
  match value with
  | some v => .ok v
  | none => .error error

/-- Fail where a condition holds. -/
def refuse (bad : Prop) [Decidable bad] (error : ε) : Except ε PUnit.{u + 1} := if bad then .error error else .ok ⟨⟩

/-- `Option::transpose`. -/
def transpose : Option (Except ε α) → Except ε (Option α)
  | none => .ok none
  | some (.ok v) => .ok (some v)
  | some (.error error) => .error error

/-- Two checks give a value where the first gives one that the second admits. -/
theorem bind_eq_ok {first : Except ε α} {next : α → Except ε β} {result : β} :
    first >>= next = .ok result ↔ ∃ value, first = .ok value ∧ next value = .ok result := by
  cases first with
  | error error => simp only [bind, Except.bind, reduceCtorEq, false_and, exists_false]
  | ok value => simp only [bind, Except.bind, Except.ok.injEq, exists_eq_left']

theorem ok_or_eq_ok {value : Option α} {error : ε} {v : α} : ok_or value error = .ok v ↔ value = some v := by
  cases value <;> simp [ok_or]

theorem refuse_eq_ok {bad : Prop} [Decidable bad] {error : ε} {done : PUnit} :
    refuse bad error = .ok done ↔ ¬ bad := by
  by_cases holds : bad <;> simp [refuse, holds]

/-- A transposed check gives what the check inside gave. -/
theorem transpose_eq_ok {checked : Option (Except ε α)} {result : Option α} :
    transpose checked = .ok result ↔ checked = result.map Except.ok := by
  rcases checked with _ | error | value
  · cases result <;> simp [transpose]
  · cases result <;> simp [transpose]
  · cases result <;> simp [transpose]

/-- Every error that a check ends with is an allowed one. -/
def Throws (allowed : ε → Prop) (checked : Except ε α) : Prop := ∀ error, checked = .error error → allowed error

section
variable {allowed : ε → Prop}

@[simp] theorem throws_ok (value : α) : Throws allowed (.ok value : Except ε α) := fun _ same => by cases same

@[simp] theorem throws_pure (value : α) : Throws allowed (pure value : Except ε α) := throws_ok value

@[simp] theorem throws_error {error : ε} : Throws allowed (.error error : Except ε α) ↔ allowed error := by
  constructor
  · exact fun throws => throws error rfl
  · rintro isAllowed _ ⟨⟩
    exact isAllowed

/-- Two checks end with an allowed error where the first does, and the second for what the first gives. -/
theorem throws_bind_ok {first : Except ε α} {next : α → Except ε β} (own : Throws allowed first)
    (later : ∀ value, first = .ok value → Throws allowed (next value)) : Throws allowed (first >>= next) := by
  cases first with
  | error error =>
    intro e same
    change (Except.error error : Except ε β) = .error e at same
    cases same
    exact own error rfl
  | ok value => exact later value rfl

theorem throws_bind {first : Except ε α} {next : α → Except ε β} (own : Throws allowed first)
    (later : ∀ value, Throws allowed (next value)) : Throws allowed (first >>= next) :=
  throws_bind_ok own fun value _ => later value

@[simp] theorem throws_ok_or {value : Option α} {error : ε} (isAllowed : allowed error) :
    Throws allowed (ok_or value error) := by
  cases value with
  | none => exact throws_error.mpr isAllowed
  | some v => exact throws_ok v

@[simp] theorem throws_refuse {bad : Prop} [Decidable bad] {error : ε} (isAllowed : allowed error) :
    Throws allowed (refuse bad error : Except ε PUnit.{u + 1}) := by
  by_cases holds : bad
  · rw [refuse, if_pos holds]
    exact throws_error.mpr isAllowed
  · rw [refuse, if_neg holds]
    exact throws_ok _

theorem throws_ite {c : Prop} [Decidable c] {one other : Except ε α} (first : Throws allowed one)
    (second : Throws allowed other) : Throws allowed (if c then one else other) := by
  by_cases holds : c
  · rwa [if_pos holds]
  · rwa [if_neg holds]

theorem throws_map {checked : Except ε α} (f : α → β) (own : Throws allowed checked) :
    Throws allowed (checked.map f) := by
  cases checked with
  | error error => exact fun e same => own e (by cases same; rfl)
  | ok value => exact throws_ok _

theorem throws_transpose {checked : Option (Except ε α)} (each : ∀ c ∈ checked, Throws allowed c) :
    Throws allowed (transpose checked) := by
  rcases checked with _ | error | value
  · exact throws_ok _
  · exact fun e same => each _ rfl e (by cases same; rfl)
  · exact throws_ok _

theorem throws_filterMapM {check : γ → Except ε (Option α)} (each : ∀ input, Throws allowed (check input))
    (inputs : List γ) : Throws allowed (inputs.filterMapM check) := by
  induction inputs with
  | nil => exact throws_ok _
  | cons input rest ih =>
    rw [List.filterMapM_cons]
    refine throws_bind (each input) fun kept => ?_
    cases kept with
    | none => exact ih
    | some first => exact throws_bind ih fun later => throws_ok _

end

/-- The values that a check gives for candidates. -/
def outcomes (check : γ → Except ε α) (candidates : List γ) : Set α := {v | ∃ c ∈ candidates, check c = .ok v}

/-- Changes of candidates that have no say in what they agree on. -/
inductive Edit (check : γ → Except ε α) : List γ → List γ → Prop where
  | permute {candidates others : List γ} (perm : candidates.Perm others) : Edit check candidates others
  | duplicate {candidates : List γ} {c : γ} (listed : c ∈ candidates) : Edit check candidates (c :: candidates)
  | failing {candidates : List γ} {c : γ} {error : ε} (fails : check c = .error error) :
    Edit check candidates (c :: candidates)

theorem outcomes_edit {check : γ → Except ε α} {candidates others : List γ} (edit : Edit check candidates others) :
    outcomes check others = outcomes check candidates := by
  ext v
  cases edit with
  | permute perm =>
    constructor
    · rintro ⟨c, listed, valid⟩
      exact ⟨c, perm.mem_iff.mpr listed, valid⟩
    · rintro ⟨c, listed, valid⟩
      exact ⟨c, perm.mem_iff.mp listed, valid⟩
  | duplicate again =>
    constructor
    · rintro ⟨c, listed, valid⟩
      rcases List.mem_cons.mp listed with rfl | listed
      · exact ⟨c, again, valid⟩
      · exact ⟨c, listed, valid⟩
    · rintro ⟨c, listed, valid⟩
      exact ⟨c, List.mem_cons_of_mem _ listed, valid⟩
  | failing fails =>
    constructor
    · rintro ⟨c, listed, valid⟩
      rcases List.mem_cons.mp listed with rfl | listed
      · rw [fails] at valid
        cases valid
      · exact ⟨c, listed, valid⟩
    · rintro ⟨c, listed, valid⟩
      exact ⟨c, List.mem_cons_of_mem _ listed, valid⟩

/-- A list without repetition has one element when one value is its only member. -/
theorem eq_singleton_iff_of_nodup {values : List α} (nodup : values.Nodup) {v : α} :
    values = [v] ↔ {w | w ∈ values} = {v} := by
  constructor
  · rintro rfl
    ext w
    simp
  · intro only
    refine List.perm_singleton.mp ((List.perm_ext_iff_of_nodup nodup (List.nodup_singleton v)).mpr fun w => ?_)
    have member : w ∈ {w | w ∈ values} ↔ w ∈ ({v} : Set α) := by rw [only]
    simpa using member

end HeapAnalyser.Checks
