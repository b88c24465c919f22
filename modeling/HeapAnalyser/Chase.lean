import Mathlib

/-!
Following links from node to node with a set of visited nodes and a cap. A link
may be unreadable, and some values end the list (`stop`). `chase` visits at most
`cap` nodes and says why it stopped; `follow` is the same sequence without
either guard, undefined from the first unreadable link on. The law of the chase
(`chase_law`): its nodes are the first members of the sequence, distinct, and
the way it ended is read off the member after them. A list of distinct linked
nodes no longer than the cap is recovered in full (`chase_complete`). A recursion
that only goes on along links (`Guarded`) comes to the end of every list shorter
than its cap, and notices every node that comes again within it.
-/
namespace HeapAnalyser.Chase
universe u v
variable {α : Type u}

/-- Why a chase stopped. -/
inductive Ending (α : Type u) where
  | done
  | broken (last : α)
  | looped
  deriving Repr, DecidableEq

/-- The node `k` links after `a`. -/
def follow (link : α → Option α) (a : α) : Nat → Option α
  | 0 => some a
  | k + 1 => (follow link a k).bind link

/-- Visit nodes from `a`, at most as many as `remaining`. -/
def chase [DecidableEq α] (link : α → Option α) (stop : α → Bool) : Nat → List α → α → List α × Ending α
  | 0, _, _ => ([], .looped)
  | remaining + 1, visited, a =>
    if a ∈ visited then ([], .looped)
    else match link a with
      | none => ([a], .broken a)
      | some b =>
        if stop b then ([a], .done)
        else
          let rest := chase link stop remaining (a :: visited) b
          (a :: rest.1, rest.2)

theorem follow_succ (link : α → Option α) (a : α) (k : Nat) :
    follow link a (k + 1) = (link a).bind fun b => follow link b k := by
  induction k with
  | zero => cases h : link a <;> simp [follow, h]
  | succ k ih =>
    rw [follow, ih]
    cases link a with
    | none => rfl
    | some b => rfl

/-- How the ending of a chase shows in the member after its nodes. -/
def Explains (link : α → Option α) (stop : α → Bool) (remaining : Nat) (visited : List α) (a : α)
    (nodes : List α) : Ending α → Prop
  | .done => ∃ b, follow link a nodes.length = some b ∧ stop b = true
  | .broken last => nodes.getLast? = some last ∧ follow link a nodes.length = none
  | .looped => ∃ b, follow link a nodes.length = some b ∧ (nodes ≠ [] → stop b = false) ∧
      (b ∈ visited ∨ b ∈ nodes ∨ nodes.length = remaining)

/-- What holds of the nodes and the ending of a chase. -/
structure Law (link : α → Option α) (stop : α → Bool) (remaining : Nat) (visited : List α) (a : α)
    (nodes : List α) (ending : Ending α) : Prop where
  capped : nodes.length ≤ remaining
  distinct : nodes.Nodup
  fresh : ∀ node ∈ nodes, node ∉ visited
  members : ∀ k (inside : k < nodes.length), follow link a k = some nodes[k]
  explained : Explains link stop remaining visited a nodes ending

/-- Of distinct nodes that are not visited, those behind the first are new to a
    run that has visited it. -/
theorem fresh_tail {a : α} {rest visited : List α} (distinct : (a :: rest).Nodup)
    (fresh : ∀ node ∈ a :: rest, node ∉ visited) : ∀ node ∈ rest, node ∉ a :: visited := by
  intro node member seen
  rcases List.mem_cons.mp seen with rfl | old
  · exact (List.nodup_cons.mp distinct).1 member
  · exact fresh node (List.mem_cons_of_mem _ member) old

section
variable {link : α → Option α} {stop : α → Bool}

private theorem explains_cons {remaining : Nat} {visited nodes : List α} {a b : α} {ending : Ending α}
    (linked : link a = some b) (running : stop b = false)
    (explained : Explains link stop remaining (a :: visited) b nodes ending) :
    Explains link stop (remaining + 1) visited a (a :: nodes) ending := by
  have shift (k : Nat) : follow link a (k + 1) = follow link b k := by rw [follow_succ, linked, Option.bind_some]
  cases ending with
  | done => simpa [Explains, shift] using explained
  | broken last =>
    obtain ⟨isLast, none⟩ := explained
    refine ⟨?_, by simpa [shift] using none⟩
    cases nodes with
    | nil => simp at isLast
    | cons second tail => simpa [List.getLast?_cons_cons] using isLast
  | looped =>
    obtain ⟨c, next, notStop, why⟩ := explained
    refine ⟨c, by simpa [shift] using next, ?_, ?_⟩
    · intro _
      cases nodes with
      | nil =>
        have same : b = c := by simpa [follow] using next
        exact same ▸ running
      | cons second tail => exact notStop (by simp)
    · rcases why with seen | member | full
      · rcases List.mem_cons.mp seen with rfl | old
        · exact .inr (.inl (by simp))
        · exact .inl old
      · exact .inr (.inl (by simp [member]))
      · exact .inr (.inr (by simp [full]))

private theorem cons_law {remaining : Nat} {visited nodes : List α} {a b : α} {ending : Ending α}
    (fresh : a ∉ visited) (linked : link a = some b) (running : stop b = false)
    (law : Law link stop remaining (a :: visited) b nodes ending) :
    Law link stop (remaining + 1) visited a (a :: nodes) ending := by
  refine ⟨by simpa using law.capped, ?_, ?_, ?_, explains_cons linked running law.explained⟩
  · exact List.nodup_cons.mpr ⟨fun member => law.fresh a member (by simp), law.distinct⟩
  · intro node member
    rcases List.mem_cons.mp member with rfl | later
    · exact fresh
    · exact fun seen => law.fresh node later (by simp [seen])
  · intro k inside
    cases k with
    | zero => rfl
    | succ k =>
      rw [follow_succ, linked, Option.bind_some]
      simpa using law.members k (by simpa using inside)

section
variable {remaining : Nat} {visited nodes : List α} {a : α} {ending : Ending α}

/-- The member of the sequence after the nodes is the last node's link. -/
theorem Law.after_last (law : Law link stop remaining visited a nodes ending) {last : α}
    (isLast : nodes.getLast? = some last) : follow link a nodes.length = link last := by
  obtain ⟨front, rfl⟩ := List.getLast?_eq_some_iff.mp isLast
  have member := law.members front.length (by simp)
  simp only [List.getElem_concat_length] at member
  rw [List.length_append, List.length_singleton, follow, member, Option.bind_some]

theorem Law.front_linked (law : Law link stop remaining visited a nodes ending) :
    ∀ node ∈ nodes.dropLast, (link node).isSome := by
  intro node member
  obtain ⟨k, inside, rfl⟩ := List.mem_iff_getElem.mp member
  rw [List.length_dropLast] at inside
  have this := law.members k (by omega)
  have next := law.members (k + 1) (by omega)
  rw [follow, this, Option.bind_some] at next
  rw [List.getElem_dropLast, next]
  rfl

end

variable [DecidableEq α]

theorem chase_law (link : α → Option α) (stop : α → Bool) (remaining : Nat) (visited : List α) (a : α) :
    Law link stop remaining visited a (chase link stop remaining visited a).1
      (chase link stop remaining visited a).2 := by
  induction remaining generalizing visited a with
  | zero => exact ⟨le_rfl, .nil, by simp [chase], by simp [chase], ⟨a, rfl, by simp [chase], .inr (.inr rfl)⟩⟩
  | succ remaining ih =>
    rw [chase]
    by_cases seen : a ∈ visited
    · rw [if_pos seen]
      exact ⟨by simp, .nil, by simp, by simp, ⟨a, rfl, by simp, .inl seen⟩⟩
    rw [if_neg seen]
    have one : ∀ k (inside : k < [a].length), follow link a k = some [a][k] := by
      intro k inside
      have zero : k = 0 := by simpa using inside
      subst zero
      rfl
    cases linked : link a with
    | none =>
      exact ⟨by simp, by simp, by simp [seen], one, rfl, by simp [follow, linked]⟩
    | some b =>
      by_cases ends : stop b = true
      · simp only [ends, if_true]
        exact ⟨by simp, by simp, by simp [seen], one, b, by simp [follow, linked], ends⟩
      · simp only [ends, Bool.false_eq_true, if_false]
        exact cons_law seen linked (by simpa using ends) (ih (a :: visited) b)

theorem chase_nonempty (remaining : Nat) {visited : List α} {a : α} (fresh : a ∉ visited) :
    1 ≤ (chase link stop (remaining + 1) visited a).1.length := by
  rw [chase, if_neg fresh]
  cases link a with
  | none => simp
  | some b => by_cases ends : stop b = true <;> simp [ends]

/-- Each node links to the next, none of which stops, and the last one to a value that does. -/
def Linked (link : α → Option α) (stop : α → Bool) : List α → Prop
  | [] => True
  | [a] => ∃ b, link a = some b ∧ stop b = true
  | a :: b :: rest => link a = some b ∧ stop b = false ∧ Linked link stop (b :: rest)

/-- Distinct linked nodes, as many as the cap allows, are all visited. -/
theorem chase_complete (remaining : Nat) (visited : List α) (a : α) (rest : List α)
    (room : (a :: rest).length ≤ remaining) (distinct : (a :: rest).Nodup)
    (fresh : ∀ node ∈ a :: rest, node ∉ visited) (linked : Linked link stop (a :: rest)) :
    chase link stop remaining visited a = (a :: rest, .done) := by
  induction rest generalizing remaining visited a with
  | nil =>
    obtain ⟨spare, rfl⟩ : ∃ spare, remaining = spare + 1 := ⟨remaining - 1, by simp at room; omega⟩
    obtain ⟨b, next, ends⟩ := linked
    simp [chase, fresh a (by simp), next, ends]
  | cons b rest ih =>
    obtain ⟨spare, rfl⟩ : ∃ spare, remaining = spare + 1 := ⟨remaining - 1, by simp at room; omega⟩
    obtain ⟨next, running, later⟩ := linked
    have tail := ih spare (a :: visited) b (by simpa using room) distinct.of_cons (fresh_tail distinct fresh) later
    simp [chase, fresh a (by simp), next, running, tail]

end

/-! ## Guarded recursions -/

section
variable {link : α → Option α} {a b : α}

theorem follow_add {i : Nat} (reached : follow link a i = some b) (j : Nat) :
    follow link a (i + j) = follow link b j := by
  induction j with
  | zero => exact reached
  | succ j ih => rw [← Nat.add_assoc, follow, follow, ih]

theorem follow_some_of_le {i k : Nat} (reached : follow link a k = some b) (order : i ≤ k) :
    ∃ c, follow link a i = some c := by
  induction k generalizing b with
  | zero =>
    obtain rfl : i = 0 := by omega
    exact ⟨a, rfl⟩
  | succ k ih =>
    by_cases last : i = k + 1
    · exact ⟨b, by rw [last, reached]⟩
    · rw [follow, Option.bind_eq_some_iff] at reached
      obtain ⟨c, earlier, _⟩ := reached
      exact ih earlier (by omega)

/-- No node comes twice in front of one without a link: what comes again would
    come again and again. -/
theorem follow_apart {k : Nat} (reached : follow link a k = some b) (ends : link b = none) {i j : Nat} (order : i < j)
    (inside : j ≤ k) : follow link a i ≠ follow link a j := by
  intro same
  obtain ⟨c, atJ⟩ := follow_some_of_le reached inside
  have atI : follow link a i = some c := by rw [same, atJ]
  have early : follow link a (i + (k - j)) = some b := by
    rw [follow_add atI, ← follow_add atJ, show j + (k - j) = k by omega, reached]
  obtain ⟨d, next⟩ := follow_some_of_le reached (show i + (k - j) + 1 ≤ k by omega)
  rw [follow, early, Option.bind_some, ends] at next
  cases next

/-- The nodes of the first `k` links from a node, the last one first, in front of those visited. -/
def trail (link : α → Option α) : Nat → List α → α → List α
  | 0, visited, _ => visited
  | k + 1, visited, a =>
    match link a with
    | none => visited
    | some b => trail link k (a :: visited) b

theorem mem_trail {k : Nat} {visited : List α} (reached : follow link a k = some b) {node : α} :
    node ∈ trail link k visited a ↔ node ∈ visited ∨ ∃ i < k, follow link a i = some node := by
  induction k generalizing a visited with
  | zero => simp [trail]
  | succ k ih =>
    rw [follow_succ, Option.bind_eq_some_iff] at reached
    obtain ⟨c, linked, later⟩ := reached
    have shift (i : Nat) : follow link a (i + 1) = follow link c i := by rw [follow_succ, linked, Option.bind_some]
    simp only [trail, linked, ih later, List.mem_cons]
    constructor
    · rintro ((rfl | old) | ⟨i, inside, found⟩)
      · exact .inr ⟨0, by omega, rfl⟩
      · exact .inl old
      · exact .inr ⟨i + 1, by omega, by rw [shift, found]⟩
    · rintro (old | ⟨i, inside, found⟩)
      · exact .inl (.inr old)
      · cases i with
        | zero => exact .inl (.inl (Option.some.inj found).symm)
        | succ i => exact .inr ⟨i, by omega, by rw [← shift, found]⟩

/-- A recursion with a cap that goes on along links, and gives `loop` at a node it
    has visited. -/
structure Guarded {β : Type v} (link : α → Option α) (f : Nat → List α → α → β) (loop : β) : Prop where
  step : ∀ {remaining : Nat} {visited : List α} {a b : α}, a ∉ visited → link a = some b →
    f (remaining + 1) visited a = f remaining (a :: visited) b
  again : ∀ {remaining : Nat} {visited : List α} {a : α}, a ∈ visited → f (remaining + 1) visited a = loop

namespace Guarded
variable {β : Type v} {f : Nat → List α → α → β} {loop : β}

/-- The recursion goes `k` links on, if it has visited none of their nodes. -/
theorem run (guarded : Guarded link f loop) {k : Nat} (remaining : Nat) {visited : List α}
    (reached : follow link a k = some b)
    (fresh : ∀ i < k, ∀ node, follow link a i = some node → node ∉ trail link i visited a) :
    f (remaining + k) visited a = f remaining (trail link k visited a) b := by
  induction k generalizing a visited with
  | zero =>
    obtain rfl : a = b := Option.some.inj reached
    rfl
  | succ k ih =>
    have new : a ∉ visited := fresh 0 (by omega) a rfl
    rw [follow_succ, Option.bind_eq_some_iff] at reached
    obtain ⟨c, linked, later⟩ := reached
    have later_fresh : ∀ i < k, ∀ node, follow link c i = some node → node ∉ trail link i (a :: visited) c := by
      intro i inside node found
      have ahead := fresh (i + 1) (by omega) node (by rw [follow_succ, linked, Option.bind_some, found])
      simpa only [trail, linked] using ahead
    rw [← Nat.add_assoc, guarded.step new linked, ih later later_fresh]
    simp only [trail, linked]

/-- The recursion comes to the end of the links with the nodes in front of it
    visited, and the end itself not. -/
theorem to_end (guarded : Guarded link f loop) {k cap : Nat} (reached : follow link a k = some b) (ends : link b = none)
    (short : k ≤ cap) : f cap [] a = f (cap - k) (trail link k [] a) b ∧ b ∉ trail link k [] a := by
  have apart (j : Nat) (inside : j ≤ k) (node : α) (found : follow link a j = some node) :
      node ∉ trail link j [] a := by
    rw [mem_trail found]
    rintro (nothing | ⟨i, order, same⟩)
    · cases nothing
    · exact follow_apart reached ends order inside (by rw [same, found])
  refine ⟨?_, apart k le_rfl b reached⟩
  have run := guarded.run (cap - k) reached fun i inside node found => apart i (by omega) node found
  rwa [show cap - k + k = cap by omega] at run

/-- Where what the recursion gives at the end of the links has nothing to do with
    the nodes it has visited, it gives the same in front of them. -/
theorem through (guarded : Guarded link f loop) {k cap : Nat} (reached : follow link a k = some b) (ends : link b = none)
    (short : k < cap) (settled : ∀ remaining visited, b ∉ visited → f (remaining + 1) visited b = f cap [] b) :
    f cap [] a = f cap [] b := by
  obtain ⟨run, fresh⟩ := guarded.to_end reached ends short.le
  obtain ⟨spare, room⟩ : ∃ spare, cap - k = spare + 1 := ⟨cap - k - 1, by omega⟩
  rw [run, room, settled _ _ fresh]

/-- A node that comes again within the cap is noticed. -/
theorem loops (guarded : Guarded link f loop) {i j cap : Nat} {node : α} (first : follow link a i = some node)
    (second : follow link a j = some node) (order : i < j) (short : j < cap) : f cap [] a = loop := by
  -- up to the first node that comes again, every node is new
  obtain ⟨l, inside, isFirst⟩ := exists_minimal_le_of_wellFoundedLT
    (fun j => ∃ i < j, ∃ node, follow link a i = some node ∧ follow link a j = some node) j
    ⟨i, order, node, first, second⟩
  obtain ⟨m, earlier, same, atM, atL⟩ := isFirst.prop
  have fresh : ∀ i < l, ∀ node, follow link a i = some node → node ∉ trail link i [] a := by
    intro i before node found seen
    rcases (mem_trail found).mp seen with nothing | ⟨k, ahead, again⟩
    · cases nothing
    · exact isFirst.not_prop_of_lt before ⟨k, ahead, node, again, found⟩
  have run := guarded.run (cap - l) atL fresh
  obtain ⟨spare, room⟩ : ∃ spare, cap - l = spare + 1 := ⟨cap - l - 1, by omega⟩
  rw [show cap - l + l = cap by omega, room] at run
  rw [run]
  exact guarded.again ((mem_trail atL).mpr (.inr ⟨m, earlier, atM⟩))

end Guarded
end

end HeapAnalyser.Chase
