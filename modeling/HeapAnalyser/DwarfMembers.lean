import HeapAnalyser.Dwarf

/-!
What the member checks and the four validators of `glibc/dwarf.rs` accept, in
unbounded numbers. A member check leaves a range inside the structure (`WordIn`,
`ArrayIn`), and `no_overlap` leaves ranges that do not meet (`no_overlap_ok`).
Each validator's lemma is made of these.
-/
namespace HeapAnalyser.DwarfMembers
open Machine Checks Dwarf

/-- A structure has one member of a name. -/
def Single (struct : Structure) (name : String) (member : Member) : Prop :=
  (struct.members.filter fun m => m.name = name) = [member]

/-- A range, given by its start and its length, that does not meet another. -/
def Apart (left right : Nat × Nat) : Prop := left.1 + left.2 ≤ right.1 ∨ right.1 + right.2 ≤ left.1

/-- A word-aligned offset, with the word in front of the end. -/
def WordAt (word size offset : Nat) : Prop := offset % word = 0 ∧ offset + word ≤ size

/-- The range of a member. -/
def range (member : Member) : Nat × Nat := (member.offset.toNat, (member.ty.byte_size.getD 0).toNat)

/-- A structure has one member of a name, at an offset. -/
def MemberAt (struct : Structure) (name : String) (offset : Nat) : Prop :=
  ∃ member, Single struct name member ∧ member.offset.toNat = offset

/-- A member that ends below 2^64. -/
def Fits (member : Member) : Prop := (range member).1 + (range member).2 < 2 ^ 64

/-- A member that is a word of its structure. -/
structure WordIn (member : Member) (struct_size word : UInt64) : Prop where
  range_eq : range member = (member.offset.toNat, word.toNat)
  wordAt : WordAt word.toNat struct_size.toNat member.offset.toNat

/-- A member that is an array of its structure. -/
structure ArrayIn (member : Member) (struct_size width count : UInt64) : Prop where
  element_size : member.ty.element_size = some width
  element_count : member.ty.element_count = some count
  range_eq : range member = (member.offset.toNat, count.toNat * width.toNat)
  stop_le : member.offset.toNat + count.toNat * width.toNat ≤ struct_size.toNat

private theorem required_member_eq_ok {struct : Structure} {name : String} {member : Member} :
    required_member struct name = .ok member ↔ Single struct name member := by
  rw [required_member, Single]
  cases struct.members.filter fun m => m.name = name with
  | nil => simp [invalid]
  | cons first rest =>
    cases rest with
    | nil => simp
    | cons second more => simp [invalid]

private theorem field_range_ok {member : Member} {struct_size : UInt64} {done : Unit}
    (accepted : field_range member struct_size = .ok done) :
    (range member).1 + (range member).2 ≤ struct_size.toNat := by
  obtain ⟨size, isSize, accepted⟩ := bind_eq_ok.mp accepted
  obtain ⟨stop, isStop, accepted⟩ := bind_eq_ok.mp accepted
  rw [ok_or_eq_ok] at isSize isStop
  rw [refuse_eq_ok, not_or, not_or, UInt64.not_lt, UInt64.not_lt, UInt64.le_iff_toNat_le, UInt64.le_iff_toNat_le,
    checked_add_eq_some.mp isStop] at accepted
  simpa [range, isSize] using accepted.2.2

private theorem word_member_ok {member : Member} {struct_size word : UInt64} {kind : TypeKind} {reason : String}
    {done : Unit}
    (accepted : word_member member struct_size word kind reason = .ok done) : WordIn member struct_size word := by
  obtain ⟨_, inside, accepted⟩ := bind_eq_ok.mp accepted
  have inside := field_range_ok inside
  rw [refuse_eq_ok, not_or, not_or, not_not, not_not, not_not] at accepted
  obtain ⟨_, isWord, aligned⟩ := accepted
  have isRange : range member = (member.offset.toNat, word.toNat) := by rw [range, isWord, Option.getD_some]
  rw [isRange] at inside
  refine ⟨isRange, ?_, inside⟩
  rw [← UInt64.toNat_mod, aligned]
  rfl

private theorem array_ok {member : Member} {struct_size width count : UInt64} {kind : TypeKind}
    {expected_width : Option UInt64} (accepted : array member struct_size kind expected_width = .ok (width, count)) :
    ArrayIn member struct_size width count ∧ 0 < count.toNat ∧ ∀ expected ∈ expected_width, width = expected := by
  obtain ⟨_, inside, accepted⟩ := bind_eq_ok.mp accepted
  obtain ⟨_, _, accepted⟩ := bind_eq_ok.mp accepted
  obtain ⟨isWidth, width_eq, accepted⟩ := bind_eq_ok.mp accepted
  obtain ⟨isCount, count_eq, accepted⟩ := bind_eq_ok.mp accepted
  obtain ⟨_, shape, accepted⟩ := bind_eq_ok.mp accepted
  obtain ⟨bytes, product, accepted⟩ := bind_eq_ok.mp accepted
  obtain ⟨_, consistent, accepted⟩ := bind_eq_ok.mp accepted
  obtain ⟨rfl, rfl⟩ := Prod.mk.inj (Except.ok.inj accepted)
  rw [ok_or_eq_ok] at width_eq count_eq product
  rw [refuse_eq_ok] at shape consistent
  rw [not_or, not_or] at shape
  rw [not_or, not_not] at consistent
  have inside := field_range_ok inside
  have isRange : range member = (member.offset.toNat, isCount.toNat * isWidth.toNat) := by
    rw [range, consistent.2, Option.getD_some, checked_mul_eq_some.mp product, Nat.mul_comm]
  rw [isRange] at inside
  refine ⟨⟨width_eq, count_eq, isRange, inside⟩, ?_, ?_⟩
  · refine Nat.pos_of_ne_zero fun zero => shape.2.1 ?_
    exact UInt64.toNat_inj.mp zero
  · intro expected isExpected
    rw [Option.mem_def] at isExpected
    have same := shape.2.2
    rw [isExpected, Option.any_some, decide_eq_true_eq, not_not] at same
    exact same.symm

private theorem integer_array_ok {member : Member} {struct_size width count : UInt64}
    (accepted : integer_array member struct_size = .ok (width, count)) : ArrayIn member struct_size width count := by
  unfold integer_array at accepted
  split at accepted
  · exact (array_ok accepted).1
  · exact (array_ok accepted).1
  · cases accepted

private theorem no_overlap_with_ok {left : Member} {members : List Member} {done : Unit}
    (fits : ∀ member ∈ left :: members, Fits member)
    (accepted : no_overlap_with left members = .ok done) : ∀ right ∈ members, Apart (range left) (range right) := by
  induction members with
  | nil => simp
  | cons right rest ih =>
    rw [no_overlap_with] at accepted
    split at accepted
    · cases accepted
    · rename_i meets
      intro other listed
      rcases List.mem_cons.mp listed with rfl | listed
      · have left_fits := fits left (by simp)
        have right_fits := fits other (by simp)
        rw [UInt64.lt_iff_toNat_lt, UInt64.lt_iff_toNat_lt, saturating_add_toNat, saturating_add_toNat] at meets
        simp only [Fits, range, Apart] at left_fits right_fits ⊢
        omega
      · refine ih (fun member within => fits member ?_) accepted other listed
        rcases List.mem_cons.mp within with rfl | within
        · simp
        · simp [within]

/-- Members that were found not to overlap, and end below 2^64, have ranges that do not meet. -/
theorem no_overlap_ok {members : List Member} {done : Unit}
    (fits : ∀ member ∈ members, Fits member)
    (accepted : no_overlap members = .ok done) : (members.map range).Pairwise Apart := by
  induction members generalizing done with
  | nil => exact List.Pairwise.nil
  | cons left rest ih =>
    obtain ⟨_, first, accepted⟩ := bind_eq_ok.mp accepted
    have apart := no_overlap_with_ok fits first
    refine List.Pairwise.cons ?_ (ih (fun member within => fits member (by simp [within])) accepted)
    intro other listed
    obtain ⟨right, within, rfl⟩ := List.mem_map.mp listed
    exact apart right within

/-- A `malloc_state` with an array of fastbins and two words. -/
structure MallocStateIn (struct : Structure) (word size fastbins fastbin_count top next : Nat) : Prop where
  size_eq : struct.byte_size.toNat = size
  fastbins_member : ∃ member, Single struct "fastbinsY" member ∧ member.offset.toNat = fastbins ∧
    member.ty.element_count.map UInt64.toNat = some fastbin_count
  top_member : MemberAt struct "top" top
  next_member : MemberAt struct "next" next
  count_range : 1 ≤ fastbin_count ∧ fastbin_count ≤ 256
  fastbins_inside : fastbins + fastbin_count * word ≤ size
  top_word : WordAt word size top
  next_word : WordAt word size next
  apart : [(fastbins, fastbin_count * word), (top, word), (next, word)].Pairwise Apart

/-- No member of a name, or one that is a word. -/
def OptionalWord (struct : Structure) (word : Nat) (name : String) : Option Nat → Prop
  | none => (struct.members.filter fun m => m.name = name) = []
  | some offset => MemberAt struct name offset ∧ WordAt word struct.byte_size.toNat offset

/-- A `malloc_par` with a word, and two that it may have. -/
structure MallocParIn (struct : Structure) (word : Nat) (arena_max : Option Nat) (sbrk_base : Nat)
    (tcache_bins : Option Nat) : Prop where
  sbrk_base_member : MemberAt struct "sbrk_base" sbrk_base
  sbrk_base_word : WordAt word struct.byte_size.toNat sbrk_base
  arena_max_word : OptionalWord struct word "arena_max" arena_max
  tcache_bins_word : OptionalWord struct word "tcache_bins" tcache_bins

/-- A `heap_info` with four words. -/
structure HeapInfoIn (struct : Structure) (word size ar_ptr prev current_size mprotect_size : Nat) : Prop where
  size_eq : struct.byte_size.toNat = size
  words : ∀ named ∈ [("ar_ptr", ar_ptr), ("prev", prev), ("size", current_size), ("mprotect_size", mprotect_size)],
    MemberAt struct named.1 named.2 ∧ WordAt word size named.2
  apart : [(ar_ptr, word), (prev, word), (current_size, word), (mprotect_size, word)].Pairwise Apart

/-- A `tcache_perthread_struct` with two arrays of as many elements. -/
structure TcacheIn (struct : Structure) (word entries bins : Nat) : Prop where
  entries_member : ∃ member, Single struct "entries" member ∧ member.offset.toNat = entries ∧
    member.ty.element_count.map UInt64.toNat = some bins
  count_range : 1 ≤ bins ∧ bins ≤ 1024
  entries_inside : entries + bins * word ≤ struct.byte_size.toNat
  counts_apart : ∃ member width, Single struct "counts" member ∧ member.ty.element_size = some width ∧
    member.ty.element_count.map UInt64.toNat = some bins ∧
    member.offset.toNat + bins * width.toNat ≤ struct.byte_size.toNat ∧
    Apart (member.offset.toNat, bins * width.toNat) (entries, bins * word)

theorem WordIn.fits {member : Member} {struct_size word : UInt64} (inside : WordIn member struct_size word) :
    Fits member := by
  have bound := struct_size.toNat_lt
  have stop_le := inside.wordAt.2
  rw [Fits, inside.range_eq]
  exact Nat.lt_of_le_of_lt stop_le bound

theorem ArrayIn.fits {member : Member} {struct_size width count : UInt64}
    (inside : ArrayIn member struct_size width count) : Fits member := by
  have bound := struct_size.toNat_lt
  have stop_le := inside.stop_le
  rw [Fits, inside.range_eq]
  exact Nat.lt_of_le_of_lt stop_le bound

theorem validate_malloc_state_ok {struct : Structure} {word : UInt64} {layout : MallocStateLayout}
    (accepted : validate_malloc_state struct word = .ok layout) :
    MallocStateIn struct word.toNat layout.size.toNat layout.fastbins.toNat layout.fastbin_count.toNat layout.top.toNat
      layout.next.toNat := by
  obtain ⟨fastbins, fastbins_single, accepted⟩ := bind_eq_ok.mp accepted
  obtain ⟨⟨width, fastbin_count⟩, fastbins_array, accepted⟩ := bind_eq_ok.mp accepted
  obtain ⟨_, count_range, accepted⟩ := bind_eq_ok.mp accepted
  obtain ⟨top, top_single, accepted⟩ := bind_eq_ok.mp accepted
  obtain ⟨_, top_word, accepted⟩ := bind_eq_ok.mp accepted
  obtain ⟨next, next_single, accepted⟩ := bind_eq_ok.mp accepted
  obtain ⟨_, next_word, accepted⟩ := bind_eq_ok.mp accepted
  obtain ⟨_, apart, accepted⟩ := bind_eq_ok.mp accepted
  cases accepted
  rw [required_member_eq_ok] at fastbins_single top_single next_single
  obtain ⟨inside, positive, same⟩ := array_ok fastbins_array
  obtain rfl : width = word := same word rfl
  have top_word := word_member_ok top_word
  have next_word := word_member_ok next_word
  rw [refuse_eq_ok, not_or, UInt64.not_lt, UInt64.le_iff_toNat_le] at count_range
  have apart := no_overlap_ok (by simp [inside.fits, top_word.fits, next_word.fits]) apart
  simp only [List.map_cons, List.map_nil, inside.range_eq, top_word.range_eq, next_word.range_eq] at apart
  exact { size_eq := rfl
          fastbins_member := ⟨fastbins, fastbins_single, rfl, by rw [inside.element_count, Option.map_some]⟩
          top_member := ⟨top, top_single, rfl⟩
          next_member := ⟨next, next_single, rfl⟩
          count_range := ⟨positive, count_range.2⟩
          fastbins_inside := inside.stop_le
          top_word := top_word.wordAt
          next_word := next_word.wordAt
          apart := apart }

private theorem optional_word_member_ok {struct : Structure} {name : String} {word : UInt64} {offset : Option UInt64}
    (accepted : optional_word_member struct name word = .ok offset) :
    OptionalWord struct word.toNat name (offset.map UInt64.toNat) := by
  unfold optional_word_member at accepted
  split at accepted
  · rename_i absent
    cases accepted
    exact absent
  · rename_i member single
    obtain ⟨_, isWord, accepted⟩ := bind_eq_ok.mp accepted
    cases accepted
    exact ⟨⟨member, single, rfl⟩, (word_member_ok isWord).wordAt⟩
  · cases accepted

theorem validate_malloc_par_ok {struct : Structure} {word : UInt64} {layout : MallocParLayout}
    (accepted : validate_malloc_par struct word = .ok layout) :
    MallocParIn struct word.toNat (layout.arena_max.map UInt64.toNat) layout.sbrk_base.toNat
      (layout.tcache_bins.map UInt64.toNat) := by
  obtain ⟨sbrk_base, single, accepted⟩ := bind_eq_ok.mp accepted
  obtain ⟨_, isWord, accepted⟩ := bind_eq_ok.mp accepted
  obtain ⟨arena_max, arena_max_word, accepted⟩ := bind_eq_ok.mp accepted
  obtain ⟨tcache_bins, tcache_bins_word, accepted⟩ := bind_eq_ok.mp accepted
  cases accepted
  exact { sbrk_base_member := ⟨sbrk_base, required_member_eq_ok.mp single, rfl⟩
          sbrk_base_word := (word_member_ok isWord).wordAt
          arena_max_word := optional_word_member_ok arena_max_word
          tcache_bins_word := optional_word_member_ok tcache_bins_word }

theorem validate_heap_info_ok {struct : Structure} {word : UInt64} {layout : HeapInfoLayout}
    (accepted : validate_heap_info struct word = .ok layout) :
    HeapInfoIn struct word.toNat layout.size.toNat layout.ar_ptr.toNat layout.prev.toNat layout.current_size.toNat
      layout.mprotect_size.toNat := by
  obtain ⟨ar_ptr, ar_ptr_single, accepted⟩ := bind_eq_ok.mp accepted
  obtain ⟨_, ar_ptr_word, accepted⟩ := bind_eq_ok.mp accepted
  obtain ⟨prev, prev_single, accepted⟩ := bind_eq_ok.mp accepted
  obtain ⟨_, prev_word, accepted⟩ := bind_eq_ok.mp accepted
  obtain ⟨size, size_single, accepted⟩ := bind_eq_ok.mp accepted
  obtain ⟨_, size_word, accepted⟩ := bind_eq_ok.mp accepted
  obtain ⟨mprotect_size, mprotect_size_single, accepted⟩ := bind_eq_ok.mp accepted
  obtain ⟨_, mprotect_size_word, accepted⟩ := bind_eq_ok.mp accepted
  obtain ⟨_, apart, accepted⟩ := bind_eq_ok.mp accepted
  cases accepted
  rw [required_member_eq_ok] at ar_ptr_single prev_single size_single mprotect_size_single
  have ar_ptr_word := word_member_ok ar_ptr_word
  have prev_word := word_member_ok prev_word
  have size_word := word_member_ok size_word
  have mprotect_size_word := word_member_ok mprotect_size_word
  have apart := no_overlap_ok
    (by simp [ar_ptr_word.fits, prev_word.fits, size_word.fits, mprotect_size_word.fits]) apart
  simp only [List.map_cons, List.map_nil, ar_ptr_word.range_eq, prev_word.range_eq, size_word.range_eq,
    mprotect_size_word.range_eq] at apart
  refine ⟨rfl, ?_, apart⟩
  simp only [List.forall_mem_cons, List.not_mem_nil, false_implies, implies_true, and_true]
  exact ⟨⟨⟨ar_ptr, ar_ptr_single, rfl⟩, ar_ptr_word.wordAt⟩, ⟨⟨prev, prev_single, rfl⟩, prev_word.wordAt⟩,
    ⟨⟨size, size_single, rfl⟩, size_word.wordAt⟩,
    ⟨⟨mprotect_size, mprotect_size_single, rfl⟩, mprotect_size_word.wordAt⟩⟩

theorem validate_tcache_ok {struct : Structure} {word : UInt64} {layout : TcacheLayout}
    (accepted : validate_tcache struct word = .ok layout) :
    TcacheIn struct word.toNat layout.entries.toNat layout.bins.toNat := by
  obtain ⟨counts, counts_single, accepted⟩ := bind_eq_ok.mp accepted
  obtain ⟨⟨count_width, count_bins⟩, counts_array, accepted⟩ := bind_eq_ok.mp accepted
  obtain ⟨_, _, accepted⟩ := bind_eq_ok.mp accepted
  obtain ⟨entries, entries_single, accepted⟩ := bind_eq_ok.mp accepted
  obtain ⟨⟨width, entry_bins⟩, entries_array, accepted⟩ := bind_eq_ok.mp accepted
  obtain ⟨_, dimensions, accepted⟩ := bind_eq_ok.mp accepted
  obtain ⟨_, apart, accepted⟩ := bind_eq_ok.mp accepted
  cases accepted
  rw [required_member_eq_ok] at counts_single entries_single
  obtain ⟨inside, positive, same⟩ := array_ok entries_array
  obtain rfl : width = word := same word rfl
  have counts_inside := integer_array_ok counts_array
  rw [refuse_eq_ok, not_or, not_or, not_not, UInt64.not_lt, UInt64.le_iff_toNat_le] at dimensions
  obtain ⟨_, rfl, few⟩ := dimensions
  have apart := no_overlap_ok (by simp [counts_inside.fits, inside.fits]) apart
  simp only [List.map_cons, List.map_nil, counts_inside.range_eq, inside.range_eq, List.pairwise_pair] at apart
  exact { entries_member := ⟨entries, entries_single, rfl, by rw [inside.element_count, Option.map_some]⟩
          count_range := ⟨positive, few⟩
          entries_inside := inside.stop_le
          counts_apart := ⟨counts, count_width, counts_single, counts_inside.element_size,
            by rw [counts_inside.element_count, Option.map_some], counts_inside.stop_le, apart⟩ }

end HeapAnalyser.DwarfMembers
