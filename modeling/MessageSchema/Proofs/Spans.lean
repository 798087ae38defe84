import MessageSchema.Proofs.Restart

/-!
# Spans in order

Spans are in order between two offsets if each one begins where the one before
it ends or later, the first at the lower offset or later, and the last ends at
the upper offset or earlier. The relation is closed under leaving spans out and
under putting two stretches together, and the smallest span that covers ordered
spans begins with the first and ends with the last.

The tokens of a source are in order from the beginning of the source to its end.
-/

namespace MessageSchema

/-- Spans that follow one another between two offsets. -/
def InOrder (low high : Nat) : List Span → Prop
  | [] => low ≤ high
  | s :: rest => low ≤ s.start ∧ s.start ≤ s.stop ∧ InOrder s.stop high rest

namespace InOrder

variable {low middle high : Nat} {s : Span} {spans more : List Span}

/-- The offsets between which spans are in order are in order themselves. -/
theorem le (ordered : InOrder low high spans) : low ≤ high := by
  induction spans generalizing low with
  | nil => exact ordered
  | cons s rest ih =>
    obtain ⟨begins, forward, later⟩ := ordered
    have := ih later
    omega

/-- A lower offset to begin at is as good. -/
theorem lower {lower : Nat} (below : lower ≤ low) (ordered : InOrder low high spans) :
    InOrder lower high spans := by
  cases spans with
  | nil => exact Nat.le_trans below ordered
  | cons s rest => exact ⟨Nat.le_trans below ordered.1, ordered.2⟩

/-- Two stretches of spans that meet at an offset make up one. -/
theorem append (first : InOrder low middle spans) (second : InOrder middle high more) :
    InOrder low high (spans ++ more) := by
  induction spans generalizing low with
  | nil => exact second.lower first
  | cons s rest ih => exact ⟨first.1, first.2.1, ih first.2.2⟩

/-- A single span. -/
theorem singleton (begins : low ≤ s.start) (forward : s.start ≤ s.stop) (ends : s.stop ≤ high) :
    InOrder low high [s] :=
  ⟨begins, forward, ends⟩

/-- Where one stretch ends the next one may begin. -/
theorem exists_middle (ordered : InOrder low high (spans ++ more)) :
    ∃ middle, InOrder low middle spans ∧ InOrder middle high more := by
  induction spans generalizing low with
  | nil => exact ⟨low, Nat.le_refl low, ordered⟩
  | cons s rest ih =>
    obtain ⟨begins, forward, later⟩ := ordered
    obtain ⟨middle, first, second⟩ := ih later
    exact ⟨middle, ⟨begins, forward, first⟩, second⟩

/-- Spans in front of `s` end before it, and `s` itself can be taken as the
beginning of what follows. -/
theorem split (ordered : InOrder low high (spans ++ s :: more)) :
    InOrder low s.start spans ∧ InOrder s.start high (s :: more) := by
  obtain ⟨middle, first, begins, rest⟩ := ordered.exists_middle
  refine ⟨?_, Nat.le_refl _, rest⟩
  have extended : InOrder low s.start (spans ++ []) := first.append begins
  rwa [List.append_nil] at extended

/-- Each of the spans lies between the offsets, and does not end before it starts. -/
theorem bounds (ordered : InOrder low high spans) (member : s ∈ spans) :
    low ≤ s.start ∧ s.start ≤ s.stop ∧ s.stop ≤ high := by
  obtain ⟨before, after, rfl⟩ := List.append_of_mem member
  obtain ⟨first, -, forward, last⟩ := ordered.split
  exact ⟨first.le, forward, last.le⟩

/-- Each of the spans ends before any later one begins. -/
theorem pairwise (ordered : InOrder low high spans) :
    spans.Pairwise fun a b => a.stop ≤ b.start := by
  induction spans generalizing low with
  | nil => exact List.Pairwise.nil
  | cons s rest ih =>
    refine List.pairwise_cons.mpr ⟨?_, ih ordered.2.2⟩
    intro later member
    exact (ordered.2.2.bounds member).1

/-- Some of the spans, in their order, are in order between the same offsets. -/
theorem sublist (ordered : InOrder low high spans) (fewer : more.Sublist spans) :
    InOrder low high more := by
  induction fewer generalizing low with
  | slnil => exact ordered
  | cons s _ ih => exact ih (ordered.2.2.lower (Nat.le_trans ordered.1 ordered.2.1))
  | cons_cons s _ ih => exact ⟨ordered.1, ordered.2.1, ih ordered.2.2⟩

end InOrder

/-! ## Covering spans -/

namespace Span

/-- A span that begins where `s` begins or later, and ends where `s` ends or later. -/
theorem union_of_le {s t : Span} (begins : s.start ≤ t.start) (ends : s.stop ≤ t.stop) :
    s.union t = ⟨s.start, t.stop, s.line, s.column⟩ := by
  have first : ¬ t.start < s.start := by omega
  simp [union, first, ends]

/-- Covering spans behind `s` moves the end of `s` and nothing else. -/
theorem foldl_union_of_inOrder {s : Span} {rest : List Span} {high : Nat}
    (forward : s.start ≤ s.stop) (ordered : InOrder s.stop high rest) :
    (rest.foldl union s).start = s.start ∧ (rest.foldl union s).stop ≤ high
      ∧ InOrder s.stop (rest.foldl union s).stop rest := by
  induction rest generalizing s with
  | nil => exact ⟨rfl, ordered, Nat.le_refl _⟩
  | cons t more ih =>
    obtain ⟨begins, inside, later⟩ := ordered
    have joined : s.union t = ⟨s.start, t.stop, s.line, s.column⟩ :=
      union_of_le (Nat.le_trans forward begins) (Nat.le_trans begins inside)
    rw [List.foldl_cons, joined]
    obtain ⟨start, stop, covered⟩ := ih (s := ⟨s.start, t.stop, s.line, s.column⟩)
      (show s.start ≤ t.stop by omega) later
    exact ⟨start, stop, begins, inside, covered⟩

/-- A span contains another one that starts no earlier and stops no later. -/
theorem contains_iff {s t : Span} :
    s.contains t = true ↔ s.start ≤ t.start ∧ t.stop ≤ s.stop := by
  simp [contains]

/-- What is contained in a contained span is contained. -/
theorem contains_trans {a b c : Span} (outer : a.contains b = true)
    (inner : b.contains c = true) : a.contains c = true := by
  rw [contains_iff] at *
  omega

/-- The place at the start of a contained span is contained, if that span is not turned
round. -/
theorem contains_emptyAtStart {s t : Span} (within : s.contains t = true)
    (forward : t.start ≤ t.stop) : s.contains t.emptyAtStart = true := by
  rw [contains_iff] at within ⊢
  simp only [emptyAtStart]
  omega

/-- What covers spans inside `s` is inside `s`. -/
theorem contains_foldl_union {s t : Span} {rest : List Span} (first : s.contains t = true)
    (others : ∀ u ∈ rest, s.contains u = true) : s.contains (rest.foldl union t) = true := by
  induction rest generalizing t with
  | nil => exact first
  | cons u more ih =>
    rw [List.foldl_cons]
    refine ih ?_ fun v member => others v (List.mem_cons_of_mem u member)
    have second := contains_iff.mp (others u List.mem_cons_self)
    rw [contains_iff] at first ⊢
    simp only [union]
    split <;> omega

end Span

/-! ## The tokens of a source -/

/-- Characters never take the offset back. -/
theorem Position.offset_le_advanceAll (p : Position) (text : List Char) :
    p.offset ≤ (p.advanceAll text).offset := by
  rw [(Shift.advanceAll_offset_line p text).1]
  omega

/-- The tokens of a text are in order from where its reading begins to where it ends. -/
theorem inOrder_tokensFrom (p : Position) (text : List Char) :
    InOrder p.offset (p.advanceAll text).offset ((tokensFrom p text).map Token.span) := by
  fun_induction tokensFrom p text with
  | case1 p => exact .singleton (Nat.le_refl _) (Nat.le_refl _) (Nat.le_refl _)
  | case2 p c rest reading _ ih =>
    rw [← Reading.read_lexeme c rest, Position.advanceAll_append]
    exact ⟨Nat.le_refl _, p.offset_le_advanceAll _, ih⟩

end MessageSchema
