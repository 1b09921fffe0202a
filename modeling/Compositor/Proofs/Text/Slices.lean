/-
# Slices of a text

A slice is a stretch between two boundaries, so a text with a slice is a
text in three parts: what stands before the slice, the slice, and what
stands after it. Positions in bytes determine the parts. Everything about
slices goes through this form: what a slice reads, what is left when the
slice is replaced, and where a later slice is then.

Key theorems: `slice?_eq_some_iff`, `substitute_append`, `slice?_after`,
`slice?_behind`, `exists_cut_of_append_eq`.
-/
import Compositor.Text.Bytes

namespace Compositor.Text

/-! ### Cuts -/

theorem size_pos (c : Char) (s : List Char) : 0 < size (c :: s) := by
  have := c.utf8Size_pos
  unfold size
  omega

theorem size_eq_zero_iff {s : List Char} : size s = 0 ↔ s = [] := by
  cases s with
  | nil => simp [size]
  | cons c s =>
    have := size_pos c s
    simp only [reduceCtorEq, iff_false]
    omega

/-- A text cut at the end of its first part falls into its parts. -/
theorem cut_size_append (u v : List Char) : cut (u ++ v) (size u) = (u, v) := by
  induction u with
  | nil =>
    cases v with
    | nil => rfl
    | cons c v =>
      have := c.utf8Size_pos
      rw [List.nil_append, size, cut, if_neg (by omega)]
  | cons c u ih =>
    rw [List.cons_append, size, cut, if_pos (by omega), Nat.add_sub_cancel_left, ih]

/-- A cut beyond the end leaves nothing after it. -/
theorem cut_of_size_le {s : List Char} {n : Nat} (h : size s ≤ n) : cut s n = (s, []) := by
  induction s generalizing n with
  | nil => rfl
  | cons c s ih =>
    rw [size] at h
    rw [cut, if_pos (by omega), ih (by omega)]

theorem isBoundary_iff {s : List Char} {n : Nat} :
    isBoundary s n = true ↔ ∃ u v, s = u ++ v ∧ size u = n := by
  constructor
  · intro h
    exact ⟨(cut s n).1, (cut s n).2, (cut_append s n).symm, by simpa [isBoundary] using h⟩
  · rintro ⟨u, v, rfl, rfl⟩
    simp [isBoundary, cut_size_append]

/-- Of two ways to part a text, the one that parts it later takes a stretch
more into the first part. -/
theorem exists_of_append_eq {u v u' v' : List Char} (h : u ++ v = u' ++ v')
    (hle : size u ≤ size u') : ∃ m, u' = u ++ m ∧ v = m ++ v' := by
  rcases List.append_eq_append_iff.mp h with ⟨m, rfl, rfl⟩ | ⟨m, rfl, rfl⟩
  · exact ⟨m, rfl, rfl⟩
  · rw [size_append] at hle
    have hm : m = [] := size_eq_zero_iff.mp (by omega)
    subst hm
    exact ⟨[], by simp, by simp⟩

/-! ### Slices -/

/-- A slice is the middle one of three parts of the text. -/
theorem slice?_eq_some_iff {s x : List Char} {start stop : Nat} :
    slice? s start stop = some x ↔
      ∃ u v, s = u ++ x ++ v ∧ size u = start ∧ size (u ++ x) = stop := by
  constructor
  · intro h
    unfold slice? at h
    split at h
    · rename_i hb
      rw [Bool.and_eq_true, Bool.and_eq_true, decide_eq_true_eq] at hb
      obtain ⟨⟨hle, hstart⟩, hstop⟩ := hb
      obtain ⟨u, w, rfl, rfl⟩ := isBoundary_iff.mp hstart
      obtain ⟨u', v, hs, rfl⟩ := isBoundary_iff.mp hstop
      obtain ⟨m, rfl, rfl⟩ := exists_of_append_eq hs hle
      rw [cut_size_append, size_append, Nat.add_sub_cancel_left, cut_size_append] at h
      cases h
      exact ⟨u, v, hs, rfl, rfl⟩
    · cases h
  · rintro ⟨u, v, rfl, rfl, rfl⟩
    have hstart : isBoundary (u ++ x ++ v) (size u) = true :=
      isBoundary_iff.mpr ⟨u, x ++ v, List.append_assoc u x v, rfl⟩
    have hstop : isBoundary (u ++ x ++ v) (size (u ++ x)) = true :=
      isBoundary_iff.mpr ⟨u ++ x, v, rfl, rfl⟩
    have hle : size u ≤ size (u ++ x) := by rw [size_append]; omega
    unfold slice?
    rw [if_pos (by rw [decide_eq_true hle, hstart, hstop]; rfl), List.append_assoc,
      cut_size_append, size_append, Nat.add_sub_cancel_left, cut_size_append]

theorem le_of_slice? {s x : List Char} {start stop : Nat} (h : slice? s start stop = some x) :
    start ≤ stop := by
  obtain ⟨u, v, rfl, rfl, rfl⟩ := slice?_eq_some_iff.mp h
  rw [size_append]
  omega

/-- A slice that is not empty ends after it starts. -/
theorem lt_of_slice? {s x : List Char} {start stop : Nat} (h : slice? s start stop = some x)
    (hx : x ≠ []) : start < stop := by
  obtain ⟨u, v, rfl, rfl, rfl⟩ := slice?_eq_some_iff.mp h
  have := mt size_eq_zero_iff.mp hx
  rw [size_append]
  omega

/-- A slice replaced: the parts around it stay. -/
theorem substitute_append (u x v new : List Char) :
    substitute (u ++ x ++ v) (size u) (size (u ++ x)) new = u ++ new ++ v := by
  have hfront : cut (u ++ x ++ v) (size u) = (u, x ++ v) := by
    rw [List.append_assoc, cut_size_append]
  simp only [substitute, hfront, cut_size_append]

/-- A slice after a position is a slice of the text from there on. -/
theorem slice?_after {u v y : List Char} {start stop : Nat}
    (h : slice? (u ++ v) start stop = some y) (hle : size u ≤ start) :
    slice? v (start - size u) (stop - size u) = some y := by
  obtain ⟨u', v', hs, rfl, rfl⟩ := slice?_eq_some_iff.mp h
  rw [List.append_assoc] at hs
  obtain ⟨m, rfl, rfl⟩ := exists_of_append_eq hs hle
  refine slice?_eq_some_iff.mpr ⟨m, v', by simp, ?_, ?_⟩
  · rw [size_append]
    omega
  · simp only [size_append]
    omega

/-- A slice of a text is one of any longer text, moved by what is put before. -/
theorem slice?_behind {v y : List Char} {start stop : Nat} (h : slice? v start stop = some y)
    (u : List Char) : slice? (u ++ v) (start + size u) (stop + size u) = some y := by
  obtain ⟨m, v', rfl, rfl, rfl⟩ := slice?_eq_some_iff.mp h
  refine slice?_eq_some_iff.mpr ⟨u ++ m, v', by simp, ?_, ?_⟩
  · rw [size_append]
    omega
  · simp only [size_append]
    omega

/-- A slice that ends within the first part of a text is a slice of this part. -/
theorem slice?_within {u v y : List Char} {start stop : Nat}
    (h : slice? (u ++ v) start stop = some y) (hle : stop ≤ size u) :
    slice? u start stop = some y := by
  obtain ⟨u', v', hs, rfl, rfl⟩ := slice?_eq_some_iff.mp h
  obtain ⟨m, rfl, -⟩ := exists_of_append_eq hs.symm hle
  exact slice?_eq_some_iff.mpr ⟨u', m, rfl, rfl, rfl⟩

/-- A slice of a text is one of any longer text that begins with it. -/
theorem slice?_append {u y : List Char} {start stop : Nat} (h : slice? u start stop = some y)
    (v : List Char) : slice? (u ++ v) start stop = some y := by
  obtain ⟨u', m, rfl, rfl, rfl⟩ := slice?_eq_some_iff.mp h
  exact slice?_eq_some_iff.mpr ⟨u', m ++ v, by simp only [List.append_assoc], rfl, rfl⟩

/-! ### Positions in a text that begins another one -/

/-- A text that begins another one, cut where a part of that one ends: there
the cut is at a boundary, or at the end, and the part goes on behind it. -/
theorem exists_cut_of_append_eq {s t u v : List Char} (h : s ++ t = u ++ v) :
    ∃ front back u' v', cut s (size u) = (front, back) ∧ s = front ++ back ∧
      size front = min (size u) (size s) ∧ t = u' ++ v' ∧ size u' = size u - size s := by
  by_cases hle : size s ≤ size u
  · obtain ⟨m, rfl, rfl⟩ := exists_of_append_eq h hle
    refine ⟨s, [], m, v, cut_of_size_le hle, (List.append_nil s).symm, ?_, rfl, ?_⟩
    · omega
    · rw [size_append, Nat.add_sub_cancel_left]
  · obtain ⟨m, rfl, rfl⟩ := exists_of_append_eq h.symm (by omega)
    refine ⟨u, m, [], t, cut_size_append u m, rfl, ?_, rfl, ?_⟩
    · omega
    · rw [Nat.sub_eq_zero_of_le (by omega)]
      rfl

/-- The slice before a clamped position. -/
theorem slice?_clamped_front {s t u v : List Char} (h : s ++ t = u ++ v) :
    slice? s 0 (min (size u) (size s)) = some (cut s (size u)).1 := by
  obtain ⟨front, back, -, -, hcut, rfl, hsize, -⟩ := exists_cut_of_append_eq h
  rw [hcut, ← hsize]
  exact slice?_eq_some_iff.mpr ⟨[], back, rfl, rfl, rfl⟩

/-- The slice behind a clamped position. -/
theorem slice?_clamped_back {s t u v : List Char} (h : s ++ t = u ++ v) :
    slice? s (min (size u) (size s)) (size s) = some (cut s (size u)).2 := by
  obtain ⟨front, back, -, -, hcut, rfl, hsize, -⟩ := exists_cut_of_append_eq h
  rw [hcut, ← hsize]
  exact slice?_eq_some_iff.mpr ⟨front, [], (List.append_nil _).symm, rfl, rfl⟩

end Compositor.Text
