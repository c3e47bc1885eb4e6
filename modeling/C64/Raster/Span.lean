import C64.Fault

/-!
# Spans

The part of a line that changed is kept as one range of columns, from the first change to the
last.
-/

namespace C64.Raster

/-- The number of different machine words. Columns, and numbers of columns, are machine words. -/
def wordLimit : Nat := 0x10000000000000000

/-- A range of columns, both ends included. -/
structure Span where
  first : Nat
  last : Nat
  first_le_last : first ≤ last
deriving DecidableEq

namespace Span

/-- The span between two columns; they must be in order. -/
def between (first last : Nat) : Except Fault Span :=
  if h : first ≤ last then .ok ⟨first, last, h⟩ else .error (.invertedSpan first last)

/-- The number of columns. -/
def length (s : Span) : Nat := s.last - s.first + 1

/-- The number of columns, as far as a machine word can hold it. -/
def size (s : Span) : Except Fault Nat :=
  if s.length < wordLimit then .ok s.length else .error .overflow

/-- Whether a column lies in the span. -/
def contains (s : Span) (x : Nat) : Bool := s.first ≤ x && x ≤ s.last

/-- The smallest span that covers two. -/
def union (s t : Span) : Span where
  first := min s.first t.first
  last := max s.last t.last
  first_le_last := by
    have := s.first_le_last
    omega

@[simp] theorem contains_iff (s : Span) (x : Nat) : s.contains x ↔ s.first ≤ x ∧ x ≤ s.last := by
  simp [contains]

theorem contains_union_left {s : Span} (t : Span) {x : Nat} (h : s.contains x) :
    (s.union t).contains x := by
  rw [contains_iff] at h ⊢
  simp only [union]
  omega

theorem contains_union_right (s : Span) {t : Span} {x : Nat} (h : t.contains x) :
    (s.union t).contains x := by
  rw [contains_iff] at h ⊢
  simp only [union]
  omega

theorem length_pos (s : Span) : 0 < s.length := Nat.succ_pos _

/-- Only the span of all the columns that machine words can name has no size. -/
theorem size_eq_error_iff {s : Span} (h : s.last < wordLimit) :
    s.size = .error .overflow ↔ s.first = 0 ∧ s.last = wordLimit - 1 := by
  have := s.first_le_last
  simp only [size, length, wordLimit] at *
  by_cases hl : s.last - s.first + 1 < 0x10000000000000000
  · simp only [hl, ↓reduceIte, reduceCtorEq, false_iff]
    omega
  · simp only [hl, ↓reduceIte, true_iff]
    omega

theorem union_comm (s t : Span) : s.union t = t.union s := by
  simp [union, Nat.min_comm, Nat.max_comm]

theorem union_assoc (s t u : Span) : (s.union t).union u = s.union (t.union u) := by
  simp [union, Nat.min_assoc, Nat.max_assoc]

end Span

/-- What changed on a line: nothing, or a span of columns. -/
abbrev Damage := Option Span

namespace Damage

/-- Damage that covers a span as well. -/
def cover (d : Damage) (s : Span) : Damage :=
  match d with
  | some t => some (t.union s)
  | none => some s

/-- Damage that covers what two of them do. -/
def merge (d e : Damage) : Damage :=
  match e with
  | some s => d.cover s
  | none => d

/-- Damage that covers a column as well. -/
def coverColumn (d : Damage) (x : Nat) : Damage := d.cover ⟨x, x, Nat.le_refl x⟩

/-- The damage of all columns from `start` to before `stop`. -/
def whole (start stop : Nat) : Damage :=
  if h : start < stop then some ⟨start, stop - 1, by omega⟩ else none

@[simp] theorem merge_none (d : Damage) : d.merge none = d := rfl

@[simp] theorem none_merge (d : Damage) : merge none d = d := by cases d <;> rfl

theorem merge_comm (d e : Damage) : d.merge e = e.merge d := by
  cases d <;> cases e <;> simp [merge, cover, Span.union_comm]

theorem merge_assoc (d e f : Damage) : (d.merge e).merge f = d.merge (e.merge f) := by
  cases d <;> cases e <;> cases f <;> simp [merge, cover, Span.union_assoc]

end Damage

end C64.Raster
