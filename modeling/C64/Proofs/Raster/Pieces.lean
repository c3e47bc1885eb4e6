import Mathlib.Algebra.GroupWithZero.Nat
import C64.Proofs.Raster.Exact

/-!
# Filling piece by piece

A range may be cut into consecutive pieces (`cut`), and the pieces filled one after another in any
order (`fillPieces`). What matters is which columns have been filled so far: those hold their bytes,
and the damage is their hull, or checked the hull of those that had held another (`Painted`). A
piece adds its columns (`Painted.piece`), so that the order does not show in the end, and the
columns of all pieces are those of the range (`mem_cut`).
-/

namespace C64

theorem Bytes.byteAt_congr {n : Nat} {a b : Bytes n} {x : Nat}
    (same : ∀ inside : x < n, a.get ⟨x, inside⟩ = b.get ⟨x, inside⟩) : a.byteAt x = b.byteAt x := by
  unfold byteAt
  split
  · exact same _
  · rfl

namespace Raster

/-! ## Pieces of a range -/

/-- The columns from `start` to before `stop`. -/
structure Piece where
  start : Nat
  stop : Nat
deriving DecidableEq

/-- The column lies in the piece. -/
def Piece.Has (p : Piece) (x : Nat) : Prop := p.start ≤ x ∧ x < p.stop

/-- Consecutive pieces of so many columns each, from `start` on. -/
def cut (start : Nat) : List Nat → List Piece
  | [] => []
  | width :: rest => ⟨start, start + width⟩ :: cut (start + width) rest

theorem mem_cut {start x : Nat} {widths : List Nat} :
    (∃ p ∈ cut start widths, p.Has x) ↔ start ≤ x ∧ x < start + widths.sum := by
  induction widths generalizing start with
  | nil =>
    refine iff_of_false (fun ⟨_, mem, _⟩ => List.not_mem_nil mem) fun inside => ?_
    exact absurd inside (by simp)
  | cons width rest ih =>
    have first : Piece.Has ⟨start, start + width⟩ x ↔ start ≤ x ∧ x < start + width := Iff.rfl
    simp only [cut, List.mem_cons, exists_eq_or_imp, ih, first, List.sum_cons]
    omega

/-- A piece, empty or not, lies in the range. -/
theorem within_of_mem_cut {start : Nat} {widths : List Nat} {p : Piece}
    (mem : p ∈ cut start widths) :
    start ≤ p.start ∧ p.start ≤ p.stop ∧ p.stop ≤ start + widths.sum := by
  induction widths generalizing start with
  | nil => exact absurd mem List.not_mem_nil
  | cons width rest ih =>
    simp only [cut, List.mem_cons] at mem
    rw [List.sum_cons]
    rcases mem with rfl | mem
    · simp only []
      omega
    · have := ih mem
      omega

/-- So many bytes of the run, from byte `k` on. -/
def Run.slice (run : Run) (k count : Nat) : Run := ⟨count, fun i => run.byte (k + i)⟩

variable {n : Nat}

/-- Fills a piece of the range from `base` on with its part of the run, and lets the accumulator
cover what is reported. -/
def fillPiece (base : Nat) (unchecked : Bool) (run : Run) (state : Bytes n × Damage) (p : Piece) :
    Except Fault (Bytes n × Damage) := do
  let (line, damage) ← fillFrom state.1 p.start p.stop unchecked
    (run.slice (p.start - base) (p.stop - p.start))
  return (line, state.2.merge damage)

/-- Fills the pieces in the order they are given in. -/
def fillPieces (base : Nat) (unchecked : Bool) (run : Run) (pieces : List Piece)
    (state : Bytes n × Damage) : Except Fault (Bytes n × Damage) :=
  pieces.foldlM (fillPiece base unchecked run) state

/-! ## The columns that have been filled -/

/-- Some columns of the old line have taken their bytes, and the damage tells which, or checked
which of them that changed. -/
structure Painted (unchecked : Bool) (old : Bytes n) (byte : Nat → UInt8) (S : Nat → Prop)
    (line : Bytes n) (d : Damage) : Prop where
  filled : ∀ x : Fin n, S x.val → line.get x = byte x.val
  kept : ∀ x : Fin n, ¬S x.val → line.get x = old.get x
  damage : d.IsHull fun x => S x ∧ (unchecked = false → Differs old line x)

variable {unchecked : Bool} {old line line' : Bytes n} {byte : Nat → UInt8} {S S' : Nat → Prop}
  {d e : Damage}

theorem Painted.start (unchecked : Bool) (line : Bytes n) (byte : Nat → UInt8) :
    Painted unchecked line byte (fun _ => False) line none :=
  ⟨nofun, fun _ _ => rfl, fun _ painted => painted.1⟩

theorem Painted.congr (h : Painted unchecked old byte S line d) (same : ∀ x, S x ↔ S' x) :
    Painted unchecked old byte S' line d := by
  obtain rfl : S = S' := funext fun x => propext (same x)
  exact h

/-- The columns decide the line and the damage. -/
theorem Painted.unique (h : Painted unchecked old byte S line d)
    (h' : Painted unchecked old byte S line' e) : line = line' ∧ d = e := by
  obtain rfl : line = line' := by
    ext x : 1
    by_cases painted : S x.val
    · rw [h.filled x painted, h'.filled x painted]
    · rw [h.kept x painted, h'.kept x painted]
  exact ⟨rfl, h.damage.unique h'.damage⟩

/-- A fill adds its columns, whether or not some of them had been filled before. -/
theorem Painted.fillWith (h : Painted unchecked old byte S line d) {start stop : Nat}
    (inside : stop ≤ n) (value : Nat → UInt8)
    (bytes : ∀ i, start + i < stop → value i = byte (start + i)) :
    ∃ line' e, fillWith line start stop unchecked value = .ok (line', e) ∧
      Painted unchecked old byte (fun x => S x ∨ Piece.Has ⟨start, stop⟩ x) line' (d.merge e) := by
  obtain ⟨e, ok, checked, whole⟩ := fillWith_exact line start inside unchecked value
  let line' := Raster.filled line start stop value
  have here {x : Fin n} (has : Piece.Has ⟨start, stop⟩ x.val) : line'.get x = byte x.val := by
    obtain ⟨behind, before⟩ : start ≤ x.val ∧ x.val < stop := has
    rw [get_filled, if_pos ⟨behind, before⟩, bytes _ (by omega), Nat.add_sub_cancel' behind]
  have elsewhere {x : Fin n} (outside : ¬Piece.Has ⟨start, stop⟩ x.val) :
      line'.get x = line.get x :=
    (get_filled line start stop value x).trans (if_neg outside)
  have filled : ∀ x : Fin n, S x.val ∨ Piece.Has ⟨start, stop⟩ x.val →
      line'.get x = byte x.val := by
    intro x painted
    by_cases has : Piece.Has ⟨start, stop⟩ x.val
    · exact here has
    · rw [elsewhere has, h.filled x (painted.resolve_right has)]
  refine ⟨line', e, ok, filled, fun x unpainted => ?_, ?_⟩
  · obtain ⟨before, now⟩ := not_or.mp unpainted
    rw [elsewhere now, h.kept x before]
  cases unchecked with
  | true =>
    refine (h.damage.merge (whole rfl)).congr fun x => ?_
    simp only [Bool.true_eq_false, false_imp_iff, and_true]
    rfl
  | false =>
    refine (h.damage.merge (checked rfl)).congr fun x => ?_
    show S x ∧ (_ → line.byteAt x ≠ old.byteAt x) ∨ line'.byteAt x ≠ line.byteAt x ↔
      (S x ∨ Piece.Has ⟨start, stop⟩ x) ∧ (_ → line'.byteAt x ≠ old.byteAt x)
    by_cases painted : S x
    · -- The column has its byte already.
      have same : line'.byteAt x = line.byteAt x := Bytes.byteAt_congr fun inside =>
        (filled ⟨x, inside⟩ (.inl painted)).trans (h.filled ⟨x, inside⟩ painted).symm
      simp [same, painted]
    · have old' : line.byteAt x = old.byteAt x :=
        Bytes.byteAt_congr fun inside => h.kept ⟨x, inside⟩ painted
      by_cases has : Piece.Has ⟨start, stop⟩ x
      · simp [old', painted, has]
      · have same : line'.byteAt x = line.byteAt x :=
          Bytes.byteAt_congr fun inside => @elsewhere ⟨x, inside⟩ has
        simp [same, painted, has]

variable {run : Run} {base : Nat}

/-- A piece is filled with its part of the run. -/
theorem Painted.piece (h : Painted unchecked old (fun x => run.byte (x - base)) S line d)
    (acc : Damage) {p : Piece} (behind : base ≤ p.start) (inside : p.stop ≤ n) :
    ∃ line' d', fillPiece base unchecked run (line, acc.merge d) p = .ok (line', acc.merge d') ∧
      Painted unchecked old (fun x => run.byte (x - base)) (fun x => S x ∨ p.Has x) line' d' := by
  have bytes : ∀ i, p.start + i < p.stop →
      (run.slice (p.start - base) (p.stop - p.start)).byte i = run.byte (p.start + i - base) :=
    fun i _ => congrArg run.byte (by omega)
  obtain ⟨line', e, ok, painted⟩ := h.fillWith inside _ bytes
  have long : ¬(run.slice (p.start - base) (p.stop - p.start)).length < p.stop - p.start :=
    Nat.lt_irrefl _
  refine ⟨line', d.merge e, ?_, painted⟩
  unfold fillPiece fillFrom
  rw [if_neg long, ok, ← Damage.merge_assoc]
  rfl

/-- Pieces add their columns one after another. -/
theorem Painted.pieces (h : Painted unchecked old (fun x => run.byte (x - base)) S line d)
    (acc : Damage) {pieces : List Piece}
    (within : ∀ p ∈ pieces, base ≤ p.start ∧ p.stop ≤ n) :
    ∃ line' d', fillPieces base unchecked run pieces (line, acc.merge d) =
        .ok (line', acc.merge d') ∧
      Painted unchecked old (fun x => run.byte (x - base)) (fun x => S x ∨ ∃ p ∈ pieces, p.Has x)
        line' d' := by
  induction pieces generalizing line d S with
  | nil => exact ⟨line, d, rfl, h.congr fun x => by simp⟩
  | cons p rest ih =>
    obtain ⟨behind, inside⟩ := within p (.head rest)
    obtain ⟨line₁, d₁, first, painted⟩ := h.piece acc behind inside
    obtain ⟨line', d', others, painted'⟩ := ih painted fun q mem => within q (.tail p mem)
    refine ⟨line', d', ?_, painted'.congr fun x => ?_⟩
    · unfold fillPieces
      rw [List.foldlM_cons, first]
      exact others
    · simp only [List.mem_cons, exists_eq_or_imp, or_assoc]

/-! ## The order of the pieces -/

/-- A range of the line is cut into consecutive pieces, as many as there may be and empty ones among
them, and the pieces are filled in any order with their parts of a run, on one accumulator. In the
end line and accumulator are those of one fill of the whole range, which succeeds. -/
theorem pieces_fill_whole (line : Bytes n) (acc : Damage) (unchecked : Bool) (run : Run)
    {start stop : Nat} (inside : stop ≤ n) (enough : stop - start ≤ run.length)
    {widths : List Nat} (whole : start + widths.sum = stop) {order : List Piece}
    (perm : order.Perm (cut start widths)) :
    ∃ line' damage, fillFrom line start stop unchecked run = .ok (line', damage) ∧
      fillPieces start unchecked run order (line, acc) = .ok (line', acc.merge damage) := by
  have blank := Painted.start unchecked line fun x => run.byte (x - start)
  have long : ¬run.length < stop - start := Nat.not_lt.mpr enough
  have bytes : ∀ i, start + i < stop → run.byte i = run.byte (start + i - start) :=
    fun i _ => congrArg run.byte (by omega)
  have within : ∀ p ∈ order, start ≤ p.start ∧ p.stop ≤ n := fun p mem => by
    have := within_of_mem_cut (perm.mem_iff.mp mem)
    omega
  obtain ⟨line', damage, ok, painted⟩ := blank.fillWith inside run.byte bytes
  rw [Damage.none_merge] at painted
  obtain ⟨line'', damage', pieces, painted'⟩ := blank.pieces acc within
  -- Both have filled the columns of the range, and no others.
  have same : ∀ x, (False ∨ ∃ p ∈ order, p.Has x) ↔ False ∨ Piece.Has ⟨start, stop⟩ x := by
    intro x
    simp only [perm.mem_iff, mem_cut, whole]
    rfl
  obtain ⟨rfl, rfl⟩ := (painted'.congr same).unique painted
  refine ⟨_, _, ?_, pieces⟩
  unfold fillFrom
  rw [if_neg long, ok]

/-- Columns one to five in four pieces, the last first and one of them empty. The piece in the
middle is clean, the accumulator covers column zero, and the end is that of one fill. -/
theorem pieces_fill_whole_shuffled :
    let line := Bytes.ofList [0, 1, 1, 1, 1, 1, 1]
    let run := Run.ofList [1, 2, 1, 3, 1]
    let order : List Piece := [⟨4, 6⟩, ⟨3, 3⟩, ⟨1, 3⟩, ⟨3, 4⟩]
    6 ≤ 7 ∧ 6 - 1 ≤ run.length ∧ 1 + [2, 0, 1, 2].sum = 6 ∧ order.Perm (cut 1 [2, 0, 1, 2]) ∧
      ∃ line', fillFrom line 1 6 false run = .ok (line', some ⟨2, 4, by decide⟩) ∧
        line'.toList = [0, 1, 2, 1, 3, 1, 1] ∧
        fillPieces 1 false run order (line, some ⟨0, 0, Nat.le_refl 0⟩) =
          .ok (line', some ⟨0, 4, by decide⟩) := by
  intro line run order
  have perm : order.Perm (cut 1 [2, 0, 1, 2]) := by decide
  obtain ⟨line', damage, once, pieces⟩ := pieces_fill_whole line (some ⟨0, 0, Nat.le_refl 0⟩) false
    run (by decide : 6 ≤ 7) (by decide : 6 - 1 ≤ run.length) (by decide : 1 + [2, 0, 1, 2].sum = 6)
    perm
  have runs : fillFrom line 1 6 false run =
      .ok (Bytes.ofList [0, 1, 2, 1, 3, 1, 1], some ⟨2, 4, by decide⟩) := by rfl
  cases once.symm.trans runs
  exact ⟨by decide, by decide, by decide, perm, _, runs, rfl, pieces⟩

end Raster

end C64
