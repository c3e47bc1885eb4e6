import C64.Proofs.Raster.Tight

/-!
# What a fill does, exactly

The three fills differ in where a column takes its byte from (`Filling.value`), and in what that
needs (`Filling.Supplies`). Otherwise they are one: the columns of the range take their bytes and no
other column changes; checked, a fill reports the hull of what it changed, and unchecked the whole
range; an accumulator goes on to cover what it covered and what was reported, and no column between
them that it could leave out (`Filling.into_exact`). What was filled once is filled: the same again,
checked, reports nothing.
-/

namespace C64.Raster

variable {n : Nat} {d e : Damage} {P : Nat → Prop}

/-! ## Hulls -/

/-- Some columns have one hull only. -/
theorem Damage.IsHull.unique (h : d.IsHull P) (h' : e.IsHull P) : d = e := by
  cases d with
  | none => exact (h'.eq_none h).symm
  | some s =>
    cases e with
    | none => exact absurd h.1 (h' s.first)
    | some t =>
      obtain ⟨first, last, all⟩ := h
      obtain ⟨first', last', all'⟩ := h'
      have inFirst := (t.contains_iff _).mp (all' _ first)
      have inLast := (t.contains_iff _).mp (all' _ last)
      have inFirst' := (s.contains_iff _).mp (all _ first')
      have inLast' := (s.contains_iff _).mp (all _ last')
      have same : s.first = t.first ∧ s.last = t.last := by omega
      rw [Option.some.injEq, Span.mk.injEq]
      exact same

/-- Damage is the hull of the columns that it covers. -/
theorem Damage.isHull_covers (d : Damage) : d.IsHull d.Covers := by
  cases d with
  | none => exact fun x ⟨s, nothing, _⟩ => absurd nothing nofun
  | some s =>
    have order := s.first_le_last
    have ends : s.contains s.first = true ∧ s.contains s.last = true := by
      simp only [Span.contains_iff]
      omega
    refine ⟨⟨s, rfl, ends.1⟩, ⟨s, rfl, ends.2⟩, ?_⟩
    rintro x ⟨t, same, inside⟩
    cases same
    exact inside

theorem Damage.isHull_whole (start stop : Nat) :
    (Damage.whole start stop).IsHull fun x => start ≤ x ∧ x < stop := by
  unfold Damage.whole
  split
  · refine ⟨by simp only []; omega, by simp only []; omega, fun x inside => ?_⟩
    rw [Span.contains_iff]
    simp only []
    omega
  · exact fun x inside => by omega

/-! ## Three fills in one -/

/-- A fill, by what the columns take their bytes from. -/
inductive Filling where
  | const (v : UInt8)
  | indexed {m : Nat} (source : Bytes m) (x : Indexing)
  | copy (run : Run)

namespace Filling

/-- The byte for column `i` of the range. -/
def value : Filling → Nat → UInt8
  | const v => fun _ => v
  | indexed source x => fun i => source.byteAt (x.index i)
  | copy run => run.byte

/-- There is a byte for each of so many columns: the mask stays inside the source and no index
leaves its word, or the run is long enough. -/
def Supplies (count : Nat) : Filling → Prop
  | const _ => True
  | @indexed m _ x => x.mask < m ∧ ∀ i < count, x.base + i * x.stride < wordLimit
  | copy run => count ≤ run.length

/-- Fills columns of a line, and answers what changed. -/
def fill (line : Bytes n) (start stop : Nat) (unchecked : Bool) :
    Filling → Except Fault (Bytes n × Damage)
  | const v => fillConst line start stop unchecked v
  | indexed source x => fillIndexed line start stop unchecked source x
  | copy run => fillFrom line start stop unchecked run

/-- The same with an accumulator, which covers what is answered as well. -/
def into (f : Filling) (line : Bytes n) (acc : Damage) (start stop : Nat) (unchecked : Bool) :
    Except Fault (Bytes n × Damage × Damage) := do
  let (line, damage) ← f.fill line start stop unchecked
  return (line, damage, acc.merge damage)

variable {f : Filling} {start stop : Nat}

/-- With a byte for every column, no fill has anything else to object to than the range. -/
theorem fill_eq (line : Bytes n) (enough : f.Supplies (stop - start)) (unchecked : Bool) :
    f.fill line start stop unchecked = fillWith line start stop unchecked f.value := by
  cases f with
  | const v => rfl
  | @indexed m source x =>
    obtain ⟨mask, words⟩ := enough
    have fits : ¬(start < stop ∧ stop ≤ n ∧
        wordLimit ≤ x.base + (stop - start - 1) * x.stride) := fun ⟨any, _, leaves⟩ =>
      Nat.not_lt.mpr leaves (words (stop - start - 1) (by omega))
    simp only [fill, fillIndexed, if_neg (Nat.not_le.mpr mask), if_neg fits]
    rfl
  | copy run =>
    have long : ¬run.length < stop - start := Nat.not_lt.mpr enough
    simp only [fill, fillFrom, if_neg long]
    rfl

end Filling

/-! ## One fill -/

theorem fillWith_exact (line : Bytes n) (start : Nat) {stop : Nat} (inside : stop ≤ n)
    (unchecked : Bool) (value : Nat → UInt8) :
    ∃ damage, fillWith line start stop unchecked value =
        .ok (filled line start stop value, damage) ∧
      (unchecked = false → damage.IsHull (Differs line (filled line start stop value))) ∧
      (unchecked = true → damage.IsHull fun x => start ≤ x ∧ x < stop) := by
  obtain ⟨damage, fills⟩ := @fillWith_fills _ line start _ unchecked value inside
  refine ⟨damage, fills.eq_ok, ?_⟩
  obtain order | empty := Nat.le_total start stop
  · obtain ⟨-, reported⟩ := fillWith_ok fills.eq_ok order
    cases unchecked with
    | true => exact ⟨nofun, fun _ => reported ▸ Damage.isHull_whole start stop⟩
    | false => exact ⟨fun _ => reported, nofun⟩
  · -- A range that ends before it begins is empty like any other.
    have ok := fills.eq_ok
    unfold fillWith at ok
    rw [if_pos empty] at ok
    obtain rfl : none = damage := (Prod.mk.inj (Except.ok.inj ok)).2
    exact ⟨fun _ x differs => differs (by rw [filled_empty empty]), fun _ x inside => by omega⟩

theorem filled_idem (line : Bytes n) (start stop : Nat) (value : Nat → UInt8) :
    filled (filled line start stop value) start stop value = filled line start stop value := by
  ext x : 1
  simp only [get_filled]
  split <;> rfl

/-- What is filled already is left as it is, and nothing is reported. -/
theorem fillWith_again (line : Bytes n) {start stop : Nat} (inside : stop ≤ n)
    (value : Nat → UInt8) :
    fillWith (filled line start stop value) start stop false value =
      .ok (filled line start stop value, none) := by
  obtain ⟨damage, ok, hull, -⟩ :=
    fillWith_exact (filled line start stop value) start inside false value
  rw [filled_idem] at ok hull
  rw [ok, (hull rfl).eq_none fun x differs => differs rfl]

/-- Every fill of columns that the line has, with a byte for each of them, succeeds: the columns of
the range hold their bytes and all others what they held. Checked, it reports the hull of the
columns that differ now, none where none does; unchecked, the columns of the range. The accumulator
becomes the hull of what it covered and what was reported, and stays if that is nothing. The same
fill again, checked, changes and reports nothing. -/
theorem Filling.into_exact (f : Filling) (line : Bytes n) (acc : Damage) {start stop : Nat}
    (inside : stop ≤ n) (enough : f.Supplies (stop - start)) (unchecked : Bool) :
    ∃ line' damage acc', f.into line acc start stop unchecked = .ok (line', damage, acc') ∧
      (∀ x : Fin n, line'.get x =
        if start ≤ x.val ∧ x.val < stop then f.value (x.val - start) else line.get x) ∧
      (unchecked = false → damage.IsHull (Differs line line')) ∧
      (unchecked = true → damage.IsHull fun x => start ≤ x ∧ x < stop) ∧
      acc'.IsHull (fun x => acc.Covers x ∨ damage.Covers x) ∧ (damage = none → acc' = acc) ∧
      ∀ acc, f.into line' acc start stop false = .ok (line', none, acc) := by
  obtain ⟨damage, ok, checked, whole⟩ :=
    fillWith_exact line start inside unchecked f.value
  refine ⟨filled line start stop f.value, damage, acc.merge damage, ?_,
    get_filled line start stop f.value, checked, whole,
    acc.isHull_covers.merge damage.isHull_covers, ?_, fun acc => ?_⟩
  · unfold into
    rw [fill_eq line enough, ok]
    rfl
  · rintro rfl
    exact acc.merge_none
  · unfold into
    rw [fill_eq _ enough, fillWith_again line inside]
    rfl

/-- Every eighth byte of a source of sixteen, going round at its end: of the three columns the
middle one held its byte already. The span of the change and that of the accumulator leave a gap,
which the hull closes. -/
theorem Filling.into_exact_strided :
    let f : Filling := .indexed (Bytes.ofList [5, 1, 1, 1, 1, 1, 1, 1, 7, 1, 1, 1, 1, 1, 1, 1])
      ⟨8, 8, 15⟩
    let line := Bytes.ofList [0, 0, 0, 5, 0, 0, 0, 0]
    f.Supplies (5 - 2) ∧ ∃ line' damage acc',
      f.into line (some ⟨7, 7, Nat.le_refl 7⟩) 2 5 false = .ok (line', damage, acc') ∧
      line'.toList = [0, 0, 7, 5, 7, 0, 0, 0] ∧ damage = some ⟨2, 4, by decide⟩ ∧
      acc' = some ⟨2, 7, by decide⟩ ∧
      ∀ acc, f.into line' acc 2 5 false = .ok (line', none, acc) := by
  intro f line
  have enough : f.Supplies (5 - 2) := by
    refine ⟨by decide, fun i few => ?_⟩
    have : wordLimit = 0x10000000000000000 := rfl
    show 8 + i * 8 < wordLimit
    omega
  obtain ⟨line', damage, acc', ok, -, -, -, -, -, again⟩ :=
    f.into_exact line (some ⟨7, 7, Nat.le_refl 7⟩) (by decide : 5 ≤ 8) enough false
  have runs : f.into line (some ⟨7, 7, Nat.le_refl 7⟩) 2 5 false =
      .ok (Bytes.ofList [0, 0, 7, 5, 7, 0, 0, 0], some ⟨2, 4, by decide⟩,
        some ⟨2, 7, by decide⟩) := by rfl
  cases ok.symm.trans runs
  exact ⟨enough, _, _, _, runs, rfl, rfl, rfl, again⟩

end C64.Raster
