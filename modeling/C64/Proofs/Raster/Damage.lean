import C64.Proofs.Raster.Fill
import C64.Raster.Sink

/-!
# What damage covers

Damage records the way from old pixels of a line to new ones if it covers every column in which
they differ (`Damage.Records`). A fill records what it does, and the records of two fills, one
after the other, merge.

What a screen shows is a `View`. It trails a cache if the damage of every line records the way
from the view to the line (`View.Trails`). Patched with the changed parts, it shows what the cache
holds (`View.Trails.patched`).
-/

namespace C64.Raster

variable {n : Nat} {g : Shape}

/-! ## The damage of a line -/

/-- The damage covers a column. -/
def Damage.Covers (d : Damage) (x : Nat) : Prop := ∃ s, d = some s ∧ s.contains x

/-- Outside the damage a line holds what it held before, and the damage lies in the line. -/
structure Damage.Records (d : Damage) (old : Nat → UInt8) (line : Bytes n) : Prop where
  covers : ∀ x : Fin n, line.get x ≠ old x.val → d.Covers x.val
  inside : ∀ s, d = some s → s.last < n

theorem Damage.Covers.merge_left {d : Damage} {x : Nat} (h : d.Covers x) (e : Damage) :
    (d.merge e).Covers x := by
  obtain ⟨s, rfl, hs⟩ := h
  cases e with
  | none => exact ⟨s, rfl, hs⟩
  | some t => exact ⟨s.union t, rfl, s.contains_union_left t hs⟩

theorem Damage.Covers.merge_right {e : Damage} {x : Nat} (d : Damage) (h : e.Covers x) :
    (d.merge e).Covers x := by
  rw [merge_comm]
  exact h.merge_left d

theorem Damage.Records.refl (line : Bytes n) : Damage.Records none line.byteAt line where
  covers x hx := absurd (line.byteAt_of_lt x.isLt).symm hx
  inside s hs := absurd hs (by simp)

/-- What records two ways, one after the other, covers both. -/
theorem Damage.Records.trans {d e : Damage} {old : Nat → UInt8} {line line' : Bytes n}
    (h : d.Records old line) (h' : e.Records line.byteAt line') :
    (d.merge e).Records old line' where
  covers x hx := by
    -- A column that the second step left alone differs because of the first.
    by_cases same : line'.get x = line.byteAt x.val
    · rw [same, line.byteAt_of_lt x.isLt] at hx
      exact (h.covers x hx).merge_left e
    · exact (h'.covers x same).merge_right d
  inside s hs := by
    cases d with
    | none => exact h'.inside s (by simpa using hs)
    | some t =>
      cases e with
      | none => exact h.inside s hs
      | some u =>
        obtain rfl := Option.some.inj hs
        exact Nat.max_lt.mpr ⟨h.inside t rfl, h'.inside u rfl⟩

/-! ### Fills -/

theorem putColumn_records {old : Nat → UInt8} {state : Bytes n × Damage}
    (h : state.2.Records old state.1) (x : Nat) (v : UInt8) :
    (putColumn x v state).2.Records old (putColumn x v state).1 := by
  obtain ⟨line, damage⟩ := state
  unfold putColumn
  simp only []
  split
  · next hx =>
    split
    · exact h
    · refine h.trans (e := some ⟨x, x, Nat.le_refl x⟩) ⟨fun i hi => ?_, fun s hs => ?_⟩
      · rw [Bytes.get_set] at hi
        split at hi
        · next heq => exact ⟨_, rfl, by simp [← heq]⟩
        · exact absurd (line.byteAt_of_lt i.isLt).symm hi
      · obtain rfl := Option.some.inj hs
        exact hx
  · exact h

theorem fold_putColumn_records (line : Bytes n) (start k : Nat) (value : Nat → UInt8) :
    let out := Nat.fold k (fun i _ state => putColumn (start + i) (value i) state) (line, none)
    out.2.Records line.byteAt out.1 := by
  induction k with
  | zero => exact .refl line
  | succ k ih =>
    simp only [Nat.fold_succ]
    exact putColumn_records ih _ _

theorem filled_records (line : Bytes n) {start stop : Nat} (value : Nat → UInt8) (h : stop ≤ n) :
    (Damage.whole start stop).Records line.byteAt (filled line start stop value) where
  covers x hx := by
    rw [get_filled, line.byteAt_of_lt x.isLt] at hx
    split at hx
    · next hin =>
      unfold Damage.whole
      rw [dif_pos (by omega)]
      refine ⟨_, rfl, ?_⟩
      rw [Span.contains_iff]
      simp only []
      omega
    · exact absurd rfl hx
  inside s hs := by
    unfold Damage.whole at hs
    split at hs
    · obtain rfl := Option.some.inj hs
      simp only []
      omega
    · exact absurd hs (by simp)

theorem fillWith_records {line line' : Bytes n} {start stop : Nat} {unchecked : Bool}
    {value : Nat → UInt8} {damage : Damage}
    (h : fillWith line start stop unchecked value = .ok (line', damage)) :
    damage.Records line.byteAt line' := by
  unfold fillWith at h
  split at h
  · cases h
    exact .refl line
  · split at h
    · exact absurd h (by simp)
    · cases unchecked with
      | false =>
        cases h
        exact fold_putColumn_records line start (stop - start) value
      | true =>
        obtain ⟨found, hfold, -⟩ := fold_putColumn line start (stop - start) value (by omega)
        unfold fillColumns at h
        rw [hfold, Nat.add_sub_cancel' (by omega)] at h
        cases h
        exact filled_records line value (by omega)

theorem fillFrom_records {line line' : Bytes n} {start stop : Nat} {unchecked : Bool}
    {run : Run} {damage : Damage}
    (h : fillFrom line start stop unchecked run = .ok (line', damage)) :
    damage.Records line.byteAt line' := by
  unfold fillFrom at h
  split at h
  · exact absurd h (by simp)
  · exact fillWith_records h

/-! ## Views -/

/-- The colour number that is shown on a line in a column. -/
abbrev View := Nat → Nat → UInt8

def View.dark : View := fun _ _ => 0

/-- What the cache holds. -/
def Cache.view (c : Cache g) : View := fun y x => (c.lines[y]?.map (·.pixels.byteAt x)).getD 0

/-- Outside the damage the view shows what the cache holds, and no damage leaves its line. -/
def View.Trails (view : View) (c : Cache g) : Prop :=
  ∀ (y : Nat) (l : CacheLine g), c.lines[y]? = some l → l.damage.Records (view y) l.pixels

/-- A view behind a patch with one changed part. -/
def View.patch (view : View) (d : DirtyLine) : View := fun y x =>
  if y = d.line ∧ d.span.contains x then d.pixels[x - d.span.first]?.getD 0 else view y x

theorem View.patch_apply (view : View) (d : DirtyLine) (y x : Nat) :
    view.patch d y x = if y = d.line ∧ d.span.first ≤ x ∧ x ≤ d.span.last then
      d.pixels[x - d.span.first]?.getD 0 else view y x := by
  simp only [View.patch, Span.contains_iff]

/-- A cache of lines that were never rendered is dark. -/
theorem Cache.view_blank (height : Nat) : (Cache.blank g height).view = .dark := by
  funext y x
  unfold Cache.view
  cases hl : (Cache.blank g height).lines[y]? with
  | none => rfl
  | some l =>
    unfold Cache.blank at hl
    obtain ⟨-, rfl⟩ := Array.getElem?_eq_some_iff.mp hl
    simp only [Array.getElem_ofFn, CacheLine.blank, Option.map_some, Option.getD_some,
      Bytes.byteAt]
    split
    · exact Bytes.get_replicate ..
    · rfl

theorem View.Trails.blank (height : Nat) : View.dark.Trails (.blank g height) := by
  intro y l hl
  unfold Cache.blank at hl
  obtain ⟨-, rfl⟩ := Array.getElem?_eq_some_iff.mp hl
  refine ⟨fun x hx => absurd ?_ hx, fun s hs => absurd hs (by simp [CacheLine.blank])⟩
  simp [CacheLine.blank, View.dark]

theorem View.Trails.invalidate {view : View} {c : Cache g} (h : view.Trails c) :
    view.Trails c.invalidate := by
  intro y l hl
  unfold Cache.invalidate at hl
  rw [Array.getElem?_map, Option.map_eq_some_iff] at hl
  obtain ⟨old, hold, rfl⟩ := hl
  exact h y old hold

theorem Cache.view_trails_clearDamage (c : Cache g) : c.view.Trails c.clearDamage := by
  intro y l hl
  unfold Cache.clearDamage at hl
  rw [Array.getElem?_map, Option.map_eq_some_iff] at hl
  obtain ⟨old, hold, rfl⟩ := hl
  refine ⟨fun x hx => absurd ?_ hx, fun s hs => absurd hs (by simp)⟩
  simp only [Cache.view, hold, Option.map_some, Option.getD_some]
  exact (old.pixels.byteAt_of_lt x.isLt).symm

/-- A line may change, if its damage records the change. -/
theorem View.Trails.set {view : View} {c : Cache g} (h : view.Trails c) {index : Nat}
    {l : CacheLine g} (hl : l.damage.Records (view index) l.pixels) :
    view.Trails (⟨c.lines.setIfInBounds index l⟩ : Cache g) := by
  intro y l' hget
  rw [Array.getElem?_setIfInBounds] at hget
  split at hget
  · next hy =>
    split at hget
    · obtain rfl := Option.some.inj hget
      exact hy ▸ hl
    · exact absurd hget (by simp)
  · exact h y l' hget

/-! ## The changed parts -/

/-- A changed part of the cache: a span of a line with its pixels. -/
structure DirtyLine.Of (d : DirtyLine) (c : Cache g) : Prop where
  line_lt : d.line < c.height
  last_lt : d.span.last < g.width
  length_eq : d.pixels.length = d.span.length
  pixels : ∀ x, d.span.contains x → d.pixels[x - d.span.first]? = some (c.view d.line x)

/-- The changed lines that are looked for are those with damage. -/
theorem Cache.mem_found (c : Cache g) {y : Nat} {span : Span} {l : CacheLine g} :
    ((y, span, l) ∈ c.lines.toList.zipIdx.filterMap fun p =>
      p.1.damage.map fun span => (p.2, span, p.1)) ↔
    c.lines[y]? = some l ∧ l.damage = some span := by
  rw [List.mem_filterMap]
  constructor
  · rintro ⟨⟨l', y'⟩, hl, hspan⟩
    obtain ⟨span', hdamage, heq⟩ := Option.map_eq_some_iff.mp hspan
    cases heq
    exact ⟨by simpa [List.mem_zipIdx_iff_getElem?] using hl, hdamage⟩
  · rintro ⟨hl, hdamage⟩
    refine ⟨(l, y), ?_, by simp [hdamage]⟩
    rw [List.mem_zipIdx_iff_getElem?]
    simpa using hl

/-- Where the changed lines can be found, no damage leaves its line. -/
theorem Cache.damaged_ok {c : Cache g} {found : List (Nat × Span × CacheLine g)}
    (h : c.damaged = .ok found) (y : Nat) (span : Span) (l : CacheLine g) :
    ((y, span, l) ∈ found ↔ c.lines[y]? = some l ∧ l.damage = some span) ∧
      (c.lines[y]? = some l → l.damage = some span → span.last < g.width) := by
  unfold damaged at h
  simp only [] at h
  split at h
  · next inside =>
    obtain rfl := Except.ok.inj h
    exact ⟨c.mem_found, fun hl hdamage =>
      of_decide_eq_true (List.all_eq_true.mp inside _ (c.mem_found.mpr ⟨hl, hdamage⟩))⟩
  · exact absurd h (by simp)

theorem View.Trails.damaged {view : View} {c : Cache g} (h : view.Trails c) :
    ∃ found, c.damaged = .ok found ∧ ∀ y span l, (y, span, l) ∈ found ↔
      c.lines[y]? = some l ∧ l.damage = some span := by
  refine ⟨_, ?_, fun y span l => c.mem_found⟩
  unfold Cache.damaged
  simp only []
  rw [if_pos]
  rw [List.all_eq_true]
  rintro ⟨y, span, l⟩ hfound
  obtain ⟨hl, hdamage⟩ := c.mem_found.mp hfound
  exact decide_eq_true ((h y l hl).inside span hdamage)

theorem Cache.view_of_line {c : Cache g} {y : Nat} {l : CacheLine g} (h : c.lines[y]? = some l)
    (x : Nat) : c.view y x = l.pixels.byteAt x := by
  simp only [Cache.view, h, Option.map_some, Option.getD_some]

/-- The changed parts cover all damage, and each holds what the cache does. -/
theorem View.Trails.dirtyLines {view : View} {c : Cache g} (h : view.Trails c) :
    ∃ dirty, c.dirtyLines = .ok dirty ∧ (∀ d ∈ dirty, d.Of c) ∧
      ∀ (y : Nat) (l : CacheLine g) (x : Nat), c.lines[y]? = some l → l.damage.Covers x →
        ∃ d ∈ dirty, d.line = y ∧ d.span.contains x := by
  obtain ⟨found, hfound, mem⟩ := h.damaged
  refine ⟨_, by unfold Cache.dirtyLines; rw [hfound]; rfl, ?_, ?_⟩
  · intro d hd
    obtain ⟨⟨y, span, l⟩, hmem, rfl⟩ := List.mem_map.mp hd
    obtain ⟨hl, hdamage⟩ := (mem y span l).mp hmem
    refine ⟨(Array.getElem?_eq_some_iff.mp hl).1, (h y l hl).inside span hdamage, by simp, ?_⟩
    intro x (hx : span.contains x)
    rw [Span.contains_iff] at hx
    have hlt : x - span.first < span.length := by
      unfold Span.length
      omega
    simp only [List.getElem?_map, List.getElem?_range hlt, Option.map_some, Option.some.injEq]
    rw [Cache.view_of_line hl, Nat.add_sub_cancel' hx.1]
  · rintro y l x hl ⟨span, hdamage, hx⟩
    exact ⟨_, List.mem_map_of_mem ((mem y span l).mpr ⟨hl, hdamage⟩), rfl, hx⟩

/-- A column that is patched holds what the cache does, and any other what it held. -/
theorem View.foldl_patch (view : View) {c : Cache g} {dirty : List DirtyLine}
    (hof : ∀ d ∈ dirty, d.Of c) (y x : Nat) :
    ((∃ d ∈ dirty, d.line = y ∧ d.span.contains x) ∧ dirty.foldl View.patch view y x = c.view y x) ∨
      (¬ (∃ d ∈ dirty, d.line = y ∧ d.span.contains x) ∧
        dirty.foldl View.patch view y x = view y x) := by
  induction dirty generalizing view with
  | nil => exact .inr ⟨by simp, rfl⟩
  | cons d rest ih =>
    simp only [List.mem_cons, exists_eq_or_imp, List.foldl_cons]
    -- What a later part patches stays; only the rest shows what this one did.
    rcases ih (view.patch d) fun e he => hof e (.tail d he) with ⟨hin, heq⟩ | ⟨hout, heq⟩
    · exact .inl ⟨.inr hin, heq⟩
    · rw [heq]
      unfold View.patch
      by_cases hd : d.line = y ∧ d.span.contains x
      · obtain ⟨rfl, hx⟩ := hd
        rw [if_pos ⟨rfl, hx⟩, (hof d (.head rest)).pixels x hx]
        exact .inl ⟨.inl ⟨rfl, hx⟩, rfl⟩
      · rw [if_neg fun h => hd ⟨h.1.symm, h.2⟩]
        exact .inr ⟨fun h => h.elim hd hout, rfl⟩

/-- Patched with the changed parts, a view that trailed the cache shows what it holds. -/
theorem View.Trails.patched {view : View} {c : Cache g} (h : view.Trails c) :
    ∃ dirty, c.dirtyLines = .ok dirty ∧ (∀ d ∈ dirty, d.Of c) ∧
      ∀ y x, y < c.height → x < g.width → dirty.foldl View.patch view y x = c.view y x := by
  obtain ⟨dirty, hdirty, hof, hall⟩ := h.dirtyLines
  refine ⟨dirty, hdirty, hof, fun y x hy hx => ?_⟩
  rcases view.foldl_patch hof y x with ⟨-, heq⟩ | ⟨hout, heq⟩
  · exact heq
  · -- Where nothing is patched there is no damage, so the view already showed it.
    have hl : c.lines[y]? = some c.lines[y] := Array.getElem?_eq_getElem hy
    rw [heq, Cache.view_of_line hl, Bytes.byteAt_of_lt _ hx]
    refine Decidable.byContradiction fun hne => hout (hall y _ x hl ?_)
    exact (h y _ hl).covers ⟨x, hx⟩ (Ne.symm hne)

end C64.Raster
