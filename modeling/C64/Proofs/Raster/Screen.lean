import C64.Proofs.Raster.Damage

/-!
# Screens that are patched

Two kinds of screen are patched with the changed parts of frames: one with a buffer for each line
(`LinesShow`), and one in which the lines lie one after another (`FlatShows`), as a snapshot is
applied to. Of each, a patch with one changed part shows the patched view, so that a screen whose
view trailed a cache shows the cache when all of its changed parts are in.
-/

namespace C64

theorem Bytes.getElem?_data {n : Nat} (m : Bytes n) {i : Nat} (hi : i < n) :
    m.data.data[i]? = some (m.byteAt i) := by
  rw [m.byteAt_of_lt hi, Array.getElem?_eq_getElem (m.index_lt ⟨i, hi⟩)]
  rfl

namespace Raster

variable {g : Shape} {w h : Nat}

/-! ## Bytes in place -/

theorem patch_cons (target : ByteArray) (i : Nat) (b : UInt8) (rest : List UInt8) :
    patch target i (b :: rest) =
      patch (if h : i < target.size then target.set i b h else target) (i + 1) rest :=
  rfl

theorem size_setIfRoom (target : ByteArray) (i : Nat) (b : UInt8) :
    (if h : i < target.size then target.set i b h else target).size = target.size := by
  split
  · exact Array.size_set _
  · rfl

theorem size_patch (target : ByteArray) (i : Nat) (bytes : List UInt8) :
    (patch target i bytes).size = target.size := by
  induction bytes generalizing target i with
  | nil => rfl
  | cons b rest ih => rw [patch_cons, ih, size_setIfRoom]

theorem getElem?_setIfRoom (target : ByteArray) (i k : Nat) (b : UInt8) :
    (if h : i < target.size then target.set i b h else target).data[k]? =
      if i = k ∧ k < target.size then some b else target.data[k]? := by
  split
  · next h =>
    show (target.data.set i b h)[k]? = _
    rw [Array.getElem?_set]
    by_cases hk : i = k
    · rw [if_pos hk, if_pos ⟨hk, hk ▸ h⟩]
    · rw [if_neg hk, if_neg fun hc => hk hc.1]
  · next h => rw [if_neg fun hc : i = k ∧ k < target.size => h (hc.1 ▸ hc.2)]

/-- The bytes that were written are found in their places, as far as there is room. -/
theorem getElem?_patch (target : ByteArray) (i : Nat) (bytes : List UInt8) {k : Nat}
    (hk : k < target.size) :
    (patch target i bytes).data[k]? =
      if i ≤ k ∧ k < i + bytes.length then bytes[k - i]? else target.data[k]? := by
  induction bytes generalizing target i with
  | nil => rw [if_neg (by simp)]; rfl
  | cons b rest ih =>
    rw [patch_cons, ih _ _ ((size_setIfRoom target i b).symm ▸ hk), getElem?_setIfRoom]
    rw [List.length_cons]
    by_cases hlater : i + 1 ≤ k ∧ k < i + 1 + rest.length
    · rw [if_pos hlater, if_pos (by omega), show k - i = k - (i + 1) + 1 by omega,
        List.getElem?_cons_succ]
    · rw [if_neg hlater]
      by_cases hfirst : i = k
      · subst hfirst
        rw [if_pos ⟨rfl, hk⟩, if_pos (by omega), Nat.sub_self]
        rfl
      · rw [if_neg fun hc => hfirst hc.1, if_neg (by omega)]

/-! ## A buffer for each line -/

/-- A screen of line buffers behind a patch with one changed part. -/
def patchLine (screen : Array ByteArray) (d : DirtyLine) : Array ByteArray :=
  screen.modify d.line fun buffer => patch buffer d.span.first d.pixels

/-- A screen of `h` buffers of `w` columns shows a view. -/
structure LinesShow (w h : Nat) (view : View) (screen : Array ByteArray) : Prop where
  height : screen.size = h
  width : ∀ (y : Nat) (buffer : ByteArray), screen[y]? = some buffer → buffer.size = w
  shows : ∀ (y : Nat) (buffer : ByteArray) (x : Nat), screen[y]? = some buffer → x < w →
    buffer.data[x]? = some (view y x)

theorem LinesShow.patchLine {view : View} {screen : Array ByteArray}
    (hs : LinesShow w h view screen) {d : DirtyLine} (hlen : d.pixels.length = d.span.length) :
    LinesShow w h (view.patch d) (patchLine screen d) := by
  -- Each buffer is an old one, patched if it is that of the line.
  have found : ∀ (y : Nat) (buffer : ByteArray), (Raster.patchLine screen d)[y]? = some buffer →
      ∃ old, screen[y]? = some old ∧
        buffer = if d.line = y then patch old d.span.first d.pixels else old := by
    intro y buffer hb
    unfold Raster.patchLine at hb
    rw [Array.getElem?_modify] at hb
    split at hb
    · next hy =>
      obtain ⟨old, hold, rfl⟩ := Option.map_eq_some_iff.mp hb
      exact ⟨old, hold, (if_pos hy).symm⟩
    · next hy => exact ⟨buffer, hb, (if_neg hy).symm⟩
  refine ⟨?_, ?_, ?_⟩
  · unfold Raster.patchLine
    rw [Array.size_modify]
    exact hs.height
  · intro y buffer hb
    obtain ⟨old, hold, rfl⟩ := found y buffer hb
    split
    · rw [size_patch]
      exact hs.width y old hold
    · exact hs.width y old hold
  · intro y buffer x hb hx
    obtain ⟨old, hold, rfl⟩ := found y buffer hb
    have hold' := hs.shows y old x hold hx
    have := d.span.first_le_last
    unfold Span.length at hlen
    rw [View.patch_apply]
    by_cases hy : d.line = y
    · rw [if_pos hy, getElem?_patch _ _ _ ((hs.width y old hold).symm ▸ hx)]
      by_cases hin : d.span.first ≤ x ∧ x ≤ d.span.last
      · rw [if_pos (by omega), if_pos ⟨hy.symm, hin⟩]
        rw [List.getElem?_eq_getElem (by omega), Option.getD_some]
      · rw [if_neg (by omega), if_neg fun hc => hin hc.2, hold']
    · rw [if_neg hy, if_neg fun hc => hy hc.1.symm, hold']

/-- Patched with the changed parts, the buffers hold the lines of the cache. -/
theorem LinesShow.patched {view : View} {c : Cache g} (ht : view.Trails c)
    {screen : Array ByteArray} (hs : LinesShow g.width c.height view screen) :
    ∃ dirty, c.dirtyLines = .ok dirty ∧
      LinesShow g.width c.height c.view (dirty.foldl Raster.patchLine screen) := by
  obtain ⟨dirty, hdirty, hof, heq⟩ := ht.patched
  refine ⟨dirty, hdirty, ?_⟩
  have run : ∀ (view : View) screen, LinesShow g.width c.height view screen →
      LinesShow g.width c.height (dirty.foldl View.patch view)
        (dirty.foldl Raster.patchLine screen) := by
    clear hdirty heq hs ht
    induction dirty with
    | nil => exact fun _ _ hs => hs
    | cons d rest ih =>
      exact fun view screen hs => ih (fun e he => hof e (.tail d he)) _ _
        (hs.patchLine (hof d (.head rest)).length_eq)
  have done := run view screen hs
  refine ⟨done.height, done.width, fun y buffer x hb hx => ?_⟩
  have hy : y < c.height := by
    rw [← done.height]
    exact (Array.getElem?_eq_some_iff.mp hb).1
  rw [done.shows y buffer x hb hx, heq y x hy hx]

theorem LinesShow.lines (c : Cache g) :
    LinesShow g.width c.height c.view (c.lines.map (·.pixels.data)) where
  height := Array.size_map
  width y buffer hb := by
    rw [Array.getElem?_map] at hb
    obtain ⟨l, -, rfl⟩ := Option.map_eq_some_iff.mp hb
    exact l.pixels.size_data
  shows y buffer x hb hx := by
    rw [Array.getElem?_map] at hb
    obtain ⟨l, hl, rfl⟩ := Option.map_eq_some_iff.mp hb
    rw [Cache.view_of_line hl]
    exact l.pixels.getElem?_data hx

/-- Buffers that show what the cache holds are its pixels. -/
theorem LinesShow.eq_lines {c : Cache g} {screen : Array ByteArray}
    (hs : LinesShow g.width c.height c.view screen) :
    screen = c.lines.map (·.pixels.data) := by
  refine Array.ext (by rw [hs.height, Array.size_map]; rfl) fun y hy _ => ?_
  have hb : screen[y]? = some screen[y] := Array.getElem?_eq_getElem hy
  have hyc : y < c.lines.size := Nat.lt_of_lt_of_eq hy hs.height
  have hl : c.lines[y]? = some c.lines[y] := Array.getElem?_eq_getElem hyc
  rw [Array.getElem_map]
  refine ByteArray.ext (Array.ext ?_ fun x hx hx' => ?_)
  · rw [← ByteArray.size, ← ByteArray.size, hs.width y _ hb, Bytes.size_data]
  · have hw : x < g.width := hs.width y _ hb ▸ hx
    have := hs.shows y _ x hb hw
    rw [Cache.view_of_line hl, ← Bytes.getElem?_data _ hw, Array.getElem?_eq_getElem hx,
      Array.getElem?_eq_getElem hx'] at this
    exact Option.some.inj this

/-! ## One line after another -/

/-- A screen of `h` lines of `w` columns, one line after another, shows a view. -/
structure FlatShows (w h : Nat) (view : View) (screen : ByteArray) : Prop where
  size : screen.size = h * w
  shows : ∀ y x, y < h → x < w → screen.data[y * w + x]? = some (view y x)

/-- The columns of a line and those of another lie apart. -/
theorem place_inj {y y' x x' : Nat} (hx : x < w) (hx' : x' < w) :
    y * w + x = y' * w + x' ↔ y = y' ∧ x = x' := by
  constructor
  · intro heq
    rcases Nat.lt_trichotomy y y' with hlt | rfl | hgt
    · have := Nat.mul_le_mul_right w hlt
      rw [Nat.succ_mul] at this
      omega
    · exact ⟨rfl, by omega⟩
    · have := Nat.mul_le_mul_right w hgt
      rw [Nat.succ_mul] at this
      omega
  · rintro ⟨rfl, rfl⟩
    rfl

theorem place_lt {y x : Nat} (hy : y < h) (hx : x < w) : y * w + x < h * w := by
  have := Nat.mul_le_mul_right w hy
  rw [Nat.succ_mul] at this
  omega

theorem FlatShows.applyLine {view : View} {screen : ByteArray} (hs : FlatShows w h view screen)
    {d : DirtyLine} (hline : d.line < h) (hlast : d.span.last < w)
    (hlen : d.pixels.length = d.span.length) :
    FlatShows w h (view.patch d) (Snapshot.applyLine w screen d) := by
  have hfirst := d.span.first_le_last
  have hroom := place_lt hline hlast
  unfold Span.length at hlen
  unfold Snapshot.applyLine
  simp only []
  rw [if_pos (by rw [hs.size]; omega)]
  refine ⟨by rw [size_patch, hs.size], fun y x hy hx => ?_⟩
  have hplace := place_lt hy hx
  rw [getElem?_patch _ _ _ (by rw [hs.size]; exact hplace), View.patch_apply]
  -- The bytes that were written are the span of that line and nothing else.
  by_cases hin : y = d.line ∧ d.span.first ≤ x ∧ x ≤ d.span.last
  · obtain ⟨rfl, hx₁, hx₂⟩ := hin
    rw [if_pos (by omega), if_pos ⟨rfl, hx₁, hx₂⟩, Nat.add_sub_add_left,
      List.getElem?_eq_getElem (by omega), Option.getD_some]
  · rw [if_neg hin, if_neg ?_, hs.shows y x hy hx]
    rintro ⟨hge, hlt⟩
    obtain ⟨k, hk⟩ := Nat.exists_eq_add_of_le hge
    rw [Nat.add_assoc] at hk
    obtain ⟨hyl, hxl⟩ := (place_inj hx (by omega)).mp hk
    exact hin ⟨hyl, by omega, by omega⟩

theorem ofFrame_eq {f : Frame g} {dirty : List DirtyLine} (h : f.cache.dirtyLines = .ok dirty) :
    Snapshot.ofFrame f = .ok ⟨f.number, g.width, f.cache.height, dirty⟩ := by
  unfold Snapshot.ofFrame
  rw [h]
  rfl

/-- Applied to a screen that trailed the frame's cache, its snapshot brings it up to the cache. -/
theorem FlatShows.apply {view : View} {f : Frame g} (ht : view.Trails f.cache)
    {screen : ByteArray} (hs : FlatShows g.width f.cache.height view screen) {s : Snapshot}
    (h : Snapshot.ofFrame f = .ok s) :
    FlatShows g.width f.cache.height f.cache.view (s.apply screen) := by
  obtain ⟨dirty, hdirty, hof, heq⟩ := ht.patched
  rw [ofFrame_eq hdirty] at h
  obtain rfl := Except.ok.inj h
  have run : ∀ (view : View) screen, FlatShows g.width f.cache.height view screen →
      FlatShows g.width f.cache.height (dirty.foldl View.patch view)
        (dirty.foldl (Snapshot.applyLine g.width) screen) := by
    clear hdirty heq hs ht h
    induction dirty with
    | nil => exact fun _ _ hs => hs
    | cons d rest ih =>
      have hd := hof d (.head rest)
      exact fun view screen hs => ih (fun e he => hof e (.tail d he)) _ _
        (hs.applyLine hd.line_lt hd.last_lt hd.length_eq)
  have done := run view screen hs
  exact ⟨done.size, fun y x hy hx => by rw [← heq y x hy hx]; exact done.shows y x hy hx⟩

/-- The pixels of a cache, one line after another. -/
def Cache.bytes (c : Cache g) : List UInt8 := c.lines.toList.flatMap (·.pixels.toList)

theorem getElem?_flatMap {α : Type} {f : α → List UInt8} {l : List α}
    (hlen : ∀ a ∈ l, (f a).length = w) {y x : Nat} (hx : x < w) :
    (l.flatMap f)[y * w + x]? = l[y]?.bind fun a => (f a)[x]? := by
  induction l generalizing y with
  | nil => simp
  | cons a rest ih =>
    have ha := hlen a (.head rest)
    rw [List.flatMap_cons]
    cases y with
    | zero =>
      rw [Nat.zero_mul, Nat.zero_add, List.getElem?_append_left (by omega)]
      rfl
    | succ y =>
      rw [List.getElem?_append_right (by rw [ha, Nat.succ_mul]; omega), ha,
        show (y + 1) * w + x - w = y * w + x by rw [Nat.succ_mul]; omega,
        ih fun b hb => hlen b (.tail a hb)]
      rfl

/-- A flat screen that shows what the cache holds is its pixels. -/
theorem FlatShows.eq_bytes {c : Cache g} {screen : ByteArray}
    (hs : FlatShows g.width c.height c.view screen) : screen.data.toList = c.bytes := by
  have hlen : ∀ l ∈ c.lines.toList, l.pixels.toList.length = g.width :=
    fun l _ => l.pixels.size_data
  have hsize : screen.data.toList.length = c.height * g.width := hs.size
  have hbytes : c.bytes.length = c.height * g.width := by
    unfold Cache.bytes
    rw [List.length_flatMap, List.map_congr_left hlen, List.map_const', List.sum_replicate_nat,
      Array.length_toList]
    rfl
  refine List.ext_getElem? fun i => ?_
  by_cases hi : i < c.height * g.width
  · have hw : 0 < g.width := Nat.pos_of_mul_pos_left (Nat.zero_lt_of_lt hi)
    have hy : i / g.width < c.height := Nat.div_lt_of_lt_mul (Nat.mul_comm .. ▸ hi)
    have hx : i % g.width < g.width := Nat.mod_lt i hw
    have hl : c.lines.toList[i / g.width]? = some c.lines[i / g.width] := by
      rw [Array.getElem?_toList]
      exact Array.getElem?_eq_getElem hy
    rw [← Nat.div_add_mod' i g.width, Cache.bytes, getElem?_flatMap hlen hx, hl, Option.bind_some,
      Array.getElem?_toList, hs.shows _ _ hy hx, Bytes.toList, Array.getElem?_toList,
      Bytes.getElem?_data _ hx, Cache.view_of_line (Array.getElem?_toList ▸ hl)]
  · rw [List.getElem?_eq_none (by omega), List.getElem?_eq_none (by omega)]

theorem FlatShows.zeros (w h : Nat) : FlatShows w h .dark (zeros (h * w)) where
  size := Array.size_replicate
  shows y x hy hx := by
    show (Array.replicate (h * w) (0 : UInt8))[y * w + x]? = _
    rw [Array.getElem?_replicate, if_pos (place_lt hy hx)]
    rfl

end Raster

end C64
