import C64.Proofs.Raster.Screen

/-!
# A copy in full colour

A full-frame sink keeps four bytes for each pixel, so a patch of a line is four times as long and
as far in as its columns (`FullFrame.pixel?_patchLine`). The sink tracks a line if it shows what the
line holds wherever the line has no damage. Damage is all that it needs: behind a frame it shows
every line that it tracked (`FullFrame.Tracks.present`).
-/

namespace C64.Raster

variable {g : Shape}

/-- Where the damage can be read, it lies in the lines. -/
theorem Cache.view_trails {c : Cache g} {dirty : List DirtyLine} (h : c.dirtyLines = .ok dirty) :
    c.view.Trails c := by
  obtain ⟨found, hfound, -⟩ := bind_eq_ok.mp h
  intro y l hl
  refine ⟨fun x hx => absurd ?_ hx, fun span hspan => ?_⟩
  · rw [c.view_of_line hl]
    exact (l.pixels.byteAt_of_lt x.isLt).symm
  · exact (Cache.damaged_ok hfound y span l).2 hl hspan

theorem Cache.damage_of_dirty {c : Cache g} {dirty : List DirtyLine} (h : c.dirtyLines = .ok dirty)
    {d : DirtyLine} (hd : d ∈ dirty) :
    ∃ l, c.lines[d.line]? = some l ∧ l.damage = some d.span := by
  obtain ⟨found, hfound, hret⟩ := bind_eq_ok.mp h
  obtain rfl := Except.ok.inj hret
  obtain ⟨⟨y, span, l⟩, hmem, rfl⟩ := List.mem_map.mp hd
  exact ⟨l, (Cache.damaged_ok hfound y span l).1.mp hmem⟩

namespace FullFrame

variable {s s' : FullFrame} {w h : Nat}

/-- A sink that has taken no frame yet, or only frames of these measures. -/
structure Fits (w h : Nat) (s : FullFrame) : Prop where
  size : s.rgba.size = s.height * s.width * 4
  measures : s.width = 0 ∨ s.width = w ∧ s.height = h

/-- The sink shows what a line holds. -/
def Shows (s : FullFrame) (y : Nat) (l : CacheLine g) : Prop :=
  ∀ x < g.width, s.pixel? x y = some (s.palette.rgba (l.pixels.byteAt x))

/-- The sink shows what a line holds outside its damage. -/
def Tracks (s : FullFrame) (y : Nat) (l : CacheLine g) : Prop :=
  ∀ x < g.width, l.damage.Covers x ∨ s.pixel? x y = some (s.palette.rgba (l.pixels.byteAt x))

theorem Fits.new (palette : Palette) : (FullFrame.new palette).Fits w h := ⟨rfl, .inl rfl⟩

/-! ## One line -/

theorem map_rgba (p : Palette) (pixel : UInt8) :
    ((List.range 4).map fun k => (p.rgba pixel)[k]?.getD 0) = p.rgba pixel :=
  rfl

/-- A patched line holds the colours of its pixels, and the rest of the copy what it held. -/
theorem pixel?_patchLine (size : s.rgba.size = s.height * s.width * 4) {d : DirtyLine}
    (last : d.span.last < s.width) (length : d.pixels.length = d.span.length) {x y : Nat}
    (hx : x < s.width) (hy : y < s.height) :
    (s.patchLine d).pixel? x y = if y = d.line ∧ d.span.first ≤ x ∧ x ≤ d.span.last then
      some (s.palette.rgba (d.pixels[x - d.span.first]?.getD 0)) else s.pixel? x y := by
  have first := d.span.first_le_last
  have place := place_lt hy hx
  unfold Span.length at length
  have four : ∀ p ∈ d.pixels, (s.palette.rgba p).length = 4 := fun _ _ => rfl
  have bytes : (d.pixels.flatMap s.palette.rgba).length = d.pixels.length * 4 := by
    rw [List.length_flatMap, List.map_congr_left four, List.map_const', List.sum_replicate_nat]
  -- Byte `k` of the pixel lies among those written just if the pixel does.
  have written : ∀ k, k < 4 → (s.patchLine d).rgba.data[(y * s.width + x) * 4 + k]? =
      if y = d.line ∧ d.span.first ≤ x ∧ x ≤ d.span.last then
        (d.pixels[x - d.span.first]?.bind fun p => (s.palette.rgba p)[k]?)
      else s.rgba.data[(y * s.width + x) * 4 + k]? := by
    intro k hk
    show (patch s.rgba ((d.line * s.width + d.span.first) * 4)
      (d.pixels.flatMap s.palette.rgba)).data[_]? = _
    rw [getElem?_patch _ _ _ (by omega), bytes]
    by_cases inside : y = d.line ∧ d.span.first ≤ x ∧ x ≤ d.span.last
    · obtain ⟨rfl, hfirst, hlast⟩ := inside
      rw [if_pos (by omega), if_pos ⟨rfl, hfirst, hlast⟩, ← getElem?_flatMap four hk]
      congr 1
      omega
    · rw [if_neg inside, if_neg ?_]
      rintro ⟨ge, lt⟩
      obtain ⟨j, hj⟩ := Nat.exists_eq_add_of_le
        (show d.line * s.width + d.span.first ≤ y * s.width + x by omega)
      rw [Nat.add_assoc] at hj
      obtain ⟨hline, hcolumn⟩ := (place_inj hx (by omega)).mp hj
      exact inside ⟨hline, by omega, by omega⟩
  have after : (s.patchLine d).pixel? x y = some ((List.range 4).map fun k =>
      (s.patchLine d).rgba.data[(y * s.width + x) * 4 + k]?.getD 0) := if_pos ⟨hx, hy⟩
  have before : s.pixel? x y = some ((List.range 4).map fun k =>
      s.rgba.data[(y * s.width + x) * 4 + k]?.getD 0) := if_pos ⟨hx, hy⟩
  rw [after]
  split
  · next inside =>
    have found : x - d.span.first < d.pixels.length := by omega
    refine congrArg some ((List.map_congr_left fun k hk => ?_).trans (map_rgba s.palette _))
    rw [written k (List.mem_range.mp hk), if_pos inside, List.getElem?_eq_getElem found]
    rfl
  · next outside =>
    rw [before]
    refine congrArg some (List.map_congr_left fun k hk => ?_)
    rw [written k (List.mem_range.mp hk), if_neg outside]

theorem foldl_patchLine_frame (dirty : List DirtyLine) (s : FullFrame) :
    (dirty.foldl patchLine s).palette = s.palette ∧ (dirty.foldl patchLine s).width = s.width ∧
      (dirty.foldl patchLine s).height = s.height ∧
      (dirty.foldl patchLine s).rgba.size = s.rgba.size := by
  induction dirty generalizing s with
  | nil => exact ⟨rfl, rfl, rfl, rfl⟩
  | cons d rest ih =>
    obtain ⟨palette, width, height, size⟩ := ih (s.patchLine d)
    exact ⟨palette, width, height, size.trans (size_patch ..)⟩

/-- A pixel that is patched has the colour of the cache, and any other the one it had. -/
theorem pixel?_foldl (size : s.rgba.size = s.height * s.width * 4) {c : Cache g}
    (width : s.width = g.width) (height : s.height = c.height) {dirty : List DirtyLine}
    (hof : ∀ d ∈ dirty, d.Of c) {x y : Nat} (hx : x < g.width) (hy : y < c.height) :
    ((∃ d ∈ dirty, d.line = y ∧ d.span.contains x) ∧
        (dirty.foldl patchLine s).pixel? x y = some (s.palette.rgba (c.view y x))) ∨
      (¬(∃ d ∈ dirty, d.line = y ∧ d.span.contains x) ∧
        (dirty.foldl patchLine s).pixel? x y = s.pixel? x y) := by
  induction dirty generalizing s with
  | nil => exact .inr ⟨by simp, rfl⟩
  | cons d rest ih =>
    simp only [List.mem_cons, exists_eq_or_imp, List.foldl_cons]
    have part := hof d (.head rest)
    have kept : (s.patchLine d).rgba.size = s.height * s.width * 4 := (size_patch ..).trans size
    rcases ih kept width height fun e he => hof e (.tail d he) with
      ⟨later, shown⟩ | ⟨never, same⟩
    · exact .inl ⟨.inr later, shown⟩
    · rw [same, pixel?_patchLine size (width ▸ part.last_lt) part.length_eq (width ▸ hx) (height ▸ hy)]
      by_cases inside : y = d.line ∧ d.span.first ≤ x ∧ x ≤ d.span.last
      · obtain ⟨rfl, within⟩ := inside
        have within' := (d.span.contains_iff x).mpr within
        rw [if_pos ⟨rfl, within⟩, part.pixels x within']
        exact .inl ⟨.inl ⟨rfl, within'⟩, rfl⟩
      · rw [if_neg inside]
        refine .inr ⟨?_, rfl⟩
        rintro (⟨hline, hcolumn⟩ | later)
        · exact inside ⟨hline.symm, (d.span.contains_iff x).mp hcolumn⟩
        · exact never later

/-! ## Lines that are tracked -/

/-- What covers the change of a line goes on covering it. -/
theorem Tracks.records {y : Nat} {l l' : CacheLine g} (tracks : s.Tracks y l) {d : Damage}
    (records : d.Records l.pixels.byteAt l'.pixels) (damage : l'.damage = l.damage.merge d) :
    s.Tracks y l' := by
  intro x hx
  rw [damage]
  rcases tracks x hx with covered | shown
  · exact .inl (covered.merge_left d)
  · by_cases same : l'.pixels.byteAt x = l.pixels.byteAt x
    · exact .inr (same ▸ shown)
    · rw [l'.pixels.byteAt_of_lt hx] at same
      exact .inl ((records.covers ⟨x, hx⟩ same).merge_right l.damage)

theorem tracks_of_covers (s : FullFrame) (y : Nat) {l : CacheLine g}
    (covers : ∀ x < g.width, l.damage.Covers x) : s.Tracks y l :=
  fun x hx => .inl (covers x hx)

theorem Shows.tracks {y : Nat} {l l' : CacheLine g} (shows : s.Shows y l)
    (pixels : l'.pixels = l.pixels) : s.Tracks y l' :=
  fun x hx => .inr (pixels ▸ shows x hx)

theorem Tracks.resize (fits : s.Fits w h) {y : Nat} {l : CacheLine g} (tracks : s.Tracks y l) :
    (s.resize w h).Tracks y l := by
  unfold FullFrame.resize
  split
  · exact tracks
  · next other =>
    intro x hx
    rcases tracks x hx with covered | shown
    · exact .inl covered
    · -- A sink of another size has taken no frame, so it shows nothing.
      rcases fits.measures with none | ⟨rfl, rfl⟩
      · unfold pixel? at shown
        rw [if_neg (by omega)] at shown
        exact absurd shown (by simp)
      · exact absurd ⟨rfl, rfl⟩ other

theorem resize_frame (s : FullFrame) (w h : Nat) (size : s.rgba.size = s.height * s.width * 4) :
    (s.resize w h).palette = s.palette ∧ (s.resize w h).width = w ∧ (s.resize w h).height = h ∧
      (s.resize w h).rgba.size = h * w * 4 := by
  unfold resize
  split
  · next same =>
    obtain ⟨rfl, rfl⟩ := same
    exact ⟨rfl, rfl, rfl, size⟩
  · refine ⟨rfl, rfl, rfl, ?_⟩
    show (zeros (w * h * 4)).size = _
    rw [Nat.mul_comm h w]
    exact Array.size_replicate

/-- Where the measures change, everything is dark. -/
theorem pixel?_resize {x y : Nat} (other : w ≠ s.width) (hx : x < w) (hy : y < h) :
    (s.resize w h).pixel? x y = some [0, 0, 0, 0] := by
  have zero : ∀ i : Nat, (zeros (w * h * 4)).data[i]?.getD 0 = 0 := by
    intro i
    show (Array.replicate (w * h * 4) (0 : UInt8))[i]?.getD 0 = 0
    rw [Array.getElem?_replicate]
    split <;> rfl
  unfold resize
  rw [if_neg fun same => other same.1]
  simp only [pixel?, zero]
  rw [if_pos ⟨hx, hy⟩]
  rfl

/-! ## Frames -/

/-- A frame patches the copy, which has its measures then. -/
theorem present_ok {f : Frame g} (fits : s.Fits g.width f.cache.height)
    (hrun : s.present f = .ok s') :
    s'.Fits g.width f.cache.height ∧ s'.palette = s.palette ∧ s'.width = g.width ∧
      s'.height = f.cache.height ∧
      ∀ (y : Nat) (l : CacheLine g) (x : Nat), f.cache.lines[y]? = some l → x < g.width →
        (l.damage.Covers x ∧ s'.pixel? x y = some (s.palette.rgba (l.pixels.byteAt x)) ∨
          ¬l.damage.Covers x ∧
            s'.pixel? x y = (s.resize g.width f.cache.height).pixel? x y) := by
  obtain ⟨dirty, hdirty, hret⟩ := bind_eq_ok.mp hrun
  cases hret
  obtain ⟨palette, width, height, size⟩ := s.resize_frame g.width f.cache.height fits.size
  obtain ⟨palette', width', height', size'⟩ :=
    foldl_patchLine_frame dirty (s.resize g.width f.cache.height)
  have made : (s.resize g.width f.cache.height).rgba.size =
      (s.resize g.width f.cache.height).height * (s.resize g.width f.cache.height).width * 4 := by
    rw [size, width, height]
  refine ⟨⟨?_, .inr ⟨width'.trans width, height'.trans height⟩⟩, palette'.trans palette,
    width'.trans width, height'.trans height, ?_⟩
  · show (dirty.foldl patchLine (s.resize g.width f.cache.height)).rgba.size = _ * _ * 4
    rw [size', made, width', height']
  intro y l x hl hx
  obtain ⟨found, hfound, hof, all⟩ := (Cache.view_trails hdirty).dirtyLines
  obtain rfl : found = dirty := Except.ok.inj (hfound.symm.trans hdirty)
  have hy : y < f.cache.height := (Array.getElem?_eq_some_iff.mp hl).1
  rw [← palette, ← f.cache.view_of_line hl]
  -- A pixel is among the changed parts just if the damage of its line covers it.
  rcases pixel?_foldl made width height hof hx hy with ⟨⟨d, hd, rfl, within⟩, shown⟩ | ⟨never, same⟩
  · obtain ⟨l', hl', damage⟩ := Cache.damage_of_dirty hdirty hd
    obtain rfl := Option.some.inj (hl.symm.trans hl')
    exact .inl ⟨⟨d.span, damage, within⟩, shown⟩
  · exact .inr ⟨fun covered => never (all y l x hl covered), same⟩

/-- Behind a frame the sink shows every line that it tracked. -/
theorem Tracks.present {f : Frame g} (fits : s.Fits g.width f.cache.height)
    (hrun : s.present f = .ok s') {y : Nat} {l : CacheLine g} (hl : f.cache.lines[y]? = some l)
    (tracks : s.Tracks y l) : s'.Shows y l := by
  obtain ⟨-, palette, -, -, pixels⟩ := present_ok fits hrun
  intro x hx
  rw [palette]
  rcases pixels y l x hl hx with ⟨-, shown⟩ | ⟨never, same⟩
  · exact shown
  · rw [same, ← (s.resize_frame g.width f.cache.height fits.size).1]
    exact (tracks.resize fits x hx).resolve_left never

end FullFrame

end C64.Raster
