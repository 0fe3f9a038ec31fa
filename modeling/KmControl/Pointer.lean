import KmControl.ControlRoundTrip
import KmControl.KeyhookLines

/-!
The pointer from end to end. A position on the canvas goes as a line of text to the
admin, as an input message to the host, and there as absolute coordinates into the
desktop. The sides of a canvas fit sixteen bits, so nothing is cut off on the way.
-/
namespace KmControl.Pointer

open ControlWire HostControl MoonControl ControlRoundTrip Keyhook KeyhookLines

/-- A range of pixels on one axis, `hi` excluded, as long as an `i16` can say. -/
structure Side where
  lo : Int32
  hi : Int32
  nonempty : lo.toInt < hi.toInt
  fits : hi.toInt - lo.toInt ≤ 32767

def Side.Contains (side : Side) (p : Int32) : Prop := side.lo ≤ p ∧ p < side.hi

/-- The rectangle of the screen in which the stream is shown. -/
structure Canvas where
  columns : Side
  rows : Side

/-- The hook process has been told this rectangle. -/
structure Canvas.Shown (c : Canvas) (s : Sidecar) : Prop where
  rectSet : s.rectSet = true
  rectL : s.rectL = c.columns.lo
  rectT : s.rectT = c.rows.lo
  rectR : s.rectR = c.columns.hi
  rectB : s.rectB = c.rows.hi

section Chain

variable (gcm : AesGcm) (key : Key) (seq : UInt32)

/-- What a line leads to at the host: the admin's client seals the input that the line asks
for, and the host performs it. -/
def performed (line : Line) : List Input :=
  match handleLine (text line) with
  | some (.input ev) =>
    (handlePacket gcm (some ⟨key.bytes⟩)
      (encodeEncrypted gcm key seq msgInputData (encodeInput ev))).flatMap fun effect =>
        match effect with
        | .inject payload => inject payload
        | _ => []
  | _ => []

/-- What a position of the pointer leads to. -/
def placed (s : Sidecar) (px py : Int32) : List Input :=
  match s.updateHover px py with
  | some (_, some (x, y, w, h)) => performed gcm key seq (.mouseMove x y w h)
  | _ => []

theorem performed_mouseMove (x y w h : Int32) :
    performed gcm key seq (.mouseMove x y w h) =
      mouseMoveAbs x.toInt16.toInt32 y.toInt16.toInt32 w.toInt16.toInt32 h.toInt16.toInt32 := by
  let ev := InputEvent.mousePosition x.toInt16 y.toInt16 w.toInt16 h.toInt16
  have hline : handleLine (text (.mouseMove x y w h)) = some (.input ev) := handleLine_text nofun
  have hpacket := handlePacket_encodeEncrypted gcm key seq msgInputData (length_encodeInput_le ev)
  have hdispatch : dispatch msgInputData (encodeInput ev) = [Effect.inject (encodeInput ev)] := rfl
  have hinject : inject (encodeInput ev) = perform (meant ev) := by
    unfold inject
    rw [parseInput_encodeInput]
    rfl
  unfold performed
  rw [hline]
  dsimp only
  rw [hpacket, hdispatch, List.flatMap_singleton]
  exact hinject

end Chain

section Integers

variable {x y w : Int32}

theorem toInt32_toInt16 (hlo : 0 ≤ x.toInt) (hhi : x.toInt ≤ 32767) : x.toInt16.toInt32 = x := by
  rw [← Int32.toInt_inj, Int16.toInt_toInt32, Int32.toInt_toInt16]
  exact Int.bmod_eq_of_le (by omega) (by omega)

theorem toInt_sub (hlo : 0 ≤ x.toInt - y.toInt) (hhi : x.toInt - y.toInt ≤ 32767) :
    (x - y).toInt = x.toInt - y.toInt := by
  rw [Int32.toInt_sub]
  exact Int.bmod_eq_of_le (by omega) (by omega)

/-- One of the two absolute coordinates. -/
def scaled (x w : Int32) : Int32 := (x.toInt64 * 65535 / w.toInt64).toInt32

/-- The quotient is that of the integers, and at most 65535. -/
theorem toInt_scaled (hx : 0 ≤ x.toInt) (hlt : x.toInt < w.toInt) (hw : w.toInt ≤ 32767) :
    (scaled x w).toInt = x.toInt * 65535 / w.toInt ∧ (scaled x w).toInt ≤ 65535 ∧
      0 ≤ (scaled x w).toInt := by
  have hconst : (65535 : Int64).toInt = 65535 := rfl
  have hmul : (x.toInt64 * 65535).toInt = x.toInt * 65535 := by
    rw [Int64.toInt_mul, Int32.toInt_toInt64, hconst]
    exact Int.bmod_eq_of_le (by omega) (by omega)
  have hnonneg : 0 ≤ x.toInt * 65535 / w.toInt := Int.ediv_nonneg (by omega) (by omega)
  have hle : x.toInt * 65535 / w.toInt ≤ 65535 := by
    refine Int.ediv_le_of_le_mul (by omega) ?_
    rw [Int.mul_comm]
    exact Int.mul_le_mul_of_nonneg_left hlt.le (by decide)
  have hdiv : (x.toInt64 * 65535 / w.toInt64).toInt = x.toInt * 65535 / w.toInt := by
    rw [Int64.toInt_div, hmul, Int32.toInt_toInt64, Int.tdiv_eq_ediv_of_nonneg (by omega)]
    exact Int.bmod_eq_of_le (by omega) (by omega)
  have hscaled : (scaled x w).toInt = x.toInt * 65535 / w.toInt := by
    unfold scaled
    rw [Int64.toInt_toInt32, hdiv]
    exact Int.bmod_eq_of_le (by omega) (by omega)
  exact ⟨hscaled, hscaled ▸ hle, hscaled ▸ hnonneg⟩

/-- As the side is at most half of 65535, one step more is at least one coordinate more. -/
theorem scaled_lt_scaled (hx : 0 ≤ x.toInt) (hxy : x.toInt < y.toInt) (hlt : y.toInt < w.toInt)
    (hw : w.toInt ≤ 32767) : scaled x w < scaled y w := by
  obtain ⟨hxs, -, -⟩ := toInt_scaled hx (hxy.trans hlt) hw
  obtain ⟨hys, -, -⟩ := toInt_scaled (hx.trans hxy.le) hlt hw
  rw [Int32.lt_iff_toInt_lt, hxs, hys]
  have hstep : x.toInt * 65535 / w.toInt + 1 ≤ (x.toInt * 65535 + w.toInt) / w.toInt :=
    (Int.add_ediv_of_dvd_right (Int.dvd_refl _)).symm ▸ by rw [Int.ediv_self (by omega)]
  exact Int.lt_of_lt_of_le hstep (Int.ediv_le_ediv (by omega) (by omega))

end Integers

section Positions

variable {side : Side} {p q : Int32}

/-- Neither difference leaves the range of an `i32`, nor that of an `i16`. -/
theorem offset (h : side.Contains p) :
    (p - side.lo).toInt = p.toInt - side.lo.toInt ∧
      (side.hi - side.lo).toInt = side.hi.toInt - side.lo.toInt ∧ 0 ≤ (p - side.lo).toInt ∧
      (p - side.lo).toInt < (side.hi - side.lo).toInt ∧ (side.hi - side.lo).toInt ≤ 32767 := by
  have hlo := Int32.le_iff_toInt_le.mp h.1
  have hhi := Int32.lt_iff_toInt_lt.mp h.2
  have hfits := side.fits
  have hposition : (p - side.lo).toInt = p.toInt - side.lo.toInt := toInt_sub (by omega) (by omega)
  have hlength : (side.hi - side.lo).toInt = side.hi.toInt - side.lo.toInt :=
    toInt_sub (by omega) (by omega)
  exact ⟨hposition, hlength, by omega, by omega, by omega⟩

theorem clamp_offset (h : side.Contains p) :
    Sidecar.clamp (p - side.lo) 0 (side.hi - side.lo - 1) = some (p - side.lo) := by
  obtain ⟨-, -, hnonneg, hlt, hfits⟩ := offset h
  have hone : (side.hi - side.lo - 1).toInt = (side.hi - side.lo).toInt - 1 := by
    rw [Int32.toInt_sub]
    exact Int.bmod_eq_of_le (by change _ ≤ _ - 1; omega) (by change _ - 1 < _; omega)
  have hbounds : ¬ side.hi - side.lo - 1 < 0 := by
    rw [Int32.lt_iff_toInt_lt, hone]
    change ¬ _ < 0
    omega
  have hlow : ¬ p - side.lo < 0 := by
    rw [Int32.lt_iff_toInt_lt]
    change ¬ _ < 0
    omega
  have hhigh : ¬ side.hi - side.lo - 1 < p - side.lo := by
    rw [Int32.lt_iff_toInt_lt, hone]
    omega
  unfold Sidecar.clamp
  rw [if_neg hbounds, if_neg hlow, if_neg hhigh]

/-- The coordinate of a position on the side. -/
def coordinate (side : Side) (p : Int32) : Int32 := scaled (p - side.lo) (side.hi - side.lo)

theorem coordinate_bounds (h : side.Contains p) :
    0 ≤ (coordinate side p).toInt ∧ (coordinate side p).toInt ≤ 65535 := by
  obtain ⟨-, -, hnonneg, hlt, hfits⟩ := offset h
  obtain ⟨-, hle, hge⟩ := toInt_scaled hnonneg hlt hfits
  exact ⟨hge, hle⟩

theorem coordinate_lt (hp : side.Contains p) (hq : side.Contains q) (h : p < q) :
    coordinate side p < coordinate side q := by
  obtain ⟨hpos, -, hnonneg, -, -⟩ := offset hp
  obtain ⟨hpos', -, -, hlt, hfits⟩ := offset hq
  have hpq := Int32.lt_iff_toInt_lt.mp h
  exact scaled_lt_scaled hnonneg (by omega) hlt hfits

end Positions

section Canvas

variable {c : Canvas} {s : Sidecar} {px py : Int32}

theorem shown_onCommand (c : Canvas) (s : Sidecar) :
    c.Shown (s.onCommand (.rect c.columns.lo c.rows.lo c.columns.hi c.rows.hi)) where
  rectSet := by
    have hcolumns := Int32.lt_iff_toInt_lt.mpr c.columns.nonempty
    have hrows := Int32.lt_iff_toInt_lt.mpr c.rows.nonempty
    change (decide _ && decide _) = true
    rw [decide_eq_true hcolumns, decide_eq_true hrows]
    rfl
  rectL := rfl
  rectT := rfl
  rectR := rfl
  rectB := rfl

theorem updateHover_inside (hs : c.Shown s) (hx : c.columns.Contains px) (hy : c.rows.Contains py) :
    s.updateHover px py = some (s.setHovering true, some (px - c.columns.lo, py - c.rows.lo,
      c.columns.hi - c.columns.lo, c.rows.hi - c.rows.lo)) := by
  have hcolumns : ¬ c.columns.hi ≤ c.columns.lo := by
    rw [Int32.le_iff_toInt_le]
    exact not_le.mpr c.columns.nonempty
  have hrows : ¬ c.rows.hi ≤ c.rows.lo := by
    rw [Int32.le_iff_toInt_le]
    exact not_le.mpr c.rows.nonempty
  have hinside : (decide (c.columns.lo ≤ px) && decide (px < c.columns.hi) &&
      decide (c.rows.lo ≤ py) && decide (py < c.rows.hi)) = true := by
    rw [decide_eq_true hx.1, decide_eq_true hx.2, decide_eq_true hy.1, decide_eq_true hy.2]
    rfl
  unfold Sidecar.updateHover
  rw [hs.rectSet, hs.rectL, hs.rectT, hs.rectR, hs.rectB]
  dsimp only
  rw [hinside, decide_eq_false hcolumns, decide_eq_false hrows]
  simp only [Bool.not_true, Bool.or_false, Bool.false_eq_true, if_false]
  rw [clamp_offset hx, clamp_offset hy]
  rfl

/-- A movement over the canvas is put out as a line while the gate is open. -/
theorem mouseProc_move (hs : c.Shown s) (hx : c.columns.Contains px) (hy : c.rows.Contains py)
    (hstreaming : s.streaming = true) (hfocused : s.focused = true) (mouseData : UInt32) :
    (s.mouseProc .move mouseData px py).out = (s.setHovering true).out ++
      [.mouseMove (px - c.columns.lo) (py - c.rows.lo) (c.columns.hi - c.columns.lo)
        (c.rows.hi - c.rows.lo)] := by
  have hactive : (s.setHovering true).active = true := by
    unfold Sidecar.setHovering Sidecar.active
    split <;> rename_i hhover
    · rw [hstreaming, hfocused, ← hhover]
      rfl
    · change (s.streaming && s.focused && true) = true
      rw [hstreaming, hfocused]
      rfl
  unfold Sidecar.mouseProc
  rw [updateHover_inside hs hx hy]
  change (Sidecar.onMotion _ _ _ _).out = _
  unfold Sidecar.onMotion
  rw [hactive]
  rfl

/-- The pointer from end to end: the host gets the offsets and sides that the hook process has
computed; each axis has coordinates from 0 to 65535 that rise from pixel to pixel. -/
theorem pointer_mapping (gcm : AesGcm) (key : Key) (seq : UInt32) (hs : c.Shown s) :
    (∀ px py, c.columns.Contains px → c.rows.Contains py → ∃ x y w h : Int32,
      s.updateHover px py = some (s.setHovering true, some (x, y, w, h)) ∧
        (s.streaming = true → s.focused = true → ∀ mouseData,
          (s.mouseProc .move mouseData px py).out =
            (s.setHovering true).out ++ [.mouseMove x y w h]) ∧
        x.toInt = px.toInt - c.columns.lo.toInt ∧ y.toInt = py.toInt - c.rows.lo.toInt ∧
        w.toInt = c.columns.hi.toInt - c.columns.lo.toInt ∧
        h.toInt = c.rows.hi.toInt - c.rows.lo.toInt ∧
        placed gcm key seq s px py = mouseMoveAbs x y w h) ∧
      ∃ column row : Int32 → Int32,
        (∀ px py, c.columns.Contains px → c.rows.Contains py →
          placed gcm key seq s px py = [Input.mouse [.move, .absolute] (column px) (row py) 0]) ∧
        (∀ p, c.columns.Contains p → 0 ≤ (column p).toInt ∧ (column p).toInt ≤ 65535) ∧
        (∀ p, c.rows.Contains p → 0 ≤ (row p).toInt ∧ (row p).toInt ≤ 65535) ∧
        (∀ p q, c.columns.Contains p → c.columns.Contains q → p < q → column p < column q) ∧
        ∀ p q, c.rows.Contains p → c.rows.Contains q → p < q → row p < row q := by
  have hplaced : ∀ px py, c.columns.Contains px → c.rows.Contains py →
      placed gcm key seq s px py = mouseMoveAbs (px - c.columns.lo) (py - c.rows.lo)
        (c.columns.hi - c.columns.lo) (c.rows.hi - c.rows.lo) := by
    intro px py hx hy
    obtain ⟨-, -, hx₀, hxlt, hxfits⟩ := offset hx
    obtain ⟨-, -, hy₀, hylt, hyfits⟩ := offset hy
    unfold placed
    rw [updateHover_inside hs hx hy]
    dsimp only
    rw [performed_mouseMove, toInt32_toInt16 hx₀ (by omega), toInt32_toInt16 hy₀ (by omega),
      toInt32_toInt16 (by omega) hxfits, toInt32_toInt16 (by omega) hyfits]
  refine ⟨fun px py hx hy => ?_, coordinate c.columns, coordinate c.rows, fun px py hx hy => ?_,
    fun p => coordinate_bounds, fun p => coordinate_bounds, fun p q => coordinate_lt,
    fun p q => coordinate_lt⟩
  · obtain ⟨hposition, hwidth, -, -, -⟩ := offset hx
    obtain ⟨hposition', hheight, -, -, -⟩ := offset hy
    exact ⟨_, _, _, _, updateHover_inside hs hx hy, fun hstreaming hfocused =>
      mouseProc_move hs hx hy hstreaming hfocused, hposition, hposition', hwidth, hheight,
      hplaced px py hx hy⟩
  · obtain ⟨-, -, hx₀, hxlt, hxfits⟩ := offset hx
    obtain ⟨-, -, hy₀, hylt, hyfits⟩ := offset hy
    have hsides : ¬ (c.columns.hi - c.columns.lo ≤ 0 ∨ c.rows.hi - c.rows.lo ≤ 0) := by
      rw [Int32.le_iff_toInt_le, Int32.le_iff_toInt_le]
      change ¬ (_ ≤ 0 ∨ _ ≤ 0)
      omega
    rw [hplaced px py hx hy]
    exact if_neg hsides

/-- A canvas to the left of the main screen. -/
def leftCanvas : Canvas := ⟨⟨-1920, -920, by decide, by decide⟩, ⟨100, 700, by decide, by decide⟩⟩

theorem pointer_on_leftCanvas : ∃ column row : Int32 → Int32,
    (∀ px py, leftCanvas.columns.Contains px → leftCanvas.rows.Contains py →
      placed aes128Gcm zeroKey 7 (Sidecar.new.onCommand (.rect (-1920) 100 (-920) 700)) px py =
        [Input.mouse [.move, .absolute] (column px) (row py) 0]) ∧ column (-921) ≠ column (-922) := by
  obtain ⟨-, column, row, hplaced, -, -, hlt, -⟩ :=
    pointer_mapping aes128Gcm zeroKey 7 (shown_onCommand leftCanvas Sidecar.new)
  exact ⟨column, row, hplaced, (Int32.ne_of_lt (hlt (-922) (-921) (by unfold Side.Contains; decide)
    (by unfold Side.Contains; decide) (by decide))).symm⟩

end Canvas

end KmControl.Pointer
